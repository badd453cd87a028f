import BbzPlatform.Lib.Bytes
import Mathlib.Data.Rat.Floor

/-!
# The confirm token of a reactivation

Reactivating an archived event takes two requests.  The first one mints a token, the second one
presents it.  The token is not stored: its body names the event, the user, the version of the event
and the time at which it expires, and a signature under the key of the application follows it.

A token is not the only text that stands for its body, since the decoder of base64 is lenient.  What
counts is what a text decodes to.
-/

namespace BbzPlatform.Events.Reactivation

open Bytes List

/-- Lower-case hexadecimal digits in groups of 8, 4, 4, 4 and 12. -/
def isUuidText (cs : List Char) : Bool :=
  cs.length = 36 && cs.zipIdx.all fun (c, i) =>
    if i ∈ [8, 13, 18, 23] then c = '-' else c.isDigit || ('a' ≤ c && c ≤ 'f')

@[ext] structure Uuid where
  text : String
  canonical : isUuidText text.toList = true
  deriving DecidableEq

/-- `_payload`. -/
def payload (eventId userId : Uuid) (version expiry : ℤ) : List UInt8 :=
  ofString (eventId.text ++ "|" ++ userId.text ++ "|" ++ toString version ++ "|" ++ toString expiry)

/-- `_b64`. -/
def b64 (raw : List UInt8) : String := String.ofList (unpad64 (encode64 raw))

/-- Round towards zero. -/
def truncate (x : ℚ) : ℤ := if 0 ≤ x then ⌊x⌋ else ⌈x⌉

/-- Why a token is refused. -/
inductive TokenError where
  | reactivationToken (message : String)
  | indexError
  deriving DecidableEq

section

variable (sign : List UInt8 → List UInt8)

def mintToken (eventId userId : Uuid) (version : ℤ) (now : ℚ) (ttl : ℤ) : String × ℤ :=
  let expiry := truncate (now + ttl)
  let body := payload eventId userId version expiry
  (b64 body ++ "." ++ b64 (sign body), expiry)

def decodeToken (token : String) : Option (List UInt8 × List UInt8) :=
  let cs := token.toList
  if cs = [] ∨ cs.count '.' ≠ 1 then none
  else
    match decode64 (pad64 (cs.takeWhile (· ≠ '.'))),
        decode64 (pad64 (cs.dropWhile (· ≠ '.')).tail) with
    | some body, some sig => some (body, sig)
    | _, _ => none

/-- Refuse a token that was not minted for this event, user and version, or has expired. -/
def verifyToken (token : String) (eventId userId : Uuid) (version : ℤ) (now : ℚ) :
    Except TokenError Unit :=
  match decodeToken token with
  | none => .error (.reactivationToken "malformed reactivation token")
  | some (body, gotSig) =>
    if gotSig ≠ sign body then
      .error (.reactivationToken "reactivation token signature mismatch")
    else
      let expected := (rsplit 124 (payload eventId userId version 0)).headD []
      if ¬ expected ++ [124] <+: body then
        .error (.reactivationToken "reactivation token does not match this request")
      else
        match (rsplit 124 body)[1]? with
        | none => .error .indexError
        | some text =>
          match parseInt text with
          | none => .error (.reactivationToken "malformed reactivation token")
          | some expiry =>
            if expiry ≤ now then
              .error (.reactivationToken "reactivation token has expired")
            else .ok ()

end

/-- A call of `mintToken`. -/
structure Mint where
  eventId : Uuid
  userId : Uuid
  version : ℤ
  now : ℚ
  ttl : ℤ
  deriving DecidableEq

namespace Mint

/-- When the token expires. -/
def expiry (mint : Mint) : ℤ := truncate (mint.now + mint.ttl)

/-- What the token says. -/
def body (mint : Mint) : List UInt8 :=
  payload mint.eventId mint.userId mint.version mint.expiry

def token (sign : List UInt8 → List UInt8) (mint : Mint) : String :=
  (mintToken sign mint.eventId mint.userId mint.version mint.now mint.ttl).1

end Mint

/-- The signature cannot be forged: if a text carries a good one, its body was minted. -/
def Unforged (sign : List UInt8 → List UInt8) (minted : List Mint) (token : String) : Prop :=
  ∀ body, decodeToken token = some (body, sign body) → ∃ mint ∈ minted, mint.body = body

/-! ## The body -/

theorem mem_uuid {id : Uuid} {c : Char} (h : c ∈ id.text.toList) :
    c = '-' ∨ c.isDigit = true ∨ ('a' ≤ c ∧ c ≤ 'f') := by
  obtain ⟨i, hi, rfl⟩ := getElem_of_mem h
  have hall := id.canonical
  simp only [isUuidText, Bool.and_eq_true, all_eq_true] at hall
  have hchar := hall.2 (id.text.toList[i], i)
    (mk_mem_zipIdx_iff_getElem?.2 (getElem?_eq_getElem hi))
  split at hchar
  · exact .inl (of_decide_eq_true hchar)
  · simpa using Or.inr hchar

theorem sep_not_mem_uuid (id : Uuid) : (124 : UInt8) ∉ ofString id.text := by
  have hrange : ∀ c ∈ id.text.toList, c.toNat < 124 := by
    intro c hc
    rcases mem_uuid hc with rfl | hdigit | ⟨-, hle⟩
    · decide
    · rw [Char.isDigit_iff_toNat] at hdigit
      exact lt_of_le_of_lt hdigit.2 (by decide)
    · exact lt_of_le_of_lt hle (by decide)
  rw [ofString_ascii fun c hc => (hrange c hc).trans (by decide), mem_map]
  rintro ⟨c, hc, hbyte⟩
  have hlt := hrange c hc
  rw [← toNat_byte (hlt.trans (by decide)), hbyte] at hlt
  exact absurd hlt (by decide)

theorem sep_not_mem_decimal (n : ℤ) : (124 : UInt8) ∉ ofString (toString n) := by
  intro h
  rcases mem_ofString_toString h with h | ⟨-, h⟩
  · exact absurd h (by decide)
  · exact absurd h (by decide)

theorem payload_eq (eventId userId : Uuid) (version expiry : ℤ) :
    payload eventId userId version expiry =
      ofString eventId.text ++ 124 :: (ofString userId.text ++ 124 ::
        (ofString (toString version) ++ 124 :: ofString (toString expiry))) := by
  have hsep : ofString "|" = [124] := rfl
  simp [payload, ofString_append, hsep]

/-- What a request expects a body to begin with. -/
theorem rsplit_payload (eventId userId : Uuid) (version expiry : ℤ) :
    rsplit 124 (payload eventId userId version expiry) =
      [ofString eventId.text ++ 124 :: (ofString userId.text ++ 124 :: ofString (toString version)),
        ofString (toString expiry)] := by
  rw [← rsplit_append _ (sep_not_mem_decimal expiry), payload_eq]
  simp

variable {eventId userId : Uuid} {version : ℤ} {sign : List UInt8 → List UInt8} {token : String}

/-- **A body begins with what a request expects iff it was made for the same event, user and
version.** -/
theorem expected_prefix_iff {eventId' userId' : Uuid} {version' x : ℤ} :
    (rsplit 124 (payload eventId userId version 0)).headD [] ++ [124] <+:
        payload eventId' userId' version' x ↔
      eventId' = eventId ∧ userId' = userId ∧ version' = version := by
  rw [rsplit_payload, headD_cons]
  constructor
  · rintro ⟨rest, hrest⟩
    rw [payload_eq] at hrest
    simp only [append_assoc, cons_append, nil_append] at hrest
    obtain ⟨hevent, hrest⟩ := append_sep_inj (sep_not_mem_uuid _) (sep_not_mem_uuid _) hrest
    obtain ⟨huser, hrest⟩ := append_sep_inj (sep_not_mem_uuid _) (sep_not_mem_uuid _) hrest
    obtain ⟨hversion, -⟩ := append_sep_inj (sep_not_mem_decimal _) (sep_not_mem_decimal _) hrest
    have hread := congrArg parseInt hversion
    rw [parseInt_ofString, parseInt_ofString] at hread
    exact ⟨Uuid.ext (ofString_injective hevent).symm, Uuid.ext (ofString_injective huser).symm,
      (Option.some.inj hread).symm⟩
  · rintro ⟨rfl, rfl, rfl⟩
    refine ⟨ofString (toString x), ?_⟩
    rw [payload_eq]
    simp

/-! ## The token -/

/-- **A minted token decodes to its body and the signature of it.** -/
theorem decodeToken_token (sign : List UInt8 → List UInt8) (mint : Mint) :
    decodeToken (mint.token sign) = some (mint.body, sign mint.body) := by
  have hchars : (mint.token sign).toList =
      unpad64 (encode64 mint.body) ++ '.' :: unpad64 (encode64 (sign mint.body)) := by
    simp [Mint.token, mintToken, b64, Mint.body, Mint.expiry]
  have hfirst : ∀ c ∈ unpad64 (encode64 mint.body), decide (c ≠ '.') = true := by
    intro c hc
    refine decide_eq_true ?_
    rintro rfl
    exact dot_not_mem_unpad64_encode64 _ hc
  have hcount : (mint.token sign).toList.count '.' = 1 := by
    rw [hchars, count_append, count_cons_self,
      count_eq_zero.2 (dot_not_mem_unpad64_encode64 _),
      count_eq_zero.2 (dot_not_mem_unpad64_encode64 _)]
  have htake : (mint.token sign).toList.takeWhile (· ≠ '.') = unpad64 (encode64 mint.body) := by
    rw [hchars, takeWhile_append_of_pos hfirst]
    simp
  have hdrop : ((mint.token sign).toList.dropWhile (· ≠ '.')).tail =
      unpad64 (encode64 (sign mint.body)) := by
    rw [hchars, dropWhile_append_of_pos hfirst]
    simp
  have hne : ¬ ((mint.token sign).toList = [] ∨ (mint.token sign).toList.count '.' ≠ 1) := by
    rw [hcount, hchars]
    simp
  simp only [decodeToken]
  rw [if_neg hne, htake, hdrop, pad64_unpad64_encode64, pad64_unpad64_encode64,
    decode64_encode64, decode64_encode64]

/-- What a token must carry to be accepted. -/
theorem verifyToken_ok {now : ℚ} (h : verifyToken sign token eventId userId version now = .ok ()) :
    ∃ body, decodeToken token = some (body, sign body) ∧
      (rsplit 124 (payload eventId userId version 0)).headD [] ++ [124] <+: body ∧
      ∃ text ∈ (rsplit 124 body)[1]?, ∃ expiry ∈ parseInt text, now < expiry := by
  unfold verifyToken at h
  split at h
  · cases h
  next body gotSig hdecode =>
    split_ifs at h with hsig
    rw [not_not] at hsig
    subst hsig
    dsimp only at h
    split at h
    · cases h
    next hprefix =>
      rw [not_not] at hprefix
      split at h
      · cases h
      next text htext =>
        split at h
        · cases h
        next expiry hexpiry =>
          split_ifs at h with hnow
          exact ⟨body, hdecode, hprefix, text, htext, expiry, hexpiry, not_le.1 hnow⟩

/-- **On a token with a minted body**, the check compares the fields and the time. -/
theorem verifyToken_of_carries {mint : Mint}
    (hcarries : decodeToken token = some (mint.body, sign mint.body)) (eventId userId : Uuid)
    (version : ℤ) (now : ℚ) :
    verifyToken sign token eventId userId version now = .ok () ↔
      mint.eventId = eventId ∧ mint.userId = userId ∧ mint.version = version ∧
        now < mint.expiry := by
  have hexpiry : (rsplit 124 mint.body)[1]? = some (ofString (toString mint.expiry)) := by
    rw [Mint.body, rsplit_payload]
    rfl
  constructor
  · intro h
    obtain ⟨body, hdecode, hprefix, text, htext, expiry, hparse, hnow⟩ := verifyToken_ok h
    rw [hcarries] at hdecode
    obtain ⟨rfl, -⟩ := Prod.mk.inj (Option.some.inj hdecode)
    rw [hexpiry] at htext
    cases htext
    rw [parseInt_ofString] at hparse
    cases hparse
    obtain ⟨hevent, huser, hversion⟩ := expected_prefix_iff.1 hprefix
    exact ⟨hevent, huser, hversion, hnow⟩
  · rintro ⟨hevent, huser, hversion, hnow⟩
    have hprefix : (rsplit 124 (payload eventId userId version 0)).headD [] ++ [124] <+:
        mint.body := expected_prefix_iff.2 ⟨hevent, huser, hversion⟩
    simp only [verifyToken, hcarries, ne_eq, not_true_eq_false, if_false, hprefix, hexpiry,
      parseInt_ofString, if_neg (not_le.2 hnow)]

/-- **A token is accepted iff it decodes to one that was minted** for the same event, user and
version and has not expired. -/
theorem verifyToken_iff {minted : List Mint} (hunforged : Unforged sign minted token)
    (eventId userId : Uuid) (version : ℤ) (now : ℚ) :
    verifyToken sign token eventId userId version now = .ok () ↔
      ∃ mint ∈ minted, decodeToken token = decodeToken (mint.token sign) ∧
        mint.eventId = eventId ∧ mint.userId = userId ∧ mint.version = version ∧
          now < mint.expiry := by
  constructor
  · intro h
    obtain ⟨body, hdecode, -⟩ := verifyToken_ok h
    obtain ⟨mint, hmint, rfl⟩ := hunforged body hdecode
    exact ⟨mint, hmint, by rw [hdecode, decodeToken_token],
      (verifyToken_of_carries hdecode eventId userId version now).1 h⟩
  · rintro ⟨mint, -, hdecode, hfields⟩
    rw [decodeToken_token] at hdecode
    exact (verifyToken_of_carries hdecode eventId userId version now).2 hfields

end BbzPlatform.Events.Reactivation
