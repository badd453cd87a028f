import Mathlib.Data.Char
import Mathlib.Data.List.DropRight
import Mathlib.Data.Int.Init

/-!
# Texts as bytes, decimals and URL-safe base64

The bytes of a text, fields that a separator keeps apart, integers read from a decimal text, and
base64 with the alphabet for URLs.

The base64 decoder is the lenient one: a character outside the alphabet is skipped, both alphabets
are read, and what follows a complete padding is ignored.  Many texts stand for the same bytes, and
the encoder writes one of them.

## Main definitions

* `ofString` — the UTF-8 bytes of a text.
* `rsplit` — the part before and the part after the last separator.
* `parseInt` — an integer, with white space around it and underscores between its digits.
* `encode64`, `decode64` — base64 and back.
-/

namespace Bytes

open List

/-! ## Texts -/

/-- The bytes of a text. -/
def ofString (s : String) : List UInt8 := s.toList.flatMap String.utf8EncodeChar

@[simp] theorem ofString_append (s t : String) : ofString (s ++ t) = ofString s ++ ofString t := by
  simp [ofString]

theorem ofString_injective : Function.Injective ofString := by
  intro s t h
  have hs (s : String) : s.toByteArray = (ofString s).toByteArray := by
    conv_lhs => rw [← String.ofList_toList (s := s), String.toByteArray_ofList]
    rfl
  rw [← String.toByteArray_inj, hs, hs, h]

def byte (c : Char) : UInt8 := UInt8.ofNat c.toNat

variable {c : Char} {sep b : UInt8} {cs : List Char} {n : ℕ}

theorem toNat_byte (h : c.toNat < 128) : (byte c).toNat = c.toNat := by
  rw [byte, UInt8.toNat_ofNat']
  exact Nat.mod_eq_of_lt (h.trans (by decide))

theorem ofString_ascii {s : String} (h : ∀ c ∈ s.toList, c.toNat < 128) :
    ofString s = s.toList.map byte := by
  rw [ofString, map_eq_flatMap]
  refine flatMap_congr fun c hc => ?_
  have hlt := h c hc
  have hsize : c.utf8Size = 1 := by
    have hle : c.val ≤ 127 := UInt32.le_iff_toNat_le.2 (Nat.lt_succ_iff.1 hlt)
    simp [Char.utf8Size, hle]
  rw [String.utf8EncodeChar_eq_singleton hsize]
  rfl

/-! ## Separated fields -/

/-- The first separator ends the first field. -/
theorem append_sep_inj {a a' r r' : List UInt8} (ha : sep ∉ a) (ha' : sep ∉ a')
    (h : a ++ sep :: r = a' ++ sep :: r') : a = a' ∧ r = r' := by
  induction a generalizing a' with
  | nil =>
    cases a' with
    | nil => exact ⟨rfl, (cons.inj h).2⟩
    | cons x a' =>
      obtain ⟨rfl, -⟩ := cons.inj h
      simp at ha'
  | cons x a ih =>
    cases a' with
    | nil =>
      obtain ⟨rfl, -⟩ := cons.inj h
      simp at ha
    | cons y a' =>
      obtain ⟨rfl, htail⟩ := cons.inj h
      obtain ⟨rfl, hr⟩ :=
        ih (not_mem_of_not_mem_cons ha) (not_mem_of_not_mem_cons ha') htail
      exact ⟨rfl, hr⟩

/-- Split at the last separator, if there is one. -/
def rsplit (sep : UInt8) (bs : List UInt8) : List (List UInt8) :=
  if sep ∈ bs then [(bs.rdropWhile (· ≠ sep)).dropLast, bs.rtakeWhile (· ≠ sep)] else [bs]

theorem rsplit_append (a : List UInt8) {b : List UInt8} (h : sep ∉ b) :
    rsplit sep (a ++ sep :: b) = [a, b] := by
  have hb : ∀ x ∈ b.reverse, decide (x ≠ sep) = true := by
    intro x hx
    simp only [decide_eq_true_eq]
    rintro rfl
    exact h (mem_reverse.1 hx)
  have hdrop : (a ++ sep :: b).rdropWhile (· ≠ sep) = a ++ [sep] := by
    rw [rdropWhile, reverse_append, reverse_cons, append_assoc,
      dropWhile_append_of_pos hb]
    simp
  have htake : (a ++ sep :: b).rtakeWhile (· ≠ sep) = b := by
    rw [rtakeWhile, reverse_append, reverse_cons, append_assoc,
      takeWhile_append_of_pos hb]
    simp
  rw [rsplit, if_pos (by simp), hdrop, htake, dropLast_concat]

/-! ## Decimals -/

def isSpace (b : UInt8) : Bool := b = 32 ∨ (9 ≤ b ∧ b ≤ 13)

def digitValue (b : UInt8) : Option ℕ := if 48 ≤ b ∧ b ≤ 57 then some (b.toNat - 48) else none

/-- The digits after a first one; an underscore stands between two of them. -/
def parseDigits : ℕ → List UInt8 → Option ℕ
  | acc, [] => some acc
  | acc, b :: bs =>
    match digitValue b with
    | some d => parseDigits (10 * acc + d) bs
    | none =>
      if b = 95 ∧ (bs.head?.bind digitValue).isSome then parseDigits acc bs else none

/-- A number without a sign. -/
def parseNat : List UInt8 → Option ℕ
  | [] => none
  | b :: bs =>
    match digitValue b with
    | some d => parseDigits d bs
    | none => none

def parseSigned : List UInt8 → Option ℤ
  | [] => none
  | b :: bs =>
    if b = 45 then (parseNat bs).map fun n : ℕ => -(n : ℤ)
    else if b = 43 then (parseNat bs).map fun n : ℕ => (n : ℤ)
    else (parseNat (b :: bs)).map fun n : ℕ => (n : ℤ)

/-- A number with white space around it. -/
def parseInt (bs : List UInt8) : Option ℤ :=
  parseSigned ((bs.dropWhile isSpace).rdropWhile isSpace)

theorem digitValue_byte (h : c.isDigit = true) : digitValue (byte c) = some (c.toNat - 48) := by
  rw [Char.isDigit_iff_toNat] at h
  have hn : (byte c).toNat = c.toNat := toNat_byte (lt_of_le_of_lt h.2 (by decide))
  have h48 : (48 : UInt8) ≤ byte c := UInt8.le_iff_toNat_le.2 (hn ▸ h.1)
  have h57 : byte c ≤ (57 : UInt8) := UInt8.le_iff_toNat_le.2 (hn ▸ h.2)
  rw [digitValue, if_pos ⟨h48, h57⟩, hn]

theorem parseDigits_map_byte (h : ∀ c ∈ cs, c.isDigit = true) (acc : ℕ) :
    parseDigits acc (cs.map byte) = some (Nat.ofDigitChars 10 cs acc) := by
  induction cs generalizing acc with
  | nil => rfl
  | cons c cs ih =>
    rw [map_cons, parseDigits, digitValue_byte (h c mem_cons_self),
      Nat.ofDigitChars_cons]
    exact ih (fun d hd => h d (mem_cons_of_mem c hd)) _

theorem parseNat_map_byte (h : ∀ c ∈ cs, c.isDigit = true) (hne : cs ≠ []) :
    parseNat (cs.map byte) = some (Nat.ofDigitChars 10 cs 0) := by
  obtain ⟨c, cs, rfl⟩ := exists_cons_of_ne_nil hne
  rw [map_cons, parseNat, digitValue_byte (h c mem_cons_self), Nat.ofDigitChars_cons]
  have htail := parseDigits_map_byte (fun d hd => h d (mem_cons_of_mem c hd)) (c.toNat - 48)
  simpa using htail

/-- The text of a natural number. -/
theorem ofString_repr (n : ℕ) : ofString n.repr = (Nat.toDigits 10 n).map byte := by
  have hdigits : ∀ c ∈ n.repr.toList, c.toNat < 128 := by
    intro c hc
    rw [Nat.repr_eq_ofList_toDigits, String.toList_ofList] at hc
    have hdigit := Nat.isDigit_of_mem_toDigits (by decide) (by decide) hc
    rw [Char.isDigit_iff_toNat] at hdigit
    exact lt_of_le_of_lt hdigit.2 (by decide)
  rw [ofString_ascii hdigits, Nat.repr_eq_ofList_toDigits, String.toList_ofList]

theorem parseNat_ofString_repr (n : ℕ) : parseNat (ofString n.repr) = some n := by
  rw [ofString_repr, parseNat_map_byte
    (fun c hc => Nat.isDigit_of_mem_toDigits (by decide) (by decide) hc) Nat.toDigits_ne_nil,
    Nat.ofDigitChars_ten_toDigits]

/-- The text of an integer. -/
theorem ofString_toString (n : ℤ) :
    ofString (toString n) =
      if 0 ≤ n then ofString n.toNat.repr else 45 :: ofString (-n).toNat.repr := by
  have htext : toString n = n.repr := rfl
  rw [htext, Int.repr_eq_if]
  split
  · rfl
  · rw [ofString_append]
    rfl

theorem mem_ofString_repr (h : b ∈ ofString n.repr) : 48 ≤ b ∧ b ≤ 57 := by
  rw [ofString_repr] at h
  obtain ⟨c, hc, rfl⟩ := mem_map.1 h
  have hdigit := digitValue_byte (Nat.isDigit_of_mem_toDigits (by decide) (by decide) hc)
  unfold digitValue at hdigit
  split at hdigit
  · assumption
  · cases hdigit

/-- The bytes of a decimal are digits and perhaps a sign. -/
theorem mem_ofString_toString {n : ℤ} (h : b ∈ ofString (toString n)) :
    b = 45 ∨ (48 ≤ b ∧ b ≤ 57) := by
  rw [ofString_toString] at h
  split at h
  · exact .inr (mem_ofString_repr h)
  · exact (mem_cons.1 h).imp_right mem_ofString_repr

/-- The bytes of a decimal hold no white space. -/
theorem strip_ofString_toString (n : ℤ) :
    ((ofString (toString n)).dropWhile isSpace).rdropWhile isSpace = ofString (toString n) := by
  have hspace : ∀ b ∈ ofString (toString n), ¬ isSpace b = true := by
    intro b hb
    have hcases := mem_ofString_toString hb
    simp only [isSpace, decide_eq_true_eq]
    grind
  rw [dropWhile_eq_self_iff.2, rdropWhile_eq_self_iff.2]
  · exact fun hne => hspace _ (getLast_mem hne)
  · exact fun hlen => hspace _ (getElem_mem hlen)

theorem parseSigned_of_digit (bs : List UInt8) (h : 48 ≤ b) :
    parseSigned (b :: bs) = (parseNat (b :: bs)).map fun n : ℕ => (n : ℤ) := by
  have h45 : b ≠ 45 := by grind
  have h43 : b ≠ 43 := by grind
  rw [parseSigned, if_neg h45, if_neg h43]

/-- **A decimal text is read back.** -/
theorem parseInt_ofString (n : ℤ) : parseInt (ofString (toString n)) = some n := by
  rw [parseInt, strip_ofString_toString, ofString_toString]
  by_cases hn : 0 ≤ n
  · rw [if_pos hn]
    have hparse := parseNat_ofString_repr n.toNat
    cases hbytes : ofString n.toNat.repr with
    | nil => simp [hbytes, parseNat] at hparse
    | cons b bs =>
      have hdigit := mem_ofString_repr (hbytes ▸ mem_cons_self : b ∈ ofString n.toNat.repr)
      rw [parseSigned_of_digit bs hdigit.1, ← hbytes, hparse, Option.map_some,
        Int.toNat_of_nonneg hn]
  · rw [if_neg hn, parseSigned, if_pos rfl, parseNat_ofString_repr, Option.map_some,
      Int.toNat_of_nonneg (by omega), Int.neg_neg]

/-! ## Base64 -/

/-- The character of a value below 64. -/
def symbol (d : ℕ) : Char :=
  if d < 26 then Char.ofNat (65 + d)
  else if d < 52 then Char.ofNat (71 + d)
  else if d < 62 then Char.ofNat (d - 4)
  else if d = 62 then '-' else '_'

/-- The value of a character of either alphabet. -/
def symbolValue (c : Char) : Option ℕ :=
  if 'A' ≤ c ∧ c ≤ 'Z' then some (c.toNat - 65)
  else if 'a' ≤ c ∧ c ≤ 'z' then some (c.toNat - 71)
  else if '0' ≤ c ∧ c ≤ '9' then some (c.toNat + 4)
  else if c = '-' ∨ c = '+' then some 62
  else if c = '_' ∨ c = '/' then some 63
  else none

/-- Three bytes make four characters; the last group is padded. -/
def encode64 : List UInt8 → List Char
  | [] => []
  | [a] => [symbol (a.toNat / 4), symbol (a.toNat % 4 * 16), '=', '=']
  | [a, b] =>
    [symbol (a.toNat / 4), symbol (a.toNat % 4 * 16 + b.toNat / 16),
      symbol (b.toNat % 16 * 4), '=']
  | a :: b :: c :: bs =>
    symbol (a.toNat / 4) :: symbol (a.toNat % 4 * 16 + b.toNat / 16) ::
      symbol (b.toNat % 16 * 4 + c.toNat / 64) :: symbol (c.toNat % 64) :: encode64 bs

/-- Read characters, with the number of them in the current group, the bits of the last one that
make no byte yet, and the padding since. -/
def read64 (quad left pads : ℕ) : List Char → Option (List UInt8)
  | [] => if quad = 0 then some [] else none
  | c :: cs =>
    if c = '=' then
      if 2 ≤ quad then
        -- A complete padding ends the text, whatever follows.
        if 4 ≤ quad + (pads + 1) then some [] else read64 quad left (pads + 1) cs
      else read64 quad left pads cs
    else
      match symbolValue c with
      | none => read64 quad left pads cs
      | some d =>
        match quad with
        | 0 => read64 1 d 0 cs
        | 1 => (read64 2 (d % 16) 0 cs).map (UInt8.ofNat (left * 4 + d / 16) :: ·)
        | 2 => (read64 3 (d % 4) 0 cs).map (UInt8.ofNat (left * 16 + d / 4) :: ·)
        | _ => (read64 0 0 0 cs).map (UInt8.ofNat (left * 64 + d) :: ·)

/-- Decode; only ASCII is accepted. -/
def decode64 (cs : List Char) : Option (List UInt8) :=
  if cs.all (·.toNat < 128) then read64 0 0 0 cs else none

theorem symbolValue_symbol : ∀ d < 64, symbolValue (symbol d) = some d := by decide

theorem symbol_ascii : ∀ d < 64, (symbol d).toNat < 128 := by decide

theorem symbol_ne : ∀ d < 64, symbol d ≠ '=' ∧ symbol d ≠ '.' := by decide

theorem read64_symbol {d : ℕ} (hd : d < 64) (quad left pads : ℕ) (cs : List Char) :
    read64 quad left pads (symbol d :: cs) =
      match quad with
      | 0 => read64 1 d 0 cs
      | 1 => (read64 2 (d % 16) 0 cs).map (UInt8.ofNat (left * 4 + d / 16) :: ·)
      | 2 => (read64 3 (d % 4) 0 cs).map (UInt8.ofNat (left * 16 + d / 4) :: ·)
      | _ => (read64 0 0 0 cs).map (UInt8.ofNat (left * 64 + d) :: ·) := by
  rw [read64, if_neg (symbol_ne d hd).1, symbolValue_symbol d hd]

/-- The bits of a byte come back from the two characters they were put into. -/
theorem ofNat_of_bits (h : n = b.toNat) : UInt8.ofNat n = b := by
  rw [h, UInt8.ofNat_toNat]

/-- **What is encoded is decoded.** -/
theorem read64_encode64 (bs : List UInt8) : read64 0 0 0 (encode64 bs) = some bs := by
  fun_induction encode64 bs
  · rfl
  next a =>
    have ha := a.toNat_lt
    have hpad : read64 2 (a.toNat % 4 * 16 % 16) 0 ['=', '='] = some [] := rfl
    simp (disch := omega) only [read64_symbol, hpad, Option.map_some]
    rw [ofNat_of_bits (b := a) (by omega)]
  next a b =>
    have ha := a.toNat_lt
    have hb := b.toNat_lt
    have hpad : read64 3 (b.toNat % 16 * 4 % 4) 0 ['='] = some [] := rfl
    simp (disch := omega) only [read64_symbol, hpad, Option.map_some]
    rw [ofNat_of_bits (b := a) (by omega), ofNat_of_bits (b := b) (by omega)]
  next a b c bs ih =>
    have ha := a.toNat_lt
    have hb := b.toNat_lt
    have hc := c.toNat_lt
    simp (disch := omega) only [read64_symbol, ih, Option.map_some]
    rw [ofNat_of_bits (b := a) (by omega), ofNat_of_bits (b := b) (by omega),
      ofNat_of_bits (b := c) (by omega)]

/-- An encoded text is characters of the alphabet and the padding that fills the last group. -/
theorem encode64_eq (bs : List UInt8) :
    ∃ (ds : List ℕ) (k : ℕ), encode64 bs = ds.map symbol ++ replicate k '=' ∧ k < 4 ∧
      (ds.length + k) % 4 = 0 ∧ ∀ d ∈ ds, d < 64 := by
  fun_induction encode64 bs
  · exact ⟨[], 0, rfl, by simp⟩
  next a =>
    have ha := a.toNat_lt
    refine ⟨[a.toNat / 4, a.toNat % 4 * 16], 2, rfl, by decide, by simp, ?_⟩
    simp only [forall_mem_cons]
    exact ⟨by omega, by omega, forall_mem_nil _⟩
  next a b =>
    have ha := a.toNat_lt
    have hb := b.toNat_lt
    refine ⟨[a.toNat / 4, a.toNat % 4 * 16 + b.toNat / 16, b.toNat % 16 * 4], 1, rfl, by decide,
      by simp, ?_⟩
    simp only [forall_mem_cons]
    exact ⟨by omega, by omega, by omega, forall_mem_nil _⟩
  next a b c bs ih =>
    have ha := a.toNat_lt
    have hb := b.toNat_lt
    have hc := c.toNat_lt
    obtain ⟨ds, k, heq, hk, hlen, hds⟩ := ih
    refine ⟨a.toNat / 4 :: (a.toNat % 4 * 16 + b.toNat / 16) ::
      (b.toNat % 16 * 4 + c.toNat / 64) :: c.toNat % 64 :: ds, k, by rw [heq]; rfl, hk, ?_, ?_⟩
    · simp only [length_cons]
      omega
    · simp only [forall_mem_cons]
      exact ⟨by omega, by omega, by omega, by omega, hds⟩

theorem decode64_encode64 (bs : List UInt8) : decode64 (encode64 bs) = some bs := by
  have hascii : (encode64 bs).all (·.toNat < 128) = true := by
    rw [all_eq_true]
    intro c hc
    rw [decide_eq_true_eq]
    obtain ⟨ds, k, heq, -, -, hds⟩ := encode64_eq bs
    rw [heq, mem_append] at hc
    rcases hc with hc | hc
    · obtain ⟨d, hd, rfl⟩ := mem_map.1 hc
      exact symbol_ascii d (hds d hd)
    · rw [eq_of_mem_replicate hc]
      decide
  rw [decode64, if_pos hascii, read64_encode64]

/-- Without the padding. -/
def unpad64 (cs : List Char) : List Char := cs.rdropWhile (· = '=')

/-- With the padding that fills the last group. -/
def pad64 (cs : List Char) : List Char :=
  cs ++ replicate (-(cs.length : ℤ) % 4).toNat '='

theorem unpad64_encode64 (bs : List UInt8) :
    ∃ ds : List ℕ, unpad64 (encode64 bs) = ds.map symbol ∧ pad64 (ds.map symbol) = encode64 bs ∧
      ∀ d ∈ ds, d < 64 := by
  obtain ⟨ds, k, heq, hk, hlen, hds⟩ := encode64_eq bs
  refine ⟨ds, ?_, ?_, hds⟩
  · have hpadding : ∀ c ∈ (replicate k '=').reverse, decide (c = '=') = true := by
      intro c hc
      rw [reverse_replicate] at hc
      exact decide_eq_true (eq_of_mem_replicate hc)
    have hsymbols : (ds.map symbol).rdropWhile (· = '=') = ds.map symbol := by
      rw [rdropWhile_eq_self_iff]
      intro hne
      obtain ⟨d, hd, hlast⟩ := mem_map.1 (getLast_mem hne)
      rw [← hlast, decide_eq_true_eq]
      exact (symbol_ne d (hds d hd)).1
    rw [unpad64, heq, rdropWhile, reverse_append, dropWhile_append_of_pos hpadding]
    exact hsymbols
  · have hfill : (-((ds.map symbol).length : ℤ) % 4).toNat = k := by
      rw [length_map]
      omega
    rw [pad64, hfill, heq]

/-- **The padding can be restored.** -/
theorem pad64_unpad64_encode64 (bs : List UInt8) : pad64 (unpad64 (encode64 bs)) = encode64 bs := by
  obtain ⟨ds, hunpad, hpad, -⟩ := unpad64_encode64 bs
  rw [hunpad, hpad]

/-- The characters of an unpadded text are in the alphabet. -/
theorem dot_not_mem_unpad64_encode64 (bs : List UInt8) : '.' ∉ unpad64 (encode64 bs) := by
  obtain ⟨ds, hunpad, -, hds⟩ := unpad64_encode64 bs
  rw [hunpad, mem_map]
  rintro ⟨d, hd, hdot⟩
  exact (symbol_ne d (hds d hd)).2 hdot

end Bytes
