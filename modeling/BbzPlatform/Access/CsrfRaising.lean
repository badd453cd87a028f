import BbzPlatform.Access.Csrf

/-!
# What makes the CSRF middleware raise

An address that cannot be split, tokens that are not ASCII, and what decoding an access cookie may
raise besides a `TokenError` are not caught.
-/

namespace BbzPlatform.Access.Csrf

open List Request

section Raising

variable (server : Server) (raises : Text → Bool) (r : Request)

/-- A write under the prefix with a cookie of a browser session and without a bearer token. -/
def checked : Bool :=
  !safeMethods.contains r.method && protectedPrefix.isPrefixOf r.localPath && server.csrfEnabled &&
    !isBearer ((r.header authorizationHeader).getD []) &&
    !((r.cookie csrfCookie).isNone && (r.cookie accessCookie).isNone)

def Request.cookieToken : Text := (r.cookie csrfCookie).getD []

def Request.accessToken : Text := (r.cookie accessCookie).getD []

/-- The access cookie is decoded: the tokens of a write from an allowed origin are equal. -/
def decodesAccess : Bool :=
  checked server r && originPasses server r = some true && !isTokenExempt r.localPath &&
    !r.token.isEmpty && r.token.all (·.toNat < 128) && r.cookieToken = r.token &&
    !r.accessToken.isEmpty

/-- The middleware on a server where decoding an access cookie may also raise what is no
`TokenError`, such as a `RecursionError` on deeply nested JSON. -/
def dispatch : Verdict :=
  if decodesAccess server r && raises r.accessToken then .error else rejectReason server r

/-- The texts of a request can be read: `urlsplit` takes the addresses it is given, tokens that are
compared are ASCII, and an access cookie that is decoded raises a `TokenError` at worst. -/
structure Readable : Prop where
  referer : (r.header "origin".toList).getD [] = [] → (r.header "referer".toList).getD [] ≠ [] →
    server.urlsplit ((r.header "referer".toList).getD []) ≠ none
  origin : ∀ origin, originOf server r = some origin → origin ≠ [] →
    origin ∉ server.corsAllowOrigins → server.urlsplit origin ≠ none
  ascii : originPasses server r = some true → isTokenExempt r.localPath = false → r.token ≠ [] →
    r.cookieToken ≠ [] → (r.token ++ r.cookieToken).all (·.toNat < 128) = true
  access : decodesAccess server r = true → raises r.accessToken = false

variable {server raises r}

theorem originOf_eq_none_iff : originOf server r = none ↔ (r.header "origin".toList).getD [] = [] ∧
    (r.header "referer".toList).getD [] ≠ [] ∧
      server.urlsplit ((r.header "referer".toList).getD []) = none := by
  unfold originOf refererOrigin
  dsimp only
  generalize (r.header "origin".toList).getD [] = origin
  generalize (r.header "referer".toList).getD [] = referer
  cases origin with
  | cons => simp
  | nil =>
    cases referer with
    | nil => simp
    | cons => simp

theorem originAllowed_eq_none_iff {origin : Text} : originAllowed server r origin = none ↔
    origin ∉ server.corsAllowOrigins ∧ server.urlsplit origin = none := by
  unfold originAllowed
  by_cases hlisted : origin ∈ server.corsAllowOrigins
  · rw [if_pos (by simpa using hlisted)]
    simp [hlisted]
  · rw [if_neg (by simpa using hlisted), Option.map_eq_none_iff, and_iff_right hlisted]

theorem checkToken_eq_error_iff (server : Server) (r : Request) (token cookieToken : Text) :
    checkToken server r token cookieToken = .error ↔ token ≠ [] ∧ cookieToken ≠ [] ∧
      (token ++ cookieToken).all (·.toNat < 128) = false := by
  rw [all_append]
  unfold checkToken
  generalize token.all _ = tokenAscii
  generalize cookieToken.all _ = cookieAscii
  cases tokenAscii <;> cases cookieAscii <;> split_ifs <;> grind

/-- The gates in front of the check of the origin decide whether a request is checked at all. -/
theorem rejectReason_eq : rejectReason server r = if checked server r then
    (originPasses server r).elim .error fun passes =>
      if passes then
        if isTokenExempt r.localPath then .pass else checkToken server r r.token r.cookieToken
      else .reject .originNotAllowed
    else .pass := by
  unfold rejectReason checked
  generalize safeMethods.contains r.method = safe
  generalize protectedPrefix.isPrefixOf r.localPath = inScope
  generalize isBearer ((r.header authorizationHeader).getD []) = bearer
  generalize ((r.cookie csrfCookie).isNone && (r.cookie accessCookie).isNone) = bare
  obtain _ | _ | _ := originPasses server r <;> cases safe <;> cases inScope <;>
    cases server.csrfEnabled <;> cases bearer <;> cases bare <;> rfl

theorem rejectReason_eq_error_iff : rejectReason server r = .error ↔ checked server r = true ∧
    (originPasses server r = none ∨ originPasses server r = some true ∧
      isTokenExempt r.localPath = false ∧ r.token ≠ [] ∧ r.cookieToken ≠ [] ∧
      (r.token ++ r.cookieToken).all (·.toNat < 128) = false) := by
  rw [rejectReason_eq, ← checkToken_eq_error_iff server r]
  cases checked server r with
  | false => simp
  | true =>
    cases originPasses server r with
    | none => simp
    | some passes => cases passes <;> cases isTokenExempt r.localPath <;> simp

/-- **The middleware does not raise exactly if the texts of a request it checks can be read.** -/
theorem dispatch_total_iff (server : Server) (raises : Text → Bool) (r : Request) :
    dispatch server raises r ≠ .error ↔ (checked server r = true → Readable server raises r) := by
  have hdecodes : decodesAccess server r = true → checked server r = true := by
    simp only [decodesAccess, Bool.and_eq_true]
    exact fun h => h.1.1.1.1.1.1
  have herror : dispatch server raises r = .error ↔
      decodesAccess server r = true ∧ raises r.accessToken = true ∨
        rejectReason server r = .error := by
    unfold dispatch
    split_ifs with h <;> simp_all
  have horigins : originPasses server r = none ↔ originOf server r = none ∨ ∃ origin,
      originOf server r = some origin ∧ origin ≠ [] ∧ originAllowed server r origin = none := by
    rw [originPasses]
    cases originOf server r with
    | none => simp
    | some origin => by_cases hempty : origin = [] <;> simp [hempty]
  rw [ne_eq, herror, rejectReason_eq_error_iff, horigins, originOf_eq_none_iff]
  simp only [originAllowed_eq_none_iff]
  constructor
  · intro h hchecked
    refine ⟨fun hempty hreferer hnone => ?_, fun origin horigin hne hlisted hnone => ?_,
      fun hpasses hexempt htoken hcookie => ?_, fun hdecoded => ?_⟩
    · exact h (.inr ⟨hchecked, .inl (.inl ⟨hempty, hreferer, hnone⟩)⟩)
    · exact h (.inr ⟨hchecked, .inl (.inr ⟨origin, horigin, hne, hlisted, hnone⟩)⟩)
    · by_contra hascii
      exact h (.inr ⟨hchecked,
        .inr ⟨hpasses, hexempt, htoken, hcookie, eq_false_of_ne_true hascii⟩⟩)
    · exact eq_false_of_ne_true fun hraises => h (.inl ⟨hdecoded, hraises⟩)
  · rintro h (⟨hdecoded, hraises⟩ | ⟨hchecked, (⟨hempty, hreferer, hnone⟩ |
      ⟨origin, horigin, hne, hlisted, hnone⟩) | ⟨hpasses, hexempt, htoken, hcookie, hascii⟩⟩)
    · simp [(h (hdecodes hdecoded)).access hdecoded] at hraises
    · exact (h hchecked).referer hempty hreferer hnone
    · exact (h hchecked).origin origin horigin hne hlisted hnone
    · simp [(h hchecked).ascii hpasses hexempt htoken hcookie] at hascii

end Raising

/-- A write with a token that is not ASCII. -/
def umlautWrite : Request where
  method := "POST".toList
  path := "/api/v1/doors".toList
  rootPath := []
  headers := [(csrfHeader, "ä".toList), (cookieHeader, csrfCookie ++ "=token".toList)]

/-- The comparison of the tokens raises. -/
theorem umlaut_token_raises : dispatch twoSessions (fun _ => false) umlautWrite = .error := by
  decide

end BbzPlatform.Access.Csrf
