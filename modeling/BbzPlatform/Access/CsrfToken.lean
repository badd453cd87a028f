import BbzPlatform.Access.Csrf

/-!
# Whose CSRF token it is

The token of a request that is let through belongs to the session that acts, whatever token is
presented, exactly if the middleware and the endpoint read the same session from the cookies.
-/

namespace BbzPlatform.Access.Csrf

open List Request

section Property

variable (server : Server) (minted : List SessionId) (r : Request)

/-- A write under the prefix that is not exempt and carries no bearer token. -/
structure Guarded : Prop where
  writes : safeMethods.contains r.method = false
  inScope : protectedPrefix.isPrefixOf r.localPath = true
  enabled : server.csrfEnabled = true
  notExempt : isTokenExempt r.localPath = false
  noBearer : isBearer ((r.header authorizationHeader).getD []) = false ∧
    bearerToken r = none

/-- The signature cannot be forged: what carries one was minted. -/
def Unforged (token : Text) : Prop :=
  ∀ sid, readToken token = some (sid, server.sign sid.bytes) → sid ∈ minted

/-- A token was minted for a session, and the text carries what that token carries. -/
def MintedFor (token : Text) (sessionId : SessionId) : Prop :=
  sessionId ∈ minted ∧ readToken token = readToken (issueCsrfToken server sessionId)

/-- If the request is let through and acts for a session, its token was minted for that session. -/
def TokenBelongs : Prop :=
  Guarded server r → Unforged server minted r.token → rejectReason server r = .pass →
    ∀ sessionId, currentAuth server r = some sessionId → MintedFor server minted r.token sessionId

/-- A cookie is put in front of the first cookie header. -/
def plantCookie (name value : Text) : List (Text × Text) → List (Text × Text)
  | [] => []
  | h :: rest =>
    if h.1 = cookieHeader then (h.1, name ++ '=' :: value ++ ';' :: h.2) :: rest
    else h :: plantCookie name value rest

def Request.withToken (token : Text) : Request :=
  { r with headers := r.headers.filter (·.1 ≠ csrfHeader) ++ [(csrfHeader, token)] }

def Request.present (token : Text) : Request :=
  { r with headers := plantCookie csrfCookie token (r.withToken token).headers }

/-- The request is not turned away for where it comes from. -/
def OriginSettled : Prop :=
  originPasses server r = some true ∨ r.cookie csrfCookie = none ∧ r.cookie accessCookie = none

/-- The middleware reads the session that acts. -/
def ReadingsAgree : Prop :=
  Guarded server r → OriginSettled server r → ∀ sessionId,
    currentAuth server r = some sessionId → middlewareSession server r = some sessionId

end Property

variable {server : Server} {name value token key joined : Text} {r : Request}
  {headers : List (Text × Text)} {minted : List SessionId} {sessionId other : SessionId}

theorem plantCookie_filter (h : key ≠ cookieHeader) :
    (plantCookie name value headers).filter (·.1 = key) = headers.filter (·.1 = key) := by
  induction headers with
  | nil => rfl
  | cons x rest ih =>
    unfold plantCookie
    split_ifs with hcookie
    · have hkey : ¬ x.1 = key := fun heq => h (heq.symm.trans hcookie)
      simp [hkey]
    · rw [filter_cons, filter_cons, ih]

theorem plantCookie_cookies :
    ((plantCookie name value headers).filter (·.1 = cookieHeader)).map (·.2) =
      match (headers.filter (·.1 = cookieHeader)).map (·.2) with
      | [] => []
      | first :: more => (name ++ '=' :: value ++ ';' :: first) :: more := by
  induction headers with
  | nil => rfl
  | cons x rest ih =>
    unfold plantCookie
    split_ifs with hcookie
    · simp [hcookie]
    · rw [filter_cons, filter_cons, if_neg (by simpa using hcookie),
        if_neg (by simpa using hcookie), ih]

/-- The other headers stay as they are. -/
theorem values_withToken (h : key ≠ csrfHeader) :
    (r.withToken token).values key = r.values key := by
  have hothers : (r.headers.filter (·.1 ≠ csrfHeader)).filter (·.1 = key) =
      r.headers.filter (·.1 = key) := by
    rw [filter_filter]
    refine filter_congr fun x _ => ?_
    by_cases hx : x.1 = key <;> simp [hx, h]
  rw [values, withToken, filter_append, hothers]
  simp [values, Ne.symm h]

theorem token_withToken : (r.withToken token).token = token := by
  have hvalues : (r.withToken token).values csrfHeader = [token] := by
    simp [values, withToken, filter_filter]
  simp [Request.token, header, hvalues]

theorem values_present (hcookie : key ≠ cookieHeader) :
    (r.present token).values key = (r.withToken token).values key := by
  rw [values, present, plantCookie_filter hcookie, values]

theorem token_present : (r.present token).token = token := by
  have hvalues : (r.present token).values csrfHeader = (r.withToken token).values csrfHeader :=
    values_present (by decide)
  rw [Request.token, header, hvalues]
  exact token_withToken

theorem values_present_cookie : (r.present token).values cookieHeader =
      match r.values cookieHeader with
      | [] => []
      | first :: more => (csrfCookie ++ '=' :: token ++ ';' :: first) :: more := by
  have hsame : ((r.withToken token).headers.filter (·.1 = cookieHeader)).map (·.2) =
      r.values cookieHeader := values_withToken (by decide)
  rw [values, present, plantCookie_cookies, hsame]

theorem header_present_cookie (h : r.header cookieHeader = some joined) :
    (r.present token).header cookieHeader =
      some (csrfCookie ++ '=' :: token ++ ';' :: joined) := by
  unfold header at h ⊢
  rw [values_present_cookie]
  cases hvalues : r.values cookieHeader with
  | nil => simp [hvalues] at h
  | cons first more =>
    rw [hvalues] at h
    obtain rfl := Option.some.inj h
    simp

theorem plain_csrfCookie : Plain csrfCookie := all_iff_forall_prop.mp (by decide)

theorem semicolon_not_mem (htoken : Plain token) : ';' ∉ csrfCookie ++ '=' :: token := by
  simp [mt (htoken ';') (by decide), show ';' ∉ csrfCookie by decide]

/-- **The cookie that was planted is the first one the middleware reads.** -/
theorem cookie_present (htoken : Plain token)
    (h : r.header cookieHeader = some joined) (wanted : Text) : (r.present token).cookie wanted =
      if wanted = csrfCookie then some token else r.cookie wanted := by
  have hchunk := readChunk_plain plain_csrfCookie htoken (by decide)
  rw [cookie, header_present_cookie h, Option.getD_some,
    splitOn_append_cons_self_of_not_mem (semicolon_not_mem htoken),
    filterMap_cons_some hchunk, lookup_cons, cookie, h, Option.getD_some]
  by_cases hwanted : wanted = csrfCookie
  · rw [if_pos hwanted, beq_iff_eq.mpr hwanted]
  · rw [if_neg hwanted, beq_eq_false_iff_ne.mpr hwanted]

/-- The framework keeps the last cookie of a name, and the planted one has another name. -/
theorem frameworkCookie_present (htoken : Plain token) {wanted : Text} (h : wanted ≠ csrfCookie) :
    (r.present token).frameworkCookie server wanted = r.frameworkCookie server wanted := by
  unfold frameworkCookie
  rw [values_present_cookie]
  cases r.values cookieHeader with
  | nil => rfl
  | cons first more =>
    rw [flatMap_cons, splitOn_append_cons_self_of_not_mem (semicolon_not_mem htoken),
      cons_append,
      filterMap_cons_some (server.cookieOf_plain _ _ plain_csrfCookie htoken (by decide)),
      reverse_cons, flatMap_cons]
    simp [lookup_append, lookup_cons, beq_eq_false_iff_ne.mpr h]

/-- Presenting another token changes neither the origin nor what the endpoint reads. -/
structure SameReadings (server : Server) (r r' : Request) : Prop where
  guarded : Guarded server r' ↔ Guarded server r
  auth : currentAuth server r' = currentAuth server r
  origin : originPasses server r' = originPasses server r

theorem sameReadings {r' : Request} (hmethod : r'.method = r.method)
    (hpath : r'.localPath = r.localPath)
    (hvalues : ∀ key, key ≠ cookieHeader → key ≠ csrfHeader → r'.values key = r.values key)
    (hcookie : r'.frameworkCookie server accessCookie = r.frameworkCookie server accessCookie) :
    SameReadings server r r' := by
  have hheader : ∀ key, key ≠ cookieHeader → key ≠ csrfHeader → r'.header key = r.header key :=
    fun key h h' => by simp only [header, hvalues key h h']
  have hbearer : bearerToken r' = bearerToken r := by
    rw [bearerToken, hvalues _ (by decide) (by decide), bearerToken]
  refine ⟨?_, ?_, ?_⟩
  · have hauth := hheader authorizationHeader (by decide) (by decide)
    constructor <;> rintro ⟨h₁, h₂, h₃, h₄, h₅⟩ <;> constructor <;> simp_all
  · simp only [currentAuth, bearerOrCookie, hbearer, hcookie]
  · have horigin : originOf server r' = originOf server r := by
      rw [originOf, hheader _ (by decide) (by decide), hheader _ (by decide) (by decide), originOf]
    have hallowed : originAllowed server r' = originAllowed server r := by
      funext origin
      rw [originAllowed, hheader _ (by decide) (by decide), hheader _ (by decide) (by decide),
        originAllowed]
    rw [originPasses, horigin, hallowed, originPasses]

/-- What the middleware lets through. -/
theorem rejectReason_eq_pass_iff (h : Guarded server r) :
    rejectReason server r = .pass ↔
      r.cookie csrfCookie = none ∧ r.cookie accessCookie = none ∨
        originPasses server r = some true ∧
          checkToken server r r.token ((r.cookie csrfCookie).getD []) = .pass := by
  unfold rejectReason
  simp only [h.writes, h.inScope, h.enabled, h.notExempt, h.noBearer.1, Bool.not_true,
    Bool.false_eq_true, if_false, Bool.and_eq_true, Option.isNone_iff_eq_none]
  split_ifs with hnone
  · simp [hnone]
  · rw [or_iff_right hnone]
    split <;> simp_all [Request.token]

theorem checkToken_eq_pass_iff {cookieToken : Text} :
    checkToken server r token cookieToken = .pass ↔
      token ≠ [] ∧ cookieToken = token ∧ (token.all (·.toNat < 128)) = true ∧
        csrfTokenValid server token (middlewareSession server r) = true := by
  unfold checkToken
  split_ifs <;> simp_all <;> grind

theorem csrfTokenValid_iff {expected : Option SessionId} :
    csrfTokenValid server token expected = true ↔
      ∃ sid, readToken token = some (sid, server.sign sid.bytes) ∧
        (expected = none ∨ expected = some sid) := by
  unfold csrfTokenValid
  cases readToken token with
  | none => simp
  | some read =>
    obtain ⟨sid, signature⟩ := read
    by_cases hsig : signature = server.sign sid.bytes <;> simp [hsig]

theorem exists_cookieHeader (h : Guarded server r) (hauth : currentAuth server r = some sessionId) :
    ∃ joined, r.header cookieHeader = some joined := by
  cases hvalues : r.values cookieHeader with
  | nil =>
    simp [currentAuth, bearerOrCookie, h.noBearer.2, frameworkCookie, hvalues] at hauth
  | cons first more => exact ⟨_, by rw [header, hvalues]⟩

/-- Where both readings name the session that acts, what is let through carries its token. -/
theorem ReadingsAgree.tokenBelongs (h : ReadingsAgree server r) : TokenBelongs server minted r := by
  intro hguard hunforged hpass sessionId hauth
  obtain ⟨hcsrf, haccess⟩ | ⟨horigin, hcheck⟩ := (rejectReason_eq_pass_iff hguard).mp hpass
  · have hagree := h hguard (.inr ⟨hcsrf, haccess⟩) sessionId hauth
    simp [middlewareSession, haccess] at hagree
  · have hsession := h hguard (.inl horigin) sessionId hauth
    obtain ⟨-, -, -, hvalid⟩ := checkToken_eq_pass_iff.mp hcheck
    obtain ⟨sid, hread, hsid⟩ := csrfTokenValid_iff.mp hvalid
    obtain rfl : sessionId = sid := by simpa [hsession] using hsid
    exact ⟨hunforged sessionId hread, hread.trans (readToken_issueCsrfToken sessionId).symm⟩

theorem cookie_withToken (wanted : Text) : (r.withToken token).cookie wanted = r.cookie wanted := by
  rw [cookie, header, values_withToken (by decide), cookie, header]

theorem sameReadings_withToken (token : Text) : SameReadings server r (r.withToken token) :=
  sameReadings rfl rfl (fun _ _ h => values_withToken h)
    (by rw [frameworkCookie, values_withToken (by decide), frameworkCookie])

theorem sameReadings_present (h : Plain token) : SameReadings server r (r.present token) :=
  sameReadings rfl rfl (fun _ h h' => (values_present h).trans (values_withToken h'))
    (frameworkCookie_present h (by decide))

theorem ReadingsAgree.withToken (h : ReadingsAgree server r) (token : Text) :
    ReadingsAgree server (r.withToken token) := by
  have hsame : SameReadings server r (r.withToken token) := sameReadings_withToken token
  intro hguard horigin sessionId hauth
  rw [OriginSettled, hsame.origin, cookie_withToken, cookie_withToken] at horigin
  rw [middlewareSession, cookie_withToken]
  exact h (hsame.guarded.mp hguard) horigin sessionId (hsame.auth ▸ hauth)

theorem ReadingsAgree.present (h : ReadingsAgree server r) (htoken : Plain token) :
    ReadingsAgree server (r.present token) := by
  have hsame : SameReadings server r (r.present token) := sameReadings_present htoken
  intro hguard horigin sessionId hauth
  rw [hsame.auth] at hauth
  have hguard' := hsame.guarded.mp hguard
  obtain ⟨joined, hjoined⟩ := exists_cookieHeader hguard' hauth
  rw [OriginSettled, hsame.origin, cookie_present htoken hjoined, if_pos rfl] at horigin
  rw [middlewareSession, cookie_present htoken hjoined, if_neg (by decide)]
  exact h hguard' (.inl (by simpa using horigin)) sessionId hauth

/-- With no cookie in sight of the middleware a request without a token is let through. -/
theorem not_tokenBelongs_withToken (hguard : Guarded server r)
    (hcsrf : r.cookie csrfCookie = none) (haccess : r.cookie accessCookie = none)
    (hauth : currentAuth server r = some sessionId) :
    ¬ TokenBelongs server [] (r.withToken []) := by
  have hsame : SameReadings server r (r.withToken []) := sameReadings_withToken []
  intro h
  have hread : readToken (r.withToken []).token = none := by rw [token_withToken]; rfl
  have hpass := (rejectReason_eq_pass_iff (hsame.guarded.mpr hguard)).mpr
    (.inl ⟨(cookie_withToken _).trans hcsrf, (cookie_withToken _).trans haccess⟩)
  have hminted := h (hsame.guarded.mpr hguard) (fun sid hsid => by simp [hread] at hsid) hpass
    sessionId (hsame.auth.trans hauth)
  exact absurd hminted.1 (by simp)

/-- Where the middleware reads no session or another one, a token of that other session is let
through. -/
theorem not_tokenBelongs_present (hguard : Guarded server r)
    (horigin : originPasses server r = some true) (hauth : currentAuth server r = some sessionId)
    (hother : other ≠ sessionId)
    (hread : middlewareSession server r = none ∨ middlewareSession server r = some other) :
    ¬ TokenBelongs server [other] (r.present (issueCsrfToken server other)) := by
  have hplain : Plain (issueCsrfToken server other) := plain_issueCsrfToken other
  have hsame : SameReadings server r (r.present (issueCsrfToken server other)) :=
    sameReadings_present hplain
  have htoken : (r.present (issueCsrfToken server other)).token = issueCsrfToken server other :=
    token_present
  obtain ⟨joined, hjoined⟩ := exists_cookieHeader hguard hauth
  intro h
  have hguard' := hsame.guarded.mpr hguard
  have hunforged : Unforged server [other] (r.present (issueCsrfToken server other)).token := by
    intro sid hsid
    rw [htoken, readToken_issueCsrfToken] at hsid
    simp_all
  have hcheck : checkToken server (r.present (issueCsrfToken server other))
      (issueCsrfToken server other) (issueCsrfToken server other) = .pass := by
    refine checkToken_eq_pass_iff.mpr ⟨by simp [issueCsrfToken], rfl, ?_, ?_⟩
    · exact all_eq_true.mpr fun c hc =>
        decide_eq_true (Nat.lt_of_le_of_lt (bounds_of_plain (hplain c hc)).2 (by decide))
    · refine csrfTokenValid_iff.mpr ⟨other, readToken_issueCsrfToken other, ?_⟩
      rw [middlewareSession, cookie_present hplain hjoined, if_neg (by decide)]
      exact hread
  have hpass := (rejectReason_eq_pass_iff hguard').mpr (.inr ⟨hsame.origin.trans horigin, by
    rw [htoken, cookie_present hplain hjoined, if_pos rfl]
    exact hcheck⟩)
  have hminted := h hguard' hunforged hpass sessionId (hsame.auth.trans hauth)
  exact hother (mem_singleton.mp hminted.1).symm

theorem exists_other (sessionId : SessionId) : ∃ other : SessionId, other ≠ sessionId := by
  by_cases h : sessionId = ⟨replicate 16 0, rfl⟩
  · exact ⟨⟨replicate 16 1, rfl⟩, by rw [h]; decide⟩
  · exact ⟨⟨replicate 16 0, rfl⟩, Ne.symm h⟩

section Main

variable (server : Server) (r : Request)

/-- **Whatever token a request presents, what is let through carries the token of the session that
acts, exactly if the middleware reads that session from the cookies.** -/
theorem token_belongs_iff_readings_agree : (∀ minted token, TokenBelongs server minted r ∧
      (Plain token → TokenBelongs server minted (r.withToken token) ∧
        TokenBelongs server minted (r.present token))) ↔ ReadingsAgree server r := by
  constructor
  · intro h hguard horigin sessionId hauth
    by_contra hne
    obtain horigin | ⟨hcsrf, haccess⟩ := horigin
    · obtain ⟨other, hother, hread⟩ : ∃ other ≠ sessionId,
          middlewareSession server r = none ∨ middlewareSession server r = some other := by
        cases hsession : middlewareSession server r with
        | none =>
          obtain ⟨other, hother⟩ := exists_other sessionId
          exact ⟨other, hother, .inl rfl⟩
        | some other => exact ⟨other, fun heq => hne (hsession.trans (congrArg some heq)), .inr rfl⟩
      exact not_tokenBelongs_present hguard horigin hauth hother hread
        ((h [other] _).2 (plain_issueCsrfToken other)).2
    · exact not_tokenBelongs_withToken hguard hcsrf haccess hauth ((h [] []).2 (by simp [Plain])).1
  · intro h minted token
    exact ⟨h.tokenBelongs, fun htoken =>
      ⟨(h.withToken token).tokenBelongs, (h.present htoken).tokenBelongs⟩⟩

end Main

/-- A write with the attacker's access cookie and token planted before the victim's cookie. -/
def plantedWrite : Request where
  method := "POST".toList
  path := "/api/v1/doors".toList
  rootPath := []
  headers :=
    let token := issueCsrfToken twoSessions attacker
    [(csrfHeader, token),
      (cookieHeader, accessCookie ++ "=theirs; ".toList ++ csrfCookie ++ '=' :: token ++
        "; ".toList ++ accessCookie ++ "=mine".toList)]

/-- **A planted token is let through.**  The write acts for the victim with the attacker's token. -/
theorem planted_token_passes :
    Guarded twoSessions plantedWrite ∧ rejectReason twoSessions plantedWrite = .pass ∧
      currentAuth twoSessions plantedWrite = some victim ∧
      plantedWrite.token = issueCsrfToken twoSessions attacker ∧
      ¬ TokenBelongs twoSessions [attacker] plantedWrite := by
  have hguard : Guarded twoSessions plantedWrite :=
    ⟨by decide, by decide, rfl, by decide, by decide, by decide⟩
  have hpass : rejectReason twoSessions plantedWrite = .pass := by decide
  have hauth : currentAuth twoSessions plantedWrite = some victim := by decide
  have htoken : plantedWrite.token = issueCsrfToken twoSessions attacker := by decide
  refine ⟨hguard, hpass, hauth, htoken, fun h => ?_⟩
  have hunforged : Unforged twoSessions [attacker] plantedWrite.token := by
    intro sid hsid
    rw [htoken, readToken_issueCsrfToken] at hsid
    simp_all
  exact absurd (h hguard hunforged hpass victim hauth).1 (by decide)

end BbzPlatform.Access.Csrf
