import BbzPlatform.Events.Aggregate
import BbzPlatform.Lib.Bytes
import BbzPlatform.Lib.Latin
import Mathlib.Data.Bool.AllAny

/-!
# The CSRF middleware

A browser session is authenticated by a cookie, so a write also has to present a token that another
site can neither read nor set: the cookie `bbz_csrf` and the header `X-CSRF-Token` have to be equal,
and the token is signed for a session.  The middleware reads the access cookie to learn which
session the token has to be for; with no readable access cookie the signature alone is enough.

The endpoint reads the access cookie again, out of the dictionary of the framework.  The middleware
keeps the first cookie of a name and sees one header, the framework keeps the last cookie of a name.
-/

namespace BbzPlatform.Access.Csrf

open List
open Bytes (encode64 decode64 pad64 unpad64)

/-- A text, as the characters that are compared and split. -/
abbrev Text : Type := List Char

/-! ## Requests -/

/-- The parts of an ASGI scope that are read.  The method arrives in upper case, the names of
headers in lower case. -/
structure Request where
  method : Text
  path : Text
  rootPath : Text
  headers : List (Text × Text)

/-- `s.strip()`. -/
def stripped (text : Text) : Text := (text.dropWhile Events.isSpace).rdropWhile Events.isSpace

/-- `partition("=")` with both sides. -/
def partitionEq (text : Text) : Option (Text × Text) :=
  if '=' ∈ text then some (text.takeWhile (· ≠ '='), (text.dropWhile (· ≠ '=')).tail) else none

/-- One piece of a cookie header, as the middleware reads it. -/
def readChunk (chunk : Text) : Option (Text × Text) :=
  (partitionEq (stripped chunk)).filter fun pair => pair.1 ≠ []

def cookieHeader : Text := "cookie".toList

/-- The name of the header with a bearer token. -/
def authorizationHeader : Text := "authorization".toList

namespace Request

variable (r : Request)

def values (key : Text) : List Text := (r.headers.filter (·.1 = key)).map (·.2)

/-- `_headers`, at a key: repeated headers are joined. -/
def header (key : Text) : Option Text :=
  match r.values key with
  | [] => none
  | value :: more => some (more.foldl (fun joined other => joined ++ ", ".toList ++ other) value)

/-- `_cookies` of the joined cookie header, at a name: the first one counts. -/
def cookie (name : Text) : Option Text :=
  ((((r.header cookieHeader).getD []).splitOn ';').filterMap readChunk).lookup name

/-- The path without the prefix the application is mounted at. -/
def localPath : Text :=
  if !r.rootPath.isEmpty && r.rootPath.isPrefixOf r.path then r.path.drop r.rootPath.length
  else r.path

end Request

open Request

/-! ## The token -/

structure SessionId where
  bytes : List UInt8
  length_eq : bytes.length = 16
  deriving DecidableEq

/-- `uuid.UUID(bytes=...)`. -/
def SessionId.ofBytes (raw : List UInt8) : Option SessionId :=
  if h : raw.length = 16 then some ⟨raw, h⟩ else none

/-- A text of letters, digits and the marks of a token. -/
def Plain (text : Text) : Prop := ∀ c ∈ text, c.isAlphanum = true ∨ c ∈ ['_', '-', '.']

/-- What the checks depend on besides the request: settings, the signature, the sessions, which
network locations with brackets `urlsplit` takes, and how the framework reads one piece of a cookie
header.  It takes a plain pair for what it is. -/
structure Server where
  csrfEnabled : Bool
  corsAllowOrigins : List Text
  sign : List UInt8 → List UInt8
  decodeAccessToken : Text → Option SessionId
  isActive : SessionId → Bool
  checkBracketedNetloc : Text → Bool
  cookieOf : Text → Option (Text × Text)
  cookieOf_plain : ∀ name value, Plain name → Plain value → name ≠ [] →
    cookieOf (name ++ '=' :: value) = some (name, value)

/-- `urlsplit`, up to the network location; it raises on an address it cannot read. -/
def Server.urlsplit (server : Server) (url : Text) : Option (Text × Text) :=
  Latin.urlsplit server.checkBracketedNetloc url

/-- `_b64`. -/
def b64 (raw : List UInt8) : Text := unpad64 (encode64 raw)

/-- `_unb64`. -/
def unb64 (text : Text) : Option (List UInt8) := decode64 (pad64 text)

section Token

variable (server : Server)

/-- `issue_csrf_token`. -/
def issueCsrfToken (sessionId : SessionId) : Text :=
  b64 sessionId.bytes ++ '.' :: b64 (server.sign sessionId.bytes)

def readToken (token : Text) : Option (SessionId × List UInt8) :=
  if '.' ∈ token then
    match (unb64 (token.takeWhile (· ≠ '.'))).bind SessionId.ofBytes,
        unb64 (token.dropWhile (· ≠ '.')).tail with
    | some sessionId, some signature => some (sessionId, signature)
    | _, _ => none
  else none

/-- `csrf_token_valid`. -/
def csrfTokenValid (token : Text) (sessionId : Option SessionId) : Bool :=
  match readToken token with
  | none => false
  | some (sid, signature) =>
    if signature ≠ server.sign sid.bytes then false
    else sessionId.isNone || sessionId = some sid

end Token

/-! ## The middleware -/

/-- Why a request is rejected. -/
inductive Reason where
  | originNotAllowed
  | csrfTokenMissing
  | csrfTokenMismatch
  | csrfTokenInvalid
  deriving DecidableEq

/-- What becomes of a request.  An address that cannot be read raises, and so does the comparison of
texts that are not ASCII. -/
inductive Verdict where
  | pass
  | reject (reason : Reason)
  | error
  deriving DecidableEq

/-- `CSRF_COOKIE`. -/
def csrfCookie : Text := "bbz_csrf".toList

/-- `ACCESS_COOKIE`. -/
def accessCookie : Text := "bbz_access".toList

/-- `CSRF_HEADER`. -/
def csrfHeader : Text := "x-csrf-token".toList

/-- `SAFE_METHODS`. -/
def safeMethods : List Text := ["GET".toList, "HEAD".toList, "OPTIONS".toList, "TRACE".toList]

/-- `PROTECTED_PREFIX`. -/
def protectedPrefix : Text := "/api/v1".toList

/-- `is_token_exempt` on a path without a newline at its end. -/
def exemptPath (path : Text) : Bool :=
  path = "/api/v1/auth/login".toList ||
    match path.splitOn '/' with
    | [[], api, v1, auth, oidc, provider, callback] =>
      api = "api".toList && v1 = "v1".toList && auth = "auth".toList && oidc = "oidc".toList &&
        !provider.isEmpty && callback = "callback".toList
    | _ => false

/-- `is_token_exempt`; the end of a pattern matches before a last newline, too. -/
def isTokenExempt (path : Text) : Bool :=
  exemptPath path || (path.getLast? = some '\n' && exemptPath path.dropLast)

section Middleware

variable (server : Server) (r : Request)

/-- A text that starts like a bearer token. -/
def isBearer (text : Text) : Bool := "bearer ".toList.isPrefixOf (Latin.lower text)

/-- `_referer_origin`. -/
def refererOrigin (referer : Text) : Option Text :=
  if referer.isEmpty then some []
  else
    (server.urlsplit referer).map fun parts =>
      if !parts.1.isEmpty && !parts.2.isEmpty then parts.1 ++ "://".toList ++ parts.2 else []

/-- `_origin_allowed`. -/
def originAllowed (origin : Text) : Option Bool :=
  if server.corsAllowOrigins.contains origin then some true
  else
    (server.urlsplit origin).map fun parts =>
      if (parts.1 ≠ "http".toList && parts.1 ≠ "https".toList) || parts.2.isEmpty then false
      else
        let forwarded := stripped
          ((((r.header "x-forwarded-host".toList).getD []).splitOn ',').headD [])
        let host := if forwarded.isEmpty then (r.header "host".toList).getD [] else forwarded
        !host.isEmpty && parts.2 = host

def originOf : Option Text :=
  let origin := (r.header "origin".toList).getD []
  if origin.isEmpty then refererOrigin server ((r.header "referer".toList).getD [])
  else some origin

/-- The request names no origin, or one that is allowed; `none` where an address cannot be read. -/
def originPasses : Option Bool :=
  (originOf server r).bind fun origin =>
    if origin.isEmpty then some true else originAllowed server r origin

/-- `_session_id` of the access cookie. -/
def middlewareSession : Option SessionId :=
  ((r.cookie accessCookie).filter (· ≠ [])).bind server.decodeAccessToken

def checkToken (headerToken cookieToken : Text) : Verdict :=
  if headerToken.isEmpty || cookieToken.isEmpty then .reject .csrfTokenMissing
  else if !(headerToken.all (·.toNat < 128) && cookieToken.all (·.toNat < 128)) then .error
  else if headerToken ≠ cookieToken then .reject .csrfTokenMismatch
  else if csrfTokenValid server headerToken (middlewareSession server r) then .pass
  else .reject .csrfTokenInvalid

/-- `_reject_reason`. -/
def rejectReason : Verdict :=
  if safeMethods.contains r.method then .pass
  else if !protectedPrefix.isPrefixOf r.localPath then .pass
  else if !server.csrfEnabled then .pass
  else if isBearer ((r.header authorizationHeader).getD []) then .pass
  else if (r.cookie csrfCookie).isNone && (r.cookie accessCookie).isNone then .pass
  else
    match originPasses server r with
    | none => .error
    | some false => .reject .originNotAllowed
    | some true =>
      if isTokenExempt r.localPath then .pass
      else checkToken server r ((r.header csrfHeader).getD []) ((r.cookie csrfCookie).getD [])

end Middleware

/-! ## The endpoint -/

section Endpoint

variable (server : Server) (r : Request)

/-- The dictionary of the framework, at a name: the last cookie counts. -/
def Request.frameworkCookie (name : Text) : Option Text :=
  (((r.values cookieHeader).flatMap (·.splitOn ';')).filterMap server.cookieOf).reverse.lookup
    name

/-- The bearer token of the first authorization header. -/
def bearerToken : Option Text :=
  ((r.values authorizationHeader).head?.filter (isBearer)).map fun auth =>
    stripped (auth.drop 7)

/-- `_bearer_or_cookie`. -/
def bearerOrCookie : Option Text :=
  bearerToken r <|> r.frameworkCookie server accessCookie

/-- `current_auth`: the session that acts. -/
def currentAuth : Option SessionId :=
  (((bearerOrCookie server r).filter (· ≠ [])).bind server.decodeAccessToken).filter server.isActive

end Endpoint

def Request.token (r : Request) : Text := (r.header csrfHeader).getD []

/-! ## Plain texts -/

variable {server : Server} {text name value : Text} {c : Char}

theorem mem_b64 {raw : List UInt8} (h : c ∈ b64 raw) : ∃ d < 64, c = Bytes.symbol d := by
  obtain ⟨ds, htext, -, hds⟩ := Bytes.unpad64_encode64 raw
  rw [b64, htext] at h
  obtain ⟨d, hd, rfl⟩ := mem_map.mp h
  exact ⟨d, hds d hd, rfl⟩

theorem symbol_plain : ∀ d < 64, (Bytes.symbol d).isAlphanum = true ∨
    Bytes.symbol d ∈ ['_', '-', '.'] := by decide

theorem unb64_b64 (raw : List UInt8) : unb64 (b64 raw) = some raw := by
  rw [unb64, b64, Bytes.pad64_unpad64_encode64, Bytes.decode64_encode64]

theorem plain_issueCsrfToken (sessionId : SessionId) : Plain (issueCsrfToken server sessionId) := by
  intro c hc
  obtain hc | hc | hc := by simpa [issueCsrfToken] using hc
  · obtain ⟨d, hd, rfl⟩ := mem_b64 hc
    exact symbol_plain d hd
  · simp [hc]
  · obtain ⟨d, hd, rfl⟩ := mem_b64 hc
    exact symbol_plain d hd

/-- Texts around a separator. -/
theorem cut_append {sep : Char} {first : Text} (rest : Text) (h : sep ∉ first) :
    (first ++ sep :: rest).takeWhile (· ≠ sep) = first ∧
      ((first ++ sep :: rest).dropWhile (· ≠ sep)).tail = rest := by
  have hfirst : ∀ c ∈ first, decide (c ≠ sep) = true :=
    fun c hc => decide_eq_true fun heq => h (heq ▸ hc)
  rw [takeWhile_append_of_pos hfirst, dropWhile_append_of_pos hfirst]
  simp

theorem readToken_issueCsrfToken (sessionId : SessionId) :
    readToken (issueCsrfToken server sessionId) =
      some (sessionId, server.sign sessionId.bytes) := by
  obtain ⟨hfirst, hrest⟩ := cut_append (b64 (server.sign sessionId.bytes))
    (show '.' ∉ b64 sessionId.bytes from Bytes.dot_not_mem_unpad64_encode64 _)
  have hid : SessionId.ofBytes sessionId.bytes = some sessionId := by
    simp [SessionId.ofBytes, sessionId.length_eq]
  have hdot : '.' ∈ issueCsrfToken server sessionId := by simp [issueCsrfToken]
  rw [readToken, if_pos hdot]
  simp only [issueCsrfToken, hfirst, hrest, unb64_b64, Option.bind_some, hid]

/-- The plain characters lie between the dash and the last small letter. -/
theorem bounds_of_plain (h : c.isAlphanum = true ∨ c ∈ ['_', '-', '.']) :
    45 ≤ c.toNat ∧ c.toNat ≤ 122 := by
  obtain halnum | hmark := h
  · have hval : c.val.toNat = c.toNat := rfl
    have hranges : ((decide (c.val ≥ 'A'.val ∧ c.val ≤ 'Z'.val) ||
        c.val ≥ 'a'.val && c.val ≤ 'z'.val) || c.val ≥ '0'.val && c.val ≤ '9'.val) = true := halnum
    simp only [Bool.or_eq_true, Bool.and_eq_true, decide_eq_true_eq, ge_iff_le,
      UInt32.le_iff_toNat_le] at hranges
    simp at hranges
    omega
  · obtain rfl | rfl | rfl : c = '_' ∨ c = '-' ∨ c = '.' := by simpa using hmark
    all_goals decide

theorem isSpace_of_plain (h : c.isAlphanum = true ∨ c ∈ ['_', '-', '.']) :
    Events.isSpace c = false := by
  obtain ⟨hlow, hhigh⟩ := bounds_of_plain h
  simp [Events.isSpace]
  omega

theorem stripped_eq_self (h : ∀ c ∈ text, Events.isSpace c = false) : stripped text = text := by
  have hdrop : text.dropWhile Events.isSpace = text :=
    dropWhile_eq_self_iff.mpr fun hl => by simp [h _ (getElem_mem hl)]
  rw [stripped, hdrop]
  exact rdropWhile_eq_self_iff.mpr fun hl => by simp [h _ (getLast_mem hl)]

/-- The middleware takes a plain pair for what it is. -/
theorem readChunk_plain (hname : Plain name) (hvalue : Plain value) (hne : name ≠ []) :
    readChunk (name ++ '=' :: value) = some (name, value) := by
  have hstripped : stripped (name ++ '=' :: value) = name ++ '=' :: value := by
    refine stripped_eq_self fun c hc => ?_
    obtain hc | rfl | hc := by simpa using hc
    · exact isSpace_of_plain (hname c hc)
    · decide
    · exact isSpace_of_plain (hvalue c hc)
  obtain ⟨hfirst, hrest⟩ := cut_append value (mt (hname '=') (by decide))
  have hmem : '=' ∈ name ++ '=' :: value := by simp
  rw [readChunk, hstripped, partitionEq, if_pos hmem, hfirst, hrest]
  simp [hne]

def attacker : SessionId := ⟨replicate 16 1, rfl⟩

def victim : SessionId := ⟨replicate 16 2, rfl⟩

def twoSessions : Server where
  csrfEnabled := true
  corsAllowOrigins := []
  sign := fun raw => raw.map (· + 7)
  decodeAccessToken := fun text =>
    if text = "theirs".toList then some attacker
    else if text = "mine".toList then some victim else none
  isActive := fun _ => true
  checkBracketedNetloc := fun _ => false
  cookieOf := readChunk
  cookieOf_plain := fun _ _ hname hvalue hne => readChunk_plain hname hvalue hne

end BbzPlatform.Access.Csrf
