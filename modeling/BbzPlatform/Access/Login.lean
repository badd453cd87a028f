import BbzPlatform.Access.Admin
import BbzPlatform.Access.Lockout
import BbzPlatform.Access.OneTime
import BbzPlatform.Access.Sessions

/-!
# Logging in

There are three ways to a session: a local password, with a second factor where the account has one;
a directory account, tried when the local password fails; and an external identity provider.  A role
can require a second factor, which lets a login pass for some time or not at all.

The local way asks whether the user is active, and verifies the second factor.  The external ways
look up the user of the identity, and ask only whether a second factor has been enrolled.
-/

namespace BbzPlatform.Access

/-! ## Rows -/

/-- `AuthProvider`. -/
inductive AuthProvider where
  | localAccount
  | entraOidc
  | ldapAd
  deriving DecidableEq

/-- A row of `auth_identities`. -/
structure AuthIdentity where
  id : String
  userId : String
  provider : AuthProvider
  subject : String

/-- A row of `webauthn_credentials`. -/
structure WebauthnCredential where
  id : String
  authIdentityId : String
  credentialId : String
  publicKey : String
  signCount : ℕ

/-- A row of `webauthn_challenges` of the kind `authenticate`. -/
structure WebauthnChallenge where
  challenge : String
  expiresAt : ℤ

/-- A row of `mfa_policies`. -/
structure MfaPolicy where
  roleKey : String
  gracePeriodDays : ℤ

/-- A role of a user with the time since when, directly or through a group. -/
structure HeldRole where
  userId : String
  roleKey : String
  since : ℤ

/-- A row of `oidc_login_flows`. -/
structure OidcLoginFlow where
  state : String
  provider : AuthProvider
  expiresAt : ℤ

/-- The tables that a login reads.  Credentials and TOTP rows are found by their identity, open
challenges by their user. -/
structure People where
  rbac : Rbac
  identities : List AuthIdentity
  credentials : String → Option LocalCredential
  totp : String → TotpFile
  webauthn : List WebauthnCredential
  challenges : String → Option WebauthnChallenge
  policies : List MfaPolicy
  held : List HeldRole
  flows : List OidcLoginFlow

/-- The WebAuthn configuration and the checks of its library. -/
structure WebauthnTools where
  ttl : ℤ
  rawId : String → Option String
  verifyAuthenticationResponse : String → String → String → ℕ → Option ℕ

/-- The settings, and what the code gets from its libraries. -/
structure Setup where
  policy : Policy
  lock : LockSettings
  hashing : Hashing
  tools : CodeTools
  session : SessionSettings
  webauthn : Option WebauthnTools
  authProviders : List AuthProvider
  ldapJitProvisioning : Bool
  oidcJitProvisioning : Bool
  mfaPolicyEnforceExternal : Bool
  mfaStepupPermissions : List String
  mfaStepupMaxAgeSeconds : ℤ
  ldapSyncProvision : Bool
  ldapSyncMaxDeactivations : ℕ

/-- The answers of the endpoints that are not a success. -/
inductive ApiError where
  | unauthorized (message : String)
  | mfaRequired
  | webauthnRequired
  | totpRequired
  | validation (message : String)
  | forbidden (permission : String)
  | stepUpRequired (permission : String)
  | notFound
  | serviceUnavailable
  | internal
  deriving DecidableEq

/-- What an endpoint answers, with the rows it leaves. -/
abbrev Handled (α : Type) : Type := Except ApiError α × People

/-- A Python `str | None` that is neither `None` nor empty. -/
def supplied (text : Option String) : Option String := text.filter (· ≠ "")

namespace People

variable (people : People)

/-- `_load_user`. -/
def loadUser (userId : String) : Option User := people.rbac.users.find? (·.id = userId)

def identityOf (provider : AuthProvider) (subject : String) : Option AuthIdentity :=
  people.identities.find? fun i => i.provider = provider && i.subject = subject

/-- The local identity of a user; the query fails if there are several. -/
def localIdentity (userId : String) : Except ApiError (Option AuthIdentity) :=
  match people.identities.filter fun i => i.userId = userId && i.provider = .localAccount with
  | [] => .ok none
  | [i] => .ok (some i)
  | _ => .error .internal

/-- `_creds_for_user`. -/
def credsForUser (userId : String) : List WebauthnCredential :=
  people.webauthn.filter fun c => people.identities.any fun i =>
    i.id = c.authIdentityId && i.userId = userId && i.provider = .localAccount

/-- `has_active`. -/
def hasActive (userId : String) : Bool := !(people.credsForUser userId).isEmpty

/-- `_mfa_satisfied`: the user has enrolled a second factor. -/
def mfaSatisfied (userId : String) : Except ApiError Bool :=
  match people.localIdentity userId with
  | .error e => .error e
  | .ok none => .ok false
  | .ok (some i) => .ok ((people.totp i.id).isActive || people.hasActive userId)

/-- `get_by_username`. -/
def getByUsername (username : String) : Option CredentialRecord :=
  match people.identityOf .localAccount username with
  | none => none
  | some i =>
    match people.loadUser i.userId, people.credentials i.id with
    | some user, some row => some ⟨user.id, row, user.status = .active⟩
    | _, _ => none

/-- The open challenge of a user is set or used up. -/
def withChallenge (userId : String) (challenge : Option WebauthnChallenge) : People :=
  { people with challenges := Function.update people.challenges userId challenge }

def withCredential (identityId : String) (row : LocalCredential) : People :=
  { people with credentials := Function.update people.credentials identityId (some row) }

/-- The TOTP rows of an identity are written. -/
def withTotp (identityId : String) (file : TotpFile) : People :=
  { people with totp := Function.update people.totp identityId file }

def Disabled (userId : String) : Prop :=
  ∃ user, people.loadUser userId = some user ∧ user.status = .disabled

end People

/-! ## The policy for second factors -/

/-- `MfaRequirement`. -/
structure MfaRequirement where
  required : Bool
  inGrace : Bool
  graceUntil : Option ℤ

/-- `blocks`. -/
def MfaRequirement.blocks (r : MfaRequirement) (satisfied : Bool) : Bool :=
  r.required && !satisfied && !r.inGrace

def daySeconds : ℤ := 86400

section Policy

variable (setup : Setup) (people : People) (userId : String) (now : ℤ)

/-- The deadlines of the roles of the user that require a second factor. -/
def deadlines : List ℤ :=
  (people.held.filter (·.userId = userId)).filterMap fun h =>
    (people.policies.find? (·.roleKey = h.roleKey)).map fun p =>
      h.since + p.gracePeriodDays * daySeconds

/-- `evaluate`. -/
def evaluate : MfaRequirement :=
  match (deadlines people userId).min? with
  | none => ⟨false, false, none⟩
  | some deadline => ⟨true, now < deadline, some deadline⟩

/-- `_MfaGate`. -/
structure MfaGate where
  blocked : Bool
  graceUntil : Option ℤ

/-- `_enforce_mfa_policy`. -/
def enforceMfaPolicy (satisfied external : Bool) : MfaGate :=
  if external && !setup.mfaPolicyEnforceExternal then ⟨false, none⟩
  else
    let req := evaluate people userId now
    if req.blocks satisfied then ⟨true, none⟩
    else ⟨false, if req.required && req.inGrace && !satisfied then req.graceUntil else none⟩

end Policy

/-! ## Second factors -/

section Factors

variable (setup : Setup) (people : People) (now : ℤ) (userId : String)

/-- `verify_authentication`. -/
def verifyAuthentication (response : String) : Handled Bool :=
  match setup.webauthn with
  | none => (.error .internal, people)
  | some library =>
    match people.challenges userId with
    | none => (.ok false, people)
    | some pending =>
      -- the challenge is gone whatever comes of it
      let consumed := people.withChallenge userId none
      if pending.expiresAt < now then (.ok false, consumed)
      else
        match (library.rawId response).bind fun rawId =>
            (people.credsForUser userId).find? (·.credentialId = rawId) with
        | none => (.ok false, consumed)
        | some cred =>
          match library.verifyAuthenticationResponse response pending.challenge cred.publicKey
              cred.signCount with
          | none => (.ok false, consumed)
          | some newCount =>
            (.ok true, { consumed with webauthn := people.webauthn.map fun c =>
              if c.id = cred.id then { c with signCount := newCount } else c })

/-- `begin_authentication`, with the challenge it makes. -/
def beginAuthentication (challenge : String) : Handled Unit :=
  match setup.webauthn with
  | none => (.error .internal, people)
  | some library =>
    if people.hasActive userId then
      (.ok (), people.withChallenge userId (some ⟨challenge, now + library.ttl⟩))
    else (.error .internal, people)

/-- `challenge` for an identity: whether the code is accepted. -/
def challengeIdentity (identityId code : String) : Handled Bool :=
  match challenge setup.tools (people.totp identityId) code now with
  | .error _ => (.error .internal, people)
  | .ok (.bad, _) => (.ok false, people)
  | .ok (_, file) => (.ok true, people.withTotp identityId file)

end Factors

/-! ## The local way -/

/-- `LoginRequest`. -/
structure LoginRequest where
  username : String
  password : String
  totp : Option String
  webauthn : Option String

/-- A user is let in: what `LoginResponse` says, and whether the session gets a stamp. -/
structure Admission where
  user : User
  mustChangePassword : Bool
  mfaGraceUntil : Option ℤ
  mfaVerified : Bool

/-- The generic answer to a failed login. -/
def invalidCredentials : ApiError := .unauthorized "invalid credentials"

section Local

variable (setup : Setup) (people : People) (now : ℤ)

/-- The password of a local account, with the row that the attempt leaves. -/
def authenticatePassword (username password : String) : AuthOutcome × People :=
  match people.getByUsername username with
  | none => (.failed .badCredentials, people)
  | some record =>
    let attempt := authenticate setup.lock setup.hashing record now password
    (attempt.1, people.withCredential record.row.authIdentityId attempt.2)

/-- A factor that was tried: a wrong one ends the login. -/
def orInvalid : Handled Bool → Handled Bool
  | (.ok false, people) => (.error invalidCredentials, people)
  | handled => handled

def secondFactor (userId : String) (identity : Option AuthIdentity) (r : LoginRequest)
    (freshChallenge : String) : Handled Bool :=
  let webauthnActive := people.hasActive userId
  let totpIdentity := identity.filter fun i => (people.totp i.id).isActive
  match (supplied r.webauthn).filter fun _ => webauthnActive, supplied r.totp, totpIdentity with
  | some response, _, _ => orInvalid (verifyAuthentication setup people now userId response)
  | none, some code, some i => orInvalid (challengeIdentity setup people now i.id code)
  | none, _, _ =>
    if webauthnActive then
      match beginAuthentication setup people now userId freshChallenge with
      | (.error e, changed) => (.error e, changed)
      | (.ok _, changed) => (.error .webauthnRequired, changed)
    else if totpIdentity.isSome then (.error .totpRequired, people)
    else (.ok false, people)

def admitLocal (userId : String) (mustChange : Bool) (r : LoginRequest) (freshChallenge : String) :
    Handled Admission :=
  match people.loadUser userId with
  | none => (.error invalidCredentials, people)
  | some user =>
    let identity := people.identityOf .localAccount r.username
    let enrolled := (identity.any fun i => (people.totp i.id).isActive) || people.hasActive userId
    let gate := enforceMfaPolicy setup people userId now enrolled false
    if gate.blocked then (.error .mfaRequired, people)
    else
      match secondFactor setup people now userId identity r freshChallenge with
      | (.error e, changed) => (.error e, changed)
      | (.ok verified, changed) => (.ok ⟨user, mustChange, gate.graceUntil, verified⟩, changed)

end Local

/-! ## The external ways -/

/-- The rows of roles that a default role and the mapping of groups leave. -/
structure RoleRows where
  userRoles : List UserRole
  held : List HeldRole

/-- A verified principal of a directory or an identity provider, with the roles it will have and the
numbers that a new user would get. -/
structure Principal where
  subject : String
  displayName : Option String
  preferredUsername : Option String
  email : Option String
  roles : RoleRows
  freshUserId : String
  freshIdentityId : String

/-- The name of a new user from the directory. -/
def Principal.ldapName (p : Principal) : String :=
  (supplied p.displayName <|> supplied p.email).getD p.subject

/-- The name of a new user from an identity provider. -/
def Principal.oidcName (p : Principal) : String :=
  (supplied p.displayName <|> supplied p.preferredUsername <|> supplied p.email).getD ""

/-- How an external way looks up a principal. -/
structure ExternalWay where
  provider : AuthProvider
  jitProvisioning : Bool
  name : Principal → String
  refusal : ApiError

/-- The directory. -/
def ldapWay (setup : Setup) : ExternalWay :=
  ⟨.ldapAd, setup.ldapJitProvisioning, Principal.ldapName, invalidCredentials⟩

/-- The identity provider. -/
def oidcWay (setup : Setup) : ExternalWay :=
  ⟨.entraOidc, setup.oidcJitProvisioning, Principal.oidcName, .unauthorized "authentication failed"⟩

section External

variable (setup : Setup) (way : ExternalWay) (people : People) (now : ℤ)

/-- A new user with its identity; users are active from the start. -/
def provision (provider : AuthProvider) (subject name freshUserId freshIdentityId : String) :
    People :=
  { people with
    rbac := { people.rbac with users := people.rbac.users ++ [⟨freshUserId, name, .active⟩] }
    identities := people.identities ++ [⟨freshIdentityId, freshUserId, provider, subject⟩] }

def People.taken (userId identityId : String) : Bool :=
  people.rbac.users.any (·.id = userId) || people.identities.any (·.id = identityId)

/-- `_resolve_user`. -/
def resolveUser (p : Principal) : Except ApiError (String × People) :=
  match people.identityOf way.provider p.subject with
  | some i => .ok (i.userId, people)
  | none =>
    if !way.jitProvisioning then .error way.refusal
    else if people.taken p.freshUserId p.freshIdentityId then .error .internal
    else .ok (p.freshUserId,
      provision people way.provider p.subject (way.name p) p.freshUserId p.freshIdentityId)

/-- The roles of a user are brought in line. -/
def People.withRoles (roles : RoleRows) : People :=
  { people with
    rbac := { people.rbac with userRoles := roles.userRoles }
    held := roles.held }

/-- An external login after its principal was verified. -/
def admitExternal (p : Principal) : Handled Admission :=
  match resolveUser way people p with
  | .error e => (.error e, people)
  | .ok (userId, resolved) =>
    let synced := resolved.withRoles p.roles
    match synced.loadUser userId, synced.mfaSatisfied userId with
    | none, _ => (.error way.refusal, synced)
    | some _, .error e => (.error e, synced)
    | some user, .ok satisfied =>
      let gate := enforceMfaPolicy setup synced userId now satisfied true
      if gate.blocked then (.error .mfaRequired, synced)
      else (.ok ⟨user, false, gate.graceUntil, satisfied⟩, synced)

end External

/-! ## The endpoints -/

/-- `OidcError` and its kinds, as far as the endpoint tells them apart. -/
inductive OidcError where
  | notConfigured
  | invalid
  | unavailable

/-- What a callback is called with, and what the identity provider says to it. -/
structure OidcCallback where
  provider : AuthProvider
  state : String
  answer : Except OidcError Principal

section Endpoints

variable (setup : Setup) (people : People) (now : ℤ)

/-- The principal of a login that the directory is asked about, after the local password. -/
def ldapPrincipal (outcome : AuthOutcome) (bind : Option Principal) : Option Principal :=
  if outcome.result = .badCredentials && setup.authProviders.contains .ldapAd then bind else none

/-- `login`, up to the session.  The directory is asked if there is no such local account or its
password is wrong; `bind` is what it says. -/
def login (r : LoginRequest) (bind : Option Principal) (freshChallenge : String) :
    Handled Admission :=
  let attempt := authenticatePassword setup people now r.username r.password
  match ldapPrincipal setup attempt.1 bind, attempt.1.userId with
  | some p, _ => admitExternal setup (ldapWay setup) attempt.2 now p
  | none, none => (.error invalidCredentials, attempt.2)
  | none, some userId =>
    admitLocal setup attempt.2 now userId attempt.1.mustChangePassword r freshChallenge

/-- The flow of a callback is used up; it has to be one of the provider and not too old. -/
def consumeFlow (c : OidcCallback) : Bool × People :=
  match people.flows.find? (·.state = c.state) with
  | none => (false, people)
  | some flow =>
    if flow.provider = c.provider then
      (now ≤ flow.expiresAt, { people with flows := people.flows.filter (·.state ≠ c.state) })
    else (false, people)

/-- How the endpoint translates an error of the flow. -/
def OidcError.translate : OidcError → ApiError
  | .notConfigured => .notFound
  | .invalid => .unauthorized "authentication failed"
  | .unavailable => .serviceUnavailable

/-- The principal of a callback; only one provider can be configured. -/
def OidcCallback.principal (c : OidcCallback) : Except OidcError Principal :=
  if c.provider = .entraOidc then c.answer else .error .notConfigured

/-- `oidc_callback`, up to the session. -/
def oidcCallback (c : OidcCallback) : Handled Admission :=
  let flow := consumeFlow people now c
  if !flow.1 then (.error (.unauthorized "authentication failed"), flow.2)
  else
    match c.principal with
    | .error e => (.error e.translate, flow.2)
    | .ok p => admitExternal setup (oidcWay setup) flow.2 now p

end Endpoints

end BbzPlatform.Access
