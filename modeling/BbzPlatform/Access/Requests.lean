import BbzPlatform.Access.Login

/-!
# Requests with sessions

What happens to users and sessions: users are deactivated and activated again, by an administrator
or by the synchronisation with the directory; logins, refreshes and requests come in; a second
factor is verified again for a session; and everything else in the tables changes.
-/

namespace BbzPlatform.Access

/-- Users and sessions. -/
structure Site where
  people : People
  store : SessionStore

/-! ## Deactivation -/

section Deactivation

variable (setup : Setup) (s : Site) (now : ℤ)

def People.withStatus (people : People) (userId : String) (status : UserStatus) : People :=
  { people with rbac := { people.rbac with users := people.rbac.withStatus userId status } }

/-- `UsersAdminRepository.set_active`; a refusal changes nothing. -/
def Site.setActive (userId : String) (active : Bool) : Site :=
  match s.people.rbac.setActive userId active with
  | .error _ => s
  | .ok rbac =>
    ⟨{ s.people with rbac }, if active then s.store else s.store.revokeAllForUser userId now⟩

structure LdapAccount where
  uid : String
  displayName : Option String
  email : Option String

/-- A run of the synchronisation: the accounts, unless the directory fails; the options; the
accounts whose change fails; the numbers for new users and identities; and the roles that it
leaves. -/
structure DirectoryRun where
  accounts : Option (List LdapAccount)
  dryRun : Bool
  force : Bool
  fails : String → Bool
  fresh : String → String × String
  roles : RoleRows

/-- The account of a name; the last one counts. -/
def accountOf (accounts : List LdapAccount) (uid : String) : Option LdapAccount :=
  if uid = "" then none else accounts.reverse.find? (·.uid = uid)

/-- `_load_bbz_users`. -/
def People.directoryUsers (people : People) : List (String × User) :=
  (people.identities.filter (·.provider = .ldapAd)).filterMap fun i =>
    (people.loadUser i.userId).map fun user => (i.subject, user)

/-- Active users that the directory no longer has. -/
def People.vanished (people : People) (accounts : List LdapAccount) : List (String × User) :=
  people.directoryUsers.filter fun e =>
    (accountOf accounts e.1).isNone && e.2.status = .active

def People.newUids (people : People) (accounts : List LdapAccount) : List String :=
  (accounts.map (·.uid)).dedup.filter fun uid =>
    uid ≠ "" && people.directoryUsers.all fun e => e.1 ≠ uid

/-- `_provision`; a number that is taken ends the run. -/
def People.provisionAll (people : People) (run : DirectoryRun) (accounts : List LdapAccount) :
    List String → Option People
  | [] => some people
  | uid :: rest =>
    let account := accountOf accounts uid
    let name := ((account.bind fun a => supplied a.displayName) <|>
      (account.bind fun a => supplied a.email)).getD uid
    if people.taken (run.fresh uid).1 (run.fresh uid).2 then none
    else (provision people .ldapAd uid name (run.fresh uid).1 (run.fresh uid).2).provisionAll run
      accounts rest

/-- A user that has vanished is deactivated, and the sessions are revoked. -/
def Site.deactivate (s : Site) (now : ℤ) (userId : String) : Site :=
  ⟨s.people.withStatus userId .disabled, s.store.revokeAllForUser userId now⟩

/-- `_deactivate`. -/
def Site.deactivateAll (s : Site) (now : ℤ) (run : DirectoryRun) (users : List (String × User)) :
    Site :=
  (users.filter fun e => !run.fails e.1).foldl (fun s e => s.deactivate now e.2.id) s

def People.rename (people : People) (userId name : String) : People :=
  { people with rbac := { people.rbac with users := people.rbac.users.map fun u =>
      if u.id = userId then { u with displayName := name } else u } }

/-- `_refresh_profile` for a user that the directory may have. -/
def People.refreshProfile (accounts : List LdapAccount) (people : People) (e : String × User) :
    People :=
  match (accountOf accounts e.1).bind fun a => supplied a.displayName with
  | none => people
  | some name => people.rename e.2.id name

/-- `_reconcile_present`: names and roles of the users that the directory has. -/
def People.reconcile (people : People) (run : DirectoryRun) (accounts : List LdapAccount)
    (users : List (String × User)) : People :=
  let present := users.filter fun e => e.2.status = .active && !run.fails e.1
  (present.foldl (People.refreshProfile accounts) people).withRoles run.roles

/-- `DirectorySyncService.run`. -/
def Site.syncDirectory (run : DirectoryRun) : Site :=
  match run.accounts with
  | none | some [] => s
  | some accounts =>
    let vanished := s.people.vanished accounts
    if !run.force && setup.ldapSyncMaxDeactivations < vanished.length then s
    else if run.dryRun then s
    else
      let newUids := if setup.ldapSyncProvision then s.people.newUids accounts else []
      match s.people.provisionAll run accounts newUids with
      | none => s
      | some people =>
        let done := Site.deactivateAll ⟨people, s.store⟩ now run vanished
        { done with people := done.people.reconcile run accounts s.people.directoryUsers }

end Deactivation

/-! ## Requests on a session -/

/-- `StepUpIn`. -/
structure StepUpBody where
  totp : Option String
  webauthn : Option String

/-- What the endpoint says to a request that is not let in. -/
def AuthError.message : AuthError → String
  | .authenticationRequired => "authentication required"
  | .invalidToken => "invalid or expired token"
  | .sessionNotActive => "session is no longer active"
  | .refreshInvalid => "refresh token is invalid or expired"

section Requests

variable (setup : Setup) (s : Site) (now : ℤ)

/-- `current_auth` as the endpoints use it. -/
def Site.auth (token : Option AccessToken) : Except ApiError AuthContext :=
  match s.store.currentAuth token now with
  | .error e => .error (.unauthorized e.message)
  | .ok ctx => .ok ctx

def proveFactor (people : People) (userId : String) (body : StepUpBody) : Handled Unit :=
  match supplied body.webauthn, supplied body.totp with
  | some response, _ =>
    match verifyAuthentication setup people now userId response with
    | (.error e, changed) => (.error e, changed)
    | (.ok false, changed) => (.error (.unauthorized "invalid assertion"), changed)
    | (.ok true, changed) => (.ok (), changed)
  | none, none => (.error (.validation "a totp or webauthn value is required"), people)
  | none, some code =>
    match people.localIdentity userId with
    | .error e => (.error e, people)
    | .ok none => (.error (.validation "no local login with MFA for this account"), people)
    | .ok (some i) =>
      match challengeIdentity setup people now i.id code with
      | (.error e, changed) => (.error e, changed)
      | (.ok false, changed) => (.error (.unauthorized "invalid code"), changed)
      | (.ok true, changed) => (.ok (), changed)

/-- `step_up`. -/
def Site.stepUp (token : Option AccessToken) (body : StepUpBody) : Except ApiError Unit × Site :=
  match s.auth now token with
  | .error e => (.error e, s)
  | .ok ctx =>
    match proveFactor setup now s.people ctx.userId body with
    | (.error e, people) => (.error e, { s with people })
    | (.ok _, people) => (.ok (), ⟨people, s.store.markMfaVerified ctx.sessionId now⟩)

/-- `require`. -/
def Site.require (token : Option AccessToken) (permission : String) (scope : Option ScopeContext) :
    Except ApiError AuthContext :=
  match s.auth now token with
  | .error e => .error e
  | .ok ctx =>
    let allowed :=
      match scope with
      | none => authorize setup.policy s.people.rbac now ctx.userId permission
      | some scope => authorizeScoped setup.policy s.people.rbac now ctx.userId permission scope
    match allowed with
    | .error _ => .error .internal
    | .ok false => .error (.forbidden permission)
    | .ok true => .ok ctx

/-- `require_stepup`. -/
def Site.requireStepup (token : Option AccessToken) (permission : String)
    (scope : Option ScopeContext) : Except ApiError AuthContext :=
  match s.require setup now token permission scope with
  | .error e => .error e
  | .ok ctx =>
    if !setup.mfaStepupPermissions.contains permission then .ok ctx
    else
      match (s.store.getActive ctx.sessionId).bind (·.mfaVerifiedAt) with
      | none => .error (.stepUpRequired permission)
      | some verifiedAt =>
        if now - verifiedAt ≤ setup.mfaStepupMaxAgeSeconds then .ok ctx
        else .error (.stepUpRequired permission)

/-- `refresh`. -/
def Site.refresh (token : Option String) : Except ApiError AccessToken :=
  match supplied token with
  | none => .error (.unauthorized "no refresh token")
  | some token =>
    match s.store.refresh setup.session token now with
    | .error e => .error (.unauthorized e.message)
    | .ok access => .ok access

/-- A session is started for a user that was let in. -/
def Site.enter (handled : Handled Admission) : Site :=
  match handled with
  | (.error _, people) => { s with people }
  | (.ok a, people) => ⟨people, s.store.start setup.session a.user.id now a.mfaVerified⟩

end Requests

/-! ## What happens -/

/-- What happens at a site. -/
inductive Event where
  | setActive (userId : String) (active : Bool)
  | syncDirectory (run : DirectoryRun)
  | login (r : LoginRequest) (bind : Option Principal) (freshChallenge : String)
  | oidcCallback (c : OidcCallback)
  | refresh (token : Option String)
  | request (token : Option AccessToken)
  | stepUp (token : Option AccessToken) (body : StepUpBody)
  | gated (token : Option AccessToken) (permission : String) (scope : Option ScopeContext)
  | logout (token : String)
  | edit (tables : People)

section Handling

variable (setup : Setup) (s : Site)

/-- The site after an event at some time. -/
def Site.handle (e : ℤ × Event) : Site :=
  match e.2 with
  | .setActive userId active => s.setActive e.1 userId active
  | .syncDirectory run => s.syncDirectory setup e.1 run
  | .login r bind freshChallenge =>
    s.enter setup e.1 (Access.login setup s.people e.1 r bind freshChallenge)
  | .oidcCallback c => s.enter setup e.1 (Access.oidcCallback setup s.people e.1 c)
  | .refresh token =>
    match s.refresh setup e.1 token with
    | .error _ => s
    | .ok access => { s with store := s.store.withToken access }
  | .stepUp token body => (s.stepUp setup e.1 token body).2
  | .logout token =>
    { s with store := s.store.revokeByRefresh (setup.session.hashRefreshToken token) e.1 }
  | .edit tables =>
    -- the users stay as they are
    { s with people :=
        { tables with rbac := { tables.rbac with users := s.people.rbac.users } } }
  | .request _ | .gated _ _ _ => s

/-- The user for whom a login starts a session, a refresh issues a token, or a request is
accepted. -/
def Site.actsFor (e : ℤ × Event) : Option String :=
  match e.2 with
  | .login r bind freshChallenge =>
    (Access.login setup s.people e.1 r bind freshChallenge).1.toOption.map (·.user.id)
  | .oidcCallback c => (Access.oidcCallback setup s.people e.1 c).1.toOption.map (·.user.id)
  | .refresh token => (s.refresh setup e.1 token).toOption.map (·.userId)
  | .request token | .stepUp token _ | .gated token _ _ =>
    (s.auth e.1 token).toOption.map (·.userId)
  | .setActive _ _ | .syncDirectory _ | .logout _ | .edit _ => none

/-- Users and their accounts, and no sessions yet. -/
def Site.start (people : People) : Site := ⟨people, ⟨[], []⟩⟩

/-- The external way that a login takes, with the rows at that time and the verified principal. -/
def Site.external (e : ℤ × Event) : Option (ExternalWay × People × Principal) :=
  match e.2 with
  | .login r bind _ =>
    let attempt := authenticatePassword setup s.people e.1 r.username r.password
    (ldapPrincipal setup attempt.1 bind).map fun p => (ldapWay setup, attempt.2, p)
  | .oidcCallback c =>
    let flow := consumeFlow s.people e.1 c
    if flow.1 then c.principal.toOption.map fun p => (oidcWay setup, flow.2, p) else none
  | _ => none

end Handling

/-! ## Who is let in -/

variable {setup : Setup} {way : ExternalWay} {people : People} {now : ℤ} {p : Principal}
  {userId password : String} {s : Site} {a : Admission}

/-- An external way lets a user in: the identity is theirs, and the policy for second factors does
not block; the last argument says whether they have enrolled one. -/
def LetIn (setup : Setup) (way : ExternalWay) (people : People) (now : ℤ) (p : Principal)
    (userId : String) (satisfied : Bool) : Prop :=
  ∃ resolved user, resolveUser way people p = .ok (userId, resolved) ∧
    (resolved.withRoles p.roles).loadUser userId = some user ∧
    (resolved.withRoles p.roles).mfaSatisfied userId = .ok satisfied ∧
    (enforceMfaPolicy setup (resolved.withRoles p.roles) userId now satisfied true).blocked = false

theorem id_of_loadUser {user : User} (h : people.loadUser userId = some user) :
    user.id = userId := by
  simpa using List.find?_some h

theorem letIn_of_admitExternal (h : (admitExternal setup way people now p).1 = .ok a) :
    LetIn setup way people now p a.user.id a.mfaVerified := by
  revert h
  fun_cases admitExternal setup way people now p <;> rintro ⟨⟩
  next resolved hresolve synced user satisfied hsatisfied huser gate hgate =>
    rw [id_of_loadUser huser]
    exact ⟨resolved, user, hresolve, huser, hsatisfied, by simpa using hgate⟩

theorem admitExternal_of_letIn {satisfied : Bool}
    (h : LetIn setup way people now p userId satisfied) :
    ∃ a, (admitExternal setup way people now p).1 = .ok a ∧ a.user.id = userId ∧
      a.mfaVerified = satisfied := by
  obtain ⟨resolved, user, hresolve, huser, hsatisfied, hgate⟩ := h
  refine ⟨⟨user, false, (enforceMfaPolicy setup (resolved.withRoles p.roles) userId now satisfied
    true).graceUntil, satisfied⟩, ?_, id_of_loadUser huser, rfl⟩
  simp only [admitExternal, hresolve, huser, hsatisfied, hgate]
  rfl

theorem active_of_authenticate {cfg : LockSettings} {hashing : Hashing} {record : CredentialRecord}
    (h : (authenticate cfg hashing record now password).1.userId = some userId) :
    record.userActive = true ∧ record.userId = userId := by
  unfold authenticate at h
  split at h
  · cases h
  · cases h
  · cases h
  next hright =>
    have huser : record.userId = userId := by
      dsimp only at h
      split at h <;> exact Option.some.inj h
    refine ⟨?_, huser⟩
    unfold judge at hright
    split at hright
    · cases hright
    · split_ifs at hright with hactive
      simpa using hactive

theorem authenticatePassword_people (setup : Setup) (people : People) (now : ℤ)
    (username password : String) :
    ∃ credentials, (authenticatePassword setup people now username password).2 =
      { people with credentials } := by
  unfold authenticatePassword
  split
  · exact ⟨people.credentials, rfl⟩
  · exact ⟨_, rfl⟩

/-- **A local password is accepted for an active user, whose identity has the name.** -/
theorem active_of_authenticatePassword {username : String}
    (h : (authenticatePassword setup people now username password).1.userId = some userId) :
    ∃ i user, people.identityOf .localAccount username = some i ∧ i.userId = userId ∧
      people.loadUser userId = some user ∧ user.status = .active := by
  unfold authenticatePassword at h
  split at h
  · cases h
  next record hrecord =>
    obtain ⟨hactive, hid⟩ := active_of_authenticate h
    unfold People.getByUsername at hrecord
    split at hrecord
    · cases hrecord
    next i hi =>
      split at hrecord
      next user row huser hrow =>
        cases hrecord
        have hi' : i.userId = userId := (id_of_loadUser huser).symm.trans hid
        exact ⟨i, user, hi, hi', hi' ▸ huser, of_decide_eq_true hactive⟩
      · cases hrecord

theorem admitLocal_ok {mustChange : Bool} {r : LoginRequest} {freshChallenge : String}
    (h : (admitLocal setup people now userId mustChange r freshChallenge).1 = .ok a) :
    a.user.id = userId ∧
      (secondFactor setup people now userId (people.identityOf .localAccount r.username) r
        freshChallenge).1 = .ok a.mfaVerified := by
  revert h
  fun_cases admitLocal setup people now userId mustChange r freshChallenge <;> rintro ⟨⟩
  next huser _ _ _ _ _ _ hfactor => exact ⟨id_of_loadUser huser, congrArg Prod.fst hfactor⟩

/-- How a login goes on after its password. -/
theorem login_cases (setup : Setup) (s : Site) (now : ℤ) (r : LoginRequest)
    (bind : Option Principal) (freshChallenge : String) :
    let attempt := authenticatePassword setup s.people now r.username r.password
    (∃ p, s.external setup (now, .login r bind freshChallenge) =
          some (ldapWay setup, attempt.2, p) ∧
        login setup s.people now r bind freshChallenge =
          admitExternal setup (ldapWay setup) attempt.2 now p) ∨
      s.external setup (now, .login r bind freshChallenge) = none ∧
        (login setup s.people now r bind freshChallenge = (.error invalidCredentials, attempt.2) ∨
          ∃ userId, attempt.1.userId = some userId ∧
            login setup s.people now r bind freshChallenge =
              admitLocal setup attempt.2 now userId attempt.1.mustChangePassword r
                freshChallenge) := by
  intro attempt
  cases hldap : ldapPrincipal setup attempt.1 bind with
  | some p =>
    exact .inl ⟨p, by simp [Site.external, attempt, hldap], by simp [login, attempt, hldap]⟩
  | none =>
    refine .inr ⟨by simp [Site.external, attempt, hldap], ?_⟩
    cases huser : attempt.1.userId with
    | none => exact .inl (by simp [login, attempt, hldap, huser])
    | some userId => exact .inr ⟨userId, rfl, by simp [login, attempt, hldap, huser]⟩

theorem oidcCallback_cases (setup : Setup) (s : Site) (now : ℤ) (c : OidcCallback) :
    (∃ p, s.external setup (now, .oidcCallback c) =
          some (oidcWay setup, (consumeFlow s.people now c).2, p) ∧
        oidcCallback setup s.people now c =
          admitExternal setup (oidcWay setup) (consumeFlow s.people now c).2 now p) ∨
      s.external setup (now, .oidcCallback c) = none ∧
        ∃ e, oidcCallback setup s.people now c = (.error e, (consumeFlow s.people now c).2) := by
  cases hflow : (consumeFlow s.people now c).1 with
  | false =>
    exact .inr ⟨by simp [Site.external, hflow],
      .unauthorized "authentication failed", by simp [oidcCallback, hflow]⟩
  | true =>
    cases hp : c.principal with
    | error e =>
      exact .inr ⟨by simp [Site.external, hflow, hp, Except.toOption],
        e.translate, by simp [oidcCallback, hflow, hp]⟩
    | ok p =>
      exact .inl ⟨p, by simp [Site.external, hflow, hp, Except.toOption],
        by simp [oidcCallback, hflow, hp]⟩

theorem external_eq_some {e : ℤ × Event} (h : s.external setup e = some (way, people, p)) :
    s.handle setup e = s.enter setup e.1 (admitExternal setup way people e.1 p) ∧
      s.actsFor setup e =
        (admitExternal setup way people e.1 p).1.toOption.map (·.user.id) := by
  obtain ⟨now, event⟩ := e
  cases event with
  | login r bind freshChallenge =>
    obtain ⟨p', hexternal, hlogin⟩ | ⟨hnone, -⟩ := login_cases setup s now r bind freshChallenge
    · cases h.symm.trans hexternal
      simp only [Site.handle, Site.actsFor, hlogin, and_self]
    · rw [hnone] at h
      cases h
  | oidcCallback c =>
    obtain ⟨p', hexternal, hcallback⟩ | ⟨hnone, -⟩ := oidcCallback_cases setup s now c
    · cases h.symm.trans hexternal
      simp only [Site.handle, Site.actsFor, hcallback, and_self]
    · rw [hnone] at h
      cases h
  | setActive _ _ | syncDirectory _ | refresh _ | request _ | stepUp _ _ | gated _ _ _ | logout _
  | edit _ => cases h

theorem toOption_map_eq_some {ε α β : Type} {x : Except ε α} {f : α → β} {b : β} :
    x.toOption.map f = some b ↔ ∃ a, x = .ok a ∧ f a = b := by
  cases x <;> simp [Except.toOption]

/-! ## Deactivation revokes sessions -/

theorem revoked_setActive (userId : String) (active : Bool) :
    s.store.Revoked (s.setActive now userId active).store := by
  unfold Site.setActive
  split
  · exact .refl
  · dsimp only
    split
    · exact .refl
    · exact .revokeWhere .refl _ _

theorem revoked_deactivateAll (run : DirectoryRun) (users : List (String × User)) :
    s.store.Revoked (s.deactivateAll now run users).store := by
  unfold Site.deactivateAll
  generalize users.filter _ = vanished
  induction vanished generalizing s with
  | nil => exact .refl
  | cons e rest ih =>
    have hfirst : s.store.Revoked (s.deactivate now e.2.id).store := .revokeWhere .refl _ _
    exact hfirst.trans ih

/-- A run of the synchronisation stops before it changes anything, or goes through. -/
theorem syncDirectory_cases (setup : Setup) (s : Site) (now : ℤ) (run : DirectoryRun) :
    s.syncDirectory setup now run = s ∨
      ∃ accounts uids people, s.people.provisionAll run accounts uids = some people ∧
        let done := Site.deactivateAll ⟨people, s.store⟩ now run (s.people.vanished accounts)
        s.syncDirectory setup now run =
          ⟨done.people.reconcile run accounts s.people.directoryUsers, done.store⟩ := by
  unfold Site.syncDirectory
  split
  · exact .inl rfl
  · exact .inl rfl
  next accounts _ _ =>
    dsimp only
    split
    · exact .inl rfl
    · split
      · exact .inl rfl
      · split
        · exact .inl rfl
        next people hprovision =>
          exact .inr ⟨accounts, _, people, hprovision, rfl⟩

theorem revoked_syncDirectory (run : DirectoryRun) :
    s.store.Revoked (s.syncDirectory setup now run).store := by
  obtain h | ⟨accounts, -, people, -, h⟩ := syncDirectory_cases setup s now run
  · rw [h]
    exact .refl
  · rw [h]
    exact revoked_deactivateAll (s := ⟨people, s.store⟩) run _

/-! ## Sessions keep their users -/

theorem consistent_enter (h : s.store.Consistent) (handled : Handled Admission) :
    (s.enter setup now handled).store.Consistent := by
  obtain ⟨answer, people⟩ := handled
  cases answer with
  | error e => exact h
  | ok a => exact h.start _

theorem refresh_eq_ok {token : Option String} {access : AccessToken}
    (h : s.refresh setup now token = .ok access) :
    ∃ text, s.store.refresh setup.session text now = .ok access := by
  revert h
  fun_cases Site.refresh setup s now token <;> rintro ⟨⟩
  next text _ hrefresh => exact ⟨text, hrefresh⟩

theorem auth_eq_ok {token : Option AccessToken} {ctx : AuthContext}
    (h : s.auth now token = .ok ctx) : s.store.currentAuth token now = .ok ctx := by
  unfold Site.auth at h
  split at h
  · cases h
  next hcurrent =>
    cases h
    exact hcurrent

theorem stepUp_cases (setup : Setup) (s : Site) (now : ℤ) (token : Option AccessToken)
    (body : StepUpBody) : (s.stepUp setup now token body).2.store = s.store ∨
      ∃ ctx people, s.auth now token = .ok ctx ∧
        proveFactor setup now s.people ctx.userId body = (.ok (), people) ∧
        (s.stepUp setup now token body).2.store = s.store.markMfaVerified ctx.sessionId now := by
  unfold Site.stepUp
  split
  · exact .inl rfl
  next ctx hauth =>
    split
    · exact .inl rfl
    next people hprove =>
      exact .inr ⟨ctx, people, hauth, hprove, rfl⟩

/-- **Whatever happens, a token names the user of its session.** -/
theorem consistent_handle (h : s.store.Consistent) (e : ℤ × Event) :
    (s.handle setup e).store.Consistent := by
  obtain ⟨now, event⟩ := e
  cases event with
  | setActive userId active => exact h.revoked (revoked_setActive userId active)
  | syncDirectory run => exact h.revoked (revoked_syncDirectory run)
  | login r bind freshChallenge | oidcCallback c => exact consistent_enter h _
  | refresh token =>
    cases hrefresh : s.refresh setup now token with
    | error error => simpa only [Site.handle, hrefresh] using h
    | ok access =>
      obtain ⟨text, hstore⟩ := refresh_eq_ok hrefresh
      simpa only [Site.handle, hrefresh] using h.refresh hstore
  | stepUp token body =>
    obtain hsame | ⟨ctx, -, -, -, hmarked⟩ := stepUp_cases setup s now token body
    · exact hsame ▸ h
    · exact hmarked ▸ h.markMfaVerified ctx.sessionId
  | logout token => exact h.revokeWhere _
  | edit tables => exact h
  | request _ | gated _ _ _ => exact h

end BbzPlatform.Access
