import BbzPlatform.Access.Requests
import BbzPlatform.Lib.Histories

/-!
# Users that are deactivated

Deactivating a user revokes all sessions, and the local way lets in only active users.  So a user
who is deactivated has no session, unless an external way has let them in since: it looks up the
user of the identity and does not ask for the status.
-/

namespace BbzPlatform.Access

/-- What happens is not for a user who is deactivated: no session is started, no token issued and no
request accepted. -/
def ShutOutAt (setup : Setup) (s : Site) (e : ℤ × Event) : Prop :=
  ∀ userId, s.actsFor setup e = some userId → ¬ s.people.Disabled userId

/-- The external way that a login takes does not let in a user who is deactivated: none is taken,
the identity is of nobody or of an active user, or the policy for second factors blocks. -/
def BarsDisabled (setup : Setup) (s : Site) (e : ℤ × Event) : Prop :=
  ∀ way people p, s.external setup e = some (way, people, p) →
    ∀ userId satisfied, LetIn setup way people e.1 p userId satisfied → ¬ s.people.Disabled userId

/-- Users that are deactivated have no session. -/
def Barred (s : Site) : Prop := ∀ userId, s.people.Disabled userId → ¬ s.store.Live userId

/-- Nobody becomes deactivated. -/
def Grows (people people' : People) : Prop :=
  ∀ userId, people'.Disabled userId → people.Disabled userId

variable {setup : Setup} {people people' : People} {now : ℤ} {userId : String} {s : Site}
  {e : ℤ × Event}

theorem Grows.trans {people'' : People} (h : Grows people people') (h' : Grows people' people'') :
    Grows people people'' :=
  fun userId hdisabled => h userId (h' userId hdisabled)

theorem grows_of_users (h : people'.rbac.users = people.rbac.users) : Grows people people' := by
  intro userId hdisabled
  unfold People.Disabled People.loadUser at hdisabled ⊢
  rwa [h] at hdisabled

/-- New users are active. -/
theorem grows_provision (provider : AuthProvider)
    (subject name freshUserId freshIdentityId : String) :
    Grows people (provision people provider subject name freshUserId freshIdentityId) := by
  rintro userId ⟨user, huser, hstatus⟩
  unfold People.loadUser provision at huser
  rw [List.find?_append] at huser
  cases hold : people.rbac.users.find? (·.id = userId) with
  | some old =>
    rw [hold] at huser
    cases huser
    exact ⟨user, hold, hstatus⟩
  | none =>
    rw [hold, Option.none_or] at huser
    rw [List.mem_singleton.mp (List.mem_of_find?_eq_some huser)] at hstatus
    cases hstatus

theorem loadUser_map (people : People) {f : User → User} (hid : ∀ u, (f u).id = u.id)
    (h : people'.rbac.users = people.rbac.users.map f) :
    people'.loadUser userId = (people.loadUser userId).map f := by
  unfold People.loadUser
  rw [h, List.find?_map]
  congr 2
  funext u
  simp [hid]

theorem grows_rename (other name : String) : Grows people (people.rename other name) := by
  rintro userId ⟨user, huser, hstatus⟩
  rw [loadUser_map people (f := fun u => if u.id = other then { u with displayName := name } else u)
    (fun u => by split <;> rfl) rfl] at huser
  obtain ⟨old, hold, rfl⟩ := Option.map_eq_some_iff.mp huser
  refine ⟨old, hold, ?_⟩
  split at hstatus <;> exact hstatus

/-- After the status of a user is set, those who are deactivated were so before, or it is that user
and the status. -/
theorem disabled_withStatus {other : String} {status : UserStatus}
    (h : (people.withStatus other status).Disabled userId) :
    people.Disabled userId ∨ userId = other ∧ status = .disabled := by
  obtain ⟨user, huser, hstatus⟩ := h
  rw [loadUser_map people (f := fun u => if u.id = other then { u with status } else u)
    (fun u => by split <;> rfl) rfl] at huser
  obtain ⟨old, hold, rfl⟩ := Option.map_eq_some_iff.mp huser
  split_ifs at hstatus with hid
  · exact .inr ⟨(id_of_loadUser hold).symm.trans hid, hstatus⟩
  · exact .inl ⟨old, hold, hstatus⟩

/-! ## The users after a request -/

section Kept

variable (setup : Setup) (people : People) (now : ℤ) (userId : String)

theorem users_verifyAuthentication (response : String) :
    (verifyAuthentication setup people now userId response).2.rbac.users = people.rbac.users := by
  unfold verifyAuthentication
  split
  · rfl
  · split
    · rfl
    · dsimp only
      split
      · rfl
      · split
        · rfl
        · split <;> rfl

theorem users_challengeIdentity (identityId code : String) :
    (challengeIdentity setup people now identityId code).2.rbac.users = people.rbac.users := by
  unfold challengeIdentity
  split <;> rfl

theorem users_beginAuthentication (freshChallenge : String) :
    (beginAuthentication setup people now userId freshChallenge).2.rbac.users =
      people.rbac.users := by
  unfold beginAuthentication
  split
  · rfl
  · split <;> rfl

theorem snd_orInvalid (handled : Handled Bool) : (orInvalid handled).2 = handled.2 := by
  unfold orInvalid
  split <;> rfl

theorem users_secondFactor (identity : Option AuthIdentity) (r : LoginRequest)
    (freshChallenge : String) :
    (secondFactor setup people now userId identity r freshChallenge).2.rbac.users =
      people.rbac.users := by
  unfold secondFactor
  dsimp only
  split
  · rw [snd_orInvalid, users_verifyAuthentication]
  · rw [snd_orInvalid, users_challengeIdentity]
  · split
    · have hbegin := users_beginAuthentication setup people now userId freshChallenge
      split
      next h =>
        rwa [h] at hbegin
      next h =>
        rwa [h] at hbegin
    · split <;> rfl

theorem users_admitLocal (mustChange : Bool) (r : LoginRequest) (freshChallenge : String) :
    (admitLocal setup people now userId mustChange r freshChallenge).2.rbac.users =
      people.rbac.users := by
  unfold admitLocal
  split
  · rfl
  · dsimp only
    split
    · rfl
    · have hfactor := users_secondFactor setup people now userId
        (people.identityOf .localAccount r.username) r freshChallenge
      split
      next h =>
        rwa [h] at hfactor
      next h =>
        rwa [h] at hfactor

theorem users_proveFactor (body : StepUpBody) :
    (proveFactor setup now people userId body).2.rbac.users = people.rbac.users := by
  unfold proveFactor
  split
  next response _ =>
    have hverify := users_verifyAuthentication setup people now userId response
    split
    next h =>
      rwa [h] at hverify
    next h =>
      rwa [h] at hverify
    next h =>
      rwa [h] at hverify
  · rfl
  next code _ _ =>
    split
    · rfl
    · rfl
    next i _ =>
      have hchallenge := users_challengeIdentity setup people now i.id code
      split
      next h =>
        rwa [h] at hchallenge
      next h =>
        rwa [h] at hchallenge
      next h =>
        rwa [h] at hchallenge

theorem users_consumeFlow (c : OidcCallback) :
    (consumeFlow people now c).2.rbac.users = people.rbac.users := by
  unfold consumeFlow
  split
  · rfl
  · split <;> rfl

theorem users_authenticatePassword (username password : String) :
    (authenticatePassword setup people now username password).2.rbac.users = people.rbac.users := by
  obtain ⟨credentials, h⟩ := authenticatePassword_people setup people now username password
  rw [h]

end Kept

section Added

/-- An external way leaves the users as they are, or adds an active one. -/
theorem grows_admitExternal (way : ExternalWay) (p : Principal) :
    Grows people (admitExternal setup way people now p).2 := by
  have hresolved : ∀ userId resolved, resolveUser way people p = .ok (userId, resolved) →
      Grows people resolved := by
    intro userId resolved h
    unfold resolveUser at h
    split at h
    · cases h
      exact grows_of_users rfl
    · split at h
      · cases h
      · split at h
        · cases h
        · cases h
          exact grows_provision _ _ _ _ _
  unfold admitExternal
  split
  · exact grows_of_users rfl
  next userId resolved hresolve =>
    have hsynced : Grows people (resolved.withRoles p.roles) :=
      (hresolved userId resolved hresolve).trans (grows_of_users rfl)
    dsimp only
    split
    · exact hsynced
    · exact hsynced
    · split <;> exact hsynced

theorem grows_login (r : LoginRequest) (bind : Option Principal) (freshChallenge : String) :
    Grows s.people (login setup s.people now r bind freshChallenge).2 := by
  have hattempt :
      Grows s.people (authenticatePassword setup s.people now r.username r.password).2 :=
    grows_of_users (users_authenticatePassword ..)
  obtain ⟨p, -, h⟩ | ⟨-, h | ⟨userId, -, h⟩⟩ :=
    login_cases setup s now r bind freshChallenge
  · rw [h]
    exact hattempt.trans (grows_admitExternal _ _)
  · rw [h]
    exact hattempt
  · rw [h]
    exact hattempt.trans (grows_of_users (users_admitLocal ..))

theorem grows_oidcCallback (c : OidcCallback) :
    Grows s.people (oidcCallback setup s.people now c).2 := by
  have hflow : Grows s.people (consumeFlow s.people now c).2 :=
    grows_of_users (users_consumeFlow _ _ c)
  obtain ⟨p, -, h⟩ | ⟨-, e, h⟩ := oidcCallback_cases setup s now c
  · rw [h]
    exact hflow.trans (grows_admitExternal _ _)
  · rw [h]
    exact hflow

theorem grows_provisionAll (run : DirectoryRun) (accounts : List LdapAccount) {uids : List String}
    (h : people.provisionAll run accounts uids = some people') : Grows people people' := by
  induction uids generalizing people with
  | nil =>
    cases h
    exact grows_of_users rfl
  | cons uid rest ih =>
    simp only [People.provisionAll] at h
    split at h
    · cases h
    · exact (grows_provision _ _ _ _ _).trans (ih h)

theorem grows_refreshProfile (accounts : List LdapAccount) (e : String × User) :
    Grows people (people.refreshProfile accounts e) := by
  unfold People.refreshProfile
  split
  · exact grows_of_users rfl
  · exact grows_rename _ _

theorem grows_reconcile (run : DirectoryRun) (accounts : List LdapAccount)
    (users : List (String × User)) : Grows people (people.reconcile run accounts users) := by
  have hall : ∀ (present : List (String × User)) (people : People),
      Grows people (present.foldl (People.refreshProfile accounts) people) := by
    intro present
    induction present with
    | nil => exact fun _ => grows_of_users rfl
    | cons e rest ih => exact fun people => (grows_refreshProfile accounts e).trans (ih _)
  exact (hall _ people).trans (grows_of_users rfl)

/-! ## Runs -/

variable (h : Barred s)
include h

theorem Barred.grow (hgrows : Grows s.people people) : Barred { s with people } :=
  fun userId hdisabled => h userId (hgrows userId hdisabled)

theorem Barred.revokeWhere (p : Session → Bool) :
    Barred { s with store := s.store.revokeWhere p now } := by
  intro userId hdisabled hlive
  obtain ⟨row, hrow, huser, hrevoked, -⟩ := SessionStore.live_revokeWhere.mp hlive
  exact h userId hdisabled ⟨row, hrow, huser, hrevoked⟩

theorem Barred.deactivate (userId : String) : Barred (s.deactivate now userId) := by
  intro other hdisabled hlive
  obtain ⟨row, hrow, huser, hrevoked, hkept⟩ := SessionStore.live_revokeWhere.mp hlive
  obtain hbefore | ⟨rfl, -⟩ := disabled_withStatus hdisabled
  · exact h other hbefore ⟨row, hrow, huser, hrevoked⟩
  · simp [huser] at hkept

theorem Barred.setActive (userId : String) (active : Bool) :
    Barred (s.setActive now userId active) := by
  unfold Site.setActive Rbac.setActive
  split
  · exact h
  next rbac hrbac =>
    split at hrbac
    · cases hrbac
    · cases hrbac
      cases active with
      | true =>
        refine h.grow fun other hdisabled => ?_
        obtain hbefore | ⟨-, hstatus⟩ := disabled_withStatus hdisabled
        · exact hbefore
        · cases hstatus
      | false => exact h.deactivate userId

theorem Barred.deactivateAll (run : DirectoryRun) (users : List (String × User)) :
    Barred (s.deactivateAll now run users) := by
  unfold Site.deactivateAll
  generalize users.filter _ = vanished
  induction vanished generalizing s with
  | nil => exact h
  | cons e rest ih => exact ih (h.deactivate e.2.id)

theorem Barred.syncDirectory (run : DirectoryRun) : Barred (s.syncDirectory setup now run) := by
  obtain hsame | ⟨accounts, uids, people, hprovision, hdone⟩ :=
    syncDirectory_cases setup s now run
  · rw [hsame]
    exact h
  · rw [hdone]
    have hnew : Barred ⟨people, s.store⟩ := h.grow (grows_provisionAll run _ hprovision)
    exact (hnew.deactivateAll run _).grow (grows_reconcile run _ _)

/-- A session is started for somebody who is not deactivated. -/
theorem Barred.enter {handled : Handled Admission} (hgrows : Grows s.people handled.2)
    (hactive : ∀ a, handled.1 = .ok a → ¬ s.people.Disabled a.user.id) :
    Barred (s.enter setup now handled) := by
  obtain ⟨answer, people⟩ := handled
  cases answer with
  | error e => exact h.grow hgrows
  | ok a =>
    intro userId hdisabled hlive
    have hbefore := hgrows userId hdisabled
    obtain hold | rfl := SessionStore.live_start.mp hlive
    · exact h userId hbefore hold
    · exact hactive a rfl hbefore

end Added

/-- **An event is for nobody who is deactivated exactly if its external way bars them.** -/
theorem shutOutAt_iff_barsDisabled (hconsistent : s.store.Consistent) (h : Barred s) :
    ShutOutAt setup s e ↔ BarsDisabled setup s e := by
  constructor
  · intro hshut way people p hexternal userId satisfied hletIn
    obtain ⟨a, ha, hid, -⟩ := admitExternal_of_letIn hletIn
    refine hshut userId ?_
    rw [(external_eq_some hexternal).2]
    exact toOption_map_eq_some.mpr ⟨a, ha, hid⟩
  · intro hbars userId hacts
    obtain ⟨now, event⟩ := e
    -- the local way asks for the status, and the rest needs a session
    cases event with
    | login r bind freshChallenge =>
      obtain ⟨a, ha, rfl⟩ := toOption_map_eq_some.mp hacts
      obtain ⟨p, hexternal, hlogin⟩ | ⟨-, hlogin | ⟨userId, huser, hlogin⟩⟩ :=
        login_cases setup s now r bind freshChallenge
      · rw [hlogin] at ha
        exact hbars _ _ _ hexternal _ _ (letIn_of_admitExternal ha)
      · rw [hlogin] at ha
        cases ha
      · rw [hlogin] at ha
        rw [(admitLocal_ok ha).1]
        rintro ⟨user, hloaded, hstatus⟩
        obtain ⟨-, user', -, -, huser', hactive⟩ := active_of_authenticatePassword huser
        cases hloaded.symm.trans huser'
        rw [hactive] at hstatus
        cases hstatus
    | oidcCallback c =>
      obtain ⟨a, ha, rfl⟩ := toOption_map_eq_some.mp hacts
      obtain ⟨p, hexternal, hcallback⟩ | ⟨-, error, hcallback⟩ :=
        oidcCallback_cases setup s now c
      · rw [hcallback] at ha
        exact hbars _ _ _ hexternal _ _ (letIn_of_admitExternal ha)
      · rw [hcallback] at ha
        cases ha
    | refresh token =>
      obtain ⟨access, haccess, rfl⟩ := toOption_map_eq_some.mp hacts
      obtain ⟨text, hrefresh⟩ := refresh_eq_ok haccess
      obtain ⟨row, hrow, hrevoked, huser, -⟩ := SessionStore.refresh_ok hrefresh
      exact fun hdisabled => h _ hdisabled ⟨row, hrow, huser.symm, hrevoked⟩
    | request token | stepUp token _ | gated token _ _ =>
      obtain ⟨ctx, hctx, rfl⟩ := toOption_map_eq_some.mp hacts
      obtain ⟨-, row, hrow, hid, hrevoked⟩ := SessionStore.currentAuth_ok (auth_eq_ok hctx)
      exact fun hdisabled =>
        h _ hdisabled ⟨row, hrow, hconsistent.userId_eq (auth_eq_ok hctx) hrow hid, hrevoked⟩
    | setActive _ _ | syncDirectory _ | logout _ | edit _ => cases hacts

theorem Barred.stepUp (h : Barred s) (now : ℤ) (token : Option AccessToken) (body : StepUpBody) :
    Barred (s.stepUp setup now token body).2 := by
  unfold Site.stepUp
  split
  · exact h
  next ctx _ =>
    have husers := users_proveFactor setup s.people now ctx.userId body
    split
    next hprove =>
      rw [hprove] at husers
      exact h.grow (grows_of_users husers)
    next hprove =>
      rw [hprove] at husers
      intro userId hdisabled hlive
      exact h userId (grows_of_users husers userId hdisabled)
        (SessionStore.live_markMfaVerified.mp hlive)

theorem Barred.handle (hconsistent : s.store.Consistent) (h : Barred s)
    (hbars : BarsDisabled setup s e) : Barred (s.handle setup e) := by
  have hshut := (shutOutAt_iff_barsDisabled hconsistent h).mpr hbars
  obtain ⟨now, event⟩ := e
  cases event with
  | setActive userId active => exact h.setActive userId active
  | syncDirectory run => exact h.syncDirectory run
  | login r bind freshChallenge =>
    exact h.enter (grows_login r bind freshChallenge) fun a ha =>
      hshut a.user.id (toOption_map_eq_some.mpr ⟨a, ha, rfl⟩)
  | oidcCallback c =>
    exact h.enter (grows_oidcCallback c) fun a ha =>
      hshut a.user.id (toOption_map_eq_some.mpr ⟨a, ha, rfl⟩)
  | refresh token =>
    -- a new token, and the same sessions
    cases hrefresh : s.refresh setup now token with
    | error error => simpa only [Site.handle, hrefresh] using h
    | ok access =>
      simp only [Site.handle, hrefresh]
      exact h
  | stepUp token body => exact h.stepUp now token body
  | logout token => exact h.revokeWhere _
  | edit tables => exact h.grow (grows_of_users rfl)
  | request _ | gated _ _ _ => exact h

/-- **A deactivated user is shut out in a history exactly if no external way lets one in.** -/
theorem shut_out_iff_external_ways_bar (setup : Setup) (people : People)
    (events : List (ℤ × Event)) :
    Histories.Along (Site.handle setup) (ShutOutAt setup) (Site.start people) events ↔
      Histories.Along (Site.handle setup) (BarsDisabled setup) (Site.start people) events :=
  Histories.along_congr (I := fun s => s.store.Consistent ∧ Barred s)
    (fun _ _ h => shutOutAt_iff_barsDisabled h.1 h.2)
    (fun _ e h hbars => ⟨consistent_handle h.1 e, h.2.handle h.1 hbars⟩)
    ⟨SessionStore.consistent_empty, by simp [Barred, Site.start, SessionStore.Live]⟩ events

/-- A site with a directory and without WebAuthn. -/
def directorySetup : Setup where
  policy := plainPolicy
  lock := Lockout.defaultLock
  hashing := Lockout.plainHashing
  tools := OneTime.secondStep
  session := ⟨900, 604800, fun _ => "", id⟩
  webauthn := none
  authProviders := [.localAccount, .ldapAd]
  ldapJitProvisioning := false
  oidcJitProvisioning := false
  mfaPolicyEnforceExternal := true
  mfaStepupPermissions := [manage]
  mfaStepupMaxAgeSeconds := 300
  ldapSyncProvision := true
  ldapSyncMaxDeactivations := 20

def directoryUser : People where
  rbac := ⟨[⟨"alice", "Alice", .active⟩], [], [], [], [], [], [], []⟩
  identities := [⟨"ldap-alice", "alice", .ldapAd, "alice"⟩]
  credentials := fun _ => none
  totp := fun _ => ⟨none, []⟩
  webauthn := []
  challenges := fun _ => none
  policies := []
  held := []
  flows := []

def directoryAccount : Principal := ⟨"alice", some "Alice", none, none, ⟨[], []⟩, "u2", "i2"⟩

/-- The user is deactivated, and logs in with the directory's password. -/
def backAgain : List (ℤ × Event) :=
  [(0, .setActive "alice" false),
    (1, .login ⟨"alice", "password", none, none⟩ (some directoryAccount) "")]

/-- **A deactivated user gets a session from the directory.** -/
theorem back_through_directory :
    let disabled := (Site.start directoryUser).handle directorySetup (0, .setActive "alice" false)
    disabled.people.Disabled "alice" ∧
      disabled.actsFor directorySetup
        (1, .login ⟨"alice", "password", none, none⟩ (some directoryAccount) "") = some "alice" ∧
      ¬ Histories.Along (Site.handle directorySetup) (ShutOutAt directorySetup)
        (Site.start directoryUser) backAgain := by
  have hdisabled : ((Site.start directoryUser).handle directorySetup
      (0, .setActive "alice" false)).people.Disabled "alice" :=
    ⟨⟨"alice", "Alice", .disabled⟩, rfl, rfl⟩
  exact ⟨hdisabled, rfl, fun h => h.2.1 "alice" rfl hdisabled⟩

end BbzPlatform.Access
