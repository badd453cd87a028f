import BbzPlatform.Access.ShutOut

/-!
# The stamp of a second factor

A session is stamped when a second factor is verified, and permissions that are listed for a step-up
ask for a fresh stamp.  The local way and the step-up stamp a session after they have verified a
factor of its user.  The external ways stamp it if the user has enrolled one.
-/

namespace BbzPlatform.Access

section Presented

variable (setup : Setup) (people : People) (now : ℤ) (userId : String)

/-- One of the texts of a request is a WebAuthn assertion, a TOTP code or a recovery code of the
user, and is verified. -/
def Verifies (totp webauthn : Option String) : Prop :=
  (∃ response, supplied webauthn = some response ∧
    (verifyAuthentication setup people now userId response).1 = .ok true) ∨
  ∃ code i, supplied totp = some code ∧ i ∈ people.identities ∧ i.userId = userId ∧
    i.provider = .localAccount ∧ (challengeIdentity setup people now i.id code).1 = .ok true

/-- A second factor of a user is verified in a request on a session: in the login with the local
password that starts it, or in a step-up. -/
def PresentedOn (s : Site) (e : ℤ × Event) (sessionId : ℕ) : Prop :=
  match e.2 with
  | .login r _ _ => sessionId = s.store.sessions.length ∧
      (authenticatePassword setup s.people e.1 r.username r.password).1.userId = some userId ∧
      Verifies setup s.people e.1 userId r.totp r.webauthn
  | .stepUp token body => s.auth e.1 token = .ok ⟨userId, sessionId⟩ ∧
      Verifies setup s.people e.1 userId body.totp body.webauthn
  | _ => False

end Presented

/-- A site with the sessions on which a second factor was ever presented. -/
structure Track where
  site : Site
  proven : ℕ → Prop

namespace Track

variable (setup : Setup) (k : Track)

/-- Nobody has logged in yet. -/
def start (people : People) : Track := ⟨Site.start people, fun _ => False⟩

/-- What happens is remembered. -/
def handle (e : ℤ × Event) : Track where
  site := k.site.handle setup e
  proven := fun sessionId =>
    k.proven sessionId ∨ ∃ userId, PresentedOn setup userId k.site e sessionId

end Track

/-- Every stamp after an event was there before, or a second factor of the user of the session was
verified in it; and a step-up is passed only on sessions on which one was ever presented. -/
structure TruthfulAt (setup : Setup) (k : Track) (e : ℤ × Event) : Prop where
  stamps : ∀ row ∈ (k.site.handle setup e).store.sessions, ∀ time, row.mfaVerifiedAt = some time →
    (∃ old ∈ k.site.store.sessions, old.id = row.id ∧ old.mfaVerifiedAt = some time) ∨
      time = e.1 ∧ PresentedOn setup row.userId k.site e row.id
  stepUps : ∀ token permission scope ctx, e.2 = .gated token permission scope →
    permission ∈ setup.mfaStepupPermissions →
    k.site.requireStepup setup e.1 token permission scope = .ok ctx → k.proven ctx.sessionId

/-- The external way that a login takes lets in nobody who has enrolled a second factor. -/
def StampsNothing (setup : Setup) (k : Track) (e : ℤ × Event) : Prop :=
  ∀ way people p, k.site.external setup e = some (way, people, p) →
    ∀ userId, ¬ LetIn setup way people e.1 p userId true

variable {setup : Setup} {people : People} {now time : ℤ} {userId freshChallenge : String}
  {s : Site} {r : LoginRequest} {body : StepUpBody} {store store' : SessionStore} {row : Session}
  {bind : Option Principal} {p : Principal} {e : ℤ × Event} {k : Track} {token : Option AccessToken}

theorem orInvalid_ok {handled : Handled Bool} {verified : Bool}
    (h : (orInvalid handled).1 = .ok verified) : handled.1 = .ok true ∧ verified = true := by
  obtain ⟨answer, people⟩ := handled
  cases answer with
  | error e => cases h
  | ok b =>
    cases b with
    | false => cases h
    | true =>
      cases h
      exact ⟨rfl, rfl⟩

theorem verifies_of_secondFactor {identity : Option AuthIdentity}
    (hidentity : ∀ i, identity = some i →
      i ∈ people.identities ∧ i.userId = userId ∧ i.provider = .localAccount)
    (h : (secondFactor setup people now userId identity r freshChallenge).1 = .ok true) :
    Verifies setup people now userId r.totp r.webauthn := by
  unfold secondFactor at h
  dsimp only at h
  split at h
  next response hresponse =>
    obtain ⟨hsupplied, -⟩ := Option.filter_eq_some_iff.mp hresponse
    exact .inl ⟨response, hsupplied, (orInvalid_ok h).1⟩
  next code i _ hcode hi =>
    obtain ⟨hidentity', -⟩ := Option.filter_eq_some_iff.mp hi
    obtain ⟨hmem, huser, hprovider⟩ := hidentity i hidentity'
    exact .inr ⟨code, i, hcode, hmem, huser, hprovider, (orInvalid_ok h).1⟩
  · split at h
    · split at h <;> cases h
    · split at h <;> cases h

theorem localIdentity_eq_some {i : AuthIdentity} (h : people.localIdentity userId = .ok (some i)) :
    i ∈ people.identities ∧ i.userId = userId ∧ i.provider = .localAccount := by
  unfold People.localIdentity at h
  split at h
  · cases h
  next j hfilter =>
    cases h
    have hmem : i ∈ people.identities.filter fun i =>
        i.userId = userId && i.provider = .localAccount := by
      rw [hfilter]
      exact List.mem_singleton_self i
    simpa using List.mem_filter.mp hmem
  · cases h

/-- When an assertion is verified. -/
theorem verifyAuthentication_ok_iff {response : String} :
    (verifyAuthentication setup people now userId response).1 = .ok true ↔
      ∃ library pending cred newCount, setup.webauthn = some library ∧
        people.challenges userId = some pending ∧ ¬ pending.expiresAt < now ∧
        ((library.rawId response).bind fun rawId =>
          (people.credsForUser userId).find? (·.credentialId = rawId)) = some cred ∧
        library.verifyAuthenticationResponse response pending.challenge cred.publicKey
          cred.signCount = some newCount := by
  constructor
  · fun_cases verifyAuthentication setup people now userId response <;> rintro ⟨⟩
    next library hlibrary pending hpending _ hfresh cred hcred newCount hcount =>
      exact ⟨library, pending, cred, newCount, hlibrary, hpending, hfresh, hcred, hcount⟩
  · rintro ⟨library, pending, cred, newCount, hlibrary, hpending, hfresh, hcred, hcount⟩
    simp only [verifyAuthentication, hlibrary, hpending, if_neg hfresh, hcred, hcount]

theorem challengeIdentity_ok_iff {identityId code : String} :
    (challengeIdentity setup people now identityId code).1 = .ok true ↔
      ∃ result file, challenge setup.tools (people.totp identityId) code now = .ok (result, file) ∧
        result ≠ .bad := by
  unfold challengeIdentity
  split
  next h =>
    simp [h]
  next h =>
    simp [h]
  next result file hbad h =>
    simpa [h] using hbad

/-- The credentials play no part in a second factor. -/
theorem verifies_credentials {credentials : String → Option LocalCredential}
    {totp webauthn : Option String}
    (h : Verifies setup { people with credentials } now userId totp webauthn) :
    Verifies setup people now userId totp webauthn := by
  obtain ⟨response, hresponse, hverify⟩ | ⟨code, i, hcode, hmem, huser, hprovider, hverify⟩ := h
  · exact .inl ⟨response, hresponse, verifyAuthentication_ok_iff.mpr
      (verifyAuthentication_ok_iff.mp hverify :)⟩
  · exact .inr ⟨code, i, hcode, hmem, huser, hprovider, challengeIdentity_ok_iff.mpr
      (challengeIdentity_ok_iff.mp hverify :)⟩

/-- **A local login that stamps its session has verified a factor of the user.** -/
theorem verifies_of_login {mustChange : Bool} {a : Admission}
    (huser :
      (authenticatePassword setup people now r.username r.password).1.userId = some userId)
    (h : (admitLocal setup (authenticatePassword setup people now r.username r.password).2 now
      userId mustChange r freshChallenge).1 = .ok a) (hstamp : a.mfaVerified = true) :
    Verifies setup people now userId r.totp r.webauthn := by
  obtain ⟨i, -, hi, hiuser, -, -⟩ := active_of_authenticatePassword huser
  obtain ⟨credentials, hpeople⟩ :=
    authenticatePassword_people setup people now r.username r.password
  rw [hpeople] at h
  have hfactor := (admitLocal_ok h).2
  rw [hstamp] at hfactor
  refine verifies_credentials (verifies_of_secondFactor ?_ hfactor)
  intro j hj
  cases hi.symm.trans hj
  have hprovider := List.find?_some hi
  simp only [Bool.and_eq_true, decide_eq_true_eq] at hprovider
  exact ⟨List.mem_of_find?_eq_some hi, hiuser, hprovider.1⟩

theorem verifies_of_proveFactor {people' : People}
    (h : proveFactor setup now people userId body = (.ok (), people')) :
    Verifies setup people now userId body.totp body.webauthn := by
  revert h
  fun_cases proveFactor setup now people userId body <;> rintro ⟨⟩
  next response hresponse hverify => exact .inl ⟨response, hresponse, by rw [hverify]⟩
  next code hcode _ i hi hchallenge =>
    obtain ⟨hmem, huser, hprovider⟩ := localIdentity_eq_some hi
    exact .inr ⟨code, i, hcode, hmem, huser, hprovider, by rw [hchallenge]⟩

/-! ## Stamps -/

/-- Every stamp in the second store was in the first, on the session of the same number. -/
def KeepsStamps (store store' : SessionStore) : Prop :=
  ∀ row ∈ store'.sessions, ∀ time, row.mfaVerifiedAt = some time →
    ∃ old ∈ store.sessions, old.id = row.id ∧ old.mfaVerifiedAt = some time

theorem KeepsStamps.refl (store : SessionStore) : KeepsStamps store store :=
  fun row hrow _ hstamp => ⟨row, hrow, rfl, hstamp⟩

theorem KeepsStamps.trans {store'' : SessionStore} (h : KeepsStamps store store')
    (h' : KeepsStamps store' store'') : KeepsStamps store store'' := by
  intro row hrow time hstamp
  obtain ⟨old, hold, hid, hstamp'⟩ := h' row hrow time hstamp
  obtain ⟨older, holder, hid', hstamp''⟩ := h old hold time hstamp'
  exact ⟨older, holder, hid'.trans hid, hstamp''⟩

theorem keepsStamps_revokeWhere (p : Session → Bool) :
    KeepsStamps store (store.revokeWhere p now) := by
  intro row hrow time hstamp
  obtain ⟨old, hold, rfl⟩ := List.mem_map.mp hrow
  split_ifs at hstamp with hp
  · rw [if_pos hp]
    exact ⟨old, hold, rfl, hstamp⟩
  · rw [if_neg hp]
    exact ⟨old, hold, rfl, hstamp⟩

theorem keepsStamps_of_revoked (h : store.Revoked store') : KeepsStamps store store' := by
  induction h with
  | refl => exact .refl store
  | revokeWhere _ p now ih => exact ih.trans (keepsStamps_revokeWhere p)

theorem stamp_enter {handled : Handled Admission}
    (hrow : row ∈ (s.enter setup now handled).store.sessions)
    (hstamp : row.mfaVerifiedAt = some time) :
    (∃ old ∈ s.store.sessions, old.id = row.id ∧ old.mfaVerifiedAt = some time) ∨
      ∃ a, handled.1 = .ok a ∧ a.mfaVerified = true ∧ time = now ∧
        row.id = s.store.sessions.length ∧ row.userId = a.user.id := by
  obtain ⟨answer, people⟩ := handled
  cases answer with
  | error e => exact .inl ⟨row, hrow, rfl, hstamp⟩
  | ok a =>
    obtain hold | hnew := List.mem_append.mp hrow
    · exact .inl ⟨row, hold, rfl, hstamp⟩
    · rw [List.mem_singleton.mp hnew] at hstamp ⊢
      refine .inr ⟨a, rfl, ?_⟩
      unfold SessionStore.newSession at hstamp
      dsimp only at hstamp
      split at hstamp
      next hverified =>
        exact ⟨hverified, (Option.some.inj hstamp).symm, rfl, rfl⟩
      · cases hstamp

theorem not_user_of_ldapPrincipal
    (h : ldapPrincipal setup (authenticatePassword setup s.people now r.username r.password).1
      bind = some p) :
    (authenticatePassword setup s.people now r.username r.password).1.userId = none := by
  unfold ldapPrincipal at h
  split at h
  next hbad =>
    rw [Bool.and_eq_true, decide_eq_true_eq] at hbad
    have hresult := hbad.1
    unfold authenticatePassword at hresult ⊢
    split
    · rfl
    next hrecord =>
      rw [hrecord] at hresult
      dsimp only at hresult ⊢
      unfold authenticate at hresult ⊢
      split
      · rfl
      · rfl
      · rfl
      next hright =>
        rw [hright] at hresult
        dsimp only at hresult
        split at hresult <;> cases hresult
  · cases h

theorem not_presented_of_external {way : ExternalWay}
    (h : s.external setup e = some (way, people, p)) (userId : String)
    (sessionId : ℕ) : ¬ PresentedOn setup userId s e sessionId := by
  obtain ⟨now, event⟩ := e
  cases event with
  | login r bind freshChallenge =>
    rintro ⟨-, huser, -⟩
    obtain ⟨p', hp', -⟩ := Option.map_eq_some_iff.mp h
    rw [not_user_of_ldapPrincipal hp'] at huser
    cases huser
  | stepUp token body => cases h
  | setActive _ _ | syncDirectory _ | oidcCallback _ | refresh _ | request _ | gated _ _ _
  | logout _ | edit _ => exact id

/-! ## Histories -/

/-- Sessions with a stamp are ones on which a factor was presented. -/
structure Honest (k : Track) : Prop where
  consistent : k.site.store.Consistent
  stamped : ∀ row ∈ k.site.store.sessions, ∀ time, row.mfaVerifiedAt = some time →
    k.proven row.id

theorem stamps_login (h : StampsNothing setup k (now, .login r bind freshChallenge))
    (hrow : row ∈ (k.site.handle setup (now, .login r bind freshChallenge)).store.sessions)
    (hstamp : row.mfaVerifiedAt = some time) :
    (∃ old ∈ k.site.store.sessions, old.id = row.id ∧ old.mfaVerifiedAt = some time) ∨
      time = now ∧
        PresentedOn setup row.userId k.site (now, .login r bind freshChallenge) row.id := by
  obtain hold | ⟨a, ha, hverified, htime, hid, huser⟩ := stamp_enter hrow hstamp
  · exact .inl hold
  · obtain ⟨p, hexternal, hlogin⟩ | ⟨-, hlogin | ⟨userId, hpassword, hlogin⟩⟩ :=
      login_cases setup k.site now r bind freshChallenge
    · rw [hlogin] at ha
      exact absurd (hverified ▸ letIn_of_admitExternal ha) (h _ _ _ hexternal _)
    · rw [hlogin] at ha
      cases ha
    · rw [hlogin] at ha
      rw [(admitLocal_ok ha).1] at huser
      rw [huser]
      exact .inr ⟨htime, hid, hpassword, verifies_of_login hpassword ha hverified⟩

/-- A callback takes the external way only. -/
theorem stamps_oidcCallback {c : OidcCallback} (h : StampsNothing setup k (now, .oidcCallback c))
    (hrow : row ∈ (k.site.handle setup (now, .oidcCallback c)).store.sessions)
    (hstamp : row.mfaVerifiedAt = some time) :
    ∃ old ∈ k.site.store.sessions, old.id = row.id ∧ old.mfaVerifiedAt = some time := by
  obtain hold | ⟨a, ha, hverified, -⟩ := stamp_enter hrow hstamp
  · exact hold
  · obtain ⟨p, hexternal, hcallback⟩ | ⟨-, error, hcallback⟩ :=
      oidcCallback_cases setup k.site now c
    · rw [hcallback] at ha
      exact absurd (hverified ▸ letIn_of_admitExternal ha) (h _ _ _ hexternal _)
    · rw [hcallback] at ha
      cases ha

theorem stamps_stepUp (hconsistent : k.site.store.Consistent)
    (hrow : row ∈ (k.site.handle setup (now, .stepUp token body)).store.sessions)
    (hstamp : row.mfaVerifiedAt = some time) :
    (∃ old ∈ k.site.store.sessions, old.id = row.id ∧ old.mfaVerifiedAt = some time) ∨
      time = now ∧ PresentedOn setup row.userId k.site (now, .stepUp token body) row.id := by
  obtain hsame | ⟨ctx, people, hauth, hprove, hmarked⟩ := stepUp_cases setup k.site now token body
  · exact .inl ⟨row, hsame ▸ hrow, rfl, hstamp⟩
  · -- the stamp was there before, or it is new on the session of the request
    obtain ⟨old, hold, rfl⟩ := List.mem_map.mp (hmarked ▸ hrow)
    split_ifs at hstamp with hid
    · have hid' : old.id = ctx.sessionId := of_decide_eq_true hid
      have huser : old.userId = ctx.userId := hconsistent.userId_eq (auth_eq_ok hauth) hold hid'
      rw [if_pos hid]
      refine .inr ⟨(Option.some.inj hstamp).symm, ?_⟩
      change PresentedOn setup old.userId k.site (now, .stepUp token body) old.id
      rw [huser, hid']
      exact ⟨hauth, verifies_of_proveFactor hprove⟩
    · rw [if_neg hid]
      exact .inl ⟨old, hold, rfl, hstamp⟩

/-- The new stamps of an event are those of factors that were presented in it. -/
theorem stamps_of_stampsNothing (hconsistent : k.site.store.Consistent)
    (h : StampsNothing setup k e) (hrow : row ∈ (k.site.handle setup e).store.sessions)
    (hstamp : row.mfaVerifiedAt = some time) :
    (∃ old ∈ k.site.store.sessions, old.id = row.id ∧ old.mfaVerifiedAt = some time) ∨
      time = e.1 ∧ PresentedOn setup row.userId k.site e row.id := by
  obtain ⟨now, event⟩ := e
  cases event with
  | setActive userId active =>
    exact .inl (keepsStamps_of_revoked (revoked_setActive userId active) row hrow time hstamp)
  | syncDirectory run =>
    exact .inl (keepsStamps_of_revoked (revoked_syncDirectory run) row hrow time hstamp)
  | login r bind freshChallenge => exact stamps_login h hrow hstamp
  | oidcCallback c => exact .inl (stamps_oidcCallback h hrow hstamp)
  | stepUp token body => exact stamps_stepUp hconsistent hrow hstamp
  | refresh token =>
    cases hrefresh : k.site.refresh setup now token with
    | error error | ok access =>
      simp only [Site.handle, hrefresh] at hrow
      exact .inl ⟨row, hrow, rfl, hstamp⟩
  | logout token => exact .inl (keepsStamps_revokeWhere _ row hrow time hstamp)
  | edit _ | request _ | gated _ _ _ => exact .inl ⟨row, hrow, rfl, hstamp⟩

/-- A step-up that is listed and passed is one on a session with a stamp. -/
theorem stamp_of_requireStepup {permission : String}
    {scope : Option ScopeContext} {ctx : AuthContext}
    (hlisted : permission ∈ setup.mfaStepupPermissions)
    (h : s.requireStepup setup now token permission scope = .ok ctx) :
    ∃ row ∈ s.store.sessions, row.id = ctx.sessionId ∧ ∃ time, row.mfaVerifiedAt = some time := by
  revert h
  fun_cases Site.requireStepup setup s now token permission scope <;> rintro ⟨⟩
  next hnot _ => simp [hlisted] at hnot
  next time _ _ hstamp =>
    obtain ⟨row, hrow, htime⟩ := Option.bind_eq_some_iff.mp hstamp
    have hp := List.find?_some hrow
    simp only [Bool.and_eq_true, decide_eq_true_eq] at hp
    exact ⟨row, List.mem_of_find?_eq_some hrow, hp.1, time, htime⟩

/-- **An event is truthful exactly if its external way stamps nothing.** -/
theorem truthfulAt_iff_stampsNothing (hhonest : Honest k) :
    TruthfulAt setup k e ↔ StampsNothing setup k e := by
  constructor
  · intro htruthful way people p hexternal userId hletIn
    obtain ⟨a, ha, hid, hverified⟩ := admitExternal_of_letIn hletIn
    -- the session that is started has a stamp, a new number, and no factor was presented
    have hrow : k.site.store.newSession setup.session a.user.id e.1 a.mfaVerified ∈
        (k.site.handle setup e).store.sessions := by
      rw [(external_eq_some hexternal).1]
      revert ha
      generalize admitExternal setup way people e.1 p = handled
      obtain ⟨answer, people'⟩ := handled
      rintro ⟨⟩
      exact List.mem_append_right _ (List.mem_singleton_self _)
    obtain ⟨old, hold, hsame, -⟩ | ⟨-, hpresented⟩ := htruthful.stamps _ hrow e.1
      (by simp [SessionStore.newSession, hverified])
    · obtain ⟨owner, hrows, -⟩ := hhonest.consistent
      exact absurd hsame (Nat.ne_of_lt (hrows old hold).1)
    · exact not_presented_of_external hexternal _ _ hpresented
  · intro hnothing
    refine ⟨fun row hrow time hstamp =>
      stamps_of_stampsNothing hhonest.consistent hnothing hrow hstamp, ?_⟩
    intro token permission scope ctx _ hlisted hstepup
    obtain ⟨row, hrow, hid, time, hstamp⟩ := stamp_of_requireStepup hlisted hstepup
    exact hid ▸ hhonest.stamped row hrow time hstamp

theorem Honest.handle (hhonest : Honest k) (hnothing : StampsNothing setup k e) :
    Honest (k.handle setup e) := by
  refine ⟨consistent_handle hhonest.consistent e, fun row hrow time hstamp => ?_⟩
  obtain ⟨old, hold, hid, hstamp'⟩ | ⟨-, hpresented⟩ :=
    stamps_of_stampsNothing hhonest.consistent hnothing hrow hstamp
  · exact .inl (hid ▸ hhonest.stamped old hold time hstamp')
  · exact .inr ⟨row.userId, hpresented⟩

/-- **The stamps of a history are truthful exactly if no external way lets in a user who has
enrolled a second factor.** -/
theorem stamps_truthful_iff_external_ways_stamp_nothing (setup : Setup) (people : People)
    (events : List (ℤ × Event)) :
    Histories.Along (Track.handle setup) (TruthfulAt setup) (Track.start people) events ↔
      Histories.Along (Track.handle setup) (StampsNothing setup) (Track.start people) events :=
  Histories.along_congr (I := Honest) (fun _ _ h => truthfulAt_iff_stampsNothing h)
    (fun _ _ h hnothing => h.handle hnothing)
    ⟨SessionStore.consistent_empty, by simp [Track.start, Site.start]⟩ events

/-- A user with an account in the directory, and a TOTP for a local one. -/
def enrolledAdmin : People :=
  { directoryUser with
    rbac := oneAdmin
    identities := [⟨"ldap-alice", "alice", .ldapAd, "alice"⟩,
      ⟨"local-alice", "alice", .localAccount, "alice"⟩]
    totp := fun _ => OneTime.enrolled }

/-- The account that the directory has verified; the roles stay. -/
def adminAccount : Principal := { directoryAccount with roles := ⟨oneAdmin.userRoles, []⟩ }

/-- A login with the directory's password, and then a change of permissions. -/
def straightThrough : List (ℤ × Event) :=
  [(0, .login ⟨"alice", "password", none, none⟩ (some adminAccount) ""),
    (1, .gated (some ⟨"alice", 0, 900⟩) manage none)]

/-- **A login without a second factor is stamped, and passes the step-up.** -/
theorem stamped_by_enrolment :
    let loggedIn := (Site.start enrolledAdmin).handle directorySetup
      (0, .login ⟨"alice", "password", none, none⟩ (some adminAccount) "")
    loggedIn.store.sessions.map (·.mfaVerifiedAt) = [some 0] ∧
      loggedIn.requireStepup directorySetup 1 (some ⟨"alice", 0, 900⟩) manage none =
        .ok ⟨"alice", 0⟩ ∧
      ¬ Histories.Along (Track.handle directorySetup) (TruthfulAt directorySetup)
        (Track.start enrolledAdmin) straightThrough := by
  refine ⟨by rfl, by rfl, fun h => ?_⟩
  have hproven := h.2.1.stepUps _ _ _ ⟨"alice", 0⟩ rfl (List.mem_singleton_self _) rfl
  obtain hnone | ⟨userId, -, huser, -⟩ := hproven
  · exact hnone
  · cases huser

end BbzPlatform.Access
