import BbzPlatform.Access.Grants
import BbzPlatform.Lib.Rows

/-!
# Sessions and tokens

A login starts a session and issues an access token that names the session and its user.  A request
is accepted on a token that the server has signed, as long as the session is neither revoked nor
expired; the user is the one the token names, and the users table is not asked.

Signatures are modelled by what they are for: only tokens that were issued are decoded.  The numbers
of sessions and the refresh tokens are fresh.
-/

namespace BbzPlatform.Access

open Function List

/-- A row of `sessions`. -/
structure Session where
  id : ℕ
  userId : String
  refreshTokenHash : String
  expiresAt : ℤ
  revokedAt : Option ℤ
  mfaVerifiedAt : Option ℤ
  deriving DecidableEq

/-- A signed access token: `AccessClaims` and the time it expires. -/
structure AccessToken where
  userId : String
  sessionId : ℕ
  exp : ℤ
  deriving DecidableEq

/-- The sessions, and the tokens that carry the server's signature. -/
structure SessionStore where
  sessions : List Session
  issued : List AccessToken

/-- The settings of the session service, its random tokens and their hash. -/
structure SessionSettings where
  accessTokenTtlSeconds : ℤ
  refreshTokenTtlSeconds : ℤ
  newRefreshToken : ℕ → String
  hashRefreshToken : String → String

/-- `AuthContext`. -/
structure AuthContext where
  userId : String
  sessionId : ℕ
  deriving DecidableEq

/-- Why a request is not let in. -/
inductive AuthError where
  | authenticationRequired
  | invalidToken
  | sessionNotActive
  | refreshInvalid
  deriving DecidableEq

variable {cfg : SessionSettings} {store store' : SessionStore} {userId refreshToken other : String}
  {now : ℤ} {p : Session → Bool} {ctx : AuthContext}

namespace SessionStore

section Service

variable (cfg : SessionSettings) (store : SessionStore)

/-- `issue_access_token`. -/
def issueAccessToken (userId : String) (sessionId : ℕ) (now : ℤ) : AccessToken :=
  ⟨userId, sessionId, now + cfg.accessTokenTtlSeconds⟩

def newSession (userId : String) (now : ℤ) (mfaVerified : Bool) : Session where
  id := store.sessions.length
  userId := userId
  refreshTokenHash := cfg.hashRefreshToken (cfg.newRefreshToken store.sessions.length)
  expiresAt := now + cfg.refreshTokenTtlSeconds
  revokedAt := none
  mfaVerifiedAt := if mfaVerified then some now else none

/-- `start`. -/
def start (userId : String) (now : ℤ) (mfaVerified : Bool) : SessionStore where
  sessions := store.sessions ++ [store.newSession cfg userId now mfaVerified]
  issued := issueAccessToken cfg userId store.sessions.length now :: store.issued

/-- `get_active`. -/
def getActive (sessionId : ℕ) : Option Session :=
  store.sessions.find? fun row => row.id = sessionId && row.revokedAt.isNone

/-- `get_active_by_refresh`. -/
def getActiveByRefresh (refreshHash : String) : Option Session :=
  store.sessions.find? fun row => row.refreshTokenHash = refreshHash && row.revokedAt.isNone

/-- `refresh`: the access token it issues. -/
def refresh (token : String) (now : ℤ) : Except AuthError AccessToken :=
  match store.getActiveByRefresh (cfg.hashRefreshToken token) with
  | none => .error .refreshInvalid
  | some row =>
    if row.expiresAt ≤ now then .error .refreshInvalid
    else .ok (issueAccessToken cfg row.userId row.id now)

/-- A token is handed out. -/
def withToken (token : AccessToken) : SessionStore := { store with issued := token :: store.issued }

/-- `is_active`. -/
def isActive (sessionId : ℕ) (now : ℤ) : Bool :=
  (store.getActive sessionId).any (now < ·.expiresAt)

/-- `decode_access_token`. -/
def decodeAccessToken (token : AccessToken) (now : ℤ) : Option AuthContext :=
  if store.issued.contains token && now < token.exp then some ⟨token.userId, token.sessionId⟩
  else none

/-- `current_auth`. -/
def currentAuth (token : Option AccessToken) (now : ℤ) : Except AuthError AuthContext :=
  match token with
  | none => .error .authenticationRequired
  | some token =>
    match store.decodeAccessToken token now with
    | none => .error .invalidToken
    | some ctx => if store.isActive ctx.sessionId now then .ok ctx else .error .sessionNotActive

/-- The sessions that meet a condition are changed. -/
def change (p : Session → Bool) (f : Session → Session) : SessionStore :=
  { store with sessions := store.sessions.map fun row => if p row then f row else row }

/-- `mark_mfa_verified`. -/
def markMfaVerified (sessionId : ℕ) (now : ℤ) : SessionStore :=
  store.change (·.id = sessionId) ({ · with mfaVerifiedAt := some now })

def revokeWhere (p : Session → Bool) (now : ℤ) : SessionStore :=
  store.change (fun row => p row && row.revokedAt.isNone) ({ · with revokedAt := some now })

/-- `revoke_by_refresh`. -/
def revokeByRefresh (refreshHash : String) (now : ℤ) : SessionStore :=
  store.revokeWhere (·.refreshTokenHash = refreshHash) now

/-- `revoke_all_for_user`. -/
def revokeAllForUser (userId : String) (now : ℤ) : SessionStore :=
  store.revokeWhere (·.userId = userId) now

end Service

/-! ## What tokens say -/

/-- Sessions are numbered, and what a session or a token says about its user is the same for one
number. -/
structure OwnedBy (store : SessionStore) (owner : ℕ → String) : Prop where
  sessions : ∀ row ∈ store.sessions, row.id < store.sessions.length ∧ row.userId = owner row.id
  tokens : ∀ token ∈ store.issued,
    token.sessionId < store.sessions.length ∧ token.userId = owner token.sessionId

def Consistent (store : SessionStore) : Prop := ∃ owner, store.OwnedBy owner

def Live (store : SessionStore) (userId : String) : Prop :=
  ∃ row ∈ store.sessions, row.userId = userId ∧ row.revokedAt = none

section Facts

theorem consistent_empty : (⟨[], []⟩ : SessionStore).Consistent :=
  ⟨fun _ => "", by simp, by simp⟩

theorem Consistent.start (h : store.Consistent) (mfaVerified : Bool) :
    (store.start cfg userId now mfaVerified).Consistent := by
  obtain ⟨owner, hrows, htokens⟩ := h
  have hnew : ∀ id, id < store.sessions.length →
      update owner store.sessions.length userId id = owner id :=
    fun id hid => update_of_ne (Nat.ne_of_lt hid) _ _
  have hself : update owner store.sessions.length userId store.sessions.length = userId :=
    update_self ..
  refine ⟨update owner store.sessions.length userId, ?_, ?_⟩
  · rw [SessionStore.start, length_append, length_singleton]
    refine forall_mem_append.mpr ⟨fun row hrow => ?_,
      forall_mem_singleton.mpr ⟨Nat.lt_succ_self _, hself.symm⟩⟩
    obtain ⟨hid, huser⟩ := hrows row hrow
    exact ⟨Nat.lt_succ_of_lt hid, by rw [hnew _ hid, huser]⟩
  · rw [SessionStore.start, length_append, length_singleton]
    refine forall_mem_cons.mpr ⟨⟨Nat.lt_succ_self _, hself.symm⟩, fun token htoken => ?_⟩
    obtain ⟨hid, huser⟩ := htokens token htoken
    exact ⟨Nat.lt_succ_of_lt hid, by rw [hnew _ hid, huser]⟩

theorem Consistent.change (h : store.Consistent) {f : Session → Session}
    (hid : ∀ row, (f row).id = row.id) (huser : ∀ row, (f row).userId = row.userId) :
    (store.change p f).Consistent := by
  obtain ⟨owner, hrows, htokens⟩ := h
  have hlength : (store.change p f).sessions.length = store.sessions.length := length_map _
  refine ⟨owner, fun row' hrow' => ?_, fun token htoken => ?_⟩
  · obtain ⟨row, hrow, rfl⟩ := mem_map.mp hrow'
    rw [hlength]
    split
    · rw [hid, huser]
      exact hrows row hrow
    · exact hrows row hrow
  · rw [hlength]
    exact htokens token htoken

theorem Consistent.revokeWhere (h : store.Consistent) (p : Session → Bool) :
    (store.revokeWhere p now).Consistent :=
  h.change (fun _ => rfl) fun _ => rfl

/-- The second store comes from the first by revoking sessions. -/
inductive Revoked (store : SessionStore) : SessionStore → Prop
  | refl : Revoked store store
  | revokeWhere {store' : SessionStore} (h : Revoked store store') (p : Session → Bool) (now : ℤ) :
      Revoked store (store'.revokeWhere p now)

theorem Revoked.trans {store'' : SessionStore} (h : store.Revoked store')
    (h' : store'.Revoked store'') : store.Revoked store'' := by
  induction h' with
  | refl => exact h
  | revokeWhere _ p now ih => exact ih.revokeWhere p now

theorem Consistent.revoked (h : store.Consistent)
    (hrevoked : store.Revoked store') : store'.Consistent := by
  induction hrevoked with
  | refl => exact h
  | revokeWhere _ p now ih => exact ih.revokeWhere p

theorem Consistent.markMfaVerified (h : store.Consistent) (sessionId : ℕ) :
    (store.markMfaVerified sessionId now).Consistent :=
  h.change (fun _ => rfl) fun _ => rfl

variable {token : Option AccessToken}

theorem refresh_ok {token : AccessToken} (h : store.refresh cfg refreshToken now = .ok token) :
    ∃ row ∈ store.sessions, row.revokedAt = none ∧ token.userId = row.userId ∧
      token.sessionId = row.id := by
  unfold refresh at h
  split at h
  · cases h
  next row hrow =>
    split at h
    · cases h
    · cases h
      have hp := find?_some hrow
      simp only [Bool.and_eq_true, Option.isNone_iff_eq_none] at hp
      exact ⟨row, mem_of_find?_eq_some hrow, hp.2, rfl, rfl⟩

theorem Consistent.refresh (h : store.Consistent) {token : AccessToken}
    (hrefresh : store.refresh cfg refreshToken now = .ok token) :
    (store.withToken token).Consistent := by
  obtain ⟨owner, hrows, htokens⟩ := h
  obtain ⟨row, hrow, -, huser, hid⟩ := refresh_ok hrefresh
  refine ⟨owner, hrows, forall_mem_cons.mpr ⟨?_, htokens⟩⟩
  rw [hid, huser]
  exact hrows row hrow

theorem currentAuth_ok (h : store.currentAuth token now = .ok ctx) :
    (∃ t ∈ store.issued, t.userId = ctx.userId ∧ t.sessionId = ctx.sessionId) ∧
      ∃ row ∈ store.sessions, row.id = ctx.sessionId ∧ row.revokedAt = none := by
  unfold currentAuth decodeAccessToken at h
  split at h
  · cases h
  next token =>
    split at h
    · cases h
    next ctx' hdecode =>
      split at hdecode
      next hissued =>
        cases hdecode
        split at h
        next hactive =>
          cases h
          obtain ⟨row, hrow⟩ : ∃ row, store.getActive token.sessionId = some row := by
            cases hrow : store.getActive token.sessionId with
            | none => simp [isActive, hrow] at hactive
            | some row => exact ⟨row, rfl⟩
          have hp := find?_some hrow
          simp only [Bool.and_eq_true, decide_eq_true_eq, Option.isNone_iff_eq_none] at hp
          rw [Bool.and_eq_true, contains_iff_mem] at hissued
          exact ⟨⟨token, hissued.1, rfl, rfl⟩, row, mem_of_find?_eq_some hrow, hp⟩
        · cases h
      · cases hdecode

theorem Consistent.userId_eq (h : store.Consistent)
    (hauth : store.currentAuth token now = .ok ctx) {row : Session} (hrow : row ∈ store.sessions)
    (hid : row.id = ctx.sessionId) : row.userId = ctx.userId := by
  obtain ⟨owner, hrows, htokens⟩ := h
  obtain ⟨⟨t, ht, huser, hsession⟩, -⟩ := currentAuth_ok hauth
  rw [(hrows row hrow).2, ← huser, (htokens t ht).2, hid, hsession]

/-! ## Who has a session -/

theorem live_start {mfaVerified : Bool} :
    (store.start cfg userId now mfaVerified).Live other ↔ store.Live other ∨ other = userId := by
  unfold Live SessionStore.start newSession
  simp only [mem_append, mem_singleton, or_and_right, exists_or, exists_eq_left]
  exact or_congr_right ⟨fun h => h.1.symm, fun h => ⟨h.symm, trivial⟩⟩

theorem live_markMfaVerified {sessionId : ℕ} :
    (store.markMfaVerified sessionId now).Live other ↔ store.Live other := by
  refine Rows.exists_mem_update_iff.trans (exists_congr fun row => and_congr_right fun _ => ?_)
  split <;> rfl

/-- Revoking leaves no session to those it is about, and gives none. -/
theorem live_revokeWhere : (store.revokeWhere p now).Live other ↔
      ∃ row ∈ store.sessions, row.userId = other ∧ row.revokedAt = none ∧ p row = false := by
  refine Rows.exists_mem_update_iff.trans (exists_congr fun row => and_congr_right fun _ => ?_)
  split_ifs with hkept
  · simp_all
  · exact and_congr_right fun _ => ⟨fun h => ⟨h, by simpa [h] using hkept⟩, And.left⟩

end Facts

end SessionStore

end BbzPlatform.Access
