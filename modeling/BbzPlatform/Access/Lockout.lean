import BbzPlatform.Lib.Turns

/-!
# Passwords and the lock on an account

A login attempt reads the credential record of the account once, decides with the password and the
time, and then makes one update: a failure is counted in the database, where the lock is set to what
the attempt worked out from its own reading; a success resets both.

Attempts on one account overlap.  The counter is then right, but an attempt that read it early sets
no lock, or takes away the lock that another has set.  The lock holds in a run exactly if no failure
is recorded from a reading that is out of date in this way.
-/

namespace BbzPlatform.Access

open Turns Function

/-- `LocalAuthResult`. -/
inductive LocalAuthResult where
  | success
  | badCredentials
  | locked
  | disabled
  deriving DecidableEq

/-- A row of `local_credentials`. -/
structure LocalCredential where
  authIdentityId : String
  passwordHash : String
  mustChange : Bool
  failedAttempts : ℕ
  lockedUntil : Option ℤ
  deriving DecidableEq

/-- `CredentialRecord`: the row with the user it belongs to. -/
structure CredentialRecord where
  userId : String
  row : LocalCredential
  userActive : Bool
  deriving DecidableEq

/-- `AuthOutcome`. -/
structure AuthOutcome where
  result : LocalAuthResult
  userId : Option String
  mustChangePassword : Bool
  rehash : Option String
  deriving DecidableEq

structure LockSettings where
  loginMaxFailedAttempts : ℤ
  loginLockoutSeconds : ℤ

structure Hashing where
  verifyPassword : String → String → Bool
  needsRehash : String → Bool
  hashPassword : String → String

/-! ## One attempt -/

/-- What an attempt comes to. -/
inductive Verdict where
  | locked
  | disabled
  | wrong
  | right
  deriving DecidableEq

def Verdict.evaluated : Verdict → Bool
  | .locked | .disabled => false
  | .wrong | .right => true

/-- An outcome without a user. -/
def AuthOutcome.failed (result : LocalAuthResult) : AuthOutcome := ⟨result, none, false, none⟩

def AuthOutcome.succeeded (record : CredentialRecord) (rehash : Option String) : AuthOutcome :=
  ⟨.success, some record.userId, record.row.mustChange, rehash⟩

section Attempt

variable (cfg : LockSettings) (hashing : Hashing)

/-- How an attempt decides. -/
def judge (record : CredentialRecord) (now : ℤ) (password : String) : Verdict :=
  if record.row.lockedUntil.any (now < ·) then .locked
  else if !record.userActive then .disabled
  else if !hashing.verifyPassword record.row.passwordHash password then .wrong
  else .right

/-- The reading calls for a lock at the next failure. -/
def CredentialRecord.Locks (record : CredentialRecord) : Prop :=
  cfg.loginMaxFailedAttempts ≤ record.row.failedAttempts + 1

instance (record : CredentialRecord) : Decidable (record.Locks cfg) :=
  inferInstanceAs (Decidable (_ ≤ _))

/-- The lock that a failed attempt sets. -/
def lockFor (record : CredentialRecord) (now : ℤ) : Option ℤ :=
  if record.Locks cfg then some (now + cfg.loginLockoutSeconds) else none

def failureOutcome (record : CredentialRecord) (now : ℤ) : AuthOutcome :=
  .failed (if (lockFor cfg record now).isSome then .locked else .badCredentials)

/-- `record_failure`. -/
def recordFailure (row : LocalCredential) (lockedUntil : Option ℤ) : LocalCredential :=
  { row with failedAttempts := row.failedAttempts + 1, lockedUntil }

/-- `reset_failures`. -/
def resetFailures (row : LocalCredential) : LocalCredential :=
  { row with failedAttempts := 0, lockedUntil := none }

/-- `update_hash`. -/
def updateHash (row : LocalCredential) (newHash : String) : LocalCredential :=
  { row with passwordHash := newHash }

/-- The hash that a success puts in the place of one with old parameters. -/
def rehash (record : CredentialRecord) (password : String) : Option String :=
  if hashing.needsRehash record.row.passwordHash then some (hashing.hashPassword password) else none

/-- `authenticate` on a record, with the row it leaves. -/
def authenticate (record : CredentialRecord) (now : ℤ) (password : String) :
    AuthOutcome × LocalCredential :=
  match judge hashing record now password with
  | .locked => (.failed .locked, record.row)
  | .disabled => (.failed .disabled, record.row)
  | .wrong => (failureOutcome cfg record now, recordFailure record.row (lockFor cfg record now))
  | .right =>
    let reset := resetFailures record.row
    match rehash hashing record password with
    | none => (.succeeded record none, reset)
    | some newHash => (.succeeded record (some newHash), updateHash reset newHash)

end Attempt

/-! ## Attempts that overlap -/

variable {cfg : LockSettings} {hashing : Hashing} {p : ℕ} {u now : ℤ} {password : String}
  {record record' : CredentialRecord} {locks : List ℤ}

namespace Lockout

/-- Where an attempt is.  What it has fetched comes with the locks that had been set by then. -/
inductive Phase where
  | idle
  | fetched (record : CredentialRecord) (locks : List ℤ)
  | failing (record : CredentialRecord) (now : ℤ)
  | succeeding (record : CredentialRecord) (password : String)
  | rehashing (record : CredentialRecord) (newHash : String)
  | done (outcome : AuthOutcome)

/-- The account with the attempts on it.  Of the wrong passwords recorded since the last success the
desk keeps the times of the decisions, latest first, and the locks that were set. -/
structure Desk where
  account : CredentialRecord
  clock : ℤ
  phase : ℕ → Phase
  failures : List ℤ
  locks : List ℤ

/-- What an attempt does next. -/
inductive Action where
  | fetch
  | judge (password : String)
  | write
  deriving DecidableEq

/-- An action and its time. -/
structure Move where
  now : ℤ
  action : Action

variable {s t : Desk} {m : Move}

namespace Desk

section Step

variable (cfg : LockSettings) (hashing : Hashing) (s : Desk)

/-- A success or new credentials came last. -/
def start (account : CredentialRecord) (clock : ℤ) : Desk where
  account := { account with row := resetFailures account.row }
  clock := clock
  phase := fun _ => .idle
  failures := []
  locks := []

def goTo (p : ℕ) (now : ℤ) (x : Phase) : Desk :=
  { s with clock := now, phase := update s.phase p x }

def withRow (row : LocalCredential) : Desk := { s with account := { s.account with row } }

def decided (record : CredentialRecord) (now : ℤ) (password : String) : Phase :=
  match Access.judge hashing record now password with
  | .locked => .done (.failed .locked)
  | .disabled => .done (.failed .disabled)
  | .wrong => .failing record now
  | .right => .succeeding record password

def fail (p : ℕ) (time : ℤ) (record : CredentialRecord) (now : ℤ) : Desk :=
  { (s.withRow (recordFailure s.account.row (lockFor cfg record now))).goTo p time
      (.done (failureOutcome cfg record now)) with
    failures := now :: s.failures
    locks := (lockFor cfg record now).toList ++ s.locks }

def afterReset (record : CredentialRecord) (password : String) : Phase :=
  match rehash hashing record password with
  | none => .done (.succeeded record none)
  | some newHash => .rehashing record newHash

/-- The counter and the lock are reset. -/
def succeed (p : ℕ) (time : ℤ) (record : CredentialRecord) (password : String) : Desk :=
  { (s.withRow (resetFailures s.account.row)).goTo p time (afterReset hashing record password) with
    failures := []
    locks := [] }

/-- One action of one attempt; time does not run backwards. -/
def step (p : ℕ) (m : Move) : Option Desk :=
  if m.now < s.clock then none
  else
    match m.action, s.phase p with
    | .fetch, .idle => some (s.goTo p m.now (.fetched s.account s.locks))
    | .judge password, .fetched record _ =>
      some (s.goTo p m.now (decided hashing record m.now password))
    | .write, .failing record now => some (s.fail cfg p m.now record now)
    | .write, .succeeding record password => some (s.succeed hashing p m.now record password)
    | .write, .rehashing record newHash =>
      some ((s.withRow (updateHash s.account.row newHash)).goTo p m.now
        (.done (.succeeded record (some newHash))))
    | _, _ => none

end Step

end Desk

/-! ## What the lock is for -/

section Lock

variable (cfg : LockSettings) (hashing : Hashing)

/-- Enough wrong passwords have been recorded, and the account is locked for the time from the last
of them. -/
def Locked (s : Desk) : Prop :=
  cfg.loginMaxFailedAttempts ≤ s.failures.length → ∀ now ∈ s.failures.head?,
    ∃ u, s.account.row.lockedUntil = some u ∧ now + cfg.loginLockoutSeconds ≤ u

/-- A lock that is set until some time or later. -/
def LastsUntil (u : ℤ) (lockedUntil : Option ℤ) : Prop := ∃ u', lockedUntil = some u' ∧ u ≤ u'

/-- What is asked of an action: the account is locked after it if it has to be, a failed attempt
neither clears a lock in force nor moves it to an earlier time, and an attempt that was started
after a lock was set evaluates no password while it lasts. -/
structure Holds (s : Desk) (p : ℕ) (m : Move) (t : Desk) : Prop where
  locked : Locked cfg t
  kept : ∀ record now, s.phase p = .failing record now → m.action = .write →
    ∀ u, s.account.row.lockedUntil = some u → m.now < u →
      LastsUntil u t.account.row.lockedUntil
  shut : ∀ record locks password, s.phase p = .fetched record locks → m.action = .judge password →
    ∀ u ∈ locks, m.now < u → (judge hashing record m.now password).evaluated = false

/-- The action does what is asked of it. -/
def HoldsAt (s : Desk) (p : ℕ) (m : Move) : Prop :=
  ∀ t, s.step cfg hashing p m = some t → Holds cfg hashing s p m t

/-- Where a failure is recorded, the reading calls for a lock if the counter now does, and its lock
does not end before one that is in force. -/
def UpToDate (s : Desk) (p : ℕ) (m : Move) : Prop :=
  ∀ record now, s.phase p = .failing record now → m.action = .write →
    (s.account.Locks cfg → record.Locks cfg) ∧
      ∀ u, s.account.row.lockedUntil = some u → m.now < u →
        record.Locks cfg ∧ u ≤ now + cfg.loginLockoutSeconds

end Lock

theorem lockFor_eq_some : lockFor cfg record now = some u ↔
    record.Locks cfg ∧ now + cfg.loginLockoutSeconds = u := by
  simp [lockFor]

theorem lastsUntil_lockFor : LastsUntil u (lockFor cfg record now) ↔
    record.Locks cfg ∧ u ≤ now + cfg.loginLockoutSeconds := by
  simp [LastsUntil, lockFor_eq_some, and_assoc]

theorem judge_locked (h : LastsUntil u record.row.lockedUntil) (hnow : now < u) :
    judge hashing record now password = .locked := by
  obtain ⟨u', hlock, hle⟩ := h
  have hany : record.row.lockedUntil.any (now < ·) = true := by
    rw [hlock]
    exact decide_eq_true (by omega)
  rw [judge, if_pos hany]

/-- What an action does. -/
inductive Effect (cfg : LockSettings) (hashing : Hashing) (s : Desk) (p : ℕ) (m : Move) :
    Desk → Prop
  | fetch (hphase : s.phase p = .idle) (haction : m.action = .fetch) :
      Effect cfg hashing s p m (s.goTo p m.now (.fetched s.account s.locks))
  | judge {record : CredentialRecord} {locks : List ℤ} {password : String}
      (hphase : s.phase p = .fetched record locks)
      (haction : m.action = .judge password) :
      Effect cfg hashing s p m (s.goTo p m.now (Desk.decided hashing record m.now password))
  | fail {record : CredentialRecord} {now : ℤ} (hphase : s.phase p = .failing record now)
      (haction : m.action = .write) :
      Effect cfg hashing s p m (s.fail cfg p m.now record now)
  | succeed {record : CredentialRecord} {password : String}
      (hphase : s.phase p = .succeeding record password) (haction : m.action = .write) :
      Effect cfg hashing s p m (s.succeed hashing p m.now record password)
  | rehash {record : CredentialRecord} {newHash : String}
      (hphase : s.phase p = .rehashing record newHash) (haction : m.action = .write) :
      Effect cfg hashing s p m ((s.withRow (updateHash s.account.row newHash)).goTo p m.now
        (.done (.succeeded record (some newHash))))

theorem step_effect (h : s.step cfg hashing p m = some t) :
    s.clock ≤ m.now ∧ Effect cfg hashing s p m t := by
  unfold Desk.step at h
  split_ifs at h with htime
  refine ⟨Int.not_lt.mp htime, ?_⟩
  split at h
  next haction hphase =>
    cases h
    exact .fetch hphase haction
  next haction hphase =>
    cases h
    exact .judge hphase haction
  next haction hphase =>
    cases h
    exact .fail hphase haction
  next haction hphase =>
    cases h
    exact .succeed hphase haction
  next haction hphase =>
    cases h
    exact .rehash hphase haction
  · cases h

/-- **An attempt that is not overtaken does what `authenticate` says.** -/
theorem alone_eq_authenticate (password : String) (hidle : s.phase p = .idle)
    (hclock : s.clock ≤ now) :
    ∃ writes, (execute (Desk.step cfg hashing) s
        ((p, ⟨now, .fetch⟩) :: (p, ⟨now, .judge password⟩) ::
          List.replicate writes (p, ⟨now, .write⟩))).map (fun t => (t.phase p, t.account.row)) =
      some (.done (authenticate cfg hashing s.account now password).1,
        (authenticate cfg hashing s.account now password).2) := by
  simp only [execute, Desk.step, hidle, Int.not_lt.mpr hclock, if_false, Desk.goTo,
    update_self]
  unfold Desk.decided authenticate
  -- the number of updates depends on the decision, and on the hash after a success
  cases judge hashing s.account now password with
  | locked | disabled => exact ⟨0, by simp [execute]⟩
  | wrong =>
    exact ⟨1, by simp [execute, Desk.step, Desk.goTo, Desk.fail, Desk.withRow]⟩
  | right =>
    cases hhash : rehash hashing s.account password with
    | none =>
      exact ⟨1, by simp [execute, Desk.step, Desk.goTo, hhash, Desk.succeed,
        Desk.afterReset, Desk.withRow]⟩
    | some newHash =>
      exact ⟨2, by simp [List.replicate, execute, Desk.step, Desk.goTo, hhash,
        Desk.succeed, Desk.afterReset, Desk.withRow]⟩

/-! ## Runs -/

/-- What holds along a run in which no failure is recorded from an old reading. -/
structure Inv (cfg : LockSettings) (s : Desk) : Prop where
  counted : s.failures.length = s.account.row.failedAttempts
  locked : Locked cfg s
  lasting : ∀ u ∈ s.locks, s.clock < u → LastsUntil u s.account.row.lockedUntil
  seen : ∀ p record locks, s.phase p = .fetched record locks →
    ∀ u ∈ locks, s.clock < u → LastsUntil u record.row.lockedUntil

theorem inv_start (cfg : LockSettings) (account : CredentialRecord) (clock : ℤ) :
    Inv cfg (Desk.start account clock) where
  counted := rfl
  locked := by simp [Locked, Desk.start]
  lasting := by simp [Desk.start]
  seen := by simp [Desk.start]

/-- An attempt that was started after a lock was set sees it. -/
theorem Inv.shut (hinv : Inv cfg s) (htime : s.clock ≤ m.now)
    (hphase : s.phase p = .fetched record locks) (hu : u ∈ locks) (hlt : m.now < u) :
    (judge hashing record m.now password).evaluated = false := by
  rw [judge_locked (hinv.seen p record locks hphase u hu (by omega)) hlt]
  rfl

theorem locked_fail_iff (time : ℤ) (hinv : Inv cfg s) :
    Locked cfg (s.fail cfg p time record now) ↔ (s.account.Locks cfg → record.Locks cfg) := by
  have hcount : cfg.loginMaxFailedAttempts ≤ ((now :: s.failures).length : ℤ) ↔
      s.account.Locks cfg := by
    simp [hinv.counted, CredentialRecord.Locks]
  have hlock : (∃ u, lockFor cfg record now = some u ∧ now + cfg.loginLockoutSeconds ≤ u) ↔
      record.Locks cfg := by
    simp [lockFor_eq_some, and_assoc]
  have hhead : ∀ x, x ∈ (now :: s.failures).head? ↔ x = now := by simp [eq_comm]
  constructor
  · exact fun h hlocks => hlock.mp (h (hcount.mpr hlocks) now ((hhead now).mpr rfl))
  · intro h hmax x hx
    rw [(hhead x).mp hx]
    exact hlock.mpr (h (hcount.mp hmax))

/-- Nothing else than the record of a failure can break the lock. -/
theorem holds_iff_of_quiet (hinv : Inv cfg s) (htime : s.clock ≤ m.now) (hlocked : Locked cfg t)
    (hquiet : ∀ record now, s.phase p = .failing record now → m.action ≠ .write) :
    Holds cfg hashing s p m t ↔ UpToDate cfg s p m := by
  constructor
  · exact fun _ record now hphase haction => absurd haction (hquiet record now hphase)
  · exact fun _ => ⟨hlocked,
      fun record now hphase haction => absurd haction (hquiet record now hphase),
      fun _ _ _ hphase _ _ hu hlt => hinv.shut htime hphase hu hlt⟩

/-- **An action does what is asked of it exactly if its reading is up to date.** -/
theorem holdsAt_iff_upToDate (hinv : Inv cfg s) (h : s.step cfg hashing p m = some t) :
    HoldsAt cfg hashing s p m ↔ UpToDate cfg s p m := by
  have hat : HoldsAt cfg hashing s p m ↔ Holds cfg hashing s p m t := by
    simp [HoldsAt, h]
  rw [hat]
  obtain ⟨htime, heffect⟩ := step_effect h
  cases heffect with
  | fetch hphase haction | judge hphase haction =>
    exact holds_iff_of_quiet hinv htime hinv.locked (by simp [haction])
  | succeed hphase haction =>
    exact holds_iff_of_quiet hinv htime (by simp [Locked, Desk.succeed]) (by simp [hphase])
  | rehash hphase haction =>
    exact holds_iff_of_quiet hinv htime hinv.locked (by simp [hphase])
  | @fail record now hphase haction =>
    constructor
    · intro hholds record' now' hphase' _
      cases hphase.symm.trans hphase'
      exact ⟨(locked_fail_iff m.now hinv).mp hholds.locked, fun u hlock hlt =>
        lastsUntil_lockFor.mp (hholds.kept record now hphase haction u hlock hlt)⟩
    · intro hup
      obtain ⟨hlocks, hlast⟩ := hup record now hphase haction
      refine ⟨(locked_fail_iff m.now hinv).mpr hlocks, ?_,
        fun _ _ _ hphase' _ _ hu hlt => hinv.shut htime hphase' hu hlt⟩
      intro record' now' hphase' _ u hlock hlt
      cases hphase.symm.trans hphase'
      exact lastsUntil_lockFor.mpr (hlast u hlock hlt)

theorem decided_ne_fetched : Desk.decided hashing record now password ≠ .fetched record' locks := by
  unfold Desk.decided
  split <;> simp

theorem afterReset_ne_fetched :
    Desk.afterReset hashing record password ≠ .fetched record' locks := by
  unfold Desk.afterReset
  split <;> simp

/-- What attempts have seen stays so when one goes on. -/
theorem Inv.seen_update (hinv : Inv cfg s) (htime : s.clock ≤ now) {x : Phase}
    (hx : ∀ record locks, x = .fetched record locks →
      ∀ u ∈ locks, now < u → LastsUntil u record.row.lockedUntil)
    (q : ℕ) (record : CredentialRecord) (locks : List ℤ)
    (hphase : update s.phase p x q = .fetched record locks) :
    ∀ u ∈ locks, now < u → LastsUntil u record.row.lockedUntil := by
  intro u hu hlt
  by_cases hq : q = p
  · rw [hq, update_self] at hphase
    exact hx record locks hphase u hu hlt
  · rw [update_of_ne hq] at hphase
    exact hinv.seen q record locks hphase u hu (by omega)

theorem Inv.lasting_fail (hinv : Inv cfg s) (htime : s.clock ≤ m.now)
    (hphase : s.phase p = .failing record now) (haction : m.action = .write)
    (hup : UpToDate cfg s p m) :
    ∀ u ∈ (lockFor cfg record now).toList ++ s.locks, m.now < u →
      LastsUntil u (lockFor cfg record now) := by
  intro u hu hlt
  obtain hnew | hold := List.mem_append.mp hu
  · exact ⟨u, Option.mem_toList.mp hnew, Int.le_refl u⟩
  · obtain ⟨u', hlock, hle⟩ := hinv.lasting u hold (by omega)
    obtain ⟨hlocks, hlast⟩ := (hup record now hphase haction).2 u' hlock (by omega)
    exact lastsUntil_lockFor.mpr ⟨hlocks, by omega⟩

theorem Inv.step (hinv : Inv cfg s) (hup : UpToDate cfg s p m)
    (h : s.step cfg hashing p m = some t) : Inv cfg t := by
  obtain ⟨htime, heffect⟩ := step_effect h
  have hlasting : ∀ u ∈ s.locks, m.now < u → LastsUntil u s.account.row.lockedUntil :=
    fun u hu hlt => hinv.lasting u hu (by omega)
  cases heffect with
  | fetch hphase haction =>
    refine ⟨hinv.counted, hinv.locked, hlasting, hinv.seen_update htime fun record locks hx => ?_⟩
    cases hx
    exact hlasting
  | judge hphase haction =>
    exact ⟨hinv.counted, hinv.locked, hlasting,
      hinv.seen_update htime fun _ _ hx => absurd hx decided_ne_fetched⟩
  | fail hphase haction =>
    refine ⟨congrArg Nat.succ hinv.counted, ?_, hinv.lasting_fail htime hphase haction hup,
      hinv.seen_update htime (by simp)⟩
    exact (locked_fail_iff m.now hinv).mpr (hup _ _ hphase haction).1
  | succeed hphase haction =>
    exact ⟨rfl, by simp [Locked, Desk.succeed], by simp [Desk.succeed],
      hinv.seen_update htime fun _ _ hx => absurd hx afterReset_ne_fetched⟩
  | rehash hphase haction =>
    exact ⟨hinv.counted, hinv.locked, hlasting, hinv.seen_update htime (by simp)⟩

/-- **The lock holds in a run of attempts that overlap exactly if no failure is recorded from a
reading that is out of date.** -/
theorem lock_holds_iff_up_to_date (cfg : LockSettings) (hashing : Hashing)
    (account : CredentialRecord) (clock : ℤ) {moves : List (ℕ × Move)} {t : Desk}
    (h : execute (Desk.step cfg hashing) (Desk.start account clock) moves = some t) :
    Allows (Desk.step cfg hashing) (HoldsAt cfg hashing) (Desk.start account clock) moves ↔
      Allows (Desk.step cfg hashing) (UpToDate cfg) (Desk.start account clock) moves :=
  allows_congr (P := Inv cfg) (fun _ _ _ _ hinv hstep => holdsAt_iff_upToDate hinv hstep)
    (fun _ _ _ _ hinv hup hstep => hinv.step hup hstep) (inv_start cfg account clock) h

def plainHashing : Hashing := ⟨fun hash password => hash = password, fun _ => false, id⟩

def defaultLock : LockSettings := ⟨5, 900⟩

def someAccount : CredentialRecord := ⟨"alice", ⟨"local-alice", "secret", false, 0, none⟩, true⟩

/-- The moves of a failing attempt. -/
def guess (p : ℕ) (now : ℤ) : List (ℕ × Move) :=
  [(p, ⟨now, .fetch⟩), (p, ⟨now, .judge "guess"⟩), (p, ⟨now, .write⟩)]

/-- Two attempts, one after the other, with a lock at the first failure. -/
def oneByOne : List (ℕ × Move) := guess 0 0 ++ [(1, ⟨1, .fetch⟩), (1, ⟨1, .judge "secret"⟩)]

theorem one_by_one_holds :
    Allows (Desk.step ⟨1, 900⟩ plainHashing) (HoldsAt ⟨1, 900⟩ plainHashing)
      (Desk.start someAccount 0) oneByOne := by
  refine (lock_holds_iff_up_to_date ⟨1, 900⟩ plainHashing someAccount 0 rfl).mpr
    ⟨?_, ?_, ?_, ?_, ?_, trivial⟩
  · intro record now hphase
    cases hphase
  · intro record now hphase
    cases hphase
  · intro record now hphase _
    cases hphase
    exact ⟨id, fun u hlock => by cases hlock⟩
  · intro record now hphase
    cases hphase
  · intro record now hphase
    cases hphase

/-- Five attempts that all read the record before any of them writes. -/
def allAtOnce : List (ℕ × Move) :=
  (List.range 5).map (·, ⟨0, .fetch⟩) ++ (List.range 5).map (·, ⟨0, .judge "guess"⟩) ++
    (List.range 5).map (·, ⟨0, .write⟩)

/-- Five wrong passwords are recorded and the account is not locked. -/
theorem five_at_once_not_locked :
    (execute (Desk.step defaultLock plainHashing) (Desk.start someAccount 0) allAtOnce).map
        (fun s => (s.failures.length, s.account.row.failedAttempts, s.account.row.lockedUntil)) =
      some (5, 5, none) ∧
    ¬ Allows (Desk.step defaultLock plainHashing) (HoldsAt defaultLock plainHashing)
      (Desk.start someAccount 0) allAtOnce := by
  refine ⟨by rfl, fun h => ?_⟩
  obtain ⟨-, -, -, -, -, -, -, -, -, -, -, -, -, -, hlast, -⟩ := h
  obtain ⟨u, hlock, -⟩ := (hlast _ rfl).locked (by decide) 0 rfl
  cases hlock

end Lockout

end BbzPlatform.Access
