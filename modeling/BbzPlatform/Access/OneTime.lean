import BbzPlatform.Lib.Turns
import Mathlib.Data.List.Nodup

/-!
# One-time codes

A second factor of a local login is a code of the current time step, or one of the recovery codes.
The last time step that was accepted is stored, and later codes have to be of a later step; a
recovery code is marked as used.

A challenge reads before it writes, and the writes are not guarded.  Challenges that overlap accept
one code twice, and the last step can go back.  Codes are used once in a run exactly if every write
is made while what the challenge has read would still be decided in the same way.
-/

namespace BbzPlatform.Access

open Turns

/-- A row of `local_totp`. -/
structure LocalTotp where
  secretCiphertext : String
  activated : Bool
  lastStep : Option ℤ
  deriving DecidableEq

/-- A row of `local_totp_recovery_codes`; the hash is unique for an identity. -/
structure RecoveryCode where
  codeHash : String
  usedAt : Option ℤ
  deriving DecidableEq

/-- The rows of one identity. -/
structure TotpFile where
  totp : Option LocalTotp
  codes : List RecoveryCode
  deriving DecidableEq

/-- What a challenge can raise: the secret is not readable, or the comparison refuses the text. -/
inductive TotpError where
  | notConfigured
  | notAscii
  deriving DecidableEq

/-- `ChallengeResult`. -/
inductive ChallengeResult where
  | ok
  | bad
  | recoveryUsed
  deriving DecidableEq

/-- What the codes are made with, and how their text is read: `clean` strips the text and drops
blanks. -/
structure CodeTools where
  decryptSecret : String → Option String
  totpAt : String → ℤ → String
  hashRecoveryCode : String → String
  clean : String → String
  isDigit : String → Bool
  isAscii : String → Bool

/-- The seconds of a time step. -/
def interval : ℤ := 30

/-! ## One challenge -/

section Challenge

variable (tools : CodeTools)

/-- The candidates that are later than the last step, one after the other. -/
def tryCandidates (secret code : String) (lastStep : Option ℤ) :
    List ℤ → Except TotpError (Option ℤ)
  | [] => .ok none
  | candidate :: rest =>
    if lastStep.any (candidate ≤ ·) then tryCandidates secret code lastStep rest
    else if !tools.isAscii code then .error .notAscii
    else if tools.totpAt secret candidate = code then .ok (some candidate)
    else tryCandidates secret code lastStep rest

/-- `verify_code`. -/
def verifyCode (secret code : String) (lastStep : Option ℤ) (now : ℤ) :
    Except TotpError (Option ℤ) :=
  let code := tools.clean code
  if !tools.isDigit code then .ok none
  else
    let step := now / interval
    tryCandidates tools secret code lastStep [step - 1, step, step + 1]

def verifyRow (row : LocalTotp) (code : String) (now : ℤ) : Except TotpError (Option ℤ) :=
  match tools.decryptSecret row.secretCiphertext with
  | none => .error .notConfigured
  | some secret => verifyCode tools secret code row.lastStep now

end Challenge

namespace TotpFile

variable (file : TotpFile)

/-- `is_active`. -/
def isActive : Bool := file.totp.any (·.activated)

def lastStep : Option ℤ := file.totp.bind (·.lastStep)

/-- `record_step`. -/
def recordStep (step : ℤ) : TotpFile :=
  { file with totp := file.totp.map fun row => { row with lastStep := some step } }

/-- `consume_recovery` finds a code that is not used. -/
def hasUnused (codeHash : String) : Bool :=
  file.codes.any fun c => c.codeHash = codeHash && c.usedAt.isNone

/-- `consume_recovery` marks it. -/
def useCode (codeHash : String) (now : ℤ) : TotpFile :=
  { file with codes := file.codes.map fun c =>
      if c.codeHash = codeHash then { c with usedAt := some now } else c }

end TotpFile

/-- `challenge`, with the rows it leaves. -/
def challenge (tools : CodeTools) (file : TotpFile) (code : String) (now : ℤ) :
    Except TotpError (ChallengeResult × TotpFile) :=
  match file.totp with
  | none => .ok (.bad, file)
  | some row =>
    if !row.activated then .ok (.bad, file)
    else
      match verifyRow tools row code now with
      | .error e => .error e
      | .ok (some step) => .ok (.ok, file.recordStep step)
      | .ok none =>
        let codeHash := tools.hashRecoveryCode code
        if file.hasUnused codeHash then .ok (.recoveryUsed, file.useCode codeHash now)
        else .ok (.bad, file)

/-! ## Challenges that overlap -/

variable {tools : CodeTools} {secret code codeHash : String} {a b c first : Option ℤ} {now time : ℤ}
  {candidates : List ℤ} {file : TotpFile} {row row' : LocalTotp} {p : ℕ}

namespace OneTime

inductive Phase where
  | idle
  | loaded (row : Option LocalTotp)
  | accepting (row : LocalTotp) (code : String) (now step : ℤ)
  | searching (codeHash : String)
  | found (codeHash : String)
  | done (result : Except TotpError ChallengeResult)

/-- The rows with the challenges on them, the steps that were accepted and the recovery codes. -/
structure Desk where
  file : TotpFile
  phase : ℕ → Phase
  accepted : List ℤ
  used : List String

/-- What a challenge does next. -/
inductive Action where
  | load
  | verify (code : String) (now : ℤ)
  | select
  | write (now : ℤ)

variable {s t : Desk} {m : Action} {x : Phase}

namespace Desk

section Step

variable (tools : CodeTools) (s : Desk)

/-- No challenge yet. -/
def start (file : TotpFile) : Desk := ⟨file, fun _ => .idle, [], []⟩

def goTo (p : ℕ) (x : Phase) : Desk := { s with phase := Function.update s.phase p x }

def checked (row : Option LocalTotp) (code : String) (now : ℤ) : Phase :=
  match row with
  | none => .done (.ok .bad)
  | some row =>
    if !row.activated then .done (.ok .bad)
    else
      match verifyRow tools row code now with
      | .error e => .done (.error e)
      | .ok (some step) => .accepting row code now step
      | .ok none => .searching (tools.hashRecoveryCode code)

def accept (p : ℕ) (step : ℤ) : Desk :=
  { s.goTo p (.done (.ok .ok)) with
    file := s.file.recordStep step
    accepted := step :: s.accepted }

/-- A recovery code is accepted. -/
def useUp (p : ℕ) (codeHash : String) (now : ℤ) : Desk :=
  { s.goTo p (.done (.ok .recoveryUsed)) with
    file := s.file.useCode codeHash now
    used := codeHash :: s.used }

def step (p : ℕ) (m : Action) : Option Desk :=
  match m, s.phase p with
  | .load, .idle => some (s.goTo p (.loaded s.file.totp))
  | .verify code now, .loaded row => some (s.goTo p (checked tools row code now))
  | .select, .searching codeHash =>
    some (s.goTo p (if s.file.hasUnused codeHash then .found codeHash else .done (.ok .bad)))
  | .write _, .accepting _ _ _ step => some (s.accept p step)
  | .write now, .found codeHash => some (s.useUp p codeHash now)
  | _, _ => none

end Step

end Desk

/-! ## Using codes once -/

section Once

variable (tools : CodeTools)

/-- A stored step that has not gone back. -/
def NotAfter (a b : Option ℤ) : Prop := ∀ x, a = some x → ∃ y, b = some y ∧ x ≤ y

/-- After an action no step and no recovery code is accepted twice, and the last step has not gone
back. -/
structure OnceOnly (s t : Desk) : Prop where
  steps : t.accepted.Nodup
  codes : t.used.Nodup
  forward : NotAfter s.file.lastStep t.file.lastStep

def OnceOnlyAt (s : Desk) (p : ℕ) (m : Action) : Prop :=
  ∀ t, s.step tools p m = some t → OnceOnly s t

/-- Where a challenge writes, the row as it is now leads to the same step as the one it has read,
and the recovery code it has found is still not used. -/
structure StillStands (s : Desk) (p : ℕ) (m : Action) : Prop where
  step : ∀ row code now step time, s.phase p = .accepting row code now step → m = .write time →
    ∀ row', s.file.totp = some row' → verifyRow tools row' code now = verifyRow tools row code now
  code : ∀ codeHash time, s.phase p = .found codeHash → m = .write time → s.file.hasUnused codeHash

end Once

section Verify

variable {step : ℤ}

theorem NotAfter.refl (a : Option ℤ) : NotAfter a a := fun x h => ⟨x, h, Int.le_refl x⟩

theorem NotAfter.trans (hab : NotAfter a b) (hbc : NotAfter b c) : NotAfter a c := by
  intro x hx
  obtain ⟨y, hy, hxy⟩ := hab x hx
  obtain ⟨z, hz, hyz⟩ := hbc y hy
  exact ⟨z, hz, Int.le_trans hxy hyz⟩

/-- A step later than the last one. -/
def Before (a : Option ℤ) (step : ℤ) : Prop := ∀ x, a = some x → x < step

theorem any_eq_false_iff_before : a.any (step ≤ ·) = false ↔ Before a step := by
  cases a <;> simp [Before]

/-- What is accepted is later than the last step. -/
theorem before_of_tryCandidates
    (h : tryCandidates tools secret code a candidates = .ok (some step)) : Before a step := by
  induction candidates with
  | nil => cases h
  | cons candidate rest ih =>
    unfold tryCandidates at h
    split at h
    · exact ih h
    next hlater =>
      split at h
      · cases h
      · split at h
        · cases h
          exact any_eq_false_iff_before.mp (by simpa using hlater)
        · exact ih h

/-- A later last step makes no difference to a step that is still later. -/
theorem tryCandidates_of_before (hab : NotAfter a b) (hb : Before b step)
    (h : tryCandidates tools secret code a candidates = .ok (some step)) :
    tryCandidates tools secret code b candidates = .ok (some step) := by
  induction candidates with
  | nil => cases h
  | cons candidate rest ih =>
    unfold tryCandidates at h ⊢
    by_cases hold : a.any (candidate ≤ ·) = true
    · have hskip : b.any (candidate ≤ ·) = true := by
        obtain ⟨x, hx, hle⟩ : ∃ x, a = some x ∧ candidate ≤ x := by
          cases a <;> simp_all
        obtain ⟨y, hy, hxy⟩ := hab x hx
        rw [hy]
        exact decide_eq_true (Int.le_trans hle hxy)
      rw [if_pos hold] at h
      rw [if_pos hskip]
      exact ih h
    · rw [if_neg hold] at h
      -- the candidate was compared before; it is skipped now or compared again
      split at h
      · cases h
      next hascii =>
        split_ifs at h with hcode
        · cases h
          have hlater : b.any (step ≤ ·) = false := any_eq_false_iff_before.mpr hb
          simp [hlater, hascii, hcode]
        · have hrest := ih h
          by_cases hskip : b.any (candidate ≤ ·) = true
          · rw [if_pos hskip]
            exact hrest
          · rw [if_neg hskip, if_neg hascii, if_neg hcode]
            exact hrest

theorem verifyCode_ok_iff_before (hab : NotAfter a b)
    (h : verifyCode tools secret code a now = .ok (some step)) :
    verifyCode tools secret code b now = .ok (some step) ↔ Before b step := by
  simp only [verifyCode] at h ⊢
  split_ifs at h with hdigit
  · cases h
  · rw [if_neg hdigit]
    exact ⟨before_of_tryCandidates, fun hb => tryCandidates_of_before hab hb h⟩

end Verify

section Rows

variable {step : ℤ}

/-- A row that was read some time ago. -/
structure Older (row row' : LocalTotp) : Prop where
  secret : row.secretCiphertext = row'.secretCiphertext
  step : NotAfter row.lastStep row'.lastStep

theorem before_of_verifyRow (h : verifyRow tools row code now = .ok (some step)) :
    Before row.lastStep step := by
  unfold verifyRow at h
  split at h
  · cases h
  · exact (verifyCode_ok_iff_before (.refl _) h).mp h

/-- **The decision stands exactly if the stored step is still before the one that is accepted.** -/
theorem verifyRow_eq_iff_before (hold : Older row row')
    (h : verifyRow tools row code now = .ok (some step)) :
    verifyRow tools row' code now = verifyRow tools row code now ↔ Before row'.lastStep step := by
  rw [h]
  unfold verifyRow at h ⊢
  rw [hold.secret] at h
  split at h
  · cases h
  · exact verifyCode_ok_iff_before hold.step h

@[simp] theorem lastStep_recordStep (h : file.totp = some row) :
    (file.recordStep step).lastStep = some step := by
  simp [TotpFile.recordStep, TotpFile.lastStep, h]

theorem lastStep_eq (h : file.totp = some row) : file.lastStep = row.lastStep := by
  simp [TotpFile.lastStep, h]

theorem hasUnused_useCode (codeHash other : String) : (file.useCode codeHash now).hasUnused other =
      (file.hasUnused other && decide (other ≠ codeHash)) := by
  unfold TotpFile.useCode TotpFile.hasUnused
  induction file.codes with
  | nil => rfl
  | cons c rest ih =>
    rw [List.map_cons, List.any_cons, List.any_cons, ih]
    by_cases hother : other = codeHash
    · by_cases hc : c.codeHash = codeHash <;> simp [hc, hother]
    · by_cases hc : c.codeHash = codeHash <;> simp [hc, hother, Ne.symm hother]

end Rows

/-! ## Runs -/

section Runs

/-- What a challenge has read, compared with the rows as they are. -/
def PhaseOk (tools : CodeTools) (first : Option ℤ) (s : Desk) : Phase → Prop
  | .loaded (some row) => NotAfter first row.lastStep ∧
      ∃ row', s.file.totp = some row' ∧ Older row row'
  | .accepting row code now step => NotAfter first row.lastStep ∧
      (∃ row', s.file.totp = some row' ∧ Older row row') ∧
        verifyRow tools row code now = .ok (some step)
  | .found codeHash => codeHash ∉ s.used → s.file.hasUnused codeHash
  | _ => True

/-- What holds along a run in which all decisions stand; the run started with the step `first`. -/
structure Inv (tools : CodeTools) (first : Option ℤ) (s : Desk) : Prop where
  steps : s.accepted.Nodup
  codes : s.used.Nodup
  started : NotAfter first s.file.lastStep
  accepted : ∀ step ∈ s.accepted, NotAfter (some step) s.file.lastStep
  origin : ∀ step, s.file.lastStep = some step → step ∈ s.accepted ∨ first = some step
  spent : ∀ codeHash ∈ s.used, s.file.hasUnused codeHash = false
  phases : ∀ q, PhaseOk tools first s (s.phase q)

theorem inv_start (tools : CodeTools) (file : TotpFile) :
    Inv tools file.lastStep (Desk.start file) where
  steps := List.nodup_nil
  codes := List.nodup_nil
  started := .refl _
  accepted := by simp [Desk.start]
  origin := fun _ h => .inr h
  spent := by simp [Desk.start]
  phases := fun _ => trivial

inductive Effect (tools : CodeTools) (s : Desk) (p : ℕ) : Action → Desk → Prop
  | load (hphase : s.phase p = .idle) :
      Effect tools s p .load (s.goTo p (.loaded s.file.totp))
  | verify {row : Option LocalTotp} {code : String} {now : ℤ} (hphase : s.phase p = .loaded row) :
      Effect tools s p (.verify code now) (s.goTo p (Desk.checked tools row code now))
  | select {codeHash : String} (hphase : s.phase p = .searching codeHash) :
      Effect tools s p .select (s.goTo p
        (if s.file.hasUnused codeHash then .found codeHash else .done (.ok .bad)))
  | accept {row : LocalTotp} {code : String} {now step time : ℤ}
      (hphase : s.phase p = .accepting row code now step) :
      Effect tools s p (.write time) (s.accept p step)
  | useUp {codeHash : String} {time : ℤ} (hphase : s.phase p = .found codeHash) :
      Effect tools s p (.write time) (s.useUp p codeHash time)

theorem step_effect (h : s.step tools p m = some t) : Effect tools s p m t := by
  unfold Desk.step at h
  split at h
  next hphase =>
    cases h
    exact .load hphase
  next hphase =>
    cases h
    exact .verify hphase
  next hphase =>
    cases h
    exact .select hphase
  next hphase =>
    cases h
    exact .accept hphase
  next hphase =>
    cases h
    exact .useUp hphase
  · cases h

def outcome (file : TotpFile) : Except TotpError (ChallengeResult × TotpFile) → Phase × TotpFile
  | .error e => (.done (.error e), file)
  | .ok (result, changed) => (.done (.ok result), changed)

/-- **A challenge that is not overtaken does what `challenge` says.** -/
theorem alone_eq_challenge (code : String) (now : ℤ) (hidle : s.phase p = .idle) :
    ∃ actions : List Action,
      (execute (Desk.step tools) s
          ((p, .load) :: (p, .verify code now) :: actions.map (p, ·))).map
        (fun t => (t.phase p, t.file)) =
      some (outcome s.file (challenge tools s.file code now)) := by
  simp only [execute, Desk.step, hidle, Desk.goTo, Function.update_self]
  unfold Desk.checked challenge
  -- what follows the comparison depends on its result
  cases s.file.totp with
  | none => exact ⟨[], by simp [execute, outcome]⟩
  | some row =>
    cases hactive : row.activated with
    | false => exact ⟨[], by simp [execute, outcome, hactive]⟩
    | true =>
      cases hverify : verifyRow tools row code now with
      | error e => exact ⟨[], by simp [execute, outcome, hactive, hverify]⟩
      | ok step =>
        cases step with
        | some step =>
          exact ⟨[.write now], by simp [execute, Desk.step, Desk.goTo, outcome,
            hactive, hverify, Desk.accept]⟩
        | none =>
          cases hunused : s.file.hasUnused (tools.hashRecoveryCode code) with
          | false =>
            exact ⟨[.select], by simp [execute, Desk.step, Desk.goTo, outcome,
              hactive, hverify, hunused]⟩
          | true =>
            exact ⟨[.select, .write now], by simp [execute, Desk.step, Desk.goTo,
              outcome, hactive, hverify, hunused, Desk.useUp]⟩

theorem onceOnly_accept_iff (hinv : Inv tools first s)
    {step : ℤ} (hphase : s.phase p = .accepting row code now step) :
    OnceOnly s (s.accept p step) ↔ Before s.file.lastStep step := by
  have hok := hinv.phases p
  rw [hphase] at hok
  obtain ⟨hfirst, ⟨row', hrow', hold⟩, hverify⟩ := hok
  have hlast : (s.accept p step).file.lastStep = some step := lastStep_recordStep hrow'
  constructor
  · intro honce x hx
    obtain ⟨y, hy, hxy⟩ := honce.forward x hx
    rw [hlast] at hy
    cases hy
    refine Int.lt_iff_le_and_ne.mpr ⟨hxy, fun heq => ?_⟩
    -- the stored step was accepted, or it was there from the start and the row had it
    obtain haccepted | hstart := hinv.origin x hx
    · exact (List.nodup_cons.mp honce.steps).1 (heq ▸ haccepted)
    · obtain ⟨z, hz, hxz⟩ := hfirst x hstart
      have hlt := before_of_verifyRow hverify z hz
      omega
  · intro hbefore
    refine ⟨List.nodup_cons.mpr ⟨fun hmem => ?_, hinv.steps⟩, hinv.codes, ?_⟩
    · obtain ⟨y, hy, hle⟩ := hinv.accepted step hmem step rfl
      have hlt := hbefore y hy
      omega
    · rw [hlast]
      exact fun x hx => ⟨step, rfl, Int.le_of_lt (hbefore x hx)⟩

theorem onceOnly_useUp_iff (hinv : Inv tools first s) :
    OnceOnly s (s.useUp p codeHash time) ↔ codeHash ∉ s.used := by
  constructor
  · exact fun honce => (List.nodup_cons.mp honce.codes).1
  · exact fun hnew => ⟨hinv.steps, List.nodup_cons.mpr ⟨hnew, hinv.codes⟩, .refl _⟩

theorem stillStands_of_reading (h : ∀ time, m ≠ .write time) : StillStands tools s p m :=
  ⟨fun _ _ _ _ time _ hm => absurd hm (h time), fun _ time _ hm => absurd hm (h time)⟩

/-- **An action uses codes once exactly if what it writes still stands.** -/
theorem onceOnlyAt_iff_stillStands (hinv : Inv tools first s) (h : s.step tools p m = some t) :
    OnceOnlyAt tools s p m ↔ StillStands tools s p m := by
  have hat : OnceOnlyAt tools s p m ↔ OnceOnly s t := by
    simp [OnceOnlyAt, h]
  rw [hat]
  cases step_effect h with
  | load hphase | verify hphase | select hphase =>
    exact iff_of_true ⟨hinv.steps, hinv.codes, .refl _⟩ (stillStands_of_reading (by simp))
  | accept hphase =>
    have hok := hinv.phases p
    rw [hphase] at hok
    obtain ⟨-, ⟨row', hrow', hold⟩, hverify⟩ := hok
    rw [onceOnly_accept_iff hinv hphase, lastStep_eq hrow',
      ← verifyRow_eq_iff_before hold hverify]
    constructor
    · intro hsame
      refine ⟨fun row₁ code₁ now₁ step₁ _ hphase₁ _ row₂ hrow₂ => ?_, by simp [hphase]⟩
      cases hphase.symm.trans hphase₁
      cases hrow'.symm.trans hrow₂
      exact hsame
    · exact fun hstands => hstands.step _ _ _ _ _ hphase rfl row' hrow'
  | useUp hphase =>
    have hok := hinv.phases p
    rw [hphase] at hok
    rw [onceOnly_useUp_iff hinv]
    constructor
    · intro hnew
      refine ⟨by simp [hphase], fun codeHash₁ _ hphase₁ _ => ?_⟩
      cases hphase.symm.trans hphase₁
      exact hok hnew
    · intro hstands hused
      have hunused := hstands.code _ _ hphase rfl
      rw [hinv.spent _ hused] at hunused
      cases hunused

/-- What others have read stays as it is related to the rows, where rows only go forward and codes
that are found stay unless they are used up. -/
theorem PhaseOk.mono (h : PhaseOk tools first s x)
    (hrow : ∀ row, s.file.totp = some row → ∃ row', t.file.totp = some row' ∧ Older row row')
    (hcode : ∀ codeHash, (codeHash ∉ s.used → s.file.hasUnused codeHash) →
      codeHash ∉ t.used → t.file.hasUnused codeHash) : PhaseOk tools first t x := by
  have hgrow : ∀ row, (∃ row', s.file.totp = some row' ∧ Older row row') →
      ∃ row', t.file.totp = some row' ∧ Older row row' := by
    rintro row ⟨row₁, hrow₁, hold₁⟩
    obtain ⟨row₂, hrow₂, hold₂⟩ := hrow row₁ hrow₁
    exact ⟨row₂, hrow₂, hold₁.secret.trans hold₂.secret, hold₁.step.trans hold₂.step⟩
  cases x with
  | loaded row =>
    cases row with
    | none => trivial
    | some row => exact ⟨h.1, hgrow row h.2⟩
  | accepting row code now step => exact ⟨h.1, hgrow row h.2.1, h.2.2⟩
  | found codeHash => exact hcode codeHash h
  | idle | searching _ | done _ => trivial

theorem phases_update (hphase : t.phase = Function.update s.phase p x)
    (hx : PhaseOk tools first t x) (hrest : ∀ q, PhaseOk tools first t (s.phase q)) (q : ℕ) :
    PhaseOk tools first t (t.phase q) := by
  rw [hphase]
  exact forall_update (Q := fun _ => PhaseOk tools first t) hx hrest q

variable (hinv : Inv tools first s)
include hinv

theorem Inv.reading (hx : PhaseOk tools first s x) : Inv tools first (s.goTo p x) :=
  { hinv with phases := phases_update rfl hx hinv.phases }

theorem phaseOk_checked {row : Option LocalTotp} (hphase : s.phase p = .loaded row) :
    PhaseOk tools first s (Desk.checked tools row code now) := by
  have hok := hinv.phases p
  rw [hphase] at hok
  unfold Desk.checked
  split
  · trivial
  · split
    · trivial
    · split
      · trivial
      next hverify =>
        exact ⟨hok.1, hok.2, hverify⟩
      · trivial

theorem Inv.accept {step : ℤ} (hrow : s.file.totp = some row)
    (honce : OnceOnly s (s.accept p step)) : Inv tools first (s.accept p step) := by
  have hlast : (s.accept p step).file.lastStep = some step := lastStep_recordStep hrow
  have hforward := honce.forward
  refine ⟨honce.steps, honce.codes, hinv.started.trans hforward, ?_, ?_, hinv.spent, ?_⟩
  · refine List.forall_mem_cons.mpr
      ⟨?_, fun step' hold => (hinv.accepted step' hold).trans hforward⟩
    rw [hlast]
    exact .refl _
  · intro step' hstep'
    rw [hlast] at hstep'
    cases hstep'
    exact .inl List.mem_cons_self
  · refine phases_update rfl trivial fun q => (hinv.phases q).mono ?_ fun _ hfound => hfound
    intro row₁ hrow₁
    cases hrow.symm.trans hrow₁
    refine ⟨{ row with lastStep := some step }, by simp [Desk.accept, TotpFile.recordStep, hrow],
      rfl, ?_⟩
    rwa [hlast, lastStep_eq hrow] at hforward

theorem Inv.useUp (honce : OnceOnly s (s.useUp p codeHash time)) :
    Inv tools first (s.useUp p codeHash time) := by
  have hunused : ∀ other, (s.useUp p codeHash time).file.hasUnused other =
      (s.file.hasUnused other && decide (other ≠ codeHash)) :=
    hasUnused_useCode codeHash
  refine ⟨honce.steps, honce.codes, hinv.started, hinv.accepted, hinv.origin, ?_, ?_⟩
  · refine List.forall_mem_cons.mpr ⟨by rw [hunused]; simp, fun other hold => ?_⟩
    rw [hunused, hinv.spent other hold, Bool.false_and]
  · refine phases_update rfl trivial fun q => (hinv.phases q).mono
      (fun row hrow => ⟨row, hrow, rfl, .refl _⟩) fun other hfound hnew => ?_
    obtain ⟨hother, hold⟩ : other ≠ codeHash ∧ other ∉ s.used := by
      simpa [Desk.useUp] using hnew
    rw [hunused, hfound hold]
    simp [hother]

theorem Inv.step (hstands : StillStands tools s p m) (h : s.step tools p m = some t) :
    Inv tools first t := by
  have honce := (onceOnlyAt_iff_stillStands hinv h).mpr hstands t h
  cases step_effect h with
  | load hphase =>
    refine hinv.reading ?_
    cases hrow : s.file.totp with
    | none => trivial
    | some row =>
      exact ⟨lastStep_eq hrow ▸ hinv.started, row, hrow, rfl, .refl _⟩
  | verify hphase => exact hinv.reading (phaseOk_checked hinv hphase)
  | select hphase =>
    refine hinv.reading ?_
    split_ifs with hunused
    · exact fun _ => hunused
    · trivial
  | accept hphase =>
    have hok := hinv.phases p
    rw [hphase] at hok
    obtain ⟨-, ⟨row', hrow', -⟩, -⟩ := hok
    exact hinv.accept hrow' honce
  | useUp hphase => exact hinv.useUp honce

end Runs

/-- **In a run of challenges that overlap codes are used once, and the last step does not go back,
exactly if every write is made while its decision still stands.** -/
theorem used_once_iff_decisions_stand (tools : CodeTools) (file : TotpFile)
    {moves : List (ℕ × Action)} {t : Desk}
    (h : execute (Desk.step tools) (Desk.start file) moves = some t) :
    Allows (Desk.step tools) (OnceOnlyAt tools) (Desk.start file) moves ↔
      Allows (Desk.step tools) (StillStands tools) (Desk.start file) moves :=
  allows_congr (P := Inv tools file.lastStep)
    (fun _ _ _ _ hinv hstep => onceOnlyAt_iff_stillStands hinv hstep)
    (fun _ _ _ _ hinv hstands hstep => hinv.step hstands hstep) (inv_start tools file) h

/-- Secrets without encryption, of which each is the code of the second step. -/
def secondStep : CodeTools where
  decryptSecret := some
  totpAt secret step := if step = 2 then secret else ""
  hashRecoveryCode := id
  clean := id
  isDigit code := code != "a-b"
  isAscii _ := true

/-- An enrolled identity with one recovery code. -/
def enrolled : TotpFile := ⟨some ⟨"123456", true, none⟩, [⟨"a-b", none⟩]⟩

/-- A challenge with a code of a step, then one with a recovery code. -/
def inTurn : List (ℕ × Action) :=
  [(0, .load), (0, .verify "123456" 60), (0, .write 60),
    (1, .load), (1, .verify "a-b" 61), (1, .select), (1, .write 61)]

theorem in_turn_once :
    Allows (Desk.step secondStep) (OnceOnlyAt secondStep) (Desk.start enrolled)
      inTurn := by
  refine (used_once_iff_decisions_stand secondStep enrolled rfl).mpr
    ⟨stillStands_of_reading (by simp), stillStands_of_reading (by simp), ⟨?_, ?_⟩,
      stillStands_of_reading (by simp), stillStands_of_reading (by simp),
      stillStands_of_reading (by simp), ⟨?_, ?_⟩, trivial⟩
  · intro row code now step time hphase _ row' hrow'
    cases hphase
    cases hrow'
    rfl
  · intro codeHash time hphase
    cases hphase
  · intro row code now step time hphase
    cases hphase
  · intro codeHash time hphase _
    cases hphase
    rfl

/-- Two challenges with one code, and two with one recovery code. -/
def together : List (ℕ × Action) :=
  [(0, .load), (1, .load), (0, .verify "123456" 60), (1, .verify "123456" 60), (0, .write 60),
    (1, .write 60), (2, .load), (3, .load), (2, .verify "a-b" 61), (3, .verify "a-b" 61),
    (2, .select), (3, .select), (2, .write 61), (3, .write 61)]

/-- A code and a recovery code are each accepted twice. -/
theorem accepted_twice : (execute (Desk.step secondStep) (Desk.start enrolled) together).map
        (fun s => (s.accepted, s.used)) = some ([2, 2], ["a-b", "a-b"]) ∧
      ¬ Allows (Desk.step secondStep) (OnceOnlyAt secondStep) (Desk.start enrolled)
        together := by
  refine ⟨by rfl, fun h => ?_⟩
  obtain ⟨-, -, -, -, -, hsecond, -⟩ := h
  exact absurd (hsecond _ rfl).steps (by decide)

end OneTime

end BbzPlatform.Access
