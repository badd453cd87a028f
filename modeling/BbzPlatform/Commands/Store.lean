import BbzPlatform.Json
import BbzPlatform.Lib.Turns

/-!
# Idempotent commands

Every write request carries a command id.  The row of the id in the table `commands` is inserted
before the request runs its body and completed with the result after it; a later request with the
same id finds the row and answers from it, or is refused.  An exception inside the guarded block
deletes the row again, so that the command can be retried.

The insertion, the body's own transaction and the completion are three transactions.  A request can
fail or be cancelled at every `await` in between, and requests interleave.  The model follows the
requests with one command id; the housekeeping of old rows is not part of it.
-/

namespace BbzPlatform.Commands

/-- The HTTP result of a command. -/
structure StoredResult where
  status : ℕ
  body : Json

/-- What a request claims a command id with. -/
structure ClaimKey (δ : Type) where
  userId : Option String
  endpoint : String
  requestHash : δ

/-- A row of `commands`; it is pending while it has no result. -/
structure CommandRow (δ : Type) where
  claim : ClaimKey δ
  result : Option StoredResult

/-- Why a claim is refused. -/
inductive ClaimError where
  | noResultFound
  | commandConflict
  | commandInProgress
  deriving DecidableEq

/-- The answer of `claim` when the id is taken: only the hash of the request is compared. -/
def lookup {δ : Type} [DecidableEq δ] (row : Option (CommandRow δ)) (requestHash : δ) :
    Except ClaimError StoredResult :=
  match row with
  | none => .error .noResultFound
  | some row =>
    if row.claim.requestHash ≠ requestHash then .error .commandConflict
    else
      match row.result with
      | none => .error .commandInProgress
      | some result => .ok result

def complete {δ : Type} (row : CommandRow δ) (result : StoredResult) : CommandRow δ :=
  { row with result := some result }

/-- Drop the row if it is still pending. -/
def abandon {δ : Type} : Option (CommandRow δ) → Option (CommandRow δ)
  | some ⟨_, none⟩ => none
  | row => row

/-- Where a request stands.  `committed` is inside the guarded block, after the body's own
transaction; `finishing` is after the block, before `complete`. -/
inductive Phase where
  | start
  | conflict
  | running
  | committed (result : StoredResult)
  | finishing (result : StoredResult)
  | failing
  | returned (result : StoredResult)
  | replayed (result : StoredResult)
  | refused (error : ClaimError)
  | raised

/-- What a request does next. -/
inductive Move where
  /-- The `INSERT` of `claim`. -/
  | insert
  /-- The same, cancelled before its answer arrives. -/
  | insertCancelled
  /-- The `SELECT` of `claim`, when the id was taken. -/
  | look
  /-- The body commits its state change; the result is what it will record. -/
  | commit (result : StoredResult)
  /-- The body leaves the guarded block after its commit. -/
  | leave
  /-- The body leaves the guarded block with a result and no state change. -/
  | leaveWith (result : StoredResult)
  /-- An exception or a cancellation, or a body that records no result. -/
  | fail
  /-- The `DELETE` of `abandon`. -/
  | abandon
  /-- The `UPDATE` of `complete`. -/
  | complete
  /-- The same, cancelled before its answer arrives. -/
  | completeCancelled

/-- The row, the requests and the state changes they have committed. -/
structure State (δ : Type) where
  row : Option (CommandRow δ)
  phase : ℕ → Phase
  effects : List (ℕ × StoredResult)

namespace State

variable {δ : Type} (s : State δ)

/-- No row, and no request has begun. -/
def init : State δ := ⟨none, fun _ => .start, []⟩

/-- Move a request to a phase. -/
def goto (p : ℕ) (phase : Phase) : State δ :=
  { s with phase := Function.update s.phase p phase }

def setRow (row : Option (CommandRow δ)) : State δ := { s with row := row }

@[simp] theorem goto_row (p : ℕ) (phase : Phase) : (s.goto p phase).row = s.row := rfl

@[simp] theorem goto_effects (p : ℕ) (phase : Phase) : (s.goto p phase).effects = s.effects := rfl

@[simp] theorem goto_phase_self (p : ℕ) (phase : Phase) : (s.goto p phase).phase p = phase := by
  simp [goto]

theorem goto_phase_of_ne {p q : ℕ} (h : q ≠ p) (phase : Phase) :
    (s.goto p phase).phase q = s.phase q := by
  simp [goto, h]

end State

variable {δ : Type} [DecidableEq δ]

/-- One move of a request, if its phase allows it. -/
def step (key : ℕ → ClaimKey δ) (s : State δ) (p : ℕ) (m : Move) : Option (State δ) :=
  match m, s.phase p with
  | .insert, .start =>
    match s.row with
    | none => some ((s.setRow (some ⟨key p, none⟩)).goto p .running)
    | some _ => some (s.goto p .conflict)
  | .insertCancelled, .start =>
    match s.row with
    | none => some ((s.setRow (some ⟨key p, none⟩)).goto p .raised)
    | some _ => some (s.goto p .raised)
  | .look, .conflict =>
    match lookup s.row (key p).requestHash with
    | .ok result => some (s.goto p (.replayed result))
    | .error error => some (s.goto p (.refused error))
  | .commit result, .running =>
    some { s.goto p (.committed result) with effects := s.effects ++ [(p, result)] }
  | .leave, .committed result => some (s.goto p (.finishing result))
  | .leaveWith result, .running => some (s.goto p (.finishing result))
  | .fail, .running => some (s.goto p .failing)
  | .fail, .committed _ => some (s.goto p .failing)
  | .fail, .start => some (s.goto p .raised)
  | .fail, .conflict => some (s.goto p .raised)
  | .fail, .finishing _ => some (s.goto p .raised)
  | .fail, .failing => some (s.goto p .raised)
  | .abandon, .failing => some ((s.setRow (Commands.abandon s.row)).goto p .raised)
  | .complete, .finishing result =>
    match s.row with
    | none => some (s.goto p .raised)
    | some row => some ((s.setRow (some (Commands.complete row result))).goto p (.returned result))
  | .completeCancelled, .finishing result =>
    match s.row with
    | none => some (s.goto p .raised)
    | some row => some ((s.setRow (some (Commands.complete row result))).goto p .raised)
  | _, _ => none

/-- A request makes a move that is allowed. -/
abbrev Step (key : ℕ → ClaimKey δ) (allowed : State δ → ℕ → Move → Prop) :
    State δ → State δ → Prop := Turns.Turn (step key) allowed

abbrev AnyStep (key : ℕ → ClaimKey δ) : State δ → State δ → Prop := Turns.AnyTurn (step key)

/-- At most one execution has committed.  Every other request has not been answered yet, has been
refused or has failed, or has replayed the result of that execution. -/
def Once (s : State δ) : Prop :=
  s.effects.length ≤ 1 ∧ ∀ e ∈ s.effects, ∀ q, q ≠ e.1 →
    match s.phase q with
    | .start | .conflict | .refused _ | .raised => True
    | .replayed result => result = e.2
    | .running | .committed _ | .finishing _ | .failing | .returned _ => False

/-- No exception inside the guarded block once the body's transaction has committed. -/
def FailsEarly (s : State δ) (p : ℕ) (m : Move) : Prop :=
  ∀ result, s.phase p = .committed result → m ≠ .fail

end BbzPlatform.Commands
