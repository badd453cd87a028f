import BbzPlatform.Json
import Mathlib.Data.List.Sort
import Mathlib.Algebra.Order.Ring.Int

/-!
# The transactional outbox

An external action is a row of `external_action_outbox`.  It is enqueued in the transaction of the
state change that needs it, and a dispatcher delivers it later: it runs the handler of the row's
action type and writes the outcome into the row, with an audit row for a final outcome and, for
camera actions, a note on the event that caused it.  Times are microseconds.
-/

namespace BbzPlatform.Outbox

open List

inductive OutboxStatus where
  | pending
  | dispatched
  | failed
  deriving DecidableEq, Repr

/-- A row of `external_action_outbox`. -/
structure OutboxRow where
  id : String
  dedupeKey : String
  actionType : String
  payload : List (String × Json)
  status : OutboxStatus
  attempts : ℕ
  nextAttemptAt : ℤ
  lastError : Option String
  result : Option Json
  dispatchedAt : Option ℤ

/-- The redaction net, on texts, JSON values and objects. -/
structure Redaction where
  text : String → String
  json : Json → Json
  fields : List (String × Json) → List (String × Json)

/-- What a dispatcher is set up with: the action types that have a handler, and the redaction. -/
structure Setup where
  handlers : List String
  scrub : Redaction

def baseBackoff : ℤ := 5000000

def maxBackoff : ℤ := 1800000000

def maxAttempts : ℕ := 8

/-- When to try again after a number of attempts. -/
def backoff (now : ℤ) (attempts : ℕ) : ℤ := now + min (baseBackoff * 2 ^ attempts) maxBackoff

/-! ## The table -/

/-- `enqueue`: a second row with the same key is not inserted. -/
def enqueue (scrub : Redaction) (rows : List OutboxRow) (id dedupeKey actionType : String)
    (payload : List (String × Json)) (now : ℤ) : List OutboxRow × Bool :=
  if rows.any (·.dedupeKey = dedupeKey) then (rows, false)
  else
    let row : OutboxRow :=
      ⟨id, dedupeKey, actionType, scrub.fields payload, .pending, 0, now, none, none, none⟩
    (rows ++ [row], true)

/-- `claim_due`: pending rows that are due and not locked, the longest due first. -/
def claimDue (rows : List OutboxRow) (locked : String → Bool) (now : ℤ) (limit : ℕ) :
    List OutboxRow :=
  ((rows.filter fun row => row.status = .pending ∧ row.nextAttemptAt ≤ now ∧ !locked row.id)
    |>.insertionSort fun a b => a.nextAttemptAt ≤ b.nextAttemptAt).take limit

def rowById (rows : List OutboxRow) (id : String) : Option OutboxRow := rows.find? (·.id = id)

def update (rows : List OutboxRow) (new : OutboxRow) : List OutboxRow :=
  rows.map fun row => if row.id = new.id then new else row

variable {rows : List OutboxRow} {row : OutboxRow} {now : ℤ} {setup : Setup}

section Table

variable {new : OutboxRow}

theorem mem_claimDue {locked : String → Bool} {limit : ℕ}
    (h : row ∈ claimDue rows locked now limit) :
    row ∈ rows ∧ row.status = .pending ∧ row.nextAttemptAt ≤ now ∧ locked row.id = false := by
  have hmem := (perm_insertionSort _ _).mem_iff.mp (mem_of_mem_take h)
  simpa using mem_filter.mp hmem

theorem nodup_claimDue (hnodup : (rows.map (·.id)).Nodup) (locked : String → Bool) (now : ℤ)
    (limit : ℕ) : ((claimDue rows locked now limit).map (·.id)).Nodup := by
  refine Nodup.sublist ((take_sublist _ _).map _) ?_
  refine ((perm_insertionSort _ _).map _).nodup_iff.mpr ?_
  exact hnodup.sublist (filter_sublist.map _)

theorem rowById_eq_some (hnodup : (rows.map (·.id)).Nodup) {id : String} :
    rowById rows id = some row ↔ row ∈ rows ∧ row.id = id := by
  constructor
  · intro h
    exact ⟨mem_of_find?_eq_some h, by simpa using find?_some h⟩
  · rintro ⟨hrow, rfl⟩
    cases hfind : rowById rows row.id with
    | none => simpa using find?_eq_none.mp hfind row hrow
    | some found =>
      have hid : found.id = row.id := by simpa using find?_some hfind
      rw [inj_on_of_nodup_map hnodup (mem_of_find?_eq_some hfind) hrow hid]

@[simp] theorem map_id_update : (update rows new).map (·.id) = rows.map (·.id) := by
  rw [update, map_map]
  refine map_congr_left fun row _ => ?_
  by_cases hid : row.id = new.id <;> simp [hid]

theorem mem_update (h : row ∈ update rows new) : row = new ∨ row ∈ rows ∧ row.id ≠ new.id := by
  obtain ⟨old, hold, heq⟩ := mem_map.mp h
  by_cases hid : old.id = new.id
  · rw [if_pos hid] at heq
    exact .inl heq.symm
  · rw [if_neg hid] at heq
    exact .inr (heq ▸ ⟨hold, hid⟩)

theorem mem_update_of_ne (hrow : row ∈ rows) (hid : row.id ≠ new.id) : row ∈ update rows new :=
  mem_map.mpr ⟨row, hrow, if_neg hid⟩

end Table

/-! ## One attempt -/

namespace OutboxRow

variable (row : OutboxRow)

def markDispatched (scrub : Redaction) (result : Option Json) (now : ℤ) : OutboxRow :=
  { row with
    status := .dispatched
    attempts := row.attempts + 1
    result := result.map scrub.json
    lastError := none
    dispatchedAt := some now }

def markRetry (scrub : Redaction) (error : String) (now : ℤ) : OutboxRow :=
  { row with
    attempts := row.attempts + 1
    lastError := some (scrub.text error)
    nextAttemptAt := backoff now (row.attempts + 1) }

def markFailed (scrub : Redaction) (error : String) : OutboxRow :=
  { row with
    status := .failed
    attempts := row.attempts + 1
    lastError := some (scrub.text error) }

end OutboxRow

inductive AuditAction where
  | externalActionDispatched
  | externalActionFailed
  deriving DecidableEq, Repr

/-- The audit row of a final outcome. -/
structure AuditEntry where
  action : AuditAction
  targetId : String
  actionType : String
  attempts : ℕ
  status : OutboxStatus
  reason : Option String

/-- `_audit`. -/
def audit (row : OutboxRow) (ok : Bool) : AuditEntry where
  action := if ok then .externalActionDispatched else .externalActionFailed
  targetId := row.id
  actionType := row.actionType
  attempts := row.attempts
  status := row.status
  reason :=
    if ok then none
    else match row.lastError with
      | none => some "dispatch failed"
      | some error => some (if error = "" then "dispatch failed" else error)

inductive NoteType where
  | cameraActionFailed
  | cameraOpened
  deriving DecidableEq, Repr

/-- A domain event on the event that caused a camera action. -/
structure Note where
  eventId : Json
  type : NoteType
  actionType : String

def cameraActionTypes : List String := ["open_camera", "open_camera_group"]

/-- `_on_terminal_failure` and `_on_camera_dispatched`, which differ in what they note. -/
def cameraNote (type : NoteType) (row : OutboxRow) : Option Note :=
  match Json.get row.payload "event_id" with
  | none => none
  | some eventId =>
    if row.actionType ∈ cameraActionTypes ∧ eventId.truthy then
      some ⟨eventId, type, row.actionType⟩
    else none

def onTerminalFailure (row : OutboxRow) : Option Note := cameraNote .cameraActionFailed row

def onCameraDispatched (row : OutboxRow) : Option Note := cameraNote .cameraOpened row

/-- How a handler ends: it raises, or it returns a result or `None`. -/
abbrev Outcome := Except String (Option Json)

/-- What the transaction of an attempt writes. -/
structure Written where
  row : OutboxRow
  audits : List AuditEntry
  note : Option Note

variable {new : Written}

def unhandled (setup : Setup) (row : OutboxRow) : Written :=
  let row' := row.markFailed setup.scrub ("no handler for " ++ Json.reprStr row.actionType)
  ⟨row', [audit row' false], none⟩

/-- The handler has returned or raised. -/
def recorded (setup : Setup) (row : OutboxRow) (now : ℤ) : Outcome → Written
  | .error error =>
    if maxAttempts ≤ row.attempts + 1 then
      let row' := row.markFailed setup.scrub error
      ⟨row', [audit row' false], onTerminalFailure row'⟩
    else ⟨row.markRetry setup.scrub error now, [], none⟩
  | .ok result =>
    let row' := row.markDispatched setup.scrub result now
    ⟨row', [audit row' true], onCameraDispatched row'⟩

inductive Attempted (setup : Setup) (row : OutboxRow) : Written → Prop
  | unhandled : Attempted setup row (unhandled setup row)
  | dispatched (hhandler : row.actionType ∈ setup.handlers) (result : Option Json) (now : ℤ)
      {audits : List AuditEntry} {note : Option Note} :
      Attempted setup row ⟨row.markDispatched setup.scrub result now, audits, note⟩
  | exhausted (error : String) {audits : List AuditEntry} {note : Option Note} :
      Attempted setup row ⟨row.markFailed setup.scrub error, audits, note⟩
  | retried (hhandler : row.actionType ∈ setup.handlers) (hleft : row.attempts + 1 < maxAttempts)
      (error : String) (now : ℤ) {audits : List AuditEntry} {note : Option Note} :
      Attempted setup row ⟨row.markRetry setup.scrub error now, audits, note⟩

theorem attempted_recorded (hhandler : row.actionType ∈ setup.handlers) (now : ℤ)
    (outcome : Outcome) : Attempted setup row (recorded setup row now outcome) := by
  cases outcome with
  | ok result => exact .dispatched hhandler result now
  | error error =>
    by_cases hleft : maxAttempts ≤ row.attempts + 1
    · rw [recorded, if_pos hleft]
      exact .exhausted error
    · rw [recorded, if_neg hleft]
      exact .retried hhandler (not_le.mp hleft) error now

section

variable (h : Attempted setup row new)
include h

theorem Attempted.id_eq : new.row.id = row.id := by
  cases h <;> rfl

theorem Attempted.actionType_eq : new.row.actionType = row.actionType := by
  cases h <;> rfl

theorem Attempted.attempts_eq : new.row.attempts = row.attempts + 1 := by
  cases h <;> rfl

theorem Attempted.handler (hstatus : new.row.status ≠ .failed) :
    row.actionType ∈ setup.handlers := by
  cases h with
  | unhandled | exhausted error => exact absurd rfl hstatus
  | dispatched hhandler result now => exact hhandler
  | retried hhandler hleft error now => exact hhandler

/-- **A row that is to be tried again has attempts left.** -/
theorem Attempted.attempts_lt (hpending : new.row.status = .pending) :
    new.row.attempts < maxAttempts := by
  cases h with
  | retried hhandler hleft error now => exact hleft
  | _ => cases hpending

end

theorem recorded_dispatched (hrow : row.status = .pending) {outcome : Outcome}
    (h : (recorded setup row now outcome).row.status = .dispatched) :
    ∃ result, outcome = .ok result := by
  cases outcome with
  | ok result => exact ⟨result, rfl⟩
  | error error =>
    by_cases hleft : maxAttempts ≤ row.attempts + 1
    · rw [recorded, if_pos hleft] at h
      cases h
    · rw [recorded, if_neg hleft] at h
      cases hrow.symm.trans h

end BbzPlatform.Outbox
