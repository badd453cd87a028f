import BbzPlatform.Events.Aggregate

/-!
# The event repository

The rows that belong to one event: its row in `events`, its status history, its assignments and its
domain events.  `add` and `save` write all four from the aggregate and the domain events it has
queued, in the caller's transaction; where they raise, the transaction is rolled back.

The status history is driven by the keys `from` and `to` of a payload, the assignments by the type
of the domain event.  No secret is registered for redaction, so a payload is appended as it is.
-/

namespace BbzPlatform.Events

/-- A row of `events`. -/
structure EventRow where
  id : String
  title : String
  description : Option String
  priority : EventPriority
  status : EventStatus
  bbzId : Option String
  workplaceId : Option String
  source : String
  version : ℤ

/-- A row of `event_status_history`, in order of insertion; `null` is SQL's. -/
structure HistoryRow where
  fromStatus : Json
  toStatus : Json
  changedBy : Option String

/-- A row of `event_assignments`. -/
structure AssignmentRow where
  userId : String
  assignedBy : String
  active : Bool

structure LogRow where
  event : DomainEventData
  userId : Option String

/-- The rows of one event. -/
structure Store where
  event : Option EventRow
  history : List HistoryRow
  assignments : List AssignmentRow
  log : List LogRow

/-- Why a repository call fails. -/
inductive RepositoryError where
  | eventNotFound
  | multipleResultsFound
  | integrityError
  | versionConflict (expected : ℤ)
  | assertionError

namespace Store

/-- Before the event is created. -/
def empty : Store := ⟨none, [], [], []⟩

def assignee (s : Store) : Except RepositoryError (Option String) :=
  match s.assignments.filter (·.active) with
  | [] => .ok none
  | [row] => .ok (some row.userId)
  | _ => .error .multipleResultsFound

end Store

def EventRow.aggregate (row : EventRow) (assignee : Option String) : EventAggregate :=
  ⟨row.id, row.title, row.priority, row.status, row.description, row.bbzId, row.workplaceId,
    "manual", assignee, row.version, []⟩

namespace Store

def require (s : Store) : Except RepositoryError EventAggregate :=
  match s.event with
  | none => .error .eventNotFound
  | some row =>
    match s.assignee with
    | .error e => .error e
    | .ok assignee => .ok (row.aggregate assignee)

def appendEvent (s : Store) (event : DomainEventData) (userId : Option String) : Store :=
  { s with log := s.log ++ [⟨event, userId⟩] }

/-- Persist a new aggregate. -/
def add (s : Store) (agg : EventAggregate) (actorId : Option String) :
    Except RepositoryError Store :=
  match s.event with
  | some _ => .error .integrityError
  | none =>
    let row : EventRow := ⟨agg.id, agg.title, agg.description, agg.priority, agg.status,
      agg.bbzId, agg.workplaceId, agg.source, 1⟩
    let history := s.history ++ [⟨.null, .str agg.status.value, actorId⟩]
    .ok (agg.pending.foldl (fun s event => s.appendEvent event actorId)
      { s with event := some row, history := history })

end Store

/-- The change of status that `save` reads off a payload. -/
def statusChange (payload : List (String × Json)) : Option (Json × Json) :=
  let src := (Json.get payload "from").getD .null
  let dst := (Json.get payload "to").getD .null
  if src ≠ .null ∧ dst ≠ .null ∧ Json.eq src dst = false then some (src, dst) else none

/-- The types that change the owner. -/
def EventType.handsOver : EventType → Bool
  | .eventAssigned | .eventTakenOver => true
  | _ => false

namespace Store

/-- The history row of a domain event. -/
def noteStatus (s : Store) (payload : List (String × Json)) (actorId : String) : Store :=
  match statusChange payload with
  | none => s
  | some (src, dst) => { s with history := s.history ++ [⟨src, dst, some actorId⟩] }

/-- Retire the active assignment and insert the new one. -/
def reconcileAssignment (s : Store) (agg : EventAggregate) (type : EventType) (actorId : String) :
    Except RepositoryError Store :=
  if type.handsOver then
    let retired := s.assignments.map fun row => { row with active := false }
    match agg.assigneeId with
    | none => .error .assertionError
    | some userId => .ok { s with assignments := retired ++ [⟨userId, actorId, true⟩] }
  else .ok s

/-- What `save` writes for one domain event. -/
def persist (agg : EventAggregate) (actorId : String) (s : Store) (event : DomainEventData) :
    Except RepositoryError Store :=
  match (s.noteStatus event.payload actorId).reconcileAssignment agg event.type actorId with
  | .error e => .error e
  | .ok s => .ok (s.appendEvent event (some actorId))

/-- Persist a changed aggregate, if the row still has the expected version. -/
def save (s : Store) (agg : EventAggregate) (actorId : String) (expectedVersion : ℤ) :
    Except RepositoryError Store :=
  match s.event with
  | none => .error (.versionConflict expectedVersion)
  | some row =>
    if row.version = expectedVersion then
      let row := { row with
        title := agg.title
        description := agg.description
        priority := agg.priority
        status := agg.status
        bbzId := agg.bbzId
        workplaceId := agg.workplaceId
        version := expectedVersion + 1 }
      agg.pending.foldlM (persist agg actorId) { s with event := some row }
    else .error (.versionConflict expectedVersion)

end Store

end BbzPlatform.Events
