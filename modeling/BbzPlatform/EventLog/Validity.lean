import BbzPlatform.Outbox.Repository
import BbzPlatform.Triggers.Actions

/-!
# What is committed to the event log

`append_event` writes its row first and validates it behind that.  An invalid row is taken back with
the transaction, provided that the caller lets the exception through.  The notes that the outbox
dispatcher makes on camera actions catch it, and the transaction commits the row.
-/

namespace BbzPlatform.EventLog.Validity

open Outbox (NoteType OutboxRow cameraActionTypes cameraNote)
open Triggers (Escape Fields Surroundings iterate nonemptyString nullableString oneOf orElse orNull
  str)

/-- A row as the caller fills it.  The payload is the one behind the redaction net, which has
nothing registered in a worker. -/
structure Row where
  aggregateType : String
  aggregateId : String
  eventType : String
  schemaVersion : ℤ
  payload : Fields

/-! ## The schemas -/

/-- An object with required keys, and more properties than the given ones. -/
def admits (properties : List (String × (Json → Bool))) (required : List String)
    (fields : Fields) : Bool :=
  required.all (Json.has fields) &&
    properties.all fun p => ((Json.get fields p.1).map p.2).getD true

/-- An array of strings that are not empty. -/
def nonemptyStrings : Json → Bool
  | .arr items => items.all nonemptyString
  | _ => false

def nullableInteger : Json → Bool
  | .int _ | .null => true
  | .float q => q.den = 1
  | _ => false

def noteEventType : NoteType → String
  | .cameraActionFailed => "CAMERA_ACTION_FAILED"
  | .cameraOpened => "CAMERA_OPENED"

/-- The payload schemas of the two camera notes. -/
def noteSchema (type : NoteType) : Fields → Bool :=
  let own : List (String × (Json → Bool)) :=
    match type with
    | .cameraActionFailed => [("error", nullableString), ("attempts", nullableInteger)]
    | .cameraOpened => [("workplace_id", nullableString)]
  admits (("action_type", oneOf cameraActionTypes) :: ("camera_refs", nonemptyStrings) :: own)
    ["action_type", "camera_refs"]

/-- The node, the rows that the columns take, and the payload schemas of the other event types. -/
structure Log where
  nodeId : String
  takes : Row → Bool
  otherSchema : String → ℤ → Option (Fields → Bool)

namespace Log

variable (log : Log)

/-- `event_payload_schema`. -/
def payloadSchema (eventType : String) (version : ℤ) : Option (Fields → Bool) :=
  if version = 1 ∧ eventType = "CAMERA_ACTION_FAILED" then some (noteSchema .cameraActionFailed)
  else if version = 1 ∧ eventType = "CAMERA_OPENED" then some (noteSchema .cameraOpened)
  else log.otherSchema eventType version

/-- `domain_event.envelope.v1` and the payload schema.  The other fields of the envelope are valid
by their types. -/
def valid (row : Row) : Bool :=
  row.aggregateType ≠ "" && row.aggregateId ≠ "" && row.eventType ≠ "" && log.nodeId ≠ "" &&
    1 ≤ row.schemaVersion &&
    ((log.payloadSchema row.eventType row.schemaVersion).map (· row.payload)).getD false

/-! ## Transactions -/

/-- How `append_event` ends: the database fails, or the row is written and the envelope is invalid,
or it returns. -/
inductive Appended where
  | aborted
  | raised (rows : List Row)
  | returned (rows : List Row)

/-- `append_event`, with the rows that the transaction has written. -/
def appendEvent (rows : List Row) (row : Row) : Appended :=
  if !log.takes row then .aborted
  else if log.valid row then .returned (rows ++ [row])
  else .raised (rows ++ [row])

end Log

variable (log : Log) (env : Surroundings)

/-- `_camera_refs`. -/
def cameraRefs (payload : Fields) : Except Escape (List String) :=
  let ref := orNull payload "camera_ref"
  let refs := orElse payload "camera_refs" (.arr (if ref.truthy then [ref] else []))
  (iterate refs).map (·.map (str env))

def notePayload (type : NoteType) (row : OutboxRow) (refs : List String) : Fields :=
  ("action_type", .str row.actionType) :: ("camera_refs", .arr (refs.map .str)) ::
    match type with
    | .cameraActionFailed =>
      [("error", .ofOption .str row.lastError), ("attempts", .int row.attempts)]
    | .cameraOpened => [("workplace_id", orNull row.payload "workplace_id")]

def noteRow (type : NoteType) (row : OutboxRow) : Option Row :=
  match cameraNote type row, cameraRefs env row.payload with
  | some note, .ok refs =>
    some ⟨"event", str env note.eventId, noteEventType type, 1, notePayload type row refs⟩
  | _, _ => none

/-- A call of `append_event`: by a caller that lets its exceptions through, or by
`_on_terminal_failure` and `_on_camera_dispatched`, which catch them. -/
inductive Call where
  | append (row : Row)
  | note (type : NoteType) (row : OutboxRow)

namespace Log

/-- One call; there is no next state if the transaction cannot commit any more. -/
def step (rows : List Row) : Call → Option (List Row)
  | .append row =>
    match log.appendEvent rows row with
    | .returned rows' => some rows'
    | _ => none
  | .note type row =>
    match noteRow env type row with
    | none => some rows
    | some noted =>
      match log.appendEvent rows noted with
      | .aborted => none
      | .raised rows' | .returned rows' => some rows'

/-- The rows that a transaction with these calls commits. -/
def committed (calls : List Call) : Option (List Row) := calls.foldlM (log.step env) []

/-- A camera note is made for an event that has an id, on a node that has a name; no reference is
empty, and the workplace of an opened camera is a text or missing. -/
def Fits : Call → Prop
  | .append _ => True
  | .note type row => ∀ note refs, cameraNote type row = some note →
      cameraRefs env row.payload = .ok refs →
      str env note.eventId ≠ "" ∧ log.nodeId ≠ "" ∧ "" ∉ refs ∧
        (type = .cameraOpened → nullableString (orNull row.payload "workplace_id"))

end Log

variable {log env}

theorem nonemptyStrings_map (refs : List String) :
    nonemptyStrings (.arr (refs.map .str)) = true ↔ "" ∉ refs := by
  simp only [nonemptyStrings, List.all_map, List.all_eq_true, Function.comp, nonemptyString,
    decide_eq_true_eq]
  exact ⟨fun h hmem => h "" hmem rfl, fun h ref href heq => h (heq ▸ href)⟩

variable {type : NoteType} {row : OutboxRow}

theorem noteSchema_iff (refs : List String) (h : row.actionType ∈ cameraActionTypes) :
    noteSchema type (notePayload type row refs) = true ↔
      "" ∉ refs ∧ (type = .cameraOpened → nullableString (orNull row.payload "workplace_id")) := by
  rw [← nonemptyStrings_map]
  cases type with
  | cameraActionFailed =>
    have herror : nullableString (.ofOption .str row.lastError) = true := by
      cases row.lastError <;> rfl
    simp [noteSchema, notePayload, admits, Json.has, Json.get, List.lookup_cons, oneOf, h, herror,
      nullableInteger]
  | cameraOpened =>
    simp [noteSchema, notePayload, admits, Json.has, Json.get, List.lookup_cons, oneOf, h]

theorem valid_noteRow {noted : Row} (h : noteRow env type row = some noted) :
    log.valid noted = true ↔ log.Fits env (.note type row) := by
  unfold noteRow at h
  split at h
  next note refs hnote hrefs =>
    cases h
    have htype : row.actionType ∈ cameraActionTypes := by
      grind [cameraNote]
    have hschema : (log.payloadSchema (noteEventType type) 1).map (· (notePayload type row refs)) =
        some (noteSchema type (notePayload type row refs)) := by
      cases type <;> rfl
    have hname : noteEventType type ≠ "" := by
      cases type <;> decide
    simp only [Log.Fits, hnote, hrefs, Option.some.injEq, Except.ok.injEq, Log.valid, hschema]
    simp [hname, noteSchema_iff refs htype, and_assoc]
  · cases h

theorem step_valid {rows rows' : List Row} {call : Call} (h : log.step env rows call = some rows') :
    (∀ r ∈ rows', log.valid r = true) ↔
      (∀ r ∈ rows, log.valid r = true) ∧ log.Fits env call := by
  cases call with
  | append row =>
    simp only [Log.step, Log.appendEvent] at h
    grind [Log.Fits]
  | note type row =>
    cases hnoted : noteRow env type row with
    | none =>
      have hfits : log.Fits env (.note type row) := by
        intro note refs hnote hrefs
        simp [noteRow, hnote, hrefs] at hnoted
      obtain rfl : rows = rows' := by simpa [Log.step, hnoted] using h
      simp only [hfits, and_true]
    | some noted =>
      -- the row is written whether or not it is valid
      have hrows : rows' = rows ++ [noted] := by
        simp only [Log.step, hnoted, Log.appendEvent] at h
        grind
      rw [hrows, List.forall_mem_append, List.forall_mem_singleton, valid_noteRow hnoted]

/-- **A transaction commits only valid rows exactly if every camera note in it fits.**  Whatever the
other calls of `append_event` are given, and whatever the outbox rows of the notes hold. -/
theorem committed_valid_iff {calls : List Call} {rows : List Row}
    (h : log.committed env calls = some rows) :
    (∀ row ∈ rows, log.valid row = true) ↔ ∀ call ∈ calls, log.Fits env call := by
  suffices hrun : ∀ start, calls.foldlM (log.step env) start = some rows →
      ((∀ row ∈ rows, log.valid row = true) ↔
        (∀ row ∈ start, log.valid row = true) ∧ ∀ call ∈ calls, log.Fits env call) by
    simpa using hrun [] h
  clear h
  induction calls with
  | nil =>
    rintro start ⟨⟩
    simp
  | cons call calls ih =>
    intro start hrun
    obtain ⟨next, hstep, hrest⟩ := Option.bind_eq_some_iff.mp hrun
    rw [ih next hrest, step_valid hstep, List.forall_mem_cons, and_assoc]

/-- No schemas but those of the notes, and columns that take everything. -/
def plainLog : Log := ⟨"BBZ-LOCAL", fun _ => true, fun _ _ => none⟩

/-- A camera action on event `e1` whose last attempt has failed. -/
def failedAction (refs : List Json) : OutboxRow :=
  ⟨"o1", "k1", "open_camera_group", [("event_id", .str "e1"), ("camera_refs", .arr refs)], .failed,
    8, 0, some "timeout", none, none⟩

theorem failedAction_valid : ∃ row,
    plainLog.committed Triggers.plainSurroundings
      [.note .cameraActionFailed (failedAction [.str "cam1"])] = some [row] ∧
    plainLog.valid row = true := by
  obtain ⟨row, hrow⟩ : ∃ row, plainLog.committed Triggers.plainSurroundings
      [.note .cameraActionFailed (failedAction [.str "cam1"])] = some [row] := ⟨_, rfl⟩
  refine ⟨row, hrow, (committed_valid_iff hrow).mpr (List.forall_mem_singleton.mpr ?_) row
    List.mem_cons_self⟩
  rintro note refs ⟨⟩ ⟨⟩
  exact ⟨by decide, by decide, by decide, nofun⟩

/-- The note on an empty reference is rejected, and committed. -/
theorem invalid_note_committed : ∃ row,
    plainLog.committed Triggers.plainSurroundings
      [.note .cameraActionFailed (failedAction [.str ""])] = some [row] ∧
    plainLog.valid row = false := ⟨_, rfl, rfl⟩

end BbzPlatform.EventLog.Validity
