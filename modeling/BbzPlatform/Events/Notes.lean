import BbzPlatform.Events.Aggregate
import BbzPlatform.Lib.Grouping

/-!
# Notes

A note is append-only: an edit inserts a new version of the note and marks the previous one as
superseded.  The versions of a note form a thread, which is encoded in three columns.  The first
version has no `thread_id` and is the root of its thread; the later ones name the root; and every
version but the current one names its successor in `superseded_by_id`.

`note_threads` reconstructs the threads of an event from the rows by grouping and sorting.

Edits are serialised by the lock on the row they supersede, so the requests are taken one after
another.  New ids are those the database would generate; an id that exists is refused by the primary
key.
-/

namespace BbzPlatform.Events

/-- A row of `event_notes`. -/
structure NoteRow where
  id : String
  eventId : String
  kind : EventNoteKind
  body : String
  createdBy : Option String
  createdAt : ℕ
  version : ℕ
  threadId : Option String
  supersededById : Option String
  editedBy : Option String
  editedAt : Option ℕ
  deriving DecidableEq

/-- `thread_id or id`: the root of the thread. -/
def NoteRow.root (row : NoteRow) : String := row.threadId.getD row.id

/-- Why a request fails. -/
inductive NoteError where
  | validation (message : String)
  | notFound (message : String)
  | noResultFound
  | multipleResultsFound
  | integrityError
  | aborted

/-- What the database and the clock supply: the id of the new row and the time. -/
structure Supply where
  newId : String
  now : ℕ

/-- Insert a row under the primary key. -/
def insertNote (table : List NoteRow) (row : NoteRow) : Except NoteError (List NoteRow) :=
  if row.id ∈ table.map NoteRow.id then .error .integrityError else .ok (table ++ [row])

def addNote (eventExists : String → Bool) (table : List NoteRow) (supply : Supply)
    (eventId : String) (kind : EventNoteKind) (body : String) (userId : String) :
    Except NoteError (NoteRow × List NoteRow) :=
  let noteBody := strip body
  if noteBody = "" then .error (.validation "note body must not be empty")
  else if eventExists eventId = false then .error (.notFound "event not found")
  else
    let row : NoteRow := ⟨supply.newId, eventId, kind, noteBody, some userId, supply.now, 1, none,
      none, none, none⟩
    match insertNote table row with
    | .error e => .error e
    | .ok table => .ok (row, table)

/-- The rows that `edit_note` selects: the current ones of a thread. -/
def currentRows (table : List NoteRow) (eventId threadId : String) : List NoteRow :=
  table.filter fun row => row.eventId = eventId ∧ row.supersededById = none ∧
    (row.id = threadId ∨ row.threadId = some threadId)

/-- Write `superseded_by_id`. -/
def supersede (id newId : String) (row : NoteRow) : NoteRow :=
  if row.id = id then { row with supersededById := some newId } else row

/-- Edit a note, named by any of its versions. -/
def editNote (eventExists : String → Bool) (table : List NoteRow) (supply : Supply)
    (eventId noteId : String) (body : String) (userId : String) :
    Except NoteError (NoteRow × List NoteRow) :=
  let newBody := strip body
  if newBody = "" then .error (.validation "note body must not be empty")
  else if eventExists eventId = false then .error (.notFound "event not found")
  else
    match table.find? (·.id = noteId) with
    | none => .error (.notFound "note not found")
    | some referenced =>
      if referenced.eventId ≠ eventId then .error (.notFound "note not found")
      else
        match currentRows table eventId referenced.root with
        | [] => .error .noResultFound
        | _ :: _ :: _ => .error .multipleResultsFound
        | [old] =>
          if newBody = old.body then .error (.validation "note body is unchanged")
          else
            let row : NoteRow := ⟨supply.newId, eventId, old.kind, newBody, old.createdBy,
              supply.now, old.version + 1, some referenced.root, none, some userId,
              some supply.now⟩
            match insertNote table row with
            | .error e => .error e
            | .ok table => .ok (row, table.map (supersede old.id row.id))

/-! ## Reading the threads -/

structure NoteVersion where
  id : String
  version : ℕ
  body : String
  authorId : Option String
  writtenAt : ℕ

/-- A thread: its current version and its history. -/
structure NoteThread where
  id : String
  threadId : String
  kind : EventNoteKind
  body : String
  version : ℕ
  createdBy : Option String
  createdAt : ℕ
  editedBy : Option String
  editedAt : Option ℕ
  history : List NoteVersion

/-- A superseded version, as it is shown. -/
def NoteRow.toVersion (row : NoteRow) : NoteVersion :=
  ⟨row.id, row.version, row.body, if row.version > 1 then row.editedBy else row.createdBy,
    row.editedAt.getD row.createdAt⟩

/-- The thread of the versions of a note; `none` for no versions, which no group is. -/
def toThread (versions : List NoteRow) : Option NoteThread :=
  match versions.insertionSort (fun a b => a.version ≤ b.version) with
  | [] => none
  | first :: rest =>
    let versions := first :: rest
    let current := (versions.find? (·.supersededById = none)).getD
      (versions.getLast (by simp [versions]))
    some ⟨current.id, first.id, current.kind, current.body, current.version, first.createdBy,
      first.createdAt, current.editedBy, current.editedAt,
      (versions.filter (·.supersededById ≠ none)).map NoteRow.toVersion⟩

def noteThreads (table : List NoteRow) (eventId : String) : List NoteThread :=
  let rows := (table.filter (·.eventId = eventId)).insertionSort fun a b =>
    a.version < b.version ∨ a.version = b.version ∧ a.createdAt ≤ b.createdAt
  let threads := (Grouping.group NoteRow.root rows).filterMap fun g => toThread g.2
  threads.insertionSort fun a b => a.createdAt ≤ b.createdAt

/-! ## Runs -/

inductive NoteRequest where
  | add (eventId : String) (kind : EventNoteKind) (body userId : String)
  | edit (eventId noteId : String) (body userId : String)

/-- A request with what is supplied to it, and whether something else makes it fail. -/
structure NoteInput where
  request : NoteRequest
  supply : Supply
  aborted : Bool

/-- A text that was written: under which id, and to which thread. -/
structure Written where
  id : String
  root : String
  body : String
  deriving DecidableEq

/-- What a request asks to be written, read off the request and what was written before it: its
stripped text, under the id it is supplied with, to a thread of its own or to that of the version
it names. -/
def NoteInput.toWrite (input : NoteInput) (written : List Written) : Written :=
  match input.request with
  | .add _ _ body _ => ⟨input.supply.newId, input.supply.newId, strip body⟩
  | .edit _ noteId body _ =>
    ⟨input.supply.newId, ((written.find? (·.id = noteId)).map Written.root).getD noteId, strip body⟩

/-- The table, and a record of what the successful requests asked for. -/
structure Notes where
  table : List NoteRow
  written : List Written

namespace Notes

/-- The row a request inserts, and the table after it. -/
def transact (eventExists : String → Bool) (table : List NoteRow) (input : NoteInput) :
    Except NoteError (NoteRow × List NoteRow) :=
  if input.aborted then .error .aborted
  else
    match input.request with
    | .add eventId kind body userId =>
      addNote eventExists table input.supply eventId kind body userId
    | .edit eventId noteId body userId =>
      editNote eventExists table input.supply eventId noteId body userId

/-- Commit or roll back. -/
def step (eventExists : String → Bool) (s : Notes) (input : NoteInput) : Notes :=
  match transact eventExists s.table input with
  | .error _ => s
  | .ok (_, table) => ⟨table, s.written ++ [input.toWrite s.written]⟩

/-- One request after another. -/
def run (eventExists : String → Bool) (inputs : List NoteInput) : Notes :=
  inputs.foldl (step eventExists) ⟨[], []⟩

/-- The bodies written to a thread, in order. -/
def bodies (s : Notes) (root : String) : List String :=
  (s.written.filter (·.root = root)).map Written.body

end Notes

end BbzPlatform.Events
