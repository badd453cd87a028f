import BbzPlatform.Json

/-!
# The event aggregate

An event is a title, a description, a priority, a status and an owner.  Every command on it either
fails, or changes the aggregate and queues one domain event that describes the change.  The payload
of the domain event is a JSON object; what later readers know of the change is what they find under
its keys.

## Main definitions

* `EventPriority`, `EventStatus`, `canTransition` — the vocabulary.
* `EventAggregate`, `EventAggregate.create` — the aggregate.
* `Command`, `EventAggregate.apply` — its commands.
* `EventAggregate.applyInPlace` — a command, with the object that it leaves behind if it raises.
-/

namespace BbzPlatform

namespace Json

/-- `None`, or the value. -/
def ofOption {α : Type} (f : α → Json) : Option α → Json
  | none => .null
  | some a => f a

end Json

namespace Events

/-! ## Vocabulary -/

inductive EventPriority where
  | critical
  | high
  | medium
  | low
  deriving DecidableEq

def EventPriority.value : EventPriority → String
  | .critical => "critical"
  | .high => "high"
  | .medium => "medium"
  | .low => "low"

inductive EventStatus where
  | new
  | accepted
  | acknowledged
  | opened
  | archived
  deriving DecidableEq

variable {s t : EventStatus}

def EventStatus.value : EventStatus → String
  | .new => "new"
  | .accepted => "accepted"
  | .acknowledged => "acknowledged"
  | .opened => "opened"
  | .archived => "archived"

theorem EventStatus.value_inj : s.value = t.value ↔ s = t := by
  cases s <;> cases t <;> decide

/-- The allowed changes of status.  Reactivation is the only way out of `archived`. -/
def canTransition : EventStatus → EventStatus → Bool
  | .new, .accepted => true
  | .accepted, .acknowledged => true
  | .acknowledged, .opened => true
  | .opened, .archived => true
  | .archived, .opened => true
  | _, _ => false

theorem canTransition_ne (h : canTransition s t = true) : s ≠ t := by
  rintro rfl
  cases s <;> cases h

inductive EventNoteKind where
  | work
  | postprocess
  deriving DecidableEq

def EventNoteKind.value : EventNoteKind → String
  | .work => "work"
  | .postprocess => "postprocess"

/-- The types of the domain events of an event. -/
inductive EventType where
  | eventCreated
  | eventUpdated
  | eventAccepted
  | eventAcknowledged
  | eventOpened
  | eventArchived
  | eventReactivated
  | eventAssigned
  | eventTakenOver
  deriving DecidableEq

/-! ## Texts -/

/-- The characters that `str.strip` removes. -/
def isSpace (c : Char) : Bool :=
  (9 ≤ c.toNat && c.toNat ≤ 13) || (28 ≤ c.toNat && c.toNat ≤ 32) || c.toNat = 0x85 ||
    c.toNat = 0xa0 || c.toNat = 0x1680 || (0x2000 ≤ c.toNat && c.toNat ≤ 0x200a) ||
    c.toNat = 0x2028 || c.toNat = 0x2029 || c.toNat = 0x202f || c.toNat = 0x205f ||
    c.toNat = 0x3000

/-- `s.strip()`. -/
def strip (s : String) : String :=
  String.ofList ((s.toList.dropWhile isSpace).reverse.dropWhile isSpace).reverse

/-- Why a command fails.  The last two are Python's own, for a `null` where a value is needed. -/
inductive EventError where
  | domain (message : String)
  | invalidTransition (message : String)
  | attributeError (message : String)
  | valueError (message : String)
  deriving DecidableEq

/-- `MAX_TITLE`. -/
def maxTitle : ℕ := 300

/-- `MAX_DESCRIPTION`. -/
def maxDescription : ℕ := 20000

/-- A stripped title; a `null` has no `strip`. -/
def cleanTitle : Option String → Except EventError String
  | none => .error (.attributeError "'NoneType' object has no attribute 'strip'")
  | some title =>
    let cleaned := strip title
    if cleaned = "" then .error (.domain "title must not be empty")
    else if cleaned.length > maxTitle then
      .error (.domain ("title must be <= " ++ toString maxTitle ++ " characters"))
    else .ok cleaned

/-- A stripped description; a blank one is none. -/
def cleanDescription : Option String → Except EventError (Option String)
  | none => .ok none
  | some description =>
    let cleaned := strip description
    if cleaned = "" then .ok none
    else if cleaned.length > maxDescription then
      .error (.domain ("description must be <= " ++ toString maxDescription ++ " characters"))
    else .ok (some cleaned)

/-- `EventPriority(priority)`. -/
def cleanPriority : Option EventPriority → Except EventError EventPriority
  | none => .error (.valueError "None is not a valid EventPriority")
  | some priority => .ok priority

/-! ## The aggregate -/

structure DomainEventData where
  type : EventType
  payload : List (String × Json)

structure EventAggregate where
  id : String
  title : String
  priority : EventPriority
  status : EventStatus
  description : Option String
  bbzId : Option String
  workplaceId : Option String
  source : String
  assigneeId : Option String
  version : ℤ
  pending : List DomainEventData

variable {agg : EventAggregate} {actorId : String} {e : EventError}
  {title description : Option (Option String)} {priority : Option (Option EventPriority)}

/-- The arguments of `create`. -/
structure CreateArgs where
  eventId : String
  title : String
  priority : EventPriority
  description : Option String
  bbzId : Option String
  workplaceId : Option String
  source : String

/-- A command on an existing event.  In `update`, `none` is a field that was not supplied. -/
inductive Command where
  | update (title description : Option (Option String)) (priority : Option (Option EventPriority))
  | accept
  | acknowledge
  | open
  | archive (reason : Option String)
  | reactivate (reason : String)
  | assign (toUserId : String)
  | takeOver (newUserId : String)
  deriving DecidableEq

namespace EventAggregate

/-- Queue a domain event. -/
def emit (agg : EventAggregate) (type : EventType) (payload : List (String × Json)) :
    EventAggregate :=
  { agg with pending := agg.pending ++ [⟨type, payload⟩] }

def create (args : CreateArgs) (actorId : Option String) : Except EventError EventAggregate := do
  let title ← cleanTitle (some args.title)
  let description ← cleanDescription args.description
  let agg : EventAggregate := ⟨args.eventId, title, args.priority, .new, description, args.bbzId,
    args.workplaceId, args.source, none, 1, []⟩
  return agg.emit .eventCreated
    [("title", .str title), ("description", .ofOption .str description),
      ("priority", .str args.priority.value), ("bbz_id", .ofOption .str args.bbzId),
      ("workplace_id", .ofOption .str args.workplaceId), ("source", .str args.source),
      ("actor_id", .ofOption .str actorId)]

/-- One editable field: its new value, and the change noted under its key if there is one. -/
def edit {α : Type} [DecidableEq α] (key : String) (json : α → Json) (old : α)
    (supplied : Option (Except EventError α)) (changes : List (String × Json)) :
    Except EventError (α × List (String × Json)) :=
  match supplied with
  | none => .ok (old, changes)
  | some (.error e) => .error e
  | some (.ok new) =>
    if new ≠ old then
      .ok (new, changes ++ [(key, .obj [("from", json old), ("to", json new)])])
    else .ok (old, changes)

/-- Edit the fields of an event. -/
def update (agg : EventAggregate) (actorId : String) (title description : Option (Option String))
    (priority : Option (Option EventPriority)) : Except EventError EventAggregate :=
  if agg.status = .archived then .error (.invalidTransition "cannot edit an archived event")
  else do
    let (title, changes) ← edit "title" .str agg.title (title.map cleanTitle) []
    let (description, changes) ← edit "description" (.ofOption .str) agg.description
      (description.map cleanDescription) changes
    let (priority, changes) ← edit "priority" (fun p => .str p.value) agg.priority
      (priority.map cleanPriority) changes
    if changes.isEmpty then .error (.domain "no editable fields changed")
    else
      let agg := { agg with title := title, description := description, priority := priority }
      .ok (agg.emit .eventUpdated [("changes", .obj changes), ("actor_id", .str actorId)])

def transition (agg : EventAggregate) (target : EventStatus) (type : EventType) (actorId : String)
    (extra : List (String × Json)) : Except EventError EventAggregate :=
  if canTransition agg.status target then
    .ok (({ agg with status := target } : EventAggregate).emit type
      ([("from", .str agg.status.value), ("to", .str target.value), ("actor_id", .str actorId)] ++
        extra))
  else
    .error (.invalidTransition
      (agg.status.value ++ " -> " ++ target.value ++ " is not allowed"))

/-- Only from `acknowledged`: leaving `archived` is `reactivate`. -/
def open' (agg : EventAggregate) (actorId : String) : Except EventError EventAggregate :=
  if agg.status ≠ .acknowledged then
    .error (.invalidTransition (agg.status.value ++ " -> opened is not allowed"))
  else agg.transition .opened .eventOpened actorId []

def archive (agg : EventAggregate) (actorId : String) (reason : Option String) :
    Except EventError EventAggregate :=
  let cleaned := strip (reason.getD "")
  agg.transition .archived .eventArchived actorId
    (if cleaned = "" then [] else [("reason", .str cleaned)])

/-- Reopen an archived event. -/
def reactivate (agg : EventAggregate) (actorId reason : String) :
    Except EventError EventAggregate :=
  if agg.status ≠ .archived then
    .error (.invalidTransition (agg.status.value ++ " -> reactivated is not allowed"))
  else if strip reason = "" then .error (.domain "reactivation requires a reason")
  else agg.transition .opened .eventReactivated actorId [("reason", .str (strip reason))]

/-- Give the event to a user and say so. -/
def handOver (agg : EventAggregate) (type : EventType) (userId actorId : String) : EventAggregate :=
  ({ agg with assigneeId := some userId } : EventAggregate).emit type
    [("from_user_id", .ofOption .str agg.assigneeId), ("to_user_id", .str userId),
      ("actor_id", .str actorId)]

/-- Make a user responsible. -/
def assign (agg : EventAggregate) (toUserId actorId : String) : Except EventError EventAggregate :=
  if agg.status = .archived then .error (.invalidTransition "cannot assign an archived event")
  else if agg.assigneeId = some toUserId then
    .error (.domain "event is already assigned to that user")
  else .ok (agg.handOver .eventAssigned toUserId actorId)

def takeOver (agg : EventAggregate) (newUserId actorId : String) :
    Except EventError EventAggregate :=
  if agg.status = .archived then .error (.invalidTransition "cannot take over an archived event")
  else if agg.assigneeId = none then .error (.domain "event has no owner; use assign")
  else if agg.assigneeId = some newUserId then
    .error (.domain "event already owned by that user")
  else .ok (agg.handOver .eventTakenOver newUserId actorId)

def apply (agg : EventAggregate) (actorId : String) : Command → Except EventError EventAggregate
  | .update title description priority => agg.update actorId title description priority
  | .accept => agg.transition .accepted .eventAccepted actorId []
  | .acknowledge => agg.transition .acknowledged .eventAcknowledged actorId []
  | .open => agg.open' actorId
  | .archive reason => agg.archive actorId reason
  | .reactivate reason => agg.reactivate actorId reason
  | .assign toUserId => agg.assign toUserId actorId
  | .takeOver newUserId => agg.takeOver newUserId actorId

/-! ## The object that a command leaves behind -/

/-- `update`, which assigns each field before it looks at the next: the object, and what the call
raises. -/
def updateInPlace (agg : EventAggregate) (actorId : String)
    (title description : Option (Option String)) (priority : Option (Option EventPriority)) :
    EventAggregate × Option EventError :=
  if agg.status = .archived then
    (agg, some (.invalidTransition "cannot edit an archived event"))
  else
    match edit "title" .str agg.title (title.map cleanTitle) [] with
    | .error e => (agg, some e)
    | .ok (title, changes) =>
      let agg := { agg with title := title }
      match edit "description" (.ofOption .str) agg.description
          (description.map cleanDescription) changes with
      | .error e => (agg, some e)
      | .ok (description, changes) =>
        let agg := { agg with description := description }
        match edit "priority" (fun p => .str p.value) agg.priority
            (priority.map cleanPriority) changes with
        | .error e => (agg, some e)
        | .ok (priority, changes) =>
          let agg := { agg with priority := priority }
          if changes.isEmpty then (agg, some (.domain "no editable fields changed"))
          else
            (agg.emit .eventUpdated [("changes", .obj changes), ("actor_id", .str actorId)], none)

/-- The other commands make all their checks before they assign anything. -/
def applyInPlace (agg : EventAggregate) (actorId : String) :
    Command → EventAggregate × Option EventError
  | .update title description priority => agg.updateInPlace actorId title description priority
  | command =>
    match agg.apply actorId command with
    | .ok agg' => (agg', none)
    | .error e => (agg, some e)

/-- An `EventDomainError`; `InvalidTransition` is one. -/
def isDomain : EventError → Prop
  | .domain _ | .invalidTransition _ => True
  | _ => False

/-- An `update` that assigns a new title and then rejects the description. -/
def LeavesTitle (agg : EventAggregate) (command : Command) : Prop :=
  ∃ title description priority,
    command = .update (some (some title)) (some (some description)) priority ∧
      agg.status ≠ .archived ∧ strip title ≠ "" ∧ (strip title).length ≤ maxTitle ∧
      strip title ≠ agg.title ∧ maxDescription < (strip description).length

/-- Both models of `update` return alike. -/
theorem updateInPlace_eq_iff {agg' : EventAggregate} :
    agg.updateInPlace actorId title description priority = (agg', none) ↔
      agg.update actorId title description priority = .ok agg' := by
  unfold updateInPlace update
  split
  · simp
  · cases edit "title" .str agg.title (title.map cleanTitle) [] with
    | error e => simp [bind, Except.bind]
    | ok r₁ =>
      dsimp only [bind, Except.bind]
      cases edit "description" (.ofOption .str) agg.description (description.map cleanDescription)
        r₁.2 with
      | error e => simp
      | ok r₂ =>
        dsimp only
        cases edit "priority" (fun p => .str p.value) agg.priority (priority.map cleanPriority)
          r₂.2 with
        | error e => simp
        | ok r₃ => cases h : r₃.2.isEmpty <;> simp [h]

theorem edit_eq_error {α : Type} [DecidableEq α] {key : String} {json : α → Json} {old : α}
    {supplied : Option (Except EventError α)} {changes : List (String × Json)}
    (h : edit key json old supplied changes = .error e) : supplied = some (.error e) := by
  revert h
  fun_cases edit key json old supplied changes <;> rintro ⟨⟩
  rfl

theorem edit_eq_ok {α : Type} [DecidableEq α] {key : String} {json : α → Json} {old new : α}
    {supplied : Option (Except EventError α)} {changes changes' : List (String × Json)}
    (h : edit key json old supplied changes = .ok (new, changes')) :
    new = old ∧ changes' = changes ∨ changes' ≠ [] ∧ supplied = some (.ok new) ∧ new ≠ old := by
  revert h
  fun_cases edit key json old supplied changes <;> rintro ⟨⟩
  · exact .inl ⟨rfl, rfl⟩
  next hne => exact .inr ⟨by simp, rfl, hne⟩
  · exact .inl ⟨rfl, rfl⟩

theorem cleanTitle_eq_ok {new : String} {text : Option String} (h : cleanTitle text = .ok new) :
    ∃ title, text = some title ∧ new = strip title ∧ strip title ≠ "" ∧
      (strip title).length ≤ maxTitle := by
  revert h
  fun_cases cleanTitle text <;> intro h <;> try cases h
  next title cleaned hne hlen => exact ⟨title, rfl, (Except.ok.inj h).symm, hne, not_lt.1 hlen⟩

theorem cleanDescription_eq_error {text : Option String} (h : cleanDescription text = .error e) :
    ∃ description, text = some description ∧ maxDescription < (strip description).length := by
  revert h
  fun_cases cleanDescription text <;> rintro ⟨⟩
  next description cleaned hne hlen => exact ⟨description, rfl, hlen⟩

/-- A rejected title leaves the event alone, and so does an edit that changes nothing; a rejected
priority is no domain error. -/
theorem updateInPlace_fst (he : isDomain e)
    (h : (agg.updateInPlace actorId title description priority).2 = some e) :
    (agg.updateInPlace actorId title description priority).1 = agg ∨
      LeavesTitle agg (.update title description priority) := by
  revert h
  fun_cases updateInPlace agg actorId title description priority <;> try exact fun _ => .inl rfl
  next hstatus new changes htitle _ e' hdesc =>
    intro _
    obtain ⟨rfl, -⟩ | ⟨-, hnew, hne⟩ := edit_eq_ok htitle
    · exact .inl rfl
    · obtain ⟨text, rfl, hclean⟩ := Option.map_eq_some_iff.1 hnew
      obtain ⟨title, rfl, rfl, hfull, hlen⟩ := cleanTitle_eq_ok hclean
      obtain ⟨text, rfl, hbad⟩ := Option.map_eq_some_iff.1 (edit_eq_error hdesc)
      obtain ⟨description, rfl, hlong⟩ := cleanDescription_eq_error hbad
      exact .inr ⟨title, description, priority, rfl, hstatus, hfull, hlen, hne, hlong⟩
  next hprio =>
    rintro ⟨⟩
    obtain ⟨p, -, hp⟩ := Option.map_eq_some_iff.1 (edit_eq_error hprio)
    cases p <;> cases hp
    exact he.elim
  next htitle _ _ _ hdesc _ _ _ hprio _ hempty =>
    -- no change was noted, so that no field was assigned
    intro _
    have hnil := List.isEmpty_iff.1 hempty
    obtain ⟨rfl, rfl⟩ := (edit_eq_ok hprio).resolve_right fun h => h.1 hnil
    obtain ⟨rfl, rfl⟩ := (edit_eq_ok hdesc).resolve_right fun h => h.1 hnil
    obtain ⟨rfl, -⟩ := (edit_eq_ok htitle).resolve_right fun h => h.1 hnil
    exact .inl rfl
  · exact nofun

theorem LeavesTitle.left {command : Command} (h : LeavesTitle agg command) (actorId : String) :
    ∃ e, (agg.applyInPlace actorId command).2 = some e ∧ isDomain e ∧
      (agg.applyInPlace actorId command).1.title ≠ agg.title := by
  obtain ⟨title, description, priority, rfl, hstatus, hne, hlen, hnew, hlong⟩ := h
  have htitle : cleanTitle (some title) = .ok (strip title) := by simp [cleanTitle, hne, hlen]
  obtain ⟨e, hdesc, he⟩ : ∃ e, cleanDescription (some description) = .error e ∧ isDomain e := by
    have hfull : strip description ≠ "" := by
      intro hempty
      simp [hempty] at hlong
    simp only [cleanDescription, hfull, if_false, gt_iff_lt, hlong, if_true]
    exact ⟨_, rfl, trivial⟩
  refine ⟨e, ?_, he, ?_⟩ <;>
    simp [applyInPlace, updateInPlace, hstatus, edit, htitle, hdesc, hnew]

/-- **A rejected command leaves the event exactly as it was**, an `update` that has assigned its
title when it rejects the description apart. -/
theorem rejected_unchanged_iff (agg : EventAggregate) (actorId : String) (command : Command) :
    (∀ e, (agg.applyInPlace actorId command).2 = some e → isDomain e →
        (agg.applyInPlace actorId command).1 = agg) ↔ ¬ LeavesTitle agg command := by
  constructor
  · intro hkeep hleaves
    obtain ⟨e, hraised, he, htitle⟩ := hleaves.left actorId
    exact htitle (congrArg EventAggregate.title (hkeep e hraised he))
  · intro hno e hraised he
    cases command with
    | update title description priority => exact (updateInPlace_fst he hraised).resolve_right hno
    | _ =>
      unfold applyInPlace at hraised ⊢
      dsimp only at hraised ⊢
      split at hraised
      · cases hraised
      · rfl

/-- A description that is too long, sent with a new title: the title stays changed. -/
theorem title_assigned_rejected :
    ∃ (agg : EventAggregate) (command : Command) (e : EventError),
      (agg.applyInPlace "u" command).2 = some e ∧ isDomain e ∧
        (agg.applyInPlace "u" command).1.title ≠ agg.title := by
  let long := String.ofList (List.replicate 20001 'x')
  refine ⟨⟨"e", "a", .low, .new, none, none, none, "manual", none, 1, []⟩,
    .update (some (some "b")) (some (some long)) none, LeavesTitle.left ?_ "u"⟩
  refine ⟨"b", long, none, rfl, by decide, by decide, by decide, by decide, ?_⟩
  have hstrip n : strip (.ofList (List.replicate n 'x')) = .ofList (List.replicate n 'x') := by
    simp [strip, isSpace]
  rw [hstrip, String.length_ofList, List.length_replicate]
  exact Nat.lt_succ_self _

end EventAggregate

end Events

end BbzPlatform
