import BbzPlatform.Events.Repository
import BbzPlatform.Lib.Raising
import Mathlib.Data.List.Chain

/-!
# The record of an event

An event is written down four times: as its row, as the chain of its status changes, as its
assignments and as its domain events.  The last three are driven by the domain events alone.

`View` is what a reader of the log knows: the fold of the payloads.  `Emits` says once what a
successful command does, namely queue one domain event whose payload accounts for the whole
difference between the two aggregates.  `Recorded` relates the four records; every committed
command keeps it.
-/

namespace BbzPlatform.Events

open Raising List

/-! ## The fold of the log -/

/-- What the payloads tell about an event. -/
structure View where
  title : Json
  description : Json
  priority : Json
  status : Json
  assignee : Json

def field (payload : List (String × Json)) (key : String) : Json :=
  (Json.get payload key).getD .null

/-- The new value of an editable field, if the changes name it. -/
def changed (changes : List (String × Json)) (key : String) (old : Json) : Json :=
  match Json.get changes key with
  | some (.obj change) => field change "to"
  | _ => old

namespace View

/-- Before the first domain event. -/
def empty : View := ⟨.null, .null, .null, .null, .null⟩

def apply (v : View) (event : DomainEventData) : View :=
  match event.type with
  | .eventCreated =>
    ⟨field event.payload "title", field event.payload "description",
      field event.payload "priority", .str EventStatus.new.value, .null⟩
  | .eventUpdated =>
    match field event.payload "changes" with
    | .obj changes => { v with
        title := changed changes "title" v.title
        description := changed changes "description" v.description
        priority := changed changes "priority" v.priority }
    | _ => v
  | .eventAccepted | .eventAcknowledged | .eventOpened | .eventArchived | .eventReactivated =>
    { v with status := field event.payload "to" }
  | .eventAssigned | .eventTakenOver => { v with assignee := field event.payload "to_user_id" }

end View

def fold (log : List LogRow) : View := log.foldl (fun v row => v.apply row.event) View.empty

theorem fold_append (log : List LogRow) (row : LogRow) :
    fold (log ++ [row]) = (fold log).apply row.event := by
  simp [fold]

/-- The stored row and an assignee, as the payloads would tell it. -/
def EventRow.view (row : EventRow) (assignee : Option String) : View :=
  ⟨.str row.title, .ofOption .str row.description, .str row.priority.value, .str row.status.value,
    .ofOption .str assignee⟩

/-- The aggregate, as the payloads would tell it. -/
def EventAggregate.view (agg : EventAggregate) : View :=
  ⟨.str agg.title, .ofOption .str agg.description, .str agg.priority.value, .str agg.status.value,
    .ofOption .str agg.assigneeId⟩

/-! ## What a command queues -/

/-- **What a successful command does**: it queues one domain event, and the event tells all. -/
structure Emits (agg agg' : EventAggregate) (event : DomainEventData) : Prop where
  pending : agg'.pending = agg.pending ++ [event]
  view : agg.view.apply event = agg'.view
  status : statusChange event.payload = none ∧ agg'.status = agg.status ∨
    statusChange event.payload = some (.str agg.status.value, .str agg'.status.value)
  owner : if event.type.handsOver then agg'.assigneeId ≠ none else agg'.assigneeId = agg.assigneeId

theorem get_cons (key : String) (value : Json) (xs : List (String × Json)) (k : String) :
    Json.get ((key, value) :: xs) k = if k = key then some value else Json.get xs k := by
  by_cases h : k = key
  · simp [Json.get, h]
  · have hb : (k == key) = false := beq_false_of_ne h
    simp [Json.get, lookup_cons, hb, h]

theorem get_append (xs : List (String × Json)) (key : String) (value : Json) (k : String) :
    Json.get (xs ++ [(key, value)]) k =
      (Json.get xs k).or (if k = key then some value else none) := by
  induction xs with
  | nil => rw [nil_append, get_cons]; rfl
  | cons x xs ih =>
    obtain ⟨l, w⟩ := x
    rw [cons_append, get_cons, get_cons, ih]
    split <;> simp

variable {key actorId : String} {agg agg' : EventAggregate} {s s' : Store} {type : EventType}
  {command : Command} {state : Store × ℕ}

/-- An edit adds at most its own key, and that tells the new value. -/
theorem edit_ok {α : Type} [DecidableEq α] {json : α → Json} {old new : α}
    {supplied : Option (Except EventError α)} {changes changes' : List (String × Json)}
    (h : EventAggregate.edit key json old supplied changes = .ok (new, changes'))
    (hkey : Json.get changes key = none) : changed changes' key (json old) = json new ∧
      ∀ k, k ≠ key → Json.get changes' k = Json.get changes k := by
  unfold EventAggregate.edit at h
  split at h
  · cases h
    exact ⟨by simp [changed, hkey], fun _ _ => rfl⟩
  · cases h
  · split at h
    · cases h
      refine ⟨?_, fun k hk => ?_⟩
      · rw [changed, get_append, hkey]
        simp [field, get_cons]
      · rw [get_append, if_neg hk, Option.or_none]
    · cases h
      exact ⟨by simp [changed, hkey], fun _ _ => rfl⟩

theorem changed_congr {xs ys : List (String × Json)}
    (h : Json.get xs key = Json.get ys key) (old : Json) :
    changed xs key old = changed ys key old := by
  rw [changed, h, changed]

/-- An edit of the fields. -/
theorem emits_update {title description : Option (Option String)}
    {priority : Option (Option EventPriority)}
    (h : agg.update actorId title description priority = .ok agg') :
    ∃ event, Emits agg agg' event := by
  obtain ⟨-, h⟩ := ite_eq_ok.mp h
  obtain ⟨⟨t, c₁⟩, ht, h⟩ := bind_eq_ok.mp h
  obtain ⟨⟨d, c₂⟩, hd, h⟩ := bind_eq_ok.mp h
  obtain ⟨⟨p, c₃⟩, hp, h⟩ := bind_eq_ok.mp h
  dsimp only at ht hd hp h
  obtain ⟨htitle, hrest₁⟩ := edit_ok ht rfl
  obtain ⟨hdescription, hrest₂⟩ := edit_ok hd (hrest₁ _ (by decide))
  obtain ⟨hpriority, hrest₃⟩ :=
    edit_ok hp ((hrest₂ _ (by decide)).trans (hrest₁ _ (by decide)))
  cases (ite_eq_ok.mp h).2
  refine ⟨_, rfl, ?_, .inl ⟨rfl, rfl⟩, rfl⟩
  -- each key is untouched by the later edits
  have ht' := changed_congr ((hrest₃ "title" (by decide)).trans (hrest₂ _ (by decide)))
    (.str agg.title)
  have hd' := changed_congr (hrest₃ "description" (by decide)) (.ofOption .str agg.description)
  simp only [View.apply, EventAggregate.view, EventAggregate.emit, field, Json.get,
    lookup_cons, beq_self_eq_true, Option.getD_some]
  rw [ht', htitle, hd', hdescription, hpriority]

def EventType.changesStatus : EventType → Bool
  | .eventAccepted | .eventAcknowledged | .eventOpened | .eventArchived | .eventReactivated => true
  | _ => false

/-- A change of status. -/
theorem emits_transition {target : EventStatus} {extra : List (String × Json)}
    (htype : type.changesStatus = true) (h : agg.transition target type actorId extra = .ok agg') :
    ∃ event, Emits agg agg' event := by
  unfold EventAggregate.transition at h
  split at h
  next hcan =>
    cases h
    have hne : agg.status.value ≠ target.value :=
      fun heq => canTransition_ne hcan (EventStatus.value_inj.mp heq)
    refine ⟨_, rfl, ?_, .inr ?_, ?_⟩
    · cases type <;> first | rfl | cases htype
    · simp [statusChange, get_cons, EventAggregate.emit, Json.eq, hne]
    · cases type <;> first | rfl | cases htype
  · cases h

/-- A change of the owner. -/
theorem emits_handOver (agg : EventAggregate) (userId actorId : String)
    (htype : type.handsOver = true) :
    ∃ event, Emits agg (agg.handOver type userId actorId) event := by
  refine ⟨_, rfl, ?_, .inl ⟨rfl, rfl⟩, ?_⟩
  · cases type <;> first | rfl | cases htype
  · rw [if_pos htype]
    exact Option.some_ne_none userId

/-- **Every successful command emits.** -/
theorem emits_apply (h : agg.apply actorId command = .ok agg') : ∃ event, Emits agg agg' event := by
  cases command with
  | update title description priority => exact emits_update h
  | accept | acknowledge => exact emits_transition rfl h
  | «open» => exact emits_transition rfl (ite_eq_ok.mp h).2
  | archive reason => exact emits_transition rfl h
  | reactivate reason =>
    obtain ⟨-, h⟩ := ite_eq_ok.mp h
    exact emits_transition rfl (ite_eq_ok.mp h).2
  | assign toUserId =>
    obtain ⟨-, h⟩ := ite_eq_ok.mp h
    cases (ite_eq_ok.mp h).2
    exact emits_handOver agg toUserId actorId rfl
  | takeOver newUserId =>
    obtain ⟨-, h⟩ := ite_eq_ok.mp h
    obtain ⟨-, h⟩ := ite_eq_ok.mp h
    cases (ite_eq_ok.mp h).2
    exact emits_handOver agg newUserId actorId rfl

/-! ## The four records -/

/-- The status history: from nothing to `new`, each row from where the last one led, and the last
one to the status. -/
structure HistoryChain (history : List HistoryRow) (status : EventStatus) : Prop where
  first : history.head?.map (fun row => (row.fromStatus, row.toStatus)) =
    some (.null, .str EventStatus.new.value)
  links : history.IsChain fun a b => b.fromStatus = a.toStatus
  last : history.getLast?.map HistoryRow.toStatus = some (.str status.value)

theorem HistoryChain.append {history : List HistoryRow} {status status' : EventStatus}
    (h : HistoryChain history status) (changedBy : Option String) :
    HistoryChain (history ++ [⟨.str status.value, .str status'.value, changedBy⟩]) status' := by
  obtain ⟨row, rest, rfl⟩ : ∃ row rest, history = row :: rest := by
    cases history with
    | nil => cases h.first
    | cons row rest => exact ⟨row, rest, rfl⟩
  refine ⟨h.first, isChain_append.mpr ⟨h.links, isChain_singleton _, ?_⟩, ?_⟩
  · intro a ha b hb
    have hlast := h.last
    rw [Option.mem_def.mp ha] at hlast
    cases hb
    exact (Option.some.inj hlast).symm
  · rw [getLast?_concat]
    rfl

/-- **The four records of an event agree.**  The log folds to the row and its owner, the history is
a chain to its status, the owner is the user of the only active assignment, and the version counts
the saves. -/
structure Recorded (s : Store) (row : EventRow) (saves : ℕ) : Prop where
  stored : s.event = some row
  folded : ∃ owner, fold s.log = row.view owner ∧
    (s.assignments.filter (·.active)).map AssignmentRow.userId = owner.toList
  history : HistoryChain s.history row.status
  version : row.version = 1 + saves

/-- What `save` writes for one domain event. -/
theorem persist_ok {event : DomainEventData} (h : Store.persist agg actorId s event = .ok s') :
    s'.event = s.event ∧ s'.log = s.log ++ [⟨event, some actorId⟩] ∧
      s'.history = (s.noteStatus event.payload actorId).history ∧
      if event.type.handsOver then ∃ userId, agg.assigneeId = some userId ∧
        s'.assignments = (s.assignments.map fun row => { row with active := false }) ++
          [⟨userId, actorId, true⟩]
      else s'.assignments = s.assignments := by
  have hnote : (s.noteStatus event.payload actorId).event = s.event ∧
      (s.noteStatus event.payload actorId).log = s.log ∧
      (s.noteStatus event.payload actorId).assignments = s.assignments := by
    unfold Store.noteStatus
    split <;> exact ⟨rfl, rfl, rfl⟩
  unfold Store.persist at h
  split at h
  · cases h
  next u hu =>
    cases h
    unfold Store.reconcileAssignment at hu
    split_ifs at hu with hover
    · rw [if_pos hover]
      split at hu
      · cases hu
      next userId huser =>
        cases hu
        refine ⟨hnote.1, ?_, rfl, userId, huser, ?_⟩
        · simp [Store.appendEvent, hnote.2.1]
        · simp [Store.appendEvent, hnote.2.2]
    · rw [if_neg hover]
      cases hu
      refine ⟨hnote.1, ?_, rfl, hnote.2.2⟩
      simp [Store.appendEvent, hnote.2.1]

theorem assignee_of_active {owner : Option String}
    (h : (s.assignments.filter (·.active)).map AssignmentRow.userId = owner.toList) :
    s.assignee = .ok owner := by
  unfold Store.assignee
  split
  next hnil =>
    rw [hnil] at h
    cases owner with
    | none => rfl
    | some user => cases h
  next row hone =>
    rw [hone] at h
    cases owner with
    | none => cases h
    | some user =>
      cases h
      rfl
  next hnil hone =>
    match hact : s.assignments.filter (·.active) with
    | [] => exact absurd hact hnil
    | [row] => exact absurd hact (hone row)
    | row :: row' :: rest =>
      rw [hact] at h
      cases owner <;> cases h

/-- **A save keeps the records together.** -/
theorem Recorded.save {row : EventRow} {saves : ℕ}
    {expectedVersion : ℤ} (h : Recorded s row saves) (hload : s.require = .ok agg)
    (happly : agg.apply actorId command = .ok agg')
    (hsave : s.save agg' actorId expectedVersion = .ok s') :
    ∃ row', Recorded s' row' (saves + 1) := by
  obtain ⟨owner, hfold, hactive⟩ := h.folded
  obtain ⟨event, hemits⟩ := emits_apply happly
  have hagg : agg = row.aggregate owner := by
    rw [Store.require, h.stored, assignee_of_active hactive] at hload
    exact (Except.ok.inj hload).symm
  have hpending : agg'.pending = [event] := by
    rw [hemits.pending, hagg]
    rfl
  have hview : agg.view = row.view owner := by rw [hagg]; rfl
  have hstatus : agg.status = row.status := by rw [hagg]; rfl
  have howner : agg.assigneeId = owner := by rw [hagg]; rfl
  rw [Store.save, h.stored] at hsave
  dsimp only at hsave
  split at hsave
  next hversion =>
    rw [hpending, foldlM_cons] at hsave
    obtain ⟨u, hu, hdone⟩ := bind_eq_ok.mp hsave
    cases hdone
    obtain ⟨hevent, hlog, hhistory, hassign⟩ := persist_ok hu
    refine ⟨_, hevent, ⟨agg'.assigneeId, ?_, ?_⟩, ?_, ?_⟩
    · rw [hlog, fold_append]
      dsimp only
      rw [hfold, ← hview, hemits.view]
      rfl
    · -- the owner changes exactly with the active assignment
      have hemitted := hemits.owner
      split_ifs at hassign with hover
      · obtain ⟨userId, huser, hrows⟩ := hassign
        rw [hrows, huser]
        simp
      · rw [if_neg hover] at hemitted
        rw [hassign, hemitted, howner]
        exact hactive
    · rw [hhistory]
      unfold Store.noteStatus
      rcases hemits.status with ⟨hnone, heq⟩ | hsome
      · rw [hnone]
        change HistoryChain s.history agg'.status
        rw [heq, hstatus]
        exact h.history
      · rw [hsome, hstatus]
        exact h.history.append _
    · change expectedVersion + 1 = 1 + ((saves + 1 : ℕ) : ℤ)
      have := h.version
      push_cast
      omega
  · cases hsave

theorem recorded_create {args : CreateArgs} {actorId : Option String}
    (hcreate : EventAggregate.create args actorId = .ok agg)
    (hadd : Store.empty.add agg actorId = .ok s) : ∃ row, Recorded s row 0 := by
  obtain ⟨title, -, hcreate⟩ := bind_eq_ok.mp hcreate
  obtain ⟨description, -, hcreate⟩ := bind_eq_ok.mp hcreate
  cases hcreate
  cases hadd
  exact ⟨_, rfl, ⟨none, rfl, rfl⟩, ⟨rfl, isChain_singleton _, rfl⟩, rfl⟩

/-! ## Runs -/

/-- A transaction on the event. -/
inductive Action where
  | create (args : CreateArgs) (actorId : Option String)
  | command (command : Command) (actorId : String) (expectedVersion : ℤ)

/-- Why a transaction is rolled back. -/
inductive Failure where
  | event (error : EventError)
  | repository (error : RepositoryError)
  | aborted

/-- A transaction, and whether something else makes it fail: a check of the database, of the
payload's schema, a lost connection. -/
structure Input where
  action : Action
  aborted : Bool

def transact (s : Store) : Action → Except Failure Store
  | .create args actorId =>
    match EventAggregate.create args actorId with
    | .error e => .error (.event e)
    | .ok agg => (s.add agg actorId).mapError .repository
  | .command command actorId expectedVersion =>
    match s.require with
    | .error e => .error (.repository e)
    | .ok agg =>
      match agg.apply actorId command with
      | .error e => .error (.event e)
      | .ok agg => (s.save agg actorId expectedVersion).mapError .repository

def Action.saves : Action → ℕ
  | .create _ _ => 0
  | .command _ _ _ => 1

/-- Commit or roll back, and count the successful saves. -/
def step (state : Store × ℕ) (input : Input) : Store × ℕ :=
  if input.aborted then state
  else
    match transact state.1 input.action with
    | .error _ => state
    | .ok s => (s, state.2 + input.action.saves)

/-- One transaction after another. -/
def run (inputs : List Input) : Store × ℕ := inputs.foldl step (Store.empty, 0)

/-- Nothing is stored, or everything is recorded. -/
def Consistent (state : Store × ℕ) : Prop :=
  state = (Store.empty, 0) ∨ ∃ row, Recorded state.1 row state.2

theorem mapError_ok {ε ε' α : Type} {f : ε → ε'} {x : Except ε α} {a : α}
    (h : x.mapError f = .ok a) : x = .ok a := by
  cases x with
  | error e => cases h
  | ok b =>
    cases h
    rfl

/-- **Every transaction keeps the records together.** -/
theorem consistent_step (h : Consistent state) (input : Input) : Consistent (step state input) := by
  unfold step
  split
  · exact h
  · split
    · exact h
    next s htransact =>
      right
      cases haction : input.action with
      | create args actorId =>
        rw [haction, transact] at htransact
        split at htransact
        · cases htransact
        next agg hcreate =>
          have hadd := mapError_ok htransact
          rcases h with rfl | ⟨row, hrow⟩
          · exact recorded_create hcreate hadd
          · rw [Store.add, hrow.stored] at hadd
            cases hadd
      | command command actorId expectedVersion =>
        rw [haction, transact] at htransact
        split at htransact
        · cases htransact
        next agg hload =>
          split at htransact
          · cases htransact
          next agg' happly =>
            have hsave := mapError_ok htransact
            rcases h with rfl | ⟨row, hrow⟩
            · cases hload
            · exact hrow.save hload happly hsave

theorem consistent_foldl (h : Consistent state) (inputs : List Input) :
    Consistent (inputs.foldl step state) := by
  induction inputs generalizing state with
  | nil => exact h
  | cons input inputs ih => exact ih (consistent_step h input)

/-- **Event log, history, assignments and row agree.**  After any transactions, an event that is
stored is recorded four times alike: the payloads fold to its title, description, priority, status
and owner, the status history is a chain to its status, the only active assignment is its owner's,
and its version is one more than the number of successful saves. -/
theorem run_recorded (inputs : List Input) (row : EventRow)
    (hrow : (run inputs).1.event = some row) : Recorded (run inputs).1 row (run inputs).2 := by
  rcases consistent_foldl (.inl rfl) inputs with hempty | ⟨row', hrecorded⟩
  · rw [run, hempty] at hrow
    cases hrow
  · have heq : row' = row := Option.some.inj (hrecorded.stored.symm.trans hrow)
    subst heq
    exact hrecorded

/-- The arguments of an event. -/
def alarmArgs : CreateArgs := ⟨"e1", " Alarm ", .high, none, none, none, "manual"⟩

/-- An event that is created, assigned and accepted, with a stale save in between. -/
def alarmInputs : List Input :=
  [⟨.create alarmArgs (some "anna"), false⟩, ⟨.command (.assign "ben") "anna" 1, false⟩,
    ⟨.command .accept "ben" 1, false⟩, ⟨.command .accept "ben" 2, false⟩]

theorem alarm_recorded : ∃ row, (run alarmInputs).1.event = some row ∧ row.version = 3 ∧
    Recorded (run alarmInputs).1 row 2 := by
  obtain ⟨row, hrow, hversion, hsaves⟩ : ∃ row, (run alarmInputs).1.event = some row ∧
      row.version = 3 ∧ (run alarmInputs).2 = 2 := ⟨_, rfl, rfl, rfl⟩
  exact ⟨row, hrow, hversion, hsaves ▸ run_recorded alarmInputs row hrow⟩

end BbzPlatform.Events
