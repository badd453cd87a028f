import BbzPlatform.Triggers.Runs

/-!
# What an action has to do with the last event

Some actions take the event that an earlier action of the run has made.  Others pass it on, and
others end its use.  Whether a run depends on the last event it starts with can be read off its
actions.
-/

namespace BbzPlatform.Triggers

open Raising List

variable {env : Surroundings} {signal : Fields} {task : Task} {tasks before rest : List Task}
  {action result result' : Fields} {results results' : List Fields} {c c' : Config}
  {a b a' b' db db' : Db} {key : ExecutionKey} {actionType : String}
  {status status' : ExecutionStatus} {made : Made} {last : Option String}

/-- An action takes the last event, passes it on, or ends its use: it names an event of its own, or
it raises. -/
inductive Bond where
  | takes
  | passes
  | ends
  deriving DecidableEq

variable (env signal)

/-- The bond of `attach_workflow`: whether it has an event of its own, if the workflow can be
started at all. -/
def attachBond (action : Fields) : Bond :=
  if !(orNull action "template_key").truthy then .passes
  else
    match asUuid env (orNull action "event_id"),
        env.published (str env (orNull action "template_key")) with
    | .ok none, .ok _ => .takes
    | .ok (some _), .ok _ => .ends
    | _, _ => .passes

/-- The bond of the other actions, of which a malformed one does nothing. -/
def atomicBond (task : Task) : Bond :=
  match dispatch env task.key signal task.action none with
  | .error (.malformed _) => .passes
  | .error (.escaped _) => .ends
  | .ok _ =>
    match ActionType.ofText (task.typeText env) with
    | some .openCamera | some .openCameraGroup | some .integrationAction => .takes
    | some .createEvent => .ends
    | _ => .passes

def Task.bond (task : Task) : Bond :=
  if task.typeText env = "attach_workflow" then attachBond env task.action
  else atomicBond env signal task

/-- The next action is the first of its version, which has no last event. -/
def startsVersion : List Task → Bool
  | next :: _ => next.key.index = 0
  | [] => false

/-- The actions do without the last event of the actions before them. -/
def independent : List Task → Bool
  | [] => true
  | task :: rest =>
    match task.bond env signal with
    | .takes => false
    | .ends => true
    | .passes => startsVersion rest || independent rest

variable {env signal}

def withEvent (payload : Fields) (last : Option String) : Fields :=
  payload ++ last.toList.map fun id => ("event_id", .str id)

theorem integrationAction_cases (env : Surroundings) (key : ExecutionKey) (action : Fields)
    (type : ActionType) :
    (∃ fault, ∀ last, integrationAction env key action last type = .error fault) ∨
      ∃ payload, ∀ last, integrationAction env key action last type
        = .ok ⟨.outbox type (withEvent payload last), withEvent payload last⟩ := by
  unfold integrationAction
  cases integrationPayload env action type with
  | error fault => exact .inl ⟨fault, fun _ => rfl⟩
  | ok payload =>
    cases asUuid env (orNull action "workplace_id") with
    | error fault => exact .inl ⟨fault, fun _ => rfl⟩
    | ok workplaceId => exact .inr ⟨_, fun _ => rfl⟩

/-! ### The events that results name -/

theorem eventIdOf_apply (db : Db) (made : Made) :
    eventIdOf (db.apply key made).2 = eventIdOf made.result := by
  unfold Db.apply
  cases made.effect <;> rfl

theorem newEvent_eventId {args : Events.CreateArgs} (hid : args.eventId ≠ "")
    (h : newEvent env args = .ok made) : eventIdOf made.result = some args.eventId := by
  unfold newEvent at h
  split at h
  · cases h
  · cases h
    exact if_neg hid

theorem createEvent_eventId (h : createEvent env key signal action = .ok made) :
    eventIdOf made.result = some (env.freshId key) := by
  unfold createEvent at h
  split at h
  · cases h
  · obtain ⟨bbzId, -, h⟩ := bind_eq_ok.mp h
    obtain ⟨workplaceId, -, h⟩ := bind_eq_ok.mp h
    split at h
    · exact newEvent_eventId (env.freshId_ne key) h
    · exact newEvent_eventId (env.freshId_ne key) h
    · split at h <;> cases h

theorem showClientPopup_eventId (h : showClientPopup env key signal action = .ok made) :
    eventIdOf made.result = none := by
  revert h
  fun_cases showClientPopup env key signal action <;> intro h <;> try cases h
  obtain ⟨ttl, -, h⟩ := bind_eq_ok.mp h
  obtain ⟨-, h⟩ := ite_eq_ok.mp h
  obtain ⟨payload, -, h⟩ := bind_eq_ok.mp h
  obtain ⟨filled, -, h⟩ := bind_eq_ok.mp h
  obtain ⟨-, ⟨⟩⟩ := ite_eq_ok.mp h
  rfl

theorem notify_eventId (h : notify signal action = .ok made) : eventIdOf made.result = none := by
  unfold notify at h
  split at h
  · cases h
    rfl
  · cases h

theorem callAction_eventId {type : ActionType} (h : callAction env signal action type = .ok made) :
    eventIdOf made.result = none := by
  unfold callAction at h
  obtain ⟨callId, -, h⟩ := bind_eq_ok.mp h
  split_ifs at h
  · cases h
    rfl
  · cases h
    rfl

/-- What an action does with the last event. -/
inductive Bound (env : Surroundings) (signal : Fields) (task : Task) : Bond → Prop
  | refused (h : ∀ db last, ∃ m, attempt env signal task db last = .error (.malformed m)) :
      Bound env signal task .passes
  | silent (made : Made) (hresult : eventIdOf made.result = none)
      (h : ∀ db last, attempt env signal task db last
        = .ok (db.succeed task.key (task.typeText env) made)) : Bound env signal task .passes
  | ends (h : ∀ db last last', attempt env signal task db last = attempt env signal task db last')
      (hmade : ∀ db last made, attempt env signal task db last = .ok made →
        eventIdOf made.2 ≠ none)
      (hfits : ∀ db last m, attempt env signal task db last ≠ .error (.malformed m)) :
      Bound env signal task .ends
  | attaches (htype : task.typeText env = "attach_workflow")
      (hnone : ∀ db, ∃ m, attempt env signal task db none = .error (.malformed m))
      (hsome : ∀ db id m, attempt env signal task db (some id) ≠ .error (.malformed m)) :
      Bound env signal task .takes
  | enqueues (type : ActionType) (payload : Fields)
      (h : ∀ db last, attempt env signal task db last
        = .ok (db.succeed task.key (task.typeText env)
          ⟨.outbox type (withEvent payload last), withEvent payload last⟩)) :
      Bound env signal task .takes

section Atomic

variable {kind : ActionType} (htype : task.typeText env ≠ "attach_workflow")
  (hkind : ActionType.ofText (task.typeText env) = some kind)
include htype

/-- A handler that fails does so whatever the last event is. -/
theorem Bound.of_error {fault : Fault}
    (h : ∀ last, dispatch env task.key signal task.action last = .error fault) :
    Bound env signal task (atomicBond env signal task) := by
  have hattempt : ∀ db last, attempt env signal task db last = .error fault := fun db last => by
    rw [attempt_atomic htype, h]
    rfl
  rw [atomicBond, h none]
  cases fault with
  | malformed m => exact .refused fun db last => ⟨m, hattempt db last⟩
  | escaped e => exact .ends (by simp [hattempt]) (by simp [hattempt]) (by simp [hattempt])

include hkind

/-- A handler that does not get the last event. -/
theorem Bound.of_constant {x : Except Fault Made}
    (h : ∀ last, dispatch env task.key signal task.action last = x) (hok : ∀ made, x = .ok made →
      (kind = .createEvent ∧ eventIdOf made.result ≠ none) ∨
      (kind ∉ [.openCamera, .openCameraGroup, .integrationAction, .createEvent] ∧
        eventIdOf made.result = none)) : Bound env signal task (atomicBond env signal task) := by
  cases x with
  | error fault => exact .of_error htype h
  | ok made =>
    have hattempt : ∀ db last, attempt env signal task db last
        = .ok (db.succeed task.key (task.typeText env) made) := fun db last => by
      rw [attempt_atomic htype, h]
      rfl
    rw [atomicBond, h none, hkind]
    rcases hok made rfl with ⟨rfl, hid⟩ | ⟨hother, hid⟩
    · refine .ends (by simp [hattempt]) (fun db last _ hmade => ?_) (by simp [hattempt])
      rw [hattempt] at hmade
      cases hmade
      rwa [Db.succeed, eventIdOf_apply]
    · cases kind <;> first | exact .silent made hid hattempt | exact absurd (by decide) hother

theorem Bound.of_integration (hmem : kind ∈ [.openCamera, .openCameraGroup, .integrationAction])
    (h : ∀ last, dispatch env task.key signal task.action last
      = integrationAction env task.key task.action last kind) :
    Bound env signal task (atomicBond env signal task) := by
  rcases integrationAction_cases env task.key task.action kind with ⟨fault, hfault⟩ |
    ⟨payload, hpayload⟩
  · exact .of_error htype fun last => (h last).trans (hfault last)
  · have hbond : atomicBond env signal task = .takes := by
      rw [atomicBond, h none, hpayload none, hkind]
      cases kind <;> first | rfl | exact absurd hmem (by decide)
    rw [hbond]
    refine .enqueues kind payload fun db last => ?_
    rw [attempt_atomic htype, h, hpayload]
    rfl

end Atomic

theorem Bound.of_atomic (htype : task.typeText env ≠ "attach_workflow") :
    Bound env signal task (atomicBond env signal task) := by
  cases hkind : ActionType.ofText (task.typeText env) with
  | none => exact .of_error htype fun _ => by rw [dispatch, ← Task.typeText, hkind]
  | some kind =>
    cases kind with
    | attachWorkflow => exact absurd (value_of_ofText hkind).symm htype
    | launchCatalogApp => exact .of_error htype fun _ => by rw [dispatch, ← Task.typeText, hkind]
    | createEvent =>
      refine .of_constant htype hkind (fun _ => by rw [dispatch, ← Task.typeText, hkind])
        fun made hmade => .inl ⟨rfl, ?_⟩
      rw [createEvent_eventId hmade]
      exact Option.some_ne_none _
    | showClientPopup =>
      refine .of_constant htype hkind (fun _ => by rw [dispatch, ← Task.typeText, hkind])
        fun made hmade => .inr ⟨by decide, showClientPopup_eventId hmade⟩
    | notify =>
      refine .of_constant htype hkind (fun _ => by rw [dispatch, ← Task.typeText, hkind])
        fun made hmade => .inr ⟨by decide, notify_eventId hmade⟩
    | answerCall | sendDtmfProfile | hangupCall =>
      refine .of_constant htype hkind (fun _ => by rw [dispatch, ← Task.typeText, hkind])
        fun made hmade => .inr ⟨by decide, callAction_eventId hmade⟩
    | openCamera | openCameraGroup | integrationAction =>
      exact .of_integration htype hkind (by decide) fun _ => by
        rw [dispatch, ← Task.typeText, hkind]

theorem asUuid_ne {v : Json} {id : String} (h : asUuid env v = .ok (some id)) : id ≠ "" := by
  revert h
  fun_cases asUuid env v <;> rintro ⟨⟩
  next huuid => exact env.uuid_ne _ _ huuid

section Attach

variable (htype : task.typeText env = "attach_workflow")
include htype

/-- An `attach_workflow` without an event of its own or of the run, or without a version, is
refused. -/
theorem attempt_refused (h : (∃ m, attachTarget env task.action last = .error (.malformed m)) ∨
      ∃ id templateKey m, attachTarget env task.action last = .ok (id, templateKey) ∧
        env.published templateKey = .error m) :
    ∃ m, attempt env signal task db last = .error (.malformed m) := by
  rw [attempt_attach htype]
  rcases h with ⟨m, htarget⟩ | ⟨id, templateKey, m, htarget, hpublished⟩
  · exact ⟨m, by rw [attachWorkflow, htarget]; rfl⟩
  · exact ⟨m, by simp only [attachWorkflow, htarget, startForEvent, hpublished]; rfl⟩

/-- A workflow with a published version is started, or its start raises. -/
theorem attempt_published {id templateKey : String} {version : TemplateVersion}
    (htarget : attachTarget env task.action last = .ok (id, templateKey))
    (hpublished : env.published templateKey = .ok version) :
    (∀ made, attempt env signal task db last = .ok made →
        Json.get made.2 "event_id" = some (.str id)) ∧
      ∀ m, attempt env signal task db last ≠ .error (.malformed m) := by
  rw [attempt_attach htype, attachWorkflow, htarget]
  dsimp only
  cases hstart : startForEvent env (db.claim task.key) task.key id templateKey with
  | ok started =>
    refine ⟨fun made hmade => ?_, fun m h => ?_⟩
    · cases hmade
      rfl
    · cases h
  | error fault =>
    cases fault with
    | escaped e => refine ⟨fun made h => ?_, fun m h => ?_⟩ <;> cases h
    | malformed message =>
      simp only [startForEvent, hpublished] at hstart
      split at hstart
      · cases hstart
      · split at hstart <;> cases hstart

theorem Bound.of_attach : Bound env signal task (attachBond env task.action) := by
  unfold attachBond
  cases htemplate : (orNull task.action "template_key").truthy with
  | false =>
    refine .refused fun db last => attempt_refused htype
      (.inl ⟨"attach_workflow requires template_key", ?_⟩)
    rw [attachTarget, htemplate]
    rfl
  | true =>
    rcases asUuid_cases env (orNull task.action "event_id") with ⟨-, h⟩ | ⟨-, -, id, h⟩ |
      ⟨-, m, h⟩ <;> rw [h]
    · have hnone : ∃ m, attachTarget env task.action none = .error (.malformed m) := by
        rw [attachTarget, htemplate, h]
        exact ⟨_, rfl⟩
      have hsome : ∀ id, attachTarget env task.action (some id) = .ok (id, _) := fun id => by
        rw [attachTarget, htemplate, h]
        rfl
      cases hpublished : env.published (str env (orNull task.action "template_key")) with
      | error m =>
        refine .refused fun db last => attempt_refused htype ?_
        cases last with
        | none => exact .inl hnone
        | some id => exact .inr ⟨id, _, m, hsome id, hpublished⟩
      | ok version =>
        exact .attaches htype (fun db => attempt_refused htype (.inl hnone)) fun db id =>
          (attempt_published htype (hsome id) hpublished).2
    · have htarget : ∀ last, attachTarget env task.action last = .ok (id, _) := fun last => by
        rw [attachTarget, htemplate, h]
        rfl
      cases hpublished : env.published (str env (orNull task.action "template_key")) with
      | error m =>
        exact .refused fun db last =>
          attempt_refused htype (.inr ⟨id, _, m, htarget last, hpublished⟩)
      | ok version =>
        refine .ends (fun db last last' => ?_) (fun db last made hmade => ?_) fun db last =>
          (attempt_published htype (htarget last) hpublished).2
        · rw [attempt_attach htype, attempt_attach htype, attachWorkflow, attachWorkflow, htarget,
            htarget]
        · have hid := (attempt_published htype (htarget last) hpublished).1 made hmade
          rw [eventIdOf, hid]
          exact ne_of_eq_of_ne (if_neg (asUuid_ne h)) (Option.some_ne_none id)
    · refine .refused fun db last => attempt_refused htype (.inl ⟨m, ?_⟩)
      rw [attachTarget, htemplate, h]
      rfl

end Attach

theorem bound {bond : Bond} (h : task.bond env signal = bond) : Bound env signal task bond := by
  rw [← h, Task.bond]
  split
  · exact .of_attach ‹_›
  · exact .of_atomic ‹_›

/-! ## Runs with and without the last event -/

theorem statuses_of_ledger (h : db'.ledger = db.ledger ++ [⟨key, status, result⟩]) :
    db'.statuses = db.statuses ++ [(key, status)] := by
  simp [Db.statuses, h]

theorem outbox_succeed (h : ∀ row ∈ db.outbox, row.key ≠ key) (actionType : String)
    (type : ActionType) (payload result : Fields) :
    (db.succeed key actionType ⟨.outbox type payload, result⟩).1.outbox
      = db.outbox ++ [⟨key, type, payload⟩] := by
  have hfree : (db.outbox.any (·.key = key)) = false := by
    simpa using h
  simp [Db.succeed, Db.finish, Db.audit, Db.claim, Db.apply, Db.enqueue, hfree]

/-- Two databases of one size that differ in the ledger or in the outbox, whatever is added. -/
def Apart (a b : Db) : Prop :=
  (a.statuses.length = b.statuses.length ∧ a.statuses ≠ b.statuses) ∨
    (a.outbox.length = b.outbox.length ∧ a.outbox ≠ b.outbox)

theorem Apart.not_same (h : Apart a b) (ha : Begins a a') (hb : Begins b b') : ¬ Same a' b' := by
  intro hsame
  rcases h with ⟨hlength, hne⟩ | ⟨hlength, hne⟩
  · exact hne ((prefix_of_prefix_length_le (hsame.statuses ▸ ha.1) hb.1 hlength.le).eq_of_length
      hlength)
  · exact hne ((prefix_of_prefix_length_le (hsame.outbox ▸ ha.2) hb.2 hlength.le).eq_of_length
      hlength)

theorem Apart.of_statuses (h : Same a b) (ha : a'.statuses = a.statuses ++ [(key, status)])
    (hb : b'.statuses = b.statuses ++ [(key, status')]) (hne : status ≠ status') : Apart a' b' := by
  rw [← h.statuses] at hb
  refine .inl ⟨by rw [ha, hb]; simp, fun heq => hne ?_⟩
  rw [ha, hb] at heq
  simpa using append_cancel_left heq

/-- **An action that takes the last event shows whether there was one.** -/
theorem runTask_takes (hbond : task.bond env signal = .takes) (hsame : Same a b)
    (hkey : task.key ∉ a.keys) (hfree : ∀ row ∈ a.outbox, row.key ≠ task.key)
    (hlast : lastEventId results ≠ none) (hlast' : lastEventId results' = none) :
    Apart (runTask env signal task results a .claim).db
      (runTask env signal task results' b .claim).db := by
  have hkey' : task.key ∉ b.keys := hsame.keys ▸ hkey
  obtain ⟨last, hlast⟩ := Option.ne_none_iff_exists'.mp hlast
  rw [runTask_fresh hkey, runTask_fresh hkey', hlast, hlast']
  cases bound hbond with
  | attaches htype hnone hsome =>
    obtain ⟨m, hm⟩ := hnone b
    rw [hm]
    cases hmade : attempt env signal task a (some last) with
    | ok made =>
      exact .of_statuses hsame (statuses_of_ledger (attempt_ledger hkey hmade))
        (statuses_of_ledger (ledger_recordFailure hkey')) (by decide)
    | error fault =>
      cases fault with
      | malformed m => exact absurd hmade (hsome a last m)
      | escaped e =>
        rw [attemptEnd, attemptEnd, if_pos htype]
        exact .of_statuses hsame (statuses_of_ledger rfl)
          (statuses_of_ledger (ledger_recordFailure hkey')) (by decide)
  | enqueues type payload h =>
    rw [h, h]
    right
    rw [attemptEnd, attemptEnd, TaskEnd.db, TaskEnd.db, outbox_succeed hfree,
      outbox_succeed (hsame.outbox ▸ hfree), hsame.outbox]
    refine ⟨by simp, fun heq => ?_⟩
    have hpayload : withEvent payload (some last) = withEvent payload none := by
      simpa using append_cancel_left heq
    simp [withEvent] at hpayload

theorem run_cons_begins : Begins (runTask env signal task results db .claim).db
    (run env signal (task :: rest) results db .claim).db := by
  rw [run]
  cases runTask env signal task results db .claim with
  | escaped db' e => exact ⟨prefix_rfl, prefix_rfl⟩
  | done db' results' => exact run_begins

theorem carry_of_startsVersion (h : startsVersion rest = true) (results : List Fields) :
    carry rest results = [] := by
  cases rest with
  | nil => cases h
  | cons next rest => exact if_pos (of_decide_eq_true h)

theorem carry_of_not_startsVersion (h : startsVersion rest = false) (results : List Fields) :
    carry rest results = results := by
  cases rest with
  | nil => rfl
  | cons next rest => exact if_neg (of_decide_eq_false h)

/-- **A run does without the last event exactly if its actions are independent of it.** -/
theorem run_same_iff (hfresh : Fresh tasks a) (hsame : Same a b)
    (hlast : lastEventId results ≠ none) (hlast' : lastEventId results' = none) :
    Same (run env signal tasks results a .claim).db (run env signal tasks results' b .claim).db ↔
      independent env signal tasks = true := by
  induction tasks generalizing results results' a b with
  | nil => exact ⟨fun _ => rfl, fun _ => hsame⟩
  | cons task rest ih =>
    have hkey := hfresh.head
    rw [independent]
    cases hbond : task.bond env signal with
    | takes =>
      have hapart := runTask_takes hbond hsame hkey
        (hfresh.outbox task mem_cons_self) hlast hlast'
      exact ⟨fun h => absurd h (hapart.not_same run_cons_begins run_cons_begins), nofun⟩
    | ends =>
      refine ⟨fun _ => rfl, fun _ => ?_⟩
      rw [run, run, runTask_fresh hkey, runTask_fresh (hsame.keys ▸ hkey)]
      cases bound hbond with
      | ends h hmade hfits =>
        rw [h b (lastEventId results') (lastEventId results)]
        rcases hsame.attempt with ⟨x, y, ha, hb, hxy, hnames⟩ | ⟨m, m', ha, -⟩ | ⟨e, ha, hb⟩
        · rw [ha, hb]
          refine run_same hxy (lastEventId_carry rest ?_)
          obtain ⟨id, hid⟩ := Option.ne_none_iff_exists'.mp (hmade _ _ _ ha)
          rw [lastEventId_concat, lastEventId_concat, ← hnames, hid]
          rfl
        · exact absurd ha (hfits _ _ _)
        · rw [ha, hb]
          exact hsame.escaped
    | passes =>
      have hgrows : Grows task.key a (runTask env signal task results a .claim).db :=
        runTask_grows
      -- the rest of the run, with and without the event
      have hrest : ∀ {a' b' : Db} {new new' : Fields}, Grows task.key a a' → Same a' b' →
          eventIdOf new = none → eventIdOf new' = none →
          (Same (run env signal rest (carry rest (results ++ [new])) a' .claim).db
              (run env signal rest (carry rest (results' ++ [new'])) b' .claim).db ↔
            (startsVersion rest || independent env signal rest) = true) := by
        intro a' b' new new' hgrows hsame' hnew hnew'
        cases hstarts : startsVersion rest with
        | true =>
          refine ⟨fun _ => rfl, fun _ => run_same hsame' ?_⟩
          rw [carry_of_startsVersion hstarts, carry_of_startsVersion hstarts]
        | false =>
          rw [Bool.false_or, carry_of_not_startsVersion hstarts, carry_of_not_startsVersion hstarts]
          refine ih (hfresh.tail hgrows) hsame' ?_ ?_
          · rwa [lastEventId_concat, hnew]
          · rwa [lastEventId_concat, hnew']
      rw [runTask_fresh hkey] at hgrows
      rw [run, run, runTask_fresh hkey, runTask_fresh (hsame.keys ▸ hkey)]
      cases bound hbond with
      | refused h =>
        obtain ⟨m, ha⟩ := h a (lastEventId results)
        obtain ⟨m', hb⟩ := h b (lastEventId results')
        rw [ha] at hgrows
        rw [ha, hb]
        exact hrest hgrows (hsame.failed m m') rfl rfl
      | silent made hresult h =>
        rw [h] at hgrows
        rw [h, h]
        exact hrest hgrows (hsame.succeed _ _ made).1 ((eventIdOf_apply ..).trans hresult)
          ((eventIdOf_apply ..).trans hresult)

end BbzPlatform.Triggers
