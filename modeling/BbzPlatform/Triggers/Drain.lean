import BbzPlatform.Triggers.Ledger
import BbzPlatform.Triggers.Selection

/-!
# Actions that stop the drain

The publish gate looks at some fields of an action; the handlers convert more of them.  A title that
is too long, a time to live that is no number, a payload that is no object: each raises an exception
that nothing catches, the action leaves no row in the ledger, and the inbox row is never processed.
-/

namespace BbzPlatform.Triggers

open Events List

/-! ## The condition -/

section Conditions

variable (env : Surroundings)

/-- `None` or the empty text. -/
def Blank (v : Json) : Prop := v = .null ∨ v = .str ""

/-- A value that is taken for a uuid and is none. -/
def BadUuid (v : Json) : Prop := ¬ Blank v ∧ env.uuid (str env v) = none

/-- The title and the description of an event are texts of the right length. -/
structure EventFits (signal action : Fields) : Prop where
  title : strip (eventTitle env signal action) ≠ ""
  length : (strip (eventTitle env signal action)).length ≤ maxTitle
  description : orNull action "description" = .null ∨
    ∃ text, orNull action "description" = .str text ∧
      (strip text).length ≤ maxDescription

/-- The signal comes from a door station whose id is no uuid, and the popup has no text. -/
def UnknownDoor (signal : Fields) (payload : Dict) : Prop :=
  orNull signal "signal_type" = .str "DOORBELL_RINGING" ∧ payload.hasText = false ∧
    (orNull (sourceOf signal) "technical_endpoint_id").truthy = true ∧
    BadUuid env (orNull (sourceOf signal) "technical_endpoint_id")

/-- A popup has a time to live that is a number and ends in time, a payload that is a dictionary
and, unless the door is unknown, a kind. -/
structure PopupFits (key : ExecutionKey) (signal action : Fields) : Prop where
  ttl : ∃ ttl, toInt env (getOr action "ttl_seconds" (.int 120)) = .ok ttl ∧
    minTime ≤ env.now key + ttl * 1000000 ∧ env.now key + ttl * 1000000 ≤ maxTime
  payload : ∃ payload, toDict (orElse action "payload" (.obj [])) = .ok payload ∧
    (str env (getOr action "kind" (.str "trigger")) ≠ "" ∨ UnknownDoor env signal payload)

/-- The workflow that an action starts raises nothing, or runs already. -/
def StartFits (db : Db) (task : Task) (last : Option String) : Prop :=
  ∀ eventId templateKey version e,
    attachTarget env task.action last = .ok (eventId, templateKey) →
    env.published templateKey = .ok version →
    env.start task.key version eventId = .error e →
    ∃ i ∈ db.instances, i.eventId = eventId ∧ i.versionId = version.id ∧ i.running = true

/-- An action raises nothing that is not caught: it is malformed, or it has what its handler
converts. -/
def Harmless (signal : Fields) (db : Db) (results : List Fields) (task : Task) : Prop :=
  let action := task.action
  match ActionType.ofText (task.typeText env) with
  | some .createEvent =>
    priorityOf (getOr action "priority" (.str "high")) = none ∨
      BadUuid env (orNull action "bbz_id") ∨ BadUuid env (orNull action "workplace_id") ∨
      EventFits env signal action
  | some .showClientPopup =>
    Blank (orNull action "workplace_id") ∨ BadUuid env (orNull action "workplace_id") ∨
      PopupFits env task.key signal action
  | some .notify => ∃ fields, orElse action "payload" (.obj []) = .obj fields
  | some .openCameraGroup =>
    ∃ items, iterate (orElse action "camera_refs" (.arr [])) = .ok items
  | some .integrationAction =>
    (orNull action "capability").truthy = false ∨
      ∃ params, toDict (orElse action "params" (.obj [])) = .ok params
  | some .attachWorkflow => StartFits env db task (lastEventId results)
  | _ => True

end Conditions

/-! ## Which handlers raise -/

def Escapes {α : Type} (x : Except Fault α) : Prop := ∃ e, x = .error (.escaped e)

variable {env : Surroundings} {key : ExecutionKey} {signal action source : Fields} {v : Json}
  {db db' : Db} {task : Task} {results results' : List Fields} {tasks : List Task}

section Escaping

variable {α β : Type}

@[simp] theorem not_escapes_ok (a : α) : ¬ Escapes (.ok a : Except Fault α) := by
  rintro ⟨e, h⟩
  cases h

@[simp] theorem not_escapes_malformed (message : String) :
    ¬ Escapes (.error (.malformed message) : Except Fault α) := by
  rintro ⟨e, h⟩
  cases h

@[simp] theorem escapes_escaped (e : Escape) : Escapes (.error (.escaped e) : Except Fault α) :=
  ⟨e, rfl⟩

theorem escapes_map {f : α → β} {x : Except Fault α} : Escapes (x.map f) ↔ Escapes x := by
  cases x <;> simp [Except.map, Escapes]

/-- A value of the wrong kind raises where it is converted. -/
theorem escapes_escaping_bind {x : Except Escape α} {f : α → Except Fault β} :
    Escapes (escaping x >>= f) ↔ ∀ a, x = .ok a → Escapes (f a) := by
  cases x with
  | error e => exact ⟨fun _ _ h => (by cases h), fun _ => escapes_escaped e⟩
  | ok a => exact ⟨fun h b hb => (by cases hb; exact h), fun h => h a rfl⟩

theorem asUuid_cases (env : Surroundings) (v : Json) : (Blank v ∧ asUuid env v = .ok none) ∨
      (¬ Blank v ∧ ¬ BadUuid env v ∧ ∃ id, asUuid env v = .ok (some id)) ∨
      (BadUuid env v ∧ ∃ message, asUuid env v = .error (.malformed message)) := by
  by_cases hblank : Blank v
  · exact .inl ⟨hblank, if_pos hblank⟩
  · have hnot : ¬ (v = .null ∨ v = .str "") := hblank
    cases huuid : env.uuid (str env v) with
    | some id =>
      exact .inr (.inl ⟨hblank, fun hbad => by simp [BadUuid, huuid] at hbad,
        id, by rw [asUuid, if_neg hnot, huuid]⟩)
    | none => exact .inr (.inr ⟨⟨hblank, huuid⟩, _, by rw [asUuid, if_neg hnot, huuid]⟩)

/-- A uuid that is none is a malformed action. -/
theorem escapes_asUuid_bind {f : Option String → Except Fault β} {P : Prop}
    (hf : ∀ id, Escapes (f id) ↔ P) : Escapes (asUuid env v >>= f) ↔ ¬ BadUuid env v ∧ P := by
  rcases asUuid_cases env v with ⟨hblank, h⟩ | ⟨-, hbad, id, h⟩ | ⟨hbad, message, h⟩
  · rw [h]
    exact ⟨fun he => ⟨fun hbad => hbad.1 hblank, (hf _).mp he⟩, fun he => (hf _).mpr he.2⟩
  · rw [h]
    exact ⟨fun he => ⟨hbad, (hf _).mp he⟩, fun he => (hf _).mpr he.2⟩
  · rw [h]
    exact ⟨fun he => absurd he (not_escapes_malformed message), fun he => absurd hbad he.1⟩

theorem cleanTitle_isOk (title : String) : (∃ cleaned, cleanTitle (some title) = .ok cleaned) ↔
      strip title ≠ "" ∧ (strip title).length ≤ maxTitle := by
  unfold cleanTitle
  by_cases hempty : strip title = ""
  · simp [hempty]
  · by_cases hlong : (strip title).length > maxTitle
    · simp [hempty, hlong]
    · simp [hempty, hlong, Nat.not_lt.mp hlong]

theorem cleanDescription_isOk (text : String) :
    (∃ cleaned, cleanDescription (some text) = .ok cleaned) ↔
      (strip text).length ≤ maxDescription := by
  unfold cleanDescription
  by_cases hempty : strip text = ""
  · simp [hempty]
  · by_cases hlong : (strip text).length > maxDescription
    · simp [hempty, hlong]
    · simp [hempty, hlong, Nat.not_lt.mp hlong]

theorem newEvent_escapes (args : CreateArgs) :
    Escapes (newEvent env args) ↔
      ¬ ((∃ cleaned, cleanTitle (some args.title) = .ok cleaned) ∧
        ∃ cleaned, cleanDescription args.description = .ok cleaned) := by
  unfold newEvent EventAggregate.create
  cases cleanTitle (some args.title) with
  | error e => simp [bind, Except.bind]
  | ok title =>
    cases cleanDescription args.description with
    | error e => simp [bind, Except.bind]
    | ok description => simp [bind, Except.bind, pure, Except.pure]

theorem createEvent_escapes :
    Escapes (createEvent env key signal action) ↔
      ¬ (priorityOf (getOr action "priority" (.str "high")) = none ∨
        BadUuid env (orNull action "bbz_id") ∨ BadUuid env (orNull action "workplace_id") ∨
        EventFits env signal action) := by
  unfold createEvent
  cases hpriority : priorityOf (getOr action "priority" (.str "high")) with
  | none => simp
  | some priority =>
    simp only [reduceCtorEq, false_or, not_or]
    refine escapes_asUuid_bind fun bbzId => escapes_asUuid_bind fun workplaceId => ?_
    have hfits : EventFits env signal action ↔ (_ ∧ _) ∧ _ :=
      ⟨fun h => ⟨⟨h.title, h.length⟩, h.description⟩, fun h => ⟨h.1.1, h.1.2, h.2⟩⟩
    rw [hfits, ← cleanTitle_isOk]
    cases hdescription : orNull action "description" with
    | null => simp [newEvent_escapes, cleanDescription]
    | str text => simp [newEvent_escapes, cleanDescription_isOk]
    | bool _ | int _ | float _ | arr _ | obj _ =>
      -- there is no way out: the title raises, or the description does
      cases cleanTitle (some (eventTitle env signal action)) <;>
        simp

theorem sourceDict_eq (h : sourceDict signal = .ok source) : source = sourceOf signal := by
  unfold sourceDict at h
  unfold sourceOf
  cases hsource : orNull signal "source" with
  | obj fields =>
    rw [hsource] at h
    exact (Except.ok.inj h).symm
  | null | bool _ | int _ | float _ | str _ | arr _ =>
    rw [hsource] at h
    simp only at h
    split at h
    · cases h
    · exact (Except.ok.inj h).symm

section

variable (hsource : sourceDict signal = .ok source)
include hsource

theorem fillDoorbellText_cases (payload : Dict) : (UnknownDoor env signal payload ∧
        ∃ message, fillDoorbellText env signal payload = .error (.malformed message)) ∨
      (¬ UnknownDoor env signal payload ∧
        ∃ filled, fillDoorbellText env signal payload = .ok filled) := by
  obtain rfl := sourceDict_eq hsource
  by_cases hskip : orNull signal "signal_type" ≠ .str "DOORBELL_RINGING" ∨ payload.hasText ∨
      !(orNull (sourceOf signal) "technical_endpoint_id").truthy
  · have hfill : fillDoorbellText env signal payload = .ok payload := by
      rw [fillDoorbellText, hsource]
      exact if_pos hskip
    refine .inr ⟨fun hdoor => ?_, payload, hfill⟩
    obtain ⟨htype, htext, hend, -⟩ := hdoor
    rcases hskip with h | h | h
    · exact h htype
    · rw [htext] at h
      cases h
    · rw [hend] at h
      cases h
  · obtain ⟨htype, htext, hend⟩ : orNull signal "signal_type" = .str "DOORBELL_RINGING" ∧
        payload.hasText = false ∧
        (orNull (sourceOf signal) "technical_endpoint_id").truthy = true := by
      simpa only [not_or, not_not, Bool.not_eq_true, Bool.not_eq_false'] using hskip
    rcases asUuid_cases env (orNull (sourceOf signal) "technical_endpoint_id") with
      ⟨hblank, h⟩ | ⟨-, hbad, id, h⟩ | ⟨hbad, message, h⟩
    · refine .inr ⟨fun hu => hu.2.2.2.1 hblank, payload, ?_⟩
      simp [fillDoorbellText, hsource, escaping, bind, Except.bind, h]
    · refine .inr ⟨fun hu => hbad hu.2.2.2, ?_⟩
      simp only [fillDoorbellText, hsource, escaping, bind, Except.bind, if_neg hskip, h]
      cases (some id).bind env.popupText with
      | none => exact ⟨payload, rfl⟩
      | some text => exact ⟨_, rfl⟩
    · refine .inl ⟨⟨htype, htext, hend, hbad⟩, message, ?_⟩
      simp only [fillDoorbellText, hsource, escaping, bind, Except.bind, if_neg hskip, h]

theorem escapes_fill_bind {payload : Dict} {f : Dict → Except Fault β} {P : Prop}
    (hf : ∀ filled, Escapes (f filled) ↔ P) :
    Escapes (fillDoorbellText env signal payload >>= f) ↔
      ¬ UnknownDoor env signal payload ∧ P := by
  rcases fillDoorbellText_cases hsource payload with ⟨hdoor, message, h⟩ | ⟨hdoor, filled, h⟩
  · rw [h]
    exact ⟨fun he => absurd he (not_escapes_malformed message), fun he => absurd hdoor he.1⟩
  · rw [h]
    exact ⟨fun he => ⟨hdoor, (hf filled).mp he⟩, fun he => (hf filled).mpr he.2⟩

theorem popupFor_escapes (workplaceId : String) :
    Escapes (popupFor env key signal action workplaceId) ↔ ¬ PopupFits env key signal action := by
  have hkind : ∀ (payload : Dict) (expiresAt : ℤ),
      Escapes (fillDoorbellText env signal payload >>= fun payload =>
        if str env (getOr action "kind" (.str "trigger")) = "" then
          .error (.escaped (.envelopeInvalid "CLIENT_POPUP_RAISED"))
        else .ok (⟨.popup ⟨env.freshId key, workplaceId,
            str env (getOr action "kind" (.str "trigger")), payload, expiresAt⟩,
          [("popup_id", .str (env.freshId key)), ("workplace_id", .str workplaceId)]⟩ : Made)) ↔
      ¬ UnknownDoor env signal payload ∧ str env (getOr action "kind" (.str "trigger")) = "" := by
    intro payload expiresAt
    refine escapes_fill_bind hsource fun filled => ?_
    by_cases hempty : str env (getOr action "kind" (.str "trigger")) = ""
    · simp [hempty]
    · simp [hempty]
  rw [popupFor, escapes_escaping_bind]
  constructor
  · rintro hraises ⟨⟨ttl, httl, hmin, hmax⟩, payload, hpayload, hfits⟩
    have hrest := hraises ttl httl
    rw [if_neg (by omega), escapes_escaping_bind] at hrest
    obtain ⟨hdoor, hempty⟩ := (hkind payload _).mp (hrest payload hpayload)
    exact hfits.elim (fun h => h hempty) hdoor
  · intro hfits ttl httl
    by_cases htime : env.now key + ttl * 1000000 < minTime ∨ maxTime < env.now key + ttl * 1000000
    · rw [if_pos htime]
      exact escapes_escaped _
    · rw [if_neg htime, escapes_escaping_bind]
      intro payload hpayload
      refine (hkind payload _).mpr ?_
      by_contra hnot
      refine hfits ⟨⟨ttl, httl, by omega, by omega⟩, payload, hpayload, ?_⟩
      tauto

theorem showClientPopup_escapes :
    Escapes (showClientPopup env key signal action) ↔
      ¬ (Blank (orNull action "workplace_id") ∨ BadUuid env (orNull action "workplace_id") ∨
        PopupFits env key signal action) := by
  rw [showClientPopup]
  rcases asUuid_cases env (orNull action "workplace_id") with
    ⟨hblank, h⟩ | ⟨hblank, hbad, id, h⟩ | ⟨hbad, message, h⟩
  · simp [h, hblank]
  · simp [h, hblank, hbad, popupFor_escapes hsource]
  · simp [h, hbad]

end

theorem notify_escapes :
    Escapes (notify signal action) ↔
      ¬ ∃ fields, orElse action "payload" (.obj []) = .obj fields := by
  rw [notify]
  cases orElse action "payload" (.obj []) with
  | obj fields => simp
  | _ => simp

theorem callAction_escapes (hsource : sourceDict signal = .ok source) (type : ActionType) :
    ¬ Escapes (callAction env signal action type) := by
  obtain ⟨callId, hcall⟩ : ∃ callId, callIdOf signal action = .ok callId := by
    rw [callIdOf, hsource]
    split
    · exact ⟨_, rfl⟩
    · exact ⟨_, rfl⟩
  rw [callAction, hcall]
  simp only [escaping, bind, Except.bind]
  split_ifs <;> simp

theorem escapes_bind_iff {x : Except Fault α} {f : α → Except Fault β}
    (hf : ∀ a, ¬ Escapes (f a)) : Escapes (x >>= f) ↔ Escapes x := by
  cases x with
  | ok a => simp [bind, Except.bind, hf a]
  | error fault => cases fault <;> simp [bind, Except.bind]

theorem integrationAction_escapes (last : Option String) (type : ActionType) :
    Escapes (integrationAction env key action last type) ↔
      Escapes (integrationPayload env action type) := by
  refine escapes_bind_iff fun payload => ?_
  rw [escapes_asUuid_bind (P := False) fun id => ⟨not_escapes_ok _, False.elim⟩]
  exact fun h => h.2

theorem openCamera_escapes : ¬ Escapes (integrationPayload env action .openCamera) := by
  rw [integrationPayload]
  split <;> simp

theorem openCameraGroup_escapes :
    Escapes (integrationPayload env action .openCameraGroup) ↔
      ¬ ∃ items, iterate (orElse action "camera_refs" (.arr [])) = .ok items := by
  rw [integrationPayload, escapes_escaping_bind]
  refine ⟨fun hraises hitems => ?_, fun hnone items hitems => absurd ⟨items, hitems⟩ hnone⟩
  obtain ⟨items, hitems⟩ := hitems
  have hrest := hraises items hitems
  dsimp only at hrest
  split at hrest <;> simp at hrest

theorem integration_escapes :
    Escapes (integrationPayload env action .integrationAction) ↔
      ¬ ((orNull action "capability").truthy = false ∨
        ∃ params, toDict (orElse action "params" (.obj [])) = .ok params) := by
  simp only [integrationPayload]
  split_ifs with hcapability
  · simp only [Bool.not_eq_true'] at hcapability
    simp [hcapability]
  · simp only [Bool.not_eq_true', Bool.not_eq_false] at hcapability
    rw [escapes_escaping_bind]
    simp [hcapability]

theorem startForEvent_escapes {eventId templateKey : String} :
    Escapes (startForEvent env db key eventId templateKey) ↔
      ∃ version e, env.published templateKey = .ok version ∧
        env.start key version eventId = .error e ∧ ¬ ∃ i ∈ db.instances,
          i.eventId = eventId ∧ i.versionId = version.id ∧ i.running = true := by
  rw [startForEvent]
  cases hpublished : env.published templateKey with
  | error message => simp
  | ok version =>
    dsimp only
    cases hrunning : db.instances.find? fun i =>
        decide (i.eventId = eventId ∧ i.versionId = version.id ∧ i.running = true) with
    | some i =>
      have hi := find?_some hrunning
      have hmem := mem_of_find?_eq_some hrunning
      simp only [decide_eq_true_eq] at hi
      refine ⟨fun h => absurd h (not_escapes_ok _), ?_⟩
      rintro ⟨_, e, heq, -, hnone⟩
      cases heq
      exact absurd ⟨i, hmem, hi⟩ hnone
    | none =>
      have hnone := find?_eq_none.mp hrunning
      simp only [decide_eq_true_eq] at hnone
      dsimp only
      cases hstart : env.start key version eventId with
      | error e =>
        refine ⟨fun _ => ⟨version, e, rfl, hstart, ?_⟩, fun _ => escapes_escaped _⟩
        rintro ⟨i, hmem, hi⟩
        exact hnone i hmem hi
      | ok running =>
        refine ⟨fun h => absurd h (not_escapes_ok _), ?_⟩
        rintro ⟨_, e, heq, hraises, -⟩
        cases heq
        rw [hstart] at hraises
        cases hraises

theorem attachTarget_escapes (last : Option String) : ¬ Escapes (attachTarget env action last) := by
  rw [attachTarget]
  split
  · simp
  · rcases asUuid_cases env (orNull action "event_id") with
      ⟨-, h⟩ | ⟨-, -, id, h⟩ | ⟨-, message, h⟩
    · cases last <;> simp [h]
    · simp [h]
    · simp [h]

theorem attachWorkflow_escapes {last : Option String} :
    Escapes (attachWorkflow env db task last) ↔ ¬ StartFits env db task last := by
  cases htarget : attachTarget env task.action last with
  | error fault =>
    have hnot : ¬ Escapes (attachTarget env task.action last) := attachTarget_escapes last
    rw [htarget] at hnot
    have hfits : StartFits env db task last := by
      intro eventId templateKey version e hok
      cases htarget.symm.trans hok
    simp only [attachWorkflow, htarget]
    cases fault <;> simp_all
  | ok target =>
    have hstart : Escapes (attachWorkflow env db task last) ↔
        Escapes (startForEvent env db task.key target.1 target.2) := by
      simp only [attachWorkflow, htarget]
      cases startForEvent env db task.key target.1 target.2 with
      | error fault => cases fault <;> simp
      | ok started => simp
    refine hstart.trans (startForEvent_escapes.trans ⟨?_, fun hfits => ?_⟩)
    · rintro ⟨version, e, hpublished, hraises, hnone⟩ hfits
      exact hnone (hfits target.1 target.2 version e htarget hpublished hraises)
    · by_contra hnot
      refine hfits fun eventId templateKey version e hok hpublished hraises => ?_
      rw [htarget] at hok
      cases hok
      by_contra hnone
      exact hnot ⟨version, e, hpublished, hraises, hnone⟩

theorem value_of_ofText {text : String} {type : ActionType}
    (h : ActionType.ofText text = some type) : type.value = text := by
  simpa using find?_some h

/-- **An action raises exactly if it is not harmless.** -/
theorem dispatch_escapes (hsource : sourceDict signal = .ok source)
    (htype : task.typeText env ≠ "attach_workflow") :
    Escapes (dispatch env task.key signal task.action (lastEventId results)) ↔
      ¬ Harmless env signal db results task := by
  rw [dispatch, Harmless, ← Task.typeText]
  cases hkind : ActionType.ofText (task.typeText env) with
  | none => simp
  | some kind =>
    cases kind with
    | attachWorkflow =>
      exact absurd (value_of_ofText hkind).symm htype
    | createEvent => exact createEvent_escapes
    | showClientPopup => exact showClientPopup_escapes hsource
    | notify => exact notify_escapes
    | answerCall | sendDtmfProfile | hangupCall =>
      simpa using callAction_escapes hsource _
    | openCamera => simpa [integrationAction_escapes] using openCamera_escapes
    | openCameraGroup => rw [integrationAction_escapes, openCameraGroup_escapes]
    | integrationAction => rw [integrationAction_escapes, integration_escapes]
    | launchCatalogApp => simp

end Escaping

/-! ## The drain -/

/-- A property of every action of a run, in the state in which the run reaches it. -/
def Along (env : Surroundings) (signal : Fields) (P : Db → List Fields → Task → Prop) :
    List Task → List Fields → Db → Prop
  | [], _, _ => True
  | task :: rest, results, db =>
    P db results task ∧ ∀ db' results',
      runTask env signal task results db .claim = .done db' results' →
      Along env signal P rest (carry rest results') db'

/-- An action is skipped, or it raises nothing that is not caught. -/
def Safe (env : Surroundings) (signal : Fields) (db : Db) (results : List Fields) (task : Task) :
    Prop :=
  task.key ∈ db.keys ∨ Harmless env signal db results task

theorem attemptEnd_done_iff {made : Except Fault (Db × Fields)} :
    (∃ db' results', attemptEnd env task results db made = .done db' results') ↔
      ¬ Escapes made := by
  cases made with
  | ok => simp [attemptEnd]
  | error fault => cases fault <;> simp [attemptEnd]

/-- **An action ends exactly if it is safe.** -/
theorem runTask_done_iff (hsource : sourceDict signal = .ok source) :
    (∃ db' results', runTask env signal task results db .claim = .done db' results') ↔
      Safe env signal db results task := by
  by_cases hclaimed : task.key ∈ db.keys
  · exact ⟨fun _ => .inl hclaimed, fun _ => ⟨_, _, runTask_claimed hclaimed⟩⟩
  · have hsafe : Safe env signal db results task ↔ Harmless env signal db results task :=
      or_iff_right hclaimed
    rw [hsafe, runTask_fresh hclaimed, attemptEnd_done_iff]
    by_cases htype : task.typeText env = "attach_workflow"
    · have hkind : ActionType.ofText "attach_workflow" = some .attachWorkflow := by decide
      rw [attempt_attach htype, escapes_map, attachWorkflow_escapes, not_not, Harmless, htype,
        hkind]
      rfl
    · rw [attempt_atomic htype, escapes_map, dispatch_escapes hsource htype, not_not]

/-- A run that returns has put a row that is not pending into the ledger for each action that had
none, and no other row. -/
theorem run_ledger (hrun : run env signal tasks results db .claim = .finished db' results') :
    ∃ new, db'.ledger = db.ledger ++ new ∧
      (∀ row ∈ new, row.key ∉ db.keys ∧ row.status ≠ .pending) ∧
      ∀ task ∈ tasks, task.key ∈ db'.keys := by
  induction tasks generalizing results db with
  | nil =>
    cases hrun
    exact ⟨[], (append_nil _).symm, nofun, nofun⟩
  | cons task rest ih =>
    rw [run] at hrun
    cases htask : runTask env signal task results db .claim with
    | escaped db₁ e =>
      rw [htask] at hrun
      cases hrun
    | done db₁ results₁ =>
      rw [htask] at hrun
      obtain ⟨new, hnew, hfinal, hkeys⟩ := ih hrun
      by_cases hkey : task.key ∈ db.keys
      · rw [runTask_claimed hkey] at htask
        cases htask
        refine ⟨new, hnew, hfinal, forall_mem_cons.mpr ⟨?_, hkeys⟩⟩
        rw [Db.keys, hnew, map_append]
        exact mem_append_left _ hkey
      · obtain ⟨status, result, hrow, hstatus⟩ := runTask_ledger hkey htask
        have hsub : db₁.keys = db.keys ++ [task.key] := by simp [Db.keys, hrow]
        refine ⟨⟨task.key, status, result⟩ :: new, by rw [hnew, hrow, append_assoc]; rfl,
          forall_mem_cons.mpr ⟨⟨hkey, hstatus⟩, fun row hmem => ?_⟩,
          forall_mem_cons.mpr ⟨?_, hkeys⟩⟩
        · obtain ⟨hne, hidle⟩ := hfinal row hmem
          exact ⟨fun h => hne (hsub ▸ mem_append_left _ h), hidle⟩
        · rw [Db.keys, hnew, map_append]
          refine mem_append_left _ ?_
          simp [hrow]

theorem run_ended (hrun : run env signal tasks results db .claim = .finished db' results')
    (htask : task ∈ tasks) : db'.Ended task.key ↔ db.Idle task.key := by
  obtain ⟨new, hnew, hfinal, hkeys⟩ := run_ledger hrun
  refine ⟨fun hended row hrow hkey => hended.2 row (hnew ▸ mem_append_left _ hrow) hkey,
    fun hidle => ⟨hkeys task htask, fun row hrow hkey => ?_⟩⟩
  rw [hnew] at hrow
  rcases mem_append.mp hrow with hrow | hrow
  · exact hidle row hrow hkey
  · exact (hfinal row hrow).2

/-- **A run returns exactly if every action it reaches is safe.** -/
theorem run_finished_iff (hsource : sourceDict signal = .ok source) :
    (∃ db' results', run env signal tasks results db .claim = .finished db' results') ↔
      Along env signal (Safe env signal) tasks results db := by
  induction tasks generalizing results db with
  | nil => exact ⟨fun _ => trivial, fun _ => ⟨db, results, rfl⟩⟩
  | cons task rest ih =>
    rw [Along, run, ← runTask_done_iff hsource]
    cases hrun : runTask env signal task results db .claim with
    | escaped db' e =>
      exact ⟨fun ⟨_, _, h⟩ => (by cases h), fun ⟨⟨_, _, h⟩, _⟩ => (by cases h)⟩
    | done db' results' =>
      refine ⟨fun hfinished => ⟨⟨db', results', rfl⟩, ?_⟩, fun halong => ?_⟩
      · rintro _ _ ⟨⟩
        exact ih.mp hfinished
      · exact ih.mpr (halong.2 db' results' rfl)

theorem sourceDict_of_valid {isDateTime : String → Bool}
    (hvalid : inboundSignal isDateTime (.obj signal) = true) :
    ∃ source, sourceDict signal = .ok source := by
  obtain ⟨v, hv⟩ := get_of_required hvalid "source" (by decide)
  have hobj : conforms sourceProperties [] v = true := accepts_of_get hvalid hv rfl
  rw [sourceDict, orNull, hv, Option.getD_some]
  cases v with
  | obj fields => exact ⟨fields, rfl⟩
  | null | bool | int | float | str | arr => cases hobj

/-- **The drain goes on exactly if every action is safe.**  For a valid signal, running a rule
version returns, with each of its actions ended in the ledger, exactly if no action was left under
way before and every action, in the state in which it is reached, was run before or is harmless. -/
theorem drain_iff_safe {isDateTime : String → Bool} {signal : Fields}
    (hvalid : inboundSignal isDateTime (.obj signal) = true) (env : Surroundings)
    (providerEventId : String) (version : RuleVersion) (db : Db) :
    (∃ db' results', runRuleVersion env signal providerEventId version db = .finished db' results' ∧
        ∀ index < version.actions.length, db'.Ended ⟨providerEventId, version.id, index⟩) ↔
      Along env signal (Safe env signal) (version.tasks providerEventId) [] db ∧
        ∀ index < version.actions.length, db.Idle ⟨providerEventId, version.id, index⟩ := by
  obtain ⟨source, hsource⟩ := sourceDict_of_valid hvalid
  have hended : ∀ db' results',
      runRuleVersion env signal providerEventId version db = .finished db' results' →
      ∀ index < version.actions.length, db'.Ended ⟨providerEventId, version.id, index⟩ ↔
        db.Idle ⟨providerEventId, version.id, index⟩ := by
    intro db' results' hrun index hindex
    have htask : (⟨⟨providerEventId, version.id, index⟩, version.actions[index]⟩ : Task) ∈
        version.tasks providerEventId := mem_mapIdx.mpr ⟨index, hindex, rfl⟩
    exact run_ended hrun htask
  rw [← run_finished_iff hsource]
  constructor
  · rintro ⟨db', results', hrun, hall⟩
    exact ⟨⟨db', results', hrun⟩, fun index hindex =>
      (hended db' results' hrun index hindex).mp (hall index hindex)⟩
  · rintro ⟨⟨db', results', hrun⟩, hidle⟩
    exact ⟨db', results', hrun, fun index hindex =>
      (hended db' results' hrun index hindex).mpr (hidle index hindex)⟩

def emptyDb : Db := ⟨[], [], [], [], [], []⟩

def eventRule : RuleVersion := ⟨"v1", [[("type", .str "create_event"), ("title", .str "Ring")]]⟩

theorem eventRule_drains : ∃ db' results',
    runRuleVersion plainSurroundings (doorbell []) "p" eventRule emptyDb = .finished db' results' ∧
      ∀ index < eventRule.actions.length, db'.Ended ⟨"p", eventRule.id, index⟩ := by
  have hvalid : inboundSignal (fun _ => true) (.obj (doorbell [])) = true := by decide
  refine (drain_iff_safe hvalid plainSurroundings "p" eventRule emptyDb).mpr
    ⟨⟨.inr ?_, fun _ _ _ => trivial⟩, fun _ _ _ hrow => (not_mem_nil hrow).elim⟩
  exact .inr (.inr (.inr ⟨by decide, by decide, .inl rfl⟩))

/-- A rule whose notification has a number for a payload. -/
def numberRule : RuleVersion :=
  ⟨"v1", [[("type", .str "notify"), ("payload", .int 5)],
    [("type", .str "create_event"), ("title", .str "Ring")]]⟩

/-- **An action that the publish gate accepts raises**: nothing is in the ledger, and the action
behind it does not run. -/
theorem numberRule_raises :
    publishBlockers plainSurroundings none (numberRule.actions.map .obj) = .ok [] ∧
      inboundSignal (fun _ => true) (.obj (doorbell [])) = true ∧
      runRuleVersion plainSurroundings (doorbell []) "p" numberRule emptyDb
        = .raised emptyDb (.typeError "'int' object is not a mapping") :=
  ⟨by rfl, by decide, by rfl⟩

end BbzPlatform.Triggers
