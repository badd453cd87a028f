import BbzPlatform.Events.Record
import BbzPlatform.Lib.Turns

/-!
# Concurrent commands on one event

A command transaction reads the event's row, then the active assignment, changes the aggregate it
has built from them and saves it.  The save is guarded by the version in the request's header
`X-Expected-Version`; between the reads and the save other transactions may commit.

Reads see what is committed.  A save locks the row until its transaction ends, and one that waited
for the lock compares the version again, so that a save and its commit are one step here.

The guard compares the row with the header and not with the version that was read.  A header that
names a version which does not exist yet when the event is read lets a stale aggregate through,
once other transactions have brought the row to that version.
-/

namespace BbzPlatform.Events

open Turns Relation List

/-- Where a transaction stands, with the header of its request. -/
inductive Phase where
  | start
  | reading (expected : ℤ) (row : EventRow)
  | loaded (expected : ℤ) (agg : EventAggregate)
  | ready (expected : ℤ) (actorId : String) (snapshot agg : EventAggregate)
  | committed
  | raised

/-- What a transaction does next. -/
inductive Move where
  /-- A request arrives and its transaction reads the row of the event. -/
  | selectEvent (expected : ℤ)
  /-- It reads the active assignment. -/
  | selectAssignee
  /-- It changes the aggregate. -/
  | mutate (actorId : String) (command : Command)
  /-- It saves and commits. -/
  | save
  /-- It fails for another reason. -/
  | abort

/-- A successful save: the aggregate as it was loaded and as it was persisted, the header, and the
rows it was applied to. -/
structure Save where
  snapshot : EventAggregate
  persisted : EventAggregate
  expected : ℤ
  before : Store

/-- The aggregate was loaded at the expected version, and what the save overwrote is what was
loaded. -/
def Save.Fresh (save : Save) : Prop :=
  save.snapshot.version = save.expected ∧ save.before.require = .ok save.snapshot

/-- The committed rows, the transactions and the saves so far. -/
structure State where
  store : Store
  phase : ℕ → Phase
  saves : List Save

namespace State

/-- No transaction has begun. -/
def init (store : Store) : State := ⟨store, fun _ => .start, []⟩

/-- Move a transaction to a phase. -/
def goto (s : State) (p : ℕ) (phase : Phase) : State :=
  { s with phase := Function.update s.phase p phase }

@[simp] theorem goto_store (s : State) (p : ℕ) (phase : Phase) :
    (s.goto p phase).store = s.store := rfl

@[simp] theorem goto_saves (s : State) (p : ℕ) (phase : Phase) :
    (s.goto p phase).saves = s.saves := rfl

@[simp] theorem goto_phase_self (s : State) (p : ℕ) (phase : Phase) :
    (s.goto p phase).phase p = phase := by
  simp [goto]

theorem goto_phase_of_ne (s : State) {p q : ℕ} (h : q ≠ p) (phase : Phase) :
    (s.goto p phase).phase q = s.phase q := by
  simp [goto, h]

@[simp] theorem goto_goto (s : State) (p : ℕ) (phase phase' : Phase) :
    (s.goto p phase).goto p phase' = s.goto p phase' := by
  simp [goto]

/-- One move of a transaction, if its phase allows it. -/
def step (s : State) (p : ℕ) (m : Move) : Option State :=
  match m, s.phase p with
  | .selectEvent expected, .start =>
    match s.store.event with
    | none => some (s.goto p .raised)
    | some row => some (s.goto p (.reading expected row))
  | .selectAssignee, .reading expected row =>
    match s.store.assignee with
    | .error _ => some (s.goto p .raised)
    | .ok assignee => some (s.goto p (.loaded expected (row.aggregate assignee)))
  | .mutate actorId command, .loaded expected agg =>
    match agg.apply actorId command with
    | .error _ => some (s.goto p .raised)
    | .ok agg' => some (s.goto p (.ready expected actorId agg agg'))
  | .save, .ready expected actorId snapshot agg =>
    match s.store.save agg actorId expected with
    | .error _ => some (s.goto p .raised)
    | .ok store => some { s.goto p .committed with
        store := store
        saves := s.saves ++ [⟨snapshot, agg, expected, s.store⟩] }
  | .abort, .reading _ _ => some (s.goto p .raised)
  | .abort, .loaded _ _ => some (s.goto p .raised)
  | .abort, .ready _ _ _ _ => some (s.goto p .raised)
  | _, _ => none

end State

/-- The header names a version that exists when the event is read. -/
def Named (s : State) (_ : ℕ) (m : Move) : Prop :=
  ∀ expected row, m = .selectEvent expected → s.store.event = some row → expected ≤ row.version

/-! ## What a save does to the row -/

variable {agg : EventAggregate} {events : List DomainEventData} {expected : ℤ} {row row' : EventRow}
  {owner : Option String} {actorId : String} {store store' : Store} {phase : Phase} {p : ℕ}

variable {s : State}

theorem persist_event {s s' : Store} (h : events.foldlM (Store.persist agg actorId) s = .ok s') :
    s'.event = s.event := by
  induction events generalizing s with
  | nil =>
    cases h
    rfl
  | cons event events ih =>
    rw [foldlM_cons] at h
    obtain ⟨u, hu, h⟩ := Raising.bind_eq_ok.mp h
    exact (ih h).trans (persist_ok hu).1

theorem save_version {s s' : Store} (h : s.save agg actorId expected = .ok s') :
    (∃ row, s.event = some row ∧ row.version = expected) ∧
      ∃ row, s'.event = some row ∧ row.version = expected + 1 := by
  unfold Store.save at h
  split at h
  · cases h
  next row hrow =>
    split at h
    next hversion =>
      exact ⟨⟨row, hrow, hversion⟩, _, persist_event h, rfl⟩
    · cases h

/-! ## Runs whose headers are named -/

/-- A transaction that read version `v` with a header that existed: no newer version was read than
there is, and if there is no newer one, what was read still stands. -/
def Behind (store : Store) (expected v : ℤ) (stands : Prop) : Prop :=
  ∃ row, store.event = some row ∧ expected ≤ v ∧ v ≤ row.version ∧ (v = row.version → stands)

/-- What a transaction has read, compared with what is committed. -/
def Phase.Sound (store : Store) : Phase → Prop
  | .reading expected row => Behind store expected row.version (store.event = some row)
  | .loaded expected agg => Behind store expected agg.version (store.require = .ok agg)
  | .ready expected _ snapshot _ =>
    Behind store expected snapshot.version (store.require = .ok snapshot)
  | .start | .committed | .raised => True

theorem Behind.outdated {v : ℤ} {stands stands' : Prop}
    (h : Behind store expected v stands) (hrow : store.event = some row)
    (hrow' : store'.event = some row') (hlt : row.version < row'.version) :
    Behind store' expected v stands' := by
  obtain ⟨r, hr, hle, hv, -⟩ := h
  rw [hrow] at hr
  cases hr
  exact ⟨row', hrow', hle, by omega, fun heq => by omega⟩

theorem Phase.Sound.outdated
    (h : phase.Sound store) (hrow : store.event = some row) (hrow' : store'.event = some row')
    (hlt : row.version < row'.version) : phase.Sound store' := by
  cases phase with
  | start | committed | raised => trivial
  | reading expected r | loaded expected agg | ready expected actorId snapshot agg =>
    exact Behind.outdated h hrow hrow' hlt

/-- The invariant. -/
structure Inv (s : State) : Prop where
  sound : ∀ p, (s.phase p).Sound s.store
  fresh : ∀ save ∈ s.saves, save.Fresh
  idle : FinitelyMany .start s.phase

namespace Inv

variable {s : State}

theorem init (store : Store) : Inv (State.init store) where
  sound := fun _ => trivial
  fresh := fun _ h => by cases h
  idle := ⟨0, fun _ _ => rfl⟩

theorem goto (h : Inv s) (p : ℕ) (hphase : phase.Sound s.store) : Inv (s.goto p phase) :=
  ⟨forall_update (Q := fun _ (phase : Phase) => phase.Sound s.store) hphase h.sound, h.fresh,
    h.idle.update p phase⟩

theorem selectEvent (h : Inv s) (p : ℕ) (hrow : s.store.event = some row)
    (hnamed : expected ≤ row.version) : Inv (s.goto p (.reading expected row)) :=
  h.goto p ⟨row, hrow, hnamed, le_rfl, fun _ => hrow⟩

/-- The assignment is read. -/
theorem selectAssignee (h : Inv s) {assignee : Option String}
    (hp : s.phase p = .reading expected row) (hassignee : s.store.assignee = .ok assignee) :
    Inv (s.goto p (.loaded expected (row.aggregate assignee))) := by
  have hsound := h.sound p
  rw [hp] at hsound
  obtain ⟨current, hcurrent, hle, hv, hstands⟩ := hsound
  refine h.goto p ⟨current, hcurrent, hle, hv, fun heq => ?_⟩
  rw [Store.require, hstands heq, hassignee]

/-- The aggregate is changed. -/
theorem mutate (h : Inv s) (hp : s.phase p = .loaded expected agg)
    (actorId : String) (agg' : EventAggregate) :
    Inv (s.goto p (.ready expected actorId agg agg')) := by
  have hsound := h.sound p
  rw [hp] at hsound
  exact h.goto p hsound

/-- **A save that succeeds is fresh**, and outdates what the others have read. -/
theorem save (h : Inv s) {snapshot : EventAggregate}
    (hp : s.phase p = .ready expected actorId snapshot agg)
    (hsave : s.store.save agg actorId expected = .ok store) : Inv { s.goto p .committed with
      store := store
      saves := s.saves ++ [⟨snapshot, agg, expected, s.store⟩] } := by
  obtain ⟨⟨row, hrow, hversion⟩, row', hrow', hversion'⟩ := save_version hsave
  have hsound := h.sound p
  rw [hp] at hsound
  obtain ⟨current, hcurrent, hle, hv, hstands⟩ := hsound
  have hgoto : Inv (s.goto p .committed) := h.goto p trivial
  refine ⟨fun q => ?_, fun saved hsaved => ?_, hgoto.idle⟩
  · exact (hgoto.sound q).outdated hrow hrow' (by omega)
  · rcases mem_append.mp hsaved with hold | hnew
    · exact h.fresh saved hold
    · rw [mem_singleton] at hnew
      subst hnew
      -- the row has the expected version, which is at most what was read
      rw [hrow] at hcurrent
      cases hcurrent
      exact ⟨by dsimp only; omega, hstands (by omega)⟩

/-- **One move whose header is named keeps the invariant.** -/
theorem step {m : Move} {t : State} (h : Inv s) (hnamed : Named s p m)
    (hstep : s.step p m = some t) : Inv t := by
  revert hstep
  fun_cases State.step s p m <;> rintro ⟨⟩ <;> try exact h.goto p trivial
  next expected hp row hrow => exact h.selectEvent p hrow (hnamed expected row rfl hrow)
  next hp assignee hassignee => exact h.selectAssignee hp hassignee
  next actorId command expected agg hp agg' happly => exact h.mutate hp actorId agg'
  next hp store hsave => exact h.save hp hsave

end Inv

/-! ## Headers that run ahead -/

/-- No queued domain event changes the owner. -/
def EventAggregate.KeepsOwner (agg : EventAggregate) : Prop :=
  ∀ event ∈ agg.pending, event.type.handsOver = false

theorem keepsOwner_emit (h : agg.pending = []) {type : EventType} (htype : type.handsOver = false)
    (payload : List (String × Json)) : (agg.emit type payload).KeepsOwner := by
  intro event hevent
  rw [EventAggregate.emit, h] at hevent
  cases mem_singleton.mp hevent
  exact htype

/-- Every loaded aggregate can be changed, without a change of the owner. -/
theorem exists_edit (agg : EventAggregate) (hpending : agg.pending = []) :
    ∃ actorId command agg', agg.apply actorId command = .ok agg' ∧ agg'.KeepsOwner := by
  by_cases harchived : agg.status = .archived
  · have hreason : strip "again" ≠ "" := by decide
    refine ⟨"", .reactivate "again", ?_⟩
    simp only [EventAggregate.apply, EventAggregate.reactivate, harchived, ne_eq, not_true,
      if_false, hreason, EventAggregate.transition, canTransition, if_true]
    exact ⟨_, rfl, keepsOwner_emit hpending rfl _⟩
  · -- one of two titles is new
    obtain ⟨title, hclean, hne⟩ : ∃ title, cleanTitle (some title) = .ok title ∧
        title ≠ agg.title := by
      by_cases htitle : agg.title = "a"
      · exact ⟨"b", by decide, by rw [htitle]; decide⟩
      · exact ⟨"a", by decide, fun h => htitle h.symm⟩
    refine ⟨"", .update (some (some title)) none none, ?_⟩
    simp only [EventAggregate.apply, EventAggregate.update, harchived, if_false,
      EventAggregate.edit, Option.map_some, Option.map_none, hclean, ne_eq, hne, not_false_iff,
      if_true]
    exact ⟨_, rfl, keepsOwner_emit hpending rfl _⟩

theorem persist_keepsOwner (actorId : String) (h : ∀ event ∈ events, event.type.handsOver = false)
    (s : Store) : ∃ s', events.foldlM (Store.persist agg actorId) s = .ok s' ∧
      s'.assignments = s.assignments := by
  induction events generalizing s with
  | nil => exact ⟨s, rfl, rfl⟩
  | cons event events ih =>
    have hone : ∃ u, Store.persist agg actorId s event = .ok u ∧
        u.assignments = s.assignments := by
      have hover := h event mem_cons_self
      simp only [Store.persist, Store.reconcileAssignment, hover, Bool.false_eq_true, if_false]
      refine ⟨_, rfl, ?_⟩
      unfold Store.noteStatus
      split <;> rfl
    obtain ⟨u, hu, hassign⟩ := hone
    obtain ⟨s', hs', hassign'⟩ := ih (fun e he => h e (mem_cons_of_mem _ he)) u
    refine ⟨s', ?_, hassign'.trans hassign⟩
    rw [foldlM_cons, hu]
    exact hs'

theorem save_keepsOwner {s : Store} (actorId : String) (hrow : s.event = some row)
    (h : agg.KeepsOwner) :
    ∃ s', s.save agg actorId row.version = .ok s' ∧ s'.assignments = s.assignments := by
  rw [Store.save, hrow]
  simp only [if_true]
  exact persist_keepsOwner actorId h _

/-- A request with any header can get as far as its save. -/
theorem exists_ready (hp : s.phase p = .reading expected row)
    (howner : s.store.assignee = .ok owner) :
    ∃ actorId agg, agg.KeepsOwner ∧ ReflTransGen (AnyTurn State.step) s
      (s.goto p (.ready expected actorId (row.aggregate owner) agg)) := by
  obtain ⟨actorId, command, agg, happly, hkeeps⟩ := exists_edit (row.aggregate owner) rfl
  refine ⟨actorId, agg, hkeeps, ?_⟩
  have h₁ : AnyTurn State.step s (s.goto p (.loaded expected (row.aggregate owner))) :=
    ⟨p, .selectAssignee, trivial, by simp [State.step, hp, howner]⟩
  have h₂ : AnyTurn State.step (s.goto p (.loaded expected (row.aggregate owner)))
      (s.goto p (.ready expected actorId (row.aggregate owner) agg)) :=
    ⟨p, .mutate actorId command, trivial, by simp [State.step, happly]⟩
  exact (ReflTransGen.single h₁).tail h₂

theorem exists_next (p : ℕ) (hidle : FinitelyMany .start s.phase)
    (hrow : s.store.event = some row) (howner : s.store.assignee = .ok owner) :
    ∃ t row', ReflTransGen (AnyTurn State.step) s t ∧ t.phase p = s.phase p ∧
      FinitelyMany .start t.phase ∧ t.store.event = some row' ∧
      row'.version = row.version + 1 ∧ t.store.assignee = .ok owner := by
  obtain ⟨q, hne, hq⟩ := hidle.exists_fresh p
  have hselect : AnyTurn State.step s (s.goto q (.reading row.version row)) :=
    ⟨q, .selectEvent row.version, trivial, by simp [State.step, hq, hrow]⟩
  obtain ⟨actorId, agg, hkeeps, hready⟩ :=
    exists_ready (s.goto_phase_self q (.reading row.version row)) howner
  rw [State.goto_goto] at hready
  obtain ⟨store, hsave, hassign⟩ := save_keepsOwner actorId hrow hkeeps
  obtain ⟨-, row', hrow', hversion'⟩ := save_version hsave
  let t : State := { s.goto q .committed with
    store := store
    saves := s.saves ++ [⟨row.aggregate owner, agg, row.version, s.store⟩] }
  refine ⟨t, row', (ReflTransGen.head hselect hready).tail ⟨q, .save, trivial, ?_⟩,
    s.goto_phase_of_ne hne.symm _, hidle.update q _, hrow', hversion', ?_⟩
  · simp [State.step, hsave, t]
  · rw [Store.assignee, hassign]
    exact howner

theorem exists_version (p : ℕ) (hidle : FinitelyMany .start s.phase)
    (hrow : s.store.event = some row) (howner : s.store.assignee = .ok owner) (n : ℕ) :
    ∃ t row', ReflTransGen (AnyTurn State.step) s t ∧ t.phase p = s.phase p ∧
      FinitelyMany .start t.phase ∧ t.store.event = some row' ∧
      row'.version = row.version + n ∧ t.store.assignee = .ok owner := by
  induction n with
  | zero => exact ⟨s, row, .refl, rfl, hidle, hrow, by simp, howner⟩
  | succ n ih =>
    obtain ⟨t, row', hrun, hp, hidle', hrow', hversion, howner'⟩ := ih
    obtain ⟨u, row'', hrun', hp', hidle'', hrow'', hversion', howner''⟩ :=
      exists_next p hidle' hrow' howner'
    refine ⟨u, row'', hrun.trans hrun', hp'.trans hp, hidle'', hrow'', ?_, howner''⟩
    push_cast
    omega

/-- A header that runs ahead of the row can get a stale aggregate saved. -/
theorem exists_stale (hp : s.phase p = .reading expected row)
    (hidle : FinitelyMany .start s.phase) (hrow : s.store.event = some row)
    (howner : s.store.assignee = .ok owner) (hahead : row.version < expected) :
    ∃ t, ReflTransGen (AnyTurn State.step) s t ∧
      ∃ save ∈ t.saves, save.expected = expected ∧ ¬ save.Fresh := by
  obtain ⟨actorId, agg, hkeeps, hready⟩ := exists_ready hp howner
  have hidle' : FinitelyMany .start
      (s.goto p (.ready expected actorId (row.aggregate owner) agg)).phase := hidle.update p _
  obtain ⟨t, row', hrun, hphase, -, hrow', hversion, -⟩ :=
    exists_version p hidle' hrow howner (expected - row.version).toNat
  rw [State.goto_phase_self] at hphase
  have hexpected : row'.version = expected := by omega
  obtain ⟨store, hsave, -⟩ := save_keepsOwner actorId hrow' hkeeps
  rw [hexpected] at hsave
  let u : State := { t.goto p .committed with
    store := store
    saves := t.saves ++ [⟨row.aggregate owner, agg, expected, t.store⟩] }
  have hstep : AnyTurn State.step t u :=
    ⟨p, .save, trivial, by simp [State.step, hphase, hsave, u]⟩
  refine ⟨u, (hready.trans hrun).tail hstep, _, mem_append_right _ (mem_singleton_self _), rfl,
    fun hfresh => ?_⟩
  -- it was loaded at the version that the row had when the event was read
  have hloaded : row.version = expected := hfresh.1
  omega

theorem step_selectEvent {t : State} (hrow : s.store.event = some row)
    (h : s.step p (.selectEvent expected) = some t) : t = s.goto p (.reading expected row) := by
  cases hp : s.phase p <;> simp [State.step, hp, hrow] at h
  exact h.symm

/-- **Saves are fresh as long as headers name versions that exist.**  If in a run every request
names a version that exists when it reads the event, every successful save overwrote what its
transaction had loaded, at the version it expected.  Once a request has read the event with a header
that names a later version, the run can go on to its save of a stale aggregate. -/
theorem saves_fresh_of_named (store : Store) (s : State)
    (hrun : ReflTransGen (Turn State.step Named) (State.init store) s) :
    (∀ save ∈ s.saves, save.Fresh) ∧
      ∀ p m owner r, s.store.assignee = .ok owner → ¬ Named s p m → s.step p m = some r →
        ∃ t, ReflTransGen (AnyTurn State.step) r t ∧
          ∃ save ∈ t.saves, m = .selectEvent save.expected ∧ ¬ save.Fresh := by
  have h : Inv s := Turn.invariant (fun _ _ _ _ ih hnamed hstep => ih.step hnamed hstep)
    (Inv.init store) hrun
  refine ⟨h.fresh, fun p m owner r howner hahead hstep => ?_⟩
  unfold Named at hahead
  push Not at hahead
  obtain ⟨expected, row, rfl, hrow, hlt⟩ := hahead
  obtain rfl := step_selectEvent hrow hstep
  obtain ⟨t, hrun', save, hsave, rfl, hstale⟩ :=
    exists_stale (s.goto_phase_self p _) (h.idle.update p _) hrow howner hlt
  exact ⟨t, hrun', save, hsave, rfl, hstale⟩

/-- The rows of a new event. -/
def alarmStore : Store := (run [⟨.create alarmArgs (some "anna"), false⟩]).1

def alarmRow : EventRow := ⟨"e1", "Alarm", none, .high, .new, none, none, "manual", 1⟩

/-- A request that names version 1 of the new event saves a fresh aggregate. -/
theorem alarm_saved_fresh : ∃ s : State, s.saves.map Save.expected = [1] ∧
    ∀ save ∈ s.saves, save.Fresh := by
  let moves : List (ℕ × Move) :=
    [(0, .selectEvent 1), (0, .selectAssignee), (0, .mutate "ben" .accept), (0, .save)]
  have hnamed : Allows State.step Named (State.init alarmStore) moves := by
    refine ⟨fun expected row hm hrow => ?_, fun _ _ hm => ?_, fun _ _ hm => ?_, fun _ _ hm => ?_,
      trivial⟩
    · cases hm
      cases hrow
      exact le_rfl
    all_goals cases hm
  obtain ⟨s, hexec, hsaves⟩ : ∃ s, execute State.step (State.init alarmStore) moves = some s ∧
      s.saves.map Save.expected = [1] := ⟨_, rfl, rfl⟩
  exact ⟨s, hsaves, (saves_fresh_of_named alarmStore s (run_of_allows moves hexec hnamed)).1⟩

/-- A command sent ahead with version 2 reads version 1, another one changes the title, and then
the first one is saved: the title is back to the old one. -/
theorem title_lost : ∃ s, ReflTransGen (AnyTurn State.step) (State.init alarmStore) s ∧
    (¬ ∀ save ∈ s.saves, save.Fresh) ∧
    s.saves.map (fun save => (save.snapshot.version, save.expected, save.persisted.title)) =
      [(1, 1, "Fire"), (1, 2, "Alarm")] ∧
    s.store.event.map EventRow.title = some "Alarm" := by
  obtain ⟨s, hrun, hsaves, htitle⟩ : ∃ s, execute State.step (State.init alarmStore)
      [(0, .selectEvent 2), (0, .selectAssignee), (1, .selectEvent 1), (1, .selectAssignee),
        (1, .mutate "ben" (.update (some (some "Fire")) none none)), (1, .save),
        (0, .mutate "anna" .accept), (0, .save)] = some s ∧
      s.saves.map (fun save => (save.snapshot.version, save.expected, save.persisted.title)) =
        [(1, 1, "Fire"), (1, 2, "Alarm")] ∧
      s.store.event.map EventRow.title = some "Alarm" := ⟨_, rfl, rfl, rfl⟩
  refine ⟨s, run_of_execute hrun, fun hfresh => ?_, hsaves, htitle⟩
  have hmem : ((1 : ℤ), (2 : ℤ), "Alarm") ∈
      s.saves.map (fun save => (save.snapshot.version, save.expected, save.persisted.title)) := by
    rw [hsaves]
    decide
  obtain ⟨save, hsave, heq⟩ := mem_map.mp hmem
  have := (hfresh save hsave).1
  rw [Prod.mk.injEq, Prod.mk.injEq] at heq
  omega

end BbzPlatform.Events
