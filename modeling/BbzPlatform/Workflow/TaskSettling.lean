import BbzPlatform.Lib.Raising
import BbzPlatform.Workflow.Progress

/-!
# Settling the tasks of an instance

Every round of `_settle` but the last dispatches one automatic step that has no result yet, so the
rounds suffice from any state.  When it returns, every waiting timer has a deadline, every waiting
automatic step has a result, and each step it dispatched has one result and one outbox row.

## Main definitions

* `TimersArmed` — every waiting timer has a deadline.
* `Passed` — the automatic steps that rounds have dispatched.
-/

namespace BbzPlatform.Workflow

open Logged List

variable {ι : Type} [LinearOrder ι] {ext : Externals} {env : Env ι} {g : DerivedGraph}
  {inst inst' mid : Instance ι} {rows : List (TokenRow ι)} {rounds : ℕ} {calls : List (Call ι)}

def TimersArmed (g : DerivedGraph) (inst : Instance ι) : Prop :=
  ∀ row ∈ inst.tokens, row.state = .waiting → (kindAt g row.nodeKey).any (·.timed) = true →
    row.resumeAt ≠ none

/-- The steps that were dispatched, each for the first time, with one result each and a row in the
outbox. -/
structure Passed (inst : Instance ι) (passed : List String) (inst' : Instance ι) : Prop where
  id : inst'.id = inst.id
  nodup : passed.Nodup
  new : ∀ k ∈ passed, inst.stepDone k = false
  results : inst'.results.map (·.nodeKey) = inst.results.map (·.nodeKey) ++ passed
  keys : (inst.outbox.map (·.dedupeKey)).Nodup → (inst'.outbox.map (·.dedupeKey)).Nodup
  sent : ∀ key, key ∈ inst.outbox.map (·.dedupeKey) ∨ key ∈ passed.map (stepDedupeKey inst.id) →
    key ∈ inst'.outbox.map (·.dedupeKey)

omit [LinearOrder ι] in
theorem Passed.trans {first second : List String} (h : Passed inst first mid)
    (h' : Passed mid second inst') : Passed inst (first ++ second) inst' := by
  have hnew : ∀ k ∈ second, k ∉ inst.results.map (·.nodeKey) ∧ k ∉ first := by
    intro k hk
    have hnot : k ∉ mid.results.map (·.nodeKey) := fun hmem => by
      simpa [h'.new k hk] using stepDone_iff.mpr hmem
    simpa [h.results, not_or] using hnot
  refine ⟨h'.id.trans h.id, nodup_append.mpr ⟨h.nodup, h'.nodup, ?_⟩, ?_, ?_,
    fun hkeys => h'.keys (h.keys hkeys), fun key hkey => ?_⟩
  · rintro k hk _ hk' rfl
    exact (hnew k hk').2 hk
  · refine forall_mem_append.mpr ⟨h.new, fun k hk => ?_⟩
    exact eq_false_of_ne_true fun hdone => (hnew k hk).1 (stepDone_iff.mp hdone)
  · rw [h'.results, h.results, append_assoc]
  · rw [map_append, mem_append] at hkey
    refine h'.sent key ?_
    rw [h.id]
    exact (or_assoc.mpr hkey).imp_left (h.sent key)

theorem armTimers_passed (h : armTimers ext env g inst rows = .ok mid) : Passed inst [] mid := by
  rw [armTimers_ok h]
  exact ⟨rfl, nodup_nil, by simp, by simp, fun h => h, by simp⟩

omit [LinearOrder ι] in
/-- The outbox has the key once it is asked for, and at most once. -/
theorem enqueue_spec (inst : Instance ι) (row : OutboxRow) :
    (inst.enqueue row).id = inst.id ∧ (inst.enqueue row).results = inst.results ∧
      ((inst.outbox.map (·.dedupeKey)).Nodup →
        ((inst.enqueue row).outbox.map (·.dedupeKey)).Nodup) ∧
      ∀ key, key ∈ (inst.enqueue row).outbox.map (·.dedupeKey) ↔
        key ∈ inst.outbox.map (·.dedupeKey) ∨ key = row.dedupeKey := by
  have hany : (inst.outbox.any (·.dedupeKey = row.dedupeKey)) = true ↔
      row.dedupeKey ∈ inst.outbox.map (·.dedupeKey) := by simp
  unfold Instance.enqueue
  split_ifs with h
  · refine ⟨rfl, rfl, id, fun key => (or_iff_left_of_imp ?_).symm⟩
    rintro rfl
    exact hany.mp h
  · rw [hany] at h
    refine ⟨rfl, rfl, fun hkeys => ?_, by simp⟩
    rw [map_append]
    exact hkeys.append (nodup_singleton _) (by simpa using h)

theorem runAuto_passed {k : String} {n : GraphNode} {kind : FunctionKind}
    (hdone : inst.stepDone k = false) (h : Returns (runAuto env g inst k n kind) calls inst') :
    calls.map (·.target) = [some k] ∧ Passed inst [k] inst' := by
  simp only [runAuto, returns_bind, returns_lift, runEngine_returns] at h
  obtain ⟨-, -, action, ⟨rfl, -⟩, ⟨r, -, rfl, rfl⟩, rfl⟩ := h
  obtain ⟨hid, hresults, hkeys, hmem⟩ := enqueue_spec inst (stepOutboxRow inst.id k action n kind)
  rw [Instance.apply_eq]
  refine ⟨rfl, hid, nodup_singleton k, by simpa using hdone, ?_, hkeys, fun key hkey => ?_⟩
  · simp [Instance.addResult, hresults]
  · exact (hmem key).mpr (hkey.imp_right mem_singleton.mp)

theorem armTimers_armed (h : armTimers ext env g inst (env.scan inst.waitingRows) = .ok mid) :
    TimersArmed g mid := by
  intro row hrow hwait hkind
  rw [armTimers_ok h] at hrow
  obtain ⟨old, hold, rfl⟩ := mem_map.mp hrow
  have hmem : old ∈ env.scan inst.waitingRows :=
    (env.scan_perm _).mem_iff.mpr (mem_filter.mpr ⟨hold, by simpa using hwait⟩)
  obtain ⟨due, hdue⟩ : ∃ due, deadline ext env g old = .ok due := by
    rcases armTimers_cases ext env g inst (env.scan inst.waitingRows) with ⟨hall, -⟩ |
      ⟨-, err, -, herr⟩
    · exact hall old hmem
    · cases herr.symm.trans h
  rw [if_pos hmem, TokenRow.armed, hdue]
  cases due with
  | some due => exact Option.some_ne_none due
  | none =>
    intro hnone
    cases hn : graphNode g old.nodeKey with
    | none => simp [kindAt, hn] at hkind
    | some n =>
      have hif : (n.functionKind.any (·.timed) && old.resumeAt.isNone) = true := by
        simpa [kindAt, hn, show old.resumeAt = none from hnone] using hkind
      simp only [deadline, hn, hif, if_true] at hdue
      cases hat : dueAt ext env n <;> rw [hat] at hdue <;> cases hdue

theorem settleRounds_passed (h : Returns (settleRounds ext env g rounds inst) calls inst') :
    ∃ passed, calls.map (·.target) = passed.map some ∧ Passed inst passed inst' ∧
      TimersArmed g inst' := by
  induction rounds generalizing inst calls with
  | zero => exact absurd h returns_fail
  | succ rounds ih =>
    obtain ⟨mid, harm, ⟨-, rfl, rfl⟩ | ⟨k, n, kind, hnext, -, -, -, ls₁, ls₂, next, hrun, hrest,
      rfl⟩⟩ := settleRounds_succ.mp h
    · exact ⟨[], rfl, armTimers_passed harm, armTimers_armed harm⟩
    · obtain ⟨htarget, hfirst⟩ := runAuto_passed (nextAuto_some hnext).1 hrun
      obtain ⟨passed, htargets, hpassed, harmed⟩ := ih hrest
      refine ⟨k :: passed, ?_, (armTimers_passed harm).trans (hfirst.trans hpassed), harmed⟩
      rw [map_append, htarget, htargets]
      rfl

/-- Neither arming nor dispatching says that the rounds do not suffice. -/
theorem armTimers_ne : armTimers ext env g inst rows ≠ .error .didNotConverge := by
  rcases armTimers_cases ext env g inst rows with ⟨-, hok⟩ | ⟨row, err, herr, hraise⟩
  · simp [hok]
  · rw [hraise]
    rintro ⟨⟩
    unfold deadline dueAt at herr
    cases hn : graphNode g row.nodeKey with
    | none => simp [hn] at herr
    | some n =>
      simp only [hn] at herr
      split at herr
      · cases hsec : timerSeconds ext.intOfStr n.props with
        | error err => simp [hsec, Except.map] at herr
        | ok seconds =>
          simp only [hsec] at herr
          split at herr <;> simp [Except.map] at herr
      · cases herr

theorem runAuto_ne {k : String} {n : GraphNode} {kind : FunctionKind} :
    (runAuto env g inst k n kind).result ≠ .error .didNotConverge := by
  have hmap : ∀ {ε α : Type} (x : Except ε α) (f : ε → ServiceError ι),
      (∀ e, f e ≠ .didNotConverge) →
      x.mapError f ≠ .error .didNotConverge := fun x f h => by
    cases x <;> simp [Except.mapError, h]
  rw [runAuto, Ne, result_bind_error]
  rintro (hraise | ⟨action, -, hraise⟩)
  · exact hmap _ _ (by simp) hraise
  · rw [runEngine, result_bind_error] at hraise
    rcases hraise with hraise | ⟨r, -, hraise⟩
    · exact hmap _ _ (by simp) hraise
    · cases hraise

/-- **The rounds suffice**: with every step that is dispatched, fewer nodes are without a result. -/
theorem settleRounds_converges (h : (undone g inst).card < rounds) :
    (settleRounds ext env g rounds inst).result ≠ .error .didNotConverge := by
  induction rounds generalizing inst with
  | zero => exact absurd h (Nat.not_lt_zero _)
  | succ rounds ih =>
    rw [settleRounds, Ne, result_bind_error]
    rintro (hraise | ⟨mid, hmid, hraise⟩)
    · exact armTimers_ne hraise
    · have harm := (returns_lift.mp hmid).2
      have hsame : undone g mid = undone g inst := by rw [armTimers_ok harm]; rfl
      cases hnext : nextAuto g mid (env.scan inst.waitingRows) with
      | none =>
        rw [hnext] at hraise
        cases hraise
      | some k =>
        obtain ⟨hdone, ⟨n, kind, hn, hkind, -⟩, -⟩ := nextAuto_some hnext
        simp only [hnext, hn, hkind, result_bind_error] at hraise
        rcases hraise with hraise | ⟨next, hrun, hraise⟩
        · exact runAuto_ne hraise
        · have hknown : k ∈ g.nodes.map (·.key) :=
            mem_map.mpr ⟨n, mem_of_find?_eq_some hn, by simpa using find?_some hn⟩
          have hlt := Finset.card_lt_card
            (undone_ssubset hknown hdone (runAuto_passed hdone hrun).2.results)
          rw [hsame] at hlt
          exact ih (by omega) hraise

/-- **Settling converges, and is complete.** -/
theorem settle_converges (ext : Externals) (env : Env ι) (g : DerivedGraph) (inst : Instance ι)
    (hkeys : (inst.outbox.map (·.dedupeKey)).Nodup) :
    (settle ext env g inst).result ≠ .error .didNotConverge ∧
      ∀ calls inst', Returns (settle ext env g inst) calls inst' →
        Dispatched g inst' ∧ TimersArmed g inst' ∧
          ∀ k, some k ∈ calls.map (·.target) →
            (inst'.results.filter (·.nodeKey = k)).length = 1 ∧
              (inst'.outbox.filter (·.dedupeKey = stepDedupeKey inst.id k)).length = 1 := by
  refine ⟨settleRounds_converges ?_, fun calls inst' h => ?_⟩
  · have hcard : (undone g inst).card ≤ (g.nodes.map (·.key)).toFinset.card :=
      Finset.card_filter_le _ _
    have hlength := toFinset_card_le (g.nodes.map (·.key))
    rw [length_map] at hlength
    omega
  · obtain ⟨passed, htargets, hpassed, harmed⟩ := settleRounds_passed h
    have hchain : Chain g (fun _ => True) inst calls inst' ∧ _ := settleRounds_chain h
    refine ⟨hchain.2, harmed, fun k hk => ?_⟩
    rw [htargets, mem_map] at hk
    obtain ⟨_, hk, ⟨⟩⟩ := hk
    have hcount : ∀ {α : Type} (rows : List α) (f : α → String) (key : String),
        (rows.filter (f · = key)).length = (rows.map f).count key := by
      intro α rows f key
      rw [count, countP_map, countP_eq_length_filter]
      rfl
    rw [hcount, hcount, hpassed.results, count_append,
      count_eq_one_of_mem hpassed.nodup hk, count_eq_zero_of_not_mem]
    · exact ⟨rfl, count_eq_one_of_mem (hpassed.keys hkeys)
        (hpassed.sent _ (.inr (mem_map_of_mem hk)))⟩
    · exact fun hmem => by simpa [hpassed.new k hk] using stepDone_iff.mpr hmem

/-- A workflow that notifies. -/
def notifying : Definition where
  start := "e0"
  nodes := [.event "e0", .function "n" .notification, .event "e1"]
  edges := [.plain "a" "e0" "n", .plain "b" "n" "e1"]

/-- A token waits at the notification. -/
def notifyingParked : Instance ℕ :=
  ⟨"i", .running, [⟨1, "n", some "a", .waiting, none, 0⟩], [], [], []⟩

theorem notifying_settled : ∃ calls inst',
    Returns (settle .plain .plain notifying.flatten notifyingParked) calls inst' ∧
      (inst'.outbox.filter (·.dedupeKey = stepDedupeKey "i" "n")).length = 1 := by
  obtain ⟨inst', h⟩ := exists_returns (m := settle .plain .plain notifying.flatten
    notifyingParked) (by rfl)
  have hspec := (settle_converges .plain .plain notifying.flatten notifyingParked
    nodup_nil).2 _ _ h
  exact ⟨_, _, h, (hspec.2.2 "n" (by decide)).2⟩

end BbzPlatform.Workflow
