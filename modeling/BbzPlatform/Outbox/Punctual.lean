import BbzPlatform.Outbox.Dispatcher

/-!
# Handlers start no earlier than their rows are due

The ids of a batch outlive the locks of the claim: a row can be claimed twice, and the second worker
runs it whatever the first has written, as long as it is pending.
-/

namespace BbzPlatform.Outbox

open Turns Function List

/-- A row is rescheduled only while no other worker has it on its list. -/
def Alone (s : System) (p : ℕ) (m : Move) : Prop :=
  m = .commit → ∀ old new rest, s.phase p = .writing old new rest → new.row.status = .pending →
    ∀ q, q ≠ p → old.id ∉ (s.phase q).ids

variable {setup : Setup} {s t : System} {p q : ℕ} {m : Move} {phase : Phase} {row old : OutboxRow}
  {ids rest : List String} {new : Written}

/-- The pending rows on the lists of the workers are due, and every handler started after its row
was due. -/
structure Punctual (s : System) : Prop where
  due : ∀ q, ∀ id ∈ (s.phase q).ids, ∀ row ∈ s.rows, row.id = id → row.status = .pending →
    row.nextAttemptAt ≤ s.clock
  started : ∀ a ∈ s.starts, a.1.nextAttemptAt ≤ a.2

/-- A worker gets another list. -/
theorem Punctual.due_update (hpu : Punctual s)
    (hdue : ∀ id ∈ phase.ids, ∀ row ∈ s.rows, row.id = id → row.status = .pending →
      row.nextAttemptAt ≤ s.clock) :
    ∀ q, ∀ id ∈ (Function.update s.phase p phase q).ids, ∀ row ∈ s.rows, row.id = id →
      row.status = .pending → row.nextAttemptAt ≤ s.clock :=
  forall_update (Q := fun _ (x : Phase) => ∀ id ∈ x.ids, ∀ row ∈ s.rows, row.id = id →
    row.status = .pending → row.nextAttemptAt ≤ s.clock) hdue hpu.due

/-- A worker moves on with no new row on its list, while the table stays. -/
theorem Punctual.move (hpu : Punctual s)
    (hphase : t.phase = Function.update s.phase p phase) (hclock : t.clock = s.clock)
    (hrows : t.rows = s.rows) (hids : phase.ids ⊆ (s.phase p).ids)
    (hstarted : ∀ a ∈ t.starts, a.1.nextAttemptAt ≤ a.2) : Punctual t := by
  refine ⟨?_, hstarted⟩
  rw [hrows, hclock, hphase]
  exact hpu.due_update fun id hid => hpu.due p id (hids hid)

theorem Punctual.enqueue (hpu : Punctual s) (id dedupeKey actionType : String)
    (payload : List (String × Json)) (ago : ℕ) : Punctual { s with rows :=
      (enqueue setup.scrub s.rows id dedupeKey actionType payload (s.clock - ago)).1 } := by
  refine ⟨fun q id' hid row hrow heq hpending => ?_, hpu.started⟩
  change row ∈ (Outbox.enqueue setup.scrub s.rows id dedupeKey actionType payload _).1 at hrow
  unfold Outbox.enqueue at hrow
  split at hrow
  · exact hpu.due q id' hid row hrow heq hpending
  · rcases mem_append.mp hrow with hrow | hrow
    · exact hpu.due q id' hid row hrow heq hpending
    · rw [mem_singleton.mp hrow]
      change s.clock - ago ≤ s.clock
      omega

section

variable (hs : Sound setup s) (hpu : Punctual s)
include hs hpu

theorem Punctual.claim (limit : ℕ) (hids : ids =
      (claimDue s.rows (fun id => (s.lockedBy id).isSome) s.clock limit).map (·.id)) :
    Punctual ((s.lock p ids).goto p (.claiming ids)) := by
  refine ⟨hpu.due_update fun id hid row hrow heq _ => ?_, hpu.started⟩
  rw [Phase.ids, hids] at hid
  obtain ⟨claimed, hclaimed, rfl⟩ := mem_map.mp hid
  obtain ⟨hmem, -, hdue, -⟩ := mem_claimDue hclaimed
  rwa [inj_on_of_nodup_map hs.nodup hrow hmem heq]

/-- A row is rescheduled, or gets its final outcome. -/
theorem Punctual.commit (halone : Alone s p .commit)
    (hp : s.phase p = .writing old new rest) : Punctual (s.committed p new rest) := by
  have hvalid := hs.valid_of hp
  have hfresh := (nodup_cons.mp hvalid.nodup).1
  refine ⟨fun q id hid row hrow heq hpending => ?_, hpu.started⟩
  change id ∈ (Function.update s.phase p _ q).ids at hid
  rcases mem_update hrow with rfl | ⟨hrow, -⟩
  · -- the row itself is on no list any more
    rw [hvalid.fits.id_eq] at heq
    subst heq
    rcases eq_or_ne q p with rfl | hne
    · rw [update_self] at hid
      exact absurd hid hfresh
    · rw [update_of_ne hne] at hid
      exact absurd hid (halone rfl old new rest hp hpending q hne)
  · refine hpu.due_update (fun id hid => hpu.due p id ?_) q id hid row hrow heq hpending
    rw [hp]
    exact mem_cons_of_mem _ hid

/-- **A move keeps the workers punctual as long as no row on another list is rescheduled.** -/
theorem Punctual.step (halone : Alone s p m)
    (hstep : s.step setup p m = some t) : Punctual t := by
  have hstarted := hpu.started
  cases happens_of_step hstep with
  | wait duration =>
    refine ⟨fun q id hid row hrow heq hpending => ?_, hstarted⟩
    have hdue := hpu.due q id hid row hrow heq hpending
    change row.nextAttemptAt ≤ s.clock + duration
    omega
  | enqueue hid dedupeKey actionType payload ago => exact hpu.enqueue _ _ _ _ _
  | claim hp limit hids => exact hpu.claim hs limit hids
  | @run id rest row hp hfree hrow hpending hhandler =>
    obtain ⟨hmem, hid⟩ := (rowById_eq_some hs.nodup).mp hrow
    have hlist : id ∈ (s.phase p).ids := by
      rw [hp]
      exact mem_cons_self
    exact hpu.move rfl rfl rfl (by rw [hp, ← hid]; exact Subset.refl _) (forall_mem_append.mpr
      ⟨hstarted, forall_mem_singleton.mpr (hpu.due p id hlist row hmem hid hpending)⟩)
  | refuse hp hfree hrow hpending =>
    have hid := ((rowById_eq_some hs.nodup).mp hrow).2
    exact hpu.move rfl rfl rfl (by rw [hp, ← hid]; exact Subset.refl _) hstarted
  | release hp | deliver hp result | raise hp error | record hp =>
    exact hpu.move rfl rfl rfl (by rw [hp]; exact Subset.refl _) hstarted
  | commit hp => exact hpu.commit hs halone hp
  | skip hp | rollback hp =>
    exact hpu.move rfl rfl rfl (by rw [hp]; exact subset_cons_self _ _) hstarted
  | done hp | crash => exact hpu.move rfl rfl rfl (nil_subset _) hstarted

end

/-- A row is rescheduled, and another worker that has it next on its list starts it at once. -/
theorem exists_early_start (hs : Sound setup s)
    {rest' : List String} (hp : s.phase p = .writing old new rest)
    (hpending : new.row.status = .pending) (hearly : s.clock < new.row.nextAttemptAt)
    (hq : s.phase q = .queued (old.id :: rest')) :
    ∃ t, execute (System.step setup) s [(p, .commit), (q, .take)] = some t ∧
      ∃ a ∈ t.starts, a.1.id = old.id ∧ a.2 < a.1.nextAttemptAt := by
  have hvalid := hs.valid_of hp
  obtain ⟨hold, -⟩ := hvalid.current old rfl
  have hid := hvalid.fits.id_eq
  have hlocked := hvalid.locked _ mem_cons_self
  have hhandler : new.row.actionType ∈ setup.handlers := by
    rw [hvalid.fits.actionType_eq]
    exact hvalid.fits.handler (by rw [hpending]; exact nofun)
  have hne : q ≠ p := by
    rintro rfl
    rw [hp] at hq
    cases hq
  -- the table after the commit, in which the row is pending and not locked
  have hcommit : s.step setup p .commit = some (s.committed p new rest) := by
    simp [System.step, hp, System.committed]
  have hq' : (s.committed p new rest).phase q = .queued (old.id :: rest') := by
    rw [← hq]
    exact update_of_ne hne _ _
  have hrow : rowById (s.committed p new rest).rows old.id = some new.row :=
    (rowById_eq_some (hs.step hcommit).nodup).mpr ⟨mem_map.mpr ⟨_, hold, if_pos hid.symm⟩, hid⟩
  obtain ⟨t, htake, -, hstarts, -⟩ := step_take hq' (if_pos hlocked) hrow hpending hhandler
  refine ⟨t, by simp only [execute, hcommit, htake], (new.row, s.clock), ?_, hid, hearly⟩
  rw [hstarts]
  exact mem_append_right _ mem_cons_self

/-- **The retry discipline holds exactly as long as no row on another list is rescheduled.**  In
every run in which a row is rescheduled only while no other worker has it on its list, no handler
starts before its row is due or on a row that is final, attempts stay within their limit, and a
final row never changes.  A row that is rescheduled while it is next on another list is started
before its time. -/
theorem punctual_iff_alone (setup : Setup) (clock : ℤ) (s : System)
    (hrun : Relation.ReflTransGen (Turn (System.step setup) Alone) (.start clock) s) :
    (∀ a ∈ s.starts, a.1.status = .pending ∧ a.1.nextAttemptAt ≤ a.2) ∧
      (∀ row ∈ s.rows,
        row.attempts ≤ maxAttempts ∧ (row.status = .pending → row.attempts < maxAttempts)) ∧
      (∀ p m t, s.step setup p m = some t → ∀ row ∈ s.rows, row.status ≠ .pending →
        rowById t.rows row.id = some row) ∧
      ∀ p q old new rest rest', s.phase p = .writing old new rest → new.row.status = .pending →
        s.clock < new.row.nextAttemptAt → s.phase q = .queued (old.id :: rest') →
        ∃ t, execute (System.step setup) s [(p, .commit), (q, .take)] = some t ∧
          ∃ a ∈ t.starts, a.1.id = old.id ∧ a.2 < a.1.nextAttemptAt := by
  obtain ⟨hs, hpu⟩ := Turn.invariant (P := fun s => Sound setup s ∧ Punctual s)
    (fun _ _ _ _ ih halone hstep => ⟨ih.1.step hstep, ih.2.step ih.1 halone hstep⟩)
    ⟨.start clock, nofun, nofun⟩ hrun
  refine ⟨fun a ha => ⟨hs.started a ha, hpu.started a ha⟩, hs.bounded,
    fun p m t hstep row hrow hfinal => ?_,
    fun p q old new rest rest' hp hpending hearly hq => exists_early_start hs hp hpending hearly hq⟩
  exact (rowById_eq_some (hs.step hstep).nodup).mpr ⟨hs.final hstep hrow hfinal, rfl⟩

/-- Two workers have the row on their lists.  The first one fails and reschedules it, and the
second one starts it at once. -/
theorem started_early :
    ∃ s, execute (System.step plainSetup) (.start 0)
        ([(0, notifyMove), (2, .claim 20), (2, .release)] ++ takeMoves 1 ++
          [(1, .handle (.error "down")), (1, .record), (1, .commit), (2, .take)]) = some s ∧
      s.starts.map (fun a => (a.1.nextAttemptAt, a.2)) = [(0, 0), (10000000, 0)] :=
  ⟨_, rfl, rfl⟩

theorem punctual_notified :
    ∃ s, execute (System.step plainSetup) (.start 0)
        ([(0, notifyMove)] ++ takeMoves 1 ++
          [(1, .handle (.error "down")), (1, .record), (1, .commit)]) = some s ∧
      s.rows.map (·.attempts) = [1] ∧ s.starts.length = 1 ∧
      ∀ a ∈ s.starts, a.1.status = .pending ∧ a.1.nextAttemptAt ≤ a.2 := by
  refine ⟨_, rfl, rfl, rfl, (punctual_iff_alone plainSetup 0 _ (run_of_allows
    ([(0, notifyMove)] ++ takeMoves 1 ++ [(1, .handle (.error "down")), (1, .record), (1, .commit)])
    rfl ?_)).1⟩
  refine ⟨nofun, nofun, nofun, nofun, nofun, nofun, fun _ old new rest _ _ q hq => ?_, trivial⟩
  simp [System.goto, System.lock, System.unlock, System.start, Phase.ids, hq]

end BbzPlatform.Outbox
