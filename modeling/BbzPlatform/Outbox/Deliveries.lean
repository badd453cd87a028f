import BbzPlatform.Outbox.Dispatcher

/-!
# Rows are delivered at most once

The effect of a handler is outside the transaction, so a failure between its return and the commit
leaves a pending row whose action has been taken.  Without such a failure no row is delivered twice.
-/

namespace BbzPlatform.Outbox

open Turns Function List

/-- No failure strikes a worker between its handler's return and the commit. -/
def Undisturbed (s : System) (p : ℕ) (m : Move) : Prop :=
  m = .crash ∨ m = .rollback → (s.phase p).delivers = none

variable {setup : Setup} {s t : System} {p q : ℕ} {m : Move} {phase : Phase} {row old : OutboxRow}
  {ids rest : List String} {new : Written} {id : String}

/-- Every row is delivered at most once; a delivered row is dispatched, or is about to be. -/
structure Once (s : System) : Prop where
  nodup : s.delivered.Nodup
  settled : ∀ id ∈ s.delivered,
    (∃ row ∈ s.rows, row.id = id ∧ row.status = .dispatched) ∨ ∃ p, (s.phase p).delivers = some id
  listed : ∀ p id, (s.phase p).delivers = some id → id ∈ s.delivered

theorem Phase.delivers_mem_held (h : phase.delivers = some id) : id ∈ phase.held := by
  cases phase with
  | returned row outcome rest =>
    cases outcome with
    | ok result => simp_all [delivers, held]
    | error error => cases h
  | writing old new rest =>
    rw [delivers] at h
    split at h
    · rw [← Option.some.inj h]
      exact mem_cons_self
    · cases h
  | _ => cases h

/-- A worker moves, and delivers what it delivered before. -/
theorem Once.move (ho : Once s) (hphase : t.phase = Function.update s.phase p phase)
    (hdelivered : t.delivered = s.delivered)
    (hrows : ∀ row ∈ s.rows, row.status ≠ .pending → row ∈ t.rows)
    (hsame : phase.delivers = (s.phase p).delivers) : Once t := by
  have hdelivers : ∀ q, (t.phase q).delivers = (s.phase q).delivers := by
    rw [hphase]
    exact (forall_update_iff s.phase fun q (x : Phase) =>
      x.delivers = (s.phase q).delivers).mpr ⟨hsame, fun _ _ => rfl⟩
  refine ⟨hdelivered ▸ ho.nodup, fun id hid => ?_, fun q id hq => ?_⟩
  · rw [hdelivered] at hid
    rcases ho.settled id hid with ⟨row, hrow, heq, hstatus⟩ | ⟨q, hq⟩
    · exact .inl ⟨row, hrows row hrow (by rw [hstatus]; exact nofun), heq, hstatus⟩
    · exact .inr ⟨q, (hdelivers q).trans hq⟩
  · rw [hdelivered]
    exact ho.listed q id ((hdelivers q).symm.trans hq)

section

variable (hs : Sound setup s) (ho : Once s)
include hs ho

/-- **The handler of a locked row has not returned before.** -/
theorem Once.not_delivered (hp : s.phase p = .running row rest) :
    row.id ∉ s.delivered := by
  intro hmem
  have hvalid := hs.valid_of hp
  obtain ⟨hrow, hpending⟩ := hvalid.current row rfl
  rcases ho.settled row.id hmem with ⟨done, hdone, hid, hstatus⟩ | ⟨q, hq⟩
  · rw [inj_on_of_nodup_map hs.nodup hdone hrow hid, hpending] at hstatus
    cases hstatus
  · -- another worker would hold the same lock
    have hlocked := (hs.valid q).locked _ (Phase.delivers_mem_held hq)
    rw [hvalid.locked _ mem_cons_self] at hlocked
    obtain rfl := Option.some.inj hlocked
    rw [hp] at hq
    cases hq

theorem Once.deliver (hp : s.phase p = .running row rest)
    (result : Option Json) :
    Once { s.goto p (.returned row (.ok result) rest) with
      delivered := s.delivered ++ [row.id] } := by
  have hother : ∀ q id, (s.phase q).delivers = some id →
      (Function.update s.phase p (.returned row (.ok result) rest) q).delivers = some id := by
    intro q id hq
    rwa [update_of_ne]
    rintro rfl
    rw [hp] at hq
    cases hq
  have hnodup : (s.delivered ++ [row.id]).Nodup := by
    rw [← concat_eq_append]
    exact Nodup.concat (ho.not_delivered hs hp) ho.nodup
  refine ⟨hnodup, fun id hid => ?_,
    forall_update (Q := fun _ (x : Phase) => ∀ id, x.delivers = some id →
      id ∈ s.delivered ++ [row.id]) ?_ fun q id hq => mem_append_left _ (ho.listed q id hq)⟩
  · rcases mem_append.mp hid with hid | hid
    · rcases ho.settled id hid with hdone | ⟨q, hq⟩
      · exact .inl hdone
      · exact .inr ⟨q, hother q id hq⟩
    · rw [mem_singleton.mp hid]
      refine .inr ⟨p, ?_⟩
      change (Function.update s.phase p _ p).delivers = _
      rw [update_self]
      rfl
  · rintro id ⟨⟩
    exact mem_append_right _ mem_cons_self

theorem Once.commit (hp : s.phase p = .writing old new rest) :
    Once (s.committed p new rest) := by
  have hvalid := hs.valid_of hp
  obtain ⟨hold, hpending⟩ := hvalid.current old rfl
  have hid := hvalid.fits.id_eq
  refine ⟨ho.nodup, fun id hmem => ?_, forall_update (Q := fun _ (x : Phase) => ∀ id,
    x.delivers = some id → id ∈ s.delivered) nofun ho.listed⟩
  · rcases ho.settled id hmem with ⟨row, hrow, heq, hstatus⟩ | ⟨q, hq⟩
    · refine .inl ⟨row, mem_update_of_ne hrow fun hsame => ?_, heq, hstatus⟩
      rw [hid] at hsame
      rw [inj_on_of_nodup_map hs.nodup hrow hold hsame, hpending] at hstatus
      cases hstatus
    · rcases eq_or_ne q p with rfl | hne
      · rw [hp, Phase.delivers] at hq
        split at hq
        next hstatus =>
          exact .inl ⟨new.row, mem_map.mpr ⟨_, hold, if_pos hid.symm⟩,
            hid.trans (Option.some.inj hq), hstatus⟩
        · cases hq
      · exact .inr ⟨q, by
          change (Function.update s.phase p _ q).delivers = _
          rwa [update_of_ne hne]⟩

/-- **A move keeps deliveries single as long as no failure strikes after a handler's return.** -/
theorem Once.step (hundisturbed : Undisturbed s p m)
    (hstep : s.step setup p m = some t) : Once t := by
  have hfinal : ∀ row ∈ s.rows, row.status ≠ .pending → row ∈ t.rows :=
    fun row hrow => hs.final hstep hrow
  cases happens_of_step hstep with
  | wait duration => exact ⟨ho.nodup, ho.settled, ho.listed⟩
  | enqueue hid dedupeKey actionType payload ago =>
    exact ho.move (p := p) (update_eq_self p s.phase).symm rfl hfinal rfl
  | claim hp limit hids | release hp | skip hp | run hp hfree hrow hpending hhandler
  | refuse hp hfree hrow hpending | raise hp error => exact ho.move rfl rfl hfinal (by rw [hp]; rfl)
  | deliver hp result => exact ho.deliver hs hp result
  | @record row outcome rest hp =>
    have hvalid := hs.valid_of hp
    refine ho.move rfl rfl hfinal ?_
    rw [hp]
    cases outcome with
    | ok result => simp [Phase.delivers, recorded, OutboxRow.markDispatched]
    | error error =>
      refine if_neg fun hstatus => ?_
      obtain ⟨result, heq⟩ := recorded_dispatched (hvalid.current row rfl).2 hstatus
      cases heq
  | commit hp => exact ho.commit hs hp
  | rollback hp => exact ho.move rfl rfl hfinal (hundisturbed (.inr rfl)).symm
  | done hp => exact ho.move rfl rfl hfinal (by rw [hp]; rfl)
  | crash => exact ho.move rfl rfl hfinal (hundisturbed (.inl rfl)).symm

end

/-- The row of a worker whose handler has returned. -/
theorem Valid.of_delivers (h : Valid setup s p phase) (hid : phase.delivers = some id) :
    ∃ row ∈ phase.row?, row.id = id ∧ row.actionType ∈ setup.handlers := by
  cases phase with
  | returned row outcome rest =>
    cases outcome with
    | ok result => exact ⟨row, rfl, Option.some.inj hid, h.fits⟩
    | error error => cases hid
  | writing old new rest =>
    rw [Phase.delivers] at hid
    split at hid
    next hstatus =>
      exact ⟨old, rfl, Option.some.inj hid, h.fits.handler (by rw [hstatus]; exact nofun)⟩
    · cases hid
  | _ => cases hid

/-- A worker fails after its handler's return, and one that has the row on its list takes it. -/
theorem exists_second_delivery (hs : Sound setup s) (ho : Once s)
    (hp : (s.phase p).delivers = some id) (hq : s.phase q = .queued (id :: rest))
    (result : Option Json) : ∃ t, execute (System.step setup) s
        [(p, .crash), (q, .take), (q, .handle (.ok result))] = some t ∧
      t.delivered.count id = 2 := by
  obtain ⟨row, hrow, rfl, hhandler⟩ := (hs.valid p).of_delivers hp
  obtain ⟨hmem, hpending⟩ := (hs.valid p).current row hrow
  have hlocked := (hs.valid p).locked _ (Phase.id_mem_held hrow)
  have hne : q ≠ p := by
    rintro rfl
    rw [hq] at hp
    cases hp
  have hq' : ((s.unlock p).goto p .idle).phase q = .queued (row.id :: rest) := by
    rw [← hq]
    exact update_of_ne hne _ _
  obtain ⟨r, htake, hrunning, -, hdelivered⟩ := step_take hq' (if_pos hlocked)
    ((rowById_eq_some hs.nodup).mpr ⟨hmem, rfl⟩) hpending hhandler
  have hone : s.delivered.count row.id = 1 :=
    count_eq_one_of_mem ho.nodup (ho.listed p row.id hp)
  have hcrash : s.step setup p .crash = some ((s.unlock p).goto p .idle) := by simp [System.step]
  have hcount : (s.delivered ++ [row.id]).count row.id = 2 := by
    rw [count_append, hone, count_singleton_self]
  have hhandle : ∃ t, r.step setup q (.handle (.ok result)) = some t ∧
      t.delivered = s.delivered ++ [row.id] := by
    simp [System.step, hrunning, hdelivered, System.goto, System.unlock]
  obtain ⟨t, hhandle, heq⟩ := hhandle
  exact ⟨t, by simp only [execute, hcrash, htake, hhandle], heq ▸ hcount⟩

/-- **An action succeeds at most once exactly as long as no failure strikes after a handler's
return.**  In every run in which no worker fails between its handler's return and its commit, no
handler returns twice for one row.  A worker that does fail there leaves the row to the next one
that has it on its list, and its handler may return once more. -/
theorem delivered_once_iff_undisturbed (setup : Setup) (clock : ℤ) (s : System)
    (hrun : Relation.ReflTransGen (Turn (System.step setup) Undisturbed) (.start clock) s) :
    (∀ id, s.delivered.count id ≤ 1) ∧
      ∀ p q id rest result, (s.phase p).delivers = some id → s.phase q = .queued (id :: rest) →
        ∃ t, execute (System.step setup) s
            [(p, .crash), (q, .take), (q, .handle (.ok result))] = some t ∧
          t.delivered.count id = 2 := by
  obtain ⟨hs, ho⟩ := Turn.invariant (P := fun s => Sound setup s ∧ Once s)
    (fun _ _ _ _ ih hundisturbed hstep => ⟨ih.1.step hstep, ih.2.step ih.1 hundisturbed hstep⟩)
    ⟨.start clock, nodup_nil, nofun, nofun⟩ hrun
  exact ⟨nodup_iff_count_le_one.mp ho.nodup,
    fun p q id rest result hp hq => exists_second_delivery hs ho hp hq result⟩

/-- The handler has returned when its worker dies, and the next worker delivers once more. -/
theorem notified_twice :
    ∃ s, execute (System.step plainSetup) (.start 0)
        ([(0, notifyMove)] ++ takeMoves 1 ++ [(1, .handle (.ok none)), (1, .crash)] ++
          takeMoves 2 ++ [(2, .handle (.ok none))]) = some s ∧
      s.delivered = ["o1", "o1"] :=
  ⟨_, rfl, rfl⟩

theorem delivered_once_notified :
    ∃ s, execute (System.step plainSetup) (.start 0)
        ([(0, notifyMove)] ++ takeMoves 1 ++
          [(1, .handle (.ok none)), (1, .record), (1, .commit)]) = some s ∧
      s.rows.map (·.status) = [.dispatched] ∧ ∀ id, s.delivered.count id ≤ 1 := by
  refine ⟨_, rfl, rfl, (delivered_once_iff_undisturbed plainSetup 0 _ (run_of_allows
    ([(0, notifyMove)] ++ takeMoves 1 ++ [(1, .handle (.ok none)), (1, .record), (1, .commit)])
    rfl ?_)).1⟩
  refine ⟨?_, ?_, ?_, ?_, ?_, ?_, ?_, trivial⟩ <;> rintro (h | h) <;> cases h

end BbzPlatform.Outbox
