import BbzPlatform.Commands.Store

/-!
# At most one execution

The row of a command id works as a lock: a request that inserts it owns it until it has completed
or deleted it.  As long as no exception leaves the guarded block after the body's transaction has
committed, the row outlives the execution and no second request gets past it.

An exception at that point deletes the row of an execution whose effect is there to stay, and the
next request runs again.
-/

namespace BbzPlatform.Commands

open Turns Relation List

/-- The request has inserted the row and not yet given it up. -/
def Phase.Owns : Phase → Prop
  | .running | .committed _ | .finishing _ | .failing => True
  | _ => False

/-- The phases that neither own the row nor show a result. -/
def Phase.Idle : Phase → Prop
  | .start | .conflict | .refused _ | .raised => True
  | _ => False

variable {δ : Type}

/-- The invariant. -/
structure Inv (s : State δ) : Prop where
  owner_unique : ∀ p q, (s.phase p).Owns → (s.phase q).Owns → p = q
  owner_row : ∀ p, (s.phase p).Owns → ∃ claim, s.row = some ⟨claim, none⟩
  committed : ∀ p result, s.phase p = .committed result → (p, result) ∈ s.effects
  effect : ∀ e ∈ s.effects, s.effects = [e] ∧
    (∃ claim, s.row = some ⟨claim, none⟩ ∨ s.row = some ⟨claim, some e.2⟩) ∧
    (∀ q, (s.phase q).Owns → q = e.1 ∧ (s.phase q = .committed e.2 ∨ s.phase q = .finishing e.2)) ∧
    ∀ q result, s.phase q = .returned result → q = e.1
  shown : ∀ q result, s.phase q = .replayed result ∨ s.phase q = .returned result →
    ∃ claim, s.row = some ⟨claim, some result⟩
  fresh : FinitelyMany .start s.phase

variable {hash : δ} {result : StoredResult} {s t : State δ} {p : ℕ} {phase : Phase}
  {key : ℕ → ClaimKey δ}

theorem row_of_lookup [DecidableEq δ] {row : Option (CommandRow δ)}
    (h : lookup row hash = .ok result) : ∃ claim, row = some ⟨claim, some result⟩ := by
  unfold lookup at h
  split at h
  · cases h
  next row =>
    split at h
    · cases h
    · split at h
      · cases h
      next r hr =>
        cases h
        exact ⟨row.claim, by rw [← hr]⟩

namespace Inv

theorem init : Inv (State.init : State δ) where
  owner_unique := fun _ _ h => h.elim
  owner_row := fun _ h => h.elim
  committed := fun _ _ h => by cases h
  effect := fun _ h => by cases h
  shown := fun _ _ h => by rcases h with h | h <;> cases h
  fresh := ⟨0, fun _ _ => rfl⟩

/-- What the invariant gives. -/
theorem once (h : Inv s) : Once s := by
  refine ⟨?_, fun e he q hq => ?_⟩
  · cases heff : s.effects with
    | nil => simp
    | cons e rest =>
      have hone := (h.effect e (heff ▸ mem_cons_self)).1
      rw [← heff, hone]
      exact le_rfl
  · obtain ⟨-, ⟨claim, hrow⟩, hown, hret⟩ := h.effect e he
    have hno : ¬ (s.phase q).Owns := fun ho => hq (hown q ho).1
    cases hphase : s.phase q with
    | start | conflict | refused _ | raised => trivial
    | replayed result =>
      obtain ⟨claim', hshown⟩ := h.shown q result (.inl hphase)
      rcases hrow with hrow | hrow
      · rw [hrow] at hshown
        cases hshown
      · rw [hrow] at hshown
        cases hshown
        rfl
    | returned result => exact hq (hret q result hphase)
    | running | committed _ | finishing _ | failing => exact hno (by rw [hphase]; trivial)

section

variable (h : Inv s)
include h

/-- While the row is pending nothing has been shown. -/
theorem not_shown (ho : (s.phase p).Owns) (q : ℕ) (result : StoredResult) :
    ¬ (s.phase q = .replayed result ∨ s.phase q = .returned result) := by
  intro hshown
  obtain ⟨claim, hrow⟩ := h.owner_row p ho
  obtain ⟨claim', hrow'⟩ := h.shown q result hshown
  rw [hrow] at hrow'
  cases hrow'

/-- Without a row nothing has happened. -/
theorem of_no_row (hrow : s.row = none) :
    s.effects = [] ∧ (∀ q, ¬ (s.phase q).Owns) ∧
      ∀ q result, ¬ (s.phase q = .replayed result ∨ s.phase q = .returned result) := by
  refine ⟨eq_nil_iff_forall_not_mem.mpr fun e he => ?_, fun q ho => ?_,
    fun q result hs => ?_⟩
  · obtain ⟨-, ⟨claim, hr⟩, -⟩ := h.effect e he
    rw [hrow] at hr
    rcases hr with hr | hr <;> cases hr
  · obtain ⟨claim, hr⟩ := h.owner_row q ho
    rw [hrow] at hr
    cases hr
  · obtain ⟨claim, hr⟩ := h.shown q result hs
    rw [hrow] at hr
    cases hr

theorem no_effects (ho : (s.phase p).Owns) (hc : ∀ result, s.phase p ≠ .committed result)
    (hf : ∀ result, s.phase p ≠ .finishing result) : s.effects = [] := by
  refine eq_nil_iff_forall_not_mem.mpr fun e he => ?_
  rcases ((h.effect e he).2.2.1 p ho).2 with hphase | hphase
  · exact hc _ hphase
  · exact hf _ hphase

/-- **A request moves to a phase that fits the row and the effects.** -/
theorem goto (p : ℕ) (phase : Phase)
    (howns : phase.Owns → (∃ claim, s.row = some ⟨claim, none⟩) ∧
      (∀ q, q ≠ p → ¬ (s.phase q).Owns) ∧
      ∀ e ∈ s.effects, p = e.1 ∧ (phase = .committed e.2 ∨ phase = .finishing e.2))
    (hcommitted : ∀ result, phase = .committed result → (p, result) ∈ s.effects)
    (hshown : ∀ result, phase = .replayed result ∨ phase = .returned result →
      ∃ claim, s.row = some ⟨claim, some result⟩)
    (hreturned : ∀ result, phase = .returned result → ∀ e ∈ s.effects, p = e.1) :
    Inv (s.goto p phase) := by
  -- every clause but the first speaks of one request's phase: it is the moved one, or the old one
  have hq : ∀ q, q = p ∨ q ≠ p ∧ (s.goto p phase).phase q = s.phase q := fun q =>
    (eq_or_ne q p).imp_right fun hne => ⟨hne, s.goto_phase_of_ne hne phase⟩
  refine ⟨fun q q' ho ho' => ?_,
    forall_update (Q := fun _ (ph : Phase) => ph.Owns → ∃ claim, s.row = some ⟨claim, none⟩)
      (fun ho => (howns ho).1) h.owner_row,
    forall_update (Q := fun q (ph : Phase) => ∀ result, ph = .committed result →
      (q, result) ∈ s.effects) hcommitted h.committed,
    fun e he => ?_,
    forall_update (Q := fun _ (ph : Phase) =>
      ∀ result, ph = .replayed result ∨ ph = .returned result →
      ∃ claim, s.row = some ⟨claim, some result⟩) hshown h.shown,
    h.fresh.update p phase⟩
  · rcases hq q with rfl | ⟨hne, heq⟩
    · rcases hq q' with rfl | ⟨hne', heq'⟩
      · rfl
      · rw [State.goto_phase_self] at ho
        exact absurd (heq' ▸ ho') ((howns ho).2.1 q' hne')
    · rcases hq q' with rfl | ⟨hne', heq'⟩
      · rw [State.goto_phase_self] at ho'
        exact absurd (heq ▸ ho) ((howns ho').2.1 q hne)
      · exact h.owner_unique q q' (heq ▸ ho) (heq' ▸ ho')
  · obtain ⟨hone, hrow, hown, hret⟩ := h.effect e he
    exact ⟨hone, hrow,
      forall_update (Q := fun q (ph : Phase) => ph.Owns → q = e.1 ∧ (ph = .committed e.2 ∨
        ph = .finishing e.2)) (fun ho => (howns ho).2.2 e he) hown,
      forall_update (Q := fun q (ph : Phase) => ∀ result, ph = .returned result → q = e.1)
        (fun result hphase => hreturned result hphase e he) hret⟩

/-- A request that gives up, or waits, keeps the invariant. -/
theorem goto_idle (p : ℕ) (hi : phase.Idle) : Inv (s.goto p phase) := by
  cases phase with
  | running | committed _ | finishing _ | failing | returned _ | replayed _ => exact hi.elim
  | start | conflict | refused _ | raised =>
    refine h.goto p _ (fun ho => ho.elim) (fun _ heq => ?_) (fun _ heq => ?_) (fun _ heq => ?_)
    · cases heq
    · rcases heq with heq | heq <;> cases heq
    · cases heq

theorem goto_owns (ho : (s.phase p).Owns)
    (hfit : ∀ e ∈ s.effects, p = e.1 → s.phase p = .committed e.2 ∨ s.phase p = .finishing e.2 →
      phase = .committed e.2 ∨ phase = .finishing e.2)
    (hcommitted : ∀ result, phase = .committed result → (p, result) ∈ s.effects)
    (howns : phase.Owns) : Inv (s.goto p phase) := by
  refine h.goto p phase (fun _ => ⟨h.owner_row p ho, fun q hne hq => ?_, fun e he => ?_⟩)
    hcommitted (fun result heq => ?_) (fun result heq => ?_)
  · exact hne (h.owner_unique q p hq ho)
  · obtain ⟨heq, hphase⟩ := (h.effect e he).2.2.1 p ho
    exact ⟨heq, hfit e he heq hphase⟩
  · rcases heq with rfl | rfl <;> exact howns.elim
  · subst heq
    exact howns.elim

/-- The row is written while no request owns it and nobody has been shown a result. -/
theorem setRow (row : Option (CommandRow δ)) (hno : ∀ q, ¬ (s.phase q).Owns)
    (hnone : ∀ q result, ¬ (s.phase q = .replayed result ∨ s.phase q = .returned result))
    (hrow : ∀ e ∈ s.effects, ∃ claim, row = some ⟨claim, none⟩ ∨ row = some ⟨claim, some e.2⟩) :
    Inv (s.setRow row) where
  owner_unique := h.owner_unique
  owner_row := fun q ho => (hno q ho).elim
  committed := h.committed
  effect := fun e he =>
    ⟨(h.effect e he).1, hrow e he, (h.effect e he).2.2⟩
  shown := fun q result hs => (hnone q result hs).elim
  fresh := h.fresh

theorem owner_stops (ho : (s.phase p).Owns) :
    (∀ q, ¬ ((s.goto p .raised).phase q).Owns) ∧ ∀ q result,
      ¬ ((s.goto p .raised).phase q = .replayed result ∨
        (s.goto p .raised).phase q = .returned result) := by
  refine ⟨fun q hq => ?_, fun q result hs => ?_⟩
  · rcases eq_or_ne q p with rfl | hne
    · rw [State.goto_phase_self] at hq
      exact hq
    · rw [s.goto_phase_of_ne hne] at hq
      exact hne (h.owner_unique q p hq ho)
  · rcases eq_or_ne q p with rfl | hne
    · rw [State.goto_phase_self] at hs
      rcases hs with hs | hs <;> cases hs
    · rw [s.goto_phase_of_ne hne] at hs
      exact h.not_shown ho q result hs

/-- The `INSERT` when the id is free. -/
theorem insert (claim : ClaimKey δ) (hrow : s.row = none) :
    Inv (s.setRow (some ⟨claim, none⟩)) ∧
      ∀ p, Inv ((s.setRow (some ⟨claim, none⟩)).goto p .running) := by
  obtain ⟨heff, hno, hnone⟩ := h.of_no_row hrow
  have hset : Inv (s.setRow (some ⟨claim, none⟩)) :=
    h.setRow _ hno hnone fun e he => ⟨claim, .inl rfl⟩
  refine ⟨hset, fun p => ?_⟩
  refine hset.goto p .running (fun _ => ⟨⟨claim, rfl⟩, fun q _ => hno q, fun e he => ?_⟩)
    (fun _ heq => ?_) (fun _ heq => ?_) (fun _ heq => ?_)
  · change e ∈ s.effects at he
    rw [heff] at he
    cases he
  · cases heq
  · rcases heq with heq | heq <;> cases heq
  · cases heq

theorem commit (hp : s.phase p = .running) (result : StoredResult) :
    Inv { s.goto p (.committed result) with effects := s.effects ++ [(p, result)] } := by
  have ho : (s.phase p).Owns := by rw [hp]; trivial
  have heff : s.effects = [] := h.no_effects ho (by simp [hp]) (by simp [hp])
  obtain ⟨claim, hrow⟩ := h.owner_row p ho
  have hidle : Inv (s.goto p .raised) := h.goto_idle p trivial
  obtain ⟨hno, hnone⟩ := h.owner_stops ho
  -- seen from outside, the execution stops, its effect is recorded and it takes the row back
  have hrecord : Inv { s.goto p .raised with effects := [(p, result)] } := by
    refine ⟨hidle.owner_unique, hidle.owner_row, fun q r hq => ?_, fun e he => ?_,
      hidle.shown, hidle.fresh⟩
    · exact absurd (hq ▸ trivial) (hno q)
    · rw [mem_singleton] at he
      subst he
      exact ⟨rfl, ⟨claim, .inl hrow⟩, fun q hq => (hno q hq).elim,
        fun q r hq => (hnone q r (.inr hq)).elim⟩
  have hgoto := hrecord.goto p (.committed result)
    (fun _ => ⟨⟨claim, hrow⟩, fun q _ => hno q, fun e he => ?_⟩) (fun r heq => ?_)
    (fun _ heq => ?_) (fun _ heq => ?_)
  · simpa [State.goto, heff] using hgoto
  · rw [mem_singleton] at he
    subst he
    exact ⟨rfl, .inl rfl⟩
  · cases heq
    exact mem_singleton_self _
  · rcases heq with heq | heq <;> cases heq
  · cases heq

/-- The `DELETE` of `abandon` after a body that has committed nothing. -/
theorem abandon (hp : s.phase p = .failing) :
    Inv ((s.setRow (Commands.abandon s.row)).goto p .raised) := by
  have ho : (s.phase p).Owns := by rw [hp]; trivial
  have heff : s.effects = [] := h.no_effects ho (by simp [hp]) (by simp [hp])
  obtain ⟨hno, hnone⟩ := h.owner_stops ho
  have hidle : Inv (s.goto p .raised) := h.goto_idle p trivial
  refine hidle.setRow _ hno hnone fun e he => ?_
  rw [State.goto_effects, heff] at he
  cases he

/-- The `UPDATE` of `complete`. -/
theorem complete (hp : s.phase p = .finishing result) (row : CommandRow δ) :
    Inv ((s.setRow (some (Commands.complete row result))).goto p .raised) ∧
      Inv ((s.setRow (some (Commands.complete row result))).goto p (.returned result)) := by
  have ho : (s.phase p).Owns := by rw [hp]; trivial
  have hmine : ∀ e ∈ s.effects, p = e.1 ∧ result = e.2 := by
    intro e he
    obtain ⟨heq, hphase⟩ := (h.effect e he).2.2.1 p ho
    refine ⟨heq, ?_⟩
    rw [hp] at hphase
    rcases hphase with hphase | hphase <;> cases hphase
    rfl
  obtain ⟨hno, hnone⟩ := h.owner_stops ho
  have hidle : Inv (s.goto p .raised) := h.goto_idle p trivial
  have hset : Inv ((s.setRow (some (Commands.complete row result))).goto p .raised) :=
    hidle.setRow _ hno hnone fun e he =>
      ⟨row.claim, .inr (by rw [← (hmine e he).2]; rfl)⟩
  refine ⟨hset, ?_⟩
  have hgoto := hset.goto p (.returned result) (fun ho => ho.elim) (fun _ heq => ?_)
    (fun r heq => ⟨row.claim, ?_⟩) (fun _ _ e he => (hmine e he).1)
  · simpa [State.goto] using hgoto
  · cases heq
  · rcases heq with heq | heq <;> cases heq
    rfl

/-- The `SELECT` of a request that found the id taken. -/
theorem look [DecidableEq δ] (p : ℕ) (hlook : lookup s.row hash = .ok result) :
    Inv (s.goto p (.replayed result)) := by
  refine h.goto p _ (fun ho => ho.elim) (fun _ heq => ?_) (fun r heq => ?_) (fun _ heq => ?_)
  · cases heq
  · rcases heq with heq | heq <;> cases heq
    exact row_of_lookup hlook
  · cases heq

/-- **One move of a request that fails early keeps the invariant.** -/
theorem step [DecidableEq δ] {m : Move}
    (hearly : FailsEarly s p m) (hstep : step key s p m = some t) : Inv t := by
  have howner {phase : Phase} (hp : s.phase p = phase) (ho : phase.Owns) : (s.phase p).Owns :=
    hp ▸ ho
  have hwork {phase : Phase} (hp : s.phase p = .running) (ho : phase.Owns)
      (hc : ∀ result, phase ≠ .committed result) : Inv (s.goto p phase) := by
    refine h.goto_owns (howner hp trivial) (fun e _ _ hphase => ?_) (fun r heq => ?_) ho
    · rw [hp] at hphase
      rcases hphase with hphase | hphase <;> cases hphase
    · exact absurd heq (hc r)
  revert hstep
  fun_cases Commands.step key s p m <;> rintro ⟨⟩ <;> try exact h.goto_idle p trivial
  next hrow => exact (h.insert (key p) hrow).2 p
  next hrow => exact (h.insert (key p) hrow).1.goto_idle p trivial
  next hlook => exact h.look p hlook
  next result hp => exact h.commit hp result
  next hp =>
    refine h.goto_owns (howner hp trivial) (fun e _ _ hphase => ?_) (fun _ heq => ?_) trivial
    · rw [hp] at hphase
      rcases hphase with hphase | hphase <;> cases hphase
      exact .inr rfl
    · cases heq
  next hp => exact hwork hp trivial nofun
  next hp => exact hwork hp trivial nofun
  -- the case that the guard excludes
  next result hp => exact (hearly result hp rfl).elim
  next hp => exact h.abandon hp
  next hp row hrow => exact (h.complete hp row).2
  next hp row hrow => exact (h.complete hp row).1

/-- **Runs in which requests fail early keep the invariant.** -/
theorem run [DecidableEq δ] (hrun : ReflTransGen (Step key FailsEarly) s t) : Inv t := by
  exact Turn.invariant (fun _ _ _ _ ih hearly hstep => ih.step hearly hstep) h hrun

end

/-- After a late failure the command runs a second time. -/
theorem second_effect [DecidableEq δ] (key : ℕ → ClaimKey δ) (h : Inv s)
    (hp : s.phase p = .committed result) :
    ∃ t, ReflTransGen (AnyStep key) s t ∧ 2 ≤ t.effects.length := by
  obtain ⟨claim, hrow⟩ := h.owner_row p (by rw [hp]; trivial)
  obtain ⟨n, hne, hn⟩ := h.fresh.exists_fresh p
  have heff := (h.effect _ (h.committed p result hp)).1
  -- `p` fails and drops the row; the fresh request `n` inserts it again and commits
  let s₁ := s.goto p .failing
  let s₂ := (s₁.setRow none).goto p .raised
  let s₃ := (s₂.setRow (some ⟨key n, none⟩)).goto n .running
  let s₄ : State δ := { s₃.goto n (.committed result) with effects := s₃.effects ++ [(n, result)] }
  have h₁ : AnyStep key s s₁ := ⟨p, .fail, trivial, by simp [Commands.step, hp, s₁]⟩
  have h₂ : AnyStep key s₁ s₂ :=
    ⟨p, .abandon, trivial, by simp [Commands.step, s₁, s₂, hrow, Commands.abandon]⟩
  have hstart : s₂.phase n = .start := by
    rw [State.goto_phase_of_ne _ hne]
    exact (State.goto_phase_of_ne _ hne _).trans hn
  have h₃ : AnyStep key s₂ s₃ := by
    refine ⟨n, .insert, trivial, ?_⟩
    simp only [Commands.step, hstart]
    rfl
  have h₄ : AnyStep key s₃ s₄ := ⟨n, .commit result, trivial, by simp [Commands.step, s₃, s₄]⟩
  refine ⟨s₄, (((ReflTransGen.single h₁).tail h₂).tail h₃).tail h₄, ?_⟩
  have : s₄.effects = s.effects ++ [(n, result)] := rfl
  rw [this, heff]
  exact le_rfl

end Inv

variable [DecidableEq δ]

/-- **Requests with one command id execute once exactly as long as none fails late.**  If in a run
no request fails after its body has committed, at most one execution has committed in every state,
and the other requests replay its result or are refused.  A state with a committed body can be
continued, by a failure of that request and one retry, to a second committed execution. -/
theorem once_iff_fails_early (key : ℕ → ClaimKey δ) (s : State δ)
    (hrun : ReflTransGen (Step key FailsEarly) State.init s) :
    Once s ∧ ((∃ p m, ¬ FailsEarly s p m) →
      ∃ t, ReflTransGen (AnyStep key) s t ∧ 2 ≤ t.effects.length) := by
  have h := Inv.init.run hrun
  refine ⟨h.once, fun hlate => ?_⟩
  obtain ⟨p, m, hlate⟩ := hlate
  unfold FailsEarly at hlate
  push Not at hlate
  obtain ⟨result, hp, -⟩ := hlate
  exact h.second_effect key hp

/-- The key of a `create_event` request. -/
def createKey (_ : ℕ) : ClaimKey String := ⟨some "user", "POST /api/v1/events", "hash"⟩

/-- The answer to a created event. -/
def createdResult : StoredResult := ⟨201, .null⟩

/-- A request that inserts its row and commits has executed once. -/
theorem once_created : ∃ s : State String, Once s ∧ s.effects = [(0, createdResult)] := by
  let s₁ : State String := (State.init.setRow (some ⟨createKey 0, none⟩)).goto 0 .running
  let s₂ : State String := { s₁.goto 0 (.committed createdResult) with
    effects := [(0, createdResult)] }
  have h₁ : Step createKey FailsEarly State.init s₁ := ⟨0, .insert, fun _ h => (by cases h), rfl⟩
  have h₂ : Step createKey FailsEarly s₁ s₂ :=
    ⟨0, .commit createdResult, fun _ _ h => (by cases h), rfl⟩
  exact ⟨s₂, (once_iff_fails_early createKey s₂ ((ReflTransGen.single h₁).tail h₂)).1, rfl⟩

/-- `create_event` commits, its notification fails and the row is deleted: the retry creates a
second event. -/
theorem created_twice : ∃ s, ReflTransGen (AnyStep createKey) State.init s ∧ ¬ Once s := by
  obtain ⟨s, hrun, htwo⟩ : ∃ s, execute (step createKey) State.init
      [(0, .insert), (0, .commit createdResult), (0, .fail), (0, .abandon),
        (1, .insert), (1, .commit createdResult)] = some s ∧ s.effects.length = 2 :=
    ⟨_, rfl, rfl⟩
  refine ⟨s, run_of_execute hrun, fun h => ?_⟩
  have := h.1
  omega

end BbzPlatform.Commands
