import BbzPlatform.Lib.Turns
import BbzPlatform.Workflow.Locality
import BbzPlatform.Workflow.Stages

/-!
# Two steps finished at the same time

`complete_step` reads the results, the tokens, the context and the decisions one after the
other and locks none of them.  What another transaction commits in between is seen by the later
reads only, and what it commits after them is not seen at all: the engine runs on what was
read, and its mutations are written onto the rows as they are then.

If what others have committed left alone what the step looks at, the rows end as if the steps
had been finished one after the other.  The status of the instance may not: each of the two
last steps still sees the token of the other one, and neither completes the instance.
-/

namespace BbzPlatform.Workflow

open RuleDsl Turns Logged Function Relation

variable {ι : Type}

/-! ## Instances that differ in their status -/

def Instance.SameRows (a b : Instance ι) : Prop := b = { a with status := b.status }

section Rows

variable {g : DerivedGraph} {a a' b c : Instance ι}

namespace Instance.SameRows

theorem refl (a : Instance ι) : a.SameRows a := rfl

variable (h : a.SameRows b)
include h

theorem symm : b.SameRows a := by
  rw [SameRows, h]

theorem tokens_eq : b.tokens = a.tokens := by rw [h]

theorem stepDone_eq (k : String) : b.stepDone k = a.stepDone k := by
  rw [h]
  rfl

theorem addResult (k : String) (result : Json) (actor : Option String) :
    (a.addResult k result actor).SameRows (b.addResult k result actor) := by
  rw [h]
  rfl

theorem enqueue (row : OutboxRow) : (a.enqueue row).SameRows (b.enqueue row) := by
  rw [h]
  unfold Instance.enqueue
  dsimp only
  split_ifs <;> rfl

variable [LinearOrder ι] {ext : Externals} {env : Env ι} {calls : List (Call ι)}

theorem call_eq (target : Option String) : b.call env target = a.call env target := by
  rw [h]
  rfl

/-- Writing a result onto the same rows, whether or not it completes the instance. -/
theorem apply (r : EngineResult ι) (completed : Bool) :
    (a.apply env r).SameRows (b.apply env { r with completed := completed }) := by
  rw [Instance.apply_eq, Instance.apply_eq, h]
  rfl

theorem armTimers {rows : List (TokenRow ι)} (ha : armTimers ext env g a rows = .ok a') :
    ∃ b', armTimers ext env g b rows = .ok b' ∧ a'.SameRows b' := by
  obtain ⟨u, hrows, ⟨⟩⟩ := Raising.bind_eq_ok.mp ha
  refine ⟨_, Raising.bind_eq_ok.mpr ⟨u, hrows, rfl⟩, ?_⟩
  rw [h]
  rfl

theorem runAuto {k : String} {n : GraphNode} {kind : FunctionKind}
    (ha : Returns (runAuto env g a k n kind) calls a') :
    ∃ b', Returns (runAuto env g b k n kind) calls b' ∧ a'.SameRows b' := by
  simp only [Workflow.runAuto, returns_bind, returns_lift, runEngine_returns] at ha ⊢
  obtain ⟨-, -, action, ⟨rfl, haction⟩, ⟨r, hr, rfl, rfl⟩, rfl⟩ := ha
  have hid : b.id = a.id := by rw [h]
  have hmid := (h.enqueue (stepOutboxRow b.id k action n kind)).addResult k
    (.obj [("dispatched", .bool true), ("kind", .str kind.name)]) none
  rw [hid] at hmid ⊢
  refine ⟨_, ⟨[], _, action, ⟨rfl, haction⟩, ⟨r, ?_, rfl, rfl⟩, ?_⟩, hmid.apply r r.completed⟩
  · rw [hmid.call_eq]
    exact hr
  · rw [hmid.call_eq]

/-- Settling does not look at the status. -/
theorem settleRounds {rounds : ℕ} (ha : Returns (settleRounds ext env g rounds a) calls a') :
    ∃ b', Returns (settleRounds ext env g rounds b) calls b' ∧ a'.SameRows b' := by
  induction rounds generalizing a b calls with
  | zero => exact absurd ha returns_fail
  | succ rounds ih =>
    obtain ⟨mid, harm, h'⟩ := settleRounds_succ.mp ha
    obtain ⟨mid', harm', hmid⟩ := h.armTimers harm
    have hrows : b.waitingRows = a.waitingRows := by
      rw [Instance.waitingRows, h.tokens_eq]
      rfl
    have hnext : nextAuto g mid' (env.scan a.waitingRows)
        = nextAuto g mid (env.scan a.waitingRows) := by
      simp only [nextAuto, hmid.stepDone_eq]
    rcases h' with ⟨hauto, rfl, rfl⟩ | ⟨k, n, kind, hauto, hn, hkind, hkindAuto, ls₁, ls₂, after,
      hrun, hrest, rfl⟩
    · exact ⟨mid', settleRounds_succ.mpr ⟨mid', hrows ▸ harm', .inl ⟨by rw [hrows, hnext, hauto],
        rfl, rfl⟩⟩, hmid⟩
    · obtain ⟨after', hrun', hafter⟩ := hmid.runAuto hrun
      obtain ⟨last', hrest', hlast⟩ := ih hafter hrest
      exact ⟨last', settleRounds_succ.mpr ⟨mid', hrows ▸ harm', .inr ⟨k, n, kind,
        by rw [hrows, hnext, hauto], hn, hkind, hkindAuto, ls₁, ls₂, after', hrun', hrest', rfl⟩⟩,
        hlast⟩

end Instance.SameRows

end Rows

variable [LinearOrder ι]

/-! ## Transactions that overlap -/

/-- A request to finish a step, and what its transaction meets. -/
structure StepRequest (ι : Type) where
  env : Env ι
  nodeKey : String
  result : Option Json
  actor : Option String

namespace StepRequest

variable (q : StepRequest ι) (ext : Externals) (g : DerivedGraph)

/-- The second half of `complete_step`: run the engine on what was read, and write onto the rows
as they are now. -/
def write (inst : Instance ι) (read : Call ι) : Tx ι (Instance ι) := do
  let r ← request read (match read.outcome g with
    | .ok r => .ok r
    | .error (.stepNotWaiting k) => .error (.stepNotAvailable k)
    | .error err => .error (.engine err))
  settle ext q.env g
    ((inst.addResult q.nodeKey (q.result.getD (.obj [])) q.actor).apply q.env r)

/-- The whole of `complete_step` in one go. -/
def complete (inst : Instance ι) : Tx ι (Instance ι) :=
  completeStep ext q.env g inst q.nodeKey q.result q.actor

end StepRequest

/-- How far a transaction has come: it looks for a result, reads the tokens, the context and the
decisions, and writes. -/
inductive Phase (ι : Type) where
  | opened
  | unfinished
  | tokensRead (tokens : List (Token ι))
  | contextRead (tokens : List (Token ι)) (context : Context)
  | decisionsRead (read : Call ι)
  | returned
  | raised

/-- The two transactions. -/
inductive Side where
  | first | second
  deriving DecidableEq, Repr

/-- The committed rows of the instance, and the two transactions on it. -/
structure Shared (ι : Type) where
  inst : Instance ι
  phase : Side → Phase ι

namespace Shared

/-- Both transactions have just begun. -/
def opened (inst : Instance ι) : Shared ι := ⟨inst, fun _ => .opened⟩

/-- A transaction goes on without a write. -/
def goto (s : Shared ι) (p : Side) (phase : Phase ι) : Shared ι :=
  { s with phase := update s.phase p phase }

/-- The next statement of a transaction.  Each read sees what is committed by then. -/
def step (ext : Externals) (g : DerivedGraph) (req : Side → StepRequest ι) (s : Shared ι)
    (p : Side) (_ : Unit) : Option (Shared ι) :=
  match s.phase p with
  | .opened =>
    some (s.goto p (if s.inst.stepDone (req p).nodeKey then .returned else .unfinished))
  | .unfinished => some (s.goto p (.tokensRead s.inst.liveTokens))
  | .tokensRead tokens =>
    some (s.goto p (.contextRead tokens (s.inst.context (req p).env.event)))
  | .contextRead tokens context =>
    some (s.goto p (.decisionsRead
      ⟨tokens, some (req p).nodeKey, context, s.inst.decisionMap (req p).env⟩))
  | .decisionsRead read =>
    match ((req p).write ext g s.inst read).result with
    | .ok inst => some { s.goto p .returned with inst := inst }
    | .error _ => some (s.goto p .raised)
  | .returned | .raised => none

end Shared

open Shared

/-- What finishing the step looks at is still as the transaction has read it: no result has been
recorded, nothing has changed ahead, and the budget of the engine suffices on both. -/
structure Unaffected (g : DerivedGraph) (q : StepRequest ι) (read : Call ι) (inst : Instance ι) :
    Prop where
  undone : inst.stepDone q.nodeKey = false
  same : Call.SameAhead g q.nodeKey read (inst.call q.env (some q.nodeKey))
  fits_read : read.Fits g
  fits : (inst.call q.env (some q.nodeKey)).Fits g

/-- A transaction writes only if it is unaffected. -/
def Shared.Undisturbed (g : DerivedGraph) (req : Side → StepRequest ι) (s : Shared ι) (p : Side)
    (_ : Unit) : Prop :=
  ∀ read, s.phase p = .decisionsRead read → Unaffected g (req p) read s.inst

/-- The instance after a transaction: one that raises changes nothing. -/
def committed (inst : Instance ι) (tx : Tx ι (Instance ι)) : Instance ι :=
  match tx.result with
  | .ok inst' => inst'
  | .error _ => inst

/-- The steps are finished one after the other. -/
def serial (ext : Externals) (g : DerivedGraph) (req : Side → StepRequest ι) (inst : Instance ι)
    (order : List Side) : Instance ι :=
  order.foldl (fun inst p => committed inst ((req p).complete ext g inst)) inst

/-! ## One transaction -/

variable {ext : Externals} {g : DerivedGraph} {q : StepRequest ι}
  {a a' b inst inst' inst₀ : Instance ι} {read now : Call ι} {calls : List (Call ι)}
  {r : EngineResult ι} {req : Side → StepRequest ι} {s t : Shared ι} {p : Side} {phase : Phase ι}
  {order : List Side}

omit [LinearOrder ι] in
theorem committed_of_returns {tx : Tx ι (Instance ι)} (h : Returns tx calls inst') :
    committed inst tx = inst' := by
  rw [committed, h.2]

theorem StepRequest.write_returns :
    Returns (q.write ext g inst read) calls inst' ↔
      ∃ r more, read.outcome g = .ok r ∧ calls = read :: more ∧
        Returns (settle ext q.env g
          ((inst.addResult q.nodeKey (q.result.getD (.obj [])) q.actor).apply q.env r))
        more inst' := by
  simp only [write, returns_bind, returns_request]
  constructor
  · rintro ⟨-, more, r, ⟨rfl, hr⟩, hrest, rfl⟩
    refine ⟨r, more, ?_, rfl, hrest⟩
    cases hout : read.outcome g with
    | ok r' => simpa [hout] using hr
    | error err => rw [hout] at hr; cases err <;> cases hr
  · rintro ⟨r, more, hr, rfl, hrest⟩
    exact ⟨[read], more, r, ⟨rfl, by rw [hr]⟩, hrest, rfl⟩

/-- Writing onto the same rows what was computed from calls that agree: one returns if the other
does. -/
theorem StepRequest.write_agree (h : a.SameRows b) (hr : read.outcome g = .ok r)
    (hnow : ∃ completed, now.outcome g = .ok { r with completed := completed })
    (ha : Returns (q.write ext g a read) calls a') :
    ∃ more b', Returns (q.write ext g b now) more b' ∧ a'.SameRows b' := by
  obtain ⟨r', more, hr', rfl, hsettle⟩ := StepRequest.write_returns.mp ha
  obtain rfl : r' = r := Except.ok.inj (hr'.symm.trans hr)
  obtain ⟨completed, hnow⟩ := hnow
  obtain ⟨b', hb, hrows⟩ := ((h.addResult q.nodeKey (q.result.getD (.obj [])) q.actor).apply r'
    completed).settleRounds hsettle
  exact ⟨now :: more, b', StepRequest.write_returns.mpr ⟨_, more, hnow, rfl, hb⟩, hrows⟩

theorem Instance.Quiet.waiting (h : inst.Quiet) : ∀ t ∈ inst.liveTokens, t.state = .waiting := by
  intro t ht
  obtain ⟨row, hrow, hlive, rfl⟩ := Instance.mem_liveTokens.mp ht
  have hquiet := h row hrow
  show row.state = .waiting
  cases hs : row.state with
  | waiting => rfl
  | active => exact absurd hs hquiet
  | consumed => exact absurd hs hlive

omit [LinearOrder ι] in
theorem Call.Fits.settles {c : Call ι} (hwf : g.WellFormed) (hplaced : Placed g c.tokens)
    (hfit : c.Fits g) : c.outcome g ≠ .error .didNotSettle := by
  intro hstuck
  rcases Call.outcome_cases hwf hplaced hfit with
    ⟨r, hr⟩ | ⟨k, -, hr, -⟩ | ⟨n, -, -, err, -, hr⟩ <;>
  · rw [hstuck] at hr
    cases hr

/-- What a transaction has read so far: tokens that wait at nodes of the graph. -/
def WaitingTokens (g : DerivedGraph) (tokens : List (Token ι)) : Prop :=
  Placed g tokens ∧ ∀ t ∈ tokens, t.state = .waiting

omit [LinearOrder ι] in
/-- Calls that agree, and that both fit their budgets, make the same mutations. -/
theorem Call.SameAhead.outcome_of_fits {k : String}
    (hwf : g.WellFormed) (h : Call.SameAhead g k read now) (htarget : read.target = some k)
    (htarget' : now.target = some k) (hread : WaitingTokens g read.tokens)
    (hnow : WaitingTokens g now.tokens) (hfit : now.Fits g) (hr : read.outcome g = .ok r) :
    ∃ completed, now.outcome g = .ok { r with completed := completed } := by
  rcases h.outcome hwf.closed htarget htarget' hread.2 hnow.2 hr with hok | hstuck
  · exact hok
  · exact absurd hstuck (hfit.settles hwf hnow.1)

/-- **A transaction that is unaffected does what it would do in one go**, on the same rows. -/
theorem Unaffected.committed (hwf : g.WellFormed) (hs : a.Sound g) (hq : a.Quiet)
    (hrows : a.SameRows b) (htarget : read.target = some q.nodeKey)
    (hread : WaitingTokens g read.tokens) (hu : Unaffected g q read a) :
    (committed a (q.write ext g a read)).SameRows (committed b (q.complete ext g b)) := by
  have hnow : WaitingTokens g _ := ⟨hs.placed_liveTokens, hq.waiting⟩
  have hundone : b.stepDone q.nodeKey = false := (hrows.stepDone_eq _).trans hu.undone
  have hwrite : q.complete ext g b = q.write ext g b (b.call q.env (some q.nodeKey)) :=
    if_neg (by simp [hundone])
  rw [hwrite, hrows.call_eq]
  cases ha : (q.write ext g a read).result with
  | ok a' =>
    have hret : Returns (q.write ext g a read) _ a' := ⟨rfl, ha⟩
    obtain ⟨r, more, hr, -, -⟩ := StepRequest.write_returns.mp hret
    obtain ⟨_, b', hb, hsame⟩ := StepRequest.write_agree hrows hr
      (hu.same.outcome_of_fits hwf htarget rfl hread hnow hu.fits hr) hret
    rw [committed_of_returns hret, committed_of_returns hb]
    exact hsame
  | error err =>
    -- had the serial transaction returned, so would this one
    cases hb : (q.write ext g b (a.call q.env (some q.nodeKey))).result with
    | ok b' =>
      have hret : Returns (q.write ext g b (a.call q.env (some q.nodeKey))) _ b' := ⟨rfl, hb⟩
      obtain ⟨r, more, hr, -, -⟩ := StepRequest.write_returns.mp hret
      obtain ⟨_, a', ha', -⟩ := StepRequest.write_agree hrows.symm hr
        (hu.same.symm.outcome_of_fits hwf rfl htarget hnow hread hu.fits_read hr) hret
      rw [ha'.2] at ha
      cases ha
    | error err' =>
      simp only [Workflow.committed, ha, hb]
      exact hrows

/-! ## Both transactions -/

section Both

variable {q : Side}

def Phase.ended : Phase ι → Bool
  | .returned | .raised => true
  | _ => false

/-- What a transaction holds in its hands. -/
def Phase.Held (g : DerivedGraph) (k : String) : Phase ι → Prop
  | .tokensRead tokens | .contextRead tokens _ => WaitingTokens g tokens
  | .decisionsRead read => read.target = some k ∧ WaitingTokens g read.tokens
  | _ => True

/-- The rows are those of the transactions that have ended, one after the other. -/
structure Serializable (ext : Externals) (g : DerivedGraph) (req : Side → StepRequest ι)
    (inst₀ : Instance ι) (s : Shared ι) : Prop where
  order : ∃ order : List Side, order.Nodup ∧ (∀ p, p ∈ order ↔ (s.phase p).ended = true) ∧
    s.inst.SameRows (serial ext g req inst₀ order)
  held : ∀ p, (s.phase p).Held g (req p).nodeKey

section

omit [LinearOrder ι]

@[simp] theorem Shared.goto_self : (s.goto p phase).phase p = phase := update_self ..

@[simp] theorem Shared.goto_of_ne (h : q ≠ p) : (s.goto p phase).phase q = s.phase q :=
  update_of_ne h ..

@[simp] theorem Shared.goto_inst : (s.goto p phase).inst = s.inst := rfl

@[simp] theorem Shared.goto_goto {after : Phase ι} :
    (s.goto p phase).goto p after = s.goto p after := by
  simp [goto]

theorem Instance.SameRows.sound (h : a.SameRows b) (hb : b.Sound g) : a.Sound g := by
  rw [h] at hb
  exact ⟨hb.nodup, hb.placed, hb.timed, hb.passed, hb.decided⟩

theorem Instance.SameRows.quiet (h : a.SameRows b) (hb : b.Quiet) : a.Quiet := by
  intro row hrow
  exact hb row (h.tokens_eq ▸ hrow)

end

theorem Transacted.sound {may : String → Prop} (hwf : g.WellFormed)
    (h : Transacted g may a calls b) (hs : a.Sound g) (hq : a.Quiet) : b.Sound g ∧ b.Quiet := by
  have hstage : ∀ (a : Instance ι) ls b, Stage g may a ls b → a.Sound g → b.Sound g :=
    fun _ _ _ hstage => hstage.sound hwf
  cases h with
  | chain hc _ => exact ⟨hc.invariant hstage hs, hc.quiet hwf hs hq⟩
  | @decide mid _ env r _ hmid hr hc _ =>
    have hmids := hmid.sound hs
    have hs' : (mid.apply env r).Sound g := hmids.apply hwf rfl hr
    exact ⟨hc.invariant hstage hs', hc.quiet hwf hs' (hmids.quiet_apply hwf rfl hr)⟩

/-- Finishing a step leaves a sound instance in which no token is active. -/
theorem sound_committed (ext : Externals) (hwf : g.WellFormed) (q : StepRequest ι) (hs : a.Sound g)
    (hq : a.Quiet) :
    (committed a (q.complete ext g a)).Sound g ∧ (committed a (q.complete ext g a)).Quiet := by
  cases h : (q.complete ext g a).result with
  | error err =>
    simp only [committed, h]
    exact ⟨hs, hq⟩
  | ok a' =>
    have hret : Returns (q.complete ext g a) _ a' := ⟨rfl, h⟩
    rw [committed_of_returns hret]
    have htx : Transacted g (fun _ => True) a _ a' :=
      completeStep_transacted (fun _ _ => trivial) hret
    exact htx.sound hwf hs hq

theorem sound_serial (ext : Externals) (req : Side → StepRequest ι) (hwf : g.WellFormed)
    (hs : inst₀.Sound g) (hq : inst₀.Quiet) (order : List Side) :
    (serial ext g req inst₀ order).Sound g ∧ (serial ext g req inst₀ order).Quiet := by
  induction order generalizing inst₀ with
  | nil => exact ⟨hs, hq⟩
  | cons p order ih =>
    obtain ⟨hs', hq'⟩ := sound_committed ext hwf (req p) hs hq
    exact ih hs' hq'

namespace Serializable

theorem opened : Serializable ext g req inst₀ (.opened inst₀) :=
  ⟨⟨[], List.nodup_nil, fun p => by simp [Shared.opened, Phase.ended], .refl _⟩, fun _ => trivial⟩

theorem reads (h : Serializable ext g req inst₀ s) (hp : (s.phase p).ended = false)
    (hphase : phase.ended = false) (hheld : phase.Held g (req p).nodeKey) :
    Serializable ext g req inst₀ (s.goto p phase) := by
  obtain ⟨order, hnodup, hended, hrows⟩ := h.order
  refine ⟨⟨order, hnodup, fun q => ?_, hrows⟩, fun q => ?_⟩
  · by_cases hq : q = p
    · subst hq
      rw [goto_self, hended, hp, hphase]
    · rw [goto_of_ne hq, hended]
  · by_cases hq : q = p
    · subst hq
      rwa [goto_self]
    · rw [goto_of_ne hq]
      exact h.held q

/-- A transaction ends, and is the next one of the order. -/
theorem ends (h : Serializable ext g req inst₀ s) (hp : (s.phase p).ended = false)
    (phase : Phase ι) (hphase : phase.ended = true) (ht : t.phase = (s.goto p phase).phase)
    (hnext : ∀ b, s.inst.SameRows b →
      t.inst.SameRows (committed b ((req p).complete ext g b))) :
    Serializable ext g req inst₀ t := by
  obtain ⟨order, hnodup, hended, hrows⟩ := h.order
  have hnew : p ∉ order := by simp [hended, hp]
  refine ⟨⟨order ++ [p], ?_, fun q => ?_, ?_⟩, fun q => ?_⟩
  · exact hnodup.append (List.nodup_singleton p) (List.disjoint_singleton.mpr hnew)
  · rw [ht, List.mem_append, List.mem_singleton, hended]
    by_cases hqp : q = p
    · subst hqp
      simp [hphase]
    · simp [hqp]
  · rw [serial, List.foldl_append]
    exact hnext _ hrows
  · rw [ht]
    by_cases hqp : q = p
    · subst hqp
      rw [goto_self]
      cases phase <;> trivial
    · rw [goto_of_ne hqp]
      exact h.held q

/-- **An undisturbed statement keeps the rows serializable.** -/
theorem step {u : Unit} (hwf : g.WellFormed) (hs : inst₀.Sound g) (hq : inst₀.Quiet)
    (h : Serializable ext g req inst₀ s) (hallowed : Undisturbed g req s p u)
    (hstep : Shared.step ext g req s p u = some t) : Serializable ext g req inst₀ t := by
  obtain ⟨order, -, -, hrows⟩ := h.order
  obtain ⟨hserial, hserialq⟩ := sound_serial ext req hwf hs hq order
  have hsound := hrows.sound hserial
  have hquiet := hrows.quiet hserialq
  have hheld := h.held p
  unfold Shared.step at hstep
  cases hp : s.phase p with
  | opened =>
    simp only [hp, Option.some.injEq] at hstep
    subst hstep
    split_ifs with hdone
    · refine h.ends (by rw [hp]; rfl) .returned rfl rfl fun b hb => ?_
      have hdone' : b.stepDone (req p).nodeKey = true := (hb.stepDone_eq _).trans hdone
      rw [show (req p).complete ext g b = pure b from if_pos hdone']
      exact hb
    · exact h.reads (by rw [hp]; rfl) rfl trivial
  | unfinished =>
    simp only [hp, Option.some.injEq] at hstep
    subst hstep
    exact h.reads (by rw [hp]; rfl) rfl ⟨hsound.placed_liveTokens, hquiet.waiting⟩
  | tokensRead tokens =>
    simp only [hp, Option.some.injEq] at hstep
    subst hstep
    rw [hp] at hheld
    exact h.reads (by rw [hp]; rfl) rfl hheld
  | contextRead tokens context =>
    simp only [hp, Option.some.injEq] at hstep
    subst hstep
    rw [hp] at hheld
    exact h.reads (by rw [hp]; rfl) rfl ⟨rfl, hheld⟩
  | decisionsRead read =>
    rw [hp] at hheld
    have hcommit : ∀ b, s.inst.SameRows b →
        (committed s.inst ((req p).write ext g s.inst read)).SameRows
          (committed b ((req p).complete ext g b)) :=
      fun b hb => (hallowed read hp).committed hwf hsound hquiet hb hheld.1 hheld.2
    simp only [hp] at hstep
    cases hw : ((req p).write ext g s.inst read).result with
    | ok inst =>
      simp only [hw, Option.some.injEq] at hstep
      subst hstep
      refine h.ends (by rw [hp]; rfl) .returned rfl rfl fun b hb => ?_
      have hlast := hcommit b hb
      rwa [committed, hw] at hlast
    | error err =>
      simp only [hw, Option.some.injEq] at hstep
      subst hstep
      refine h.ends (by rw [hp]; rfl) .raised rfl rfl fun b hb => ?_
      have hlast := hcommit b hb
      rwa [committed, hw] at hlast
  | returned => simp [hp] at hstep
  | raised => simp [hp] at hstep

end Serializable

/-- A transaction that has begun can read all it needs. -/
theorem Shared.read_run (ext : Externals) (g : DerivedGraph) (req : Side → StepRequest ι)
    (hp : s.phase p = .opened) (hundone : s.inst.stepDone (req p).nodeKey = false) :
    ReflTransGen (Turn (Shared.step ext g req) (Undisturbed g req)) s
      (s.goto p (.decisionsRead (s.inst.call (req p).env (some (req p).nodeKey)))) := by
  have hturn : ∀ before after : Phase ι, (∀ read, before ≠ .decisionsRead read) →
      (s.goto p before).step ext g req p () = some (s.goto p after) →
      Turn (Shared.step ext g req) (Undisturbed g req) (s.goto p before)
        (s.goto p after) := by
    intro before after hne hstep
    refine ⟨p, (), fun read hread => ?_, hstep⟩
    rw [goto_self] at hread
    exact absurd hread (hne read)
  have hself : s.goto p .opened = s := by
    rw [goto, ← hp, update_eq_self]
  have hopen := hturn .opened .unfinished (fun _ h => by cases h)
    (by simp [Shared.step, hundone])
  have htokens := hturn .unfinished (.tokensRead s.inst.liveTokens) (fun _ h => by cases h)
    (by simp [Shared.step])
  have hcontext := hturn (.tokensRead s.inst.liveTokens)
    (.contextRead s.inst.liveTokens (s.inst.context (req p).env.event)) (fun _ h => by cases h)
    (by simp [Shared.step])
  have hdecisions := hturn (.contextRead s.inst.liveTokens (s.inst.context (req p).env.event))
    (.decisionsRead (s.inst.call (req p).env (some (req p).nodeKey))) (fun _ h => by cases h)
    (by simp [Shared.step, Instance.call])
  rw [hself] at hopen
  exact (((ReflTransGen.single hopen).tail htokens).tail hcontext).tail hdecisions

theorem Shared.write_turn (hp : s.phase p = .decisionsRead read)
    (hu : Unaffected g (req p) read s.inst)
    (hw : ((req p).write ext g s.inst read).result = .ok inst) :
    Turn (Shared.step ext g req) (Undisturbed g req) s
      { s.goto p .returned with inst := inst } := by
  refine ⟨p, (), fun read' hread => ?_, by simp [Shared.step, hp, hw]⟩
  rw [hp] at hread
  cases hread
  exact hu

/-- **Two steps finished at the same time are finished one after the other**, in every run in
which each of the two transactions is unaffected when it writes: the rows of the instance end as
in one of the two serial orders. -/
theorem overlap_serializable {definition : Json} {calls : List (Call ι)} {inst : Instance ι}
    (hg : deriveIndex ext definition = .ok g) (hrun : ServiceRun ext g (fun _ _ => True) calls inst)
    (hturns : ReflTransGen (Turn (Shared.step ext g req) (Undisturbed g req))
      (.opened inst) s) (hended : ∀ p, (s.phase p).ended = true) :
    s.inst.SameRows (serial ext g req inst [.first, .second]) ∨
      s.inst.SameRows (serial ext g req inst [.second, .first]) := by
  have hwf := deriveIndex_wellFormed hg
  obtain ⟨hstages, hquiet, -⟩ := hrun.spec (fun _ => True) hwf fun _ _ _ _ _ _ _ => trivial
  have hs := hstages.sound hwf
  have hserial : Serializable ext g req inst s := Turn.invariant
    (fun _ _ _ _ ih hallowed hstep => ih.step hwf hs hquiet hallowed hstep) .opened hturns
  obtain ⟨order, hnodup, hmem, hrows⟩ := hserial.order
  -- both sides are in the order, each once
  have hperm : order.Perm [.first, .second] := by
    refine (List.perm_ext_iff_of_nodup hnodup (by decide)).mpr fun p => ?_
    cases p <;> simp [hmem, hended]
  obtain ⟨p, q, rfl⟩ := List.length_eq_two.mp hperm.length_eq
  cases p <;> cases q
  · simp at hnodup
  · exact .inl hrows
  · exact .inr hrows
  · simp at hnodup

end Both

/-! ## Two branches -/

/-- Each of the two steps leads to an end of its own. -/
def forked : Definition :=
  fork [.event "e1", .event "e2"] [.plain "d" "f1" "e1", .plain "e" "f2" "e2"]

theorem forked_accepted : Accepted .plain none forked.toJson forked.flatten :=
  accepted_toJson (by decide) (by rfl) (by rfl)

def bothWaiting : Instance ℕ where
  id := "i"
  status := .running
  tokens := [⟨1, "e0", none, .consumed, none, 0⟩, ⟨2, "f1", some "b", .waiting, none, 0⟩,
    ⟨3, "f2", some "c", .waiting, none, 0⟩]
  results := []
  decisions := []
  outbox := []

/-- One operator finishes `f1`, the other one `f2`. -/
def bothFinish : Side → StepRequest ℕ
  | .first => ⟨.plain, "f1", none, none⟩
  | .second => ⟨.plain, "f2", none, none⟩

/-- `f1` is finished. -/
def firstFinished : Instance ℕ :=
  { bothWaiting with
    tokens := [⟨1, "e0", none, .consumed, none, 0⟩, ⟨2, "f1", some "b", .consumed, none, 0⟩,
      ⟨3, "f2", some "c", .waiting, none, 0⟩]
    results := [⟨"f1", .obj [], none⟩] }

theorem forked_fits {inst : Instance ℕ} (hinst : inst = bothWaiting ∨ inst = firstFinished)
    (p : Side) (hundone : inst.stepDone (bothFinish p).nodeKey = false) :
    (inst.call .plain (some (bothFinish p).nodeKey)).Fits forked.flatten := by
  intro run work henter
  obtain ⟨-, rfl, loaded, hload, hresume⟩ := Call.enter_ok henter
  rcases hinst with rfl | rfl <;> cases p
  · cases hload
    cases hresume
    exact ⟨fun k => if k = "e1" then 1 else 0, by decide, by decide⟩
  · cases hload
    cases hresume
    exact ⟨fun k => if k = "e2" then 1 else 0, by decide, by decide⟩
  · exact absurd hundone (by decide)
  · cases hload
    cases hresume
    exact ⟨fun k => if k = "e2" then 1 else 0, by decide, by decide⟩

/-- A statement of one of the two operators. -/
abbrev ForkedTurn : Shared ℕ → Shared ℕ → Prop :=
  Turn (Shared.step .plain forked.flatten bothFinish) (Undisturbed forked.flatten bothFinish)

/-- The branches do not meet, so finishing `f1` changes nothing that finishing `f2` looks at. -/
theorem forked_unaffected : Unaffected forked.flatten (bothFinish .second)
    (bothWaiting.call .plain (some "f2")) firstFinished where
  undone := by decide
  same :=
    { tokens := by decide
      awaited := by
        have hno : ∀ j ∈ forked.flatten.descendants "f2",
            forked.flatten.net.role j ≠ some .orJoin := by decide
        exact fun j hj hor => absurd (DerivedGraph.isOrJoin_iff.mp hor) (hno j hj)
      decisions := fun _ _ => rfl
      guards := by
        have hout : ∀ j ∈ forked.flatten.descendants "f2", forked.flatten.out j = [] := by decide
        intro j hj e he
        rw [show forked.flatten.out j = [] from hout j hj] at he
        cases he }
  fits_read := forked_fits (.inl rfl) .second (by decide)
  fits := forked_fits (.inr rfl) .second (by decide)

/-- Both operators read, then both write: the rows are those of a serial order. -/
theorem overlap_serializable_forked : ∃ s : Shared ℕ,
    (∀ p, (s.phase p).ended = true) ∧ s.inst.liveTokens = [] ∧
    (s.inst.SameRows (serial .plain forked.flatten bothFinish bothWaiting [.first, .second]) ∨
      s.inst.SameRows (serial .plain forked.flatten bothFinish bothWaiting [.second, .first])) := by
  have hstart : Returns (startInstance .plain .plain forked.flatten "i")
      (startInstance .plain .plain forked.flatten "i").log bothWaiting := ⟨rfl, by rfl⟩
  let s₁ := (Shared.opened bothWaiting).goto .first
    (.decisionsRead (bothWaiting.call .plain (some "f1")))
  let s₂ := s₁.goto .second (.decisionsRead (bothWaiting.call .plain (some "f2")))
  let s₃ : Shared ℕ := { s₂.goto .first .returned with inst := firstFinished }
  have hread₁ : ReflTransGen ForkedTurn (.opened bothWaiting) s₁ := read_run _ _ _ rfl (by decide)
  have hread₂ : ReflTransGen ForkedTurn s₁ s₂ := read_run _ _ _ rfl (by decide)
  have hunaffected : Unaffected forked.flatten (bothFinish .first)
      (bothWaiting.call .plain (some "f1")) bothWaiting :=
    ⟨by decide, .refl _ _ _, forked_fits (.inl rfl) .first (by decide),
      forked_fits (.inl rfl) .first (by decide)⟩
  have hwrite₁ : ForkedTurn s₂ s₃ := write_turn rfl hunaffected (by rfl)
  obtain ⟨inst, hw⟩ : ∃ inst, ((bothFinish .second).write .plain forked.flatten firstFinished
      (bothWaiting.call .plain (some "f2"))).result = .ok inst ∧ inst.liveTokens = [] :=
    ⟨_, by rfl, by decide⟩
  have hwrite₂ : ForkedTurn s₃ { s₃.goto .second .returned with inst := inst } :=
    write_turn rfl forked_unaffected hw.1
  have hended : ∀ p, (({ s₃.goto .second .returned with inst := inst } : Shared ℕ).phase p).ended
      = true := fun p => by cases p <;> rfl
  exact ⟨_, hended, hw.2, overlap_serializable forked_accepted.2 (.start hstart)
    (((hread₁.trans hread₂).tail hwrite₁).tail hwrite₂) hended⟩

/-- Both operators read before either writes. -/
def bothRead : List (Side × Unit) :=
  (List.replicate 5 [(Side.first, ()), (.second, ())]).flatten

/-- **Two branches finished at the same time leave both tokens at the AND join**, where in either
serial order the join fires. -/
theorem join_lost : ∃ (calls : List (Call ℕ)) (s : Shared ℕ),
    ServiceRun .plain diamond.flatten (fun _ _ => True) calls bothWaiting ∧
    ReflTransGen (AnyTurn (Shared.step .plain diamond.flatten bothFinish))
      (.opened bothWaiting) s ∧ (∀ p, (s.phase p).ended = true) ∧
    s.inst.liveTokens.map (fun t => (t.nodeKey, t.state, t.inboundEdgeKey))
      = [("aj", .waiting, some "d"), ("aj", .waiting, some "e")] ∧
    (serial .plain diamond.flatten bothFinish bothWaiting [.first, .second]).liveTokens = [] ∧
    (serial .plain diamond.flatten bothFinish bothWaiting [.second, .first]).liveTokens = [] := by
  have hstart : Returns (startInstance .plain .plain diamond.flatten "i")
      (startInstance .plain .plain diamond.flatten "i").log bothWaiting := ⟨rfl, by rfl⟩
  obtain ⟨s, hrun, hended, htokens⟩ : ∃ s,
      execute (Shared.step .plain diamond.flatten bothFinish) (.opened bothWaiting) bothRead
        = some s ∧ ((s.phase .first).ended = true ∧ (s.phase .second).ended = true) ∧
      s.inst.liveTokens.map (fun t => (t.nodeKey, t.state, t.inboundEdgeKey))
        = [("aj", .waiting, some "d"), ("aj", .waiting, some "e")] :=
  ⟨_, by rfl, by decide, by decide⟩
  refine ⟨_, s, .start hstart, run_of_execute hrun, fun p => ?_, htokens, by decide, by decide⟩
  cases p
  · exact hended.1
  · exact hended.2

end BbzPlatform.Workflow
