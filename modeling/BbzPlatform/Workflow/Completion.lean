import BbzPlatform.Workflow.Stages

/-!
# Which steps are finished

`complete_step` looks for a waiting token at the key it is given, and a token waits at
a join or an undecided split just as it does at a function.  As long as operators name
functions only, and only functions carry a kind the service finishes by itself, every
engine call is a play of the token game: an AND join lets a token through when one has
come over each edge, and an XOR split takes one branch.
-/

namespace BbzPlatform.Workflow

open RuleDsl

namespace DerivedGraph

variable (g : DerivedGraph)

/-- The key names an AND join. -/
def IsAndJoin (k : String) : Prop :=
  ∃ n, g.node? k = some n ∧ n.type = .connector ∧ n.connectorDirection = some .join ∧
    n.connectorType = some .and

def IsXorSplit (k : String) : Prop :=
  ∃ n, g.node? k = some n ∧ n.type = .connector ∧ n.connectorDirection = some .split ∧
    n.connectorType = some .xor

end DerivedGraph

variable {ι : Type} {g : DerivedGraph}

section Calls

variable {c : Call ι} {r : EngineResult ι} {i : Iteration ι}

variable (hfun : ∀ k ∈ c.target, g.IsFunction k)
include hfun

section

variable (hr : c.outcome g = .ok r) (hi : i ∈ c.steps g)
include hr hi

/-- The iterations of a call obey the laws of the token game. -/
theorem Call.steps_lawful :
    i.passage.Lawful g.net (c.selection g) := by
  obtain ⟨work, made, hfinish, -⟩ := Call.outcome_ok hr
  exact (Call.steps_sound hfun hfinish i hi).lawful (fun _ h => h) fun _ _ h => h

/-- An AND join takes a token of every incoming edge. -/
theorem Call.andJoin_taken
    (hj : g.IsAndJoin i.nodeKey) (hpass : i.taken ≠ [] ∨ i.sent ≠ []) :
    ∀ e ∈ g.inc i.nodeKey, some e.key ∈ i.taken := by
  have hlaw := Call.steps_lawful hfun hr hi
  have htaken : i.passage.taken ≠ 0 := by
    intro h0
    rcases hpass with ht | hs
    · exact ht (by simpa [Iteration.passage] using h0)
    · exact hs (hlaw.idle h0)
  obtain ⟨n, hn, htype, hdir, hconn⟩ := hj
  have hrole : g.net.role i.passage.node = some .andJoin := by
    rw [show i.passage.node = i.nodeKey from rfl, DerivedGraph.role_eq_of_node hn]
    simp [GraphNode.role, htype, hdir, hconn]
  intro e he
  have hmem := (hlaw.all htaken hrole).2 e.key (List.mem_map_of_mem he)
  simpa [Iteration.passage] using hmem

theorem Call.xorSplit_sent
    (hx : g.IsXorSplit i.nodeKey) : i.sent.length ≤ 1 := by
  have hlaw := Call.steps_lawful hfun hr hi
  obtain ⟨n, hn, htype, hdir, hconn⟩ := hx
  by_cases h0 : i.passage.taken = 0
  · rw [show i.sent = [] from hlaw.idle h0]
    exact Nat.zero_le 1
  · have hrole : g.net.role i.nodeKey = some .choice := by
      rw [DerivedGraph.role_eq_of_node hn]
      simp [GraphNode.role, htype, hdir, hconn]
    have hsent : i.sent = ((c.selection g) i.nodeKey).getD [] := by
      rw [show i.sent = _ from hlaw.sends h0]
      exact if_pos hrole
    rw [hsent, Call.selection, Run.selection]
    have hnode : (g.run c.context c.decisions).idx.nodes i.nodeKey = some n := hn
    simp only [hnode]
    cases hch : choose (g.run c.context c.decisions) n with
    | error b => simp
    | ok picked =>
      cases picked with
      | none => simp
      | some taken =>
        obtain ⟨edges, report⟩ := taken
        simpa using ((choose_spec hch).2.2 hconn).le

end

end Calls

section Runs

variable [LinearOrder ι]

/-- Operators finish function steps: a key at which a token waits that is not yet finished
names a function. -/
def CompletesFunctions (g : DerivedGraph) (inst : Instance ι) : Op → Prop
  | .completeStep k _ _ => g.IsFunction k ∨ inst.stepDone k = true ∨
      ∀ row ∈ inst.tokens, row.nodeKey = k → row.state ≠ .waiting
  | _ => True

/-- Only functions carry a kind that the service finishes by itself. -/
def KindsAtFunctions (g : DerivedGraph) : Prop :=
  ∀ n ∈ g.nodes, n.functionKind.any (fun kind => kind.auto || kind.timed) = true →
    n.type = .function

/-- **Only function steps are finished**, in every run in which operators finish function
steps and connectors carry no task kind: every engine call resumes a function, no AND join
lets a token through before one has come over each incoming edge, and no XOR split takes
more than one branch. -/
theorem only_functions_finished {ext : Externals} {definition : Json} {calls : List (Call ι)}
    {inst : Instance ι} (hg : deriveIndex ext definition = .ok g) (hkinds : KindsAtFunctions g)
    (hrun : ServiceRun ext g (CompletesFunctions g) calls inst) :
    ∀ c ∈ calls, (∀ k ∈ c.target, g.IsFunction k) ∧ ∀ i ∈ c.steps g,
      (g.IsAndJoin i.nodeKey → i.taken ≠ [] ∨ i.sent ≠ [] →
        ∀ e ∈ g.inc i.nodeKey, some e.key ∈ i.taken) ∧
      (g.IsXorSplit i.nodeKey → i.sent.length ≤ 1) := by
  have hwf := deriveIndex_wellFormed hg
  obtain ⟨hstages, -, -⟩ := hrun.spec g.IsFunction hwf (by
    rintro inst k result actor (hk | hdone | hno) hnew ⟨row, hrow, hat, hwait⟩
    · exact hk
    · simp [hdone] at hnew
    · exact absurd hwait (hno row hrow hat))
  intro c hc
  obtain ⟨⟨r, hr⟩, htarget⟩ := hstages.calls_spec c hc
  have hfun : ∀ k ∈ c.target, g.IsFunction k := by
    intro k hk
    rcases htarget k hk with hk | hkind
    · exact hk
    · cases hn : graphNode g k with
      | none => simp [kindAt, hn] at hkind
      | some n =>
        refine ⟨n, graphNode_eq hwf k ▸ hn, hkinds n (List.mem_of_find?_eq_some hn) ?_⟩
        simpa [kindAt, hn] using hkind
  exact ⟨hfun, fun i hi => ⟨Call.andJoin_taken hfun hr hi, Call.xorSplit_sent hfun hr hi⟩⟩

end Runs

/-! ## The diamond -/

instance : DecidablePred KindsAtFunctions := fun g => by
  unfold KindsAtFunctions
  infer_instance

/-- One branch of the diamond is finished. -/
def diamondSession : Tx ℕ (Instance ℕ) :=
  session .plain .plain diamond.flatten "i" [.completeStep "f1" none none]

/-- The run that finishes one branch of the diamond. -/
theorem only_functions_finished_diamond :
    ∃ inst, Logged.Returns diamondSession diamondSession.log inst ∧
      ∀ c ∈ diamondSession.log, ∀ k ∈ c.target, diamond.flatten.IsFunction k := by
  obtain ⟨inst, h⟩ := Logged.exists_returns (show diamondSession.result.isOk = true by decide)
  refine ⟨inst, h, fun c hc => ?_⟩
  refine (only_functions_finished diamond_accepted.2 (by decide) (.of_session ?_ h) c hc).1
  rintro op hop s
  rw [List.mem_singleton.mp hop]
  exact .inl (by decide)

/-- One branch of the diamond is finished, and then its AND join. -/
def joinSession : Tx ℕ (Instance ℕ) :=
  session .plain .plain diamond.flatten "i"
    [.completeStep "f1" none none, .completeStep "aj" none none]

/-- **`complete_step` finishes an AND join**: the join of the diamond lets the one token that
has come through, although no token has come over its other edge. -/
theorem join_finished : ∃ (calls : List (Call ℕ)) (inst : Instance ℕ),
    ServiceRun .plain diamond.flatten (fun _ _ => True) calls inst ∧
    ∃ c ∈ calls, c.target = some "aj" ∧ ∃ i ∈ c.steps diamond.flatten,
      i.nodeKey = "aj" ∧ i.taken = [some "d"] ∧ i.sent = [("e1", "f")] ∧
        ∃ e ∈ diamond.flatten.inc "aj", some e.key ∉ i.taken := by
  obtain ⟨inst, h⟩ := Logged.exists_returns (show joinSession.result.isOk = true by decide)
  exact ⟨_, inst, .of_session (fun _ _ _ => trivial) h, by decide⟩

end BbzPlatform.Workflow
