import BbzPlatform.RuleDsl.Safety
import BbzPlatform.Workflow.Choices
import BbzPlatform.Workflow.OrJoin

/-!
# Branch conditions of published workflows

The publish check asks whether an edge has a condition and never what the condition
says.  At run time a guard that raises counts as not satisfied, or, if its operator cannot be
hashed, stops the engine.

Under the conditions that make an expression safe and its references declared, a guard
counts as not satisfied only if it is false.  A choice split then takes the branches
whose conditions are true, and an XOR split of a published definition falls back on its
one default only if all conditions are false.
-/

namespace BbzPlatform.Workflow

open RuleDsl List

/-- The condition parses and is accepted for workflow conditions. -/
def WellFormedCondition (condition : List (String × Json)) : Prop :=
  (∃ e, parse (.obj condition) = .ok e) ∧ workflowContext.validate (.obj condition) = .ok ()

/-! ## Guards that cannot raise -/

/-- The fields that every context of the service binds. -/
def boundContext : ContextSchema where
  name := "bound"
  fields := [("step_completed_count", .number), ("operator_confirmed", .boolean)]

/-- The condition is accepted for workflow conditions and cannot raise at run time: it is not nested
too deep, the nodes the gate looks at are sealed, the others are defined whatever the fields hold
that the service does not always bind, and the references the gate does not see are declared. -/
structure SoundGuard (condition : List (String × Json)) (e : Expr) : Prop where
  parses : parse (.obj condition) = .ok e
  accepted : workflowContext.validate (.obj condition) = .ok ()
  shallow : e.depth ≤ maxDepth
  sealed : ∀ d ∈ e.visited, workflowContext.sealed d = true
  defined : ∀ d ∈ e.unvisited, boundContext.defined d = true
  declared : ∀ s ∈ e.hidden, workflowContext.Declares s

/-- The edge has a condition, and as a formula it is true. -/
def GraphEdge.satisfied (context : Context) (edge : GraphEdge) : Bool :=
  match edge.condition with
  | none => false
  | some c =>
    match parse (.obj c) with
    | .error _ => false
    | .ok e => e.holds context

section Guards

variable {ι : Type} (inst : Instance ι) (event : Option EventRow)

theorem get_step_completed_count : (inst.context event).get "step_completed_count"
    = .int inst.results.length := by
  cases event <;> rfl

theorem binds_boundContext : boundContext.Binds (inst.context event) := by
  intro s t h
  rcases mem_pair.mp (Rows.mem_of_lookup h) with heq | heq
  · obtain ⟨rfl, rfl⟩ := Prod.mk.inj heq
    rw [get_step_completed_count]
    exact ⟨rfl, rfl⟩
  · obtain ⟨rfl, rfl⟩ := Prod.mk.inj heq
    have hget : (inst.context event).get "operator_confirmed" = .bool false := by
      cases event <;> rfl
    rw [hget]
    exact ⟨rfl, rfl⟩

theorem orderable_workflow {s : String} {t : FieldType}
    (h : workflowContext.fields.lookup s = some t) (ho : t.orderable = true) :
    s = "step_completed_count" ∧ t = .number := by
  have hall : ∀ f ∈ workflowContext.fields, f.2.orderable = true →
      f = ("step_completed_count", .number) := by decide
  exact Prod.mk.inj (hall (s, t) (Rows.mem_of_lookup h) ho)

theorem bindsOrdered_workflow : workflowContext.BindsOrdered (inst.context event) where
  typed s t h ho := by
    obtain ⟨rfl, rfl⟩ := orderable_workflow h ho
    rw [get_step_completed_count]
    exact .inr rfl
  noList s h := by
    have hall : ∀ f ∈ workflowContext.fields, f.2 ≠ .list := by decide
    exact hall _ (Rows.mem_of_lookup h) rfl

variable {c : List (String × Json)} {e : Expr} (h : SoundGuard c e)
include h

/-- **A sound guard evaluates to its truth as a formula**, whatever the instance and its event. -/
theorem SoundGuard.evaluates :
    evaluate e (inst.context event) = .ok (e.holds (inst.context event)) := by
  have hcheck : workflowContext.checkOperand (.expr e.op e.args) = .ok () := by
    rw [ContextSchema.checkOperand]
    exact ContextSchema.check_of_validate h.accepted h.parses
  have hdefined : ∀ d ∈ e.subs, (inst.context event).defined d = true := by
    intro d hd
    rcases (mem_subs_iff _).mp hd with hv | hu
    · have hd := ContextSchema.check_of_visited _ hcheck hv
      refine ((bindsOrdered_workflow inst event).defined_iff hd).mpr ⟨h.sealed d hv, ?_⟩
      intro ho s hs
      obtain ⟨t, hlook, hto⟩ := ContextSchema.orderable_ref hd ho hs
      obtain ⟨rfl, -⟩ := orderable_workflow hlook hto
      rw [get_step_completed_count]
      exact Json.noConfusion
    · exact ContextSchema.defined_iff.mp (h.defined d hu) _ (binds_boundContext inst event)
  obtain ⟨b, hb⟩ := evalAt_ok (p := (0, e)) ((Nat.zero_add _).trans_le h.shallow) hdefined
  have hholds : e.holds (inst.context event) = b := holds_of_evalAt hb
  exact hholds ▸ hb

theorem SoundGuard.guardTrue_eq :
    guardTrue c (inst.context event) = .ok (e.holds (inst.context event)) := by
  simp [guardTrue, h.parses, h.evaluates inst event]

end Guards

section Branches

variable {context : Context} {edges : List GraphEdge}
  (h : ∀ edge ∈ edges, ∀ c, edge.condition = some c →
    guardTrue c context = .ok (edge.satisfied context))
include h

theorem firstGuarded_eq : firstGuarded context edges = .ok (edges.find? (·.satisfied context)) := by
  induction edges with
  | nil => rfl
  | cons edge edges ih =>
    obtain ⟨hedge, hedges⟩ := forall_mem_cons.mp h
    rw [firstGuarded, find?_cons]
    cases hc : edge.condition with
    | none =>
      have hno : edge.satisfied context = false := by rw [GraphEdge.satisfied, hc]
      simp [hno, ih hedges]
    | some c =>
      simp only [hedge c hc, ih hedges, bind, Except.bind]
      cases edge.satisfied context <;> rfl

/-- The open branches are those without a condition and those whose condition is true. -/
theorem openEdges_eq : openEdges context edges
    = .ok (edges.filter fun edge => edge.condition.isNone || edge.satisfied context) := by
  induction edges with
  | nil => rfl
  | cons edge edges ih =>
    obtain ⟨hedge, hedges⟩ := forall_mem_cons.mp h
    rw [openEdges, ih hedges]
    cases hc : edge.condition with
    | none => simp [hc, bind, Except.bind]
    | some c =>
      simp only [hedge c hc, bind, Except.bind, filter_cons, hc]
      cases edge.satisfied context <;> rfl

end Branches

section Splits

variable {run : Run} {n : GraphNode} (hdec : run.decisions n.key = none)
  (h : ∀ edge ∈ run.idx.out n.key, ∀ c, edge.condition = some c →
    guardTrue c run.context = .ok (edge.satisfied run.context))
include hdec h

/-- An OR split without a decision takes the open branches, and waits if there are none. -/
theorem choose_or (hor : n.connectorType = some .or) {picked : List GraphEdge}
    (hpicked : picked = (run.idx.out n.key).filter fun edge =>
      edge.condition.isNone || edge.satisfied run.context) :
    choose run n = .ok (if picked = [] then none else some (picked, true)) := by
  rw [choose, hdec, hpicked]
  simp only [hor, autoBranches, openEdges_eq h, bind, Except.bind]
  split_ifs <;> simp_all

/-- An XOR split without a decision takes the first branch whose condition is true, else the
first default, and waits if there is none. -/
theorem choose_xor (hxor : n.connectorType = some .xor) :
    choose run n = .ok ((((run.idx.out n.key).find? (·.satisfied run.context)).or
      ((run.idx.out n.key).filter (·.condition.isNone)).head?).map fun edge => ([edge], true)) := by
  rw [choose, hdec]
  simp only [hxor, autoBranches, firstGuarded_eq h, bind, Except.bind]
  cases (run.idx.out n.key).find? (·.satisfied run.context) with
  | some edge => rfl
  | none => cases (run.idx.out n.key).filter (·.condition.isNone) <;> rfl

end Splits

theorem Accepted.defaults {ext : Externals} {caps : Option (List String)} {definition : Json}
    {g : DerivedGraph} (hacc : Accepted ext caps definition g) {n : GraphNode} (hn : n ∈ g.nodes)
    (hconn : n.type = .connector) (hsplit : n.connectorDirection = some .split)
    (hxor : n.connectorType = some .xor) :
    (g.out n.key).filter (·.condition.isNone) = [] ∨
      ∃ edge, (g.out n.key).filter (·.condition.isNone) = [edge] := by
  have hissue := hacc.issues.2.2.2.1 n hn
  have hperm : (g.out n.key).Perm (g.outEdges n.key) :=
    (perm_insertionSort (fun a b : GraphEdge => a.key ≤ b.key) g.edges).filter _
  have hle : ((g.out n.key).filter (·.condition.isNone)).length ≤ 1 := by
    rw [(hperm.filter _).length_eq]
    by_contra hlt
    simp [DerivedGraph.branchIssues, hconn, hsplit, hxor, Nat.not_le.mp hlt] at hissue
  obtain hz | ho := Nat.le_one_iff_eq_zero_or_eq_one.mp hle
  · exact .inl (length_eq_zero_iff.mp hz)
  · exact .inr (length_eq_one_iff.mp ho)

/-- **The guards of a published definition decide by what they say**, if all are sound.  Each is
well formed, refers to declared fields only, and counts as not satisfied only if it is false.  An OR
split without a decision takes the branches without a condition and those whose condition is true;
an XOR split takes the first whose condition is true, and its one default, or none, only if all
conditions are false. -/
theorem published_guards_decide {ext : Externals} {caps : Option (List String)} {definition : Json}
    {g : DerivedGraph} (hacc : Accepted ext caps definition g)
    (hsound : ∀ edge ∈ g.edges, ∀ c, edge.condition = some c → ∃ e, SoundGuard c e)
    {ι : Type} (inst : Instance ι) (event : Option EventRow) :
    (∀ edge ∈ g.edges, ∀ c, edge.condition = some c → WellFormedCondition c ∧
      ∃ e, parse (.obj c) = .ok e ∧ (∀ s ∈ e.refs, workflowContext.Declares s) ∧
        evaluate e (inst.context event) = .ok (edge.satisfied (inst.context event)) ∧
        guardTrue c (inst.context event) = .ok (edge.satisfied (inst.context event))) ∧
    ∀ (decisions : Mapping (List String)), ∀ n ∈ g.nodes, n.type = .connector →
      n.connectorDirection = some .split → decisions n.key = none →
      (n.connectorType = some .or → ∃ picked,
        picked = (g.out n.key).filter (fun edge =>
          edge.condition.isNone || edge.satisfied (inst.context event)) ∧
        choose (g.run (inst.context event) decisions) n
          = .ok (if picked = [] then none else some (picked, true))) ∧
      (n.connectorType = some .xor →
        (∃ edge, (g.out n.key).find? (·.satisfied (inst.context event)) = some edge ∧
          choose (g.run (inst.context event) decisions) n = .ok (some ([edge], true))) ∨
        (∀ edge ∈ g.out n.key, edge.satisfied (inst.context event) = false) ∧
          ((∃ edge, (g.out n.key).filter (·.condition.isNone) = [edge] ∧
            choose (g.run (inst.context event) decisions) n = .ok (some ([edge], true))) ∨
          (g.out n.key).filter (·.condition.isNone) = [] ∧
            choose (g.run (inst.context event) decisions) n = .ok none)) := by
  have hsat : ∀ {edge : GraphEdge} {c e}, edge.condition = some c → parse (.obj c) = .ok e →
      edge.satisfied (inst.context event) = e.holds (inst.context event) := by
    intro edge c e hc hp
    simp [GraphEdge.satisfied, hc, hp]
  have hguard : ∀ edge ∈ g.edges, ∀ c, edge.condition = some c →
      guardTrue c (inst.context event) = .ok (edge.satisfied (inst.context event)) := by
    intro edge hedge c hc
    obtain ⟨e, he⟩ := hsound edge hedge c hc
    rw [hsat hc he.parses, he.guardTrue_eq]
  constructor
  · intro edge hedge c hc
    obtain ⟨e, he⟩ := hsound edge hedge c hc
    refine ⟨⟨⟨e, he.parses⟩, he.accepted⟩, e, he.parses, ?_, ?_, hguard edge hedge c hc⟩
    · exact (ContextSchema.reads_declared_iff he.accepted he.parses).1.mpr he.declared
    · rw [hsat hc he.parses, he.evaluates]
  · intro decisions n hn hconn hsplit hdec
    have hout : ∀ edge ∈ g.out n.key, ∀ c, edge.condition = some c →
        guardTrue c (inst.context event) = .ok (edge.satisfied (inst.context event)) :=
      fun edge hedge => hguard edge (DerivedGraph.mem_out.mp hedge).1
    refine ⟨fun hor => ⟨_, rfl, choose_or hdec hout hor rfl⟩, fun hxor => ?_⟩
    have hchoose : choose (g.run (inst.context event) decisions) n =
        .ok ((((g.out n.key).find? (·.satisfied (inst.context event))).or
          ((g.out n.key).filter (·.condition.isNone)).head?).map fun edge => ([edge], true)) :=
      choose_xor hdec hout hxor
    rw [hchoose]
    cases hfind : (g.out n.key).find? (·.satisfied (inst.context event)) with
    | some edge => exact .inl ⟨edge, rfl, rfl⟩
    | none =>
      refine .inr ⟨fun edge hedge => by simpa using find?_eq_none.mp hfind edge hedge, ?_⟩
      rcases hacc.defaults hn hconn hsplit hxor with hnil | ⟨edge, hone⟩
      · exact .inr ⟨hnil, by simp [hnil]⟩
      · exact .inl ⟨edge, hone, by simp [hone]⟩

/-- While no operator has confirmed, the condition of the detour is false and its default is
taken. -/
theorem published_guards_decide_detour :
    choose (detour.flatten.run
        ((⟨"i", .running, [], [], [], []⟩ : Instance ℕ).context none) fun _ => none)
      (.connector "xs" .xor .split) = .ok (some ([.plain "g" "xs" "e2"], true)) := by
  have hsound : ∀ edge ∈ detour.flatten.edges, ∀ c, edge.condition = some c →
      ∃ e, SoundGuard c e := by
    intro edge hedge c hc
    have hcond : c = [("op", .str "eq"),
        ("args", .arr [fieldJson "operator_confirmed", .bool true])] := by
      have hall : ∀ edge ∈ detour.flatten.edges, edge.condition = none ∨ edge.condition
          = some [("op", .str "eq"),
            ("args", .arr [fieldJson "operator_confirmed", .bool true])] := by decide
      rcases hall edge hedge with hno | hsome
      · cases hno.symm.trans hc
      · exact Option.some.inj (hc.symm.trans hsome)
    subst hcond
    exact ⟨⟨.eq, [.raw (fieldJson "operator_confirmed"), .raw (.bool true)]⟩, rfl, rfl, by decide,
      by decide, by decide, by decide⟩
  have hmem : .connector "xs" .xor .split ∈ detour.flatten.nodes :=
    mem_of_find?_eq_some (p := (·.key = "xs")) rfl
  have hdecide := ((published_guards_decide detour_accepted hsound
    (⟨"i", .running, [], [], [], []⟩ : Instance ℕ) none).2 (fun _ => none)
    (.connector "xs" .xor .split) hmem rfl rfl rfl).2 rfl
  rcases hdecide with ⟨edge, hfind, -⟩ | ⟨-, ⟨edge, hone, hch⟩ | ⟨hnil, -⟩⟩
  · cases hfind
  · cases hone
    exact hch
  · cases hnil

/-- **A definition with an empty condition can be published**: the detour with `{}` in
place of its guard. -/
theorem broken_condition_published :
    ¬ ∀ (ext : Externals) (caps : Option (List String)) (definition : Json) (g : DerivedGraph),
      Accepted ext caps definition g → ∀ e ∈ g.edges, ∀ c, e.condition = some c →
      WellFormedCondition c := by
  intro h
  have hacc : Accepted .plain none (detourIf []).toJson (detourIf []).flatten :=
    accepted_toJson (by decide) (by rfl) (by rfl)
  have hedge : ∃ e ∈ (detourIf []).flatten.edges, e.condition = some [] := by decide
  obtain ⟨e, he, hcond⟩ := hedge
  obtain ⟨⟨x, hx⟩, -⟩ := h _ _ _ _ hacc e he [] hcond
  cases hx

end BbzPlatform.Workflow
