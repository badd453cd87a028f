import BbzPlatform.Workflow.Service

/-!
# Choice splits that choose

A choice split follows the decision that is recorded for it, or else the conditions of its branches.
It raises where the decision is none of its branches, or several for an XOR split, and where a
condition breaks the parser.  `decide` records no such decision, so what is left is the parser.
-/

namespace BbzPlatform.Workflow

open RuleDsl List

/-- No branch condition raises when it is parsed; an unhashable operator does. -/
def ParsableGuards (g : DerivedGraph) : Prop :=
  ∀ e ∈ g.edges, ∀ cond, e.condition = some cond → ∀ t, parse (.obj cond) ≠ .error (.unhashable t)

/-- Without conditions there is nothing to parse. -/
theorem ParsableGuards.of_unconditional {g : DerivedGraph} (h : ∀ e ∈ g.edges, e.condition = none) :
    ParsableGuards g := by
  intro e he cond hcond
  rw [h e he] at hcond
  cases hcond

/-- The branches are of the split: at least one, for an XOR split exactly one. -/
def BranchesOf (g : DerivedGraph) (k : String) (chosen : List String) : Prop :=
  ∃ n, graphNode g k = some n ∧ chosen ≠ [] ∧
    chosen ⊆ (g.edges.filter (·.fromKey = k)).map (·.key) ∧
    (n.connectorType = some .xor → chosen.length = 1)

/-- The decisions are such as `decide` accepts. -/
def DecisionsAccepted (g : DerivedGraph) (decisions : Mapping (List String)) : Prop :=
  ∀ k chosen, decisions k = some chosen → BranchesOf g k chosen

variable {g : DerivedGraph} {context : Context} {decisions : Mapping (List String)}

theorem node?_of_mem (hwf : g.WellFormed) {n : GraphNode} (hn : n ∈ g.nodes) :
    g.node? n.key = some n := by
  have hnodup : (g.nodes.reverse.map (·.key)).Nodup := by
    rw [map_reverse, nodup_reverse]
    exact hwf.nodes_nodup
  cases hfind : g.node? n.key with
  | none =>
    have hno := find?_eq_none.mp hfind n (mem_reverse.mpr hn)
    simp at hno
  | some m =>
    have hm : m ∈ g.nodes.reverse := mem_of_find?_eq_some hfind
    exact congrArg some (inj_on_of_nodup_map hnodup hm (mem_reverse.mpr hn)
      (DerivedGraph.node?_key hfind))

theorem graphNode_eq (hwf : g.WellFormed) (k : String) : graphNode g k = g.node? k := by
  cases h : graphNode g k with
  | none =>
    refine (find?_eq_none.mpr fun n hn => ?_).symm
    exact find?_eq_none.mp h n (mem_reverse.mp hn)
  | some n =>
    obtain rfl : n.key = k := by simpa using find?_some h
    exact (node?_of_mem hwf (mem_of_find?_eq_some h)).symm

theorem guardTrue_ok {cond : List (String × Json)}
    (h : ∀ t, parse (.obj cond) ≠ .error (.unhashable t)) :
    ∃ b, guardTrue cond context = .ok b := by
  unfold guardTrue
  cases hp : parse (.obj cond) with
  | error err =>
    cases err with
    | dsl e => exact ⟨false, rfl⟩
    | unhashable t => exact absurd hp (h t)
  | ok e => cases hev : evaluate e context <;> exact ⟨_, by simp only [hev]; rfl⟩

variable {edges : List GraphEdge}

section

variable (h : ∀ e ∈ edges, ∀ cond, e.condition = some cond → ∃ b, guardTrue cond context = .ok b)
include h

theorem firstGuarded_ok : ∃ e, firstGuarded context edges = .ok e := by
  induction edges with
  | nil => exact ⟨none, rfl⟩
  | cons e edges ih =>
    obtain ⟨rest, hrest⟩ := ih fun e' he' => h e' (mem_cons_of_mem _ he')
    rw [firstGuarded]
    cases hc : e.condition with
    | none => exact ⟨rest, hrest⟩
    | some cond =>
      obtain ⟨b, hb⟩ := h e mem_cons_self cond hc
      cases b with
      | true => exact ⟨some e, by simp [hb, bind, Except.bind]⟩
      | false => exact ⟨rest, by simp [hb, hrest, bind, Except.bind]⟩

theorem openEdges_ok : ∃ picked, openEdges context edges = .ok picked := by
  induction edges with
  | nil => exact ⟨[], rfl⟩
  | cons e edges ih =>
    obtain ⟨rest, hrest⟩ := ih fun e' he' => h e' (mem_cons_of_mem _ he')
    rw [openEdges]
    cases hc : e.condition with
    | none => exact ⟨e :: rest, by simp [hrest, bind, Except.bind]⟩
    | some cond =>
      obtain ⟨b, hb⟩ := h e mem_cons_self cond hc
      simp only [hb, hrest, bind, Except.bind]
      exact ⟨_, rfl⟩

end

theorem autoBranches_ok (exclusive : Bool)
    (h : ∀ e ∈ edges, ∀ cond, e.condition = some cond → ∃ b, guardTrue cond context = .ok b) :
    ∃ auto, autoBranches context edges exclusive = .ok auto := by
  unfold autoBranches
  cases exclusive with
  | true =>
    obtain ⟨e, he⟩ := firstGuarded_ok h
    simp only [he, bind, Except.bind, if_true]
    cases e <;> exact ⟨_, rfl⟩
  | false =>
    obtain ⟨picked, hp⟩ := openEdges_ok h
    simp only [hp, bind, Except.bind, Bool.false_eq_true, if_false]
    exact ⟨_, rfl⟩

theorem nodup_out_keys (hwf : g.WellFormed) (k : String) : ((g.out k).map (·.key)).Nodup := by
  have hperm := perm_insertionSort (fun a b : GraphEdge => a.key ≤ b.key) g.edges
  have hsorted : (g.sortedEdges.map (·.key)).Nodup := (hperm.map _).nodup_iff.mpr hwf.edges_nodup
  exact hsorted.sublist (filter_sublist.map _)

theorem eq_singleton_of_key {e : GraphEdge} (he : e ∈ edges) (hnodup : (edges.map (·.key)).Nodup)
    (hkey : ∀ e' ∈ edges, e'.key = e.key) : edges = [e] := by
  have hall : ∀ e' ∈ edges, e' = e := fun e' he' =>
    inj_on_of_nodup_map hnodup he' he (hkey e' he')
  have hrep := eq_replicate_iff.mpr ⟨rfl, hall⟩
  have hle : edges.length ≤ 1 := by
    rw [hrep] at hnodup
    by_contra hlt
    rw [map_replicate, nodup_replicate] at hnodup
    exact hlt hnodup
  have hpos := length_pos_of_mem he
  rw [hrep, show edges.length = 1 by omega]
  rfl

theorem choose_ok (hwf : g.WellFormed) (hguards : ParsableGuards g) (context : Context)
    (hdec : DecisionsAccepted g decisions)
    {n : GraphNode} (hn : n ∈ g.nodes) : ∃ p, choose (g.run context decisions) n = .ok p := by
  unfold choose
  have hout : (g.run context decisions).idx.out n.key = g.out n.key := rfl
  have hcontext : (g.run context decisions).context = context := rfl
  cases hd : (g.run context decisions).decisions n.key with
  | none =>
    have hparse : ∀ e ∈ g.out n.key, ∀ cond, e.condition = some cond →
        ∃ b, guardTrue cond context = .ok b := fun e he cond hc =>
      guardTrue_ok (hguards e (DerivedGraph.mem_out.mp he).1 cond hc)
    obtain ⟨auto, ha⟩ := autoBranches_ok (n.connectorType = some .xor) hparse
    simp only [hout, hcontext, ha, bind, Except.bind]
    cases auto <;> exact ⟨_, rfl⟩
  | some wanted =>
    obtain ⟨m, hm, hne, hsub, hxor⟩ := hdec n.key wanted hd
    have hmn : m = n := by
      rw [graphNode_eq hwf, node?_of_mem hwf hn] at hm
      exact (Option.some.inj hm).symm
    subst hmn
    -- an edge the decision names is among the outgoing ones, and for an XOR split no other is
    obtain ⟨k, rest, hcons⟩ := exists_cons_of_ne_nil hne
    have hk : k ∈ wanted := by simp [hcons]
    obtain ⟨e, he, rfl⟩ := mem_map.mp (hsub hk)
    obtain ⟨he, hfrom⟩ := mem_filter.mp he
    have heout : e ∈ g.out m.key :=
      DerivedGraph.mem_out.mpr ⟨he, by simpa using hfrom⟩
    have hmem : e ∈ (g.out m.key).filter fun e => e.key ∈ wanted :=
      mem_filter.mpr ⟨heout, by simpa using hk⟩
    have hone : m.connectorType = some .xor →
        ((g.out m.key).filter fun e => e.key ∈ wanted).length = 1 := by
      intro hx
      have hnil : rest = [] := by simpa [hcons] using hxor hx
      refine length_eq_one_iff.mpr ⟨e, eq_singleton_of_key hmem ?_ fun e' he' => ?_⟩
      · exact (nodup_out_keys hwf m.key).sublist (filter_sublist.map _)
      · have := (mem_filter.mp he').2
        simpa [hcons, hnil] using this
    simp only [hout]
    rw [if_neg (ne_nil_of_mem hmem)]
    by_cases hx : m.connectorType = some .xor
    · rw [if_neg (by simp [hone hx])]
      exact ⟨_, rfl⟩
    · rw [if_neg (by simp [hx])]
      exact ⟨_, rfl⟩

end BbzPlatform.Workflow
