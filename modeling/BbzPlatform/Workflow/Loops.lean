import BbzPlatform.Workflow.Settling
import Mathlib.Data.Finset.Card

/-!
# The graph searches

The publish check and the index search the graph from a node: for what can be reached, for what lies
ahead, and for a cycle.  The last is a depth-first search that paints the nodes.  A node that is
done leads only to such nodes and not back to itself, and the nodes that are being visited lead to
the current one, so a cycle is found exactly if there is one.
-/

namespace BbzPlatform.Workflow

open Relation List

/-- An adjacency map: the successors of the nodes that have an entry.  `out.get(key, [])` has none
for the others. -/
structure Adjacency where
  keys : List String
  next : String → List String
  closed : ∀ k, k ∉ keys → next k = []

namespace Adjacency

variable (out : Adjacency) (start : String)

/-- `_reachable`; `none` if the loop did not end. -/
def reachable : Option (List String) :=
  Search.run out.next (Search.weight out.next out.keys [start] []) [start] []

/-- `_descendants`; `none` if the loop did not end. -/
def descendantsOf : Option (List String) :=
  Search.run out.next (Search.weight out.next out.keys (out.next start) []) (out.next start) []

/-- `_has_cycle`; `none` if the recursion goes deeper than allowed. -/
def hasCycleFrom (depth : ℕ) : Option Bool := (visit out.next depth start []).map (·.1)

end Adjacency

variable {succ : String → List String} {keys : Finset String} {depth : ℕ} {key k : String}
  {nexts : List String} {colour after mid : List (String × Colour)}

/-- What is done leads to what is done, and not back to itself. -/
def Settled (succ : String → List String) (colour : List (String × Colour)) : Prop :=
  ∀ k, colour.lookup k = some .done → (∀ next ∈ succ k, colour.lookup next = some .done) ∧
    ¬ TransGen (Search.Edge succ) k k

/-- A search without a back edge keeps the colours, and leaves no other node half visited. -/
structure Explores (succ : String → List String) (before after : List (String × Colour)) :
    Prop where
  settled : Settled succ after
  keeps : ∀ k c, before.lookup k = some c → after.lookup k = some c
  ended : ∀ k, after.lookup k = some .visiting → before.lookup k = some .visiting

/-- A cycle can be reached, or a node that is being visited. -/
def Closes (succ : String → List String) (colour : List (String × Colour)) (key : String) : Prop :=
  ∃ v, ReflTransGen (Search.Edge succ) key v ∧
    (TransGen (Search.Edge succ) v v ∨ colour.lookup v = some .visiting)

/-- What a search from some nodes comes to.  It ends. -/
def Searched (succ : String → List String) (colour : List (String × Colour)) (nexts : List String) :
    Option (Bool × List (String × Colour)) → Prop
  | none => False
  | some (true, _) => ∃ next ∈ nexts, Closes succ colour next
  | some (false, after) =>
    Explores succ colour after ∧ ∀ next ∈ nexts, after.lookup next = some .done

/-- Fewer nodes are unpainted than the depth allows to visit. -/
def Room (keys : Finset String) (depth : ℕ) (colour : List (String × Colour)) : Prop :=
  (keys.filter (colour.lookup · = none)).card < depth

theorem lookup_paint (key k : String) (c : Colour) (colour : List (String × Colour)) :
    ((key, c) :: colour).lookup k = if k = key then some c else colour.lookup k := by
  rw [lookup_cons]
  by_cases h : k = key
  · simp [h]
  · rw [beq_eq_false_iff_ne.mpr h, if_neg h]

theorem Explores.refl (h : Settled succ colour) : Explores succ colour colour :=
  ⟨h, fun _ _ => id, fun _ => id⟩

theorem Explores.trans (h : Explores succ colour mid) (h' : Explores succ mid after) :
    Explores succ colour after :=
  ⟨h'.settled, fun k c hk => h'.keeps k c (h.keeps k c hk), fun k hk => h.ended k (h'.ended k hk)⟩

theorem Room.keeps (h : Room keys depth colour) (hex : Explores succ colour after) :
    Room keys depth after := by
  refine (Finset.card_le_card (Finset.monotone_filter_right _ fun k _ hk => ?_)).trans_lt h
  cases hc : colour.lookup k with
  | none => rfl
  | some c => cases (hex.keeps k c hc).symm.trans hk

/-- A node that is taken up uses some of the depth. -/
theorem Room.visit (h : Room keys (depth + 1) colour) (hkey : key ∈ keys)
    (hnew : colour.lookup key = none) : Room keys depth ((key, .visiting) :: colour) := by
  refine (Finset.card_lt_card ((Finset.ssubset_iff_of_subset ?_).mpr
    ⟨key, by simp [hkey, hnew], by simp⟩)).trans_le (Nat.le_of_lt_succ h)
  refine Finset.monotone_filter_right _ fun k _ hk => ?_
  rw [lookup_paint] at hk
  split_ifs at hk
  exact hk

theorem Settled.visiting (h : Settled succ colour) (hnew : colour.lookup key = none) :
    Settled succ ((key, .visiting) :: colour) := by
  have hdone : ∀ k, ((key, Colour.visiting) :: colour).lookup k = some .done ↔
      colour.lookup k = some .done := by
    intro k
    rw [lookup_paint]
    split_ifs with heq
    · simp [heq, hnew]
    · rfl
  simpa only [Settled, hdone] using h

theorem Settled.reaches (h : Settled succ colour) (hdone : colour.lookup key = some .done)
    (hreach : ReflTransGen (Search.Edge succ) key k) : colour.lookup k = some .done := by
  induction hreach with
  | refl => exact hdone
  | tail _ hedge ih => exact (h _ ih).1 _ hedge

/-- A node whose successors are done is done: a way back to it would lead from them to a node that
is still visited. -/
theorem Settled.done (h : Settled succ colour) (hkey : colour.lookup key = some .visiting)
    (hnext : ∀ next ∈ succ key, colour.lookup next = some .done) :
    Settled succ ((key, .done) :: colour) := by
  have hdone : ∀ k, colour.lookup k = some .done →
      ((key, Colour.done) :: colour).lookup k = some .done := by
    intro k hk
    rw [lookup_paint]
    split_ifs <;> simp [hk]
  intro k hk
  rw [lookup_paint] at hk
  split_ifs at hk with heq
  · subst heq
    refine ⟨fun next hmem => hdone next (hnext next hmem), fun hback => ?_⟩
    obtain ⟨next, hedge, hreach⟩ := TransGen.head'_iff.mp hback
    exact absurd (hkey.symm.trans (h.reaches (hnext next hedge) hreach)) (by decide)
  · exact ⟨fun next hmem => hdone next ((h k hk).1 next hmem), (h k hk).2⟩

/-- A node that is done goes before the others. -/
theorem Searched.cons {result : Option (Bool × List (String × Colour))} {next : String}
    (hex : Explores succ colour mid) (hdone : mid.lookup next = some .done)
    (h : Searched succ mid nexts result) : Searched succ colour (next :: nexts) result := by
  obtain _ | ⟨_ | _, after⟩ := result
  · exact h
  · exact ⟨hex.trans h.1, forall_mem_cons.mpr ⟨h.1.keeps _ _ hdone, h.2⟩⟩
  · obtain ⟨n, hn, v, hreach, hv⟩ := h
    exact ⟨n, mem_cons_of_mem _ hn, v, hreach, hv.imp_right (hex.ended v)⟩

/-- The loop over the successors, given what a visit does. -/
theorem visitAll_searched
    {visit : String → List (String × Colour) → Option (Bool × List (String × Colour))}
    (hvisit : ∀ key colour, Settled succ colour → Room keys depth colour →
      colour.lookup key = none → Searched succ colour [key] (visit key colour))
    (hs : Settled succ colour) (hroom : Room keys depth colour) :
    Searched succ colour nexts (visitAll visit nexts colour) := by
  fun_induction visitAll visit nexts colour
  · exact ⟨.refl hs, by simp⟩
  next n rest colour hlook => exact ⟨n, mem_cons_self, n, .refl, .inr hlook⟩
  next hlook ih => exact (ih hs hroom).cons (.refl hs) hlook
  next n rest colour hlook hfirst =>
    have hnext := hvisit n colour hs hroom hlook
    rw [hfirst] at hnext
    exact hnext.elim
  next n rest colour hlook after hfirst =>
    have hnext := hvisit n colour hs hroom hlook
    rw [hfirst] at hnext
    obtain ⟨m, hm, hcloses⟩ := hnext
    exact ⟨m, mem_singleton.mp hm ▸ mem_cons_self, hcloses⟩
  next n rest colour hlook mid hfirst ih =>
    have hnext := hvisit n colour hs hroom hlook
    rw [hfirst] at hnext
    obtain ⟨hex, hdone⟩ := hnext
    exact (ih hex.settled (hroom.keeps hex)).cons hex (hdone n mem_cons_self)

/-- **A visit ends, and finds a back edge or settles its node.** -/
theorem visit_searched (hclosed : ∀ k ∉ keys, succ k = []) (hs : Settled succ colour)
    (hroom : Room keys depth colour) (hnew : colour.lookup key = none) :
    Searched succ colour [key] (visit succ depth key colour) := by
  induction depth generalizing key colour with
  | zero => exact absurd hroom (Nat.not_lt_zero _)
  | succ depth ih =>
    have hall : Searched succ ((key, .visiting) :: colour) (succ key)
        (visitAll (visit succ depth) (succ key) ((key, .visiting) :: colour)) := by
      by_cases hkey : key ∈ keys
      · exact visitAll_searched (fun _ _ hs hroom hnew => ih hs hroom hnew) (hs.visiting hnew)
          (hroom.visit hkey hnew)
      · rw [hclosed key hkey]
        exact ⟨.refl (hs.visiting hnew), by simp⟩
    rw [visit]
    generalize visitAll (visit succ depth) (succ key) ((key, .visiting) :: colour) = result at hall
    obtain _ | ⟨_ | _, mid⟩ := result
    · exact hall
    · obtain ⟨hex, hdone⟩ := hall
      have hmid : mid.lookup key = some .visiting :=
        hex.keeps key .visiting (by rw [lookup_paint, if_pos rfl])
      refine ⟨⟨hex.settled.done hmid hdone, fun k c hk => ?_, fun k hk => ?_⟩, by simp⟩
      · have hne : k ≠ key := by
          rintro rfl
          simp [hnew] at hk
        rw [lookup_paint, if_neg hne]
        exact hex.keeps k c (by rwa [lookup_paint, if_neg hne])
      · rw [lookup_paint] at hk
        split_ifs at hk with hne
        · cases hk
        · have hold := hex.ended k hk
          rwa [lookup_paint, if_neg hne] at hold
    · obtain ⟨next, hnext, v, hreach, hv⟩ := hall
      refine ⟨key, mem_cons_self, ?_⟩
      rcases hv with hloop | hv
      · exact ⟨v, .head hnext hreach, .inl hloop⟩
      · rw [lookup_paint] at hv
        split_ifs at hv with heq
        · exact ⟨key, .refl, .inl (.head' hnext (heq ▸ hreach))⟩
        · exact ⟨v, .head hnext hreach, .inr hv⟩

/-- **The search for a back edge ends**, and finds a cycle exactly if one can be reached. -/
theorem Adjacency.exists_hasCycleFrom (out : Adjacency) (start : String)
    (hdepth : out.keys.length < depth) : ∃ found, out.hasCycleFrom start depth = some found ∧
      (found = true ↔ ∃ k, ReflTransGen (Search.Edge out.next) start k ∧
        TransGen (Search.Edge out.next) k k) := by
  have hroom : Room out.keys.toFinset depth [] :=
    (Finset.card_filter_le _ _).trans_lt ((toFinset_card_le _).trans_lt hdepth)
  have hsearched : Searched out.next [] [start] (visit out.next depth start []) :=
    visit_searched (fun k hk => out.closed k (by simpa using hk)) (fun k hk => by cases hk)
      hroom rfl
  rw [hasCycleFrom]
  generalize visit out.next depth start [] = result at hsearched
  obtain _ | ⟨_ | _, after⟩ := result
  · exact hsearched.elim
  · obtain ⟨hex, hdone⟩ := hsearched
    refine ⟨false, rfl, iff_of_false Bool.false_ne_true fun ⟨k, hreach, hloop⟩ => ?_⟩
    exact (hex.settled k (hex.settled.reaches (hdone start mem_cons_self) hreach)).2 hloop
  · obtain ⟨n, hn, v, hreach, hv⟩ := hsearched
    rw [mem_singleton.mp hn] at hreach
    exact ⟨true, rfl, iff_of_true rfl ⟨v, hreach, hv.resolve_right fun h => by cases h⟩⟩

/-- **The graph searches are right**: they end, and find what can be reached, what lies ahead, and
whether there is a cycle. -/
theorem searches_correct (out : Adjacency) (start : String) :
    (∃ found, out.reachable start = some found ∧
      ∀ k, k ∈ found ↔ ReflTransGen (Search.Edge out.next) start k) ∧
    (∀ depth, out.keys.length < depth → ∃ found, out.hasCycleFrom start depth = some found ∧
      (found = true ↔ ∃ k, ReflTransGen (Search.Edge out.next) start k ∧
        TransGen (Search.Edge out.next) k k)) ∧
    ∃ found, out.descendantsOf start = some found ∧
      ∀ k, k ∈ found ↔ TransGen (Search.Edge out.next) start k := by
  refine ⟨?_, fun depth hdepth => out.exists_hasCycleFrom start hdepth, ?_⟩
  · obtain ⟨found, hfound, hmem⟩ := Search.exists_run out.closed [start]
    exact ⟨found, hfound, fun k => by simp [hmem]⟩
  · obtain ⟨found, hfound, hmem⟩ := Search.exists_run out.closed (out.next start)
    refine ⟨found, hfound, fun k => ?_⟩
    rw [hmem, TransGen.head'_iff]
    rfl

/-- **What is published without a re-entry rule has no cycle**: every node can be reached from the
start, so the search from there would find a cycle. -/
theorem accepted_acyclic {ext : Externals} {caps : Option (List String)} {definition : Json}
    {g : DerivedGraph} (h : Accepted ext caps definition g)
    (hno : ∀ n ∈ g.nodes, n.type = .connector → Json.has n.props "reentry" = false) :
    g.Acyclic := by
  intro k hloop
  obtain ⟨-, hreach, -, -, hloops⟩ := h.issues
  have hedge : ∀ a b, b ∈ (g.outEdges a).map (·.toKey) ↔ g.Adj a b := by
    simp [DerivedGraph.outEdges, DerivedGraph.Adj, and_assoc]
  have hsources : ∀ a ∉ g.edges.map (·.fromKey), (g.outEdges a).map (·.toKey) = [] := by
    refine fun a ha => eq_nil_iff_forall_not_mem.mpr fun b hb => ?_
    obtain ⟨e, he, rfl, -⟩ := (hedge a b).mp hb
    exact ha (mem_map_of_mem he)
  have hclosed : ∀ a ∉ g.nodes.map (·.key), (g.outEdges a).map (·.toKey) = [] := by
    refine fun a ha => hsources a fun hmem => ha ?_
    obtain ⟨e, he, rfl⟩ := mem_map.mp hmem
    exact h.wellFormed.from_mem e he
  have hfound : k ∈ g.reachableFromStart := by
    obtain ⟨_, ⟨e, he, rfl, -⟩, -⟩ := TransGen.head'_iff.mp hloop
    obtain ⟨n, hn, hkey⟩ := mem_map.mp (h.wellFormed.from_mem e he)
    have horphans := map_eq_nil_iff.mp (append_eq_nil_iff.mp hreach).1
    simpa [hkey] using filter_eq_nil_iff.mp horphans n hn
  obtain ⟨_, hstart, hpath⟩ := (Search.mem_closure_iff hclosed).mp hfound
  obtain rfl := mem_singleton.mp hstart
  have hcycle : g.hasCycle = some true := by
    have hdepth : (g.edges.map (·.fromKey)).length < g.edges.length + 1 := by simp
    obtain ⟨found, hfound, hiff⟩ :=
      Adjacency.exists_hasCycleFrom ⟨g.edges.map (·.fromKey), _, hsources⟩ g.start hdepth
    rw [hiff.mpr ⟨k, hpath, TransGen.mono (fun a b => (hedge a b).mpr) k k hloop⟩] at hfound
    exact hfound
  rw [DerivedGraph.loopIssues, if_pos ⟨hcycle, by simpa using hno⟩] at hloops
  cases hloops

theorem accepted_acyclic_diamond : diamond.flatten.Acyclic :=
  accepted_acyclic diamond_accepted (by decide)

end BbzPlatform.Workflow
