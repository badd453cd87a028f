import BbzPlatform.Workflow.Outcome

/-!
# Publish validation

A template may be published only if its graph is sound: an event to start from, no
orphan, a reachable end, the right number of edges at every node, splits that can be
resolved and tracked, the properties each task kind needs, and no unbounded loop.
`validatePublishable` returns the issues found, none for a publishable graph.  It
looks at whether an edge has a condition, never into the condition.

A capability that is a list or a dict cannot be looked up in the set of known
capabilities, and Python's `TypeError` leaves the function: that is the error case.
-/

namespace BbzPlatform.Workflow

/-- A finding of the publish check. -/
structure ValidationIssue where
  code : String
  message : String
  nodeKey : Option String := none
  deriving DecidableEq, Repr

def requiredProp : FunctionKind → Option String
  | .integrationAction => some "capability"
  | .notification => some "channel"
  | .timer => some "duration_seconds"
  | _ => none

namespace DerivedGraph

variable (g : DerivedGraph)

/-- The outgoing edges of a node, in the order of the rows. -/
def outEdges (key : String) : List GraphEdge := g.edges.filter (·.fromKey = key)

/-- The incoming edges of a node, in the order of the rows. -/
def incEdges (key : String) : List GraphEdge := g.edges.filter (·.toKey = key)

def reachableFromStart : List String :=
  Search.closure (fun k => (g.outEdges k).map (·.toKey)) (g.nodes.map (·.key)) [g.start]

end DerivedGraph

/-! ## Cycle search -/

/-- The colour of a visited node. -/
inductive Colour where
  | visiting | done
  deriving DecidableEq, Repr

/-- The loop over the successors of a node: a successor that is being visited closes a
cycle, an unknown one is visited. -/
def visitAll (visit : String → List (String × Colour) → Option (Bool × List (String × Colour))) :
    List String → List (String × Colour) → Option (Bool × List (String × Colour))
  | [], colour => some (false, colour)
  | next :: rest, colour =>
    match colour.lookup next with
    | some .visiting => some (true, colour)
    | some .done => visitAll visit rest colour
    | none =>
      match visit next colour with
      | none => none
      | some (true, colour) => some (true, colour)
      | some (false, colour) => visitAll visit rest colour

/-- Visit a node; `none` if the recursion goes deeper than allowed. -/
def visit (succ : String → List String) :
    ℕ → String → List (String × Colour) → Option (Bool × List (String × Colour))
  | 0, _, _ => none
  | depth + 1, key, colour =>
    match visitAll (visit succ depth) (succ key) ((key, .visiting) :: colour) with
    | none => none
    | some (true, colour) => some (true, colour)
    | some (false, colour) => some (false, (key, .done) :: colour)

/-- Whether a back edge is found from the start; `none` if the recursion did not end.  The nodes
being visited at one time are distinct, and all but the last have edges, so their number is depth
enough. -/
def DerivedGraph.hasCycle (g : DerivedGraph) : Option Bool :=
  (visit (fun k => (g.outEdges k).map (·.toKey)) (g.edges.length + 1) g.start []).map (·.1)

/-! ## The checks -/

namespace DerivedGraph

variable (g : DerivedGraph)

def startIssues : List ValidationIssue :=
  (match g.node? g.start with
    | some start =>
      if start.type ≠ .event then
        [⟨"start_not_event", "the start node must be an event", some start.key⟩]
      else []
    | none => [])
  ++ (if g.incEdges g.start ≠ [] then
      [⟨"start_has_predecessor", "the start node must have no incoming edge", some g.start⟩]
    else [])

/-- Every node is reachable, and one of the reachable nodes is an end. -/
def reachIssues : List ValidationIssue :=
  let reach := g.reachableFromStart
  (g.nodes.filter (·.key ∉ reach)).map
      (fun n => ⟨"orphan", "node is unreachable from start", some n.key⟩)
    ++ (if (g.nodes.filter (g.outEdges ·.key = [])).any (·.key ∈ reach) then []
      else [⟨"no_end", "no end node is reachable from start", none⟩])

/-- The number of edges at a node. -/
def cardinalityIssues (n : GraphNode) : List ValidationIssue :=
  let o := (g.outEdges n.key).length
  let i := (g.incEdges n.key).length
  if n.type = .connector then
    (if n.connectorDirection = some .split ∧ ¬ (i = 1 ∧ 2 ≤ o) then
      [⟨"split_cardinality",
        "a split needs 1 in / >=2 out (has " ++ toString i ++ "/" ++ toString o ++ ")",
        some n.key⟩]
    else [])
    ++ (if n.connectorDirection = some .join ∧ ¬ (2 ≤ i ∧ o = 1) then
      [⟨"join_cardinality",
        "a join needs >=2 in / 1 out (has " ++ toString i ++ "/" ++ toString o ++ ")",
        some n.key⟩]
    else [])
  else if 1 < o then
    [⟨"branch_without_connector", "only connectors may branch", some n.key⟩]
  else []

/-- XOR splits can be resolved, and the branches of OR splits are labelled. -/
def branchIssues (n : GraphNode) : List ValidationIssue :=
  if n.type ≠ .connector ∨ n.connectorDirection ≠ some .split then []
  else
    (if n.connectorType = some .xor ∧
        1 < ((g.outEdges n.key).filter (·.condition.isNone)).length then
      [⟨"xor_unresolvable",
        "an XOR split needs a condition on every branch but at most one default", some n.key⟩]
    else [])
    ++ (if n.connectorType = some .or ∧ (g.outEdges n.key).any (·.branch.isNone) then
      [⟨"or_untrackable", "every OR-split branch needs a branch label", some n.key⟩]
    else [])

/-- A cycle needs a connector with a re-entry bound. -/
def loopIssues : List ValidationIssue :=
  if g.hasCycle = some true ∧
      ¬ g.nodes.any (fun n => n.type = .connector && Json.has n.props "reentry") then
    [⟨"unbounded_loop", "graph has a cycle with no bounded re-entry rule", none⟩]
  else []

end DerivedGraph

/-- The lookup of a capability in the known ones.  `none` where Python cannot hash the
value. -/
def knownCapability (caps : List String) : Option Json → Option Bool
  | none => some false
  | some (.str s) => some (s ∈ caps)
  | some v => if v.unhashable then none else some false

/-- The properties a task kind needs, and a capability that exists. -/
def propIssues (ext : Externals) (caps : Option (List String)) (n : GraphNode) :
    Except String (List ValidationIssue) :=
  if n.type ≠ .function then .ok []
  else
    let missing : List ValidationIssue :=
      match n.functionKind with
      | none => []
      | some kind =>
        match requiredProp kind with
        | some need =>
          if Json.has n.props need then []
          else [⟨"missing_prop", kind.name ++ " needs props." ++ need, some n.key⟩]
        | none => []
    match caps with
    | none => .ok missing
    | some known =>
      if n.functionKind ≠ some .integrationAction then .ok missing
      else
        let cap := Json.get n.props "capability"
        match knownCapability known cap with
        | none => .error ((cap.getD .null).typeName)
        | some true => .ok missing
        | some false =>
          .ok (missing ++ [⟨"unknown_capability", "unknown integration capability "
            ++ (cap.getD .null).repr ext.floatRepr, some n.key⟩])

/-- The issues of a graph, in the order of the checks; an error is Python's `TypeError`
on a capability that cannot be hashed. -/
def graphIssues (ext : Externals) (caps : Option (List String)) (g : DerivedGraph) :
    Except String (List ValidationIssue) := do
  let props ← g.nodes.mapM (propIssues ext caps)
  .ok (g.startIssues ++ g.reachIssues ++ g.nodes.flatMap g.cardinalityIssues
    ++ g.nodes.flatMap g.branchIssues ++ props.flatten ++ g.loopIssues)

def validatePublishable (ext : Externals) (caps : Option (List String)) (definition : Json) :
    Except String (List ValidationIssue) :=
  match deriveIndex ext definition with
  | .error err => .ok [⟨"structure", err.message, none⟩]
  | .ok g => graphIssues ext caps g

def Accepted (ext : Externals) (caps : Option (List String)) (definition : Json)
    (g : DerivedGraph) : Prop :=
  validatePublishable ext caps definition = .ok [] ∧ deriveIndex ext definition = .ok g

variable {ext : Externals} {caps : Option (List String)} {definition : Json} {g : DerivedGraph}

theorem accepted_iff : Accepted ext caps definition g ↔
    deriveIndex ext definition = .ok g ∧ graphIssues ext caps g = .ok [] := by
  unfold Accepted validatePublishable
  constructor
  · rintro ⟨h, hg⟩
    simp only [hg] at h
    exact ⟨hg, h⟩
  · rintro ⟨hg, h⟩
    simp only [hg]
    exact ⟨h, trivial⟩

theorem accepted_toJson {d : Definition} (hw : d.writable = true) (hs : checkStructure d = .ok ())
    (h : graphIssues ext caps d.flatten = .ok []) : Accepted ext caps d.toJson d.flatten :=
  accepted_iff.mpr ⟨deriveIndex_toJson ext hw hs, h⟩

theorem Accepted.wellFormed (h : Accepted ext caps definition g) : g.WellFormed :=
  deriveIndex_wellFormed h.2

/-- The checks all came out empty. -/
theorem Accepted.issues (h : Accepted ext caps definition g) :
    g.startIssues = [] ∧ g.reachIssues = [] ∧ (∀ n ∈ g.nodes, g.cardinalityIssues n = []) ∧
      (∀ n ∈ g.nodes, g.branchIssues n = []) ∧ g.loopIssues = [] := by
  obtain ⟨-, h⟩ := accepted_iff.mp h
  unfold graphIssues at h
  cases hp : g.nodes.mapM (propIssues ext caps) with
  | error err => rw [hp] at h; cases h
  | ok props =>
    simp only [hp, bind, Except.bind, Except.ok.injEq, List.append_eq_nil_iff,
      List.flatMap_eq_nil_iff] at h
    obtain ⟨⟨⟨⟨⟨hstart, hreach⟩, hcard⟩, hbranch⟩, -⟩, hloop⟩ := h
    exact ⟨hstart, hreach, hcard, hbranch, hloop⟩

end BbzPlatform.Workflow
