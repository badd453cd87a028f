import BbzPlatform.RuleDsl.Context
import BbzPlatform.Workflow.Graph

/-!
# The token engine

The engine takes a graph, the live tokens, a condition context and the operator
decisions, and returns the mutations to persist.  Its work list is a list of
mutable records in the code.  Here it is a list, and "the record `w`" is the
first entry that satisfies the test which selected it: `setFirst` changes that
entry in place.

`advance` and `resumeFunction` are stated through `Call`, one invocation with all
its inputs, so that runs can speak of the calls they are made of.

## Main definitions

* `Token`, `EngineResult`, `W` — the data of the engine.
* `Index` — the adjacency lists and the precomputed descendants.
* `process` — one iteration of the loop.
* `runLoop` — the loop under its step budget.
* `advance`, `resumeFunction` — the two entry points.
-/

namespace BbzPlatform.Workflow

open RuleDsl

inductive TokenState where
  | active | waiting | consumed
  deriving DecidableEq, Repr

/-- A live token as loaded from the token table. -/
structure Token (ι : Type) where
  id : ι
  nodeKey : String
  state : TokenState
  inboundEdgeKey : Option String := none
  deriving DecidableEq, Repr

/-- A branch selection the engine resolved at a connector. -/
structure DecisionMade where
  connectorNodeKey : String
  chosenEdgeKeys : List String
  auto : Bool := true
  deriving DecidableEq, Repr

/-- The mutations the caller must persist. -/
structure EngineResult (ι : Type) where
  consumed : List ι
  parked : List ι
  spawned : List (String × Option String)
  decisions : List DecisionMade
  completed : Bool
  deriving DecidableEq, Repr

/-- Whether a work entry was loaded or made during the run. -/
inductive Origin where
  | existing | spawned
  deriving DecidableEq, Repr

/-- An entry of the work list. -/
structure W (ι : Type) where
  origin : Origin
  id : Option ι
  nodeKey : String
  state : TokenState
  inbound : Option String
  wasActive : Bool
  deriving DecidableEq, Repr

/-- Why no branch can be taken at a choice split.  `guardType` is the exception
Python raises by itself on a guard whose operator cannot be hashed. -/
inductive BranchError where
  | noValidBranch (nodeKey : String)
  | exactlyOneBranch (nodeKey : String)
  | guardType (typeName : String)
  deriving DecidableEq, Repr

/-- Why a graph cannot be executed as given.  `keyError` is Python's own exception on
an edge whose endpoint is no node. -/
inductive EngineError (ι : Type) where
  | keyError (key : String)
  | unexpectedState (id : ι) (state : TokenState)
  | stepNotWaiting (nodeKey : String)
  | didNotSettle
  | unknownNode (nodeKey : String)
  | unknownNodeType (type nodeKey : String)
  | noDirection (nodeKey : String)
  | branch (err : BranchError)
  | stillActive
  deriving DecidableEq, Repr

def BranchError.message : BranchError → String
  | .noValidBranch k => "decision for " ++ Json.reprStr k ++ " names no valid branch"
  | .exactlyOneBranch k =>
    "an XOR decision for " ++ Json.reprStr k ++ " must pick exactly one branch"
  | .guardType t => "unhashable type: " ++ Json.reprStr t

def EngineError.message {ι : Type} [ToString ι] : EngineError ι → String
  | .keyError key => Json.reprStr key
  | .unexpectedState id state =>
    "token " ++ toString id ++ " has unexpected state " ++ Json.reprStr
      (match state with
        | .active => "active"
        | .waiting => "waiting"
        | .consumed => "consumed")
  | .stepNotWaiting k => "no waiting token at node " ++ Json.reprStr k
  | .didNotSettle => "engine did not settle — a cycle without a bounded re-entry rule?"
  | .unknownNode k => "token at unknown node " ++ Json.reprStr k
  | .unknownNodeType t k => "unknown node type " ++ Json.reprStr t ++ " at " ++ Json.reprStr k
  | .noDirection k => "connector " ++ Json.reprStr k ++ " has no split/join direction"
  | .branch err => err.message
  | .stillActive => "internal: spawned token still active after run"

/-! ## The index -/

/-- Adjacency lists in edge-key order and the descendants of every node. -/
structure Index where
  nodes : String → Option GraphNode
  out : String → List GraphEdge
  inc : String → List GraphEdge
  reachable : String → List String

namespace DerivedGraph

variable (g : DerivedGraph)

/-- The node stored under a key; of two nodes with one key the later wins. -/
def node? (key : String) : Option GraphNode := g.nodes.reverse.find? (·.key = key)

def sortedEdges : List GraphEdge := g.edges.insertionSort fun a b => a.key ≤ b.key

/-- The outgoing edges of a node in key order. -/
def out (key : String) : List GraphEdge := g.sortedEdges.filter (·.fromKey = key)

/-- The incoming edges of a node in key order. -/
def inc (key : String) : List GraphEdge := g.sortedEdges.filter (·.toKey = key)

/-- The successors of a node, one for each outgoing edge. -/
def successors (key : String) : List String := (g.out key).map (·.toKey)

/-- The nodes a search from the successors of `start` finds. -/
def descendants (start : String) : List String :=
  Search.closure g.successors (g.nodes.map (·.key)) (g.successors start)

def index : Index where
  nodes := g.node?
  out := g.out
  inc := g.inc
  reachable := g.descendants

/-- An endpoint that is no node makes building the index fail. -/
def missingKey (e : GraphEdge) : Option String :=
  if e.fromKey ∉ g.nodes.map (·.key) then some e.fromKey
  else if e.toKey ∉ g.nodes.map (·.key) then some e.toKey
  else none

end DerivedGraph

variable {ι : Type}

/-- Building the index: `KeyError` at the first edge with a missing endpoint. -/
def mkIndex (g : DerivedGraph) : Except (EngineError ι) Index :=
  match g.sortedEdges.findSome? g.missingKey with
  | some key => .error (.keyError key)
  | none => .ok g.index

/-- What a run of the engine reads. -/
structure Run where
  idx : Index
  graph : DerivedGraph
  context : Context
  decisions : Mapping (List String)

def mkRun (g : DerivedGraph) (context : Context) (decisions : Mapping (List String)) :
    Except (EngineError ι) Run := do
  let idx ← mkIndex g
  .ok ⟨idx, g, context, decisions⟩

/-! ## The work list -/

namespace W

/-- `w.state == _ACTIVE`. -/
def isActive (w : W ι) : Bool := w.state = .active

/-- `w.state != _CONSUMED`. -/
def isLive (w : W ι) : Bool := w.state ≠ .consumed

end W

/-- Change the state of the first entry that satisfies a test. -/
def setFirst (p : W ι → Bool) (s : TokenState) : List (W ι) → List (W ι)
  | [] => []
  | w :: rest => if p w then { w with state := s } :: rest else w :: setFirst p s rest

/-- The work entry of a loaded token. -/
def mkExisting (t : Token ι) : Except (EngineError ι) (W ι) :=
  match t.state with
  | .consumed => .error (.unexpectedState t.id t.state)
  | _ => .ok
      { origin := .existing, id := some t.id, nodeKey := t.nodeKey, state := t.state,
        inbound := t.inboundEdgeKey, wasActive := t.state = .active }

/-- A fresh active token at the end of an edge. -/
def spawnedAt (e : GraphEdge) : W ι :=
  { origin := .spawned, id := none, nodeKey := e.toKey, state := .active, inbound := some e.key,
    wasActive := false }

/-- Append one active token for each edge. -/
def spawnOn (work : List (W ι)) (edges : List GraphEdge) : List (W ι) :=
  work ++ edges.map spawnedAt

/-- The entries at a join that are not consumed, active ones included. -/
def present (work : List (W ι)) (joinKey : String) : List (W ι) :=
  work.filter fun w => w.nodeKey = joinKey && w.isLive

/-- Consume every entry present at the join and put a token on its output. -/
def fireJoin (run : Run) (work : List (W ι)) (joinKey : String) : List (W ι) :=
  spawnOn
    (work.map fun w =>
      if w.nodeKey = joinKey && w.isLive then { w with state := .consumed } else w)
    (run.idx.out joinKey)

/-- An AND join fires once a token is present for every incoming edge. -/
def maybeFireAndJoin (run : Run) (work : List (W ι)) (joinKey : String) : List (W ι) :=
  let arrived := (present work joinKey).map (·.inbound)
  let needed := (run.idx.inc joinKey).map fun e => some e.key
  if needed = [] || !needed.all (· ∈ arrived) then work else fireJoin run work joinKey

/-- An XOR join fires on any arrival. -/
def fireChoiceJoin (run : Run) (work : List (W ι)) (joinKey : String) : List (W ι) :=
  if (present work joinKey).isEmpty then work else fireJoin run work joinKey

/-- Some live token elsewhere can still reach the join. -/
def stillComing (run : Run) (work : List (W ι)) (joinKey : String) : Bool :=
  work.any fun w => w.isLive && w.nodeKey ≠ joinKey && joinKey ∈ run.idx.reachable w.nodeKey

/-- An OR join fires unless another token is still coming. -/
def maybeFireOrJoin (run : Run) (work : List (W ι)) (joinKey : String) : List (W ι) :=
  if (present work joinKey).isEmpty then work
  else if stillComing run work joinKey then work
  else fireJoin run work joinKey

/-! ## Choice splits -/

/-- Evaluate a guard.  What the DSL reports counts as not satisfied; any other
exception leaves the engine. -/
def guardTrue (condition : List (String × Json)) (context : Context) :
    Except BranchError Bool :=
  match parse (.obj condition) with
  | .error (.dsl _) => .ok false
  | .error (.unhashable t) => .error (.guardType t)
  | .ok e =>
    match evaluate e context with
    | .ok b => .ok b
    | .error _ => .ok false

def firstGuarded (context : Context) : List GraphEdge → Except BranchError (Option GraphEdge)
  | [] => .ok none
  | e :: rest =>
    match e.condition with
    | none => firstGuarded context rest
    | some c => do
        let b ← guardTrue c context
        if b then .ok (some e) else firstGuarded context rest

/-- The edges whose guard holds or that have none. -/
def openEdges (context : Context) : List GraphEdge → Except BranchError (List GraphEdge)
  | [] => .ok []
  | e :: rest =>
    match e.condition with
    | none => do
        let picked ← openEdges context rest
        .ok (e :: picked)
    | some c => do
        let b ← guardTrue c context
        let picked ← openEdges context rest
        .ok (if b then e :: picked else picked)

/-- The branches the conditions select, `none` when nothing resolves. -/
def autoBranches (context : Context) (out : List GraphEdge) (exclusive : Bool) :
    Except BranchError (Option (List GraphEdge)) :=
  if exclusive then do
    match ← firstGuarded context out with
    | some e => .ok (some [e])
    | none =>
      .ok (match out.filter (·.condition.isNone) with
        | [] => none
        | e :: _ => some [e])
  else do
    let picked ← openEdges context out
    .ok (if picked = [] then none else some picked)

/-- What a choice split does with a token: the branches it takes and whether the
selection has to be reported, or `none` to wait for an operator. -/
def choose (run : Run) (node : GraphNode) :
    Except BranchError (Option (List GraphEdge × Bool)) :=
  let exclusive := node.connectorType = some .xor
  let out := run.idx.out node.key
  match run.decisions node.key with
  | some wanted =>
    let chosen := out.filter fun e => e.key ∈ wanted
    if chosen = [] then .error (.noValidBranch node.key)
    else if exclusive && chosen.length ≠ 1 then .error (.exactlyOneBranch node.key)
    else .ok (some (chosen, false))
  | none => do
      match ← autoBranches run.context out exclusive with
      | none => .ok none
      | some auto => .ok (some (auto, true))

/-- A choice split consumes the token and puts one on every branch taken, or
parks it. -/
def choiceSplit (run : Run) (work : List (W ι)) (node : GraphNode) :
    Except (EngineError ι) (List (W ι) × List DecisionMade) :=
  match choose run node with
  | .error err => .error (.branch err)
  | .ok none => .ok (setFirst W.isActive .waiting work, [])
  | .ok (some (edges, report)) =>
    .ok (spawnOn (setFirst W.isActive .consumed work) edges,
      if report then [⟨node.key, edges.map (·.key), true⟩] else [])

/-! ## The loop -/

def connector (run : Run) (work : List (W ι)) (node : GraphNode) :
    Except (EngineError ι) (List (W ι) × List DecisionMade) :=
  match node.connectorDirection with
  | some .split =>
    if node.connectorType = some .and then
      .ok (spawnOn (setFirst W.isActive .consumed work) (run.idx.out node.key), [])
    else choiceSplit run work node
  | some .join =>
    let work := setFirst W.isActive .waiting work
    match node.connectorType with
    | some .and => .ok (maybeFireAndJoin run work node.key, [])
    | some .xor => .ok (fireChoiceJoin run work node.key, [])
    | _ => .ok (maybeFireOrJoin run work node.key, [])
  | none => .error (.noDirection node.key)

/-- One iteration: `w` is the first active entry of the work list. -/
def process (run : Run) (work : List (W ι)) (w : W ι) :
    Except (EngineError ι) (List (W ι) × List DecisionMade) :=
  match run.idx.nodes w.nodeKey with
  | none => .error (.unknownNode w.nodeKey)
  | some node =>
    match node.type with
    | .event => .ok (spawnOn (setFirst W.isActive .consumed work) (run.idx.out node.key), [])
    | .function => .ok (setFirst W.isActive .waiting work, [])
    | .connector => connector run work node
    | .other t => .error (.unknownNodeType t w.nodeKey)

/-- The loop with the steps it may still take. -/
def loop (run : Run) : ℕ → List (W ι) → Except (EngineError ι) (List (W ι) × List DecisionMade)
  | fuel, work =>
    match work.find? W.isActive with
    | none => .ok (work, [])
    | some w =>
      match fuel with
      | 0 => .error .didNotSettle
      | fuel + 1 => do
          let (work, made) ← process run work w
          let (work, later) ← loop run fuel work
          .ok (work, made ++ later)

/-- `(len(nodes) + len(edges) + len(work)) * (len(nodes) + 1) + 100`. -/
def budget (g : DerivedGraph) (work : List (W ι)) : ℕ :=
  (g.nodes.length + g.edges.length + work.length) * (g.nodes.length + 1) + 100

/-- Process active tokens until none is left. -/
def runLoop (run : Run) (work : List (W ι)) :
    Except (EngineError ι) (List (W ι) × List DecisionMade) :=
  loop run (budget run.graph work) work

def consumedIds (work : List (W ι)) : List ι :=
  work.filterMap fun w => if w.origin = .existing ∧ w.state = .consumed then w.id else none

/-- The ids of loaded active tokens that now wait. -/
def parkedIds (work : List (W ι)) : List ι :=
  work.filterMap fun w =>
    if w.origin = .existing ∧ w.state = .waiting ∧ w.wasActive then w.id else none

/-- The new tokens that wait. -/
def spawnedPairs (work : List (W ι)) : List (String × Option String) :=
  work.filterMap fun w =>
    if w.origin = .spawned ∧ w.state = .waiting then some (w.nodeKey, w.inbound) else none

/-- Encode the final work list as mutations. -/
def result (work : List (W ι)) (made : List DecisionMade) :
    Except (EngineError ι) (EngineResult ι) :=
  if work.any fun w => w.origin = .spawned && w.isActive then .error .stillActive
  else
    .ok
      { consumed := consumedIds work
        parked := parkedIds work
        spawned := spawnedPairs work
        decisions := made
        completed := !work.any W.isLive }

/-! ## Entry points -/

/-- One invocation of the engine: `advance` without a target, `resume_function`
with the node whose token is to move on. -/
structure Call (ι : Type) where
  tokens : List (Token ι)
  target : Option String := none
  context : Context := fun _ => none
  decisions : Mapping (List String) := fun _ => none

/-- The test that picks the token `resume_function` consumes. -/
def waitingAt (nodeKey : String) (w : W ι) : Bool := w.nodeKey = nodeKey && w.state = .waiting

/-- Consume the first token waiting at a node and move it on. -/
def resumeWork (run : Run) (work : List (W ι)) (nodeKey : String) :
    Except (EngineError ι) (List (W ι)) :=
  match work.find? (waitingAt nodeKey) with
  | none => .error (.stepNotWaiting nodeKey)
  | some _ => .ok (spawnOn (setFirst (waitingAt nodeKey) .consumed work) (run.idx.out nodeKey))

namespace Call

variable (g : DerivedGraph) (c : Call ι)

/-- The run and the work list with which the loop starts. -/
def enter : Except (EngineError ι) (Run × List (W ι)) := do
  let run ← mkRun g c.context c.decisions
  let work ← c.tokens.mapM mkExisting
  match c.target with
  | none => .ok (run, work)
  | some nodeKey => do
      let work ← resumeWork run work nodeKey
      .ok (run, work)

/-- The work list with which the loop ends, and the decisions it made. -/
def finish : Except (EngineError ι) (List (W ι) × List DecisionMade) := do
  let (run, work) ← c.enter g
  runLoop run work

/-- What the invocation returns. -/
def outcome : Except (EngineError ι) (EngineResult ι) := do
  let (work, made) ← c.finish g
  result work made

end Call

/-- Process every active token until the instance is quiescent. -/
def advance (g : DerivedGraph) (tokens : List (Token ι)) (context : Context)
    (decisions : Mapping (List String)) : Except (EngineError ι) (EngineResult ι) :=
  Call.outcome g ⟨tokens, none, context, decisions⟩

/-- Consume the waiting token at a node, move it on, then advance. -/
def resumeFunction (g : DerivedGraph) (tokens : List (Token ι)) (nodeKey : String)
    (context : Context) (decisions : Mapping (List String)) :
    Except (EngineError ι) (EngineResult ι) :=
  Call.outcome g ⟨tokens, some nodeKey, context, decisions⟩

end BbzPlatform.Workflow
