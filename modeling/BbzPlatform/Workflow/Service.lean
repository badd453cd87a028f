import BbzPlatform.Lib.Logged
import BbzPlatform.Workflow.Outcome
import BbzPlatform.Workflow.Tasks

/-!
# The workflow engine service

The service keeps an instance in tables: token rows, which stay when they are
consumed, task results, decisions and the outbox.  Every operation is one
transaction.  It reads the live tokens, calls the engine, writes the mutations, and
then settles: timers are armed, and steps of an automatic kind are dispatched one
after the other.  An operation that raises leaves everything as it was.

What differs from one transaction to the next is in `Env`: the clocks, the ids the
database makes, the order in which it returns rows where the query gives none, and
the event row the conditions read.

## Main definitions

* `Instance` — the rows of one workflow instance.
* `settle`, `runAuto` — the handling of timers and automatic steps.
* `startInstance`, `completeStep`, `decide`, `advanceInstance`, `fireDueTimers` — the
  operations.
-/

namespace BbzPlatform.Workflow

open RuleDsl Logged

/-- `WorkflowInstanceStatus`. -/
inductive InstanceStatus where
  | running | completed | cancelled | failed
  deriving DecidableEq, Repr

/-- A row of `workflow_tokens`. -/
structure TokenRow (ι : Type) where
  id : ι
  nodeKey : String
  inboundEdgeKey : Option String
  state : TokenState
  resumeAt : Option ℤ
  enteredAt : ℤ
  deriving DecidableEq, Repr

/-- A row of `workflow_task_results`. -/
structure TaskResult where
  nodeKey : String
  result : Json
  completedBy : Option String

/-- A row of `workflow_decisions`. -/
structure DecisionRow where
  connectorNodeKey : String
  chosenBranches : List String
  auto : Bool
  decidedBy : Option String
  deriving DecidableEq, Repr

structure OutboxRow where
  dedupeKey : String
  actionType : String
  payload : Json

structure Instance (ι : Type) where
  id : String
  status : InstanceStatus
  tokens : List (TokenRow ι)
  results : List TaskResult
  decisions : List DecisionRow
  outbox : List OutboxRow

/-- The event row, as far as conditions read it. -/
structure EventRow where
  priority : String
  status : String
  source : String
  bbzId : Option String
  workplaceId : Option String

/-- What one transaction meets: clocks in microseconds, fresh ids, the order of unordered
queries, and the event. -/
structure Env (ι : Type) where
  now : ℤ
  txNow : ℤ
  fresh : List ι → ι
  fresh_notMem : ∀ used, fresh used ∉ used
  scan : List (TokenRow ι) → List (TokenRow ι)
  scan_perm : ∀ rows, (scan rows).Perm rows
  scanDecisions : List DecisionRow → List DecisionRow
  scanDecisions_perm : ∀ rows, (scanDecisions rows).Perm rows
  event : Option EventRow

/-- What an operation raises.  `multipleResults` is raised by the database layer when a
single row is asked for and there are several, `overflow` by Python's date arithmetic. -/
inductive ServiceError (ι : Type) where
  | stepNotAvailable (nodeKey : String)
  | notABranchConnector (nodeKey : String)
  | notOutgoing (chosen : List String) (nodeKey : String)
  | exactlyOneBranch
  | decisionNotAvailable (nodeKey : String)
  | multipleResults
  | engine (err : EngineError ι)
  | taskKind (err : TaskKindError)
  | overflow
  | didNotConverge

/-- The text of a raised service error; the database layer and Python write their own. -/
def ServiceError.message {ι : Type} [ToString ι] (floatRepr : ℚ → String) :
    ServiceError ι → Option String
  | .stepNotAvailable k => some ("no waiting token at node " ++ Json.reprStr k)
  | .notABranchConnector k => some (Json.reprStr k ++ " is not a branch connector")
  | .notOutgoing chosen k =>
    some ("branches " ++ Json.reprStrs chosen ++ " are not outgoing edges of " ++ Json.reprStr k)
  | .exactlyOneBranch => some "an XOR decision must pick exactly one branch"
  | .decisionNotAvailable k => some ("no branch decision is pending at " ++ Json.reprStr k)
  | .engine err => some err.message
  | .taskKind err => some (err.message floatRepr)
  | .didNotConverge => some "task settling did not converge"
  | .multipleResults | .overflow => none

/-- A transaction: the engine calls it makes and what it returns. -/
abbrev Tx (ι α : Type) := Logged (Call ι) (ServiceError ι) α

def graphNode (g : DerivedGraph) (key : String) : Option GraphNode := g.nodes.find? (·.key = key)

/-- The task kind of a node, whatever its type. -/
def kindAt (g : DerivedGraph) (key : String) : Option FunctionKind :=
  (graphNode g key).bind (·.functionKind)

variable {ι : Type} [LinearOrder ι]

/-- A row as the engine sees it. -/
def TokenRow.token (r : TokenRow ι) : Token ι := ⟨r.id, r.nodeKey, r.state, r.inboundEdgeKey⟩

/-- `ORDER BY node_key, entered_at, id`. -/
def TokenRow.le (a b : TokenRow ι) : Prop :=
  a.nodeKey < b.nodeKey ∨ a.nodeKey = b.nodeKey ∧
    (a.enteredAt < b.enteredAt ∨ a.enteredAt = b.enteredAt ∧ a.id ≤ b.id)

instance : DecidableRel (TokenRow.le : TokenRow ι → TokenRow ι → Prop) := fun a b => by
  unfold TokenRow.le
  infer_instance

namespace Instance

variable (inst : Instance ι)

/-! ## Reading -/

/-- The live tokens in the order of the query. -/
def liveTokens : List (Token ι) :=
  ((inst.tokens.filter (·.state ≠ .consumed)).insertionSort TokenRow.le).map TokenRow.token

def waitingRows : List (TokenRow ι) := inst.tokens.filter (·.state = .waiting)

def stepDone (key : String) : Bool := inst.results.any (·.nodeKey = key)

def context (event : Option EventRow) : Context :=
  let base : List (String × Json) :=
    [("step_completed_count", .int inst.results.length), ("operator_confirmed", .bool false)]
  let optional (s : Option String) : Json := (s.map Json.str).getD .null
  let fields : List (String × Json) := match event with
    | none => base
    | some e => base ++ [("event_priority", .str e.priority), ("status", .str e.status),
        ("source", .str e.source), ("bbz_id", optional e.bbzId),
        ("workplace_id", optional e.workplaceId)]
  fun k => fields.lookup k

/-- The recorded decisions as a dict: of several rows for a connector the last one read
stays. -/
def decisionMap (env : Env ι) : Mapping (List String) := fun k =>
  ((env.scanDecisions inst.decisions).reverse.find? (·.connectorNodeKey = k)).map
    (·.chosenBranches)

/-- The engine call of an operation on what is recorded. -/
def call (env : Env ι) (target : Option String) : Call ι :=
  ⟨inst.liveTokens, target, inst.context env.event, inst.decisionMap env⟩

/-! ## Writing -/

def setState (ids : List ι) (state : TokenState) : Instance ι :=
  { inst with tokens := inst.tokens.map fun r =>
      if r.id ∈ ids then { r with state := state } else r }

/-- Take the deadline off a row. -/
def clearDeadline (id : ι) : Instance ι :=
  { inst with tokens := inst.tokens.map fun r =>
      if r.id = id then { r with resumeAt := none } else r }

def insertToken (env : Env ι) (state : TokenState) (place : String × Option String) :
    Instance ι :=
  { inst with tokens := inst.tokens ++
      [⟨env.fresh (inst.tokens.map (·.id)), place.1, place.2, state, none, env.txNow⟩] }

/-- Record a task result. -/
def addResult (nodeKey : String) (result : Json) (completedBy : Option String) : Instance ι :=
  { inst with results := inst.results ++ [⟨nodeKey, result, completedBy⟩] }

def addDecision (d : DecisionRow) : Instance ι :=
  { inst with decisions := inst.decisions ++ [d] }

/-- Add an outbox row, unless its key is there already. -/
def enqueue (row : OutboxRow) : Instance ι :=
  if inst.outbox.any (·.dedupeKey = row.dedupeKey) then inst
  else { inst with outbox := inst.outbox ++ [row] }

/-- Write the mutations the engine returned. -/
def apply (env : Env ι) (r : EngineResult ι) : Instance ι :=
  let inst := (inst.setState r.consumed .consumed).setState r.parked .waiting
  let inst := r.spawned.foldl (fun i p => i.insertToken env .waiting p) inst
  let inst := r.decisions.foldl
    (fun i d => i.addDecision ⟨d.connectorNodeKey, d.chosenEdgeKeys, true, none⟩) inst
  if r.completed ∧ inst.status = .running then { inst with status := .completed } else inst

end Instance

/-- A row after the states of the engine's result are written. -/
def TokenRow.restate (r : EngineResult ι) (row : TokenRow ι) : TokenRow ι :=
  { row with state := if row.id ∈ r.parked then .waiting
      else if row.id ∈ r.consumed then .consumed else row.state }

/-! ## Settling -/

section Settling

variable (ext : Externals) (env : Env ι) (g : DerivedGraph)

/-- The last date Python can represent, in microseconds. -/
def datetimeMax : ℤ := 253402300799999999

/-- When a timer armed now is due. -/
def dueAt (n : GraphNode) : Except (ServiceError ι) ℤ :=
  match timerSeconds ext.intOfStr n.props with
  | .error err => .error (.taskKind err)
  | .ok seconds =>
    if datetimeMax < env.now + seconds * 1000000 then .error .overflow
    else .ok (env.now + seconds * 1000000)

/-- The deadline a row gets: only an unarmed timer gets one. -/
def deadline (r : TokenRow ι) : Except (ServiceError ι) (Option ℤ) :=
  match graphNode g r.nodeKey with
  | none => .ok none
  | some n =>
    if n.functionKind.any (·.timed) && r.resumeAt.isNone then (dueAt ext env n).map some
    else .ok none

def TokenRow.armed (r : TokenRow ι) : TokenRow ι :=
  match deadline ext env g r with
  | .ok (some due) => { r with resumeAt := some due }
  | _ => r

def armTimers (inst : Instance ι) (rows : List (TokenRow ι)) :
    Except (ServiceError ι) (Instance ι) := do
  rows.forM fun r => (deadline ext env g r).map fun _ => ()
  .ok { inst with tokens := inst.tokens.map fun r => if r ∈ rows then r.armed ext env g else r }

/-- The node of the first row of an automatic kind that is not done. -/
def nextAuto (inst : Instance ι) (rows : List (TokenRow ι)) : Option String :=
  (rows.find? fun r => (kindAt g r.nodeKey).any (·.auto) && !inst.stepDone r.nodeKey).map
    (·.nodeKey)

/-- Call the engine and write what it returns. -/
def runEngine (inst : Instance ι) (target : Option String) : Tx ι (Instance ι) := do
  let c := inst.call env target
  let r ← request c ((c.outcome g).mapError .engine)
  pure (inst.apply env r)

def stepOutboxRow (instanceId nodeKey action : String) (n : GraphNode) (kind : FunctionKind) :
    OutboxRow where
  dedupeKey := stepDedupeKey instanceId nodeKey
  actionType := action
  payload := .obj [("instance_id", .str instanceId), ("node_key", .str nodeKey),
    ("kind", .str kind.name), ("props", .obj n.props)]

/-- Dispatch an automatic step: one outbox row, a result, and the token moves on. -/
def runAuto (inst : Instance ι) (nodeKey : String) (n : GraphNode) (kind : FunctionKind) :
    Tx ι (Instance ι) := do
  let action ← lift ((outboxAction kind).mapError .taskKind)
  let inst := inst.enqueue (stepOutboxRow inst.id nodeKey action n kind)
  let inst := inst.addResult nodeKey
    (.obj [("dispatched", .bool true), ("kind", .str kind.name)]) none
  runEngine env g inst (some nodeKey)

/-- The rounds of `_settle`. -/
def settleRounds : ℕ → Instance ι → Tx ι (Instance ι)
  | 0, _ => fail .didNotConverge
  | rounds + 1, inst => do
      let rows := env.scan inst.waitingRows
      let inst ← lift (armTimers ext env g inst rows)
      match nextAuto g inst rows with
      | none => pure inst
      | some key =>
        match graphNode g key with
        | some n =>
          match n.functionKind with
          | some kind => do
              let inst ← runAuto env g inst key n kind
              settleRounds rounds inst
          | none => pure inst
        | none => pure inst

/-- Arm timers and dispatch automatic steps until only an operator or a due timer can
move the instance on. -/
def settle (inst : Instance ι) : Tx ι (Instance ι) :=
  settleRounds ext env g (g.nodes.length + 5) inst

/-- Advance, write, settle. -/
def drive (inst : Instance ι) : Tx ι (Instance ι) := do
  let inst ← runEngine env g inst none
  settle ext env g inst

/-! ## The operations -/

/-- Create an instance with a token on the start node, and run it. -/
def startInstance (id : String) : Tx ι (Instance ι) :=
  let empty : Instance ι := ⟨id, .running, [], [], [], []⟩
  drive ext env g (empty.insertToken env .active (g.start, none))

/-- Run the engine again from the recorded state. -/
def advanceInstance (inst : Instance ι) : Tx ι (Instance ι) :=
  if inst.status ≠ .running then pure inst else drive ext env g inst

/-- Record the result of a step and move its token on. -/
def completeStep (inst : Instance ι) (nodeKey : String) (result : Option Json)
    (actor : Option String) : Tx ι (Instance ι) :=
  if inst.stepDone nodeKey then pure inst
  else do
    let c := inst.call env (some nodeKey)
    let r ← request c (match c.outcome g with
      | .ok r => .ok r
      | .error (.stepNotWaiting k) => .error (.stepNotAvailable k)
      | .error err => .error (.engine err))
    settle ext env g ((inst.addResult nodeKey (result.getD (.obj [])) actor).apply env r)

/-- The branches of a decision, each once. -/
def dedupBranches (chosen : List String) : List String := chosen.reverse.dedup.reverse

/-- Record an operator's branch choice and go on. -/
def decide (inst : Instance ι) (connectorNodeKey : String) (chosenEdgeKeys : List String)
    (actor : Option String) : Tx ι (Instance ι) :=
  match graphNode g connectorNodeKey with
  | none => fail (.notABranchConnector connectorNodeKey)
  | some node =>
    if node.type ≠ .connector ∨ node.connectorDirection ≠ some .split then
      fail (.notABranchConnector connectorNodeKey)
    else if inst.decisions.any (·.connectorNodeKey = connectorNodeKey) then pure inst
    else
      let outKeys := (g.edges.filter (·.fromKey = connectorNodeKey)).map (·.key)
      let chosen := dedupBranches chosenEdgeKeys
      if chosen = [] ∨ ¬ chosen ⊆ outKeys then fail (.notOutgoing chosen node.key)
      else if node.connectorType = some .xor ∧ chosen.length ≠ 1 then
        fail .exactlyOneBranch
      else
        match inst.waitingRows.filter (·.nodeKey = connectorNodeKey) with
        | [] => fail (.decisionNotAvailable connectorNodeKey)
        | [row] =>
          drive ext env g ((inst.setState [row.id] .active).addDecision
            ⟨connectorNodeKey, chosen, false, actor⟩)
        | _ => fail .multipleResults

/-- Handle the rows of the due timers, in the order they were read. -/
def fireRows (inst : Instance ι) : List (TokenRow ι) → Tx ι (ℕ × Instance ι)
  | [] => pure (0, inst)
  | r :: rows =>
    let inst := inst.clearDeadline r.id
    if inst.status ≠ .running ∨ inst.stepDone r.nodeKey then fireRows inst rows
    else do
      let inst := inst.addResult r.nodeKey (.obj [("timer", .str "elapsed")]) none
      let inst ← runEngine env g inst (some r.nodeKey)
      let inst ← settle ext env g inst
      let (fired, inst) ← fireRows inst rows
      pure (fired + 1, inst)

/-- Resume the timers that are due, and count them. -/
def fireDueTimers (now : ℤ) (inst : Instance ι) : Tx ι (ℕ × Instance ι) :=
  fireRows ext env g inst (env.scan (inst.waitingRows.filter fun r => r.resumeAt.any (· ≤ now)))

end Settling

/-- An environment in which the clock stands still, ids are counted and rows come in the
order they were made. -/
def Env.plain : Env ℕ where
  now := 0
  txNow := 0
  fresh used := used.foldr max 0 + 1
  fresh_notMem used h := by
    have hle : ∀ (l : List ℕ) (a : ℕ), a ∈ l → a ≤ l.foldr max 0 := by
      intro l a ha
      induction l with
      | nil => cases ha
      | cons b l ih =>
        rcases List.mem_cons.mp ha with rfl | ha
        · simp
        · simp [ih ha]
    have := hle _ _ h
    omega
  scan := id
  scan_perm _ := .refl _
  scanDecisions := id
  scanDecisions_perm _ := .refl _
  event := none

end BbzPlatform.Workflow
