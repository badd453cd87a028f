import BbzPlatform.Triggers.Actions

/-!
# Running the actions of a rule version

`run_rule_version` runs the actions in order.  Each is claimed once in the ledger
`trigger_executions`; one that has a row there already is skipped.  An atomic action commits its
claim, its effect and its outcome in one transaction, and a malformed one leaves only its failure.
`attach_workflow` takes three transactions: the claim, the start of the workflow, the outcome.

Later actions may use the event that an earlier one made.  The run keeps it in memory.
-/

namespace BbzPlatform.Triggers

open Events (EventAggregate)

/-! ## The tables -/

inductive ExecutionStatus where
  | pending
  | succeeded
  | failed
  deriving DecidableEq, Repr

/-- A row of `trigger_executions`. -/
structure Execution where
  key : ExecutionKey
  status : ExecutionStatus
  result : Fields

/-- A row that an action has put into the outbox; its dedupe key is the text of the key. -/
structure OutboxEntry where
  key : ExecutionKey
  actionType : ActionType
  payload : Fields

structure WorkflowInstance where
  id : String
  eventId : String
  versionId : String
  running : Bool

/-- The audit row of an action that has ended. -/
structure ExecutionAudit where
  key : ExecutionKey
  actionType : String
  status : ExecutionStatus
  result : Fields

structure Db where
  ledger : List Execution
  events : List EventAggregate
  popups : List Popup
  outbox : List OutboxEntry
  instances : List WorkflowInstance
  audits : List ExecutionAudit

namespace Db

variable (db : Db) (key : ExecutionKey)

/-- The ledger has a row with the key, so that `_claim` returns `False`. -/
def claimed : Bool := db.ledger.any (·.key = key)

/-- `_claim` of a key without a row. -/
def claim : Db := { db with ledger := db.ledger ++ [⟨key, .pending, []⟩] }

/-- `_audit`. -/
def audit (actionType : String) (status : ExecutionStatus) (result : Fields) : Db :=
  { db with audits := db.audits ++ [⟨key, actionType, status, result⟩] }

/-- `_finish`: set the outcome of the row with the key. -/
def finish (status : ExecutionStatus) (result : Fields) : Db :=
  { db with ledger := db.ledger.map fun row =>
      if row.key = key then { row with status := status, result := result } else row }

/-- `enqueue`: a second row with the key is not inserted. -/
def enqueue (actionType : ActionType) (payload : Fields) : Db × Bool :=
  if db.outbox.any (·.key = key) then (db, false)
  else ({ db with outbox := db.outbox ++ [⟨key, actionType, payload⟩] }, true)

/-- Write the effect of an action, and complete its result. -/
def apply (made : Made) : Db × Fields :=
  match made.effect with
  | .event agg => ({ db with events := db.events ++ [agg] }, made.result)
  | .popup p => ({ db with popups := db.popups ++ [p] }, made.result)
  | .outbox actionType payload =>
    let enqueued := db.enqueue key actionType payload
    (enqueued.1, ("enqueued", .bool enqueued.2) :: made.result)

/-- The transaction of an atomic action that succeeds. -/
def succeed (actionType : String) (made : Made) : Db × Fields :=
  let applied := (db.claim key).apply key made
  ((applied.1.finish key .succeeded applied.2).audit key actionType .succeeded applied.2,
    applied.2)

/-- `_record_failure`: a row that is not pending stays. -/
def recordFailure (actionType : String) (result : Fields) : Db :=
  let db' := if db.claimed key then db else db.claim key
  if db'.ledger.any fun row => row.key = key ∧ row.status = .pending then
    (db'.finish key .failed result).audit key actionType .failed result
  else db'

end Db

/-! ## One action -/

/-- An action to run, with its key. -/
structure Task where
  key : ExecutionKey
  action : Fields

def eventIdOf (result : Fields) : Option String :=
  match Json.get result "event_id" with
  | some (.str id) => if id = "" then none else some id
  | _ => none

/-- `last_event_id`: the event that the latest result with one names. -/
def lastEventId (results : List Fields) : Option String := results.reverse.findSome? eventIdOf

section Running

variable (env : Surroundings) (signal : Fields)

def Task.typeText (task : Task) : String := str env (getOr task.action "type" (.str ""))

/-- `start_for_event`: a running instance of the version is returned as it is. -/
def startForEvent (db : Db) (key : ExecutionKey) (eventId templateKey : String) :
    Except Fault (Db × String) :=
  match env.published templateKey with
  | .error message => .error (.malformed message)
  | .ok version =>
    match db.instances.find? fun i =>
        i.eventId = eventId ∧ i.versionId = version.id ∧ i.running with
    | some i => .ok (db, i.id)
    | none =>
      match env.start key version eventId with
      | .error e => .error (.escaped (.workflow e))
      | .ok running =>
        let id := env.freshId key
        .ok ({ db with instances := db.instances ++ [⟨id, eventId, version.id, running⟩] }, id)

/-- The event and the template that `attach_workflow` is about: its own event, or the last one. -/
def attachTarget (action : Fields) (last : Option String) : Except Fault (String × String) :=
  let templateKey := orNull action "template_key"
  if !templateKey.truthy then .error (.malformed "attach_workflow requires template_key")
  else
    match asUuid env (orNull action "event_id") with
    | .error fault => .error fault
    | .ok own =>
      match own <|> last with
      | none => .error (.malformed "attach_workflow has no event to attach to")
      | some eventId => .ok (eventId, str env templateKey)

/-- `_attach_workflow`. -/
def attachWorkflow (db : Db) (task : Task) (last : Option String) : Except Fault (Db × Fields) :=
  match attachTarget env task.action last with
  | .error fault => .error fault
  | .ok target =>
    match startForEvent env db task.key target.1 target.2 with
    | .error fault => .error fault
    | .ok started => .ok (started.1,
        [("event_id", .str target.1), ("workflow_instance_id", .str started.2)])

/-- How far an action has come: not claimed, `attach_workflow` claimed, its workflow started, or
found malformed. -/
inductive Stage where
  | claim
  | starting
  | finishing (result : Fields)
  | failing (message : String)

/-- Where one transaction leads. -/
inductive Progress where
  | goOn (db : Db) (stage : Stage)
  | done (db : Db) (results : List Fields)
  | escaped (db : Db) (e : Escape)

/-- One transaction of an action. -/
def advance (task : Task) (results : List Fields) (db : Db) : Stage → Progress
  | .claim =>
    if db.claimed task.key then .done db results
    else if task.typeText env = "attach_workflow" then .goOn (db.claim task.key) .starting
    else
      match dispatch env task.key signal task.action (lastEventId results) with
      | .ok made =>
        let succeeded := db.succeed task.key (task.typeText env) made
        .done succeeded.1 (results ++ [succeeded.2])
      | .error (.malformed message) => .goOn db (.failing message)
      | .error (.escaped e) => .escaped db e
  | .starting =>
    match attachWorkflow env db task (lastEventId results) with
    | .ok (db', result) => .goOn db' (.finishing result)
    | .error (.malformed message) => .goOn db (.failing message)
    | .error (.escaped e) => .escaped db e
  | .finishing result =>
    .done ((db.finish task.key .succeeded result).audit task.key "attach_workflow" .succeeded
      result) (results ++ [result])
  | .failing message =>
    let result : Fields := [("error", .str message)]
    .done (db.recordFailure task.key (task.typeText env) result) (results ++ [result])

/-- How an action ends. -/
inductive TaskEnd where
  | done (db : Db) (results : List Fields)
  | escaped (db : Db) (e : Escape)

/-- An action from a stage to its end, in at most a number of transactions. -/
def runStages (task : Task) (results : List Fields) : ℕ → Db → Stage → TaskEnd
  | 0, db, _ => .done db results
  | n + 1, db, stage =>
    match advance env signal task results db stage with
    | .goOn db' stage' => runStages task results n db' stage'
    | .done db' results' => .done db' results'
    | .escaped db' e => .escaped db' e

/-- `_run_one`, from a stage on.  No action takes more than three transactions. -/
def runTask (task : Task) (results : List Fields) (db : Db) (stage : Stage) : TaskEnd :=
  runStages env signal task results 3 db stage

attribute [grind =] advance runStages runTask

/-! ## The actions of a run -/

/-- The results that the next action sees: those of its own version. -/
def carry : List Task → List Fields → List Fields
  | next :: _, results => if next.key.index = 0 then [] else results
  | [], results => results

inductive RunEnd where
  | finished (db : Db) (results : List Fields)
  | raised (db : Db) (e : Escape)

def RunEnd.db : RunEnd → Db
  | finished db _ => db
  | raised db _ => db

/-- Actions in order, the first from a stage on. -/
def run : List Task → List Fields → Db → Stage → RunEnd
  | [], results, db, _ => .finished db results
  | task :: rest, results, db, stage =>
    match runTask env signal task results db stage with
    | .escaped db' e => .raised db' e
    | .done db' results' => run rest (carry rest results') db' .claim

/-- A published version of a rule, with the actions that the gate has let through. -/
structure RuleVersion where
  id : String
  actions : List Fields

/-- The actions of a version for an inbox row. -/
def RuleVersion.tasks (version : RuleVersion) (providerEventId : String) : List Task :=
  version.actions.mapIdx fun index action => ⟨⟨providerEventId, version.id, index⟩, action⟩

/-- `run_rule_version`. -/
def runRuleVersion (providerEventId : String) (version : RuleVersion) (db : Db) : RunEnd :=
  run env signal (version.tasks providerEventId) [] db .claim

end Running

end BbzPlatform.Triggers
