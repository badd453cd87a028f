import BbzPlatform.Workflow.Graph

/-!
# Task kinds

What the runtime does with a token parked at a function node depends on the kind of the
task: an operator completes it, a timer runs out, or an action is put into the outbox
and the token moves on.

## Main definitions

* `FunctionKind.operator`, `FunctionKind.timed`, `FunctionKind.auto` — the three classes.
* `timerSeconds` — the duration of a timer, from the properties of its node.
-/

namespace BbzPlatform.Workflow

namespace FunctionKind

/-- `OPERATOR_KINDS`. -/
def operator : FunctionKind → Bool
  | .manual | .confirmation | .documentation => true
  | _ => false

/-- `TIMER_KINDS`. -/
def timed : FunctionKind → Bool
  | .timer => true
  | _ => false

/-- `AUTO_KINDS`. -/
def auto : FunctionKind → Bool
  | .integrationAction | .notification | .eventUpdate => true
  | _ => false

end FunctionKind

/-- Why a task cannot be handled. -/
inductive TaskKindError where
  | notAuto (kind : FunctionKind)
  | notANumber (raw : Json)
  | negative

/-- The text of the raised error. -/
def TaskKindError.message (floatRepr : ℚ → String) : TaskKindError → String
  | .notAuto kind => Json.reprStr kind.name ++ " is not an auto task kind"
  | .notANumber raw =>
    "timer props.duration_seconds is not a number: " ++ raw.repr floatRepr
  | .negative => "timer props.duration_seconds must not be negative"

def outboxAction : FunctionKind → Except TaskKindError String
  | .integrationAction => .ok "integration"
  | .notification => .ok "notify"
  | .eventUpdate => .ok "event_update"
  | kind => .error (.notAuto kind)

/-- The duration when the node gives none. -/
def defaultTimerSeconds : ℤ := 60

/-- `int(raw)` on a JSON value, given how Python reads an integer from a text. -/
def pyInt (intOfStr : String → Option ℤ) : Json → Option ℤ
  | .bool b => some (if b then 1 else 0)
  | .int i => some i
  | .float q => some (q.num.tdiv q.den)
  | .str s => intOfStr s
  | _ => none

def timerSeconds (intOfStr : String → Option ℤ) (props : List (String × Json)) :
    Except TaskKindError ℤ :=
  let raw := (Json.get props "duration_seconds").getD (.int defaultTimerSeconds)
  match pyInt intOfStr raw with
  | none => .error (.notANumber raw)
  | some seconds => if seconds < 0 then .error .negative else .ok seconds

def stepDedupeKey (instanceId nodeKey : String) : String :=
  "workflow-step:" ++ instanceId ++ ":" ++ nodeKey ++ ":attempt-0"

end BbzPlatform.Workflow
