import BbzPlatform.RuleDsl.Model

/-!
# Typed context registries of the rule DSL

A `ContextSchema` lists the fields a condition may read, with their types.
`ContextSchema.validate` is the publish-time check: unknown fields and operators
that do not fit the type of their operand are refused before anything runs.

`check` looks inside a nested expression only under `and`, `or` and `not`.  As an
operand of a comparison a nested expression counts as a boolean and its own
operands are not visited.
-/

namespace BbzPlatform.RuleDsl

/-- The types of context fields. -/
inductive FieldType where
  | string | number | boolean | datetime | list
  deriving DecidableEq, Repr

namespace FieldType

/-- The type's name in an error text. -/
def value : FieldType → String
  | .string => "string"
  | .number => "number"
  | .boolean => "boolean"
  | .datetime => "datetime"
  | .list => "list"

/-- Only numbers and dates have an order. -/
def orderable : FieldType → Bool
  | .number | .datetime => true
  | _ => false

end FieldType

/-- Whether a literal can stand beside a field of the given type. -/
def literalMatches : FieldType → Json → Bool
  | .string, .str _ => true
  | .datetime, .str _ => true
  | .number, .int _ => true
  | .number, .float _ => true
  | .boolean, .bool _ => true
  | .list, .arr _ => true
  | _, _ => false

/-- A named set of typed fields. -/
structure ContextSchema where
  name : String
  fields : List (String × FieldType)

namespace ContextSchema

variable (schema : ContextSchema)

def fieldType (field : String) : Except DslError FieldType :=
  match schema.fields.lookup field with
  | some t => .ok t
  | none => .error (.unknownField field schema.name)

/-- The type of an operand: a nested predicate is a boolean, a bare literal has
no type of its own. -/
def operandType : Operand → Except DslError (Option FieldType)
  | .expr _ _ => .ok (some .boolean)
  | .raw v =>
    if isFieldRef v then do
      let t ← schema.fieldType ((fieldRef? v).getD "")
      .ok (some t)
    else .ok none

/-- A literal beside a typed operand must be of its type. -/
def checkLiteral (t : Option FieldType) (other : Operand) : Except DslError Unit :=
  match t, other with
  | none, _ => .ok ()
  | _, .expr _ _ => .ok ()
  | some t, .raw v =>
    if isFieldRef v then .ok ()
    else if literalMatches t v then .ok ()
    else .error (.literal v t.value)

/-- An order operator refuses a typed operand without an order. -/
def checkOrderable (op : Operator) : Option FieldType → Except DslError Unit
  | none => .ok ()
  | some t => if t.orderable then .ok () else .error (.notOrderable op t.value)

/-- Every item of a literal list must be of the left operand's type. -/
def checkItems (t : FieldType) : List Json → Except DslError Unit
  | [] => .ok ()
  | item :: rest =>
    if literalMatches t item then checkItems t rest else .error (.listItem item t.value)

/-- `in` and `not_in` need a list on the right. -/
def checkMember (op : Operator) (lt rt : Option FieldType) (right : Operand) :
    Except DslError Unit :=
  match rt with
  | some t => if t = .list then .ok () else .error (.notAList op t.value)
  | none =>
    match right with
    | .raw (.arr items) =>
      match lt with
      | some t => checkItems t items
      | none => .ok ()
    | _ => .error (.scalarOnTheRight op)

/-- A comparison of two operands. -/
def checkBinary (op : Operator) (left right : Operand) : Except DslError Unit := do
  let lt ← schema.operandType left
  let rt ← schema.operandType right
  match op with
  | .lt | .lte | .gt | .gte =>
    checkOrderable op lt
    checkOrderable op rt
    checkLiteral lt right
    checkLiteral rt left
  | .eq | .ne =>
    checkLiteral lt right
    checkLiteral rt left
  | .inOp | .notInOp => checkMember op lt rt right
  | _ => .ok ()

/-- A field reference under a boolean operator must name a known field. -/
def checkRaw (v : Json) : Except DslError Unit :=
  if isFieldRef v then do
    let _ ← schema.fieldType ((fieldRef? v).getD "")
    .ok ()
  else .ok ()

/-- `exists` takes a single field reference. -/
def checkExists : List Operand → Except DslError Unit
  | [.raw v] => if isFieldRef v then schema.checkRaw v else .error .existsTakesField
  | _ => .error .existsTakesField

def checkNode (op : Operator) (args : List Operand) (nested : Except DslError Unit) :
    Except DslError Unit :=
  match op with
  | .andOp | .orOp | .notOp => nested
  | .existsOp => schema.checkExists args
  | _ =>
    match args with
    | [left, right] => schema.checkBinary op left right
    | _ => .error (.twoArguments op)

mutual

def checkOperand : Operand → Except DslError Unit
  | .expr op args => schema.checkNode op args (checkOperands args)
  | .raw v => schema.checkRaw v

/-- The operands of a boolean operator, from left to right. -/
def checkOperands : List Operand → Except DslError Unit
  | [] => .ok ()
  | a :: rest => do
      checkOperand a
      checkOperands rest

end

def check (e : Expr) : Except DslError Unit :=
  schema.checkNode e.op e.args (schema.checkOperands e.args)

/-- Parse a condition and check it against the schema. -/
def validate (tree : Json) : Except Raised Unit := do
  let e ← parse tree
  match schema.check e with
  | .ok _ => .ok ()
  | .error err => .error (.dsl err)

end ContextSchema

/-- The fields of trigger-rule conditions. -/
def triggerContext : ContextSchema where
  name := "trigger"
  fields :=
    [("provider", .string), ("signal_type", .string), ("calling_number", .string),
      ("called_number", .string), ("cti_route_point", .string),
      ("technical_endpoint_id", .string), ("external_source_id", .string),
      ("workplace", .string), ("site", .string), ("station", .string), ("alarm_type", .string),
      ("alarm_subtype", .string), ("severity", .number), ("call_direction", .string),
      ("call_state", .string)]

/-- The fields of workflow branch conditions. -/
def workflowContext : ContextSchema where
  name := "workflow"
  fields :=
    [("event_priority", .string), ("event_status", .string), ("event_source", .string),
      ("event_bbz_id", .string), ("event_workplace_id", .string), ("branch_key", .string),
      ("step_completed_count", .number), ("operator_confirmed", .boolean)]

end BbzPlatform.RuleDsl
