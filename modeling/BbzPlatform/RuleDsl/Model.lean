import BbzPlatform.Json
import Mathlib.Data.List.Sort
import Mathlib.Data.String.Basic

/-!
# The rule DSL: parsing and evaluation

A branch condition is a JSON tree `op` / `args`, never program text.  `parse`
checks its shape and the operator names, `evaluate` is the predicate it denotes
over a context of field values.

Every failure the code reports itself is a `DslError`.  One is not reported by
the code: an `op` that is a list or an object cannot be looked up in the operator
set, and Python raises `TypeError`, which is not a `RuleDslError`.  `Raised`
keeps the two apart, since a caller that catches one lets the other through.
-/

namespace BbzPlatform.RuleDsl

inductive Operator where
  | eq | ne | inOp | notInOp | lt | lte | gt | gte | andOp | orOp | notOp | existsOp
  deriving DecidableEq, Repr

namespace Operator

def name : Operator → String
  | .eq => "eq"
  | .ne => "ne"
  | .inOp => "in"
  | .notInOp => "not_in"
  | .lt => "lt"
  | .lte => "lte"
  | .gt => "gt"
  | .gte => "gte"
  | .andOp => "and"
  | .orOp => "or"
  | .notOp => "not"
  | .existsOp => "exists"

def all : List Operator :=
  [.eq, .ne, .inOp, .notInOp, .lt, .lte, .gt, .gte, .andOp, .orOp, .notOp, .existsOp]

/-- Look a name up in the allowlist. -/
def ofName (s : String) : Option Operator := all.find? (·.name = s)

theorem ofName_name (op : Operator) : ofName op.name = some op := by cases op <;> decide

end Operator

/-- What the DSL reports: every way an expression can be wrong. -/
inductive DslError where
  | notAnExpression
  | operatorNotAllowed (op : Json)
  | argsNotList
  | badFieldReference
  | unknownField (field context : String)
  | existsTakesField
  | takesExactly (op : Operator) (n got : ℕ)
  | takesAtLeast (op : Operator) (n got : ℕ)
  | twoArguments (op : Operator)
  | operandShape (keys : List String)
  | cannotApply (op : Operator) (left right : String)
  | notACollection (op : Operator) (got : String)
  | notComparable (op : Operator) (needle haystack : String)
  | tooDeep
  | notOrderable (op : Operator) (got : String)
  | scalarOnTheRight (op : Operator)
  | notAList (op : Operator) (got : String)
  | listItem (item : Json) (expected : String)
  | literal (value : Json) (expected : String)

/-- An exception that leaves the DSL: one of its own, or the `TypeError` of an
operator that cannot be hashed. -/
inductive Raised where
  | dsl (e : DslError)
  | unhashable (typeName : String)

/-- A parsed operand: a nested expression, or a field reference or literal kept
as it stands. -/
inductive Operand where
  | expr (op : Operator) (args : List Operand)
  | raw (v : Json)
  deriving Inhabited

/-- A parsed expression node. -/
structure Expr where
  op : Operator
  args : List Operand

/-- The evaluation context: resolved field values. -/
abbrev Context := Mapping Json

/-- A missing field resolves to `None`. -/
def Context.get (c : Context) (field : String) : Json := (c field).getD .null

/-- The name a field reference carries, if the value is one. -/
def fieldRef? : Json → Option String
  | .obj fields =>
    match Json.get fields "field" with
    | some (.str s) => some s
    | _ => none
  | _ => none

/-- `isinstance(arg, dict) and "field" in arg`. -/
def isFieldRef : Json → Bool
  | .obj fields => Json.has fields "field"
  | _ => false

/-- The operator of a node: `op not in ALLOWED_OPERATORS` needs a hash first. -/
def readOperator (op : Json) : Except Raised Operator :=
  if op.unhashable then .error (.unhashable op.typeName)
  else
    match op with
    | .str s =>
      match Operator.ofName s with
      | some o => .ok o
      | none => .error (.dsl (.operatorNotAllowed op))
    | _ => .error (.dsl (.operatorNotAllowed op))

/-- A node from its fields and its parsed arguments.  The operator is read
first, so its failure hides those of the arguments. -/
def node (fields : List (String × Json)) (args : Except Raised (List Operand)) :
    Except Raised Expr :=
  match Json.get fields "op" with
  | none => .error (.dsl .notAnExpression)
  | some op => do
      let operator ← readOperator op
      let args ← args
      .ok ⟨operator, args⟩

/-- A reference must be an object whose `field` is a non-empty string. -/
def checkFieldRef (fields : List (String × Json)) : Except Raised Operand :=
  match Json.get fields "field" with
  | some (.str s) =>
    if s = "" then .error (.dsl .badFieldReference) else .ok (.raw (.obj fields))
  | _ => .error (.dsl .badFieldReference)

mutual

/-- An object with an `op` key is a nested expression; an object with a `field`
key must name the field; everything else is a literal. -/
def parseOperand : Json → Except Raised Operand
  | .obj fields =>
    if Json.has fields "op" then do
      let e ← node fields (parseArgs fields)
      .ok (.expr e.op e.args)
    else if Json.has fields "field" then checkFieldRef fields
    else .ok (.raw (.obj fields))
  | v => .ok (.raw v)

/-- `tree.get("args", [])`, which must be a list, parsed item by item. -/
def parseArgs : List (String × Json) → Except Raised (List Operand)
  | [] => .ok []
  | (k, v) :: rest =>
    if k = "args" then
      match v with
      | .arr items => parseItems items
      | _ => .error (.dsl .argsNotList)
    else parseArgs rest

/-- The arguments from left to right; the first failure ends the parse. -/
def parseItems : List Json → Except Raised (List Operand)
  | [] => .ok []
  | v :: rest => do
      let arg ← parseOperand v
      let args ← parseItems rest
      .ok (arg :: args)

end

/-- Validate the structure of an expression.  Field names are not checked. -/
def parse : Json → Except Raised Expr
  | .obj fields => node fields (parseArgs fields)
  | _ => .error (.dsl .notAnExpression)

/-! ## Evaluation -/

/-- The deepest nesting `evaluate` follows. -/
def maxDepth : ℕ := 64

def compareValues (op : Operator) (left right : Json) : Except DslError Bool :=
  match op with
  | .eq => .ok (Json.eq left right)
  | .ne => .ok (!Json.eq left right)
  | _ =>
    match Json.order left right with
    | none => .error (.cannotApply op left.typeName right.typeName)
    | some o =>
      .ok (match op with
        | .lt => o = .lt
        | .lte => o ≠ .gt
        | .gt => o = .gt
        | _ => o ≠ .lt)

/-- `in` and `not_in` on two values. -/
def memberValues (op : Operator) (needle haystack : Json) : Except DslError Bool :=
  match haystack with
  | .arr _ | .str _ =>
    match Json.contained needle haystack with
    | none => .error (.notComparable op needle.typeName haystack.typeName)
    | some found => .ok (if op = .inOp then found else !found)
  | _ => .error (.notACollection op haystack.typeName)

/-- The value of a field reference or a literal. -/
def rawValue (ctx : Context) (v : Json) : Except DslError Json :=
  match v with
  | .obj fields =>
    if isFieldRef v then .ok (ctx.get ((fieldRef? v).getD ""))
    else .error (.operandShape ((fields.map Prod.fst).insertionSort (· ≤ ·)))
  | _ => .ok v

/-- The truth value of a field reference or a literal. -/
def rawTruthy (ctx : Context) (v : Json) : Bool :=
  if isFieldRef v then (ctx.get ((fieldRef? v).getD "")).truthy else v.truthy

/-- `all(...)`: stops at the first operand that is false or raises. -/
def allTrue : List (Except DslError Bool) → Except DslError Bool
  | [] => .ok true
  | r :: rest => do
      let b ← r
      if b then allTrue rest else .ok false

/-- `any(...)`: stops at the first operand that is true or raises. -/
def anyTrue : List (Except DslError Bool) → Except DslError Bool
  | [] => .ok false
  | r :: rest => do
      let b ← r
      if b then .ok true else anyTrue rest

/-- `exists` looks at one field reference. -/
def fieldExists (ctx : Context) (args : List Operand) : Except DslError Bool :=
  match args with
  | [.raw v] =>
    if isFieldRef v then
      .ok (match ctx.get ((fieldRef? v).getD "") with
        | .null => false
        | _ => true)
    else .error .existsTakesField
  | [.expr _ _] => .error .existsTakesField
  | _ => .error (.takesExactly .existsOp 1 args.length)

/-- A node at a nesting depth, from the truth values and the values of its
operands.  Which of them are looked at depends on the operator. -/
def evalNode (ctx : Context) (depth : ℕ) (op : Operator) (args : List Operand)
    (truths : List (Except DslError Bool)) (values : List (Except DslError Json)) :
    Except DslError Bool :=
  if maxDepth < depth then .error .tooDeep
  else
    match op with
    | .andOp =>
      if args.length < 1 then .error (.takesAtLeast op 1 args.length) else allTrue truths
    | .orOp =>
      if args.length < 1 then .error (.takesAtLeast op 1 args.length) else anyTrue truths
    | .notOp =>
      match truths with
      | [r] => do
          let b ← r
          .ok !b
      | _ => .error (.takesExactly op 1 args.length)
    | .existsOp => fieldExists ctx args
    | .inOp | .notInOp =>
      match values with
      | [l, r] => do
          let needle ← l
          let haystack ← r
          memberValues op needle haystack
      | _ => .error (.takesExactly op 2 args.length)
    | _ =>
      match values with
      | [l, r] => do
          let left ← l
          let right ← r
          compareValues op left right
      | _ => .error (.takesExactly op 2 args.length)

mutual

def operandValue (ctx : Context) (depth : ℕ) : Operand → Except DslError Json
  | .expr op args => do
      let b ← evalNode ctx (depth + 1) op args (truths ctx (depth + 1) args)
        (values ctx (depth + 1) args)
      .ok (.bool b)
  | .raw v => rawValue ctx v

def operandTruthy (ctx : Context) (depth : ℕ) : Operand → Except DslError Bool
  | .expr op args => evalNode ctx (depth + 1) op args (truths ctx (depth + 1) args)
      (values ctx (depth + 1) args)
  | .raw v => .ok (rawTruthy ctx v)

def truths (ctx : Context) (depth : ℕ) : List Operand → List (Except DslError Bool)
  | [] => []
  | a :: rest => operandTruthy ctx depth a :: truths ctx depth rest

def values (ctx : Context) (depth : ℕ) : List Operand → List (Except DslError Json)
  | [] => []
  | a :: rest => operandValue ctx depth a :: values ctx depth rest

end

def evaluate (e : Expr) (ctx : Context) : Except DslError Bool :=
  evalNode ctx 0 e.op e.args (truths ctx 0 e.args) (values ctx 0 e.args)

end BbzPlatform.RuleDsl
