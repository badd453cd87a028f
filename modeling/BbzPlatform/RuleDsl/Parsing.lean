import BbzPlatform.Lib.Raising
import BbzPlatform.Lib.Rows
import BbzPlatform.RuleDsl.Context

/-!
# The shape of conditions

A condition is parsed before it is checked against the fields of a context.  `Shaped` says on the
JSON tree itself what can be an operand; it agrees with the parser on every tree.  The check looks
at one node at a time, and of a connective at all its operands.
-/

namespace BbzPlatform.RuleDsl

open Raising List
open ContextSchema

/-- An object with an `op` key is read as an expression. -/
def isNode : Json → Bool
  | .obj fields => Json.has fields "op"
  | _ => false

/-- The arguments of a node: a list, or nothing. -/
def argItems (fields : List (String × Json)) : Option (List Json) :=
  match Json.get fields "args" with
  | none => some []
  | some (.arr items) => some items
  | some _ => none

/-- A field reference with a name, and not an expression. -/
structure Refers (v : Json) (s : String) : Prop where
  notNode : isNode v = false
  names : fieldRef? v = some s
  nonempty : s ≠ ""

/-- The trees that can be an operand. -/
inductive Shaped : Json → Prop where
  | literal {v : Json} (hn : isNode v = false) (hf : isFieldRef v = false) : Shaped v
  | field {v : Json} {s : String} (h : Refers v s) : Shaped v
  | node {fields : List (String × Json)} {op : Operator} {items : List Json}
      (hop : Json.get fields "op" = some (.str op.name)) (hargs : argItems fields = some items)
      (h : ∀ v ∈ items, Shaped v) : Shaped (.obj fields)

namespace Operator

/-- The operators on truth values. -/
def connective : Operator → Bool
  | .andOp | .orOp | .notOp => true
  | _ => false

def ordering : Operator → Bool
  | .lt | .lte | .gt | .gte => true
  | _ => false

def comparison (op : Operator) : Bool := op = .eq || op = .ne || op.ordering

/-- The operators that look into a list. -/
def membership (op : Operator) : Bool := op = .inOp || op = .notInOp

end Operator

/-! ## Parsing -/

variable {fields : List (String × Json)} {items : List Json} {v : Json}
  {args : List Operand} {o : Operator} {e : Expr} {s : String} {a : Operand}
  {nested : Except DslError Unit}

/-- The arguments are smaller than their node. -/
theorem sizeOf_lt_of_mem_argItems (h : argItems fields = some items) (hv : v ∈ items) :
    sizeOf v < sizeOf (Json.obj fields) := by
  have hget : Json.get fields "args" = some (.arr items) := by
    unfold argItems at h
    split at h
    · cases h
      cases hv
    · cases h
      assumption
    · cases h
  have hsize : ∀ fs : List (String × Json), Json.get fs "args" = some (.arr items) →
      sizeOf v < sizeOf fs := by
    intro fs
    induction fs with
    | nil => intro h; cases h
    | cons f fs ih =>
      obtain ⟨k, w⟩ := f
      intro h
      rw [Json.get, lookup_cons] at h
      split at h
      · cases h
        have := sizeOf_lt_of_mem hv
        simp only [cons.sizeOf_spec, Prod.mk.sizeOf_spec, Json.arr.sizeOf_spec]
        omega
      · have := ih h
        simp only [cons.sizeOf_spec]
        omega
  have := hsize fields hget
  simp only [Json.obj.sizeOf_spec]
  omega

theorem parseArgs_eq (fields : List (String × Json)) :
    parseArgs fields = match argItems fields with
      | some items => parseItems items
      | none => .error (.dsl .argsNotList) := by
  induction fields with
  | nil => simp [parseArgs, argItems, Json.get, parseItems]
  | cons f fields ih =>
    obtain ⟨k, w⟩ := f
    by_cases hk : k = "args"
    · subst hk
      cases w <;> simp [parseArgs, argItems, Json.get]
    · have hget : Json.get ((k, w) :: fields) "args" = Json.get fields "args" := by
        simp [Json.get, lookup_cons, beq_false_of_ne (Ne.symm hk)]
      have hargs : argItems ((k, w) :: fields) = argItems fields := by
        rw [argItems, argItems, hget]
      rw [hargs, ← ih]
      cases w <;> simp [parseArgs, hk]

theorem parseItems_ok :
    parseItems items = .ok args ↔ Forall₂ (fun v a => parseOperand v = .ok a) items args := by
  induction items generalizing args with
  | nil =>
    simp only [parseItems, Except.ok.injEq, forall₂_nil_left_iff]
    exact eq_comm
  | cons v items ih =>
    simp only [parseItems, bind_eq_ok, ih, Except.ok.injEq, forall₂_cons_left_iff]
    constructor
    · rintro ⟨a, ha, rest, hrest, rfl⟩
      exact ⟨a, rest, ha, hrest, rfl⟩
    · rintro ⟨a, rest, ha, hrest, rfl⟩
      exact ⟨a, ha, rest, hrest, rfl⟩

theorem readOperator_ok {op : Json} : readOperator op = .ok o ↔ op = .str o.name := by
  constructor
  · intro h
    unfold readOperator at h
    split_ifs at h
    cases op with
    | str s =>
      cases hs : Operator.ofName s with
      | none => simp only [hs] at h; cases h
      | some o' =>
        simp only [hs] at h
        cases h
        have := find?_some hs
        simp only [decide_eq_true_eq] at this
        rw [this]
    | null | bool | int | float | arr | obj => cases h
  · rintro rfl
    simp [readOperator, Json.unhashable, Operator.ofName_name]

/-- What a tree that parses looks like. -/
theorem parse_obj : parse (.obj fields) = .ok e ↔
    Json.get fields "op" = some (.str e.op.name) ∧ ∃ items, argItems fields = some items ∧
      Forall₂ (fun v a => parseOperand v = .ok a) items e.args := by
  rw [parse, node, parseArgs_eq]
  cases hop : Json.get fields "op" with
  | none => simp
  | some op =>
    simp only [bind_eq_ok, readOperator_ok, Option.some.injEq, Except.ok.injEq]
    cases hargs : argItems fields with
    | none => simp
    | some items =>
      simp only [parseItems_ok, Option.some.injEq, exists_eq_left']
      constructor
      · rintro ⟨o, rfl, args, hall, rfl⟩
        exact ⟨rfl, hall⟩
      · rintro ⟨rfl, hall⟩
        exact ⟨e.op, rfl, e.args, hall, rfl⟩

theorem isFieldRef_of_refers (h : Refers v s) : isFieldRef v = true := by
  cases v with
  | obj fields =>
    have hnames := h.names
    rw [fieldRef?] at hnames
    split at hnames
    next hget =>
      simp [isFieldRef, Json.has, hget]
    · cases hnames
  | null | bool | int | float | str | arr => cases h.names

/-- What a tree parses to as an operand: an expression, or itself. -/
inductive Parsed (v : Json) : Operand → Prop
  | node {e : Expr} (hn : isNode v = true) (hp : parse v = .ok e) : Parsed v (.expr e.op e.args)
  | field {s : String} (h : Refers v s) : Parsed v (.raw v)
  | literal (hn : isNode v = false) (hf : isFieldRef v = false) : Parsed v (.raw v)

theorem checkFieldRef_ok (hop : isNode (.obj fields) = false) :
    checkFieldRef fields = .ok a ↔ ∃ s, Refers (.obj fields) s ∧ a = .raw (.obj fields) := by
  have hrefers : ∀ s,
      Refers (.obj fields) s ↔ Json.get fields "field" = some (.str s) ∧ s ≠ "" := by
    intro s
    refine ⟨fun h => ⟨?_, h.nonempty⟩, fun h => ⟨hop, by simp [fieldRef?, h.1], h.2⟩⟩
    have hnames := h.names
    rw [fieldRef?] at hnames
    split at hnames
    next hget =>
      cases hnames
      exact hget
    · cases hnames
  simp only [hrefers]
  fun_cases checkFieldRef fields
  next hget => simp [hget]
  next s hget hne => simp [hget, hne, eq_comm]
  next hget =>
    constructor
    · rintro ⟨⟩
    · rintro ⟨s, h, -⟩
      exact absurd h.1 (hget s)

theorem parsed_iff : parseOperand v = .ok a ↔ Parsed v a := by
  cases v with
  | obj fields =>
    rw [parseOperand]
    split_ifs with hop hf
    · rw [bind_eq_ok]
      constructor
      · rintro ⟨e, he, ⟨⟩⟩
        exact .node hop he
      · intro h
        cases h with
        | node _ hp => exact ⟨_, hp, rfl⟩
        | field h => cases hop.symm.trans h.notNode
        | literal hn => cases hop.symm.trans hn
    · rw [checkFieldRef_ok (eq_false_of_ne_true hop)]
      constructor
      · rintro ⟨s, hs, rfl⟩
        exact .field hs
      · intro h
        cases h with
        | node hn => exact absurd hn hop
        | field h => exact ⟨_, h, rfl⟩
        | literal _ hf' => cases hf.symm.trans hf'
    · constructor
      · rintro ⟨⟩
        exact .literal (eq_false_of_ne_true hop) (eq_false_of_ne_true hf)
      · intro h
        cases h with
        | node hn => exact absurd hn hop
        | field h => exact absurd (isFieldRef_of_refers h) hf
        | literal => rfl
  | null | bool | int | float | str | arr =>
    rw [parseOperand]
    · constructor
      · rintro ⟨⟩
        exact .literal rfl rfl
      · intro h
        cases h with
        | node hn => cases hn
        | field h => cases h.names
        | literal => rfl
    · simp

/-- **The shaped trees are those that parse as an operand.** -/
theorem shaped_iff : Shaped v ↔ ∃ a, parseOperand v = .ok a := by
  constructor
  · intro h
    induction h with
    | literal hn hf => exact ⟨_, parsed_iff.mpr (.literal hn hf)⟩
    | field h => exact ⟨_, parsed_iff.mpr (.field h)⟩
    | @node fields op items hop hargs h ih =>
      have hnode : isNode (.obj fields) = true := by simp [isNode, Json.has, hop]
      have hargs' : ∃ args, Forall₂ (fun v a => parseOperand v = .ok a) items args := by
        clear hargs h
        induction items with
        | nil => exact ⟨[], .nil⟩
        | cons v items ihi =>
          obtain ⟨a, ha⟩ := ih v mem_cons_self
          obtain ⟨args, hargs⟩ := ihi fun w hw => ih w (mem_cons_of_mem _ hw)
          exact ⟨a :: args, .cons ha hargs⟩
      obtain ⟨args, hall⟩ := hargs'
      have hparse : parse (.obj fields) = .ok ⟨op, args⟩ :=
        parse_obj.mpr ⟨hop, items, hargs, hall⟩
      exact ⟨_, parsed_iff.mpr (.node hnode hparse)⟩
  · rintro ⟨a, ha⟩
    induction hk : sizeOf v using Nat.strong_induction_on generalizing v a with
    | _ k ih =>
      subst hk
      cases parsed_iff.mp ha with
      | literal hn hf => exact .literal hn hf
      | field hs => exact .field hs
      | node hn hp =>
        cases v with
        | obj fields =>
          obtain ⟨hop, items, hargs, hall⟩ := parse_obj.mp hp
          refine .node hop hargs fun w hw => ?_
          obtain ⟨b, -, hb⟩ := Rows.exists_of_forall₂ hall.flip hw
          exact ih _ (sizeOf_lt_of_mem_argItems hargs hw) b hb rfl
        | null | bool | int | float | str | arr => cases hn

/-! ## Checking -/

section Checking

variable (schema : ContextSchema)

theorem fieldType_ok {t : FieldType} :
    schema.fieldType s = .ok t ↔ schema.fields.lookup s = some t := by
  unfold fieldType
  cases schema.fields.lookup s <;> simp

variable {t : Option FieldType} {op : Operator}

theorem checkOrderable_ok :
    checkOrderable op t = .ok () ↔ ∀ ft, t = some ft → ft.orderable = true := by
  cases t with
  | none => simp [checkOrderable]
  | some ft => cases h : ft.orderable <;> simp [checkOrderable, h]

theorem bind_unit_ok {m : Except DslError Unit} {n : Except DslError Unit} :
    (m >>= fun _ => n) = .ok () ↔ m = .ok () ∧ n = .ok () := by
  cases m <;> simp [bind, Except.bind]

theorem checkNode_connective (hc : op.connective = true) (args : List Operand)
    (nested : Except DslError Unit) : schema.checkNode op args nested = nested := by
  cases op with
  | andOp | orOp | notOp => rfl
  | eq | ne | lt | lte | gt | gte | inOp | notInOp | existsOp => cases hc

theorem checkNode_binary (hc : op.comparison = true ∨ op.membership = true) :
    schema.checkNode op args nested = .ok () ↔
      ∃ a b, args = [a, b] ∧ schema.checkBinary op a b = .ok () := by
  have hpair : ∀ a b, schema.checkNode op [a, b] nested = schema.checkBinary op a b := by
    intro a b
    cases op with
    | eq | ne | lt | lte | gt | gte | inOp | notInOp => rfl
    | andOp | orOp | notOp | existsOp => rcases hc with hc | hc <;> cases hc
  constructor
  · intro h
    obtain _ | ⟨a, _ | ⟨b, _ | ⟨c, rest⟩⟩⟩ := args
    case cons.cons.nil => exact ⟨a, b, rfl, (hpair a b).symm.trans h⟩
    all_goals
      cases op with
      | eq | ne | lt | lte | gt | gte | inOp | notInOp => cases h
      | andOp | orOp | notOp | existsOp => rcases hc with hc | hc <;> cases hc
  · rintro ⟨a, b, rfl, hb⟩
    exact (hpair a b).trans hb

theorem checkOperands_ok :
    schema.checkOperands args = .ok () ↔ ∀ a ∈ args, schema.checkOperand a = .ok () := by
  induction args with
  | nil => simp [checkOperands]
  | cons a args ih => simp [checkOperands, bind_unit_ok, ih]

theorem operator_cases (op : Operator) : op.connective = true ∨ op = .existsOp ∨
    op.comparison = true ∨ op.membership = true := by
  cases op <;> decide

end Checking

end BbzPlatform.RuleDsl
