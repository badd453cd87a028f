import BbzPlatform.RuleDsl.Reads

/-!
# Where one node can be evaluated

An expression raises if it is nested too deep, if an operator has the wrong number of operands, or
if a comparison is not defined on the values it meets.  In a given context this can be told node by
node: `Context.defined` looks at one node and takes a nested expression for a boolean.
-/

namespace BbzPlatform.RuleDsl

open Raising List

/-- The values that Python can put in order among themselves. -/
inductive Shape where
  | number | text | sequence
  deriving DecidableEq, Repr

def shapeOf : Json → Option Shape
  | .bool _ | .int _ | .float _ => some .number
  | .str _ => some .text
  | .arr _ => some .sequence
  | .null | .obj _ => none

variable {op : Operator} {v v' w w' : Json} {ctx : Context} {a b : Operand}
  {args : List Operand} {p : ℕ × Expr}

theorem shapeOf_sequence : shapeOf v = some .sequence ↔ ∃ items, v = .arr items := by
  cases v <;> simp [shapeOf]

/-- Two values are in order exactly if both are numbers, both are texts, or both are lists
that are in order item by item. -/
theorem order_isSome : (Json.order v w).isSome = true ↔
    shapeOf v = some .number ∧ shapeOf w = some .number ∨
    shapeOf v = some .text ∧ shapeOf w = some .text ∨
    ∃ xs ys, v = .arr xs ∧ w = .arr ys ∧ (Json.orderList xs ys).isSome = true := by
  cases v <;> cases w <;> simp [Json.order, Json.number?, shapeOf]

/-- Membership is defined in a list, and of a text in a text. -/
theorem memberValues_ok : (∃ b, memberValues op v w = .ok b) ↔
    shapeOf w = some .sequence ∨ shapeOf w = some .text ∧ shapeOf v = some .text := by
  cases w <;> cases v <;> simp [memberValues, Json.contained, shapeOf]

theorem compareValues_ok (ho : op.ordering = true) :
    (∃ b, compareValues op v w = .ok b) ↔ (Json.order v w).isSome = true := by
  cases op with
  | lt | lte | gt | gte => cases h : Json.order v w <;> simp [compareValues, h, em]
  | eq | ne | inOp | notInOp | andOp | orOp | notOp | existsOp => cases ho

/-! ## One node -/

/-- A comparison or membership test on two values. -/
def applyBinary (op : Operator) (v w : Json) : Except DslError Bool :=
  if op.membership then memberValues op v w else compareValues op v w

/-- The operators that compare, put in order or look into a list. -/
def Operator.binary (op : Operator) : Bool := op.comparison || op.membership

theorem Operator.binary_cases (op : Operator) (h : op.binary = true) :
    op.ordering = true ∧ op.membership = false ∨ op.ordering = false ∧ op.membership = true ∨
      op = .eq ∨ op = .ne := by
  cases op with
  | eq | ne | lt | lte | gt | gte | inOp | notInOp => decide
  | andOp | orOp | notOp | existsOp => cases h

section Node

variable {depth : ℕ}

theorem room_of_ok {r : Bool}
    (h : evalNode ctx depth op args (truths ctx depth args) (values ctx depth args) = .ok r) :
    depth ≤ maxDepth := by
  by_contra hlt
  simp [evalNode, Nat.not_le.mp hlt] at h

section

variable (hop : op.binary = true)
include hop

theorem evalNode_binary (hd : depth ≤ maxDepth) (a b : Operand) :
    evalNode ctx depth op [a, b] (truths ctx depth [a, b]) (values ctx depth [a, b]) =
      (operandValue ctx depth a >>= fun v => operandValue ctx depth b >>= applyBinary op v) := by
  cases op with
  | eq | ne | lt | lte | gt | gte | inOp | notInOp =>
    simp only [evalNode, if_neg (Nat.not_lt.mpr hd), values]
    rfl
  | andOp | orOp | notOp | existsOp => cases hop

/-- A comparison that returns has two operands with values. -/
theorem evalNode_binary_inv {r : Bool}
    (h : evalNode ctx depth op args (truths ctx depth args) (values ctx depth args) = .ok r) :
    ∃ a b v w, args = [a, b] ∧ operandValue ctx depth a = .ok v ∧
      operandValue ctx depth b = .ok w ∧ applyBinary op v w = .ok r := by
  have hd := Nat.not_lt.mpr (room_of_ok h)
  have hlen : ∃ a b, args = [a, b] := by
    match args with
    | [a, b] => exact ⟨a, b, rfl⟩
    | [] | [_] | _ :: _ :: _ :: _ =>
      cases op with
      | eq | ne | lt | lte | gt | gte | inOp | notInOp => simp [evalNode, hd, values] at h
      | andOp | orOp | notOp | existsOp => cases hop
  obtain ⟨a, b, rfl⟩ := hlen
  rw [evalNode_binary hop (Nat.not_lt.mp hd)] at h
  obtain ⟨v, hv, h⟩ := bind_eq_ok.mp h
  obtain ⟨w, hw, h⟩ := bind_eq_ok.mp h
  exact ⟨a, b, v, w, rfl, hv, hw, h⟩

/-- Whether a node can be evaluated, given when a comparison suits its two operands. -/
def nodeDefined (pair : Operator → Operand → Operand → Bool) (e : Expr) : Bool :=
  match e.op, e.args with
  | .andOp, args | .orOp, args => !args.isEmpty
  | .notOp, args => args.length = 1
  | .existsOp, [.raw v] => isFieldRef v
  | .existsOp, _ => false
  | op, [a, b] => pair op a b
  | _, _ => false

theorem nodeDefined_binary {pair : Operator → Operand → Operand → Bool} (args : List Operand) :
    nodeDefined pair ⟨op, args⟩ = true ↔ ∃ a b, args = [a, b] ∧ pair op a b = true := by
  cases op with
  | eq | ne | lt | lte | gt | gte | inOp | notInOp =>
    match args with
    | [] => simp [nodeDefined]
    | [a] => simp [nodeDefined]
    | [a, b] => simp [nodeDefined]
    | a :: b :: c :: rest => simp [nodeDefined]
  | andOp | orOp | notOp | existsOp => cases hop

theorem nodeDefined_pair {pair : Operator → Operand → Operand → Bool} (a b : Operand) :
    nodeDefined pair ⟨op, [a, b]⟩ = pair op a b := by
  cases op with
  | eq | ne | lt | lte | gt | gte | inOp | notInOp => rfl
  | andOp | orOp | notOp | existsOp => cases hop

end

/-- The other operators do not depend on the kinds of their operands. -/
theorem nodeDefined_congr {pair pair' : Operator → Operand → Operand → Bool}
    (hop : op.binary ≠ true) (args : List Operand) :
    nodeDefined pair ⟨op, args⟩ = nodeDefined pair' ⟨op, args⟩ := by
  cases op with
  | eq | ne | lt | lte | gt | gte | inOp | notInOp => exact absurd rfl hop
  | andOp | orOp | notOp => rfl
  | existsOp =>
    match args with
    | [] => rfl
    | [.raw v] => rfl
    | [.expr _ _] => rfl
    | a :: b :: rest => cases a <;> rfl

/-- The value an operand stands for; a nested expression stands for a boolean. -/
def Operand.valueIn (ctx : Context) : Operand → Option Json
  | .expr _ _ => some (.bool true)
  | .raw v => (rawValue ctx v).toOption

/-- The comparison is defined on the values of its operands. -/
def Context.pair (ctx : Context) (op : Operator) (a b : Operand) : Bool :=
  match a.valueIn ctx, b.valueIn ctx with
  | some v, some w => (applyBinary op v w).isOk
  | _, _ => false

/-- The node can be evaluated in the context, if the expressions inside can. -/
def Context.defined (ctx : Context) (e : Expr) : Bool := nodeDefined ctx.pair e

theorem isOk_iff {α : Type} {r : Except DslError α} : r.isOk = true ↔ ∃ b, r = .ok b := by
  cases r <;> simp [Except.isOk, Except.toBool]

/-- Equal values, or two booleans. -/
def Alike (v w : Json) : Prop := v = w ∨ ∃ b c, v = .bool b ∧ w = .bool c

theorem Alike.shapeOf_eq (h : Alike v w) : shapeOf v = shapeOf w := by
  rcases h with rfl | ⟨b, c, rfl, rfl⟩ <;> rfl

theorem Alike.order_isSome_left (h : Alike v v') (w : Json) :
    (Json.order v w).isSome = (Json.order v' w).isSome := by
  rcases h with rfl | ⟨b, c, rfl, rfl⟩
  · rfl
  · simp [Json.order]

theorem Alike.order_isSome_right (h : Alike w w') (v : Json) :
    (Json.order v w).isSome = (Json.order v w').isSome := by
  rcases h with rfl | ⟨b, c, rfl, rfl⟩
  · rfl
  · cases v <;> simp [Json.order, Json.number?]

/-- Which of two booleans an operand is makes no difference to whether a comparison is defined. -/
theorem Alike.applyBinary_isOk (hop : op.binary = true) (hv : Alike v v') (hw : Alike w w') :
    (applyBinary op v w).isOk = (applyBinary op v' w').isOk := by
  rw [Bool.eq_iff_iff, isOk_iff, isOk_iff]
  rcases op.binary_cases hop with ⟨ho, hm⟩ | ⟨ho, hm⟩ | he
  · simp only [applyBinary, hm, Bool.false_eq_true, if_false]
    rw [compareValues_ok ho, compareValues_ok ho, hv.order_isSome_left, hw.order_isSome_right]
  · simp only [applyBinary, hm, if_true]
    rw [memberValues_ok, memberValues_ok, hv.shapeOf_eq, hw.shapeOf_eq]
  · rcases he with rfl | rfl
    · exact ⟨fun _ => ⟨_, rfl⟩, fun _ => ⟨_, rfl⟩⟩
    · exact ⟨fun _ => ⟨_, rfl⟩, fun _ => ⟨_, rfl⟩⟩

/-- An operand evaluates to what it stands for, up to the value of a nested expression. -/
theorem valueIn_of_ok (h : operandValue ctx depth a = .ok v) :
    ∃ w, a.valueIn ctx = some w ∧ Alike v w := by
  cases a with
  | expr op args =>
    rw [operandValue] at h
    obtain ⟨b, -, ⟨⟩⟩ := bind_eq_ok.mp h
    exact ⟨.bool true, rfl, .inr ⟨b, true, rfl, rfl⟩⟩
  | raw w =>
    rw [operandValue] at h
    exact ⟨v, by rw [Operand.valueIn, h]; rfl, .inl rfl⟩

theorem ok_of_valueIn (hw : a.valueIn ctx = some w) (ha : ∃ b, operandTruthy ctx depth a = .ok b) :
    ∃ v, operandValue ctx depth a = .ok v ∧ Alike v w := by
  cases a with
  | expr op args =>
    obtain ⟨b, hb⟩ := ha
    rw [operandTruthy] at hb
    refine ⟨.bool b, by rw [operandValue, hb]; rfl, .inr ⟨b, true, rfl, ?_⟩⟩
    exact (Option.some.inj hw).symm
  | raw v =>
    rw [operandValue]
    cases hv : rawValue ctx v with
    | error err => simp [Operand.valueIn, hv, Except.toOption] at hw
    | ok u =>
      rw [Operand.valueIn, hv] at hw
      exact ⟨u, rfl, .inl (Option.some.inj hw)⟩

theorem pair_iff : ctx.pair op a b = true ↔
    ∃ v w, a.valueIn ctx = some v ∧ b.valueIn ctx = some w ∧
      (applyBinary op v w).isOk = true := by
  rw [Context.pair]
  cases a.valueIn ctx <;> cases b.valueIn ctx <;> simp

end Node

/-! ## The expressions inside -/

mutual

/-- The expressions in an operand, itself included. -/
def Operand.subs : Operand → List Expr
  | .expr op args => ⟨op, args⟩ :: subsOf args
  | .raw _ => []

def subsOf : List Operand → List Expr
  | [] => []
  | a :: rest => a.subs ++ subsOf rest

end

mutual

/-- How deep an operand is nested. -/
def Operand.depth : Operand → ℕ
  | .expr _ args => depthOf args + 1
  | .raw _ => 0

def depthOf : List Operand → ℕ
  | [] => 0
  | a :: rest => max a.depth (depthOf rest)

end

mutual

def Operand.places (depth : ℕ) : Operand → List (ℕ × Expr)
  | .expr op args => (depth + 1, ⟨op, args⟩) :: placesOf (depth + 1) args
  | .raw _ => []

def placesOf (depth : ℕ) : List Operand → List (ℕ × Expr)
  | [] => []
  | a :: rest => a.places depth ++ placesOf depth rest

end

namespace Expr

variable (e : Expr)

def subs : List Expr := (Operand.expr e.op e.args).subs

/-- How deep the expression is nested: without an expression inside it has depth `0`. -/
def depth : ℕ := depthOf e.args

/-- The expression and all expressions in it, with the depth at which they are evaluated. -/
def places : List (ℕ × Expr) := (0, e) :: placesOf 0 e.args

end Expr

theorem mem_subsOf {d : Expr} : d ∈ subsOf args ↔ ∃ a ∈ args, d ∈ a.subs := by
  induction args with
  | nil => simp [subsOf]
  | cons a args ih => simp [subsOf, ih]

theorem mem_placesOf {depth : ℕ} : p ∈ placesOf depth args ↔ ∃ a ∈ args, p ∈ a.places depth := by
  induction args with
  | nil => simp [placesOf]
  | cons a args ih => simp [placesOf, ih]

theorem depth_le_depthOf (ha : a ∈ args) : a.depth ≤ depthOf args := by
  induction args with
  | nil => cases ha
  | cons b args ih =>
    rw [depthOf]
    rcases mem_cons.mp ha with rfl | ha
    · exact Nat.le_max_left ..
    · exact (ih ha).trans (Nat.le_max_right ..)

/-- The deepest operand of some, if it is an expression at all. -/
theorem exists_deepest (h : depthOf args ≠ 0) : ∃ a ∈ args, a.depth = depthOf args := by
  induction args with
  | nil => exact absurd rfl h
  | cons a args ih =>
    rw [depthOf] at h ⊢
    by_cases hle : depthOf args ≤ a.depth
    · exact ⟨a, mem_cons_self, (Nat.max_eq_left hle).symm⟩
    · obtain ⟨b, hb, heq⟩ := ih (by omega)
      exact ⟨b, mem_cons_of_mem _ hb, by omega⟩

/-- Every expression stands somewhere. -/
theorem exists_place (a : Operand) (depth : ℕ) {d : Expr} (hd : d ∈ a.subs) :
    ∃ n, (n, d) ∈ a.places depth := by
  induction a using Operand.induction generalizing depth with
  | raw v => simp [Operand.subs] at hd
  | expr op args ih =>
    rw [Operand.subs] at hd
    rw [Operand.places]
    rcases mem_cons.mp hd with rfl | hd
    · exact ⟨depth + 1, mem_cons_self⟩
    · obtain ⟨a, ha, hd⟩ := mem_subsOf.mp hd
      obtain ⟨n, hn⟩ := ih a ha (depth + 1) hd
      exact ⟨n, mem_cons_of_mem _ (mem_placesOf.mpr ⟨a, ha, hn⟩)⟩

/-- Some expression stands at the full depth. -/
theorem exists_deepest_place (a : Operand) (depth : ℕ) (h : a.depth ≠ 0) :
    ∃ p ∈ a.places depth, p.1 = depth + a.depth := by
  induction a using Operand.induction generalizing depth with
  | raw v => exact absurd rfl h
  | expr op args ih =>
    rw [Operand.places, Operand.depth]
    by_cases hz : depthOf args = 0
    · exact ⟨_, mem_cons_self, by simp [hz]⟩
    · obtain ⟨a, ha, heq⟩ := exists_deepest hz
      obtain ⟨p, hp, hdeep⟩ := ih a ha (depth + 1) (by omega)
      exact ⟨p, mem_cons_of_mem _ (mem_placesOf.mpr ⟨a, ha, hp⟩), by omega⟩

/-- At a place there is room for the expression, whose own expressions are among all. -/
theorem place_bounds (a : Operand) (depth : ℕ) (hp : p ∈ a.places depth) :
    p.1 + p.2.depth ≤ depth + a.depth ∧ ∀ d ∈ p.2.subs, d ∈ a.subs := by
  induction a using Operand.induction generalizing depth with
  | raw v => simp [Operand.places] at hp
  | expr op args ih =>
    rw [Operand.places] at hp
    rw [Operand.depth]
    rcases mem_cons.mp hp with rfl | hp
    · refine ⟨?_, fun d hd => hd⟩
      change depth + 1 + depthOf args ≤ _
      omega
    · obtain ⟨a, ha, hp⟩ := mem_placesOf.mp hp
      obtain ⟨hle, hsub⟩ := ih a ha (depth + 1) hp
      have hmax := depth_le_depthOf ha
      refine ⟨by omega, fun d hd => ?_⟩
      rw [Operand.subs]
      exact mem_cons_of_mem _ (mem_subsOf.mpr ⟨a, ha, hsub d hd⟩)

end BbzPlatform.RuleDsl
