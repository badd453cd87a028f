import BbzPlatform.RuleDsl.Parsing

/-!
# What a condition reads

The value of an expression depends only on the fields it refers to, at any depth.
The check of a context visits every operand of a connective, but when a nested
expression is compared with something it counts as a boolean and is not looked into.
Its references are `hidden` from the check, and they are the only ones that can name an
undeclared field.

## Main definitions

* `Operand.refs`, `Expr.refs` — every field reference of an expression.
* `hiddenRefs` — the references the check does not visit.
-/

namespace BbzPlatform.RuleDsl

open Raising

theorem Operand.induction {P : Operand → Prop} (raw : ∀ v, P (.raw v))
    (expr : ∀ op args, (∀ a ∈ args, P a) → P (.expr op args)) : ∀ a, P a
  | .raw v => raw v
  | .expr op args => expr op args fun a ha =>
    have hlt : sizeOf a < sizeOf (Operand.expr op args) := by
      have := List.sizeOf_lt_of_mem ha
      simp only [Operand.expr.sizeOf_spec]
      omega
    Operand.induction raw expr a
termination_by a => sizeOf a
decreasing_by exact hlt

mutual

/-- The fields an operand refers to, at any depth. -/
def Operand.refs : Operand → List String
  | .expr _ args => refsOf args
  | .raw v => if isFieldRef v then [(fieldRef? v).getD ""] else []

/-- The fields of several operands. -/
def refsOf : List Operand → List String
  | [] => []
  | a :: rest => a.refs ++ refsOf rest

end

/-- The fields an expression refers to, at any depth. -/
def Expr.refs (e : Expr) : List String := refsOf e.args

variable {args : List Operand} {s : String} {c₁ c₂ : Context} {depth : ℕ} {v : Json} {op : Operator}
  {e : Expr}

theorem mem_refsOf : s ∈ refsOf args ↔ ∃ a ∈ args, s ∈ a.refs := by
  induction args with
  | nil => simp [refsOf]
  | cons a args ih => simp [refsOf, ih]

theorem truths_eq (ctx : Context) (depth : ℕ) (args : List Operand) :
    truths ctx depth args = args.map (operandTruthy ctx depth) := by
  induction args with
  | nil => rfl
  | cons a args ih => simp [truths, ih]

theorem values_eq (ctx : Context) (depth : ℕ) (args : List Operand) :
    values ctx depth args = args.map (operandValue ctx depth) := by
  induction args with
  | nil => rfl
  | cons a args ih => simp [values, ih]

/-! ## Noninterference -/

theorem mem_refs_raw (h : isFieldRef v = true) : (fieldRef? v).getD "" ∈ (Operand.raw v).refs := by
  simp [Operand.refs, h]

theorem rawValue_congr (h : ∀ s ∈ (Operand.raw v).refs, c₁.get s = c₂.get s) :
    rawValue c₁ v = rawValue c₂ v := by
  cases v with
  | obj fields =>
    rw [rawValue, rawValue]
    split_ifs with hf
    · rw [h _ (mem_refs_raw hf)]
    · rfl
  | null | bool | int | float | str | arr => rfl

theorem rawTruthy_congr (h : ∀ s ∈ (Operand.raw v).refs, c₁.get s = c₂.get s) :
    rawTruthy c₁ v = rawTruthy c₂ v := by
  rw [rawTruthy, rawTruthy]
  split_ifs with hf
  · rw [h _ (mem_refs_raw hf)]
  · rfl

theorem fieldExists_congr (h : ∀ s ∈ refsOf args, c₁.get s = c₂.get s) :
    fieldExists c₁ args = fieldExists c₂ args := by
  match args with
  | [] => rfl
  | [.expr _ _] => rfl
  | a :: b :: rest => cases a <;> rfl
  | [.raw v] =>
    rw [fieldExists, fieldExists]
    split_ifs with hf
    · rw [h _ (by simp [refsOf, Operand.refs, hf])]
    · rfl

/-- A node is determined by what its operands give and, for `exists`, by the field. -/
theorem evalNode_congr (ht : truths c₁ depth args = truths c₂ depth args)
    (hv : values c₁ depth args = values c₂ depth args)
    (h : ∀ s ∈ refsOf args, c₁.get s = c₂.get s) :
    evalNode c₁ depth op args (truths c₁ depth args) (values c₁ depth args)
      = evalNode c₂ depth op args (truths c₂ depth args) (values c₂ depth args) := by
  rw [ht, hv]
  unfold evalNode
  rw [fieldExists_congr h]

/-- **An operand gives the same in two contexts that agree on its fields.** -/
theorem operand_congr (a : Operand) (depth : ℕ) (h : ∀ s ∈ a.refs, c₁.get s = c₂.get s) :
    operandTruthy c₁ depth a = operandTruthy c₂ depth a ∧
      operandValue c₁ depth a = operandValue c₂ depth a := by
  induction a using Operand.induction generalizing depth with
  | raw v =>
    rw [operandTruthy, operandTruthy, operandValue, operandValue, rawTruthy_congr h,
      rawValue_congr h]
    exact ⟨rfl, rfl⟩
  | expr op args ih =>
    have hargs : ∀ s ∈ refsOf args, c₁.get s = c₂.get s := by simpa [Operand.refs] using h
    have hsub : ∀ a ∈ args, ∀ s ∈ a.refs, c₁.get s = c₂.get s := fun a ha s hs =>
      hargs s (mem_refsOf.mpr ⟨a, ha, hs⟩)
    have ht : truths c₁ (depth + 1) args = truths c₂ (depth + 1) args := by
      rw [truths_eq, truths_eq]
      exact List.map_congr_left fun a ha => (ih a ha _ (hsub a ha)).1
    have hv : values c₁ (depth + 1) args = values c₂ (depth + 1) args := by
      rw [values_eq, values_eq]
      exact List.map_congr_left fun a ha => (ih a ha _ (hsub a ha)).2
    rw [operandTruthy, operandTruthy, operandValue, operandValue, evalNode_congr ht hv hargs]
    exact ⟨rfl, rfl⟩

/-- **A condition depends only on the fields it refers to.** -/
theorem evaluate_congr (h : ∀ s ∈ e.refs, c₁.get s = c₂.get s) : evaluate e c₁ = evaluate e c₂ := by
  have hsub : ∀ a ∈ e.args, ∀ s ∈ a.refs, c₁.get s = c₂.get s := fun a ha s hs =>
    h s (mem_refsOf.mpr ⟨a, ha, hs⟩)
  refine evalNode_congr ?_ ?_ h
  · rw [truths_eq, truths_eq]
    exact List.map_congr_left fun a ha => (operand_congr a 0 (hsub a ha)).1
  · rw [values_eq, values_eq]
    exact List.map_congr_left fun a ha => (operand_congr a 0 (hsub a ha)).2

/-! ## The references the check does not visit -/

/-- The references inside the operands that are expressions. -/
def nestedRefs : List Operand → List String
  | [] => []
  | .expr _ args :: rest => refsOf args ++ nestedRefs rest
  | .raw _ :: rest => nestedRefs rest

mutual

/-- The references in an operand that the check does not visit: those inside an expression
that is compared with something. -/
def Operand.hidden : Operand → List String
  | .expr op args => if op.connective then hiddenOf args else nestedRefs args
  | .raw _ => []

/-- The unvisited references of the operands of a connective. -/
def hiddenOf : List Operand → List String
  | [] => []
  | a :: rest => a.hidden ++ hiddenOf rest

end

/-- The references in an expression that the check does not visit. -/
def Expr.hidden (e : Expr) : List String := (Operand.expr e.op e.args).hidden

theorem mem_hiddenOf : s ∈ hiddenOf args ↔ ∃ a ∈ args, s ∈ a.hidden := by
  induction args with
  | nil => simp [hiddenOf]
  | cons a args ih => simp [hiddenOf, ih]

theorem mem_nestedRefs :
    s ∈ nestedRefs args ↔ ∃ op sub, Operand.expr op sub ∈ args ∧ s ∈ refsOf sub := by
  induction args with
  | nil => simp [nestedRefs]
  | cons a args ih =>
    cases a with
    | expr op sub =>
      simp only [nestedRefs, List.mem_append, ih, List.mem_cons, Operand.expr.injEq]
      constructor
      · rintro (hs | ⟨op', sub', hmem, hs⟩)
        · exact ⟨op, sub, .inl ⟨rfl, rfl⟩, hs⟩
        · exact ⟨op', sub', .inr hmem, hs⟩
      · rintro ⟨op', sub', ⟨rfl, rfl⟩ | hmem, hs⟩
        · exact .inl hs
        · exact .inr ⟨op', sub', hmem, hs⟩
    | raw v => simp [nestedRefs, ih]

/-- An unvisited reference is a reference. -/
theorem hidden_subset_refs (a : Operand) : a.hidden ⊆ a.refs := by
  induction a using Operand.induction with
  | raw v => simp [Operand.hidden]
  | expr op args ih =>
    intro s hs
    rw [Operand.hidden] at hs
    rw [Operand.refs, mem_refsOf]
    split_ifs at hs
    · obtain ⟨a, ha, hs⟩ := mem_hiddenOf.mp hs
      exact ⟨a, ha, ih a ha hs⟩
    · obtain ⟨op', sub, hmem, hs⟩ := mem_nestedRefs.mp hs
      exact ⟨_, hmem, by rwa [Operand.refs]⟩

namespace ContextSchema

variable (schema : ContextSchema)

def Declares (s : String) : Prop := (schema.fields.lookup s).isSome = true

instance (s : String) : Decidable (schema.Declares s) := by
  unfold Declares
  infer_instance

variable {schema}

theorem declares_of_fieldType {t : FieldType} (h : schema.fieldType s = .ok t) :
    schema.Declares s := by
  rw [Declares, (fieldType_ok schema).mp h]
  rfl

theorem declares_of_checkRaw (h : schema.checkRaw v = .ok ()) :
    ∀ s ∈ (Operand.raw v).refs, schema.Declares s := by
  intro s hs
  rw [Operand.refs] at hs
  split_ifs at hs with hf
  · rw [checkRaw, if_pos hf] at h
    obtain ⟨t, ht, -⟩ := bind_eq_ok.mp h
    rw [List.mem_singleton.mp hs]
    exact declares_of_fieldType ht
  · cases hs

theorem declares_of_operandType {a : Operand} {t : Option FieldType}
    (h : schema.operandType a = .ok t) : ∀ s ∈ a.refs, schema.Declares s ∨ s ∈ nestedRefs [a] := by
  intro s hs
  cases a with
  | expr op args =>
    rw [Operand.refs] at hs
    exact .inr (by simpa [nestedRefs] using hs)
  | raw v =>
    refine .inl (declares_of_checkRaw ?_ s hs)
    rw [checkRaw]
    split_ifs with hf
    · rw [operandType, if_pos hf] at h
      obtain ⟨t, ht, -⟩ := bind_eq_ok.mp h
      rw [ht]
      rfl
    · rfl

theorem checkBinary_types {left right : Operand} (h : schema.checkBinary op left right = .ok ()) :
    ∃ lt rt, schema.operandType left = .ok lt ∧ schema.operandType right = .ok rt := by
  obtain ⟨lt, hl, h⟩ := bind_eq_ok.mp h
  obtain ⟨rt, hr, -⟩ := bind_eq_ok.mp h
  exact ⟨lt, rt, hl, hr⟩

/-- **What the check visits is declared**: a reference of an accepted node is declared, or the
check has not visited it. -/
theorem declares_of_checkNode (ih : ∀ a ∈ args, schema.checkOperand a = .ok () →
      ∀ s ∈ a.refs, schema.Declares s ∨ s ∈ a.hidden)
    (h : schema.checkNode op args (schema.checkOperands args) = .ok ()) :
    ∀ s ∈ refsOf args, schema.Declares s ∨ s ∈ (Operand.expr op args).hidden := by
  intro s hs
  rw [Operand.hidden]
  obtain ⟨a, ha, hsa⟩ := mem_refsOf.mp hs
  by_cases hc : op.connective = true
  · rw [if_pos hc]
    rw [checkNode_connective schema hc, checkOperands_ok schema] at h
    rcases ih a ha (h a ha) s hsa with hd | hh
    · exact .inl hd
    · exact .inr (mem_hiddenOf.mpr ⟨a, ha, hh⟩)
  · rw [if_neg hc]
    rcases operator_cases op with hc' | rfl | hbin
    · exact absurd hc' hc
    · left
      have h : schema.checkExists args = .ok () := h
      match args, h with
      | [.raw v], h =>
        rw [checkExists] at h
        split_ifs at h with hf
        rw [List.mem_singleton.mp ha] at hsa
        exact declares_of_checkRaw h s hsa
    · obtain ⟨left, right, rfl, hcheck⟩ := (checkNode_binary schema hbin).mp h
      obtain ⟨lt, rt, hlt, hrt⟩ := checkBinary_types hcheck
      have hnested : s ∈ nestedRefs [a] → s ∈ nestedRefs [left, right] := by
        intro hmem
        obtain ⟨op', sub, hin, hs'⟩ := mem_nestedRefs.mp hmem
        exact mem_nestedRefs.mpr ⟨op', sub, List.mem_singleton.mp hin ▸ ha, hs'⟩
      have ha' : a = left ∨ a = right := by simpa using ha
      rcases ha' with rfl | rfl
      · exact (declares_of_operandType hlt s hsa).imp id hnested
      · exact (declares_of_operandType hrt s hsa).imp id hnested

theorem declares_of_checkOperand (a : Operand) (h : schema.checkOperand a = .ok ()) :
    ∀ s ∈ a.refs, schema.Declares s ∨ s ∈ a.hidden := by
  induction a using Operand.induction with
  | raw v => exact fun s hs => .inl (declares_of_checkRaw (by simpa [checkOperand] using h) s hs)
  | expr op args ih =>
    rw [checkOperand] at h
    intro s hs
    rw [Operand.refs] at hs
    exact declares_of_checkNode ih h s hs

/-- What `validate` accepts parses and passes the check. -/
theorem check_of_validate {tree : Json} (h : schema.validate tree = .ok ())
    (hp : parse tree = .ok e) : schema.check e = .ok () := by
  obtain ⟨_, he, h⟩ := bind_eq_ok.mp h
  obtain rfl := Except.ok.inj (hp.symm.trans he)
  split at h
  · assumption
  · cases h

/-- **An accepted condition reads declared fields only**, exactly if this holds of the
references inside expressions that are compared with something.  Then its outcome is the
same in any two contexts that agree on the declared fields. -/
theorem reads_declared_iff {tree : Json} {e : Expr} (h : schema.validate tree = .ok ())
    (hp : parse tree = .ok e) :
    ((∀ s ∈ e.refs, schema.Declares s) ↔ ∀ s ∈ e.hidden, schema.Declares s) ∧
    ((∀ s ∈ e.hidden, schema.Declares s) →
      ∀ c₁ c₂ : Context, (∀ s, schema.Declares s → c₁.get s = c₂.get s) →
        evaluate e c₁ = evaluate e c₂) := by
  have hcheck := check_of_validate h hp
  have hvisited : (∀ s ∈ e.hidden, schema.Declares s) → ∀ s ∈ e.refs, schema.Declares s :=
    fun hh s hs => (declares_of_checkNode (fun a _ => declares_of_checkOperand a) hcheck s hs).elim
      id (hh s)
  refine ⟨⟨fun hr s hs => hr s ?_, hvisited⟩, fun hh c₁ c₂ hagree => ?_⟩
  · have := hidden_subset_refs _ hs
    rwa [Operand.refs] at this
  · exact evaluate_congr fun s hs => hagree s (hvisited hh s hs)

end ContextSchema

/-! ## Two conditions -/

def exprJson (op : Operator) (args : List Json) : Json :=
  .obj [("op", .str op.name), ("args", .arr args)]

def fieldJson (s : String) : Json := .obj [("field", .str s)]

/-- `event_priority == "high"`. -/
def priorityIsHigh : Json := exprJson .eq [fieldJson "event_priority", .str "high"]

def bindOnly (field : String) (v : Json) : Context := fun k => if k = field then some v else none

/-- A field that no workflow condition may read makes no difference to other fields. -/
theorem agree_on_declared (h : workflowContext.Declares s) :
    (bindOnly "secret" (.bool true)).get s = Context.get (fun _ => none) s := by
  have hne : s ≠ "secret" := by
    rintro rfl
    revert h
    decide
  simp [Context.get, bindOnly, hne]

/-- The condition on the priority is not affected by a field outside its context. -/
theorem reads_declared_priority :
    evaluate ⟨.eq, [.raw (fieldJson "event_priority"), .raw (.str "high")]⟩
        (bindOnly "secret" (.bool true))
      = evaluate ⟨.eq, [.raw (fieldJson "event_priority"), .raw (.str "high")]⟩ fun _ => none :=
  have hvalid : workflowContext.validate priorityIsHigh = .ok () := by rfl
  (ContextSchema.reads_declared_iff hvalid (by rfl)).2 (by decide) _ _ fun _ => agree_on_declared

/-- `exists(secret) == true`. -/
def secretExists : Json := exprJson .eq [exprJson .existsOp [fieldJson "secret"], .bool true]

/-- **An accepted condition can read an undeclared field**: it is accepted, refers to a field
the schema does not declare, and comes out differently in two contexts that agree on every
declared field. -/
theorem secret_read : workflowContext.validate secretExists = .ok () ∧
    ∃ e, parse secretExists = .ok e ∧ "secret" ∈ e.refs ∧ ¬ workflowContext.Declares "secret" ∧
      ∃ c₁ c₂ : Context, (∀ s, workflowContext.Declares s → c₁.get s = c₂.get s) ∧
        evaluate e c₁ = .ok true ∧ evaluate e c₂ = .ok false :=
  ⟨by rfl, ⟨.eq, [.expr .existsOp [.raw (fieldJson "secret")], .raw (.bool true)]⟩, by rfl,
    by decide, by decide, bindOnly "secret" (.bool true), fun _ => none, fun _ => agree_on_declared,
    by rfl, by rfl⟩

end BbzPlatform.RuleDsl
