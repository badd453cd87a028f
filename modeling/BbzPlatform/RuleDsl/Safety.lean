import BbzPlatform.RuleDsl.Kinds
import BbzPlatform.RuleDsl.Reading

/-!
# Conditions that cannot raise

An accepted condition should give a boolean in every context that binds the declared fields to
values of their types.  It does if every node in it is defined on the kinds of its operands.

The gate checks less.  It does not count the operands of a connective, takes two literals as
comparable, lets a number field stand beside a date, and does not look into an expression that is
compared with something.

At run time a declared field may also be `None`.  Equality and membership accept that; an order
operator does not.
-/

namespace BbzPlatform.RuleDsl

/-- What the gate does not check of two operands: a bare object, two literals that cannot be put
in order, and two fields of different types. -/
def Kind.sealed (op : Operator) : Kind → Kind → Bool
  | .stray, _ | _, .stray => false
  | .literal v, .literal w => !op.ordering || (Json.order v w).isSome
  | .field _ t, .field _ t' => !op.ordering || t = t'
  | _, _ => true

/-- An order operator refers only to fields that have a value. -/
def Context.Ordered (ctx : Context) (e : Expr) : Prop :=
  e.op.ordering = true → ∀ s ∈ refsOf e.args, ctx.get s ≠ .null

mutual

/-- The expressions that the gate does not look at: those inside a comparison. -/
def Operand.unvisited : Operand → List Expr
  | .expr op args => if op.connective then unvisitedOf args else subsOf args
  | .raw _ => []

/-- The expressions of several operands that the gate does not look at. -/
def unvisitedOf : List Operand → List Expr
  | [] => []
  | a :: rest => a.unvisited ++ unvisitedOf rest

end

mutual

/-- The expressions that the gate looks at. -/
def Operand.visited : Operand → List Expr
  | .expr op args => ⟨op, args⟩ :: (if op.connective then visitedOf args else [])
  | .raw _ => []

/-- The expressions of several operands that the gate looks at. -/
def visitedOf : List Operand → List Expr
  | [] => []
  | a :: rest => a.visited ++ visitedOf rest

end

namespace Expr

variable (e : Expr)

/-- The expressions that the gate looks at. -/
def visited : List Expr := (Operand.expr e.op e.args).visited

/-- The expressions that the gate does not look at. -/
def unvisited : List Expr := (Operand.expr e.op e.args).unvisited

end Expr

variable {args : List Operand} {d : Expr} {schema : ContextSchema} {op : Operator} {a b : Operand}
  {t : FieldType} {lt rt : Option FieldType} {v : Json}

theorem mem_visitedOf : d ∈ visitedOf args ↔ ∃ a ∈ args, d ∈ a.visited := by
  induction args with
  | nil => simp [visitedOf]
  | cons a args ih => simp [visitedOf, ih]

theorem mem_unvisitedOf : d ∈ unvisitedOf args ↔ ∃ a ∈ args, d ∈ a.unvisited := by
  induction args with
  | nil => simp [unvisitedOf]
  | cons a args ih => simp [unvisitedOf, ih]

/-- The gate looks at an expression or it does not. -/
theorem mem_subs_iff (a : Operand) : d ∈ a.subs ↔ d ∈ a.visited ∨ d ∈ a.unvisited := by
  induction a using Operand.induction with
  | raw v => simp [Operand.subs, Operand.visited, Operand.unvisited]
  | expr op args ih =>
    rw [Operand.subs, Operand.visited, Operand.unvisited]
    by_cases hc : op.connective = true
    · have hargs : d ∈ subsOf args ↔ d ∈ visitedOf args ∨ d ∈ unvisitedOf args := by
        rw [mem_subsOf, mem_visitedOf, mem_unvisitedOf]
        constructor
        · rintro ⟨a, ha, hd⟩
          exact ((ih a ha).mp hd).imp (fun h => ⟨a, ha, h⟩) fun h => ⟨a, ha, h⟩
        · rintro (⟨a, ha, hd⟩ | ⟨a, ha, hd⟩)
          · exact ⟨a, ha, (ih a ha).mpr (.inl hd)⟩
          · exact ⟨a, ha, (ih a ha).mpr (.inr hd)⟩
      simp [hc, hargs, or_assoc]
    · simp [hc]

namespace ContextSchema

variable (schema) in
/-- The expression at a place gives a boolean in every context with values of the declared
types. -/
def Total (p : ℕ × Expr) : Prop := ∀ ctx, schema.Binds ctx → ∃ b, evalAt ctx p = .ok b

/-- **All expressions in an expression return exactly if all are defined.** -/
theorem total_iff_defined {e : Expr} (hd : e.depth ≤ maxDepth) :
    (∀ p ∈ e.places, schema.Total p) ↔ ∀ d ∈ e.subs, schema.defined d = true := by
  constructor
  · intro h d hmem
    refine defined_iff.mpr fun ctx hctx => ?_
    exact ((places_return_iff e ctx).mp fun p hp => h p hp ctx hctx).2 d hmem
  · intro h p hp ctx hctx
    exact (places_return_iff e ctx).mpr ⟨hd, fun d hmem => defined_iff.mp (h d hmem) ctx hctx⟩ p hp

/-! ## What the gate leaves open -/

variable (schema) in
/-- What the gate does not check at a node it looks at: the number of operands of a connective,
and what `Kind.sealed` says of the operands of a comparison. -/
def sealed (e : Expr) : Bool :=
  match e.op, e.args with
  | .andOp, args | .orOp, args => !args.isEmpty
  | .notOp, args => args.length = 1
  | .existsOp, _ => true
  | op, [a, b] => Kind.sealed op (schema.kind a) (schema.kind b)
  | _, _ => true

theorem sealed_pair (hop : op.binary = true) (a b : Operand) :
    schema.sealed ⟨op, [a, b]⟩ = Kind.sealed op (schema.kind a) (schema.kind b) := by
  cases op with
  | eq | ne | lt | lte | gt | gte | inOp | notInOp => rfl
  | andOp | orOp | notOp | existsOp => cases hop

/-- The gate has looked at every visited expression. -/
theorem check_of_visited (a : Operand) (h : schema.checkOperand a = .ok ())
    (hd : d ∈ a.visited) : schema.check d = .ok () := by
  induction a using Operand.induction with
  | raw v => simp [Operand.visited] at hd
  | expr op args ih =>
    rw [checkOperand] at h
    rw [Operand.visited] at hd
    rcases List.mem_cons.mp hd with rfl | hd
    · exact h
    · split_ifs at hd with hc
      · rw [checkNode_connective schema hc, checkOperands_ok schema] at h
        obtain ⟨a, ha, hd⟩ := mem_visitedOf.mp hd
        exact ih a ha (h a ha) hd
      · simp at hd

theorem kind_of_operandType (h : schema.operandType a = .ok (some t)) :
    (∃ s, schema.kind a = .field s t) ∨ schema.kind a = .predicate ∧ t = .boolean := by
  cases a with
  | expr op args =>
    rw [operandType, Except.ok.injEq, Option.some.injEq] at h
    exact .inr ⟨rfl, h.symm⟩
  | raw v =>
    rw [operandType] at h
    by_cases hf : isFieldRef v = true
    swap
    · rw [if_neg hf] at h
      cases h
    rw [if_pos hf] at h
    rw [kind, if_pos hf]
    left
    obtain ⟨t', ht', ⟨⟩⟩ := Raising.bind_eq_ok.mp h
    exact ⟨_, by rw [(fieldType_ok schema).mp ht']⟩

theorem kind_of_untyped (h : schema.operandType a = .ok none) :
    ∃ v, a = .raw v ∧ isFieldRef v = false ∧ schema.kind a = .ofLiteral v := by
  cases a with
  | expr op args => cases h
  | raw v =>
    rw [operandType] at h
    split_ifs at h with hf
    · obtain ⟨t, -, ⟨⟩⟩ := Raising.bind_eq_ok.mp h
    · exact ⟨v, rfl, by simpa using hf, by rw [kind, if_neg hf]⟩

theorem sealed_of_not_ordering (ho : op.ordering = false) (k l : Kind) :
    Kind.sealed op k l = (k.hasValue && l.hasValue) := by
  cases k <;> cases l <;> simp [Kind.sealed, Kind.hasValue, ho]

theorem checks_of_ordering (ho : op.ordering = true) (hl : schema.operandType a = .ok lt)
    (hr : schema.operandType b = .ok rt) (h : schema.checkBinary op a b = .ok ()) :
    checkOrderable op lt = .ok () ∧ checkOrderable op rt = .ok () ∧
      checkLiteral lt b = .ok () ∧ checkLiteral rt a = .ok () := by
  rw [checkBinary, hl, hr] at h
  cases op with
  | lt | lte | gt | gte =>
    change (do
      checkOrderable _ lt
      checkOrderable _ rt
      checkLiteral lt b
      checkLiteral rt a) = Except.ok () at h
    simpa only [bind_unit_ok] using h
  | eq | ne | inOp | notInOp | andOp | orOp | notOp | existsOp => cases ho

theorem check_of_membership (hm : op.membership = true) (hl : schema.operandType a = .ok lt)
    (hr : schema.operandType b = .ok rt) (h : schema.checkBinary op a b = .ok ()) :
    checkMember op lt rt b = .ok () := by
  rw [checkBinary, hl, hr] at h
  cases op with
  | inOp | notInOp => exact h
  | eq | ne | lt | lte | gt | gte | andOp | orOp | notOp | existsOp => cases hm

theorem literalMatches_of_checkLiteral (hf : isFieldRef v = false)
    (h : checkLiteral (some t) (.raw v) = .ok ()) : literalMatches t v = true := by
  simpa [checkLiteral, hf] using h

variable (schema) in
/-- The fields that can be put in order have values of their types, or none. -/
def TypedOrNull (ctx : Context) : Prop :=
  ∀ s t, schema.fields.lookup s = some t → t.orderable = true →
    ctx.get s = .null ∨ literalMatches t (ctx.get s) = true

variable {ctx : Context} {s : String} {t' : FieldType} {w : Json}

theorem refs_of_field (h : schema.kind a = .field s t) : a.refs = [s] := by
  cases a with
  | expr op args => cases h
  | raw v =>
    rw [kind] at h
    split_ifs at h with hf
    · rw [Operand.refs, if_pos hf]
      cases hl : schema.fields.lookup ((fieldRef? v).getD "") with
      | none => simp [hl] at h
      | some t' =>
        simp only [hl, Kind.field.injEq] at h
        rw [h.1]
    · cases v <;> cases h

theorem ordered_operand (h : schema.operandType a = .ok lt) (ho : checkOrderable op lt = .ok ()) :
    (∃ s t, lt = some t ∧ t.orderable = true ∧ schema.fields.lookup s = some t ∧
      schema.kind a = .field s t ∧ a.refs = [s]) ∨
    lt = none ∧ ∃ v, a = .raw v ∧ isFieldRef v = false ∧ schema.kind a = .ofLiteral v ∧
      a.refs = [] := by
  cases lt with
  | none =>
    obtain ⟨v, rfl, hf, hk⟩ := kind_of_untyped h
    exact .inr ⟨rfl, v, rfl, hf, hk, by simp [Operand.refs, hf]⟩
  | some t =>
    have hord : t.orderable = true := checkOrderable_ok.mp ho t rfl
    rcases kind_of_operandType h with ⟨s, hk⟩ | ⟨-, rfl⟩
    · have hlook := schema.lists_kind a
      rw [hk] at hlook
      exact .inl ⟨s, t, rfl, hord, hlook, hk, refs_of_field hk⟩
    · cases hord

/-- An order operator that passed the gate refers to fields with an order only. -/
theorem orderable_of_ref (ho : op.ordering = true) (hb : schema.checkBinary op a b = .ok ())
    (hs : s ∈ refsOf [a, b]) : ∃ t, schema.fields.lookup s = some t ∧ t.orderable = true := by
  obtain ⟨lt, rt, hl, hr⟩ := checkBinary_types hb
  obtain ⟨hlo, hro, -, -⟩ := checks_of_ordering ho hl hr hb
  have hof : ∀ {a : Operand} {lt}, schema.operandType a = .ok lt → checkOrderable op lt = .ok () →
      s ∈ a.refs → ∃ t, schema.fields.lookup s = some t ∧ t.orderable = true := by
    intro a lt hl hlo hs
    rcases ordered_operand hl hlo with ⟨s', t, -, hto, hlook, -, hrefs⟩ | ⟨-, v, -, -, -, hrefs⟩
    · rw [hrefs] at hs
      exact ⟨t, List.mem_singleton.mp hs ▸ hlook, hto⟩
    · rw [hrefs] at hs
      cases hs
  simp only [refsOf, List.append_nil, List.mem_append] at hs
  exact hs.elim (hof hl hlo) (hof hr hro)

theorem isOk_ordering (ho : op.ordering = true) (v w : Json) :
    (applyBinary op v w).isOk = (Json.order v w).isSome := by
  have hm : op.membership = false := by cases op <;> first | rfl | cases ho
  rw [Bool.eq_iff_iff, isOk_iff, applyBinary, if_neg (by simp [hm]), compareValues_ok ho]

theorem order_typed (ht : t.orderable = true) (ht' : t'.orderable = true)
    (hv : v = .null ∨ literalMatches t v = true) (hw : w = .null ∨ literalMatches t' w = true) :
    (Json.order v w).isSome = true ↔ (v ≠ .null ∧ w ≠ .null) ∧ t = t' := by
  cases t <;> cases ht <;> cases t' <;> cases ht' <;> cases v <;> cases w <;>
    simp_all [literalMatches, Json.order, Json.number?]

/-- **An order operator that passed the gate is defined** exactly if it is sealed and its fields
have values. -/
theorem pair_ordering (htyped : schema.TypedOrNull ctx) (ho : op.ordering = true)
    (h : schema.checkBinary op a b = .ok ()) : ctx.pair op a b = true ↔
      Kind.sealed op (schema.kind a) (schema.kind b) = true ∧
        ∀ s ∈ refsOf [a, b], ctx.get s ≠ .null := by
  obtain ⟨lt, rt, hl, hr⟩ := checkBinary_types h
  obtain ⟨hlo, hro, hlb, hra⟩ := checks_of_ordering ho hl hr h
  have hrefs : refsOf [a, b] = a.refs ++ b.refs := by simp [refsOf]
  -- a literal that passes beside a field has the type of the field
  have hbeside : ∀ {t v}, isFieldRef v = false → checkLiteral (some t) (.raw v) = .ok () →
      Kind.ofLiteral v = .literal v ∧ v ≠ .null ∧ literalMatches t v = true := by
    intro t v hf hlit
    have hmatch := literalMatches_of_checkLiteral hf hlit
    cases v <;> first | exact ⟨rfl, Json.noConfusion, hmatch⟩ | (cases t <;> cases hmatch)
  rw [hrefs, Context.pair, valueIn_eq schema, valueIn_eq schema]
  rcases ordered_operand hl hlo with
      ⟨s, t, rfl, hto, hlook, hka, hra'⟩ | ⟨rfl, v, rfl, hfv, hka, hra'⟩ <;>
    rcases ordered_operand hr hro with
      ⟨s', t', rfl, hto', hlook', hkb, hrb'⟩ | ⟨rfl, w, rfl, hfw, hkb, hrb'⟩ <;>
    rw [hka, hkb, hra', hrb']
  · change (applyBinary op _ _).isOk = true ↔ _
    rw [isOk_ordering ho, order_typed hto hto' (htyped s t hlook hto)
      (htyped s' t' hlook' hto'), and_comm]
    simp [Kind.sealed, ho]
  · obtain ⟨hlit, hne, hmatch⟩ := hbeside hfw hlb
    rw [hlit]
    change (applyBinary op _ w).isOk = true ↔ _
    rw [isOk_ordering ho, order_typed hto hto (htyped s t hlook hto) (.inr hmatch)]
    simp [Kind.sealed, hne]
  · obtain ⟨hlit, hne, hmatch⟩ := hbeside hfv hra
    rw [hlit]
    change (applyBinary op v _).isOk = true ↔ _
    rw [isOk_ordering ho, order_typed hto' hto' (.inr hmatch) (htyped s' t' hlook' hto')]
    simp [Kind.sealed, hne]
  · cases v <;> cases w <;> simp [Kind.ofLiteral, Kind.value, Kind.sealed, isOk_ordering ho, ho]

/-- **The gate types the operands of an order operator**, up to what it leaves open. -/
theorem fit_ordering (ho : op.ordering = true) (h : schema.checkBinary op a b = .ok ()) :
    Kind.fit op (schema.kind a) (schema.kind b)
      = Kind.sealed op (schema.kind a) (schema.kind b) := by
  have hop : op.binary = true := by
    simp [Operator.binary, Operator.comparison, ho]
  have htyped : ∀ {ctx}, schema.Binds ctx → schema.TypedOrNull ctx :=
    fun hctx s t hlook _ => .inr (hctx s t hlook).1
  rw [Bool.eq_iff_iff, fit_iff hop]
  constructor
  · intro hall
    have hsample : schema.Binds (schema.sample fun _ => []) := binds_sample fun _ => rfl
    exact ((pair_ordering (htyped hsample) ho h).mp (hall _ hsample)).1
  · intro hs ctx hctx
    refine (pair_ordering (htyped hctx) ho h).mpr ⟨hs, fun s href hnull => ?_⟩
    obtain ⟨t, hlook, -⟩ := orderable_of_ref ho h href
    have hmatch := (hctx s t hlook).1
    rw [hnull] at hmatch
    cases t <;> cases hmatch

/-- Membership passes the gate with a list on the right only. -/
theorem shape_of_checkMember (hr : schema.operandType b = .ok rt)
    (h : checkMember op lt rt b = .ok ()) : (schema.kind b).shape = some .sequence := by
  cases rt with
  | some t =>
    have ht : t = .list := by
      by_contra hne
      simp [checkMember, hne] at h
    subst ht
    rcases kind_of_operandType hr with ⟨s, hk⟩ | ⟨-, ht⟩
    · rw [hk]
      rfl
    · cases ht
  | none =>
    obtain ⟨w, rfl, -, hkw⟩ := kind_of_untyped hr
    rw [hkw]
    cases w with
    | arr items => rfl
    | null | bool | int | float | str | obj => cases h

/-- **At a node that passed, the operator fits the operands exactly if the node is sealed.** -/
theorem defined_iff_sealed (h : schema.check d = .ok ()) : schema.defined d = schema.sealed d := by
  obtain ⟨op, args⟩ := d
  have hfit : op.binary = true → schema.defined ⟨op, args⟩ = schema.sealed ⟨op, args⟩ := by
    intro hop
    obtain ⟨a, b, rfl, hb⟩ := (checkNode_binary schema (by
      rwa [Operator.binary, Bool.or_eq_true] at hop)).mp h
    obtain ⟨lt, rt, hl, hr⟩ := checkBinary_types hb
    have hpair : Kind.fit op (schema.kind a) (schema.kind b)
        = Kind.sealed op (schema.kind a) (schema.kind b) := by
      rcases op.binary_cases hop with ⟨ho, -⟩ | ⟨ho, hm⟩ | he
      · exact fit_ordering ho hb
      · rw [sealed_of_not_ordering ho, Kind.fit, if_neg (by simp [ho]), if_pos hm]
        simp [Kind.contains, shape_of_checkMember hr (check_of_membership hm hl hr hb)]
      · rcases he with rfl | rfl <;> rw [sealed_of_not_ordering rfl, Kind.fit] <;>
          exact Bool.and_true _
    rw [defined, nodeDefined_pair hop, sealed_pair hop, hpair]
  cases op with
  | eq | ne | lt | lte | gt | gte | inOp | notInOp => exact hfit rfl
  | andOp | orOp | notOp => rfl
  | existsOp =>
    have h : schema.checkExists args = .ok () := h
    obtain _ | ⟨_ | v, _ | ⟨b, rest⟩⟩ := args
    case cons.raw.nil =>
      rw [checkExists] at h
      split_ifs at h with hf
      exact hf
    all_goals cases h

/-! ## Missing values -/

section Missing

variable (schema) in
/-- The fields that can be put in order have values of their types or none, and no field holds a
list. -/
structure BindsOrdered (ctx : Context) : Prop where
  typed : schema.TypedOrNull ctx
  noList : ∀ s, schema.fields.lookup s ≠ some .list

variable (hctx : schema.BindsOrdered ctx)
include hctx

/-- **A comparison or membership test that passed the gate is defined in any context**, unless it
is an order operator. -/
theorem BindsOrdered.pair_not_ordering (hop : op.binary = true) (ho : op.ordering = false)
    (h : schema.checkBinary op a b = .ok ()) :
    ctx.pair op a b = Kind.sealed op (schema.kind a) (schema.kind b) := by
  rw [sealed_of_not_ordering ho, ← Kind.isSome_value ctx, ← Kind.isSome_value ctx, Context.pair,
    valueIn_eq schema, valueIn_eq schema]
  have happ : ∀ v w, (schema.kind b).value ctx = some w → (applyBinary op v w).isOk = true := by
    intro v w hw
    rcases op.binary_cases hop with ⟨ho', -⟩ | ⟨-, hm⟩ | he
    · simp [ho] at ho'
    · obtain ⟨lt, rt, hl, hr⟩ := checkBinary_types h
      have hshape := shape_of_checkMember hr (check_of_membership hm hl hr h)
      have hseq : shapeOf w = some .sequence := by
        rcases Kind.shape_sequence hshape with ⟨items, hk⟩ | ⟨s, t, hk⟩
        · rw [hk] at hw
          rw [← Option.some.inj hw]
          rfl
        · have hlook := schema.lists_kind b
          rw [hk] at hlook hshape
          cases t with
          | list => exact absurd hlook (hctx.noList s)
          | string | number | boolean | datetime => cases hshape
      rw [isOk_iff, applyBinary, if_pos hm]
      exact RuleDsl.memberValues_ok.mpr (.inl hseq)
    · rcases he with rfl | rfl <;> rfl
  cases hv : (schema.kind a).value ctx with
  | none => cases (schema.kind b).value ctx <;> rfl
  | some v =>
    cases hw : (schema.kind b).value ctx with
    | none => rfl
    | some w => exact happ v w hw

/-- **A node that passed the gate is defined** exactly if it is sealed and puts no missing value in
order. -/
theorem BindsOrdered.defined_iff (h : schema.check d = .ok ()) :
    ctx.defined d = true ↔ schema.sealed d = true ∧ ctx.Ordered d := by
  obtain ⟨op, args⟩ := d
  by_cases hop : op.binary = true
  · obtain ⟨a, b, rfl, hb⟩ := (checkNode_binary schema (by
      rwa [Operator.binary, Bool.or_eq_true] at hop)).mp h
    rw [Context.defined, nodeDefined_pair hop, sealed_pair hop]
    by_cases ho : op.ordering = true
    · rw [pair_ordering hctx.typed ho hb]
      exact ⟨fun h => ⟨h.1, fun _ => h.2⟩, fun h => ⟨h.1, h.2 ho⟩⟩
    · rw [hctx.pair_not_ordering hop (by simpa using ho) hb]
      exact ⟨fun hs => ⟨hs, fun ho' => absurd ho' ho⟩, And.left⟩
  · have ho : op.ordering ≠ true := by
      intro ho
      cases op <;> first | exact hop rfl | cases ho
    rw [← defined_iff_sealed h, Context.defined, defined, nodeDefined_congr hop]
    exact ⟨fun hs => ⟨hs, fun ho' => absurd ho' ho⟩, And.left⟩

omit hctx in
theorem orderable_ref (h : schema.check d = .ok ()) (ho : d.op.ordering = true)
    (hs : s ∈ refsOf d.args) : ∃ t, schema.fields.lookup s = some t ∧ t.orderable = true := by
  obtain ⟨op, args⟩ := d
  obtain ⟨a, b, rfl, hb⟩ := (checkNode_binary schema (.inl (by
    rw [Operator.comparison, ho, Bool.or_true]))).mp h
  exact orderable_of_ref ho hb hs

end Missing

/-- **An accepted condition of depth at most 64 never raises, nor does any expression in it**,
exactly if every node the gate looks at is sealed and every other one is defined. -/
theorem accepted_total_iff {tree : Json} {e : Expr} (h : schema.validate tree = .ok ())
    (hp : parse tree = .ok e) (hd : e.depth ≤ maxDepth) : ((∀ p ∈ e.places, schema.Total p) ↔
      (∀ d ∈ e.visited, schema.sealed d = true) ∧ ∀ d ∈ e.unvisited, schema.defined d = true) ∧
    ((∀ d ∈ e.visited, schema.sealed d = true) → (∀ d ∈ e.unvisited, schema.defined d = true) →
      ∀ ctx, schema.Binds ctx → ∃ b, evaluate e ctx = .ok b) := by
  have hcheck : schema.checkOperand (.expr e.op e.args) = .ok () := by
    rw [checkOperand]
    exact check_of_validate h hp
  have hnodes : (∀ d ∈ e.subs, schema.defined d = true) ↔
      (∀ d ∈ e.visited, schema.sealed d = true) ∧
        ∀ d ∈ e.unvisited, schema.defined d = true := by
    constructor
    · intro hall
      refine ⟨fun d hv => ?_, fun d hu => hall d ((mem_subs_iff _).mpr (.inr hu))⟩
      rw [← defined_iff_sealed (check_of_visited _ hcheck hv)]
      exact hall d ((mem_subs_iff _).mpr (.inl hv))
    · rintro ⟨hv, hu⟩ d hmem
      rcases (mem_subs_iff _).mp hmem with hd | hd
      · rw [defined_iff_sealed (check_of_visited _ hcheck hd)]
        exact hv d hd
      · exact hu d hd
  refine ⟨(total_iff_defined hd).trans hnodes, fun hv hu => ?_⟩
  exact (total_iff_defined hd).mpr (hnodes.mpr ⟨hv, hu⟩) (0, e) List.mem_cons_self

end ContextSchema

/-- The condition on the priority returns where the priority is a text. -/
theorem accepted_total_priority :
    ∃ b, evaluate ⟨.eq, [.raw (fieldJson "event_priority"), .raw (.str "high")]⟩
      (workflowContext.sample fun _ => []) = .ok b :=
  have hvalid : workflowContext.validate priorityIsHigh = .ok () := by rfl
  (ContextSchema.accepted_total_iff hvalid (by rfl) (by decide)).2 (by decide) (by decide) _
    (ContextSchema.binds_sample fun _ => rfl)

/-- **A conjunction of nothing is accepted and raises** in a context that binds every field. -/
theorem empty_conjunction_raises :
    workflowContext.validate (exprJson .andOp []) = .ok () ∧
      parse (exprJson .andOp []) = .ok ⟨.andOp, []⟩ ∧ Expr.depth ⟨.andOp, []⟩ ≤ maxDepth ∧
      ∃ ctx, workflowContext.Binds ctx ∧
        evaluate ⟨.andOp, []⟩ ctx = .error (.takesAtLeast .andOp 1 0) :=
  ⟨by rfl, by rfl, by decide, workflowContext.sample fun _ => [],
    ContextSchema.binds_sample fun _ => rfl, by rfl⟩

end BbzPlatform.RuleDsl
