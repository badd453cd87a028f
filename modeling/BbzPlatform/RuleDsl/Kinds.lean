import BbzPlatform.RuleDsl.Definedness

/-!
# Kinds of operands

Whether an operator is defined on two operands can be told, before anything runs, from the
`Kind` of the operands: a literal, a field of a type, a nested expression.  An operator that
is defined on the kinds is defined on the values in every context that binds the declared
fields to values of their types, and one that is not raises in some such context.
-/

namespace BbzPlatform.RuleDsl

def FieldType.shape : FieldType → Shape
  | .number | .boolean => .number
  | .string | .datetime => .text
  | .list => .sequence

variable {t : FieldType} {v w : Json} {ctx : Context} {lists : String → List Json}
  {schema : ContextSchema} {op : Operator}

theorem shapeOf_of_literalMatches (h : literalMatches t v = true) : shapeOf v = some t.shape := by
  cases t <;> cases v <;> first | rfl | cases h

/-! ## Kinds of operands -/

/-- What is known of an operand before anything runs. -/
inductive Kind where
  | literal (v : Json)
  | field (s : String) (t : FieldType)
  | unknown (s : String)
  | predicate
  | stray

variable {k l : Kind}

namespace Kind

/-- The kind of an operand that is neither an expression nor a field reference. -/
def ofLiteral : Json → Kind
  | .obj _ => .stray
  | v => .literal v

/-- The shape of the operand's values, where all have one. -/
def shape : Kind → Option Shape
  | .literal v => shapeOf v
  | .field _ t => some t.shape
  | .predicate => some .number
  | .unknown _ | .stray => none

/-- An object that is no field reference has no value. -/
def hasValue : Kind → Bool
  | .stray => false
  | _ => true

/-- Lists are in order whatever the fields hold: two literals that are, the empty list beside
any field, a field beside itself. -/
def sequences : Kind → Kind → Bool
  | .literal (.arr xs), .literal (.arr ys) => (Json.orderList xs ys).isSome
  | .literal (.arr xs), .field _ _ => xs.isEmpty
  | .field _ _, .literal (.arr ys) => ys.isEmpty
  | .field s _, .field s' _ => s = s'
  | _, _ => false

/-- An order operator is defined on two kinds. -/
def ordered (k l : Kind) : Bool :=
  match k.shape, l.shape with
  | some .number, some .number | some .text, some .text => true
  | some .sequence, some .sequence => sequences k l
  | _, _ => false

/-- `in` is defined on two kinds. -/
def contains (needle haystack : Kind) : Bool :=
  match haystack.shape with
  | some .sequence => true
  | some .text => needle.shape = some .text
  | _ => false

/-- Only literal lists and fields hold lists. -/
theorem shape_sequence (h : k.shape = some .sequence) :
    (∃ items, k = .literal (.arr items)) ∨ ∃ s t, k = .field s t := by
  cases k with
  | literal v =>
    obtain ⟨items, rfl⟩ := shapeOf_sequence.mp h
    exact .inl ⟨items, rfl⟩
  | field s t => exact .inr ⟨s, t, rfl⟩
  | unknown s => cases h
  | predicate => cases h
  | stray => cases h

/-- What an operand stands for in a context; a nested expression stands for a boolean. -/
def value (ctx : Context) : Kind → Option Json
  | .literal v => some v
  | .field s _ | .unknown s => some (ctx.get s)
  | .predicate => some (.bool true)
  | .stray => none

theorem isSome_value (ctx : Context) (k : Kind) : (k.value ctx).isSome = k.hasValue := by
  cases k <;> rfl

end Kind

namespace ContextSchema

variable (schema : ContextSchema)

def kind : Operand → Kind
  | .expr _ _ => .predicate
  | .raw v =>
    if isFieldRef v then
      match schema.fields.lookup ((fieldRef? v).getD "") with
      | some t => .field ((fieldRef? v).getD "") t
      | none => .unknown ((fieldRef? v).getD "")
    else .ofLiteral v

/-- A kind that the schema can give to an operand. -/
def Lists : Kind → Prop
  | .field s t => schema.fields.lookup s = some t
  | .unknown s => schema.fields.lookup s = none
  | _ => True

/-- The context binds every declared field to a value of its type. -/
def Binds (ctx : Context) : Prop :=
  ∀ s t, schema.fields.lookup s = some t →
    literalMatches t (ctx.get s) = true ∧ (ctx.get s).proper = true

theorem lists_kind (a : Operand) : schema.Lists (schema.kind a) := by
  cases a with
  | expr op args => trivial
  | raw v =>
    rw [kind]
    split_ifs with hf
    · cases hl : schema.fields.lookup ((fieldRef? v).getD "") <;> exact hl
    · cases v <;> trivial

variable {schema}

section

variable (hctx : schema.Binds ctx) (hk : schema.Lists k)
include hctx hk

/-- The values of an operand have the shape of its kind. -/
theorem Binds.shapeOf_value (hv : k.value ctx = some v) {x : Shape} (hx : k.shape = some x) :
    shapeOf v = some x := by
  cases k with
  | literal w => rwa [← Option.some.inj hv]
  | field s t =>
    rw [← Option.some.inj hv, shapeOf_of_literalMatches (hctx s t hk).1]
    exact hx
  | predicate =>
    rw [← Option.some.inj hv]
    exact hx
  | unknown s => cases hx
  | stray => cases hx

theorem Binds.orderList_isSome (h : k.sequences l = true) {xs ys : List Json}
    (hv : k.value ctx = some (.arr xs)) (hw : l.value ctx = some (.arr ys)) :
    (Json.orderList xs ys).isSome = true := by
  have hnil : (xs = [] ∨ ys = []) → (Json.orderList xs ys).isSome = true := by
    rintro (rfl | rfl)
    · cases ys <;> rfl
    · cases xs <;> rfl
  revert h
  fun_cases Kind.sequences k l
  · cases hv
    cases hw
    exact id
  · cases hv
    exact fun h => hnil (.inl (List.isEmpty_iff.mp h))
  · cases hw
    exact fun h => hnil (.inr (List.isEmpty_iff.mp h))
  next s t s' t' =>
    intro h
    obtain rfl : s = s' := of_decide_eq_true h
    have hself : Json.arr xs = .arr ys := Option.some.inj (hv.symm.trans hw)
    obtain rfl := Json.arr.inj hself
    have hproper : (Json.arr xs).proper = true := by
      rw [← Option.some.inj hv]
      exact (hctx s t hk).2
    rw [Json.orderList_self xs (by simpa [Json.proper] using hproper)]
    rfl
  · rintro ⟨⟩

/-- **An order operator that is defined on the kinds is defined on the values.** -/
theorem Binds.order_isSome (hl : schema.Lists l) (h : k.ordered l = true)
    (hv : k.value ctx = some v) (hw : l.value ctx = some w) : (Json.order v w).isSome = true := by
  rw [RuleDsl.order_isSome]
  revert h
  fun_cases Kind.ordered k l
  next hls hks => exact fun _ => .inl ⟨hctx.shapeOf_value hk hv hks, hctx.shapeOf_value hl hw hls⟩
  next hls hks =>
    exact fun _ => .inr (.inl ⟨hctx.shapeOf_value hk hv hks, hctx.shapeOf_value hl hw hls⟩)
  next hls hks =>
    intro h
    obtain ⟨xs, rfl⟩ := shapeOf_sequence.mp (hctx.shapeOf_value hk hv hks)
    obtain ⟨ys, rfl⟩ := shapeOf_sequence.mp (hctx.shapeOf_value hl hw hls)
    exact .inr (.inr ⟨xs, ys, rfl, rfl, hctx.orderList_isSome hk h hv hw⟩)
  · rintro ⟨⟩

theorem Binds.memberValues_ok (hl : schema.Lists l) (h : k.contains l = true) (op : Operator)
    (hv : k.value ctx = some v) (hw : l.value ctx = some w) : ∃ b, memberValues op v w = .ok b := by
  rw [RuleDsl.memberValues_ok]
  revert h
  fun_cases Kind.contains k l
  next hls => exact fun _ => .inl (hctx.shapeOf_value hl hw hls)
  next hls =>
    exact fun h => .inr ⟨hctx.shapeOf_value hl hw hls,
      hctx.shapeOf_value hk hv (of_decide_eq_true h)⟩
  · rintro ⟨⟩

end

/-! ## Contexts in which an undefined operator raises -/

def sampleValue (items : List Json) : FieldType → Json
  | .string | .datetime => .str ""
  | .number => .int 0
  | .boolean => .bool false
  | .list => .arr items

variable (schema) in
/-- A context that binds the declared fields and nothing else. -/
def sample (lists : String → List Json) : Context := fun s =>
  (schema.fields.lookup s).map (sampleValue (lists s))

theorem get_sample {s : String} (h : schema.fields.lookup s = some t) :
    (schema.sample lists).get s = sampleValue (lists s) t := by
  simp [Context.get, sample, h]

theorem binds_sample (h : ∀ s, Json.properList (lists s) = true) :
    schema.Binds (schema.sample lists) := by
  intro s t ht
  rw [get_sample ht]
  cases t <;> simp [sampleValue, literalMatches, Json.proper, h]

theorem shapeOf_sample (hk : schema.Lists k) (hv : k.value (schema.sample lists) = some v) :
    shapeOf v = k.shape := by
  cases k with
  | literal w => rw [← Option.some.inj hv]; rfl
  | field s t =>
    rw [← Option.some.inj hv, get_sample hk]
    cases t <;> rfl
  | predicate =>
    rw [← Option.some.inj hv]
    rfl
  | unknown s =>
    have hnone : schema.fields.lookup s = none := hk
    have hget : (schema.sample lists).get s = .null := by simp [Context.get, sample, hnone]
    rw [← Option.some.inj hv, hget]
    rfl
  | stray => cases hv

/-- A value that is neither equal to the given one nor in order with it. -/
def misfit : Json → Json
  | .null => .obj []
  | _ => .null

theorem orderList_misfit (x : Json) (xs ys : List Json) :
    Json.orderList (x :: xs) (misfit x :: ys) = none ∧
      Json.orderList (misfit x :: ys) (x :: xs) = none := by
  cases x <;> simp [misfit, Json.orderList, Json.eq, Json.order, Json.number?]

theorem proper_misfit (x : Json) : Json.properList [misfit x] = true := by
  cases x <;> rfl

section

variable (hk : schema.Lists k) (hl : schema.Lists l)
include hk hl

/-- Lists that may be out of order are so in some context. -/
theorem exists_unordered_lists
    (hks : k.shape = some .sequence) (hls : l.shape = some .sequence) (h : k.sequences l = false) :
    ∃ ctx, schema.Binds ctx ∧ ∀ xs ys, k.value ctx = some (.arr xs) → l.value ctx = some (.arr ys) →
      Json.orderList xs ys = none := by
  have hlist : ∀ {s t} {f : String → List Json} {xs}, (Kind.field s t).shape = some .sequence →
      schema.Lists (.field s t) → (Kind.field s t).value (schema.sample f) = some (.arr xs) →
      xs = f s := by
    intro s t f xs hs hlook hv
    cases t with
    | list => exact Json.arr.inj ((Option.some.inj hv).symm.trans (get_sample hlook))
    | string | number | boolean | datetime => cases hs
  rcases Kind.shape_sequence hks with ⟨us, rfl⟩ | ⟨s, t, rfl⟩ <;>
    rcases Kind.shape_sequence hls with ⟨ws, rfl⟩ | ⟨s', t', rfl⟩
  · refine ⟨_, binds_sample fun _ => (rfl : Json.properList [] = true), fun xs ys hv hw => ?_⟩
    cases hv
    cases hw
    simpa [Kind.sequences] using h
  · match us with
    | [] => cases h
    | u :: us =>
      refine ⟨_, binds_sample fun _ => proper_misfit u, fun xs ys hv hw => ?_⟩
      cases hv
      rw [hlist hls hl hw]
      exact (orderList_misfit u us []).1
  · match ws with
    | [] => cases h
    | u :: us =>
      refine ⟨_, binds_sample fun _ => proper_misfit u, fun xs ys hv hw => ?_⟩
      cases hw
      rw [hlist hks hk hv]
      exact (orderList_misfit u us []).2
  · have hne : s' ≠ s := fun he => of_decide_eq_false h he.symm
    refine ⟨schema.sample fun r => if r = s then [.null] else [misfit .null],
      binds_sample fun r => ?_, fun xs ys hv hw => ?_⟩
    · split_ifs
      · rfl
      · exact proper_misfit .null
    · rw [hlist hks hk hv, hlist hls hl hw, if_pos rfl, if_neg hne]
      exact (orderList_misfit .null [] []).1

/-- **An order operator that is not defined on the kinds raises in some context.** -/
theorem exists_unordered (h : k.ordered l = false) :
    ∃ ctx, schema.Binds ctx ∧
      ∀ v w, k.value ctx = some v → l.value ctx = some w → ¬ (Json.order v w).isSome = true := by
  by_cases hseq : k.shape = some .sequence ∧ l.shape = some .sequence
  · rw [Kind.ordered, hseq.1, hseq.2] at h
    obtain ⟨ctx, hctx, hnone⟩ := exists_unordered_lists hk hl hseq.1 hseq.2 h
    refine ⟨ctx, hctx, fun v w hv hw hsome => ?_⟩
    obtain ⟨xs, rfl⟩ := shapeOf_sequence.mp (hctx.shapeOf_value hk hv hseq.1)
    obtain ⟨ys, rfl⟩ := shapeOf_sequence.mp (hctx.shapeOf_value hl hw hseq.2)
    rw [Json.order, hnone xs ys hv hw] at hsome
    cases hsome
  · have hbinds : schema.Binds (schema.sample fun _ => []) := binds_sample fun _ => rfl
    refine ⟨_, hbinds, fun v w hv hw hsome => ?_⟩
    have hvs := shapeOf_sample hk hv
    have hws := shapeOf_sample hl hw
    rcases RuleDsl.order_isSome.mp hsome with ⟨h₁, h₂⟩ | ⟨h₁, h₂⟩ | ⟨xs, ys, rfl, rfl, -⟩
    · rw [Kind.ordered, ← hvs, ← hws, h₁, h₂] at h
      cases h
    · rw [Kind.ordered, ← hvs, ← hws, h₁, h₂] at h
      cases h
    · exact hseq ⟨hvs.symm, hws.symm⟩

theorem exists_not_member (h : k.contains l = false)
    (op : Operator) : ∃ ctx, schema.Binds ctx ∧
      ∀ v w, k.value ctx = some v → l.value ctx = some w → ¬ ∃ b, memberValues op v w = .ok b := by
  have hbinds : schema.Binds (schema.sample fun _ => []) := binds_sample fun _ => rfl
  refine ⟨_, hbinds, fun v w hv hw hok => ?_⟩
  have hvs := shapeOf_sample hk hv
  have hws := shapeOf_sample hl hw
  rcases RuleDsl.memberValues_ok.mp hok with h₁ | ⟨h₁, h₂⟩
  · rw [Kind.contains, ← hws, h₁] at h
    cases h
  · rw [Kind.contains, ← hws, h₁, ← hvs, h₂] at h
    cases h

end

end ContextSchema

/-! ## Nodes -/

def Kind.fit (op : Operator) (k l : Kind) : Bool :=
  k.hasValue && l.hasValue &&
    (if op.ordering then k.ordered l else if op.membership then k.contains l else true)

namespace ContextSchema

/-- **An operator that fits the kinds is defined on the values.** -/
theorem Binds.applyBinary_ok (hctx : schema.Binds ctx) (hop : op.binary = true)
    (hk : schema.Lists k) (hl : schema.Lists l) (h : Kind.fit op k l = true)
    (hv : k.value ctx = some v) (hw : l.value ctx = some w) : ∃ b, applyBinary op v w = .ok b := by
  rw [Kind.fit, Bool.and_eq_true] at h
  rcases op.binary_cases hop with ⟨ho, hm⟩ | ⟨ho, hm⟩ | he
  · rw [if_pos ho] at h
    rw [applyBinary, if_neg (by simp [hm])]
    exact (compareValues_ok ho).mpr (hctx.order_isSome hk hl h.2 hv hw)
  · rw [if_neg (by simp [ho]), if_pos hm] at h
    rw [applyBinary, if_pos hm]
    exact hctx.memberValues_ok hk hl h.2 op hv hw
  · rcases he with rfl | rfl
    · exact ⟨_, rfl⟩
    · exact ⟨_, rfl⟩

/-- **An operator that does not fit the kinds raises in some context.** -/
theorem exists_not_applied (hop : op.binary = true) (hk : schema.Lists k)
    (hl : schema.Lists l) (h : Kind.fit op k l = false) : ∃ ctx, schema.Binds ctx ∧
      ∀ v w, k.value ctx = some v → l.value ctx = some w → ¬ ∃ b, applyBinary op v w = .ok b := by
  have hbinds : schema.Binds (schema.sample fun _ => []) := binds_sample fun _ => rfl
  by_cases hval : k.hasValue = true ∧ l.hasValue = true
  swap
  · refine ⟨_, hbinds, fun v w hv hw => absurd ?_ hval⟩
    rw [← Kind.isSome_value (schema.sample fun _ => []), hv,
      ← Kind.isSome_value (schema.sample fun _ => []), hw]
    exact ⟨rfl, rfl⟩
  rw [Kind.fit, hval.1, hval.2, Bool.and_self, Bool.true_and] at h
  rcases op.binary_cases hop with ⟨ho, hm⟩ | ⟨ho, hm⟩ | he
  · rw [if_pos ho] at h
    obtain ⟨ctx, hctx, hno⟩ := exists_unordered hk hl h
    refine ⟨ctx, hctx, fun v w hv hw hok => hno v w hv hw ?_⟩
    rw [applyBinary, if_neg (by simp [hm])] at hok
    exact (compareValues_ok ho).mp hok
  · rw [if_neg (by simp [ho]), if_pos hm] at h
    obtain ⟨ctx, hctx, hno⟩ := exists_not_member hk hl h op
    refine ⟨ctx, hctx, fun v w hv hw hok => hno v w hv hw ?_⟩
    rwa [applyBinary, if_pos hm] at hok
  · rcases he with rfl | rfl <;> cases h

theorem rawValue_ref (h : isFieldRef v = true) :
    rawValue ctx v = .ok (ctx.get ((fieldRef? v).getD "")) := by
  cases v with
  | obj fields => rw [rawValue, if_pos h]
  | null | bool | int | float | str | arr => cases h

/-- An operand stands for what its kind says. -/
theorem valueIn_eq (schema : ContextSchema) (ctx : Context) (a : Operand) :
    a.valueIn ctx = (schema.kind a).value ctx := by
  cases a with
  | expr op args => rfl
  | raw v =>
    rw [Operand.valueIn, kind]
    split_ifs with hf
    · rw [rawValue_ref hf]
      cases schema.fields.lookup ((fieldRef? v).getD "") <;> rfl
    · cases v with
      | obj fields =>
        rw [rawValue, if_neg hf]
        rfl
      | null | bool | int | float | str | arr => rfl

/-- **An operator fits the kinds of its operands exactly if it is defined on their values in every
context.** -/
theorem fit_iff (hop : op.binary = true) (a b : Operand) :
    Kind.fit op (schema.kind a) (schema.kind b) = true ↔
      ∀ ctx, schema.Binds ctx → ctx.pair op a b = true := by
  constructor
  · intro h ctx hctx
    have hvals := h
    rw [Kind.fit, Bool.and_eq_true, Bool.and_eq_true, ← Kind.isSome_value ctx,
      ← Kind.isSome_value ctx] at hvals
    obtain ⟨v, hv⟩ := Option.isSome_iff_exists.mp hvals.1.1
    obtain ⟨w, hw⟩ := Option.isSome_iff_exists.mp hvals.1.2
    refine pair_iff.mpr ⟨v, w, (valueIn_eq schema ctx a).trans hv,
      (valueIn_eq schema ctx b).trans hw, isOk_iff.mpr ?_⟩
    exact hctx.applyBinary_ok hop (schema.lists_kind a) (schema.lists_kind b) h hv hw
  · intro h
    by_contra hno
    obtain ⟨ctx, hctx, hraise⟩ := exists_not_applied hop (schema.lists_kind a)
      (schema.lists_kind b) (Bool.eq_false_iff.mpr hno)
    obtain ⟨v, w, hv, hw, hok⟩ := pair_iff.mp (h ctx hctx)
    exact hraise v w ((valueIn_eq schema ctx a).symm.trans hv)
      ((valueIn_eq schema ctx b).symm.trans hw) (isOk_iff.mp hok)

variable (schema) in
/-- The node can be evaluated as far as its operator and the kinds of its operands tell. -/
def defined (e : Expr) : Bool :=
  nodeDefined (fun op a b => Kind.fit op (schema.kind a) (schema.kind b)) e

/-- **A node is defined exactly if it is defined in every context.** -/
theorem defined_iff {e : Expr} :
    schema.defined e = true ↔ ∀ ctx, schema.Binds ctx → ctx.defined e = true := by
  obtain ⟨op, args⟩ := e
  have hsample : schema.Binds (schema.sample fun _ => []) := binds_sample fun _ => rfl
  by_cases hop : op.binary = true
  · rw [defined, nodeDefined_binary hop]
    constructor
    · rintro ⟨a, b, rfl, hfit⟩ ctx hctx
      exact (nodeDefined_binary hop _).mpr ⟨a, b, rfl, (fit_iff hop a b).mp hfit ctx hctx⟩
    · intro h
      obtain ⟨a, b, rfl, -⟩ := (nodeDefined_binary hop args).mp (h _ hsample)
      refine ⟨a, b, rfl, (fit_iff hop a b).mpr fun ctx hctx => ?_⟩
      obtain ⟨a', b', hargs, hpair⟩ := (nodeDefined_binary hop _).mp (h ctx hctx)
      cases hargs
      exact hpair
  · have hsame : ∀ ctx : Context, ctx.defined ⟨op, args⟩ = schema.defined ⟨op, args⟩ :=
      fun ctx => nodeDefined_congr hop args
    exact ⟨fun h ctx _ => (hsame ctx).trans h, fun h => (hsame _).symm.trans (h _ hsample)⟩

end ContextSchema

end BbzPlatform.RuleDsl
