import BbzPlatform.RuleDsl.Reading

/-!
# Malformed expressions

Two promises of the rule language are not kept.  `parse` is to fail with a `RuleDslError` only, but
an operator that is a list or an object cannot be looked up at all.  And a malformed expression is
never to be true, but an object that is neither an expression nor a field reference counts as true,
unless it is empty, where it is an operand of `and`, `or` or `not`.

Such an operand makes the evaluation raise if, behind it and behind operands that do not decide the
connective either, there stands an expression that raises.  Where this is so can be told from the
expression and the values of its fields.
-/

namespace BbzPlatform.RuleDsl

/-! ## Parsing -/

/-- The parse comes to an operator that is a list or an object. -/
inductive Unhashable : Json → Prop where
  | here {fields : List (String × Json)} {op : Json} (hop : Json.get fields "op" = some op)
      (h : op.unhashable = true) : Unhashable (.obj fields)
  | inside {fields : List (String × Json)} {op : Operator} {before after : List Json} {v : Json}
      (hop : Json.get fields "op" = some (.str op.name))
      (hargs : argItems fields = some (before ++ v :: after)) (hbefore : ∀ w ∈ before, Shaped w)
      (h : Unhashable v) : Unhashable (.obj fields)

/-- All operators are allowed, and all field references name a field. -/
def Expr.WellFormed (e : Expr) : Prop :=
  ∀ d ∈ e.subs, d.op ∈ Operator.all ∧
    ∀ v, .raw v ∈ d.args → isFieldRef v = true → ∃ s, s ≠ "" ∧ fieldRef? v = some s

variable {fields : List (String × Json)} {items : List Json} {v : Json} {raised : Raised}
  {name : String} {ctx : Context} {p q : ℕ × Expr} {e : Expr}

/-- The arguments fail where the first of them does. -/
theorem parseItems_error : parseItems items = .error raised ↔
    ∃ before v after, items = before ++ v :: after ∧ (∀ w ∈ before, Shaped w) ∧
      parseOperand v = .error raised := by
  induction items with
  | nil => simp [parseItems]
  | cons v items ih =>
    rw [parseItems]
    cases hv : parseOperand v with
    | error e =>
      constructor
      · rintro ⟨⟩
        exact ⟨[], v, items, rfl, by simp, hv⟩
      · rintro ⟨before, w, after, heq, hbefore, hw⟩
        cases before with
        | nil =>
          cases heq
          cases hv.symm.trans hw
          rfl
        | cons x before =>
          cases heq
          obtain ⟨a, ha⟩ := shaped_iff.mp (hbefore v List.mem_cons_self)
          cases hv.symm.trans ha
    | ok a =>
      have hrest : (do let args ← parseItems items; Except.ok (a :: args)) = .error raised ↔
          parseItems items = .error raised := by
        cases parseItems items <;> simp [bind, Except.bind]
      refine hrest.trans (ih.trans ⟨?_, ?_⟩)
      · rintro ⟨before, w, after, rfl, hbefore, hw⟩
        exact ⟨v :: before, w, after, rfl, by simpa using ⟨shaped_iff.mpr ⟨a, hv⟩, hbefore⟩, hw⟩
      · rintro ⟨before, w, after, heq, hbefore, hw⟩
        cases before with
        | nil =>
          cases heq
          cases hv.symm.trans hw
        | cons x before =>
          cases heq
          exact ⟨before, w, after, rfl, fun y hy => hbefore y (List.mem_cons_of_mem _ hy), hw⟩

theorem parseOperand_unhashable : parseOperand v = .error (.unhashable name) ↔
    isNode v = true ∧ parse v = .error (.unhashable name) := by
  cases v with
  | obj fields =>
    rw [parseOperand, isNode, parse]
    split_ifs with hop hf
    · cases node fields (parseArgs fields) <;> simp [bind, Except.bind, hop]
    · unfold checkFieldRef
      grind
    · simp [hop]
  | _ => simp [parseOperand, isNode]

/-- The lookup of an operator raises a `TypeError` exactly if it is a list or an object. -/
theorem readOperator_unhashable {op : Json} :
    readOperator op = .error (.unhashable name) ↔ op.unhashable = true ∧ name = op.typeName := by
  unfold readOperator
  split_ifs with h
  · simp [h, eq_comm]
  · cases op with
    | str text => cases hname : Operator.ofName text <;> simp [h, hname]
    | _ => simp [h]

/-- **The parse raises a `TypeError`** exactly if it comes to an operator that is a list or an
object. -/
theorem parse_unhashable_iff (t : Json) :
    (∃ name, parse t = .error (.unhashable name)) ↔ Unhashable t := by
  constructor
  · rintro ⟨name, h⟩
    induction hk : sizeOf t using Nat.strong_induction_on generalizing t with
    | _ k ih =>
      subst hk
      cases t with
      | obj fields =>
        rw [parse, node] at h
        cases hop : Json.get fields "op" with
        | none => simp [hop] at h
        | some op =>
          simp only [hop] at h
          cases hread : readOperator op with
          | error raised =>
            rw [hread] at h
            cases h
            exact .here hop (readOperator_unhashable.mp hread).1
          | ok o =>
            obtain rfl := readOperator_ok.mp hread
            have hargs : parseArgs fields = .error (.unhashable name) := by
              cases hargs : parseArgs fields <;>
                simp_all [bind, Except.bind]
            rw [parseArgs_eq] at hargs
            cases hitems : argItems fields with
            | none => simp [hitems] at hargs
            | some items =>
              simp only [hitems] at hargs
              obtain ⟨before, v, after, rfl, hbefore, hv⟩ := parseItems_error.mp hargs
              have hlt : sizeOf v < sizeOf (Json.obj fields) :=
                sizeOf_lt_of_mem_argItems hitems (by simp)
              exact .inside hop hitems hbefore
                (ih _ hlt v (parseOperand_unhashable.mp hv).2 rfl)
      | _ => cases h
  · intro h
    induction h with
    | @here fields op hop h =>
      refine ⟨op.typeName, ?_⟩
      rw [parse, node, hop]
      simp [readOperator, h, bind, Except.bind]
    | @inside fields op before after v hop hargs hbefore hv ih =>
      obtain ⟨name, hname⟩ := ih
      have hnode : isNode v = true := by
        cases hv with
        | here hop | inside hop => simp [isNode, Json.has, hop]
      have hitems : parseItems (before ++ v :: after) = .error (.unhashable name) :=
        parseItems_error.mpr ⟨before, v, after, rfl, hbefore,
          parseOperand_unhashable.mpr ⟨hnode, hname⟩⟩
      refine ⟨name, ?_⟩
      rw [parse, node, hop]
      simp only [readOperator_ok.mpr rfl, parseArgs_eq, hargs, hitems]
      rfl

theorem wellFormed_of_parse {t : Json} {e : Expr} (h : parse t = .ok e) : e.WellFormed := by
  induction hk : sizeOf t using Nat.strong_induction_on generalizing t e with
  | _ k ih =>
    subst hk
    cases t with
    | obj fields =>
      obtain ⟨-, items, hitems, hall⟩ := parse_obj.mp h
      intro d hd
      have hmem : ∀ a ∈ e.args, ∃ v ∈ items, Parsed v a := by
        intro a ha
        obtain ⟨v, hv, hp⟩ := Rows.exists_of_forall₂ hall ha
        exact ⟨v, hv, parsed_iff.mp hp⟩
      rcases List.mem_cons.mp hd with rfl | hd
      · refine ⟨by cases e.op <;> decide, fun v hv hf => ?_⟩
        obtain ⟨w, -, hp⟩ := hmem _ hv
        cases hp with
        | field h => exact ⟨_, h.nonempty, h.names⟩
        | literal _ hf' => cases hf.symm.trans hf'
      · obtain ⟨a, ha, hd⟩ := mem_subsOf.mp hd
        obtain ⟨v, hv, hp⟩ := hmem a ha
        cases hp with
        | node _ hp => exact ih _ (sizeOf_lt_of_mem_argItems hitems hv) hp rfl d hd
        | field | literal => cases hd
    | _ => cases h

/-- **`parse` fails only with a `RuleDslError`, or returns a well-formed expression**, exactly if it
comes to no operator that is a list or an object. -/
theorem parse_fails_cleanly_iff (t : Json) : ((∀ e, parse t = .ok e → e.WellFormed) ∧
      ∀ raised, parse t = .error raised → ∃ e, raised = .dsl e) ↔ ¬ Unhashable t := by
  rw [← parse_unhashable_iff]
  constructor
  · rintro ⟨-, h⟩ ⟨name, hname⟩
    obtain ⟨e, he⟩ := h _ hname
    cases he
  · refine fun h => ⟨fun e => wellFormed_of_parse, fun raised hraised => ?_⟩
    cases raised with
    | dsl e => exact ⟨e, rfl⟩
    | unhashable name => exact absurd ⟨name, hraised⟩ h

def listOperator : Json := .obj [("op", .arr []), ("args", .arr [])]

/-- The parse of an operator that is a list raises a `TypeError`. -/
theorem list_operator_raises : parse listOperator = .error (.unhashable "list") := rfl

/-! ## Evaluation -/

/-- An object that is neither an expression nor a field reference. -/
def Stray (v : Json) : Prop :=
  (∃ fields, v = .obj fields) ∧ isNode v = false ∧ isFieldRef v = false

/-- The evaluation comes to a stray object as an operand of `and`, `or` or `not`. -/
def Malformed (ctx : Context) (e : Expr) : Prop :=
  ∃ q, Reached ctx e q ∧ q.2.op.connective = true ∧ ∃ v, ComesTo ctx q.2 (.raw v) ∧ Stray v

/-- The operand does not decide the operator.  Under `and` and `or` this is told of field
references and literals only, by their truth. -/
def Passes (ctx : Context) : Operator → Operand → Prop
  | .andOp, .raw v => rawTruthy ctx v = true
  | .orOp, .raw v => rawTruthy ctx v = false
  | .andOp, .expr _ _ | .orOp, .expr _ _ => False
  | _, _ => True

/-- The expression raises by its form and the values of its fields: it is nested too deep or not
defined, or so is an expression inside that stands behind passing operands. -/
inductive Doomed (ctx : Context) : ℕ × Expr → Prop where
  | deep {p : ℕ × Expr} (h : maxDepth < p.1) : Doomed ctx p
  | undefined {p : ℕ × Expr} (h : ctx.defined p.2 = false) : Doomed ctx p
  | inside {p : ℕ × Expr} {op : Operator} {before args after : List Operand}
      (hop : p.2.op ≠ .existsOp) (hargs : p.2.args = before ++ .expr op args :: after)
      (hbefore : ∀ b ∈ before, Passes ctx p.2.op b) (h : Doomed ctx (p.1 + 1, ⟨op, args⟩)) :
      Doomed ctx p

/-- Behind a stray operand of a connective, and behind operands that pass as it does, there stands
an expression that is doomed; or the connective itself is. -/
def StraysFail (ctx : Context) (e : Expr) : Prop :=
  ∀ p ∈ e.places, p.2.op.connective = true → ∀ before v after,
    p.2.args = before ++ .raw v :: after → Stray v →
      maxDepth < p.1 ∨ ctx.defined p.2 = false ∨
      ∃ mid op args rest, after = mid ++ .expr op args :: rest ∧
        (∀ b ∈ .raw v :: mid, Passes ctx p.2.op b) ∧ Doomed ctx (p.1 + 1, ⟨op, args⟩)

theorem Passes.continues {op : Operator} {a : Operand} (h : Passes ctx op a) :
    Continues ctx op a := by
  intro x hx
  cases op with
  | andOp | orOp =>
    cases hx
    cases a <;> first | exact h | exact h.elim
  | eq | ne | lt | lte | gt | gte | inOp | notInOp | notOp | existsOp => cases hx

/-- A node that goes on to a doomed one does not return. -/
theorem not_returns_of_comesTo {op : Operator} {args : List Operand}
    (h : ComesTo ctx p.2 (.expr op args))
    (hraise : ¬ ∃ b, evalAt ctx (p.1 + 1, ⟨op, args⟩) = .ok b) : ¬ ∃ b, evalAt ctx p = .ok b := by
  rintro ⟨b, hb⟩
  obtain ⟨c, hc⟩ := h.ok hb
  rw [operandTruthy] at hc
  exact hraise ⟨c, hc⟩

theorem Doomed.not_returns (h : Doomed ctx p) : ¬ ∃ b, evalAt ctx p = .ok b := by
  induction h with
  | deep h => exact fun hb => absurd ((returns_iff.mp hb) _ .refl).1 (Nat.not_le.mpr h)
  | undefined h => exact fun hb => absurd ((returns_iff.mp hb) _ .refl).2 (by simp [h])
  | inside hop hargs hbefore _ ih =>
    exact not_returns_of_comesTo
      ⟨hop, _, _, hargs, fun b hb => (hbefore b hb).continues⟩ ih

theorem place_inside {depth : ℕ} {op : Operator} {args : List Operand} (a : Operand)
    (hp : p ∈ a.places depth) (hmem : .expr op args ∈ p.2.args) :
    (p.1 + 1, ⟨op, args⟩) ∈ a.places depth := by
  induction a using Operand.induction generalizing depth with
  | raw v => simp [Operand.places] at hp
  | expr op' args' ih =>
    rw [Operand.places] at hp ⊢
    refine List.mem_cons_of_mem _ (mem_placesOf.mpr ?_)
    rcases List.mem_cons.mp hp with rfl | hp
    · exact ⟨_, hmem, by rw [Operand.places]; exact List.mem_cons_self⟩
    · obtain ⟨a, ha, hp⟩ := mem_placesOf.mp hp
      exact ⟨a, ha, ih a ha hp⟩

theorem Reached.mem_places (h : Reached ctx e q) : q ∈ e.places := by
  induction h with
  | refl => exact List.mem_cons_self
  | tail _ hstep ih =>
    obtain ⟨op, args, hcomes, rfl⟩ := hstep
    refine List.mem_cons_of_mem _ (mem_placesOf.mpr ?_)
    rcases List.mem_cons.mp ih with rfl | ih
    · exact ⟨_, hcomes.mem, by rw [Operand.places]; exact List.mem_cons_self⟩
    · obtain ⟨a, ha, hp⟩ := mem_placesOf.mp ih
      exact ⟨a, ha, place_inside a hp hcomes.mem⟩

/-- If an expression returns, so does every node that the evaluation comes to. -/
theorem Reached.returns (h : Reached ctx e q) (hb : ∃ b, evalAt ctx (0, e) = .ok b) :
    ∃ b, evalAt ctx q = .ok b :=
  returns_iff.mpr fun r hr => returns_iff.mp hb r (h.trans hr)

/-- **A stray operand with a doomed expression behind it makes the evaluation raise.** -/
theorem StraysFail.raises (h : StraysFail ctx e) (hm : Malformed ctx e) :
    ∃ err, evaluate e ctx = .error err := by
  obtain ⟨q, hq, hc, v, ⟨hop, before, after, hargs, hbefore⟩, hv⟩ := hm
  have hnot : ¬ ∃ b, evalAt ctx q = .ok b := by
    rcases h q hq.mem_places hc before v after hargs hv with
      hdeep | hdefined | ⟨mid, op, args, rest, rfl, hpass, hdoomed⟩
    · exact (Doomed.deep hdeep).not_returns
    · exact (Doomed.undefined hdefined).not_returns
    · refine not_returns_of_comesTo
        ⟨hop, before ++ .raw v :: mid, rest, by simp [hargs], fun b hb => ?_⟩ hdoomed.not_returns
      rcases List.mem_append.mp hb with hb | hb
      · exact hbefore b hb
      · exact (hpass b hb).continues
  cases hval : evaluate e ctx with
  | error err => exact ⟨err, rfl⟩
  | ok b => exact absurd (hq.returns ⟨b, hval⟩) hnot

end BbzPlatform.RuleDsl
