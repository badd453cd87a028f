import BbzPlatform.RuleDsl.Definedness
import Mathlib.Logic.Relation

/-!
# What an expression says, and what its evaluation comes to

Read as a formula an expression has a truth value in every context, whatever the order in which
its parts are looked at.  The evaluation goes from left to right, stops where `and` or `or` is
decided, and raises at a node that is nested too deep or not defined.  Which operands it comes to
is told by the formulas that stand before them.

An expression returns exactly if every node the evaluation comes to has room and is defined, and
then it returns the truth value of the formula.  If all expressions in it are evaluated on their
own, each where it stands, then all nodes have to be defined.
-/

namespace BbzPlatform.RuleDsl

open Raising List Relation

/-! ## Formulas -/

/-- A truth value that is there, and true. -/
def isTrue (r : Except DslError Bool) : Bool := r.toOption.getD false

/-- The truth of a node from the truth and the values of its operands. -/
def nodeHolds (ctx : Context) (op : Operator) (args : List Operand) (truths : List Bool)
    (values : List (Option Json)) : Bool :=
  match op with
  | .andOp => truths.all id
  | .orOp => truths.any id
  | .notOp => !truths.all id
  | .existsOp => isTrue (fieldExists ctx args)
  | op =>
    match values with
    | [some v, some w] => isTrue (applyBinary op v w)
    | _ => false

mutual

/-- The truth of an operand, as a formula. -/
def Operand.holds (ctx : Context) : Operand → Bool
  | .expr op args => nodeHolds ctx op args (holdsOf ctx args) (readsOf ctx args)
  | .raw v => rawTruthy ctx v

/-- The value of an operand, as a formula; a stray object has none. -/
def Operand.reads (ctx : Context) : Operand → Option Json
  | .expr op args => some (.bool (nodeHolds ctx op args (holdsOf ctx args) (readsOf ctx args)))
  | .raw v => (rawValue ctx v).toOption

def holdsOf (ctx : Context) : List Operand → List Bool
  | [] => []
  | a :: rest => a.holds ctx :: holdsOf ctx rest

def readsOf (ctx : Context) : List Operand → List (Option Json)
  | [] => []
  | a :: rest => a.reads ctx :: readsOf ctx rest

end

/-- The truth of an expression, as a formula. -/
def Expr.holds (ctx : Context) (e : Expr) : Bool := (Operand.expr e.op e.args).holds ctx

/-- Evaluate an expression where it stands. -/
def evalAt (ctx : Context) (p : ℕ × Expr) : Except DslError Bool :=
  evalNode ctx p.1 p.2.op p.2.args (truths ctx p.1 p.2.args) (values ctx p.1 p.2.args)

variable {ctx : Context} {depth : ℕ} {op : Operator} {args : List Operand} {a : Operand}
  {p q : ℕ × Expr} {b x : Bool} {v : Json} {e : Expr}

theorem holdsOf_eq (ctx : Context) (args : List Operand) :
    holdsOf ctx args = args.map (·.holds ctx) := by
  induction args with
  | nil => rfl
  | cons a args ih => simp [holdsOf, ih]

/-- Truth values are read as long as they are `x`. -/
def readWhile (x : Bool) : List (Except DslError Bool) → Except DslError Bool
  | [] => .ok x
  | r :: rest => do
      let b ← r
      if b = x then readWhile x rest else .ok b

/-- The truth value behind which `and` and `or` look at the next operand. -/
def Operator.goesOn : Operator → Option Bool
  | .andOp => some true
  | .orOp => some false
  | _ => none

/-- `and` and `or` read the truth values of their operands, of which there has to be one. -/
theorem evalNode_reads (hop : op.goesOn = some x) (hd : depth ≤ maxDepth) :
    evalNode ctx depth op args (truths ctx depth args) (values ctx depth args) =
      if args = [] then .error (.takesAtLeast op 1 0)
      else readWhile x (args.map (operandTruthy ctx depth)) := by
  have hd' : ¬ maxDepth < depth := Nat.not_lt.mpr hd
  have hall : ∀ rs, allTrue rs = readWhile true rs := fun rs => by
    induction rs with
    | nil => rfl
    | cons r rs ih => obtain e | (_ | _) := r <;> first | rfl | exact ih
  have hany : ∀ rs, anyTrue rs = readWhile false rs := fun rs => by
    induction rs with
    | nil => rfl
    | cons r rs ih => obtain e | (_ | _) := r <;> first | rfl | exact ih
  rw [← truths_eq]
  cases op with
  | andOp | orOp =>
    cases hop
    cases args <;> simp [evalNode, hd', hall, hany]
  | eq | ne | lt | lte | gt | gte | inOp | notInOp | notOp | existsOp => cases hop

/-- How a node returns: a comparison of two values, `and` or `or` of some operands, `not` of one, or
`exists` of a field. -/
theorem evalNode_inv
    (h : evalNode ctx depth op args (truths ctx depth args) (values ctx depth args) = .ok b) :
    (op.binary = true ∧ ∃ a c v w, args = [a, c] ∧ operandValue ctx depth a = .ok v ∧
      operandValue ctx depth c = .ok w ∧ applyBinary op v w = .ok b) ∨
    (∃ x, op.goesOn = some x ∧ args ≠ [] ∧
      readWhile x (args.map (operandTruthy ctx depth)) = .ok b) ∨
    (op = .notOp ∧ ∃ a c, args = [a] ∧ operandTruthy ctx depth a = .ok c ∧ (!c) = b) ∨
    op = .existsOp ∧ (∃ v, args = [.raw v] ∧ isFieldRef v = true) ∧
      fieldExists ctx args = .ok b := by
  have hroom := room_of_ok h
  have hd := Nat.not_lt.mpr hroom
  have hreads : ∀ x, op.goesOn = some x → args ≠ [] ∧
      readWhile x (args.map (operandTruthy ctx depth)) = .ok b := by
    intro x hx
    rw [evalNode_reads hx hroom] at h
    split_ifs at h with hnil
    exact ⟨hnil, h⟩
  cases op with
  | eq | ne | lt | lte | gt | gte | inOp | notInOp => exact .inl ⟨rfl, evalNode_binary_inv rfl h⟩
  | andOp | orOp => exact .inr (.inl ⟨_, rfl, hreads _ rfl⟩)
  | notOp =>
    obtain _ | ⟨a, _ | ⟨c, rest⟩⟩ := args
    · simp [evalNode, hd, truths] at h
    · simp only [evalNode, if_neg hd, truths, bind_eq_ok, Except.ok.injEq] at h
      obtain ⟨c, hc, hb⟩ := h
      exact .inr (.inr (.inl ⟨rfl, a, c, rfl, hc, hb⟩))
    · simp [evalNode, hd, truths] at h
  | existsOp =>
    have hex : fieldExists ctx args = .ok b := by simpa only [evalNode, if_neg hd] using h
    refine .inr (.inr (.inr ⟨rfl, ?_, hex⟩))
    obtain _ | ⟨_ | v, _ | ⟨b, rest⟩⟩ := args
    case cons.raw.nil =>
      refine ⟨v, rfl, ?_⟩
      by_contra hf
      simp [fieldExists, hf] at hex
    all_goals simp [fieldExists] at hex

/-- **A node that returns is defined.** -/
theorem defined_of_evalNode
    (h : evalNode ctx depth op args (truths ctx depth args) (values ctx depth args) = .ok b) :
    ctx.defined ⟨op, args⟩ = true := by
  rcases evalNode_inv h with ⟨hop, a, c, v, w, rfl, hv, hw, happ⟩ | ⟨x, hx, hne, -⟩ |
    ⟨rfl, a, c, rfl, -⟩ | ⟨rfl, ⟨v, rfl, hf⟩, -⟩
  · obtain ⟨v', hv', hav⟩ := valueIn_of_ok hv
    obtain ⟨w', hw', haw⟩ := valueIn_of_ok hw
    refine (nodeDefined_binary hop _).mpr ⟨a, c, rfl, pair_iff.mpr ⟨v', w', hv', hw', ?_⟩⟩
    rw [← hav.applyBinary_isOk hop haw]
    exact isOk_iff.mpr ⟨b, happ⟩
  · cases op with
    | andOp | orOp => simpa [Context.defined, nodeDefined] using hne
    | eq | ne | lt | lte | gt | gte | inOp | notInOp | notOp | existsOp => cases hx
  · rfl
  · exact hf

section ReadWhile

variable {f : Operand → Except DslError Bool} {h : Operand → Bool}
  (hf : ∀ a ∈ args, ∀ c, f a = .ok c → h a = c)
include hf

/-- What is read is `x` exactly if all operands are. -/
theorem readWhile_holds (hr : readWhile x (args.map f) = .ok b) :
    b = x ↔ ∀ a ∈ args, h a = x := by
  induction args with
  | nil => simp [← Except.ok.inj hr]
  | cons a args ih =>
    obtain ⟨ha, hargs⟩ := forall_mem_cons.mp hf
    rw [map_cons, readWhile, bind_eq_ok] at hr
    obtain ⟨c, hc, hr⟩ := hr
    rw [forall_mem_cons, ha c hc]
    by_cases hx : c = x
    · rw [if_pos hx] at hr
      simp [hx, ih hargs hr]
    · rw [if_neg hx] at hr
      simp [← Except.ok.inj hr, hx]

theorem readWhile_ok_iff :
    (∃ b, readWhile x (args.map f) = .ok b) ↔ ∀ before a after, args = before ++ a :: after →
      (∀ b ∈ before, h b = x) → ∃ b, f a = .ok b := by
  induction args with
  | nil => simp [readWhile]
  | cons a args ih =>
    obtain ⟨ha, hargs⟩ := forall_mem_cons.mp hf
    simp only [map_cons, readWhile, bind_eq_ok]
    constructor
    · rintro ⟨b, c, hc, hr⟩ before a' after heq hbefore
      cases before with
      | nil => exact (cons.inj heq).1 ▸ ⟨c, hc⟩
      | cons y before =>
        obtain ⟨rfl, rfl⟩ := cons.inj heq
        obtain ⟨hy, hbefore⟩ := forall_mem_cons.mp hbefore
        rw [if_pos ((ha c hc).symm.trans hy)] at hr
        exact (ih hargs).mp ⟨b, hr⟩ before a' after rfl hbefore
    · intro hall
      obtain ⟨c, hc⟩ := hall [] a args rfl nofun
      by_cases hx : c = x
      · obtain ⟨b, hb⟩ := (ih hargs).mpr fun before a' after heq hbefore =>
          hall (a :: before) a' after (by rw [heq]; rfl)
            (forall_mem_cons.mpr ⟨(ha c hc).trans hx, hbefore⟩)
        exact ⟨b, c, hc, (if_pos hx).trans hb⟩
      · exact ⟨c, c, hc, if_neg hx⟩

end ReadWhile

theorem nodeHolds_of_evalNode
    (hargs : ∀ a ∈ args, (∀ c, operandTruthy ctx depth a = .ok c → a.holds ctx = c) ∧
      ∀ v, operandValue ctx depth a = .ok v → a.reads ctx = some v)
    (h : evalNode ctx depth op args (truths ctx depth args) (values ctx depth args) = .ok b) :
    nodeHolds ctx op args (holdsOf ctx args) (readsOf ctx args) = b := by
  have htruths : ∀ a ∈ args, ∀ c, operandTruthy ctx depth a = .ok c → a.holds ctx = c :=
    fun a ha => (hargs a ha).1
  rcases evalNode_inv h with ⟨hop, l, r, v, w, rfl, hv, hw, happ⟩ | ⟨x, hx, -, hread⟩ |
    ⟨rfl, a, c, rfl, hc, rfl⟩ | ⟨rfl, -, hex⟩
  · have hl := (hargs l (by simp)).2 v hv
    have hr := (hargs r (by simp)).2 w hw
    have hreads : readsOf ctx [l, r] = [some v, some w] := by simp [readsOf, hl, hr]
    have htrue : isTrue (applyBinary op v w) = b := by simp [isTrue, happ, Except.toOption]
    rw [hreads]
    cases op with
    | eq | ne | lt | lte | gt | gte | inOp | notInOp => exact htrue
    | andOp | orOp | notOp | existsOp => cases hop
  · have hiff := readWhile_holds htruths hread
    cases op with
    | andOp =>
      cases hx
      rw [nodeHolds, holdsOf_eq, Bool.eq_iff_iff, hiff]
      simp
    | orOp =>
      cases hx
      rw [nodeHolds, holdsOf_eq, ← Bool.not_inj_iff, Bool.eq_iff_iff, Bool.not_eq_true',
        Bool.not_eq_true', hiff]
      simp
    | eq | ne | lt | lte | gt | gte | inOp | notInOp | notOp | existsOp => cases hx
  · simp [nodeHolds, holdsOf, htruths a mem_cons_self c hc]
  · simp [nodeHolds, isTrue, hex, Except.toOption]

/-- **What is evaluated is the formula.** -/
theorem reads_of_ok (a : Operand) (depth : ℕ) :
    (∀ c, operandTruthy ctx depth a = .ok c → a.holds ctx = c) ∧
      ∀ v, operandValue ctx depth a = .ok v → a.reads ctx = some v := by
  induction a using Operand.induction generalizing depth with
  | raw w =>
    constructor
    · intro c hc
      rw [operandTruthy] at hc
      exact Except.ok.inj hc
    · intro v hv
      rw [operandValue] at hv
      rw [Operand.reads, hv]
      rfl
  | expr op args ih =>
    have hnode : ∀ c, evalNode ctx (depth + 1) op args (truths ctx (depth + 1) args)
        (values ctx (depth + 1) args) = .ok c →
        nodeHolds ctx op args (holdsOf ctx args) (readsOf ctx args) = c :=
      fun c => nodeHolds_of_evalNode fun a ha => ih a ha (depth + 1)
    constructor
    · intro c hc
      rw [operandTruthy] at hc
      exact hnode c hc
    · intro v hv
      rw [operandValue, bind_eq_ok] at hv
      obtain ⟨c, hc, hv⟩ := hv
      rw [Operand.reads, hnode c hc, Except.ok.inj hv]

theorem holds_of_evalAt (h : evalAt ctx p = .ok b) : p.2.holds ctx = b :=
  nodeHolds_of_evalNode (fun a _ => reads_of_ok a p.1) h

/-! ## What the evaluation comes to -/

/-- Behind this operand the next one is looked at. -/
def Continues (ctx : Context) (op : Operator) (a : Operand) : Prop :=
  ∀ x, op.goesOn = some x → a.holds ctx = x

/-- The evaluation of an expression comes to the operand; `exists` does not evaluate its own. -/
def ComesTo (ctx : Context) (e : Expr) (a : Operand) : Prop :=
  e.op ≠ .existsOp ∧ ∃ before after, e.args = before ++ a :: after ∧
    ∀ b ∈ before, Continues ctx e.op b

/-- The evaluation of a node goes on with a node inside. -/
def Enters (ctx : Context) (p q : ℕ × Expr) : Prop :=
  ∃ op args, ComesTo ctx p.2 (.expr op args) ∧ q = (p.1 + 1, ⟨op, args⟩)

/-- The nodes that the evaluation of an expression comes to, with their depth. -/
def Reached (ctx : Context) (e : Expr) (q : ℕ × Expr) : Prop :=
  ReflTransGen (Enters ctx) (0, e) q

theorem ComesTo.mem (h : ComesTo ctx e a) : a ∈ e.args := by
  obtain ⟨-, before, after, heq, -⟩ := h
  simp [heq]

theorem truthy_of_value (h : operandValue ctx depth a = .ok v) :
    ∃ b, operandTruthy ctx depth a = .ok b := by
  cases a with
  | raw w => exact ⟨_, by rw [operandTruthy]⟩
  | expr op args =>
    rw [operandValue, bind_eq_ok] at h
    obtain ⟨b, hb, -⟩ := h
    exact ⟨b, by rw [operandTruthy, hb]⟩

/-- **A defined node returns**, if the operands it comes to do. -/
theorem evalNode_ok (hd : depth ≤ maxDepth) (h : ctx.defined ⟨op, args⟩ = true)
    (hargs : ∀ a, ComesTo ctx ⟨op, args⟩ a → ∃ b, operandTruthy ctx depth a = .ok b) :
    ∃ b, evalNode ctx depth op args (truths ctx depth args) (values ctx depth args) = .ok b := by
  have hd' : ¬ maxDepth < depth := Nat.not_lt.mpr hd
  have htruths : ∀ a ∈ args, ∀ c, operandTruthy ctx depth a = .ok c → a.holds ctx = c :=
    fun a _ => (reads_of_ok a depth).1
  by_cases hop : op.binary = true
  · obtain ⟨a, b, rfl, hpair⟩ := (nodeDefined_binary hop args).mp h
    obtain ⟨v', w', hv', hw', hok⟩ := pair_iff.mp hpair
    have hcomes : ∀ c ∈ [a, b], ComesTo ctx ⟨op, [a, b]⟩ c := by
      intro c hc
      have hgoes : Continues ctx op a ∧ op ≠ .existsOp := by
        cases op with
        | eq | ne | lt | lte | gt | gte | inOp | notInOp => exact ⟨nofun, nofun⟩
        | andOp | orOp | notOp | existsOp => cases hop
      rcases mem_pair.mp hc with rfl | rfl
      · exact ⟨hgoes.2, [], [b], rfl, nofun⟩
      · exact ⟨hgoes.2, [a], [], rfl, forall_mem_singleton.mpr hgoes.1⟩
    obtain ⟨v, hv, hav⟩ := ok_of_valueIn hv' (hargs a (hcomes a (by simp)))
    obtain ⟨w, hw, haw⟩ := ok_of_valueIn hw' (hargs b (hcomes b (by simp)))
    rw [evalNode_binary hop hd, hv, hw]
    rw [← hav.applyBinary_isOk hop haw] at hok
    exact isOk_iff.mp hok
  · cases op with
    | eq | ne | lt | lte | gt | gte | inOp | notInOp => exact absurd rfl hop
    | andOp | orOp =>
      cases args with
      | nil => cases h
      | cons a rest =>
        rw [evalNode_reads rfl hd, if_neg (cons_ne_nil a rest)]
        refine (readWhile_ok_iff htruths).mpr fun before b after heq hbefore =>
          hargs b ⟨nofun, before, after, heq, fun c hc x hx => ?_⟩
        exact (hbefore c hc).trans (Option.some.inj hx)
    | notOp =>
      obtain _ | ⟨a, _ | ⟨b, rest⟩⟩ := args
      · cases h
      · obtain ⟨b, hb⟩ := hargs a ⟨nofun, [], [], rfl, by simp⟩
        exact ⟨!b, by simp [evalNode, hd', truths, hb, bind, Except.bind]⟩
      · cases h
    | existsOp =>
      obtain _ | ⟨_ | v, _ | ⟨b, rest⟩⟩ := args
      case cons.raw.nil =>
        have hf : isFieldRef v = true := h
        simp [evalNode, hd', fieldExists, hf]
      all_goals cases h

theorem ComesTo.ok (h : ComesTo ctx p.2 a) (hp : evalAt ctx p = .ok b) :
    ∃ b, operandTruthy ctx p.1 a = .ok b := by
  obtain ⟨depth, op, args⟩ := p
  have hmem := h.mem
  obtain ⟨hexists, before, after, hargs, hbefore⟩ := h
  rcases evalNode_inv hp with ⟨-, l, r, v, w, rfl, hv, hw, -⟩ | ⟨x, hx, -, hread⟩ |
    ⟨rfl, c, d, rfl, hd, -⟩ | ⟨rfl, -⟩
  · rcases mem_pair.mp hmem with rfl | rfl
    · exact truthy_of_value hv
    · exact truthy_of_value hw
  · have htruths : ∀ a ∈ args, ∀ c, operandTruthy ctx depth a = .ok c → a.holds ctx = c :=
      fun a _ => (reads_of_ok a depth).1
    exact (readWhile_ok_iff htruths).mp ⟨b, hread⟩ before a after hargs
      fun c hc => hbefore c hc x hx
  · obtain rfl := mem_singleton.mp hmem
    exact ⟨d, hd⟩
  · exact absurd rfl hexists

/-- **The evaluation returns** exactly if every node it comes to has room and is defined. -/
theorem returns_iff : (∃ b, evalAt ctx p = .ok b) ↔
    ∀ q, ReflTransGen (Enters ctx) p q → q.1 ≤ maxDepth ∧ ctx.defined q.2 = true := by
  constructor
  · rintro ⟨b, hb⟩ q hpath
    induction hpath using ReflTransGen.head_induction_on generalizing b with
    | refl => exact ⟨room_of_ok hb, defined_of_evalNode hb⟩
    | head hstep _ ih =>
      obtain ⟨op, args, hcomes, rfl⟩ := hstep
      obtain ⟨c, hc⟩ := hcomes.ok hb
      exact ih c (by rwa [operandTruthy] at hc)
  · have hnode : ∀ (a : Operand) (depth : ℕ) (op : Operator) (args : List Operand),
        a = .expr op args → (∀ q, ReflTransGen (Enters ctx) (depth, ⟨op, args⟩) q →
          q.1 ≤ maxDepth ∧ ctx.defined q.2 = true) →
          ∃ b, evalAt ctx (depth, ⟨op, args⟩) = .ok b := by
      intro a
      induction a using Operand.induction with
      | raw v => rintro _ _ _ ⟨⟩
      | expr op args ih =>
        rintro depth _ _ ⟨⟩ h
        obtain ⟨hroom, hdefined⟩ := h _ .refl
        refine evalNode_ok hroom hdefined fun c hcomes => ?_
        cases c with
        | raw v => exact ⟨_, by rw [operandTruthy]⟩
        | expr op' args' =>
          rw [operandTruthy]
          exact ih _ hcomes.mem (depth + 1) op' args' rfl fun q hpath =>
            h q (.head ⟨op', args', hcomes, rfl⟩ hpath)
    exact hnode (.expr p.2.op p.2.args) p.1 _ _ rfl

/-! ## All expressions inside -/

/-- The nodes that the evaluation comes to are expressions inside, and not deeper than all. -/
theorem reached_bounds (h : ReflTransGen (Enters ctx) p q) :
    q.1 + q.2.depth ≤ p.1 + p.2.depth ∧ ∀ d ∈ q.2.subs, d ∈ p.2.subs := by
  induction h with
  | refl => exact ⟨le_rfl, fun d hd => hd⟩
  | @tail r s _ hstep ih =>
    obtain ⟨op, args, hcomes, rfl⟩ := hstep
    have hle : depthOf args + 1 ≤ depthOf r.2.args := depth_le_depthOf hcomes.mem
    have hdepth : r.1 + 1 + depthOf args ≤ r.1 + r.2.depth := by
      change _ ≤ r.1 + depthOf r.2.args
      omega
    refine ⟨hdepth.trans ih.1, fun d hd => ih.2 d ?_⟩
    rw [Expr.subs, Operand.subs]
    exact mem_cons_of_mem _ (mem_subsOf.mpr ⟨_, hcomes.mem, hd⟩)

theorem evalAt_ok (hd : p.1 + p.2.depth ≤ maxDepth) (h : ∀ d ∈ p.2.subs, ctx.defined d = true) :
    ∃ b, evalAt ctx p = .ok b := by
  refine returns_iff.mpr fun q hpath => ?_
  obtain ⟨hle, hsubs⟩ := reached_bounds hpath
  refine ⟨by omega, h _ (hsubs _ ?_)⟩
  rw [Expr.subs, Operand.subs]
  exact mem_cons_self

/-- **An expression and all expressions in it return** exactly if it is not nested too deep and
every node is defined. -/
theorem places_return_iff (e : Expr) (ctx : Context) :
    (∀ p ∈ e.places, ∃ b, evalAt ctx p = .ok b) ↔
      e.depth ≤ maxDepth ∧ ∀ d ∈ e.subs, ctx.defined d = true := by
  constructor
  · intro h
    constructor
    · by_cases hz : depthOf e.args = 0
      · exact hz.le.trans (Nat.zero_le _)
      · obtain ⟨a, ha, heq⟩ := exists_deepest hz
        obtain ⟨p, hp, hdeep⟩ := exists_deepest_place a 0 (by omega)
        obtain ⟨b, hb⟩ := h p (mem_cons_of_mem _ (mem_placesOf.mpr ⟨a, ha, hp⟩))
        have hroom := room_of_ok hb
        rwa [hdeep, Nat.zero_add, heq] at hroom
    · intro d hd
      rw [Expr.subs, Operand.subs] at hd
      rcases mem_cons.mp hd with rfl | hd
      · obtain ⟨b, hb⟩ := h _ mem_cons_self
        exact defined_of_evalNode hb
      · obtain ⟨a, ha, hd⟩ := mem_subsOf.mp hd
        obtain ⟨n, hn⟩ := exists_place a 0 hd
        obtain ⟨b, hb⟩ := h (n, d) (mem_cons_of_mem _ (mem_placesOf.mpr ⟨a, ha, hn⟩))
        exact defined_of_evalNode hb
  · rintro ⟨hd, h⟩ p hp
    rcases mem_cons.mp hp with rfl | hp
    · exact evalAt_ok (by simpa using hd) h
    · obtain ⟨a, ha, hp⟩ := mem_placesOf.mp hp
      obtain ⟨hle, hsub⟩ := place_bounds a 0 hp
      have hmax := depth_le_depthOf ha
      refine evalAt_ok ?_ fun d hd' => h d ?_
      · rw [Nat.zero_add] at hle
        exact hle.trans (hmax.trans hd)
      · rw [Expr.subs, Operand.subs]
        exact mem_cons_of_mem _ (mem_subsOf.mpr ⟨a, ha, hsub d hd'⟩)

end BbzPlatform.RuleDsl
