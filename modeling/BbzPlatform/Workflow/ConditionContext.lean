import BbzPlatform.RuleDsl.Reads
import BbzPlatform.Workflow.Service

/-!
# The context of branch conditions

The schema of workflow conditions and the context the service builds are written in two
packages.  Only three names are spelled the same in both.  The status, the source and the two
ids of the event are bound under other names, so that a condition on them reads `None`.
-/

namespace BbzPlatform.Workflow

open RuleDsl

/-- The names of the schema that stand for an attribute of the event or the instance. -/
def conditionNames : List String :=
  ["event_priority", "event_status", "event_source", "event_bbz_id", "event_workplace_id",
    "step_completed_count", "operator_confirmed"]

/-- The names that the service binds as the schema spells them. -/
def boundNames : List String := ["event_priority", "step_completed_count", "operator_confirmed"]

/-- A name has the same value in both contexts: it is spelled alike, or the attribute it
stands for is absent, which reads `None` in both. -/
def EventRow.BoundAlike (event : EventRow) (s : String) : Prop :=
  s ∈ boundNames ∨ s = "event_bbz_id" ∧ event.bbzId = none ∨
    s = "event_workplace_id" ∧ event.workplaceId = none

variable {ι : Type}

/-- The context that binds every name of the schema to its attribute. -/
def Instance.schemaContext (inst : Instance ι) (event : EventRow) : Context :=
  let optional (s : Option String) : Json := (s.map Json.str).getD .null
  let fields : List (String × Json) :=
    [("event_priority", .str event.priority), ("event_status", .str event.status),
      ("event_source", .str event.source), ("event_bbz_id", optional event.bbzId),
      ("event_workplace_id", optional event.workplaceId),
      ("step_completed_count", .int inst.results.length), ("operator_confirmed", .bool false)]
  fun k => fields.lookup k

variable {event : EventRow} {s : String}

theorem EventRow.BoundAlike.get_eq (h : event.BoundAlike s)
    (inst : Instance ι) : (inst.context (some event)).get s = (inst.schemaContext event).get s := by
  rcases h with h | ⟨rfl, h⟩ | ⟨rfl, h⟩
  · simp only [boundNames, List.mem_cons, List.not_mem_nil, or_false] at h
    rcases h with rfl | rfl | rfl <;> rfl
  · calc (inst.context (some event)).get "event_bbz_id" = .null := rfl
      _ = (event.bbzId.map Json.str).getD .null := by rw [h]; rfl
      _ = (inst.schemaContext event).get "event_bbz_id" := rfl
  · calc (inst.context (some event)).get "event_workplace_id" = .null := rfl
      _ = (event.workplaceId.map Json.str).getD .null := by rw [h]; rfl
      _ = (inst.schemaContext event).get "event_workplace_id" := rfl

/-- `exists` on a field, parsed. -/
def existsExpr (s : String) : Expr := ⟨.existsOp, [.raw (fieldJson s)]⟩

/-- `exists` says whether the field has a value. -/
theorem evaluate_existsExpr (s : String) (c : Context) :
    evaluate (existsExpr s) c = .ok true ↔ c.get s ≠ .null := by
  have h : evaluate (existsExpr s) c
      = fieldExists c [.raw (fieldJson s)] := rfl
  have href : isFieldRef (fieldJson s) = true := rfl
  have hname : (fieldRef? (fieldJson s)).getD "" = s := rfl
  rw [h, fieldExists, if_pos href, hname]
  cases c.get s <;> simp

/-- `exists` on a field of the event is an accepted condition that reads this field. -/
theorem exists_accepted (hs : s ∈ conditionNames) :
    workflowContext.validate (exprJson .existsOp [fieldJson s]) = .ok () ∧
      parse (exprJson .existsOp [fieldJson s]) = .ok (existsExpr s) ∧
      (existsExpr s).refs = [s] := by
  simp only [conditionNames, List.mem_cons, List.not_mem_nil, or_false] at hs
  rcases hs with rfl | rfl | rfl | rfl | rfl | rfl | rfl <;> exact ⟨rfl, rfl, rfl⟩

/-- A name that is not bound alike is missing at run time and has a value by the schema. -/
theorem get_differs (hs : s ∈ conditionNames) (hno : ¬ event.BoundAlike s) (inst : Instance ι) :
    (inst.context (some event)).get s = .null ∧ (inst.schemaContext event).get s ≠ .null := by
  simp only [conditionNames, List.mem_cons, List.not_mem_nil, or_false] at hs
  rcases hs with rfl | rfl | rfl | rfl | rfl | rfl | rfl
  · exact absurd (.inl (by decide)) hno
  · exact ⟨rfl, Json.noConfusion⟩
  · exact ⟨rfl, Json.noConfusion⟩
  · obtain ⟨b, hb⟩ := Option.ne_none_iff_exists'.mp fun h => hno (.inr (.inl ⟨rfl, h⟩))
    have hget : (inst.schemaContext event).get "event_bbz_id"
      = (event.bbzId.map Json.str).getD .null := rfl
    exact ⟨rfl, by simp [hget, hb]⟩
  · obtain ⟨w, hw⟩ := Option.ne_none_iff_exists'.mp fun h => hno (.inr (.inr ⟨rfl, h⟩))
    have hget : (inst.schemaContext event).get "event_workplace_id"
      = (event.workplaceId.map Json.str).getD .null := rfl
    exact ⟨rfl, by simp [hget, hw]⟩
  · exact absurd (.inl (by decide)) hno
  · exact absurd (.inl (by decide)) hno

/-- **Conditions over a vocabulary mean what the schema says** exactly if each of its names is
bound alike: then every accepted condition has the same outcome in the service's context and in
that of the schema. -/
theorem conditions_mean_schema_iff (names : List String) (inst : Instance ι) (event : EventRow) :
    (∀ tree e, workflowContext.validate tree = .ok () → parse tree = .ok e →
        (∀ s ∈ e.refs, s ∈ conditionNames ∧ s ∈ names) →
        evaluate e (inst.context (some event)) = evaluate e (inst.schemaContext event)) ↔
      ∀ s ∈ names, s ∈ conditionNames → event.BoundAlike s := by
  constructor
  · intro h s hs hname
    by_contra hno
    obtain ⟨hnull, hvalue⟩ := get_differs hname hno inst
    obtain ⟨hvalid, hparse, hrefs⟩ := exists_accepted hname
    have heq := h _ _ hvalid hparse fun s' hs' => by
      rw [hrefs, List.mem_singleton] at hs'
      exact hs' ▸ ⟨hname, hs⟩
    have htrue := (evaluate_existsExpr s _).mpr hvalue
    exact (evaluate_existsExpr s _).mp (heq.trans htrue) hnull
  · intro h tree e _ _ hrefs
    exact evaluate_congr fun s hs => (h s (hrefs s hs).2 (hrefs s hs).1).get_eq inst

/-- `event_status == "opened"`. -/
def statusIsOpen : Json := exprJson .eq [fieldJson "event_status", .str "opened"]

/-- **A condition on the status of an event fails on an opened event**: it is accepted, it holds in
the context of the schema, and the service finds it false. -/
theorem open_status_missed : workflowContext.validate statusIsOpen = .ok () ∧
    ∃ e, parse statusIsOpen = .ok e ∧ (∀ s ∈ e.refs, s ∈ conditionNames) ∧
      ∃ (inst : Instance ℕ) (event : EventRow), event.status = "opened" ∧
        evaluate e (inst.schemaContext event) = .ok true ∧
        evaluate e (inst.context (some event)) = .ok false :=
  ⟨by rfl, ⟨.eq, [.raw (fieldJson "event_status"), .raw (.str "opened")]⟩, by rfl, by decide,
    ⟨"i", .running, [], [], [], []⟩, ⟨"low", "opened", "manual", none, none⟩, rfl, by rfl, by rfl⟩

end BbzPlatform.Workflow
