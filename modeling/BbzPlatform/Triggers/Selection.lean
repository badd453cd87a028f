import BbzPlatform.RuleDsl.Safety
import BbzPlatform.Triggers.Rules

/-!
# When rule selection returns

A condition that passed the publish gate can still raise when it is evaluated: for the reasons that
hold of every gate, and because an optional field of a signal is `None`.  Equality and membership
accept `None`; an order operator does not.  The only field of a trigger condition that can be put
in order is the severity.

`Answers` collects what a rule and a signal must satisfy, at the nodes of the condition that the
evaluation comes to: `and(exists(severity), gt(severity, 2))` answers a signal without a severity,
since the comparison is not reached.  Selection returns exactly if every rule answers, and then it
returns the rules whose conditions are true as formulas, in order.  Where all signals of the inbox
are answered, the drain comes to its end.
-/

namespace BbzPlatform.Triggers

open List
open RuleDsl RuleDsl.ContextSchema

/-! ## The fields of signals -/

variable {signal fields : Fields} {key : String} {v : Json}
  {properties : List (String × (Json → Bool))} {required : List String}
  {isDateTime : String → Bool} {rules : List CandidateRule} {store : Store} {row : InboxRow}

/-- Only the severity can be put in order, and it is a number if it is there. -/
theorem bindsOrdered_signal (signal : Fields) :
    triggerContext.BindsOrdered (signalContext signal) := by
  constructor
  · intro s t hlook ho
    have hall : ∀ f ∈ triggerContext.fields, f.2.orderable = true → f = ("severity", .number) := by
      decide
    obtain ⟨rfl, rfl⟩ := Prod.mk.inj (hall (s, t) (Rows.mem_of_lookup hlook) ho)
    have hget : (signalContext signal).get "severity"
        = ((signalSeverity signal).map Json.int).getD .null := rfl
    rw [hget]
    cases signalSeverity signal with
    | none => exact .inl rfl
    | some n => exact .inr rfl
  · intro s hlook
    have hall : ∀ f ∈ triggerContext.fields, f.2 ≠ .list := by decide
    exact hall _ (Rows.mem_of_lookup hlook) rfl

/-! ## Rules -/

namespace CandidateRule

variable (r : CandidateRule) (signal : Fields)

def Parses (e : Expr) : Prop := ∃ tree, conditionTree r.conditions = some tree ∧ parse tree = .ok e

/-- The condition can be evaluated on the signal.  Among the nodes that the evaluation comes to none
is nested too deep, those the gate has looked at are sealed and put no missing value in order, and
the others are defined on the values of the signal. -/
def Answers : Prop :=
  ∀ e, r.Parses e → ∀ q, Reached (signalContext signal) e q → q.1 ≤ maxDepth ∧
    (q.2 ∈ e.visited → triggerContext.sealed q.2 = true ∧ (signalContext signal).Ordered q.2) ∧
    (q.2 ∈ e.unvisited → (signalContext signal).defined q.2 = true)

/-- The condition, read as a formula, is true of the signal. -/
def matchesSignal : Bool :=
  match conditionTree r.conditions with
  | none => true
  | some tree =>
    match parse tree with
    | .error _ => false
    | .ok e => e.holds (signalContext signal)

variable {r signal} {e : Expr} {tree : Json}

/-- What `Answers` says of a node that the evaluation comes to: it has room and is defined. -/
theorem reached_iff (htree : conditionTree r.conditions = some tree)
    (h : validateConditions r.conditions = .ok ()) (hp : parse tree = .ok e) {q : ℕ × Expr}
    (hq : Reached (signalContext signal) e q) :
    ((q.2 ∈ e.visited → triggerContext.sealed q.2 = true ∧ (signalContext signal).Ordered q.2) ∧
      (q.2 ∈ e.unvisited → (signalContext signal).defined q.2 = true)) ↔
      (signalContext signal).defined q.2 = true := by
  rw [validateConditions, htree] at h
  have hcheck : triggerContext.checkOperand (.expr e.op e.args) = .ok () := by
    rw [checkOperand]
    exact check_of_validate h hp
  have hvisited : q.2 ∈ e.visited → ((signalContext signal).defined q.2 = true ↔
      triggerContext.sealed q.2 = true ∧ (signalContext signal).Ordered q.2) := fun hv =>
    (bindsOrdered_signal signal).defined_iff (check_of_visited _ hcheck hv)
  constructor
  · rintro ⟨hv, hu⟩
    have hself : q.2 ∈ q.2.subs := by
      rw [Expr.subs, Operand.subs]
      exact mem_cons_self
    rcases (mem_subs_iff _).mp ((reached_bounds hq).2 _ hself) with hd | hd
    · exact (hvisited hd).mpr (hv hd)
    · exact hu hd
  · exact fun hd => ⟨fun hv => (hvisited hv).mp hd, fun _ => hd⟩

/-- **A condition returns exactly if the rule answers the signal.** -/
theorem answers_iff (h : validateConditions r.conditions = .ok ()) :
    r.Answers signal ↔ ∀ e, r.Parses e → ∃ b, evaluate e (signalContext signal) = .ok b := by
  refine forall_congr' fun e => forall_congr' fun hparse => ?_
  obtain ⟨tree, htree, hp⟩ := hparse
  have hreturns : (∃ b, evaluate e (signalContext signal) = .ok b) ↔ _ :=
    returns_iff (p := (0, e))
  rw [hreturns]
  exact forall_congr' fun q => forall_congr' fun hq =>
    and_congr_right fun _ => reached_iff htree h hp hq

end CandidateRule

/-! ## Valid signals -/

section Conforms

variable (h : conforms properties required (.obj fields) = true)
include h

theorem get_of_required (key : String) (hk : key ∈ required) :
    ∃ v, Json.get fields key = some v := by
  rw [conforms, Bool.and_eq_true, all_eq_true] at h
  exact Option.isSome_iff_exists.mp (h.1 key hk)

theorem accepts_of_get (hv : Json.get fields key = some v) {accepts : Json → Bool}
    (hp : properties.lookup key = some accepts) : accepts v = true := by
  rw [conforms, Bool.and_eq_true, all_eq_true, all_eq_true] at h
  simpa [hp] using h.2 (key, v) (Rows.mem_of_lookup hv)

end Conforms

theorem signalToContext_of_valid (h : inboundSignal isDateTime (.obj signal) = true) :
    signalToContext signal = .ok (signalContext signal) := by
  obtain ⟨v, hv⟩ := get_of_required h "source" (by decide)
  have hobj : conforms sourceProperties [] v = true := accepts_of_get h hv rfl
  rw [signalToContext, orNull, hv, Option.getD_some]
  cases v with
  | obj fields => rfl
  | null | bool | int | float | str | arr => cases hobj

section Rule

variable {r : CandidateRule} (hr : validateConditions r.conditions = .ok ())
  (hs : inboundSignal isDateTime (.obj signal) = true)
include hr hs

theorem ruleMatches_of_answers (h : r.Answers signal) :
    ruleMatches r.conditions signal = .ok (r.matchesSignal signal) := by
  have hreturns := (CandidateRule.answers_iff hr).mp h
  rw [validateConditions] at hr
  rw [ruleMatches, CandidateRule.matchesSignal]
  cases htree : conditionTree r.conditions with
  | none => rfl
  | some tree =>
    rw [htree] at hr
    cases hp : parse tree with
    | error err => simp [validate, hp, bind, Except.bind] at hr
    | ok e =>
      obtain ⟨b, hb⟩ := hreturns e ⟨tree, htree, hp⟩
      have hholds : e.holds (signalContext signal) = b := holds_of_evalAt (p := (0, e)) hb
      simp [signalToContext_of_valid hs, hb, hholds, bind, Except.bind, hp]

/-- **A rule answers exactly if the code returns for it.** -/
theorem answers_iff_ruleMatches :
    r.Answers signal ↔ ∃ b, ruleMatches r.conditions signal = .ok b := by
  refine ⟨fun h => ⟨_, ruleMatches_of_answers hr hs h⟩, ?_⟩
  rintro ⟨b, hb⟩
  refine (CandidateRule.answers_iff hr).mpr ?_
  rintro e ⟨tree, htree, hp⟩
  simp only [ruleMatches, htree, hp, signalToContext_of_valid hs, bind, Except.bind] at hb
  cases heval : evaluate e (signalContext signal) with
  | ok c => exact ⟨c, rfl⟩
  | error err => simp [heval] at hb

end Rule

/-- The walk over the rules returns exactly if it does for each of them. -/
theorem matching_ok_iff : (∃ matched, matching signal rules = .ok matched) ↔
    ∀ r ∈ rules, ∃ b, ruleMatches r.conditions signal = .ok b := by
  induction rules with
  | nil => simp [matching]
  | cons r rules ih =>
    rw [forall_mem_cons, ← ih, matching]
    cases ruleMatches r.conditions signal with
    | error err => simp [bind, Except.bind]
    | ok b => cases matching signal rules <;> simp [bind, Except.bind]

theorem matching_of_ok
    (h : ∀ r ∈ rules, ruleMatches r.conditions signal = .ok (r.matchesSignal signal)) :
    matching signal rules = .ok (rules.filter (·.matchesSignal signal)) := by
  induction rules with
  | nil => rfl
  | cons r rules ih =>
    rw [matching, h r mem_cons_self, ih fun r' hr' => h r' (mem_cons_of_mem _ hr')]
    cases hm : r.matchesSignal signal <;> simp [bind, Except.bind, hm]

instance : Std.Total CandidateRule.le := ⟨fun a b => by
  unfold CandidateRule.le
  rcases lt_trichotomy a.priority b.priority with h | h | h
  · exact .inl (.inl h)
  · exact (le_total a.ruleId b.ruleId).imp (fun hle => .inr ⟨h, hle⟩) fun hle => .inr ⟨h.symm, hle⟩
  · exact .inr (.inl h)⟩

instance : IsTrans CandidateRule CandidateRule.le := ⟨fun a b c hab hbc => by
  unfold CandidateRule.le at *
  rcases hab with hab | ⟨hab, hle⟩ <;> rcases hbc with hbc | ⟨hbc, hle'⟩
  · exact .inl (hab.trans hbc)
  · exact .inl (hbc ▸ hab)
  · exact .inl (hab ▸ hbc)
  · exact .inr ⟨hab.trans hbc, hle.trans hle'⟩⟩

/-- The matching rules in their order. -/
def selected (rules : List CandidateRule) (signal : Fields) : List CandidateRule :=
  (rules.filter (·.matchesSignal signal)).insertionSort CandidateRule.le

/-- **Selection returns the matching rules in order**, if every rule answers. -/
theorem select_of_answers (hrules : ∀ r ∈ rules, validateConditions r.conditions = .ok ())
    (hs : inboundSignal isDateTime (.obj signal) = true) (h : ∀ r ∈ rules, r.Answers signal) :
    selectMatchingRules rules signal = .ok (selected rules signal) := by
  rw [selectMatchingRules,
    matching_of_ok fun r hr => ruleMatches_of_answers (hrules r hr) hs (h r hr)]
  rfl

/-! ## The drain of the inbox -/

namespace Store

theorem find_of_mem (h : row ∈ store.inbox) : store.inbox.find? (·.id = row.id) = some row := by
  cases hf : store.inbox.find? (·.id = row.id) with
  | none => simpa using find?_eq_none.mp hf row h
  | some found =>
    have hid : found.id = row.id := by simpa using find?_some hf
    rw [inj_on_of_nodup_map store.keys (mem_of_find?_eq_some hf) h hid]

/-- The engine can process the row: it is not a signal, or a valid one that every rule
answers. -/
def Ready (store : Store) (row : InboxRow) : Prop :=
  (orNull row.normalized "signal_type").truthy = false ∨
    ∃ isDateTime, inboundSignal isDateTime (.obj row.normalized) = true ∧
      ∀ r ∈ store.candidates, r.Answers row.normalized

def runs (store : Store) (row : InboxRow) : List (String × String) :=
  if (orNull row.normalized "signal_type").truthy then
    (selected store.candidates row.normalized).filterMap fun r =>
      (store.publishedVersion r.ruleId).map fun v => (row.id, v.id)
  else []

/-- **One step of the drain**: a row that is ready is marked, the selected rules run for it, and
nothing else changes. -/
theorem processInboxEvent_ready (hmem : row ∈ store.inbox) (hopen : row.processed = false)
    (hrules : ∀ r ∈ store.candidates, validateConditions r.conditions = .ok ())
    (hready : store.Ready row) : ∃ next result,
      processInboxEvent store row.id = (next, .ok result) ∧ result.inboxId = row.id ∧
      next.rules = store.rules ∧ next.versions = store.versions ∧
      next.inbox = (store.mark row.id).inbox ∧
      next.executions = store.executions ++ store.runs row := by
  rw [processInboxEvent, find_of_mem hmem]
  simp only [hopen, Bool.false_eq_true, if_false]
  cases hsig : (orNull row.normalized "signal_type").truthy with
  | false =>
    refine ⟨store.mark row.id, _, rfl, rfl, rfl, rfl, rfl, ?_⟩
    simp [runs, hsig, mark]
  | true =>
    obtain ⟨isDateTime, hvalid, hanswers⟩ := hready.resolve_left (by simp [hsig])
    rw [select_of_answers hrules hvalid hanswers]
    refine ⟨_, _, rfl, rfl, ?_⟩
    have hruns : store.runs row = (selected store.candidates row.normalized).filterMap fun r =>
        (store.publishedVersion r.ruleId).map fun v => (row.id, v.id) := by
      rw [runs, if_pos hsig]
    rw [hruns]
    split_ifs <;> exact ⟨rfl, rfl, rfl, rfl⟩

def Done (store : Store) (id : String) : Prop :=
  ∃ row ∈ store.inbox, row.id = id ∧ row.processed = true

theorem Done.mark {id : String} (h : store.Done id) (other : String) :
    (store.mark other).Done id := by
  obtain ⟨row, hmem, hid, hdone⟩ := h
  refine ⟨_, mem_map_of_mem hmem, ?_⟩
  by_cases h : row.id = other
  · rw [if_pos h]
    exact ⟨hid, rfl⟩
  · rw [if_neg h]
    exact ⟨hid, hdone⟩

end Store

/-- **The drain processes every row**, if all are ready. -/
theorem processAll_ready {rows : List InboxRow}
    (hrows : ∀ row ∈ rows, row ∈ store.inbox ∧ row.processed = false ∧ store.Ready row)
    (hnodup : (rows.map (·.id)).Nodup)
    (hrules : ∀ r ∈ store.candidates, validateConditions r.conditions = .ok ()) :
    ∃ last results, processAll store (rows.map (·.id)) = (last, .ok results) ∧
      results.map (·.inboxId) = rows.map (·.id) ∧
      last.executions = store.executions ++ rows.flatMap store.runs ∧
      (∀ id, store.Done id → last.Done id) ∧ ∀ row ∈ rows, last.Done row.id := by
  induction rows generalizing store with
  | nil => exact ⟨store, [], rfl, rfl, by simp, fun _ h => h, by simp⟩
  | cons row rows ih =>
    obtain ⟨hmem, hopen, hready⟩ := hrows row mem_cons_self
    obtain ⟨next, result, hstep, hid, hr, hv, hin, hex⟩ :=
      Store.processInboxEvent_ready hmem hopen hrules hready
    rw [map_cons, nodup_cons] at hnodup
    have hcand : next.candidates = store.candidates := by
      simp only [Store.candidates, Store.publishedVersions, hr, hv]
    have hruns : next.runs = store.runs := by
      funext row'
      simp only [Store.runs, hcand, Store.publishedVersion, Store.publishedVersions, hv]
    have hrest : ∀ row' ∈ rows,
        row' ∈ next.inbox ∧ row'.processed = false ∧ next.Ready row' := by
      intro row' hrow'
      obtain ⟨hm, ho, hrd⟩ := hrows row' (mem_cons_of_mem _ hrow')
      have hne : row'.id ≠ row.id := fun he => hnodup.1 (he ▸ mem_map_of_mem hrow')
      refine ⟨hin ▸ mem_map.mpr ⟨_, hm, if_neg hne⟩, ho, ?_⟩
      simpa only [Store.Ready, hcand] using hrd
    obtain ⟨last, results, hlast, hres, hexec, hkeep, hdone⟩ :=
      ih hrest hnodup.2 (hcand ▸ hrules)
    have hmarked : ∀ id, (store.mark row.id).Done id → next.Done id := by
      intro id ⟨row', hm', hd'⟩
      exact ⟨row', hin ▸ hm', hd'⟩
    refine ⟨last, result :: results, ?_, ?_, ?_, ?_, ?_⟩
    · simp only [map_cons, processAll, hstep, hlast]
    · simp [hid, hres]
    · rw [hexec, hex, hruns, flatMap_cons, append_assoc]
    · exact fun id hd => hkeep id (hmarked id (hd.mark row.id))
    · exact forall_mem_cons.mpr ⟨hkeep _ (hmarked _ ⟨_, mem_map_of_mem hmem, by simp⟩), hdone⟩

theorem due_spec (store : Store) (limit : ℕ) :
    (∀ row ∈ store.due limit, row ∈ store.inbox ∧ row.processed = false) ∧
      ((store.due limit).map (·.id)).Nodup := by
  have hperm := perm_insertionSort (fun a b : InboxRow => a.receivedAt ≤ b.receivedAt)
    (store.inbox.filter (!·.processed))
  have hnodup : ((store.inbox.filter (!·.processed)).map (·.id)).Nodup :=
    store.keys.sublist (filter_sublist.map _)
  constructor
  · intro row hrow
    have hmem := (hperm.mem_iff).mp (mem_of_mem_take hrow)
    simpa using mem_filter.mp hmem
  · exact ((hperm.map _).nodup_iff.mpr hnodup).sublist ((take_sublist _ _).map _)

/-- **Selection returns exactly if every rule answers the signal.**  What it returns are the
matching rules, sorted by priority and id; and if all rows that are due are ready, the drain marks
every one of them and runs the matching rules of each. -/
theorem selection_total_iff {isDateTime : String → Bool} {rules : List CandidateRule}
    {signal : Fields} (hrules : ∀ r ∈ rules, validateConditions r.conditions = .ok ())
    (hs : inboundSignal isDateTime (.obj signal) = true) :
    ((∃ matched, selectMatchingRules rules signal = .ok matched) ↔
      ∀ r ∈ rules, r.Answers signal) ∧
    (∀ matched, selectMatchingRules rules signal = .ok matched →
      matched.Perm (rules.filter (·.matchesSignal signal)) ∧
      matched.Pairwise CandidateRule.le) ∧
    ∀ (store : Store) (limit : ℕ), store.candidates = rules →
      (∀ row ∈ store.due limit, store.Ready row) →
      ∃ last results, resumeUnprocessed store limit = (last, .ok results) ∧
        (∀ row ∈ store.due limit, last.Done row.id) ∧
        last.executions = store.executions ++ (store.due limit).flatMap store.runs := by
  have hanswers : (∃ matched, selectMatchingRules rules signal = .ok matched) →
      ∀ r ∈ rules, r.Answers signal := by
    rintro ⟨matched, hmatched⟩ r hr
    obtain ⟨walked, hwalked, -⟩ := Raising.bind_eq_ok.mp hmatched
    exact (answers_iff_ruleMatches (hrules r hr) hs).mpr (matching_ok_iff.mp ⟨walked, hwalked⟩ r hr)
  refine ⟨⟨hanswers, fun h => ⟨_, select_of_answers hrules hs h⟩⟩, fun matched hmatched => ?_,
    fun store limit hcand hready => ?_⟩
  · have hselected := select_of_answers hrules hs (hanswers ⟨matched, hmatched⟩)
    obtain rfl := Except.ok.inj (hmatched.symm.trans hselected)
    exact ⟨perm_insertionSort _ _, pairwise_insertionSort _ _⟩
  · obtain ⟨hdue, hnodup⟩ := due_spec store limit
    obtain ⟨last, results, hrun, -, hexec, -, hdone⟩ := processAll_ready
      (fun row hrow => ⟨(hdue row hrow).1, (hdue row hrow).2, hready row hrow⟩) hnodup
      (hcand ▸ hrules)
    exact ⟨last, results, hrun, hdone, hexec⟩

/-- `severity > 2`. -/
def urgentTree : Fields :=
  [("op", .str "gt"), ("args", .arr [fieldJson "severity", .int 2])]

/-- `exists(severity) and severity > 2`. -/
def guardedTree : Fields :=
  [("op", .str "and"),
    ("args", .arr [exprJson .existsOp [fieldJson "severity"], .obj urgentTree])]

/-- A rule with the condition, and one without. -/
def severityRules (tree : Fields) : List CandidateRule :=
  [⟨"r1", 100, some tree⟩, ⟨"r2", 100, none⟩]

def doorbell (source : Fields) : Fields :=
  [("signal_type", .str "DOORBELL_RINGING"), ("provider", .str "siedle"),
    ("occurred_at", .str "2026-01-01T00:00:00Z"), ("received_at", .str "2026-01-01T00:00:00Z"),
    ("gateway_node", .str "gw1"), ("source", .obj source)]

/-- A store with the two rules and two signals, the first of which has no severity. -/
def twoSignals (tree : Fields) : Store where
  rules := [⟨"r1", 100, true⟩, ⟨"r2", 100, true⟩]
  versions := [⟨"v1", "r1", 1, true, some tree⟩, ⟨"v2", "r2", 1, true, none⟩]
  inbox := [⟨"a", 0, doorbell [], false⟩, ⟨"b", 1, doorbell [("severity", .str "high")], false⟩]
  executions := []
  unmapped := []
  keys := by decide

theorem guarded_accepted :
    ∀ r ∈ severityRules guardedTree, validateConditions r.conditions = .ok () :=
  forall_mem_cons.mpr ⟨rfl, forall_mem_singleton.mpr rfl⟩

theorem guarded_answers (source : Fields)
    (hsource : source = [] ∨ source = [("severity", .str "high")]) :
    ∀ r ∈ severityRules guardedTree, r.Answers (doorbell source) := by
  intro r hr
  refine (CandidateRule.answers_iff (guarded_accepted r hr)).mpr ?_
  rintro e ⟨tree, htree, hp⟩
  rcases mem_cons.mp hr with rfl | hr
  · cases htree
    cases hp
    rcases hsource with rfl | rfl
    · exact ⟨false, rfl⟩
    · exact ⟨true, rfl⟩
  · cases mem_singleton.mp hr
    cases htree

/-- A signal without a severity is selected by the rule without a condition only, and the drain
processes both signals. -/
theorem guarded_selected :
    (∃ matched, selectMatchingRules (severityRules guardedTree) (doorbell []) = .ok matched ∧
      matched.Perm [⟨"r2", 100, none⟩]) ∧
    ∃ last results, resumeUnprocessed (twoSignals guardedTree) 50 = (last, .ok results) ∧
      ∀ row ∈ (twoSignals guardedTree).due 50, last.Done row.id := by
  have hs : inboundSignal (fun _ => true) (.obj (doorbell [])) = true := by decide
  have htotal := selection_total_iff guarded_accepted hs
  constructor
  · obtain ⟨matched, hmatched⟩ := htotal.1.mpr (guarded_answers [] (.inl rfl))
    exact ⟨matched, hmatched, (htotal.2.1 matched hmatched).1⟩
  · obtain ⟨last, results, hrun, hdone, -⟩ := htotal.2.2 (twoSignals guardedTree) 50 rfl (by
      intro row hrow
      have hrow : row ∈ (twoSignals guardedTree).inbox := ((due_spec _ 50).1 row hrow).1
      refine .inr ⟨fun _ => true, ?_⟩
      rcases mem_pair.mp hrow with rfl | rfl
      · exact ⟨by decide, guarded_answers [] (.inl rfl)⟩
      · exact ⟨by decide, guarded_answers [("severity", .str "high")] (.inr rfl)⟩)
    exact ⟨last, results, hrun, hdone⟩

/-- **A rule on the severity raises on a signal without one**: the other rule does not run either,
and the drain does not come to the next signal. -/
theorem missing_severity_blocks :
    (∀ r ∈ severityRules urgentTree, validateConditions r.conditions = .ok ()) ∧
      inboundSignal (fun _ => true) (.obj (doorbell [])) = true ∧
      selectMatchingRules (severityRules urgentTree) (doorbell [])
        = .error (.raised (.dsl (.cannotApply .gt "NoneType" "int"))) ∧
      resumeUnprocessed (twoSignals urgentTree) 50 = (twoSignals urgentTree,
        .error (.raised (.dsl (.cannotApply .gt "NoneType" "int")))) :=
  ⟨forall_mem_cons.mpr ⟨rfl, forall_mem_singleton.mpr rfl⟩, by decide, by rfl, by rfl⟩

end BbzPlatform.Triggers
