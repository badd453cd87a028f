import BbzPlatform.RuleDsl.Context

/-!
# Trigger rules and the inbox

An integration edge turns every provider event into a normalized signal and stores it in the
inbox.  The engine selects the published rules whose condition matches the signal, runs them in the
order of their priority, and marks the inbox row processed.

A condition is checked when its rule is published.  When it is evaluated nothing is caught: an
exception leaves `selectMatchingRules`, `processInboxEvent` and the loop of `resumeUnprocessed`.

What an action does is left out.  The engine's ledger only records which rule version ran for
which inbox row.
-/

namespace BbzPlatform.Triggers

open RuleDsl

/-- The fields of a JSON object. -/
abbrev Fields := List (String × Json)

/-! ## Signals -/

/-- `additionalProperties: false` with the given properties, and required keys. -/
def conforms (properties : List (String × (Json → Bool))) (required : List String) :
    Json → Bool
  | .obj fields =>
    required.all (Json.has fields) && fields.all fun f =>
      match properties.lookup f.1 with
      | some accepts => accepts f.2
      | none => false
  | _ => false

/-- `type: [string, null]`. -/
def nullableString : Json → Bool
  | .str _ | .null => true
  | _ => false

/-- `type: string` with `minLength: 1`. -/
def nonemptyString : Json → Bool
  | .str s => s ≠ ""
  | _ => false

def oneOf (allowed : List String) : Json → Bool
  | .str s => allowed.contains s
  | _ => false

def nullOr (allowed : List String) : Json → Bool
  | .null => true
  | v => oneOf allowed v

def signalTypes : List String :=
  ["CALL_RINGING", "CALL_ANSWERED", "CALL_ENDED", "TECHNICAL_ALARM_RAISED", "PANIC_ALARM_RAISED",
    "DOORBELL_RINGING", "BMA_ALARM_CALL"]

/-- The properties of a signal's `source`. -/
def sourceProperties : List (String × (Json → Bool)) :=
  [("ani", nullableString), ("dnis", nullableString), ("source_call_id", nullableString),
    ("cti_route_point", nullableString), ("technical_endpoint_id", nullableString),
    ("external_source_id", nullableString), ("site", nullableString),
    ("direction", nullOr ["inbound", "outbound"]), ("call_state", nullableString),
    ("alarm_subtype", nullableString),
    ("severity", nullOr ["critical", "high", "medium", "low"])]

/-- `inbound_signal.v1`, given what the format checker takes for a date and time. -/
def inboundSignal (isDateTime : String → Bool) : Json → Bool :=
  let dateTime : Json → Bool
    | .str s => isDateTime s
    | _ => false
  conforms
    [("signal_type", oneOf signalTypes), ("provider", nonemptyString), ("occurred_at", dateTime),
      ("received_at", dateTime), ("gateway_node", nonemptyString),
      ("correlation_id", nullableString), ("source", conforms sourceProperties [])]
    ["signal_type", "provider", "occurred_at", "received_at", "gateway_node", "source"]

/-! ## Conditions -/

/-- The ordinal of a severity word. -/
def severityRank : String → Option ℤ
  | "low" => some 1
  | "medium" => some 2
  | "high" => some 3
  | "critical" => some 4
  | _ => none

/-- An exception that leaves rule selection. -/
inductive RuleError where
  | raised (e : Raised)
  | noAttribute (typeName : String)

/-- `d.get(key)`, with `None` for a missing key. -/
def orNull (fields : Fields) (key : String) : Json := (Json.get fields key).getD .null

def sourceOf (signal : Fields) : Fields :=
  match orNull signal "source" with
  | .obj fields => fields
  | _ => []

/-- The rank of the signal's severity, if it has one. -/
def signalSeverity (signal : Fields) : Option ℤ :=
  match orNull (sourceOf signal) "severity" with
  | .str s => severityRank s
  | _ => none

/-- The fields of conditions in terms of a signal. -/
def signalContext (signal : Fields) : Context :=
  let src := sourceOf signal
  let fields : Fields :=
    [("provider", orNull signal "provider"), ("signal_type", orNull signal "signal_type"),
      ("calling_number", orNull src "ani"), ("called_number", orNull src "dnis"),
      ("cti_route_point", orNull src "cti_route_point"),
      ("technical_endpoint_id", orNull src "technical_endpoint_id"),
      ("external_source_id", orNull src "external_source_id"), ("site", orNull src "site"),
      ("call_direction", orNull src "direction"), ("call_state", orNull src "call_state"),
      ("alarm_subtype", orNull src "alarm_subtype"),
      ("severity", ((signalSeverity signal).map Json.int).getD .null)]
  fun k => fields.lookup k

/-- Flatten a signal into the context of conditions.  A source that is neither an object nor
falsy has no `get`. -/
def signalToContext (signal : Fields) : Except RuleError Context :=
  match orNull signal "source" with
  | .obj _ => .ok (signalContext signal)
  | v => if v.truthy then .error (.noAttribute v.typeName) else .ok (signalContext signal)

/-- The conditions of a rule version: `None` and `{}` match always. -/
abbrev Conditions := Option Fields

def conditionTree : Conditions → Option Json
  | some (f :: rest) => some (.obj (f :: rest))
  | _ => none

/-- The publish gate.  An error of the DSL is raised again as a `RuleConditionError` with the
same text. -/
def validateConditions (conditions : Conditions) : Except Raised Unit :=
  match conditionTree conditions with
  | none => .ok ()
  | some tree => triggerContext.validate tree

def ruleMatches (conditions : Conditions) (signal : Fields) : Except RuleError Bool :=
  match conditionTree conditions with
  | none => .ok true
  | some tree =>
    match parse tree with
    | .error err => .error (.raised err)
    | .ok e => do
        let ctx ← signalToContext signal
        match evaluate e ctx with
        | .ok b => .ok b
        | .error err => .error (.raised (.dsl err))

/-- A rule the engine may run. -/
structure CandidateRule where
  ruleId : String
  priority : ℤ
  conditions : Conditions

/-- The sort key `(priority, str(rule_id))`. -/
def CandidateRule.le (a b : CandidateRule) : Prop :=
  a.priority < b.priority ∨ a.priority = b.priority ∧ a.ruleId ≤ b.ruleId

instance : DecidableRel CandidateRule.le := fun a b => by
  unfold CandidateRule.le
  infer_instance

/-- The rules that match, in the given order; the first exception ends the walk. -/
def matching (signal : Fields) : List CandidateRule → Except RuleError (List CandidateRule)
  | [] => .ok []
  | r :: rest => do
      let b ← ruleMatches r.conditions signal
      let matched ← matching signal rest
      .ok (if b then r :: matched else matched)

def selectMatchingRules (rules : List CandidateRule) (signal : Fields) :
    Except RuleError (List CandidateRule) := do
  let matched ← matching signal rules
  .ok (matched.insertionSort CandidateRule.le)

/-! ## The engine -/

/-- A row of the trigger rules, as far as the engine reads it. -/
structure RuleRow where
  id : String
  priority : ℤ
  published : Bool

structure VersionRow where
  id : String
  ruleId : String
  versionNo : ℤ
  published : Bool
  conditions : Conditions

structure InboxRow where
  id : String
  receivedAt : ℤ
  normalized : Fields
  processed : Bool

/-- The tables.  The id is the key of the inbox. -/
structure Store where
  rules : List RuleRow
  versions : List VersionRow
  inbox : List InboxRow
  executions : List (String × String)
  unmapped : List Fields
  keys : (inbox.map (·.id)).Nodup

namespace Store

variable (store : Store)

def publishedVersions : List VersionRow :=
  (store.versions.filter (·.published)).insertionSort fun a b => b.versionNo ≤ a.versionNo

def keepFirst : List CandidateRule → List CandidateRule
  | [] => []
  | c :: rest => c :: (keepFirst rest).filter (·.ruleId ≠ c.ruleId)

/-- The published rules with the conditions of their newest published version. -/
def candidates : List CandidateRule :=
  keepFirst (store.publishedVersions.filterMap fun v =>
    (store.rules.find? fun r => r.id = v.ruleId && r.published).map fun r =>
      ⟨r.id, r.priority, v.conditions⟩)

def publishedVersion (ruleId : String) : Option VersionRow :=
  store.publishedVersions.find? (·.ruleId = ruleId)

/-- Set `processed_at` of a row. -/
def mark (id : String) : Store :=
  { store with
    inbox := store.inbox.map fun row => if row.id = id then { row with processed := true } else row
    keys := by
      have hids : (store.inbox.map fun row =>
          if row.id = id then { row with processed := true } else row).map (·.id)
          = store.inbox.map (·.id) := by
        rw [List.map_map]
        refine List.map_congr_left fun row _ => ?_
        by_cases h : row.id = id <;> simp [h]
      rw [hids]
      exact store.keys }

def recordUnmapped (signal : Fields) : Store :=
  { store with unmapped := store.unmapped ++ [signal] }

/-- Run the newest published version of every matched rule. -/
def runRules (id : String) (matched : List CandidateRule) : Store :=
  { store with
    executions := store.executions ++ matched.filterMap fun r =>
      (store.publishedVersion r.ruleId).map fun v => (id, v.id) }

end Store

/-- What the engine reports about an inbox row. -/
structure EngineResult where
  inboxId : String
  signalType : Json
  matchedRules : ℕ
  processed : Bool

def processInboxEvent (store : Store) (id : String) : Store × Except RuleError EngineResult :=
  match store.inbox.find? (·.id = id) with
  | none => (store, .ok ⟨id, .null, 0, false⟩)
  | some row =>
    if row.processed then (store, .ok ⟨id, .null, 0, true⟩)
    else
      let signalType := orNull row.normalized "signal_type"
      if !signalType.truthy then (store.mark id, .ok ⟨id, .null, 0, true⟩)
      else
        match selectMatchingRules store.candidates row.normalized with
        | .error err => (store, .error err)
        | .ok matched =>
          let noted := if matched.isEmpty then store.recordUnmapped row.normalized else store
          ((noted.runRules id matched).mark id, .ok ⟨id, signalType, matched.length, true⟩)

/-- Process rows one after another; an exception ends the loop, and what was done stays. -/
def processAll : Store → List String → Store × Except RuleError (List EngineResult)
  | store, [] => (store, .ok [])
  | store, id :: rest =>
    match processInboxEvent store id with
    | (store', .error err) => (store', .error err)
    | (store', .ok result) =>
      match processAll store' rest with
      | (last, .error err) => (last, .error err)
      | (last, .ok results) => (last, .ok (result :: results))

/-- The oldest unprocessed rows, at most `limit`. -/
def Store.due (store : Store) (limit : ℕ) : List InboxRow :=
  ((store.inbox.filter (!·.processed)).insertionSort fun a b => a.receivedAt ≤ b.receivedAt).take
    limit

/-- Process the rows that are left unprocessed. -/
def resumeUnprocessed (store : Store) (limit : ℕ) : Store × Except RuleError (List EngineResult) :=
  processAll store ((store.due limit).map (·.id))

end BbzPlatform.Triggers
