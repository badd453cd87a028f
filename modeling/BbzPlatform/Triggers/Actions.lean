import BbzPlatform.Events.Aggregate
import BbzPlatform.Triggers.Rules
import BbzPlatform.Workflow.Service

/-!
# Trigger actions

The actions of a rule version are JSON objects with a `type`.  The publish gate checks some of
their fields; the handlers read more.  A handler that finds an action malformed raises a
`TriggerActionError`, which the engine records as the failure of the action.  Everything else that
Python raises on a value of the wrong kind leaves the engine.

A handler of an atomic action is a function of the action, the signal and the event that an earlier
action of the run has made: it yields the effect to commit and the fields of the result.
-/

namespace BbzPlatform.Triggers

open Events (EventAggregate EventPriority)

/-! ## Vocabulary -/

inductive ActionType where
  | createEvent
  | attachWorkflow
  | showClientPopup
  | notify
  | integrationAction
  | openCamera
  | openCameraGroup
  | answerCall
  | sendDtmfProfile
  | hangupCall
  | launchCatalogApp
  deriving DecidableEq, Repr

def ActionType.value : ActionType → String
  | .createEvent => "create_event"
  | .attachWorkflow => "attach_workflow"
  | .showClientPopup => "show_client_popup"
  | .notify => "notify"
  | .integrationAction => "integration_action"
  | .openCamera => "open_camera"
  | .openCameraGroup => "open_camera_group"
  | .answerCall => "answer_call"
  | .sendDtmfProfile => "send_dtmf_profile"
  | .hangupCall => "hangup_call"
  | .launchCatalogApp => "launch_catalog_app"

def actionTypes : List ActionType :=
  [.createEvent, .attachWorkflow, .showClientPopup, .notify, .integrationAction, .openCamera,
    .openCameraGroup, .answerCall, .sendDtmfProfile, .hangupCall, .launchCatalogApp]

/-- `TriggerActionType(text)`. -/
def ActionType.ofText (text : String) : Option ActionType :=
  actionTypes.find? (·.value = text)

/-- `SUPPORTED_ACTION_TYPES`: all but the catalog apps. -/
def ActionType.supported (t : ActionType) : Bool := t ≠ .launchCatalogApp

/-- The key of the execution ledger: an inbox row, a rule version and an index. -/
structure ExecutionKey where
  providerEventId : String
  versionId : String
  index : ℕ
  deriving DecidableEq

/-- The text of a key, which is also the dedupe key of the outbox. -/
def ExecutionKey.text (key : ExecutionKey) : String :=
  "trigger:" ++ key.providerEventId ++ ":" ++ key.versionId ++ ":" ++ toString key.index

/-- A version of a workflow template, with its graph. -/
structure TemplateVersion where
  id : String
  versionNo : ℕ
  published : Bool
  graph : Workflow.DerivedGraph

structure WorkflowTemplate where
  key : String
  versions : List TemplateVersion

/-- What the code takes from elsewhere: Python's conversions of texts, the ids and times that an
action draws, the actor, the texts of the door stations, the workflow templates, and what the
workflow engine meets when it starts an instance. -/
structure Surroundings where
  uuid : String → Option String
  int : String → Option ℤ
  floatRepr : ℚ → String
  freshId : ExecutionKey → String
  now : ExecutionKey → ℤ
  actorId : Option String
  popupText : String → Option String
  templates : List WorkflowTemplate
  externals : Workflow.Externals
  engine : ExecutionKey → String → Workflow.Env ℕ
  uuid_ne : ∀ text id, uuid text = some id → id ≠ ""
  freshId_ne : ∀ key, freshId key ≠ ""

namespace Surroundings

variable (env : Surroundings)

/-- The published version of a template with the highest number, or the text of the error. -/
def published (templateKey : String) : Except String TemplateVersion :=
  match env.templates.find? (·.key = templateKey) with
  | none => .error templateKey
  | some template =>
    match ((template.versions.filter (·.published)).insertionSort
        fun v w => w.versionNo ≤ v.versionNo).head? with
    | none => .error ("template " ++ Json.reprStr templateKey ++ " has no published version")
    | some version => .ok version

/-- `start_instance`: it raises, or the instance is still running or not. -/
def start (key : ExecutionKey) (version : TemplateVersion) (eventId : String) :
    Except (Workflow.ServiceError ℕ) Bool :=
  (Workflow.startInstance env.externals (env.engine key eventId) version.graph
    (env.freshId key)).result.map (·.status = .running)

end Surroundings

/-- An exception that is not caught. -/
inductive Escape where
  | event (e : Events.EventError)
  | attributeError (message : String)
  | typeError (message : String)
  | valueError (message : String)
  | overflowError
  | envelopeInvalid (eventType : String)
  | workflow (e : Workflow.ServiceError ℕ)

/-- How a handler fails: with a `TriggerActionError`, or otherwise. -/
inductive Fault where
  | malformed (message : String)
  | escaped (e : Escape)

/-! ## Python's conversions -/

section Conversions

variable (env : Surroundings)

/-- `str(v)`. -/
def str : Json → String
  | .str s => s
  | v => v.repr env.floatRepr

/-- `action.get(key) or other`. -/
def orElse (action : Fields) (key : String) (other : Json) : Json :=
  if (orNull action key).truthy then orNull action key else other

/-- `action.get(key, default)`. -/
def getOr (action : Fields) (key : String) (default : Json) : Json :=
  (Json.get action key).getD default

/-- `_as_uuid`. -/
def asUuid (v : Json) : Except Fault (Option String) :=
  if v = .null ∨ v = .str "" then .ok none
  else
    match env.uuid (str env v) with
    | some id => .ok (some id)
    | none => .error (.malformed ("not a uuid: " ++ v.repr env.floatRepr))

/-- `int(v)`. -/
def toInt : Json → Except Escape ℤ
  | .int i => .ok i
  | .bool b => .ok (if b then 1 else 0)
  | .float q => .ok (if 0 ≤ q then q.floor else q.ceil)
  | .str s =>
    match env.int s with
    | some i => .ok i
    | none => .error (.valueError
        ("invalid literal for int() with base 10: " ++ Json.reprStr s))
  | v => .error (.typeError
      ("int() argument must be a string, a bytes-like object or a real number, not '" ++
        v.typeName ++ "'"))

/-- A dictionary whose keys are any hashable values. -/
abbrev Dict := List (Json × Json)

/-- One element of a sequence of pairs: a list, text or object of two. -/
def pairOf (index : ℕ) (v : Json) : Except Escape (Json × Json) :=
  let wrong (n : ℕ) : Except Escape (Json × Json) := .error (.valueError
    ("dictionary update sequence element #" ++ toString index ++ " has length " ++ toString n ++
      "; 2 is required"))
  match v with
  | .arr [k, value] =>
    if k.unhashable then .error (.typeError ("unhashable type: '" ++ k.typeName ++ "'"))
    else .ok (k, value)
  | .arr items => wrong items.length
  | .str s =>
    match s.toList with
    | [a, b] => .ok (.str (String.ofList [a]), .str (String.ofList [b]))
    | chars => wrong chars.length
  | .obj [a, b] => .ok (.str a.1, .str b.1)
  | .obj fields => wrong fields.length
  | _ => .error (.typeError
      ("cannot convert dictionary update sequence element #" ++ toString index ++
        " to a sequence"))

/-- `d[k] = v`. -/
def Dict.insert (d : Dict) (k v : Json) : Dict :=
  if d.any (·.1.eq k) then d.map fun f => if f.1.eq k then (f.1, v) else f else d ++ [(k, v)]

/-- The pairs of a sequence, inserted one by one. -/
def dictOfPairs (d : Dict) (index : ℕ) : List Json → Except Escape Dict
  | [] => .ok d
  | v :: rest => do
      let pair ← pairOf index v
      dictOfPairs (d.insert pair.1 pair.2) (index + 1) rest

/-- `dict(v)`. -/
def toDict : Json → Except Escape Dict
  | .obj fields => .ok (fields.map fun f => (.str f.1, f.2))
  | .arr items => dictOfPairs [] 0 items
  | .str s => dictOfPairs [] 0 (s.toList.map fun c => .str (String.ofList [c]))
  | v => .error (.typeError ("'" ++ v.typeName ++ "' object is not iterable"))

/-- A dictionary as it is stored: keys become texts. -/
def ofDict (d : Dict) : Json :=
  .obj (d.map fun f => (match f.1 with
    | .str s => s
    | .null => "null"
    | .bool b => if b then "true" else "false"
    | k => k.repr env.floatRepr, f.2))

/-- `signal.get("source") or {}`, which must have a `get`. -/
def sourceDict (signal : Fields) : Except Escape Fields :=
  match orNull signal "source" with
  | .obj fields => .ok fields
  | v =>
    if v.truthy then
      .error (.attributeError ("'" ++ v.typeName ++ "' object has no attribute 'get'"))
    else .ok []

/-- `EventPriority(v)`. -/
def priorityOf : Json → Option EventPriority
  | .str "critical" => some .critical
  | .str "high" => some .high
  | .str "medium" => some .medium
  | .str "low" => some .low
  | _ => none

end Conversions

/-! ## The publish gate -/

/-- Why a rule version cannot be published. -/
inductive Blocker where
  | conditions (e : RuleDsl.DslError)
  | noActions
  | action (index : ℕ) (problem : String)

section Gate

variable (env : Surroundings)

/-- The text has something other than blanks. -/
def filled (v : Json) : Bool := Events.strip (str env v) ≠ ""

/-- `_is_uuid`. -/
def isUuid (v : Json) : Bool := (env.uuid (str env v)).isSome

/-- `_action_config_problems`. -/
def actionConfigProblems (action : Fields) : ActionType → List String
  | .attachWorkflow =>
    if filled env (getOr action "template_key" (.str "")) then []
    else ["attach_workflow requires template_key"]
  | .showClientPopup =>
    if isUuid env (orNull action "workplace_id") then []
    else ["show_client_popup requires a workplace_id (uuid)"]
  | .createEvent =>
    match Json.get action "priority" with
    | none => []
    | some v =>
      if (priorityOf (.str (str env v))).isSome then []
      else ["invalid priority " ++ v.repr env.floatRepr]
  | .sendDtmfProfile =>
    (if filled env (getOr action "dtmf_profile_id" (.str "")) then []
      else ["send_dtmf_profile requires dtmf_profile_id"]) ++
    (if Json.has action "code" || Json.has action "dtmf" then
      ["a DTMF code must never appear in a rule action"] else [])
  | .openCamera =>
    if filled env (orElse action "camera_ref" (orElse action "camera_id" (.str ""))) then []
    else ["open_camera requires camera_ref"]
  | .openCameraGroup =>
    let hasList := match orNull action "camera_refs" with
      | .arr refs => refs.any (filled env)
      | _ => false
    if hasList || filled env (orElse action "camera_group_ref" (.str "")) then []
    else ["open_camera_group requires camera_refs or camera_group_ref"]
  | .integrationAction =>
    if filled env (orElse action "capability" (.str "")) then []
    else ["integration_action requires capability"]
  | _ => []

def actionProblems : Json → List String
  | .obj action =>
    let text := str env (getOr action "type" (.str ""))
    match ActionType.ofText text with
    | none => ["unknown type " ++ Json.reprStr text]
    | some type =>
      if type.supported then actionConfigProblems env action type
      else [text ++ " is not available yet"]
  | _ => ["must be an object"]

/-- `validate_actions`. -/
def validateActions (actions : List Json) : List Blocker :=
  (actions.mapIdx fun index raw => (actionProblems env raw).map (.action index)).flatten

/-- `publish_blockers`.  Only an error of the rule language is caught. -/
def publishBlockers (conditions : Conditions) (actions : List Json) :
    Except RuleDsl.Raised (List Blocker) :=
  let rest := (if actions.isEmpty then [.noActions] else []) ++ validateActions env actions
  match validateConditions conditions with
  | .error (.dsl e) => .ok (.conditions e :: rest)
  | .error raised => .error raised
  | .ok () => .ok rest

end Gate

/-! ## The handlers -/

structure Popup where
  id : String
  workplaceId : String
  kind : String
  payload : Dict
  expiresAt : ℤ

/-- What an atomic action commits. -/
inductive Effect where
  | event (agg : EventAggregate)
  | popup (p : Popup)
  | outbox (actionType : ActionType) (payload : Fields)

/-- The effect of an action and the fields of its result; one that is enqueued also tells whether
it was new. -/
structure Made where
  effect : Effect
  result : Fields

section Handlers

variable (env : Surroundings) (key : ExecutionKey) (signal action : Fields)

/-- The title of an event: that of the action, or one that names the signal. -/
def eventTitle : String :=
  str env (orElse action "title"
    (.str ("Trigger: " ++ str env (getOr signal "signal_type" (.str "signal")))))

def newEvent (args : Events.CreateArgs) : Except Fault Made :=
  match EventAggregate.create args env.actorId with
  | .error e => .error (.escaped (.event e))
  | .ok agg => .ok ⟨.event agg,
      [("event_id", .str args.eventId), ("priority", .str args.priority.value)]⟩

/-- `_create_event`.  The arguments are evaluated before the event is made. -/
def createEvent : Except Fault Made :=
  match priorityOf (getOr action "priority" (.str "high")) with
  | none =>
    .error (.malformed ("invalid priority: " ++ (orNull action "priority").repr env.floatRepr))
  | some priority => do
      let title := eventTitle env signal action
      let bbzId ← asUuid env (orNull action "bbz_id")
      let workplaceId ← asUuid env (orNull action "workplace_id")
      let create (description : Option String) := newEvent env
        ⟨env.freshId key, title, priority, description, bbzId, workplaceId, "trigger"⟩
      match orNull action "description" with
      | .null => create none
      | .str description => create (some description)
      | v =>
        match Events.cleanTitle (some title) with
        | .error e => .error (.escaped (.event e))
        | .ok _ => .error (.escaped
            (.attributeError ("'" ++ v.typeName ++ "' object has no attribute 'strip'")))

/-- The times that `datetime` can hold, in microseconds. -/
def minTime : ℤ := -62135596800000000

def maxTime : ℤ := 253402300799999999

/-- A `TriggerActionError` stays one, and an exception of Python's own is not caught. -/
def escaping {α : Type} : Except Escape α → Except Fault α
  | .ok a => .ok a
  | .error e => .error (.escaped e)

/-- `payload.get("text")` is there and not falsy. -/
def Dict.hasText (payload : Dict) : Bool :=
  payload.any fun field => field.1.eq (.str "text") && field.2.truthy

/-- `_fill_doorbell_text`. -/
def fillDoorbellText (payload : Dict) : Except Fault Dict := do
  let source ← escaping (sourceDict signal)
  let endpointId := orNull source "technical_endpoint_id"
  if orNull signal "signal_type" ≠ .str "DOORBELL_RINGING" ∨ payload.hasText ∨
      !endpointId.truthy then
    .ok payload
  else
    let id ← asUuid env endpointId
    match id.bind env.popupText with
    | none => .ok payload
    | some text => .ok (if text = "" then payload else payload.insert (.str "text") (.str text))

/-- The popup on a workplace.  The payload of its domain event must have a kind. -/
def popupFor (workplaceId : String) : Except Fault Made := do
  let ttl ← escaping (toInt env (getOr action "ttl_seconds" (.int 120)))
  let expiresAt := env.now key + ttl * 1000000
  if expiresAt < minTime ∨ maxTime < expiresAt then .error (.escaped .overflowError)
  else
    let kind := str env (getOr action "kind" (.str "trigger"))
    let payload ← escaping (toDict (orElse action "payload" (.obj [])))
    let payload ← fillDoorbellText env signal payload
    if kind = "" then .error (.escaped (.envelopeInvalid "CLIENT_POPUP_RAISED"))
    else .ok ⟨.popup ⟨env.freshId key, workplaceId, kind, payload, expiresAt⟩,
      [("popup_id", .str (env.freshId key)), ("workplace_id", .str workplaceId)]⟩

/-- `_show_client_popup`. -/
def showClientPopup : Except Fault Made :=
  match asUuid env (orNull action "workplace_id") with
  | .error fault => .error fault
  | .ok none => .error (.malformed "show_client_popup requires workplace_id")
  | .ok (some workplaceId) => popupFor env key signal action workplaceId

/-- `_notify`. -/
def notify : Except Fault Made :=
  match orElse action "payload" (.obj []) with
  | .obj fields =>
    let signalType := (Json.get fields "signal_type").getD (orNull signal "signal_type")
    .ok ⟨.outbox .notify (("signal_type", signalType) :: fields.filter (·.1 ≠ "signal_type")), []⟩
  | v => .error (.escaped (.typeError ("'" ++ v.typeName ++ "' object is not a mapping")))

/-- The call of the action, or that of the signal. -/
def callIdOf : Except Escape Json :=
  if (orNull action "call_id").truthy then .ok (orNull action "call_id")
  else (sourceDict signal).map (orNull · "source_call_id")

/-- `_call_action`. -/
def callAction (type : ActionType) : Except Fault Made := do
  let callId ← escaping (callIdOf signal action)
  if !callId.truthy then
    .error (.malformed (type.value ++ " needs a call_id / source_call_id"))
  else
    let called : Fields := [("call_id", .str (str env callId))]
    if type ≠ .sendDtmfProfile then .ok ⟨.outbox type called, called⟩
    else if !(orNull action "dtmf_profile_id").truthy then
      .error (.malformed "send_dtmf_profile requires dtmf_profile_id")
    else if Json.has action "code" || Json.has action "dtmf" then
      .error (.malformed "a DTMF code must not appear in a rule action")
    else
      let profile := str env (orNull action "dtmf_profile_id")
      .ok ⟨.outbox type (called ++ [("dtmf_profile_id", .str profile)]), called⟩

/-- What a comprehension over a value runs through: items, characters or keys. -/
def iterate : Json → Except Escape (List Json)
  | .arr items => .ok items
  | .str s => .ok (s.toList.map fun c => .str (String.ofList [c]))
  | .obj fields => .ok (fields.map fun f => .str f.1)
  | v => .error (.typeError ("'" ++ v.typeName ++ "' object is not iterable"))

/-- The handles that an integration action carries. -/
def integrationPayload : ActionType → Except Fault Fields
  | .openCamera =>
    let ref := orElse action "camera_ref" (orNull action "camera_id")
    if ref.truthy then .ok [("camera_ref", .str (str env ref))]
    else .error (.malformed "open_camera requires camera_ref")
  | .openCameraGroup => do
      let items ← escaping (iterate (orElse action "camera_refs" (.arr [])))
      let refs := (items.filter (filled env)).map fun r => Json.str (str env r)
      let group := orNull action "camera_group_ref"
      if refs.isEmpty && !group.truthy then
        .error (.malformed "open_camera_group requires camera_refs or camera_group_ref")
      else .ok ((if refs.isEmpty then [] else [("camera_refs", .arr refs)]) ++
        if group.truthy then [("camera_group_ref", .str (str env group))] else [])
  | _ =>
    let capability := orNull action "capability"
    if !capability.truthy then .error (.malformed "integration_action requires capability")
    else do
      let params ← escaping (toDict (orElse action "params" (.obj [])))
      .ok [("capability", .str (str env capability)), ("params", ofDict env params)]

/-- `_integration_action`.  The last event of the run goes along. -/
def integrationAction (lastEventId : Option String) (type : ActionType) : Except Fault Made := do
  let payload ← integrationPayload env action type
  let workplaceId ← asUuid env (orNull action "workplace_id")
  let payload := payload ++
    (workplaceId.toList.map fun id => ("workplace_id", .str id)) ++
    [("command_id", .str key.text)] ++
    (lastEventId.toList.map fun id => ("event_id", .str id))
  .ok ⟨.outbox type payload, payload⟩

/-- `_dispatch`. -/
def dispatch (lastEventId : Option String) : Except Fault Made :=
  let text := str env (getOr action "type" (.str ""))
  match ActionType.ofText text with
  | some .createEvent => createEvent env key signal action
  | some .showClientPopup => showClientPopup env key signal action
  | some .notify => notify signal action
  | some .answerCall => callAction env signal action .answerCall
  | some .sendDtmfProfile => callAction env signal action .sendDtmfProfile
  | some .hangupCall => callAction env signal action .hangupCall
  | some .openCamera => integrationAction env key action lastEventId .openCamera
  | some .openCameraGroup => integrationAction env key action lastEventId .openCameraGroup
  | some .integrationAction => integrationAction env key action lastEventId .integrationAction
  | _ => .error (.malformed ("action type not supported here: " ++ Json.reprStr text))

end Handlers

/-- Surroundings in which every text but the empty one is a uuid and no text is a number. -/
def plainSurroundings : Surroundings where
  uuid text := if text = "" then none else some text
  int _ := none
  floatRepr _ := ""
  freshId key := key.text
  now _ := 0
  actorId := none
  popupText _ := none
  templates := [⟨"door", [⟨"w1", 1, true, Workflow.diamond.flatten⟩]⟩]
  externals := .plain
  engine _ _ := .plain
  uuid_ne text id h := by
    split at h
    · cases h
    · cases h
      assumption
  freshId_ne key h := by simp [ExecutionKey.text] at h

end BbzPlatform.Triggers
