import BbzPlatform.Telephony.Lifecycle
import BbzPlatform.Triggers.Rules

/-!
# The signal of a telephony event

Some types of events stand for a signal that trigger rules can react to.  A signal carries the
fields of its event that a rule may read, and it has to validate before it is stored.  The ring of a
door station is re-typed, and validated once more.

Whether the signal of an event validates depends on two fields of the metadata only.
-/

namespace BbzPlatform.Telephony

open Triggers List

inductive InboundSignalType where
  | callRinging
  | callAnswered
  | callEnded
  | technicalAlarmRaised
  | panicAlarmRaised
  | doorbellRinging
  | bmaAlarmCall
  deriving DecidableEq

def InboundSignalType.value : InboundSignalType → String
  | callRinging => "CALL_RINGING"
  | callAnswered => "CALL_ANSWERED"
  | callEnded => "CALL_ENDED"
  | technicalAlarmRaised => "TECHNICAL_ALARM_RAISED"
  | panicAlarmRaised => "PANIC_ALARM_RAISED"
  | doorbellRinging => "DOORBELL_RINGING"
  | bmaAlarmCall => "BMA_ALARM_CALL"

def fromTelephony : EventType → Option InboundSignalType
  | .callOffered => some .callRinging
  | .callRinging => some .callRinging
  | .callAnswered => some .callAnswered
  | .callConnected => some .callAnswered
  | .callDisconnected => some .callEnded
  | .callFailed => some .callEnded
  | _ => none

/-- The fields a rule may read. -/
structure SignalSource where
  ani : Option String
  dnis : Option String
  sourceCallId : Option String
  ctiRoutePoint : Json
  technicalEndpointId : Json
  direction : Option String

structure InboundSignal where
  signalType : InboundSignalType
  provider : String
  occurredAt : String
  receivedAt : String
  gatewayNode : String
  correlationId : Option String
  source : SignalSource

/-- The signal as it is validated and stored. -/
def InboundSignal.toJson (s : InboundSignal) : Json :=
  let text := Json.ofOption Json.str
  .obj [("signal_type", .str s.signalType.value), ("provider", .str s.provider),
    ("occurred_at", .str s.occurredAt), ("received_at", .str s.receivedAt),
    ("gateway_node", .str s.gatewayNode), ("correlation_id", text s.correlationId),
    ("source", .obj [("ani", text s.source.ani), ("dnis", text s.source.dnis),
      ("source_call_id", text s.source.sourceCallId),
      ("cti_route_point", s.source.ctiRoutePoint),
      ("technical_endpoint_id", s.source.technicalEndpointId),
      ("direction", text s.source.direction)])]

/-- A signal does not validate against `inbound_signal.v1`. -/
inductive InboundSignalRejected where
  | rejected

variable {isDateTime : String → Bool}

/-- `validate_inbound_signal`. -/
def validateInboundSignal (isDateTime : String → Bool) (signal : InboundSignal) :
    Except InboundSignalRejected Unit :=
  if inboundSignal isDateTime signal.toJson then .ok () else .error .rejected

def signalDirection (metadata : List (String × Json)) : Option String :=
  match orNull metadata "direction" with
  | .str "inbound" => some "inbound"
  | .str "outbound" => some "outbound"
  | _ => none

/-- The fields of an event that a signal carries. -/
def signalOf (event : TelephonyEvent isDateTime) (signalType : InboundSignalType) :
    InboundSignal where
  signalType := signalType
  provider := event.provider
  occurredAt := event.occurredAt
  receivedAt := event.receivedAt
  gatewayNode := event.gatewayNode
  correlationId := event.correlationId
  source :=
    ⟨event.callingNumber, event.calledNumber, event.sourceCallId,
      orNull event.metadata "cti_route_point", orNull event.metadata "technical_endpoint_id",
      signalDirection event.metadata⟩

/-- `from_telephony_event`. -/
def fromTelephonyEvent (event : TelephonyEvent isDateTime) :
    Except InboundSignalRejected (Option InboundSignal) :=
  match fromTelephony event.eventType with
  | none => .ok none
  | some signalType => do
      let signal := signalOf event signalType
      validateInboundSignal isDateTime signal
      pure (some signal)

structure EndpointNumber where
  calledPattern : Option String
  callingPattern : Option String
  ctiRoutePoint : Option String

structure TechnicalEndpoint where
  id : String
  type : String
  enabled : Bool
  numbers : List EndpointNumber

/-- The first enabled endpoint of a type whose numbers match, by id. -/
def matchTechnicalEndpoint (endpoints : List TechnicalEndpoint) (calling called cti : Option String)
    (types : List String) : Option String :=
  let hit (value pattern : Option String) : Bool := (present value).isSome && pattern = value
  (((endpoints.filter fun e => e.enabled && types.contains e.type && e.numbers.any fun n =>
      hit called n.calledPattern || hit calling n.callingPattern ||
        hit cti n.ctiRoutePoint).map (·.id)).insertionSort (· ≤ ·)).head?

def textOf : Json → Option String
  | .str s => some s
  | _ => none

/-- The door station a ringing signal comes from. -/
def doorbell (endpoints : List TechnicalEndpoint) (signal : InboundSignal) : Option String :=
  if signal.signalType ≠ .callRinging ∨ signal.source.technicalEndpointId.truthy then none
  else
    matchTechnicalEndpoint endpoints signal.source.ani signal.source.dnis
      (textOf signal.source.ctiRoutePoint) ["door_station"]

def InboundSignal.atDoor (signal : InboundSignal) (endpointId : String) : InboundSignal :=
  { signal with
    signalType := .doorbellRinging
    source := { signal.source with technicalEndpointId := .str endpointId } }

/-- Re-type the ring of a door station. -/
def resolveDoorbell (isDateTime : String → Bool) (endpoints : List TechnicalEndpoint)
    (signal : InboundSignal) : Except InboundSignalRejected InboundSignal :=
  match doorbell endpoints signal with
  | none => .ok signal
  | some endpointId => do
      validateInboundSignal isDateTime (signal.atDoor endpointId)
      pure (signal.atDoor endpointId)

/-! ## What validates -/

def MetadataFits (event : TelephonyEvent isDateTime) : Bool :=
  nullableString (orNull event.metadata "cti_route_point") &&
    nullableString (orNull event.metadata "technical_endpoint_id")

theorem nullableString_ofOption (text : Option String) :
    nullableString (Json.ofOption Json.str text) = true := by
  cases text <;> rfl

theorem nullOr_signalDirection (metadata : List (String × Json)) :
    nullOr ["inbound", "outbound"] (Json.ofOption Json.str (signalDirection metadata))
      = true := by
  unfold signalDirection
  split <;> rfl

theorem value_mem_signalTypes (t : InboundSignalType) :
    oneOf signalTypes (.str t.value) = true := by
  cases t <;> rfl

theorem validate_fields (event : TelephonyEvent isDateTime) (signalType : InboundSignalType)
    (technicalEndpointId : Json) :
    validateInboundSignal isDateTime { signalOf event signalType with
        source := { (signalOf event signalType).source with technicalEndpointId } } =
      if nullableString (orNull event.metadata "cti_route_point") &&
        nullableString technicalEndpointId then .ok () else .error .rejected := by
  simp [validateInboundSignal, inboundSignal, conforms, InboundSignal.toJson,
    signalOf, Json.has, Json.get, lookup_cons, sourceProperties,
    nullableString_ofOption, nullOr_signalDirection, value_mem_signalTypes,
    nonemptyString, event.provider_ne, event.gatewayNode_ne, event.occurredAt_ok,
    event.receivedAt_ok]

theorem validate_signalOf (event : TelephonyEvent isDateTime) (signalType : InboundSignalType) :
    validateInboundSignal isDateTime (signalOf event signalType) =
      if MetadataFits event then .ok () else .error .rejected :=
  validate_fields event signalType _

theorem validate_atDoor {event : TelephonyEvent isDateTime} (signalType : InboundSignalType)
    (endpointId : String) (h : MetadataFits event) :
    validateInboundSignal isDateTime ((signalOf event signalType).atDoor endpointId) = .ok () := by
  have hcti : nullableString (orNull event.metadata "cti_route_point") = true := by
    simp only [MetadataFits, Bool.and_eq_true] at h
    exact h.1
  refine (validate_fields event .doorbellRinging (.str endpointId)).trans ?_
  rw [hcti]
  rfl

end BbzPlatform.Telephony
