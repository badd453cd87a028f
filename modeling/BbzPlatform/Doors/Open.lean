import BbzPlatform.Commands.Store
import BbzPlatform.Redaction
import BbzPlatform.Telephony.Ingest

/-!
# Opening a door

An operator opens a door by a command: the DTMF sequence of the door station is sent into a call.
`DoorOpenService.open` claims the command id, resolves the sequence, takes up the row of the command
in `door_open_commands`, answers the call if it has to, waits until it is connected, sends the
sequence unless the row says that it was sent, hangs up, and records the outcome.

The model follows the requests with one command id, on any number of hosts.  Each statement is a
move; the environment chooses what the provider and the database answer.  A request can fail or be
cancelled at every statement, the process that serves it can die, and the row of the command id in
`commands` can be purged.  The adapter of a host remembers the commands it has acknowledged until
the host is restarted; between its look at this memory and the acknowledgement it waits for the
gateway.  A crash of a host is the death of its requests and a restart.
-/

namespace BbzPlatform.Doors

open Function
open Commands (CommandRow StoredResult ClaimError)
open Telephony (TechnicalEndpoint matchTechnicalEndpoint)

/-! ## Door stations -/

structure DoorEndpoint extends TechnicalEndpoint where
  dtmfProfileId : Option String
  doorOpenTimeoutSeconds : Option ℕ

/-- A row of `door_action_profiles`; `none` is a sequence that cannot be decrypted. -/
structure DoorActionProfile where
  id : String
  dtmf : Option String
  postDtmfDelayMs : ℕ
  autoHangup : Bool

/-- The numbers of a call. -/
structure Parties where
  calling : Option String
  called : Option String
  ctiRoutePoint : Option String

/-- The command that is followed, the configuration, and who takes part in a call. -/
structure Site where
  commandId : String
  endpoints : List DoorEndpoint
  profiles : List DoorActionProfile
  parties : String → Parties

/-- Why a request is refused. -/
inductive DoorError where
  | doorOpen (message code : String)
  | doorSecretsNotConfigured
  | claim (error : ClaimError)
  | malformedBody
  | failed (text : String)
  | cancelled
  deriving DecidableEq

/-- What a door station is opened with. -/
structure Plan where
  digits : String
  delayMs : ℕ
  autoHangup : Bool
  timeoutSeconds : ℕ
  deriving DecidableEq

/-- `scrub` of a detail while the sequence is registered. -/
def Plan.scrub (plan : Plan) (detail : String) : String :=
  let secrets := [plan.digits.toList].filter fun s => Redaction.minLength ≤ s.length
  String.ofList (Redaction.scrubText secrets detail.toList)

/-- `_DEFAULT_TIMEOUT_S`. -/
def defaultTimeoutSeconds : ℕ := 15

namespace Site

variable (site : Site)

/-- `match_technical_endpoint` restricted to door stations, on the numbers of a call. -/
def doorOf (callId : String) : Option String :=
  let parties := site.parties callId
  matchTechnicalEndpoint (site.endpoints.map (·.toTechnicalEndpoint)) parties.calling parties.called
    parties.ctiRoutePoint ["door_station"]

/-- `door_open_timeout_seconds or _DEFAULT_TIMEOUT_S`. -/
def timeoutOf (endpoint : DoorEndpoint) : ℕ :=
  match endpoint.doorOpenTimeoutSeconds with
  | none | some 0 => defaultTimeoutSeconds
  | some seconds => seconds

/-- The plan of an endpoint; `none` without a usable profile. -/
def resolve (endpointId : String) : Except DoorError (Option Plan) :=
  match site.endpoints.find? (·.id = endpointId) with
  | none => .error (.doorOpen "not a door station" "not_found")
  | some endpoint =>
    if endpoint.type ≠ "door_station" then .error (.doorOpen "not a door station" "not_found")
    else
      match endpoint.dtmfProfileId with
      | none => .ok none
      | some profileId =>
        match site.profiles.find? (·.id = profileId) with
        | none => .ok none
        | some profile =>
          match profile.dtmf with
          | none => .error .doorSecretsNotConfigured
          | some digits =>
            .ok (some ⟨digits, profile.postDtmfDelayMs, profile.autoHangup,
              timeoutOf endpoint⟩)

end Site

/-! ## Rows and results -/

/-- `DoorOpenState`. -/
inductive DoorOpenState where
  | requested
  | answering
  | connecting
  | dtmfSent
  | completing
  | done
  | failed
  | timedOut
  deriving DecidableEq

/-- `DoorOpenOutcome`. -/
inductive DoorOpenOutcome where
  | opened
  | callerGone
  | mediaTimeout
  | noDtmfCapability
  | noProfile
  | providerError
  | telephonyUnavailable
  | answerForbidden
  deriving DecidableEq

namespace DoorOpenOutcome

def value : DoorOpenOutcome → String
  | opened => "opened"
  | callerGone => "caller_gone"
  | mediaTimeout => "media_timeout"
  | noDtmfCapability => "no_dtmf_capability"
  | noProfile => "no_profile"
  | providerError => "provider_error"
  | telephonyUnavailable => "telephony_unavailable"
  | answerForbidden => "answer_forbidden"

def all : List DoorOpenOutcome :=
  [opened, callerGone, mediaTimeout, noDtmfCapability, noProfile, providerError,
    telephonyUnavailable, answerForbidden]

def ofValue (text : String) : Option DoorOpenOutcome := all.find? (·.value = text)

theorem ofValue_value (outcome : DoorOpenOutcome) : ofValue outcome.value = some outcome := by
  cases outcome <;> rfl

/-- `_TERMINAL_STATE`. -/
def terminalState : DoorOpenOutcome → DoorOpenState
  | opened => .done
  | mediaTimeout => .timedOut
  | _ => .failed

end DoorOpenOutcome

/-- A row of `door_open_commands`; `dtmfSent` is whether `dtmf_sent_at` is set. -/
structure DoorOpenCommand where
  endpointId : String
  callId : String
  state : DoorOpenState
  outcome : Option DoorOpenOutcome
  detail : Option String
  dtmfSent : Bool

/-- `DoorOpenResult`. -/
structure DoorOpenResult where
  commandId : String
  endpointId : String
  outcome : DoorOpenOutcome
  opened : Bool
  detail : String
  deriving DecidableEq

namespace DoorOpenResult

/-- `as_body`. -/
def asBody (r : DoorOpenResult) : Json :=
  .obj [("command_id", .str r.commandId), ("endpoint_id", .str r.endpointId),
    ("outcome", .str r.outcome.value), ("opened", .bool r.opened), ("detail", .str r.detail)]

/-- `from_body`, on a body with texts. -/
def fromBody (body : Json) : Option DoorOpenResult :=
  match body with
  | .obj b =>
    match Json.get b "command_id", Json.get b "endpoint_id", Json.get b "outcome",
        Json.get b "opened", Json.get b "detail" with
    | some (.str commandId), some (.str endpointId), some (.str outcome), some opened,
        some (.str detail) =>
        (DoorOpenOutcome.ofValue outcome).map fun outcome =>
          ⟨commandId, endpointId, outcome, opened.truthy, detail⟩
    | _, _, _, _, _ => none
  | _ => none

/-- A result is read as it was stored. -/
@[simp] theorem fromBody_asBody (r : DoorOpenResult) : fromBody r.asBody = some r := by
  simp [fromBody, asBody, Json.get, List.lookup_cons, DoorOpenOutcome.ofValue_value, Json.truthy]

end DoorOpenResult

/-! ## Requests -/

/-- What is asked for; the hash of a request stands for it. -/
structure DoorRequest where
  endpointId : String
  callId : String
  deriving DecidableEq

/-- A request, and the host that serves it. -/
structure Job where
  host : ℕ
  request : DoorRequest
  actorId : Option String
  mayAnswer : Bool

/-- Where `_drive` is; the next statement is named after the point it leads away from. -/
inductive Point where
  | start
  | provided
  | capable
  | ringing
  | answering
  | found
  | connecting
  | connected
  | unsent
  | sending
  | received
  | sent
  | delivered
  | completing
  deriving DecidableEq

/-- What a request ends with. -/
inductive Reply where
  | returned (result : DoorOpenResult)
  | raised (error : DoorError)
  | died

inductive Phase where
  | idle
  | claimed (job : Job)
  | resolved (job : Job) (plan : Option Plan)
  | driving (job : Job) (plan : Plan) (point : Point)
  | finishing (job : Job) (outcome : DoorOpenOutcome) (detail : String)
  | finished (result : DoorOpenResult)
  | raising (error : DoorError)
  | ended (reply : Reply)

/-- `CallLifecycleState`. -/
inductive CallState where
  | offered
  | ringing
  | connected
  | held
  | transferring
  | disconnected
  | failed
  deriving DecidableEq

/-- `_RINGING_STATES`. -/
def CallState.isRinging : CallState → Bool
  | .offered | .ringing => true
  | _ => false

/-- `_ENDED_STATES`. -/
def CallState.isEnded : CallState → Bool
  | .disconnected | .failed => true
  | _ => false

/-- What a request does next, with what it is answered. -/
inductive Action where
  /-- The claim of the command id. -/
  | claim (job : Job)
  /-- The endpoint and its profile are read. -/
  | resolve
  /-- The row of the command is inserted, or found. -/
  | take
  /-- Whether a provider is active. -/
  | provider (active : Bool)
  /-- Whether it can send DTMF. -/
  | capabilities (sendsDtmf : Bool)
  /-- The call among the active ones. -/
  | snapshot (state : Option CallState)
  /-- A state is written to the row. -/
  | setState
  /-- The call is answered. -/
  | answer
  /-- The call while it is waited for, and whether the deadline has passed. -/
  | poll (state : Option CallState) (late : Bool)
  /-- `dtmf_sent_at` is read. -/
  | check
  /-- The sequence is handed to the adapter. -/
  | send
  /-- The gateway receives it. -/
  | receive
  /-- The adapter acknowledges the command. -/
  | acknowledge (accepted : Bool)
  /-- `dtmf_sent_at` is written. -/
  | record
  /-- The call is hung up. -/
  | hangup
  /-- The outcome is written. -/
  | finish
  /-- The result is stored under the command id. -/
  | complete
  /-- The claim is dropped. -/
  | abandon
  /-- The statement raises. -/
  | fail (text : String)
  /-- The request is cancelled. -/
  | cancel
  /-- The process that serves the request dies. -/
  | die
  /-- A host is restarted. -/
  | restart (host : ℕ)
  /-- The row of the command id is purged. -/
  | purge

/-! ## One statement -/

/-- How `_drive` goes on. -/
inductive Next where
  | goOn (point : Point)
  | stop (outcome : DoorOpenOutcome) (detail : String)

def Next.phase (job : Job) (plan : Plan) : Next → Phase
  | .goOn point => .driving job plan point
  | .stop outcome detail => .finishing job outcome (plan.scrub detail)

/-- The statements of `_drive` that ask the provider. -/
def Point.next (job : Job) (plan : Plan) : Point → Action → Option Next
  | .start, .provider active =>
    some (if active then .goOn .provided
      else .stop .telephonyUnavailable "no active telephony provider")
  | .provided, .capabilities sendsDtmf =>
    some (if sendsDtmf then .goOn .capable
      else .stop .noDtmfCapability "the telephony provider cannot send DTMF")
  | .capable, .snapshot none =>
    some (.stop .callerGone "no active call for the given call_id")
  | .capable, .snapshot (some state) =>
    some (if !state.isRinging then .goOn .found
      else if job.mayAnswer then .goOn .ringing
      else .stop .answerForbidden
        "the doorbell call must be answered first — needs door.answer")
  | .answering, .answer => some (.goOn .found)
  | .connecting, .poll none _ =>
    some (.stop .callerGone "the call ended before media was ready")
  | .connecting, .poll (some state) late =>
    some (if state = .connected then .goOn .connected
      else if state.isEnded then .stop .callerGone "the call ended before media was ready"
      else if late then .stop .mediaTimeout
        ("the call did not reach CONNECTED within " ++ toString plan.timeoutSeconds ++ "s")
      else .goOn .connecting)
  | .completing, .hangup => some (.stop .opened "DTMF sequence delivered")
  | _, _ => none

def Point.mark : Point → Option (DoorOpenState × Point)
  | .ringing => some (.answering, .answering)
  | .found => some (.connecting, .connecting)
  | .delivered => some (.completing, .completing)
  | _ => none

/-- What becomes of an exception in `_drive`: up to the sequence it is the provider's error, and
after it only the hangup has failed. -/
def Point.fault (job : Job) (plan : Plan) (text : String) : Point → Phase
  | .start | .provided => .raising (.failed text)
  | .delivered | .completing =>
    .finishing job .opened (plan.scrub "DTMF delivered; auto-hangup failed")
  | _ => .finishing job .providerError (plan.scrub ("telephony provider error: " ++ text))

def afterDtmf (job : Job) (plan : Plan) : Phase :=
  if plan.autoHangup then .driving job plan .delivered
  else .finishing job .opened (plan.scrub "DTMF sequence delivered")

namespace Phase

/-- What becomes of an exception or a cancellation; `except Exception` lets a cancellation pass. -/
def onError (e : DoorError) : Phase → Option Phase
  | idle | finished _ | raising _ => some (.ended (.raised e))
  | claimed _ | resolved _ _ | finishing _ _ _ => some (.raising e)
  | driving job plan point =>
    match e with
    | .failed text => some (point.fault job plan text)
    | e => some (.raising e)
  | ended _ => none

/-- The gateway may have the sequence, and this is not recorded yet. -/
def isSent : Phase → Bool
  | driving _ _ .received | driving _ _ .sent => true
  | _ => false

/-- A request has begun and not ended. -/
def isRunning : Phase → Bool
  | idle | ended _ => false
  | _ => true

end Phase

/-- A sequence that was handed to the provider. -/
structure Send where
  endpointId : String
  callId : String
  digits : String

/-- The rows, what the adapters remember, the requests, and what has happened: the sequences that
were handed to the provider, how many the gateway has received, whether one was acknowledged, and
whether a request was interrupted between the receipt and its record. -/
structure Desk where
  claim : Option (CommandRow DoorRequest)
  row : Option DoorOpenCommand
  seen : ℕ → Option Bool
  phase : ℕ → Phase
  sends : List Send
  received : ℕ
  accepted : Bool
  interrupted : Bool

def Site.result (site : Site) (job : Job) (outcome : DoorOpenOutcome) (detail : String) :
    DoorOpenResult :=
  ⟨site.commandId, job.request.endpointId, outcome, outcome = .opened, detail⟩

namespace Desk

variable (site : Site) (s : Desk) (p : ℕ)

/-- No request yet. -/
def start : Desk := ⟨none, none, fun _ => none, fun _ => .idle, [], 0, false, false⟩

def goTo (x : Phase) : Desk := { s with phase := update s.phase p x }

/-- A request is diverted by an exception, a cancellation or a crash. -/
def leave (x : Phase) : Desk :=
  { s.goTo p x with
    interrupted := s.interrupted || ((s.phase p).isSent && decide (0 < s.received)) }

/-- `_ENDPOINT`. -/
def endpointName : String := "POST /api/v1/doors/{endpoint_id}/open"

/-- What a request finds that does not get the command id.  Its `SELECT` comes after the `INSERT`;
a row that is gone by then makes it fail. -/
def replay (row : CommandRow DoorRequest) (job : Job) : Reply :=
  match Commands.lookup (some row) job.request with
  | .error e => .raised (.claim e)
  | .ok stored =>
    match DoorOpenResult.fromBody stored.body with
    | none => .raised .malformedBody
    | some result => .returned result

/-- `claim`. -/
def claimId (job : Job) : Desk :=
  match s.claim with
  | none =>
    { s.goTo p (.claimed job) with
      claim := some ⟨⟨job.actorId, endpointName, job.request⟩, none⟩ }
  | some row => s.goTo p (.ended (replay row job))

/-- The endpoint and its profile. -/
def resolvePlan (job : Job) : Desk :=
  match site.resolve job.request.endpointId with
  | .error e => s.goTo p (.raising e)
  | .ok plan => s.goTo p (.resolved job plan)

/-- Where a request goes on that has no earlier outcome. -/
def takenPhase (job : Job) : Option Plan → Phase
  | none => .finishing job .noProfile "the door station has no usable DTMF profile"
  | some plan => .driving job plan .start

/-- The row of the command is inserted, replayed or resumed. -/
def takeRow (job : Job) (plan : Option Plan) : Desk :=
  match s.row with
  | none =>
    { s.goTo p (takenPhase job plan) with
      row := some ⟨job.request.endpointId, job.request.callId, .requested, none, none, false⟩ }
  | some row =>
    match row.outcome with
    | none => s.goTo p (takenPhase job plan)
    | some outcome => s.goTo p (.finished (site.result job outcome (row.detail.getD "")))

/-- `_set_state`. -/
def setState (state : DoorOpenState) : Desk :=
  { s with row := s.row.map fun row => { row with state } }

/-- `dtmf_sent_at is not None`. -/
def alreadySent : Bool := s.row.any (·.dtmfSent)

/-- `dtmf_sent_at` decides whether the sequence is sent. -/
def checkSent (job : Job) (plan : Plan) : Desk :=
  s.goTo p (if s.alreadySent then afterDtmf job plan else .driving job plan .unsent)

/-- `send_dtmf` up to its request to the gateway: a command that was acknowledged is not sent
again. -/
def sendDtmf (job : Job) (plan : Plan) : Desk :=
  let point := match s.seen job.host with
    | some _ => .sent
    | none => .sending
  { s.goTo p (.driving job plan point) with
    sends := s.sends ++ [⟨job.request.endpointId, job.request.callId, plan.digits⟩] }

def receive (job : Job) (plan : Plan) : Desk :=
  { s.goTo p (.driving job plan .received) with received := s.received + 1 }

/-- `_ack`.  The request goes on without a look at the acknowledgement. -/
def ack (job : Job) (plan : Plan) (accepted : Bool) : Desk :=
  { s.goTo p (.driving job plan .sent) with
    seen := update s.seen job.host (some accepted)
    accepted := s.accepted || accepted }

def recordSent (job : Job) (plan : Plan) : Desk :=
  { s.goTo p (afterDtmf job plan) with
    row := s.row.map fun row => { row with state := .dtmfSent, dtmfSent := true } }

/-- The outcome is written to the row. -/
def finish (job : Job) (outcome : DoorOpenOutcome) (detail : String) : Desk :=
  { s.goTo p (.finished (site.result job outcome detail)) with
    row := s.row.map fun row => { row with
      outcome := some outcome
      detail := some detail
      state := outcome.terminalState } }

/-- `complete`. -/
def complete (result : DoorOpenResult) : Desk :=
  match s.claim with
  | none => s.goTo p (.ended (.raised (.claim .noResultFound)))
  | some row =>
    { s.goTo p (.ended (.returned result)) with
      claim := some (Commands.complete row ⟨200, result.asBody⟩) }

/-- One statement of one request. -/
def step (m : Action) : Option Desk :=
  match m, s.phase p with
  | .restart host, _ => some { s with seen := update s.seen host none }
  | .purge, _ => some { s with claim := none }
  | .fail text, x => (x.onError (.failed text)).map (s.leave p)
  | .cancel, x => (x.onError .cancelled).map (s.leave p)
  | .die, x => if x.isRunning then some (s.leave p (.ended .died)) else none
  | .claim job, .idle => some (s.claimId p job)
  | .resolve, .claimed job => some (s.resolvePlan site p job)
  | .take, .resolved job plan => some (s.takeRow site p job plan)
  | .setState, .driving job plan point =>
    point.mark.map fun mark => (s.setState mark.1).goTo p (.driving job plan mark.2)
  | .check, .driving job plan .connected => some (s.checkSent p job plan)
  | .send, .driving job plan .unsent => some (s.sendDtmf p job plan)
  | .receive, .driving job plan .sending => some (s.receive p job plan)
  | .acknowledge false, .driving job plan .sending => some (s.ack p job plan false)
  | .acknowledge accepted, .driving job plan .received => some (s.ack p job plan accepted)
  | .record, .driving job plan .sent => some (s.recordSent p job plan)
  | .finish, .finishing job outcome detail => some (s.finish site p job outcome detail)
  | .complete, .finished result => some (s.complete p result)
  | .abandon, .raising e =>
    some { s.goTo p (.ended (.raised e)) with claim := Commands.abandon s.claim }
  | m, .driving job plan point =>
    (point.next job plan m).map fun next => s.goTo p (next.phase job plan)
  | _, _ => none

end Desk

/-- Statements of one request in a row. -/
def inRow (p : ℕ) (actions : List Action) : List (ℕ × Action) := actions.map fun m => (p, m)

/-! ## What a statement does -/

/-- The statements, with where they stand. -/
inductive Effect (site : Site) (s : Desk) (p : ℕ) : Action → Desk → Prop where
  | restart {host : ℕ} :
      Effect site s p (.restart host) { s with seen := update s.seen host none }
  | purge : Effect site s p .purge { s with claim := none }
  | fault {text : String} {x : Phase} (h : (s.phase p).onError (.failed text) = some x) :
      Effect site s p (.fail text) (s.leave p x)
  | cancel {x : Phase} (h : (s.phase p).onError .cancelled = some x) :
      Effect site s p .cancel (s.leave p x)
  | die (h : (s.phase p).isRunning = true) : Effect site s p .die (s.leave p (.ended .died))
  | claim {job : Job} (h : s.phase p = .idle) : Effect site s p (.claim job) (s.claimId p job)
  | resolve {job : Job} (h : s.phase p = .claimed job) :
      Effect site s p .resolve (s.resolvePlan site p job)
  | take {job : Job} {plan : Option Plan} (h : s.phase p = .resolved job plan) :
      Effect site s p .take (s.takeRow site p job plan)
  | setState {job : Job} {plan : Plan} {point point' : Point} {state : DoorOpenState}
      (h : s.phase p = .driving job plan point) (hmark : point.mark = some (state, point')) :
      Effect site s p .setState ((s.setState state).goTo p (.driving job plan point'))
  | check {job : Job} {plan : Plan} (h : s.phase p = .driving job plan .connected) :
      Effect site s p .check (s.checkSent p job plan)
  | send {job : Job} {plan : Plan} (h : s.phase p = .driving job plan .unsent) :
      Effect site s p .send (s.sendDtmf p job plan)
  | receive {job : Job} {plan : Plan} (h : s.phase p = .driving job plan .sending) :
      Effect site s p .receive (s.receive p job plan)
  | acknowledge {job : Job} {plan : Plan} {point : Point} {accepted : Bool}
      (h : s.phase p = .driving job plan point) (hpoint : point = .sending ∨ point = .received) :
      Effect site s p (.acknowledge accepted) (s.ack p job plan accepted)
  | record {job : Job} {plan : Plan} (h : s.phase p = .driving job plan .sent) :
      Effect site s p .record (s.recordSent p job plan)
  | finish {job : Job} {outcome : DoorOpenOutcome} {detail : String}
      (h : s.phase p = .finishing job outcome detail) :
      Effect site s p .finish (s.finish site p job outcome detail)
  | complete {result : DoorOpenResult} (h : s.phase p = .finished result) :
      Effect site s p .complete (s.complete p result)
  | abandon {e : DoorError} (h : s.phase p = .raising e) :
      Effect site s p .abandon
        { s.goTo p (.ended (.raised e)) with claim := Commands.abandon s.claim }
  | ask {job : Job} {plan : Plan} {point : Point} {m : Action} {next : Next}
      (h : s.phase p = .driving job plan point) (hnext : point.next job plan m = some next) :
      Effect site s p m (s.goTo p (next.phase job plan))

/-- Every statement is one of them. -/
theorem step_effect {site : Site} {s t : Desk} {p : ℕ} {m : Action}
    (h : s.step site p m = some t) : Effect site s p m t := by
  unfold Desk.step at h
  split at h
  all_goals try (cases h; constructor; assumption)
  · cases h
    exact .restart
  · cases h
    exact .purge
  · obtain ⟨x, hx, rfl⟩ := Option.map_eq_some_iff.mp h
    exact .fault hx
  · obtain ⟨x, hx, rfl⟩ := Option.map_eq_some_iff.mp h
    exact .cancel hx
  · obtain ⟨hrunning, rfl⟩ := by simpa using h
    exact .die hrunning
  · obtain ⟨⟨state, point'⟩, hmark, rfl⟩ := Option.map_eq_some_iff.mp h
    exact .setState ‹_› hmark
  · exact .inl rfl
  · exact .inr rfl
  · obtain ⟨next, hnext, rfl⟩ := Option.map_eq_some_iff.mp h
    exact .ask ‹_› hnext
  · cases h

end BbzPlatform.Doors
