import BbzPlatform.Events.Aggregate
import BbzPlatform.Telephony.Call

/-!
# How a call is stored and how it ends

The rows about a call are written from three sides.  A provider event runs the aggregate and stores
its state.  An operator who hangs up either closes the call or, as long as the call has no category,
parks it in `ended_pending_documentation`.  Saving the documentation closes a call that was parked.

The sides have different notions of an ended call.  The aggregate absorbs everything after a
terminal state, parked calls included, and closing does nothing to a disconnected or failed call.
But the hangup guard parks a call that has no category without looking at its state.
-/

namespace BbzPlatform.Telephony

/-- A `telephony_event.v1`, as far as the platform reads it, given what the format checker takes for
a date and time. -/
structure TelephonyEvent (isDateTime : String → Bool) where
  telephonyEventId : String
  provider : String
  eventType : EventType
  sourceCallId : Option String
  lineId : Option String
  callingNumber : Option String
  calledNumber : Option String
  displayName : Option String
  occurredAt : String
  receivedAt : String
  gatewayNode : String
  correlationId : Option String
  metadata : List (String × Json)
  id_ne : telephonyEventId ≠ ""
  provider_ne : provider ≠ ""
  gatewayNode_ne : gatewayNode ≠ ""
  occurredAt_ok : isDateTime occurredAt = true
  receivedAt_ok : isDateTime receivedAt = true

/-- A Python `str | None` as a condition: neither `None` nor empty. -/
def present (text : Option String) : Option String := text.filter (· ≠ "")

/-- A row of `calls`. -/
structure Call where
  id : String
  bbzCallId : String
  provider : String
  sourceCallId : Option String
  direction : CallDirection
  state : CallState
  lineId : Option String
  startedAt : Option ℤ
  endedAt : Option ℤ
  callerContactId : Option String
  callerPriority : Option String
  deriving DecidableEq

/-- The roles the service records. -/
inductive ParticipantRole where
  | caller
  | callee
  deriving DecidableEq

/-- A row of `call_participants`. -/
structure CallParticipant where
  number : String
  displayName : Option String
  role : ParticipantRole
  deriving DecidableEq

inductive CallCategory where
  | informationRequest
  | technicalFault
  | cleaningReportCustomer
  | evuEviNotice
  | other
  deriving DecidableEq

/-- The row of `call_documentation`. -/
structure CallDocumentation where
  category : Option CallCategory
  freeText : Option String
  documentedBy : Option String
  documentedAt : Option ℤ
  mandatoryDone : Bool
  deriving DecidableEq

/-- What is appended to the event log about a call: a business event of the aggregate, the
`CALL_ENDED` of `_finalize_ended`, or `CALL_DOCUMENTED`. -/
inductive LogEntry where
  | business (event : CallDomainEvent)
  | finalized (bbzCallId : String) (sourceCallId : Option String) (direction : CallDirection)
      (fromState : CallState) (actorId : String)
  | documented (bbzCallId : String) (category : CallCategory) (hasFreeText : Bool)
      (actorId : String)
  deriving DecidableEq

/-- The entry has the type `CALL_ENDED`. -/
def LogEntry.ended : LogEntry → Bool
  | business event => event.type = .callEnded
  | finalized .. => true
  | documented .. => false

/-- The rows about one call. -/
structure CallFile where
  call : Option Call
  participants : List CallParticipant
  documentation : Option CallDocumentation
  log : List LogEntry
  deriving DecidableEq

open CallFile

/-- What a request reads besides the rows of its call: the clock, fresh ids, the lines, the phone
book, and what the active provider answers to a hangup, or why there is none. -/
structure Surroundings where
  now : ℤ
  freshId : String
  mintedId : String
  lineId : String → String → Option String
  resolveCaller : String → Option (String × Option String)
  provider : Except String (Bool × Option String)

/-! ## Provider events -/

section Provider

variable {isDateTime : String → Bool} (env : Surroundings) (event : TelephonyEvent isDateTime)

/-- The direction in the metadata, or the one of the type of the first event. -/
def inferDirection : CallDirection :=
  match Json.get event.metadata "direction" with
  | some (.str "inbound") => .inbound
  | some (.str "outbound") => .outbound
  | _ =>
    if event.eventType = .callOffered ∨ event.eventType = .callRinging then .inbound
    else .outbound

/-- The row of a call that is seen for the first time. -/
def newCall (sourceCallId : String) : Call where
  id := env.freshId
  bbzCallId := env.mintedId
  provider := event.provider
  sourceCallId := some sourceCallId
  direction := inferDirection event
  state := .offered
  lineId := (present event.lineId).bind (env.lineId event.provider)
  startedAt := none
  endedAt := none
  callerContactId := none
  callerPriority := none

def Call.aggregate (call : Call) (sourceCallId : String) : CallAggregate :=
  ⟨call.bbzCallId, call.direction, call.state, some sourceCallId, call.lineId, []⟩

/-- Store the state of the aggregate. -/
def Call.persist (call : Call) (state : CallState) : Call :=
  if state = call.state then call
  else
    { call with
      state := state
      startedAt :=
        if state = .connected ∧ call.startedAt = none then some env.now else call.startedAt
      endedAt := if state.terminal ∧ call.endedAt = none then some env.now else call.endedAt }

def Call.resolveCaller (call : Call) : Call :=
  if call.callerContactId.isSome ∨ call.direction ≠ .inbound then call
  else
    match (present event.callingNumber).bind env.resolveCaller with
    | some (contactId, priority) =>
      { call with callerContactId := some contactId, callerPriority := priority }
    | none => call

/-- Record the caller and the callee where they are new. -/
def recordParticipants (participants : List CallParticipant) : List CallParticipant :=
  participants ++
    ([(present event.callingNumber, ParticipantRole.caller),
      (present event.calledNumber, ParticipantRole.callee)].filterMap fun (number, role) =>
        number.bind fun number =>
          if participants.any fun p => p.number = number && p.role = role then none
          else some ⟨number, if role = .caller then event.displayName else none, role⟩)

/-- `CallLifecycleService.on_provider_event`. -/
def onProviderEvent (file : CallFile) : CallFile :=
  match present event.sourceCallId with
  | none => file
  | some sourceCallId =>
    let call := file.call.getD (newCall env event sourceCallId)
    let agg := (call.aggregate sourceCallId).applyProviderEvent event.eventType
    { file with
      call := some ((call.persist env agg.state).resolveCaller env event)
      participants := recordParticipants event file.participants
      log := file.log ++ agg.collectEvents.1.map .business }

end Provider

/-! ## Operators -/

/-- What a request is refused with. -/
inductive ApiError where
  | notFound (message : String)
  | conflict (message : String)
  deriving DecidableEq

/-- `state in _FINAL_STATES`. -/
def CallState.final : CallState → Bool
  | disconnected | failed => true
  | _ => false

/-- Move a call to `disconnected` and append `CALL_ENDED`, unless it is final. -/
def finalizeEnded (env : Surroundings) (actorId : String) (call : Call) : Call × List LogEntry :=
  if call.state.final then (call, [])
  else
    ({ call with state := .disconnected, endedAt := some (call.endedAt.getD env.now) },
      [.finalized call.bbzCallId call.sourceCallId call.direction call.state actorId])

def CallFile.documented (file : CallFile) : Bool := file.documentation.any (·.mandatoryDone)

/-- The guard of a hangup: close a documented call, park any other. -/
def hangupGuard (env : Surroundings) (actorId : String) (file : CallFile) (call : Call) :
    CallFile × String :=
  if file.documented then
    let closed := finalizeEnded env actorId call
    ({ file with call := some closed.1, log := file.log ++ closed.2 }, "closed")
  else
    ({ file with
        call := some { call with
          state := .endedPendingDocumentation
          endedAt := some (call.endedAt.getD env.now) } },
      "pending documentation")

/-- The answer to a call control request. -/
structure ControlOut where
  callId : String
  action : String
  accepted : Bool
  detail : Option String
  deriving DecidableEq

/-- `POST /calls/{id}/hangup`. -/
def hangupCall (env : Surroundings) (actorId : String) (file : CallFile) :
    Except ApiError (CallFile × ControlOut) :=
  match file.call with
  | none => .error (.notFound "call not found")
  | some call =>
    if (present call.sourceCallId).isNone then
      .error (.conflict "the provider has not assigned this call an id yet")
    else
      match env.provider with
      | .error reason => .error (.conflict ("telephony is not available: " ++ reason))
      | .ok (accepted, _) =>
        let (file, note) := hangupGuard env actorId file call
        .ok (file, ⟨call.id, "hangup", accepted, some note⟩)

/-- The body of `PUT /calls/{id}/documentation`. -/
structure DocumentationIn where
  category : Option CallCategory
  freeText : Option String

/-- `PUT /calls/{id}/documentation`. -/
def putDocumentation (env : Surroundings) (actorId : String) (body : DocumentationIn)
    (file : CallFile) : Except ApiError (CallFile × CallDocumentation) :=
  match file.call with
  | none => .error (.notFound "call not found")
  | some call =>
    let freeText := present (some (Events.strip (body.freeText.getD "")))
    match body.category with
    | none =>
      let doc : CallDocumentation :=
        ⟨none, freeText, file.documentation.bind (·.documentedBy),
          file.documentation.bind (·.documentedAt), false⟩
      .ok ({ file with documentation := some doc }, doc)
    | some category =>
      let doc : CallDocumentation :=
        ⟨some category, freeText, some actorId, some env.now, true⟩
      let entry := LogEntry.documented call.bbzCallId category freeText.isSome actorId
      let closed :=
        if call.state = .endedPendingDocumentation then finalizeEnded env actorId call
        else (call, [])
      .ok ({ file with
          call := some closed.1
          documentation := some doc
          log := file.log ++ entry :: closed.2 }, doc)

/-! ## Runs -/

/-- A request about the call. -/
inductive Request (isDateTime : String → Bool) where
  | provider (env : Surroundings) (event : TelephonyEvent isDateTime)
  | hangup (env : Surroundings) (actorId : String)
  | document (env : Surroundings) (actorId : String) (body : DocumentationIn)

/-- The rows after a request; a refused one writes nothing. -/
def CallFile.handle {isDateTime : String → Bool} (file : CallFile) :
    Request isDateTime → CallFile
  | .provider env event => onProviderEvent env event file
  | .hangup env actorId =>
    match hangupCall env actorId file with
    | .ok (file, _) => file
    | .error _ => file
  | .document env actorId body =>
    match putDocumentation env actorId body file with
    | .ok (file, _) => file
    | .error _ => file

/-- The rows after a sequence of requests. -/
def CallFile.handleAll {isDateTime : String → Bool} (file : CallFile)
    (requests : List (Request isDateTime)) : CallFile :=
  requests.foldl handle file

/-- A call nobody has heard of. -/
def CallFile.unknown : CallFile := ⟨none, [], none, []⟩

def CallFile.state (file : CallFile) : Option CallState := file.call.map (·.state)

def CallFile.endings (file : CallFile) : ℕ := file.log.countP LogEntry.ended

/-- At most one `CALL_ENDED` is appended, and a final state is never left. -/
structure EndsOnce {isDateTime : String → Bool} (requests : List (Request isDateTime)) : Prop where
  once : (unknown.handleAll requests).endings ≤ 1
  stays : ∀ seen more rest s, requests = seen ++ more ++ rest →
    (unknown.handleAll seen).state = some s → s.final →
    (unknown.handleAll (seen ++ more)).state = some s

/-- A hangup that reaches a final call without a category. -/
def LateHangup {isDateTime : String → Bool} (file : CallFile) : Request isDateTime → Prop
  | .hangup env _ =>
    file.documented = false ∧ (∃ ack, env.provider = .ok ack) ∧
      ∃ call, file.call = some call ∧ (present call.sourceCallId).isSome ∧ call.state.final
  | _ => False

/-! ## What a request does to the state -/

/-- What a request can do to the stored state and the number of endings.  `late` says that the
request may park a final call. -/
inductive Effect (late : Prop) : Option CallState → ℕ → Option CallState → ℕ → Prop where
  | idle {s : Option CallState} {n : ℕ} : Effect late s n s n
  | seen {n : ℕ} : Effect late none n (some .offered) n
  | moved {s : Option CallState} {n : ℕ} (target : CallState)
      (hlive : (s.getD .offered).terminal = false) (hfinal : target.terminal → target.final) :
      Effect late s n (some target) (n + if target.terminal then 1 else 0)
  | closed {s : CallState} {n : ℕ} (hopen : s.final = false) :
      Effect late (some s) n (some .disconnected) (n + 1)
  | parked {s : CallState} {n : ℕ} (hlate : s.final → late) :
      Effect late (some s) n (some .endedPendingDocumentation) n

variable {isDateTime : String → Bool} {env : Surroundings} {event : TelephonyEvent isDateTime}
  {file : CallFile} {call : Call} {s s' : Option CallState} {n n' : ℕ} {r : Request isDateTime}
  {requests : List (Request isDateTime)}

section Effects

variable {late : Prop}

@[simp] theorem state_persist (state : CallState) : (call.persist env state).state = state := by
  unfold Call.persist
  split <;> simp_all

@[simp] theorem state_resolveCaller : (call.resolveCaller env event).state = call.state := by
  unfold Call.resolveCaller
  split
  · rfl
  · split <;> rfl

theorem final_of_target {e : EventType} {target : CallState}
    (h : providerTargetState e = some target) : target.terminal → target.final := by
  revert h
  cases e <;> rintro ⟨⟩ <;> decide

theorem countP_business (events : List CallDomainEvent) :
    (events.map LogEntry.business).countP LogEntry.ended
      = (events.map (·.type)).count .callEnded := by
  rw [List.countP_map, List.count, List.countP_map]
  exact List.countP_congr fun event _ => by simp [LogEntry.ended]

theorem count_callEnded {old new : CallState} (hlive : old.terminal = false) :
    (businessEventFor old new).toList.count .callEnded = if new.terminal then 1 else 0 := by
  revert hlive
  cases old <;> cases new <;> decide

theorem onProviderEvent_effect (env : Surroundings) (event : TelephonyEvent isDateTime)
    (file : CallFile) :
    Effect late file.state file.endings (onProviderEvent env event file).state
      (onProviderEvent env event file).endings := by
  unfold onProviderEvent
  cases present event.sourceCallId with
  | none => exact .idle
  | some sourceCallId =>
    simp only [state, endings, Option.map_some, state_resolveCaller,
      state_persist, CallAggregate.collectEvents, List.countP_append, countP_business]
    have hfresh : (file.call.getD (newCall env event sourceCallId)).state
        = (file.call.map (·.state)).getD .offered := by
      cases file.call <;> rfl
    generalize file.call.getD (newCall env event sourceCallId) = call at hfresh
    change Effect late _ _ _
      (_ + ((call.aggregate sourceCallId).applyProviderEvent event.eventType).emitted.count _)
    have hunmoved : Effect late (file.call.map (·.state)) (file.log.countP LogEntry.ended)
        (some call.state) (file.log.countP LogEntry.ended) := by
      rw [hfresh]
      cases file.call with
      | none => exact .seen
      | some call => exact .idle
    cases hterminal : call.state.terminal with
    | true =>
      rw [CallAggregate.apply_terminal (a := call.aggregate sourceCallId) hterminal]
      exact hunmoved
    | false =>
      cases htarget : providerTargetState event.eventType with
      | none =>
        rw [CallAggregate.apply_none htarget]
        exact hunmoved
      | some target =>
        obtain ⟨hstate, hemitted⟩ := CallAggregate.apply_some
          (a := call.aggregate sourceCallId) hterminal htarget
        rw [hstate, hemitted]
        change Effect late _ _ _ (_ + (businessEventFor call.state target).toList.count _)
        rw [count_callEnded hterminal]
        exact .moved target (by rw [← hfresh, hterminal]) (final_of_target htarget)

theorem finalizeEnded_effect (env : Surroundings) (actorId : String) (call : Call) (n : ℕ) :
    Effect late (some call.state) n (some (finalizeEnded env actorId call).1.state)
      (n + (finalizeEnded env actorId call).2.countP LogEntry.ended) := by
  unfold finalizeEnded
  cases hfinal : call.state.final with
  | true => exact .idle
  | false => exact .closed hfinal

theorem hangupGuard_effect (env : Surroundings) (actorId : String) (hcall : file.call = some call)
    (hlate : file.documented = false → call.state.final → late) :
    Effect late file.state file.endings (hangupGuard env actorId file call).1.state
      (hangupGuard env actorId file call).1.endings := by
  have hstate : file.state = some call.state := by simp [state, hcall]
  unfold hangupGuard
  rw [hstate]
  cases hdone : file.documented with
  | true =>
    simp only [if_true, state, endings, Option.map_some, List.countP_append]
    exact finalizeEnded_effect env actorId call _
  | false => exact .parked (hlate hdone)

/-- **What a request does.** -/
theorem handle_effect (file : CallFile) (r : Request isDateTime) :
    Effect (LateHangup file r) file.state file.endings (file.handle r).state
      (file.handle r).endings := by
  cases r with
  | provider env event => exact onProviderEvent_effect env event file
  | hangup env actorId =>
    unfold handle hangupCall
    cases hcall : file.call with
    | none => exact .idle
    | some call =>
      cases hsource : present call.sourceCallId with
      | none => simpa [hsource] using Effect.idle
      | some sourceCallId =>
        cases hack : env.provider with
        | error reason => simpa [hsource, hack] using Effect.idle
        | ok ack =>
          simp only [hsource, hack, Option.isNone_some, Bool.false_eq_true, if_false]
          refine hangupGuard_effect env actorId hcall fun hdone hfinal => ?_
          exact ⟨hdone, ⟨ack, hack⟩, call, hcall, by simp [hsource], hfinal⟩
  | document env actorId body =>
    obtain ⟨category, freeText⟩ := body
    unfold handle putDocumentation
    cases hcall : file.call with
    | none => exact .idle
    | some call =>
      have hstate : file.state = some call.state := by simp [state, hcall]
      cases category with
      | none => simpa [state, endings, hcall] using Effect.idle
      | some category =>
        rw [hstate]
        by_cases hpending : call.state = .endedPendingDocumentation
        · simpa [state, endings, hpending, LogEntry.ended] using
            finalizeEnded_effect env actorId call file.endings
        · simpa [state, endings, hpending, LogEntry.ended] using
            Effect.idle

end Effects

/-! ## Ending once -/

section Once

variable {late : Prop}

/-- The call has ended at most once, and if it has, its state is final. -/
structure Settled (s : Option CallState) (n : ℕ) : Prop where
  once : n ≤ 1
  final : 0 < n → ∃ t, s = some t ∧ t.final

theorem terminal_of_final {t : CallState} (h : t.final) : t.terminal := by
  revert h
  cases t <;> decide

/-- Where no final call is parked, a request ends a call at most once and leaves a final one. -/
theorem Settled.step (h : Settled s n) (heffect : Effect late s n s' n') (hlate : ¬ late) :
    Settled s' n' ∧ ∀ t, s = some t → t.final → s' = some t := by
  cases heffect with
  | idle => exact ⟨h, fun t ht _ => ht⟩
  | seen =>
    refine ⟨⟨h.once, fun hpos => ?_⟩, fun t ht => by cases ht⟩
    obtain ⟨t, ht, -⟩ := h.final hpos
    cases ht
  | moved target hlive hfinal =>
    have hopen : ∀ t, s = some t → ¬ t.final := by
      rintro t rfl ht
      rw [Option.getD_some, terminal_of_final ht] at hlive
      cases hlive
    have hzero : n = 0 := by
      by_contra hne
      obtain ⟨t, ht, htfinal⟩ := h.final (by omega)
      exact hopen t ht htfinal
    subst hzero
    refine ⟨⟨by split <;> omega, fun hpos => ⟨target, rfl, hfinal ?_⟩⟩,
      fun t ht htfinal => absurd htfinal (hopen t ht)⟩
    by_contra hlive'
    simp [hlive'] at hpos
  | @closed t _ hopen =>
    have hzero : n = 0 := by
      by_contra hne
      obtain ⟨_, ⟨⟩, htfinal⟩ := h.final (by omega)
      rw [hopen] at htfinal
      cases htfinal
    subst hzero
    refine ⟨⟨le_rfl, fun _ => ⟨_, rfl, rfl⟩⟩, ?_⟩
    rintro _ ⟨⟩ htfinal
    rw [hopen] at htfinal
    cases htfinal
  | parked hpark =>
    refine ⟨⟨h.once, fun hpos => ?_⟩, ?_⟩
    · obtain ⟨_, ⟨⟩, htfinal⟩ := h.final hpos
      exact absurd (hpark htfinal) hlate
    · rintro _ ⟨⟩ htfinal
      exact absurd (hpark htfinal) hlate

/-- No request of a sequence parks a final call. -/
def NoLateHangup (file : CallFile) (requests : List (Request isDateTime)) : Prop :=
  ∀ seen r rest, requests = seen ++ r :: rest → ¬ LateHangup (file.handleAll seen) r

theorem handleAll_append (file : CallFile) (seen more : List (Request isDateTime)) :
    file.handleAll (seen ++ more) = (file.handleAll seen).handleAll more :=
  List.foldl_append ..

/-- A part of the sequence does not park a final call either. -/
theorem NoLateHangup.part (seen : List (Request isDateTime)) {more : List (Request isDateTime)}
    (rest : List (Request isDateTime)) (h : NoLateHangup file (seen ++ more ++ rest)) :
    NoLateHangup (file.handleAll seen) more := by
  rintro before r after rfl
  rw [← handleAll_append]
  exact h (seen ++ before) r (after ++ rest) (by simp)

theorem Settled.run (requests : List (Request isDateTime)) (h : Settled file.state file.endings)
    (hlate : NoLateHangup file requests) :
    Settled (file.handleAll requests).state (file.handleAll requests).endings ∧
      ∀ t, file.state = some t → t.final → (file.handleAll requests).state = some t := by
  induction requests generalizing file with
  | nil => exact ⟨h, fun t ht _ => ht⟩
  | cons r requests ih =>
    obtain ⟨hnext, hstay⟩ := h.step (handle_effect file r) (hlate [] r requests rfl)
    obtain ⟨hend, hstay'⟩ := ih hnext
      (NoLateHangup.part [r] [] (by simpa using hlate))
    exact ⟨hend, fun t ht htfinal => hstay' t (hstay t ht htfinal) htfinal⟩

theorem state_lateHangup (h : LateHangup file r) : (∃ t, file.state = some t ∧ t.final) ∧
      (file.handle r).state = some .endedPendingDocumentation := by
  cases r with
  | provider env event => cases h
  | document env actorId body => cases h
  | hangup env actorId =>
    obtain ⟨hdone, ⟨ack, hack⟩, call, hcall, hsource, hfinal⟩ := h
    refine ⟨⟨call.state, by simp [state, hcall], hfinal⟩, ?_⟩
    have hsource' : (present call.sourceCallId).isNone = false := by
      cases hp : present call.sourceCallId <;> simp_all
    simp [handle, hangupCall, hcall, hsource', hack, hangupGuard, hdone,
      state]

/-- **A call ends exactly once and stays ended exactly if nobody hangs up a disconnected or failed
call before it has a category.** -/
theorem ends_once_iff_no_late_hangup (requests : List (Request isDateTime)) :
    EndsOnce requests ↔
      ∀ seen r rest, requests = seen ++ r :: rest →
        ¬ LateHangup (unknown.handleAll seen) r := by
  have hfresh : Settled unknown.state unknown.endings :=
    ⟨Nat.zero_le 1, fun hpos => absurd hpos (by decide)⟩
  constructor
  · rintro h seen r rest rfl hlate
    obtain ⟨⟨t, hstate, hfinal⟩, hparked⟩ := state_lateHangup hlate
    have hstays := h.stays seen [r] rest t (by simp) hstate hfinal
    rw [handleAll_append] at hstays
    cases hparked.symm.trans hstays
    cases hfinal
  · intro h
    refine ⟨(hfresh.run requests h).1.once, ?_⟩
    rintro seen more rest t rfl hstate hfinal
    have hall : NoLateHangup unknown (seen ++ more ++ rest) := h
    have hseen : NoLateHangup unknown seen := by
      rintro before r after rfl
      exact hall before r (after ++ more ++ rest) (by simp)
    rw [handleAll_append]
    exact ((hfresh.run seen hseen).1.run more (hall.part seen rest)).2 t hstate hfinal

/-- The surroundings of an ordinary request. -/
def quietDesk : Surroundings where
  now := 0
  freshId := "7d3f0c1e"
  mintedId := "CALL-20260101-0A1B2C3D"
  lineId _ _ := none
  resolveCaller _ := none
  provider := .ok (true, none)

/-- An event of a call without anything but its type. -/
def plainEvent (telephonyEventId : String) (h : telephonyEventId ≠ "") (type : EventType) :
    TelephonyEvent fun _ => true where
  telephonyEventId := telephonyEventId
  provider := "telephony_mock"
  eventType := type
  sourceCallId := some "1001"
  lineId := none
  callingNumber := none
  calledNumber := none
  displayName := none
  occurredAt := "2026-01-01T08:00:00Z"
  receivedAt := "2026-01-01T08:00:00Z"
  gatewayNode := "core-a"
  correlationId := none
  metadata := []
  id_ne := h
  provider_ne := by decide
  gatewayNode_ne := by decide
  occurredAt_ok := rfl
  receivedAt_ok := rfl

/-- The caller hangs up, the operator hangs up too, and then documents the call. -/
def bothHangUp : List (Request fun _ => true) :=
  [.provider quietDesk (plainEvent "e1" (by decide) .callConnected),
    .provider quietDesk (plainEvent "e2" (by decide) .callDisconnected),
    .hangup quietDesk "operator",
    .document quietDesk "operator" ⟨some .other, none⟩]

/-- The call ends twice when both sides hang up. -/
theorem ends_twice :
    (unknown.handleAll bothHangUp).endings = 2 ∧ ¬ EndsOnce bothHangUp := by
  have htwice : (unknown.handleAll bothHangUp).endings = 2 := by decide
  refine ⟨htwice, fun h => ?_⟩
  have honce := h.once
  omega

end Once

end BbzPlatform.Telephony
