import Mathlib.Data.List.TakeWhile
import Mathlib.Tactic.Common

/-!
# The call aggregate

Normalized provider events drive the state of a call.  Any event moves a call that has not ended to
the state it names, from whatever state, and the two states of the move alone decide which business
event is emitted.  Uniqueness of the business events is therefore a property of whole sequences:
a provider that goes back to an earlier state makes the call ring or be answered again.
-/

namespace BbzPlatform.Telephony

open List

/-- The event types of `telephony_event.v1`. -/
inductive EventType where
  | callOffered
  | callRinging
  | callAnswered
  | callConnected
  | callHeld
  | callResumed
  | callTransferInitiated
  | callTransferred
  | callConferenced
  | callDisconnected
  | callFailed
  | lineInService
  | lineOutOfService
  | deviceRegistered
  | deviceUnregistered
  | ctiProviderInService
  | ctiProviderOutOfService
  deriving DecidableEq, Repr

/-- The name on the wire. -/
def EventType.value : EventType → String
  | callOffered => "CALL_OFFERED"
  | callRinging => "CALL_RINGING"
  | callAnswered => "CALL_ANSWERED"
  | callConnected => "CALL_CONNECTED"
  | callHeld => "CALL_HELD"
  | callResumed => "CALL_RESUMED"
  | callTransferInitiated => "CALL_TRANSFER_INITIATED"
  | callTransferred => "CALL_TRANSFERRED"
  | callConferenced => "CALL_CONFERENCED"
  | callDisconnected => "CALL_DISCONNECTED"
  | callFailed => "CALL_FAILED"
  | lineInService => "LINE_IN_SERVICE"
  | lineOutOfService => "LINE_OUT_OF_SERVICE"
  | deviceRegistered => "DEVICE_REGISTERED"
  | deviceUnregistered => "DEVICE_UNREGISTERED"
  | ctiProviderInService => "CTI_PROVIDER_IN_SERVICE"
  | ctiProviderOutOfService => "CTI_PROVIDER_OUT_OF_SERVICE"

inductive CallDirection where
  | inbound
  | outbound
  deriving DecidableEq, Repr

inductive CallState where
  | offered
  | ringing
  | connected
  | held
  | transferring
  | disconnected
  | failed
  | endedPendingDocumentation
  deriving DecidableEq, Repr

/-- `state in TERMINAL`. -/
def CallState.terminal : CallState → Bool
  | disconnected | failed | endedPendingDocumentation => true
  | _ => false

def providerTargetState : EventType → Option CallState
  | .callOffered => some .offered
  | .callRinging => some .ringing
  | .callAnswered => some .connected
  | .callConnected => some .connected
  | .callHeld => some .held
  | .callResumed => some .connected
  | .callTransferInitiated => some .transferring
  | .callTransferred => some .connected
  | .callConferenced => some .connected
  | .callDisconnected => some .disconnected
  | .callFailed => some .failed
  | _ => none

inductive BusinessEvent where
  | callRinging
  | callAnswered
  | callEnded
  deriving DecidableEq, Repr

def businessEventFor (old new : CallState) : Option BusinessEvent :=
  if old = new then none
  else if new = .ringing ∧ old = .offered then some .callRinging
  else if new = .connected ∧ (old = .offered ∨ old = .ringing) then some .callAnswered
  else if new.terminal ∧ ¬ old.terminal then some .callEnded
  else none

/-- A business event with its payload. -/
structure CallDomainEvent where
  type : BusinessEvent
  bbzCallId : String
  sourceCallId : Option String
  direction : CallDirection
  lineId : Option String
  fromState : CallState
  toState : CallState
  deriving DecidableEq, Repr

/-- The aggregate; `pending` holds what `collect_events` drains. -/
structure CallAggregate where
  bbzCallId : String
  direction : CallDirection
  state : CallState
  sourceCallId : Option String
  lineId : Option String
  pending : List CallDomainEvent
  deriving DecidableEq, Repr

namespace CallAggregate

def start (bbzCallId : String) (direction : CallDirection) (sourceCallId lineId : Option String) :
    CallAggregate :=
  ⟨bbzCallId, direction, .offered, sourceCallId, lineId, []⟩

def emit (a : CallAggregate) (type : BusinessEvent) (old new : CallState) : CallAggregate :=
  { a with
    pending := a.pending ++
      [⟨type, a.bbzCallId, a.sourceCallId, a.direction, a.lineId, old, new⟩] }

/-- Apply a normalized event.  An event after the end and one that names the present state are
absorbed. -/
def applyProviderEvent (a : CallAggregate) (e : EventType) : CallAggregate :=
  match providerTargetState e with
  | none => a
  | some target =>
    if a.state.terminal then a
    else if target = a.state then a
    else
      let moved := { a with state := target }
      match businessEventFor a.state target with
      | some type => moved.emit type a.state target
      | none => moved

def applyAll (a : CallAggregate) (events : List EventType) : CallAggregate :=
  events.foldl applyProviderEvent a

/-- Drain the business events. -/
def collectEvents (a : CallAggregate) : List CallDomainEvent × CallAggregate :=
  (a.pending, { a with pending := [] })

/-- The types of the business events so far. -/
def emitted (a : CallAggregate) : List BusinessEvent := a.pending.map (·.type)

end CallAggregate

/-! ## The order of the business events -/

/-- Each business event comes at most once, a call is answered exactly if it was ever connected,
and nothing follows the end. -/
structure OnceAndInOrder (a : CallAggregate) (events : List EventType) : Prop where
  ringing : (a.applyAll events).emitted.count .callRinging ≤ 1
  answered : (a.applyAll events).emitted.count .callAnswered ≤ 1
  ended : (a.applyAll events).emitted.count .callEnded ≤ 1
  answered_iff : .callAnswered ∈ (a.applyAll events).emitted ↔
    ∃ seen rest, events = seen ++ rest ∧ (a.applyAll seen).state = .connected
  ended_last : ∀ before after, (a.applyAll events).emitted = before ++ .callEnded :: after →
    after = []

/-- The states named by the events, up to the first one that ends the call. -/
def liveTargets (events : List EventType) : List CallState :=
  (events.filterMap providerTargetState).takeWhile (!·.terminal)

/-- Each state with the one named before it. -/
def hops (s : CallState) (targets : List CallState) : List (CallState × CallState) :=
  (s :: targets).zip targets

/-- A hop from a state before the conversation to `connected`. -/
def Pickup (hop : CallState × CallState) : Bool :=
  (hop.1 = .offered || hop.1 = .ringing) && hop.2 = .connected

/-- Ringing is named right after offered at most once, and if connected is named at all, it is
named right after offered or ringing exactly once. -/
structure Orderly (events : List EventType) : Prop where
  rung : (hops .offered (liveTargets events)).count (.offered, .ringing) ≤ 1
  answered : .connected ∈ liveTargets events →
    (hops .offered (liveTargets events)).countP Pickup = 1

/-! ## One event and a sequence of events -/

variable {a : CallAggregate} {e : EventType} {target old : CallState}

namespace CallAggregate

theorem apply_none (h : providerTargetState e = none) : a.applyProviderEvent e = a := by
  simp [applyProviderEvent, h]

theorem apply_terminal (h : a.state.terminal) : a.applyProviderEvent e = a := by
  unfold applyProviderEvent
  split <;> simp [h]

/-- A call that has not ended moves to the state the event names, and the move decides what is
emitted.  An event that names the present state is no exception. -/
theorem apply_some (hlive : a.state.terminal = false) (h : providerTargetState e = some target) :
    (a.applyProviderEvent e).state = target ∧
      (a.applyProviderEvent e).emitted
        = a.emitted ++ (businessEventFor a.state target).toList := by
  unfold applyProviderEvent
  by_cases heq : target = a.state
  · simp [h, hlive, heq, businessEventFor]
  · cases hb : businessEventFor a.state target <;> simp [h, hlive, heq, emit, emitted, hb]

theorem applyAll_cons (events : List EventType) :
    a.applyAll (e :: events) = (a.applyProviderEvent e).applyAll events := rfl

theorem applyAll_terminal (h : a.state.terminal) (events : List EventType) :
    a.applyAll events = a := by
  induction events with
  | nil => rfl
  | cons e events ih => rw [applyAll_cons, apply_terminal h, ih]

end CallAggregate

section Targets

variable {events : List EventType}

theorem liveTargets_none (h : providerTargetState e = none) :
    liveTargets (e :: events) = liveTargets events := by
  simp [liveTargets, h]

theorem liveTargets_terminal (h : providerTargetState e = some target)
    (hterminal : target.terminal) : liveTargets (e :: events) = [] := by
  simp [liveTargets, h, hterminal]

theorem liveTargets_live (h : providerTargetState e = some target)
    (hlive : target.terminal = false) :
    liveTargets (e :: events) = target :: liveTargets events := by
  simp [liveTargets, h, hlive]

def ends (events : List EventType) : Bool :=
  (events.filterMap providerTargetState).any CallState.terminal

theorem businessEventFor_terminal (hold : old.terminal = false)
    (h : target.terminal) : businessEventFor old target = some .callEnded := by
  revert hold h
  cases old <;> cases target <;> decide

theorem businessEventFor_live (h : target.terminal = false) :
    businessEventFor old target ≠ some .callEnded := by
  revert h
  cases old <;> cases target <;> decide

end Targets

def hopEvents (hs : List (CallState × CallState)) : List BusinessEvent :=
  hs.filterMap fun hop => businessEventFor hop.1 hop.2

/-- **What a sequence emits** is decided by the states it names: one event for some of the hops
before the end, and the end. -/
theorem emitted_applyAll (events : List EventType) (hlive : a.state.terminal = false) :
    (a.applyAll events).emitted = a.emitted ++ hopEvents (hops a.state (liveTargets events)) ++
      if ends events then [.callEnded] else [] := by
  induction events generalizing a with
  | nil => simp [CallAggregate.applyAll, liveTargets, hops, hopEvents, ends]
  | cons e events ih =>
    rw [CallAggregate.applyAll_cons]
    cases htarget : providerTargetState e with
    | none =>
      rw [CallAggregate.apply_none htarget, ih hlive, liveTargets_none htarget]
      simp [ends, htarget]
    | some target =>
      obtain ⟨hstate, hemitted⟩ := CallAggregate.apply_some hlive htarget
      cases hterminal : target.terminal with
      | true =>
        rw [CallAggregate.applyAll_terminal (by rw [hstate, hterminal]), hemitted,
          businessEventFor_terminal hlive hterminal,
          liveTargets_terminal htarget hterminal]
        simp [ends, htarget, hterminal, hops, hopEvents]
      | false =>
        rw [ih (by rw [hstate, hterminal]), hemitted, hstate,
          liveTargets_live htarget hterminal]
        cases hb : businessEventFor a.state target <;>
          simp [ends, htarget, hterminal, hops, hopEvents, hb]

/-- The call is connected at some time exactly if it is at the start or a state named before the
end is `connected`. -/
theorem reached_connected_iff (events : List EventType) {a : CallAggregate}
    (hlive : a.state.terminal = false) :
    (∃ seen rest, events = seen ++ rest ∧ (a.applyAll seen).state = .connected) ↔
      a.state = .connected ∨ .connected ∈ liveTargets events := by
  induction events generalizing a with
  | nil => simp [CallAggregate.applyAll, liveTargets]
  | cons e events ih =>
    have hsplit : (∃ seen rest, e :: events = seen ++ rest ∧
          (a.applyAll seen).state = .connected) ↔
        a.state = .connected ∨ ∃ seen rest, events = seen ++ rest ∧
          ((a.applyProviderEvent e).applyAll seen).state = .connected := by
      constructor
      · rintro ⟨seen, rest, heq, hstate⟩
        cases seen with
        | nil => exact .inl hstate
        | cons e' seen =>
          obtain ⟨rfl, rfl⟩ := cons.inj heq
          exact .inr ⟨seen, rest, rfl, hstate⟩
      · rintro (hstate | ⟨seen, rest, rfl, hstate⟩)
        · exact ⟨[], e :: events, rfl, hstate⟩
        · exact ⟨e :: seen, rest, rfl, hstate⟩
    rw [hsplit]
    cases htarget : providerTargetState e with
    | none =>
      rw [CallAggregate.apply_none htarget, ih hlive, liveTargets_none htarget, or_self_left]
    | some target =>
      obtain ⟨hstate, -⟩ := CallAggregate.apply_some hlive htarget
      cases hterminal : target.terminal with
      | true =>
        -- nothing moves the call any more, and it did not stop at `connected`
        have hne : target ≠ .connected := by
          rintro rfl
          cases hterminal
        simp [CallAggregate.applyAll_terminal (by rw [hstate, hterminal]), hstate, hne,
          liveTargets_terminal htarget hterminal]
      | false =>
        rw [ih (by rw [hstate, hterminal]), hstate, liveTargets_live htarget hterminal,
          mem_cons, eq_comm (a := target)]

/-! ## The sequences that keep the order -/

theorem count_hopEvents_ringing (hs : List (CallState × CallState)) :
    (hopEvents hs).count .callRinging = hs.count (.offered, .ringing) := by
  rw [hopEvents, count_filterMap, count]
  refine countP_congr ?_
  rintro ⟨old, new⟩ -
  cases old <;> cases new <;> decide

theorem count_hopEvents_answered (hs : List (CallState × CallState)) :
    (hopEvents hs).count .callAnswered = hs.countP Pickup := by
  rw [hopEvents, count_filterMap]
  refine countP_congr ?_
  rintro ⟨old, new⟩ -
  cases old <;> cases new <;> decide

theorem callEnded_not_mem_hopEvents {s : CallState} {events : List EventType} :
    .callEnded ∉ hopEvents (hops s (liveTargets events)) := by
  intro hmem
  obtain ⟨hop, hin, hevent⟩ := mem_filterMap.mp hmem
  exact businessEventFor_live (by simpa using mem_takeWhile_imp (of_mem_zip hin).2) hevent

theorem mem_of_pickup (s : CallState) (targets : List CallState)
    (h : 0 < (hops s targets).countP Pickup) : .connected ∈ targets := by
  obtain ⟨hop, hin, hpickup⟩ := countP_pos_iff.mp h
  have hto : hop.2 = .connected := by
    simp only [Pickup, Bool.and_eq_true, decide_eq_true_eq] at hpickup
    exact hpickup.2
  exact hto ▸ (of_mem_zip hin).2

section Fresh

variable {a : CallAggregate}

variable (events : List EventType) (hfresh : a.state = .offered) (hpending : a.emitted = [])
include events hfresh hpending

theorem count_ringing_applyAll : (a.applyAll events).emitted.count .callRinging =
      (hops .offered (liveTargets events)).count (.offered, .ringing) := by
  rw [emitted_applyAll events (by rw [hfresh]; rfl), hpending, hfresh, nil_append,
    count_append, count_hopEvents_ringing]
  split <;> simp

theorem count_answered_applyAll : (a.applyAll events).emitted.count .callAnswered =
      (hops .offered (liveTargets events)).countP Pickup := by
  rw [emitted_applyAll events (by rw [hfresh]; rfl), hpending, hfresh, nil_append,
    count_append, count_hopEvents_answered]
  split <;> simp

/-- Whatever the events, the call ends at most once and nothing is emitted afterwards. -/
theorem callEnded_once_and_last : (a.applyAll events).emitted.count .callEnded ≤ 1 ∧
      ∀ before after, (a.applyAll events).emitted = before ++ .callEnded :: after →
        after = [] := by
  rw [emitted_applyAll events (by rw [hfresh]; rfl), hpending, nil_append]
  have hnot : .callEnded ∉ hopEvents (hops a.state (liveTargets events)) :=
    callEnded_not_mem_hopEvents
  generalize hopEvents (hops a.state (liveTargets events)) = es at hnot
  constructor
  · rw [count_append, count_eq_zero_of_not_mem hnot]
    split <;> simp
  · intro before after heq
    obtain ⟨l, rfl, hrest⟩ | ⟨l, rfl, hrest⟩ := append_eq_append_iff.mp heq
    · split at hrest
      · cases l with
        | nil => simpa using hrest.symm
        | cons x l => simp at hrest
      · simp at hrest
    · cases l with
      | nil =>
        split at hrest
        · simpa using hrest
        · simp at hrest
      | cons x l =>
        obtain ⟨rfl, -⟩ := cons.inj hrest
        simp at hnot

/-- The call is answered at most once, and exactly if it is ever connected, if it is picked up
exactly once where `connected` is named at all. -/
theorem answered_iff_pickups : ((a.applyAll events).emitted.count .callAnswered ≤ 1 ∧
      (.callAnswered ∈ (a.applyAll events).emitted ↔
        ∃ seen rest, events = seen ++ rest ∧ (a.applyAll seen).state = .connected)) ↔
      (.connected ∈ liveTargets events →
        (hops .offered (liveTargets events)).countP Pickup = 1) := by
  have hnot : a.state ≠ .connected := by
    rw [hfresh]
    decide
  rw [← count_pos_iff, reached_connected_iff events (by rw [hfresh]; rfl),
    or_iff_right hnot, count_answered_applyAll events hfresh hpending]
  have hpickup := mem_of_pickup .offered (liveTargets events)
  generalize (hops .offered (liveTargets events)).countP Pickup = pickups at hpickup ⊢
  constructor
  · rintro ⟨hle, hiff⟩ hconnected
    have hpos := hiff.mpr hconnected
    omega
  · intro h
    by_cases hconnected : .connected ∈ liveTargets events
    · rw [h hconnected]
      exact ⟨le_rfl, iff_of_true Nat.one_pos hconnected⟩
    · have hzero : ¬ 0 < pickups := fun hpos => hconnected (hpickup hpos)
      exact ⟨by omega, iff_of_false hzero hconnected⟩

end Fresh

/-- **The business events of a fresh call come once and in order exactly if the events name the
states in an orderly way.** -/
theorem once_and_in_order_iff_orderly (bbzCallId : String) (direction : CallDirection)
    (sourceCallId lineId : Option String) (events : List EventType) :
    OnceAndInOrder (.start bbzCallId direction sourceCallId lineId) events ↔ Orderly events := by
  have hrung := count_ringing_applyAll events
    (a := .start bbzCallId direction sourceCallId lineId) rfl rfl
  have hanswered := answered_iff_pickups events
    (a := .start bbzCallId direction sourceCallId lineId) rfl rfl
  constructor
  · intro h
    exact ⟨hrung ▸ h.ringing, hanswered.mp ⟨h.answered, h.answered_iff⟩⟩
  · intro h
    obtain ⟨hended, hlast⟩ := callEnded_once_and_last events
      (a := .start bbzCallId direction sourceCallId lineId) rfl rfl
    obtain ⟨honce, hiff⟩ := hanswered.mpr h.answered
    exact ⟨hrung ▸ h.rung, honce, hended, hiff, hlast⟩

/-- A call that is offered again rings twice. -/
theorem rings_twice :
    let call := CallAggregate.start "CALL-20260101-0A1B2C3D" .inbound (some "1001") none
    (call.applyAll [.callRinging, .callOffered, .callRinging]).emitted
        = [.callRinging, .callRinging] ∧
      ¬ OnceAndInOrder call [.callRinging, .callOffered, .callRinging] := by
  refine ⟨by decide, fun h => ?_⟩
  exact absurd h.ringing (by decide)

end BbzPlatform.Telephony
