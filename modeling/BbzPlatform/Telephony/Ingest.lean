import BbzPlatform.Telephony.Signals

/-!
# Ingesting telephony events

Every normalized event goes through the inbox, whose key drops what was there before.  The key of a
call event names the provider, the call and the type of the event, so a call has at most one event
of each type for good.  A new event is handed to the call lifecycle, and if it stands for a signal,
the signal is queued under a key derived from the one of the event.

## Main definitions

* `dedupeKey`, `InboxRow`, `ingest` — the inbox.
* `ingestTelephonyEvent`, `Intake`, `Delivery` — ingestion.
* `Tracks` — the keys of a call in the inbox.
-/

namespace BbzPlatform.Telephony

open Triggers List

variable {isDateTime : String → Bool}

/-! ## The inbox -/

/-- What an inbox row holds. -/
inductive Normalized (isDateTime : String → Bool) where
  | event (event : TelephonyEvent isDateTime)
  | signal (signal : InboundSignal)

structure InboxRow (isDateTime : String → Bool) where
  dedupeKey : String
  provider : String
  providerEventId : String
  normalized : Normalized isDateTime
  processed : Bool

/-- The types that belong to a call, `_CALL_EVENT_TYPES`. -/
def EventType.ofCall : EventType → Bool
  | callOffered | callRinging | callAnswered | callConnected | callHeld | callResumed
  | callTransferInitiated | callTransferred | callConferenced | callDisconnected | callFailed =>
    true
  | _ => false

def callKey (provider sourceCallId : String) (type : EventType) : String :=
  "telephony:" ++ provider ++ ":call:" ++ sourceCallId ++ ":" ++ type.value

def eventKey (provider telephonyEventId : String) : String :=
  "telephony:" ++ provider ++ ":evt:" ++ telephonyEventId

/-- `telephony_dedupe_key`. -/
def dedupeKey (event : TelephonyEvent isDateTime) : String :=
  match present event.sourceCallId with
  | some sourceCallId =>
    if event.eventType.ofCall then callKey event.provider sourceCallId event.eventType
    else eventKey event.provider event.telephonyEventId
  | none => eventKey event.provider event.telephonyEventId

/-- What the inbox says of an event. -/
inductive IngestOutcome where
  | new
  | duplicate
  deriving DecidableEq

/-- `ingest`: `ON CONFLICT DO NOTHING` on the key. -/
def ingest (inbox : List (InboxRow isDateTime)) (row : InboxRow isDateTime) :
    IngestOutcome × List (InboxRow isDateTime) :=
  if inbox.any (·.dedupeKey = row.dedupeKey) then (.duplicate, inbox) else (.new, inbox ++ [row])

/-- `mark_processed`. -/
def markProcessed (inbox : List (InboxRow isDateTime)) (key : String) :
    List (InboxRow isDateTime) :=
  inbox.map fun row => if row.dedupeKey = key then { row with processed := true } else row

/-- `record_inbound_signal`. -/
def recordInboundSignal (inbox : List (InboxRow isDateTime)) (signal : InboundSignal)
    (providerEventId key : String) : Except InboundSignalRejected (List (InboxRow isDateTime)) := do
  validateInboundSignal isDateTime signal
  pure (ingest inbox ⟨key, signal.provider, providerEventId, .signal signal, false⟩).2

/-- `_queue_signal`: an event whose mapping fails queues nothing. -/
def queueSignal (endpoints : List TechnicalEndpoint) (event : TelephonyEvent isDateTime)
    (inbox : List (InboxRow isDateTime)) :
    Except InboundSignalRejected (List (InboxRow isDateTime)) :=
  match fromTelephonyEvent event with
  | .error _ => .ok inbox
  | .ok none => .ok inbox
  | .ok (some signal) => do
      let signal ← resolveDoorbell isDateTime endpoints signal
      recordInboundSignal inbox signal event.telephonyEventId ("signal:" ++ dedupeKey event)

/-- The inbox and the rows of the call. -/
structure Intake (isDateTime : String → Bool) where
  inbox : List (InboxRow isDateTime)
  file : CallFile

open Intake

/-- An event with the configuration and the surroundings it meets. -/
structure Delivery (isDateTime : String → Bool) where
  env : Surroundings
  endpoints : List TechnicalEndpoint
  event : TelephonyEvent isDateTime

abbrev Delivery.type (d : Delivery isDateTime) : EventType := d.event.eventType

/-- `ingest_telephony_event` on an event that validates. -/
def ingestTelephonyEvent (intake : Intake isDateTime) (d : Delivery isDateTime) :
    Except InboundSignalRejected (IngestOutcome × Intake isDateTime) :=
  let key := dedupeKey d.event
  match ingest intake.inbox ⟨key, d.event.provider, d.event.telephonyEventId, .event d.event, false⟩
  with
  | (.duplicate, _) => .ok (.duplicate, intake)
  | (.new, inbox) => do
      let file := onProviderEvent d.env d.event intake.file
      let inbox ← queueSignal d.endpoints d.event (markProcessed inbox key)
      pure (.new, ⟨inbox, file⟩)

/-- The tables after a delivery; what raises is rolled back. -/
def Intake.deliver (intake : Intake isDateTime) (d : Delivery isDateTime) : Intake isDateTime :=
  match ingestTelephonyEvent intake d with
  | .ok (_, next) => next
  | .error _ => intake

/-- The tables after a sequence of deliveries. -/
def Intake.deliverAll (intake : Intake isDateTime) (ds : List (Delivery isDateTime)) :
    Intake isDateTime :=
  ds.foldl deliver intake

/-- Nothing has been delivered. -/
def Intake.empty : Intake isDateTime := ⟨[], .unknown⟩

def OfCall (provider sourceCallId : String) (d : Delivery isDateTime) : Prop :=
  d.event.provider = provider ∧ d.event.sourceCallId = some sourceCallId

/-! ## The signal of a delivery -/

def Delivery.signal (d : Delivery isDateTime) : Option InboundSignal :=
  match fromTelephony d.type with
  | none => none
  | some signalType =>
    if MetadataFits d.event then
      let signal := signalOf d.event signalType
      match doorbell d.endpoints signal with
      | none => some signal
      | some endpointId => some (signal.atDoor endpointId)
    else none

/-- **A signal never breaks ingestion**: what the mapper lets through also validates when it is
recorded, re-typed or not. -/
theorem queueSignal_eq (d : Delivery isDateTime) (inbox : List (InboxRow isDateTime)) :
    queueSignal d.endpoints d.event inbox = .ok (match d.signal with
      | none => inbox
      | some signal => (ingest inbox ⟨"signal:" ++ dedupeKey d.event, signal.provider,
          d.event.telephonyEventId, .signal signal, false⟩).2) := by
  unfold queueSignal fromTelephonyEvent Delivery.signal
  cases htype : fromTelephony d.event.eventType with
  | none => rfl
  | some signalType =>
    simp only [validate_signalOf]
    cases hfits : MetadataFits d.event with
    | false => rfl
    | true =>
      simp only [resolveDoorbell, recordInboundSignal, if_true]
      cases hdoor : doorbell d.endpoints (signalOf d.event signalType) with
      | none => simp [bind, Except.bind, pure, Except.pure, hdoor, validate_signalOf, hfits]
      | some endpointId =>
        simp [bind, Except.bind, pure, Except.pure, hdoor,
          validate_atDoor signalType _ hfits]

def Intake.keys (intake : Intake isDateTime) : List String := intake.inbox.map (·.dedupeKey)

def signalsIn (inbox : List (InboxRow isDateTime)) : List InboundSignal :=
  inbox.filterMap fun row =>
    match row.normalized with
    | .signal signal => some signal
    | .event _ => none

def Intake.signals (intake : Intake isDateTime) : List InboundSignal := signalsIn intake.inbox

/-- The inbox with a new event. -/
def Delivery.store (d : Delivery isDateTime) (inbox : List (InboxRow isDateTime)) :
    List (InboxRow isDateTime) :=
  markProcessed (inbox ++ [⟨dedupeKey d.event, d.event.provider, d.event.telephonyEventId,
    .event d.event, false⟩]) (dedupeKey d.event)

/-- The inbox with a new event and its signal. -/
def Delivery.enqueue (d : Delivery isDateTime) (inbox : List (InboxRow isDateTime)) :
    List (InboxRow isDateTime) :=
  match d.signal with
  | none => d.store inbox
  | some signal => (ingest (d.store inbox) ⟨"signal:" ++ dedupeKey d.event, signal.provider,
      d.event.telephonyEventId, .signal signal, false⟩).2

theorem ingest_known {inbox : List (InboxRow isDateTime)} {row : InboxRow isDateTime}
    (h : row.dedupeKey ∈ inbox.map (·.dedupeKey)) : ingest inbox row = (.duplicate, inbox) := by
  have hany : (inbox.any (·.dedupeKey = row.dedupeKey)) = true := by simpa using h
  simp [ingest, hany]

theorem ingest_new {inbox : List (InboxRow isDateTime)} (row : InboxRow isDateTime)
    (h : row.dedupeKey ∉ inbox.map (·.dedupeKey)) : ingest inbox row = (.new, inbox ++ [row]) := by
  have hany : ¬ (inbox.any (·.dedupeKey = row.dedupeKey)) = true := by simpa using h
  simp [ingest, hany]

/-- **What a delivery does**: nothing if its key is known, and otherwise it runs the lifecycle and
queues the signal. -/
theorem deliver_eq (intake : Intake isDateTime) (d : Delivery isDateTime) :
    intake.deliver d =
      if dedupeKey d.event ∈ intake.keys then intake
      else ⟨d.enqueue intake.inbox, onProviderEvent d.env d.event intake.file⟩ := by
  unfold deliver ingestTelephonyEvent Intake.keys
  by_cases hmem : dedupeKey d.event ∈ intake.inbox.map (·.dedupeKey)
  · simp only [hmem, ingest_known, if_true]
  · simp only [hmem, ingest_new, not_false_eq_true, if_false, queueSignal_eq]
    rfl

/-! ## The keys of a call -/

variable {provider sourceCallId key : String}
  {d d' : Delivery isDateTime} {intake : Intake isDateTime} {seen : List EventType}
  {t t' e : EventType} {ds : List (Delivery isDateTime)}

theorem value_injective (h : t.value = t'.value) : t = t' := by
  revert h
  cases t <;> cases t' <;> simp [EventType.value]

theorem callKey_injective
    (h : callKey provider sourceCallId t = callKey provider sourceCallId t') : t = t' := by
  simp only [callKey, String.append_right_inj] at h
  exact value_injective h

theorem eventKey_ne_callKey (id : String) (t : EventType) :
    eventKey provider id ≠ callKey provider sourceCallId t := by
  intro h
  have hchars := congrArg String.toList h
  simp [eventKey, callKey] at hchars

theorem dedupeKey_ne_signal (event : TelephonyEvent isDateTime) (key : String) :
    dedupeKey event ≠ "signal:" ++ key := by
  intro h
  have hchars := congrArg String.toList h
  unfold dedupeKey at hchars
  split at hchars
  · split at hchars <;> simp [eventKey, callKey] at hchars
  · simp [eventKey] at hchars

theorem present_some {text : String} (h : text ≠ "") : present (some text) = some text := by
  rw [present, Option.filter_some, if_pos (by simpa using h)]

theorem dedupeKey_of_call (h : OfCall provider sourceCallId d) (hsource : sourceCallId ≠ "") :
    dedupeKey d.event =
      if d.type.ofCall then callKey provider sourceCallId d.type
      else eventKey provider d.event.telephonyEventId := by
  obtain ⟨hprovider, hcall⟩ := h
  simp only [dedupeKey, hcall, present_some hsource, hprovider]

theorem keys_store (inbox : List (InboxRow isDateTime)) :
    (d.store inbox).map (·.dedupeKey) = inbox.map (·.dedupeKey) ++ [dedupeKey d.event] := by
  rw [Delivery.store, markProcessed, map_map]
  refine Eq.trans (map_congr_left fun row _ => ?_) (map_append ..)
  simp only [Function.comp_apply]
  split <;> rfl

theorem mem_keys_ingest (inbox : List (InboxRow isDateTime)) (row : InboxRow isDateTime) :
    key ∈ (ingest inbox row).2.map (·.dedupeKey) ↔
      key ∈ inbox.map (·.dedupeKey) ∨ key = row.dedupeKey := by
  by_cases hmem : row.dedupeKey ∈ inbox.map (·.dedupeKey)
  · rw [ingest_known hmem]
    exact (or_iff_left_of_imp fun heq => heq ▸ hmem).symm
  · simp [ingest_new row hmem]

theorem mem_keys_enqueue : key ∈ (d.enqueue intake.inbox).map (·.dedupeKey) ↔
      key ∈ intake.keys ∨ key = dedupeKey d.event ∨
        (d.signal.isSome ∧ key = "signal:" ++ dedupeKey d.event) := by
  unfold Delivery.enqueue
  cases d.signal with
  | none => simp [keys_store, Intake.keys]
  | some signal => simp [mem_keys_ingest, keys_store, Intake.keys, or_assoc]

/-- The inbox has the keys of the types delivered so far, and the key of a signal only with the
one of its event. -/
structure Tracks (provider sourceCallId : String) (seen : List EventType)
    (intake : Intake isDateTime) : Prop where
  call : ∀ t : EventType, t.ofCall →
    (callKey provider sourceCallId t ∈ intake.keys ↔ t ∈ seen)
  signal : ∀ key, "signal:" ++ key ∈ intake.keys → key ∈ intake.keys

theorem tracks_empty : Tracks provider sourceCallId [] (empty : Intake isDateTime) :=
  ⟨by simp [empty, Intake.keys], by simp [empty, Intake.keys]⟩

/-- For a type that belongs to a call, a delivery is a duplicate exactly if the type was delivered
before. -/
theorem Tracks.known_iff (h : Tracks provider sourceCallId seen intake)
    (hcall : OfCall provider sourceCallId d) (hsource : sourceCallId ≠ "")
    (htype : d.type.ofCall) : dedupeKey d.event ∈ intake.keys ↔ d.type ∈ seen := by
  rw [dedupeKey_of_call hcall hsource, if_pos htype]
  exact h.call d.type htype

theorem Tracks.deliver (h : Tracks provider sourceCallId seen intake)
    (hcall : OfCall provider sourceCallId d) (hsource : sourceCallId ≠ "") :
    Tracks provider sourceCallId (seen ++ [d.type]) (intake.deliver d) := by
  have hkey := dedupeKey_of_call hcall hsource
  have hself : ∀ t : EventType, t.ofCall →
      (callKey provider sourceCallId t = dedupeKey d.event ↔ t = d.type) := by
    intro t ht
    rw [hkey]
    split_ifs with hother
    · exact ⟨callKey_injective, fun heq => by rw [heq]⟩
    · refine ⟨fun heq => absurd heq.symm (eventKey_ne_callKey _ t), ?_⟩
      rintro rfl
      exact absurd ht hother
  rw [deliver_eq]
  split_ifs with hknown
  · refine ⟨fun t ht => ?_, h.signal⟩
    rw [h.call t ht, mem_append, mem_singleton]
    refine (or_iff_left_of_imp ?_).symm
    rintro rfl
    exact (h.known_iff hcall hsource ht).mp hknown
  · have hkeys : ∀ key, key ∈ Intake.keys ⟨d.enqueue intake.inbox,
          onProviderEvent d.env d.event intake.file⟩ ↔
        key ∈ intake.keys ∨ key = dedupeKey d.event ∨
          (d.signal.isSome ∧ key = "signal:" ++ dedupeKey d.event) := fun key => mem_keys_enqueue
    refine ⟨fun t ht => ?_, fun key hmem => ?_⟩
    · rw [hkeys, h.call t ht, hself t ht, mem_append, mem_singleton]
      constructor
      · rintro (hseen | heq | ⟨-, hsignal⟩)
        · exact .inl hseen
        · exact .inr heq
        · have hchars := congrArg String.toList hsignal
          simp [callKey] at hchars
      · rintro (hseen | heq)
        · exact .inl hseen
        · exact .inr (.inl heq)
    · rw [hkeys] at hmem ⊢
      obtain hold | hevent | ⟨-, hsignal⟩ := hmem
      · exact .inl (h.signal key hold)
      · exact absurd hevent.symm (dedupeKey_ne_signal d.event key)
      · exact .inr (.inl (by simpa using hsignal))

@[simp] theorem deliverAll_nil : intake.deliverAll [] = intake := rfl

@[simp] theorem deliverAll_cons (d : Delivery isDateTime) (ds : List (Delivery isDateTime)) :
    intake.deliverAll (d :: ds) = (intake.deliver d).deliverAll ds := rfl

theorem Tracks.deliverAll (hsource : sourceCallId ≠ "")
    (h : Tracks provider sourceCallId seen intake)
    (hcall : ∀ d ∈ ds, OfCall provider sourceCallId d) :
    Tracks provider sourceCallId (seen ++ ds.map (·.type)) (intake.deliverAll ds) := by
  induction ds generalizing intake seen with
  | nil => simpa using h
  | cons d ds ih =>
    have hnext := ih (h.deliver (hcall d mem_cons_self) hsource)
      fun d' hd' => hcall d' (mem_cons_of_mem d hd')
    simpa using hnext

end BbzPlatform.Telephony
