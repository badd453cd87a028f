import BbzPlatform.Telephony.Ingest

/-!
# The signals that a call queues

The key of a signal is derived from the one of its event.  Two types that stand for the same signal
queue it twice, and a type that is repeated queues it once.
-/

namespace BbzPlatform.Telephony

open List Intake

variable {isDateTime : String → Bool} {provider sourceCallId : String} {seen : List EventType}
  {d d' : Delivery isDateTime} {ds : List (Delivery isDateTime)} {intake : Intake isDateTime}

/-- The event is the ring of a door station. -/
def Delivery.atDoor (d : Delivery isDateTime) : Bool :=
  (fromTelephony d.type).any fun signalType =>
    (doorbell d.endpoints (signalOf d.event signalType)).isSome

@[simp] theorem signalType_signalOf (event : TelephonyEvent isDateTime)
    (signalType : InboundSignalType) : (signalOf event signalType).signalType = signalType := rfl

@[simp] theorem signalType_atDoor (signal : InboundSignal) (endpointId : String) :
    (signal.atDoor endpointId).signalType = .doorbellRinging := rfl

theorem signalType_eq (d : Delivery isDateTime) :
    d.signal.map (·.signalType) =
      if MetadataFits d.event then
        (fromTelephony d.type).map fun t => if d.atDoor then .doorbellRinging else t
      else none := by
  unfold Delivery.signal Delivery.atDoor
  cases fromTelephony d.type with
  | none => simp
  | some signalType =>
    cases MetadataFits d.event with
    | false => rfl
    | true =>
      cases hdoor : doorbell d.endpoints (signalOf d.event signalType) <;> simp [hdoor]

theorem ringing_of_atDoor (h : d.atDoor) : fromTelephony d.type = some .callRinging := by
  unfold Delivery.atDoor at h
  cases htype : fromTelephony d.type with
  | none => simp [htype] at h
  | some signalType =>
    by_contra hne
    have hother : signalType ≠ .callRinging := fun heq => hne (by rw [heq])
    simp [htype, doorbell, signalOf, hother] at h

/-- Two deliveries stand for the same signal: their types do, their metadata validates, and both or
neither is the ring of a door station. -/
def Echo (d d' : Delivery isDateTime) : Prop :=
  (fromTelephony d.type).isSome ∧ fromTelephony d.type = fromTelephony d'.type ∧
    MetadataFits d.event ∧ MetadataFits d'.event ∧ d.atDoor = d'.atDoor

theorem fromTelephony_ne_doorbell (e : EventType) : fromTelephony e ≠ some .doorbellRinging := by
  cases e <;> decide

/-- Two deliveries echo exactly if both queue a signal, of the same type. -/
theorem echo_iff :
    Echo d d' ↔ ∃ t, d.signal.map (·.signalType) = some t ∧
      d'.signal.map (·.signalType) = some t := by
  have hdoor := fromTelephony_ne_doorbell d.type
  have hdoor' := fromTelephony_ne_doorbell d'.type
  have hring := @ringing_of_atDoor isDateTime d
  have hring' := @ringing_of_atDoor isDateTime d'
  rw [signalType_eq, signalType_eq]
  unfold Echo
  generalize fromTelephony d.type = t at *
  generalize fromTelephony d'.type = t' at *
  generalize d.atDoor = b at *
  generalize d'.atDoor = b' at *
  cases MetadataFits d.event <;> cases MetadataFits d'.event <;> simp
  cases t with
  | none => simp
  | some t =>
    cases t' with
    | none => simp
    | some t' => cases b <;> cases b' <;> simp_all [eq_comm]

/-- The first delivery of each type that is not in `seen`. -/
def firstOfType (seen : List EventType) :
    List (Delivery isDateTime) → List (Delivery isDateTime)
  | [] => []
  | d :: ds =>
    if seen.contains d.type then firstOfType (seen ++ [d.type]) ds
    else d :: firstOfType (seen ++ [d.type]) ds

theorem signalsIn_store (inbox : List (InboxRow isDateTime)) :
    signalsIn (d.store inbox) = signalsIn inbox := by
  have hmark : ∀ (rows : List (InboxRow isDateTime)) (key : String),
      signalsIn (markProcessed rows key) = signalsIn rows := by
    intro rows key
    rw [signalsIn, markProcessed, filterMap_map]
    refine filterMap_congr fun row _ => ?_
    simp only [Function.comp_apply]
    by_cases hkey : row.dedupeKey = key
    · rw [if_pos hkey]
    · rw [if_neg hkey]
  rw [Delivery.store, hmark]
  simp [signalsIn]

theorem signalsIn_enqueue (hnew : dedupeKey d.event ∉ intake.keys)
    (hsignal : ∀ key, "signal:" ++ key ∈ intake.keys → key ∈ intake.keys) :
    signalsIn (d.enqueue intake.inbox) = signalsIn intake.inbox ++ d.signal.toList := by
  unfold Delivery.enqueue
  cases d.signal with
  | none => simp [signalsIn_store]
  | some signal =>
    have hfree : "signal:" ++ dedupeKey d.event ∉ (d.store intake.inbox).map (·.dedupeKey) := by
      rw [keys_store, mem_append, mem_singleton]
      rintro (hold | hself)
      · exact hnew (hsignal _ hold)
      · exact dedupeKey_ne_signal d.event _ hself.symm
    have hingest := ingest_new ⟨"signal:" ++ dedupeKey d.event, signal.provider,
      d.event.telephonyEventId, .signal signal, false⟩ hfree
    simp only [hingest, ← signalsIn_store (d := d) intake.inbox]
    simp [signalsIn]

theorem signal_none_of_not_ofCall (h : d.type.ofCall = false) : d.signal = none := by
  have hnone : fromTelephony d.type = none := by
    revert h
    cases d.type <;> rintro ⟨⟩ <;> rfl
  rw [Delivery.signal, hnone]

/-- **The signals of a run** are those of the first delivery of each type. -/
theorem signals_deliverAll (hsource : sourceCallId ≠ "")
    (h : Tracks provider sourceCallId seen intake)
    (hcalls : ∀ d ∈ ds, OfCall provider sourceCallId d) : (intake.deliverAll ds).signals
      = intake.signals ++ (firstOfType seen ds).filterMap Delivery.signal := by
  induction ds generalizing intake seen with
  | nil => simp [firstOfType]
  | cons d ds ih =>
    have hcall := hcalls d mem_cons_self
    have hrest := fun d' hd' => hcalls d' (mem_cons_of_mem d hd')
    rw [deliverAll_cons, ih (h.deliver hcall hsource) hrest]
    have hstep : (intake.deliver d).signals
        = intake.signals ++ if d.type ∈ seen then [] else d.signal.toList := by
      rw [deliver_eq]
      cases htype : d.type.ofCall with
      | false =>
        split
        · simp [signal_none_of_not_ofCall htype]
        next hnew =>
          refine (signalsIn_enqueue hnew h.signal).trans ?_
          simp [signal_none_of_not_ofCall htype, signals]
      | true =>
        have hknown := h.known_iff hcall hsource htype
        split
        next hdup =>
          simp [hknown.mp hdup]
        next hnew =>
          rw [if_neg fun hseen => hnew (hknown.mpr hseen)]
          exact signalsIn_enqueue hnew h.signal
    rw [hstep, firstOfType]
    by_cases hseen : d.type ∈ seen
    · simp [hseen]
    · cases hs : d.signal <;> simp [hseen, hs]

/-- At most one signal of each type is queued for the call. -/
def OneSignalEach (provider sourceCallId : String) (intake : Intake isDateTime) : Prop :=
  ∀ t, intake.signals.countP (fun s => s.signalType = t && s.provider = provider &&
    s.source.sourceCallId = some sourceCallId) ≤ 1

theorem call_of_signal {s : InboundSignal} (h : d.signal = some s)
    (hcall : OfCall provider sourceCallId d) :
    s.provider = provider ∧ s.source.sourceCallId = some sourceCallId := by
  unfold Delivery.signal at h
  split at h
  · cases h
  · split at h
    · dsimp only at h
      split at h <;> cases h <;> exact hcall
    · cases h

theorem firstOfType_subset (seen : List EventType) (ds : List (Delivery isDateTime)) :
    ∀ d ∈ firstOfType seen ds, d ∈ ds := by
  induction ds generalizing seen with
  | nil => simp [firstOfType]
  | cons d ds ih =>
    intro d' hd'
    rw [firstOfType] at hd'
    split at hd'
    · exact mem_cons_of_mem d (ih _ d' hd')
    · obtain rfl | htail := mem_cons.mp hd'
      · exact mem_cons_self
      · exact mem_cons_of_mem d (ih _ d' htail)

/-- **One ring is one signal exactly if no two types that are delivered stand for the same
signal.** -/
theorem one_signal_each_iff (provider sourceCallId : String) (hsource : sourceCallId ≠ "")
    (ds : List (Delivery isDateTime)) (hcalls : ∀ d ∈ ds, OfCall provider sourceCallId d) :
    OneSignalEach provider sourceCallId (empty.deliverAll ds) ↔
      (firstOfType [] ds).Pairwise fun d d' => ¬ Echo d d' := by
  have hsignals := signals_deliverAll hsource tracks_empty hcalls
  have hempty : (empty : Intake isDateTime).signals = [] := rfl
  rw [hempty, nil_append] at hsignals
  -- every signal is one of the call, so that only the types count
  have hcount : ∀ t, (empty.deliverAll ds).signals.countP (fun s => s.signalType = t &&
        s.provider = provider && s.source.sourceCallId = some sourceCallId)
      = ((firstOfType [] ds).filterMap fun d => d.signal.map (·.signalType)).count t := by
    intro t
    rw [hsignals, ← map_filterMap, count, countP_map]
    refine countP_congr fun s hs => ?_
    obtain ⟨d, hd, hsignal⟩ := mem_filterMap.mp hs
    obtain ⟨hprovider, hcall⟩ :=
      call_of_signal hsignal (hcalls d (firstOfType_subset [] ds d hd))
    simp [hprovider, hcall]
  unfold OneSignalEach
  simp only [hcount]
  rw [← nodup_iff_count_le_one, Nodup, pairwise_filterMap]
  refine Pairwise.iff fun d d' => ?_
  rw [echo_iff, not_exists]
  constructor
  · rintro h t ⟨ht, ht'⟩
    exact h t ht t ht' rfl
  · rintro h t ht t' ht' rfl
    exact h t ⟨ht, ht'⟩

/-- A door station that rings at the number 500. -/
def frontDoor : TechnicalEndpoint := ⟨"d00r", "door_station", true, [⟨some "500", none, none⟩]⟩

def doorDelivery (telephonyEventId : String) (h : telephonyEventId ≠ "") (type : EventType) :
    Delivery fun _ => true :=
  ⟨quietDesk, [frontDoor], { plainEvent telephonyEventId h type with calledNumber := some "500" }⟩

def offeredAndRinging : List (Delivery fun _ => true) :=
  [doorDelivery "d1" (by decide) .callOffered, doorDelivery "d2" (by decide) .callRinging]

/-- The doorbell of a call that is offered and rings is queued twice. -/
theorem doorbell_queued_twice :
    (empty.deliverAll offeredAndRinging).signals.map (·.signalType)
        = [.doorbellRinging, .doorbellRinging] ∧
      ¬ OneSignalEach "telephony_mock" "1001" (empty.deliverAll offeredAndRinging) := by
  refine ⟨by decide, fun h => ?_⟩
  exact absurd (h .doorbellRinging) (by decide)

/-- A ring that the provider replays. -/
def rungTwice : List (Delivery fun _ => true) :=
  [doorDelivery "d1" (by decide) .callRinging, doorDelivery "d1" (by decide) .callRinging]

/-- A replayed ring is queued once. -/
theorem doorbell_queued_once :
    OneSignalEach "telephony_mock" "1001" (empty.deliverAll rungTwice) := by
  refine (one_signal_each_iff "telephony_mock" "1001" (by decide) rungTwice ?_).mpr ?_
  · simp [rungTwice, OfCall, doorDelivery, plainEvent]
  · have hfirst : (firstOfType [] rungTwice).length = 1 := by decide
    obtain ⟨d, hd⟩ := length_eq_one_iff.mp hfirst
    rw [hd]
    exact pairwise_singleton _ d

end BbzPlatform.Telephony
