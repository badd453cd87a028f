import BbzPlatform.Telephony.Ingest

/-!
# The stored state of a call

A type that a call repeats is dropped by the inbox.  The stored state stays behind the provider
unless the repetition changes nothing.
-/

namespace BbzPlatform.Telephony

open List Intake

variable {isDateTime : String → Bool} {provider sourceCallId : String} {e : EventType}
  {d : Delivery isDateTime} {ds seen : List (Delivery isDateTime)} {intake : Intake isDateTime}

def CallState.driven (s : CallState) (e : EventType) : CallState :=
  match providerTargetState e with
  | none => s
  | some target => if s.terminal then s else target

theorem state_applyProviderEvent (a : CallAggregate) (e : EventType) :
    (a.applyProviderEvent e).state = a.state.driven e := by
  unfold CallState.driven
  cases htarget : providerTargetState e with
  | none => rw [CallAggregate.apply_none htarget]
  | some target =>
    cases hterminal : a.state.terminal with
    | true => simp [CallAggregate.apply_terminal hterminal]
    | false => simp [(CallAggregate.apply_some hterminal htarget).1]

def foldState (events : List EventType) : CallState := events.foldl CallState.driven .offered

theorem state_applyAll (a : CallAggregate) (events : List EventType) :
    (a.applyAll events).state = events.foldl CallState.driven a.state := by
  induction events generalizing a with
  | nil => rfl
  | cons e events ih =>
    rw [CallAggregate.applyAll_cons, ih, state_applyProviderEvent, foldl_cons]

/-- The event changes nothing in a call in the given state. -/
def Absorbed (s : CallState) (e : EventType) : Prop :=
  ∀ target, providerTargetState e = some target → s.terminal ∨ target = s

theorem driven_eq_iff {s : CallState} : s.driven e = s ↔ Absorbed s e := by
  unfold CallState.driven Absorbed
  cases providerTargetState e with
  | none => simp
  | some target => by_cases hterminal : s.terminal <;> simp [hterminal]

theorem absorbed_of_not_ofCall (s : CallState) (h : e.ofCall = false) : Absorbed s e := by
  intro target htarget
  revert h htarget
  cases e <;> rintro ⟨⟩ ⟨⟩

theorem state_deliver (hcall : OfCall provider sourceCallId d) (hsource : sourceCallId ≠ "") :
    (intake.deliver d).file.state =
      if dedupeKey d.event ∈ intake.keys then intake.file.state
      else some ((intake.file.state.getD .offered).driven d.type) := by
  rw [deliver_eq]
  split
  · rfl
  · simp only [onProviderEvent, hcall.2, present_some hsource, CallFile.state, Option.map_some,
      state_resolveCaller, state_persist, state_applyProviderEvent]
    cases intake.file.call <;> rfl

/-- After every event the stored state is the one of the plain fold. -/
def Follows (call : CallAggregate) (ds : List (Delivery isDateTime)) : Prop :=
  ∀ seen rest, ds = seen ++ rest → seen ≠ [] →
    (empty.deliverAll seen).file.state
      = some (call.applyAll (seen.map (·.type))).state

/-- An event whose type the call has had before finds the call ended or in the state it names. -/
def RepeatsAbsorbed (call : CallAggregate) (ds : List (Delivery isDateTime)) : Prop :=
  ∀ seen d rest, ds = seen ++ d :: rest → d.type ∈ seen.map (·.type) →
    Absorbed (call.applyAll (seen.map (·.type))).state d.type

/-- Without a repetition there is nothing to absorb. -/
theorem repeatsAbsorbed_of_nodup (call : CallAggregate) (h : (ds.map (·.type)).Nodup) :
    RepeatsAbsorbed call ds := by
  rintro seen d rest rfl hrepeat
  rw [map_append, map_cons, nodup_append] at h
  exact absurd rfl (h.2.2 d.type hrepeat d.type mem_cons_self)

theorem RepeatsAbsorbed.concat {call : CallAggregate} (h : RepeatsAbsorbed call ds)
    (hlast : d.type ∈ ds.map (·.type) → Absorbed (call.applyAll (ds.map (·.type))).state d.type) :
    RepeatsAbsorbed call (ds ++ [d]) := by
  intro seen d' rest heq
  obtain rfl | ⟨rest, final, rfl⟩ := rest.eq_nil_or_concat
  · obtain ⟨rfl, hd⟩ := append_inj' heq rfl
    cases hd
    exact hlast
  · rw [concat_eq_append, ← cons_append, ← append_assoc] at heq
    exact h seen d' rest (append_inj' heq rfl).1

/-- One more event of a call: the stored state stays right exactly if the event is no repetition or
is absorbed. -/
theorem follows_snoc_iff (hsource : sourceCallId ≠ "")
    (hcalls : ∀ d ∈ seen, OfCall provider sourceCallId d) (hcall : OfCall provider sourceCallId d)
    (hstate : seen = [] ∧ (empty.deliverAll seen).file.state = none ∨
      (empty.deliverAll seen).file.state = some (foldState (seen.map (·.type)))) :
    (empty.deliverAll (seen ++ [d])).file.state
        = some (foldState ((seen ++ [d]).map (·.type))) ↔
      (d.type ∈ seen.map (·.type) → Absorbed (foldState (seen.map (·.type))) d.type) := by
  have htracks := tracks_empty.deliverAll hsource hcalls
  rw [nil_append] at htracks
  rw [deliverAll, foldl_concat, ← deliverAll, state_deliver hcall hsource,
    map_append, map_singleton, foldState, foldl_concat, ← foldState]
  have hknown := fun htype => htracks.known_iff hcall hsource htype
  obtain ⟨rfl, hnone⟩ | hsome := hstate
  · simp [empty, Intake.keys, foldState, CallFile.unknown, CallFile.state]
  · rw [hsome, Option.getD_some]
    cases htype : d.type.ofCall with
    | false =>
      have habsorbed := absorbed_of_not_ofCall (foldState (seen.map (·.type))) htype
      simp [driven_eq_iff.mpr habsorbed, habsorbed]
    | true =>
      simp only [hknown htype]
      by_cases hrepeat : d.type ∈ seen.map (·.type)
      · simp only [hrepeat, if_true, Option.some_inj, forall_const]
        exact eq_comm.trans driven_eq_iff
      · simp [hrepeat]

/-- **The stored state follows the provider exactly if every type that the call repeats comes when
it changes nothing.** -/
theorem stored_state_follows_iff (provider sourceCallId : String) (hsource : sourceCallId ≠ "")
    (bbzCallId : String) (direction : CallDirection) (lineId : Option String)
    (ds : List (Delivery isDateTime)) (hcalls : ∀ d ∈ ds, OfCall provider sourceCallId d) :
    Follows (.start bbzCallId direction (some sourceCallId) lineId) ds ↔
      RepeatsAbsorbed (.start bbzCallId direction (some sourceCallId) lineId) ds := by
  have hfold : ∀ events, ((CallAggregate.start bbzCallId direction (some sourceCallId)
      lineId).applyAll events).state = foldState events := fun events => state_applyAll _ events
  simp only [Follows, RepeatsAbsorbed, hfold]
  constructor
  · rintro h seen d rest rfl hrepeat
    have hne : seen ≠ [] := by
      rintro rfl
      cases hrepeat
    have hcall : OfCall provider sourceCallId d := hcalls d (by simp)
    have hseen : ∀ d ∈ seen, OfCall provider sourceCallId d := fun d hd => hcalls d (by simp [hd])
    refine (follows_snoc_iff hsource hseen hcall (.inr (h seen (d :: rest) rfl hne))).mp ?_ hrepeat
    exact h (seen ++ [d]) rest (by simp) (by simp)
  · intro h
    -- along the prefixes, from the left; before the first event there is no call
    have hprefix : ∀ seen rest, ds = seen ++ rest →
        seen = [] ∧ (empty.deliverAll seen).file.state = none ∨
          (empty.deliverAll seen).file.state = some (foldState (seen.map (·.type))) := by
      intro seen
      induction seen using reverseRecOn with
      | nil => exact fun _ _ => .inl ⟨rfl, rfl⟩
      | append_singleton seen d ih =>
        intro rest heq
        have heq' : ds = seen ++ d :: rest := by simpa using heq
        have hcall : OfCall provider sourceCallId d := hcalls d (by simp [heq'])
        have hseen : ∀ d ∈ seen, OfCall provider sourceCallId d :=
          fun d hd => hcalls d (by simp [heq', hd])
        exact .inr ((follows_snoc_iff hsource hseen hcall (ih (d :: rest) heq')).mpr
          (h seen d rest heq'))
    intro seen rest heq hne
    obtain ⟨hnil, -⟩ | hstate := hprefix seen rest heq
    · exact absurd hnil hne
    · exact hstate

/-- An event of a call on a quiet desk. -/
def plainDelivery (telephonyEventId : String) (h : telephonyEventId ≠ "") (type : EventType) :
    Delivery fun _ => true :=
  ⟨quietDesk, [], plainEvent telephonyEventId h type⟩

def heldOnce : List (Delivery fun _ => true) :=
  [plainDelivery "h1" (by decide) .callConnected, plainDelivery "h2" (by decide) .callHeld]

def heldTwice : List (Delivery fun _ => true) :=
  heldOnce ++ [plainDelivery "h3" (by decide) .callResumed,
    plainDelivery "h4" (by decide) .callHeld]

/-- The second hold is lost. -/
theorem second_hold_lost : (empty.deliverAll heldTwice).file.state = some .connected ∧
      ¬ Follows (.start "CALL-20260101-0A1B2C3D" .inbound (some "1001") none) heldTwice := by
  have hstored : (empty.deliverAll heldTwice).file.state = some .connected := by decide
  refine ⟨hstored, fun h => ?_⟩
  have hfollows := h heldTwice [] (by simp) (by simp [heldTwice])
  rw [hstored] at hfollows
  exact absurd hfollows (by decide)

/-- A hold that the provider reports twice is stored. -/
theorem repeated_hold_stored :
    Follows (.start "CALL-20260101-0A1B2C3D" .inbound (some "1001") none)
      (heldOnce ++ [plainDelivery "h3" (by decide) .callHeld]) := by
  refine (stored_state_follows_iff "telephony_mock" "1001" (by decide) _ _ _ _ ?_).mpr ?_
  · simp [heldOnce, OfCall, plainDelivery, plainEvent]
  · refine (repeatsAbsorbed_of_nodup _ (by decide)).concat ?_
    rintro - target ⟨⟩
    exact .inr rfl

end BbzPlatform.Telephony
