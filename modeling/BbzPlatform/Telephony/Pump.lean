import BbzPlatform.Lib.Histories
import BbzPlatform.Telephony.Ingest

/-!
# Draining the telephony provider

The events of the SIP provider wait in its memory.  A tick takes up to a hundred of them out and
ingests them one by one, each in a transaction of its own.  Only an event that the schema rejects is
passed over: any other failure ends the tick, and the rest of the batch is gone.  So is the buffer
of a provider that is evicted.

## Main definitions

* `Move`, `step` — what happens to buffers, ticks and the inbox.
* `Kept` — between ticks, an event is still to be drained or in the inbox.
* `Careful` — nothing is dropped that is not in the inbox.
-/

namespace BbzPlatform.Telephony.Pump

/-- An event of the provider, if `telephony_event.v1` accepts it. -/
abbrev Item (isDateTime : String → Bool) := Option (TelephonyEvent isDateTime)

/-- The buffers of all providers there have been, the one that is cached, what a tick has drained
and not ingested, and the tables.  The events that have ever been buffered are recorded. -/
structure State (isDateTime : String → Bool) where
  buffer : ℕ → List (Item isDateTime)
  cached : Option ℕ
  built : ℕ
  batch : List (Item isDateTime)
  intake : Intake isDateTime
  buffered : List (TelephonyEvent isDateTime)

inductive Move (isDateTime : String → Bool) where
  /-- A provider is built, which buffers an event for each of its lines. -/
  | build (lines : List (Item isDateTime))
  /-- A provider, cached or not, buffers an event. -/
  | put (provider : ℕ) (item : Item isDateTime)
  | evict
  /-- A tick begins. -/
  | drain
  /-- The next event is ingested. -/
  | ingest (env : Surroundings) (endpoints : List TechnicalEndpoint)
  /-- A statement of the ingest fails. -/
  | fail

variable {isDateTime : String → Bool} {s : State isDateTime}

/-- The limit of `drain_events`. -/
def drainLimit : ℕ := 100

def step (s : State isDateTime) : Move isDateTime → State isDateTime
  | .build lines =>
    if s.cached.isSome then s
    else { s with
      buffer := Function.update s.buffer s.built lines
      cached := some s.built
      built := s.built + 1
      buffered := s.buffered ++ lines.filterMap id }
  | .put provider item => { s with
      buffer := Function.update s.buffer provider (s.buffer provider ++ [item])
      buffered := s.buffered ++ item.toList }
  | .evict => { s with cached := none }
  | .drain =>
    match s.batch, s.cached with
    | [], some provider => { s with
        buffer := Function.update s.buffer provider ((s.buffer provider).drop drainLimit)
        batch := (s.buffer provider).take drainLimit }
    | _, _ => s
  | .ingest env endpoints =>
    match s.batch with
    | [] => s
    -- `TelephonyEventRejected`
    | none :: rest => { s with batch := rest }
    | some event :: rest =>
      { s with batch := rest, intake := s.intake.deliver ⟨env, endpoints, event⟩ }
  | .fail => { s with batch := [] }

/-- The event is in the buffer that the next tick drains. -/
def State.Waits (s : State isDateTime) (event : TelephonyEvent isDateTime) : Prop :=
  ∃ provider, s.cached = some provider ∧ some event ∈ s.buffer provider

/-- A row of the inbox holds the event. -/
def State.Committed (s : State isDateTime) (event : TelephonyEvent isDateTime) : Prop :=
  ∃ row ∈ s.intake.inbox, row.normalized = .event event

/-- Between ticks, every event that was ever buffered waits or is committed. -/
def Kept (s : State isDateTime) : Prop :=
  s.batch = [] → ∀ event ∈ s.buffered, s.Waits event ∨ s.Committed event

/-- Events are buffered by the provider that is cached, no event is ingested whose key another one
has taken, and a provider that is evicted and a tick that fails have no event left that is not
committed. -/
def Careful (s : State isDateTime) : Move isDateTime → Prop
  | .put provider (some _) => s.cached = some provider
  | .evict => ∀ event, s.Waits event → s.Committed event
  | .ingest _ _ => ∀ event, s.batch.head? = some (some event) → dedupeKey event ∈ s.intake.keys →
      s.Committed event
  | .fail => ∀ event, some event ∈ s.batch → s.Committed event
  | _ => True

/-! ## Careful histories -/

/-- An event waits, is in the batch of the tick that is under way, or is committed. -/
def Inv (s : State isDateTime) : Prop :=
  ∀ event ∈ s.buffered, s.Waits event ∨ some event ∈ s.batch ∨ s.Committed event

theorem Inv.kept (h : Inv s) : Kept s := by
  intro hidle event hevent
  rcases h event hevent with hwaits | hbatch | hcommitted
  · exact .inl hwaits
  · rw [hidle] at hbatch
    cases hbatch
  · exact .inr hcommitted

/-- What the rows hold after a new event: what they held, and the event. -/
theorem normalized_store (d : Delivery isDateTime) (inbox : List (InboxRow isDateTime)) :
    (d.store inbox).map (·.normalized) = inbox.map (·.normalized) ++ [.event d.event] := by
  rw [Delivery.store, markProcessed, List.map_map]
  refine Eq.trans (List.map_congr_left fun row _ => ?_) (List.map_append ..)
  simp only [Function.comp_apply]
  split <;> rfl

/-- The signal is queued behind the events. -/
theorem store_subset_enqueue (d : Delivery isDateTime) (inbox : List (InboxRow isDateTime)) :
    d.store inbox ⊆ d.enqueue inbox := by
  intro row hrow
  rw [Delivery.enqueue]
  split
  · exact hrow
  · rw [Telephony.ingest]
    split
    · exact hrow
    · exact List.mem_append_left _ hrow

/-- **A delivery commits its event**, unless the key is taken, and keeps what is committed. -/
theorem committed_deliver {s' : State isDateTime} {d : Delivery isDateTime}
    {event : TelephonyEvent isDateTime} (hintake : s'.intake = s.intake.deliver d)
    (h : s.Committed event ∨ event = d.event ∧ dedupeKey d.event ∉ s.intake.keys) :
    s'.Committed event := by
  rw [State.Committed, hintake, deliver_eq]
  split_ifs with hknown
  · exact h.resolve_right fun hnew => hnew.2 hknown
  · have hstored : .event event ∈ (d.store s.intake.inbox).map (·.normalized) := by
      rw [normalized_store, List.mem_append, List.mem_singleton]
      exact h.imp List.mem_map.mpr fun hnew => congrArg Normalized.event hnew.1
    obtain ⟨row, hrow, hevent⟩ := List.mem_map.mp hstored
    exact ⟨row, store_subset_enqueue d _ hrow, hevent⟩

theorem Inv.drain (h : Inv s) : Inv (step s .drain) := by
  rw [step]
  split
  next provider hidle hcached =>
    intro event hevent
    rcases h event hevent with ⟨provider', hcached', hmem⟩ | hbatch | hcommitted
    · cases hcached.symm.trans hcached'
      rw [← List.take_append_drop drainLimit (s.buffer provider)] at hmem
      rcases List.mem_append.mp hmem with hmem | hmem
      · exact .inr (.inl hmem)
      · exact .inl ⟨provider, hcached, by simpa using hmem⟩
    · rw [hidle] at hbatch
      cases hbatch
    · exact .inr (.inr hcommitted)
  next => exact h

theorem Inv.ingest (h : Inv s) {env : Surroundings} {endpoints : List TechnicalEndpoint}
    (hm : Careful s (.ingest env endpoints)) : Inv (step s (.ingest env endpoints)) := by
  rw [step]
  split
  next => exact h
  next rest hbatch =>
    intro event hevent
    rcases h event hevent with hwaits | hmem | hcommitted
    · exact .inl hwaits
    · rw [hbatch] at hmem
      exact .inr (.inl (by simpa using hmem))
    · exact .inr (.inr hcommitted)
  next first rest hbatch =>
    intro event hevent
    rcases h event hevent with hwaits | hmem | hcommitted
    · exact .inl hwaits
    · rw [hbatch] at hmem
      rcases List.mem_cons.mp hmem with heq | hmem
      · obtain rfl := Option.some.inj heq
        refine .inr (.inr (committed_deliver (s := s) rfl ?_))
        by_cases hknown : dedupeKey event ∈ s.intake.keys
        · exact .inl (hm event (by rw [hbatch]; rfl) hknown)
        · exact .inr ⟨rfl, hknown⟩
      · exact .inr (.inl hmem)
    · exact .inr (.inr (committed_deliver (s := s) rfl (.inl hcommitted)))

theorem Inv.step (h : Inv s) (m : Move isDateTime) (hm : Careful s m) : Inv (step s m) := by
  cases m with
  | build lines =>
    rw [Pump.step]
    split_ifs with hnone
    · exact h
    · intro event hevent
      rcases List.mem_append.mp hevent with hold | hnew
      · rcases h event hold with ⟨provider, hcached, -⟩ | hrest
        · simp [hcached] at hnone
        · exact .inr hrest
      · exact .inl ⟨s.built, rfl, by simpa using hnew⟩
  | put provider item =>
    intro event hevent
    rcases List.mem_append.mp hevent with hold | hnew
    · rcases h event hold with ⟨provider', hcached, hmem⟩ | hrest
      · refine .inl ⟨provider', hcached, ?_⟩
        by_cases heq : provider' = provider
        · subst heq
          simp [Pump.step, hmem]
        · simpa [Pump.step, heq] using hmem
      · exact .inr hrest
    · obtain rfl : item = some event := by simpa using hnew
      exact .inl ⟨provider, hm, by simp [Pump.step]⟩
  | evict => exact fun event hevent => .inr ((h event hevent).elim (.inr <| hm event ·) id)
  | drain => exact h.drain
  | ingest env endpoints => exact h.ingest hm
  | fail =>
    intro event hevent
    rcases h event hevent with hwaits | hbatch | hcommitted
    · exact .inl hwaits
    · exact .inr (.inr (hm event hbatch))
    · exact .inr (.inr hcommitted)

/-- No provider, no tick and any tables. -/
def State.start (intake : Intake isDateTime) : State isDateTime :=
  ⟨fun _ => [], none, 0, [], intake, []⟩

end BbzPlatform.Telephony.Pump
