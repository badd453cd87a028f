import BbzPlatform.Events.Concurrency
import BbzPlatform.Events.Token

/-!
# Reactivations and their tokens

The two requests of a reactivation among the commands on all events.  `reactivation_intent` reads
the row of an archived event and mints a token for its version.  `reactivate_event` checks the token
against the version in the header, and its transaction then runs like any other one.

No token is ever marked as used.  The save of a reactivation is guarded by the version that its
token names, and every save leaves a later version, so the next one with the same token fails.
-/

namespace BbzPlatform.Events.Reactivation

open Turns Function List

/-- A request for a reactivation whose token was accepted. -/
structure Ticket where
  token : String
  reason : String
  userId : Uuid
  expected : ℤ

/-- A committed reactivation, and the version it was saved over. -/
structure Reactivated where
  eventId : Uuid
  token : String
  version : ℤ

/-- The events with their transactions, the requests that were let in with a token, the tokens that
were minted and the reactivations so far. -/
structure System where
  events : Uuid → State
  tickets : Uuid → ℕ → Option Ticket
  minted : List Mint
  reactivated : List Reactivated

/-- What a process does next on an event. -/
inductive Request where
  /-- Create the event. -/
  | create (agg : EventAggregate) (actorId : Option String)
  /-- `reactivation_intent`. -/
  | intent (userId : Uuid) (now : ℚ)
  /-- `reactivate_event`, up to the first read of its transaction. -/
  | reactivate (confirm : Bool) (expected : Option ℤ) (token reason : String) (userId : Uuid)
      (now : ℚ)
  /-- A step of a transaction. -/
  | advance (m : Move)

/-- Before the first request. -/
def init (stores : Uuid → Store) : System :=
  ⟨fun id => State.init (stores id), fun _ _ => none, [], []⟩

/-- A transaction with a ticket reactivates for its user and reason, and no other one does. -/
def fits : Option Ticket → Move → Bool
  | some ticket, .mutate actorId command =>
    actorId = ticket.userId.text && command = .reactivate ticket.reason
  | none, .mutate _ (.reactivate _) => false
  | _, _ => true

namespace System

/-- Let the transactions of an event go on. -/
def setEvent (s : System) (id : Uuid) (e : State) : System :=
  { s with events := update s.events id e }

@[simp] theorem setEvent_events_self (s : System) (id : Uuid) (e : State) :
    (s.setEvent id e).events id = e := by
  simp [setEvent]

@[simp] theorem setEvent_tickets (s : System) (id : Uuid) (e : State) :
    (s.setEvent id e).tickets = s.tickets := rfl

@[simp] theorem setEvent_reactivated (s : System) (id : Uuid) (e : State) :
    (s.setEvent id e).reactivated = s.reactivated := rfl

/-- A transaction has made a move; a commit with a ticket is a reactivation. -/
def advanced (s : System) (id : Uuid) (n : ℕ) (m : Move) (e : State) : System :=
  match s.tickets id n, m, e.phase n with
  | some ticket, .save, .committed =>
    { s.setEvent id e with
      reactivated := s.reactivated ++ [⟨id, ticket.token, ticket.expected⟩] }
  | _, _, _ => s.setEvent id e

/-- A request is let in with its token and reads the row. -/
def enter (s : System) (id : Uuid) (n : ℕ) (ticket : Ticket) : Option System :=
  ((s.events id).step n (.selectEvent ticket.expected)).map fun e =>
    { s.setEvent id e with
      tickets := update s.tickets id (update (s.tickets id) n (some ticket)) }

end System

section

variable (sign : List UInt8 → List UInt8) (ttl : ℤ)

def step (s : System) (p : Uuid × ℕ) : Request → Option System
  | .create agg actorId =>
    match (s.events p.1).store.add agg actorId with
    | .error _ => some s
    | .ok store => some (s.setEvent p.1 { s.events p.1 with store := store })
  | .intent userId now =>
    match (s.events p.1).store.event with
    | none => some s
    | some row =>
      if row.status = .archived then
        some { s with minted := s.minted ++ [⟨p.1, userId, row.version, now, ttl⟩] }
      else some s
  | .reactivate confirm expected token reason userId now =>
    if confirm = false then some s
    else
      match expected with
      | none => some s
      | some expected =>
        match verifyToken sign token p.1 userId expected now with
        | .error _ => some s
        | .ok _ => s.enter p.1 p.2 ⟨token, reason, userId, expected⟩
  | .advance m =>
    if fits (s.tickets p.1 p.2) m then
      ((s.events p.1).step p.2 m).map (s.advanced p.1 p.2 m)
    else none

end

/-! ## What a step of a transaction does -/

/-- The header of a transaction that has begun and not ended. -/
def expectedOf : Phase → Option ℤ
  | .reading expected _ | .loaded expected _ | .ready expected _ _ _ => some expected
  | .start | .committed | .raised => none

/-- What a step of a transaction can do. -/
inductive Moved (e : State) (n : ℕ) : Move → State → Prop
  /-- It goes on, with the header it had or has just brought, or it ends without a commit. -/
  | went {m : Move} {phase : Phase} (hstart : phase ≠ .start) (hcommitted : phase ≠ .committed)
      (hexpected : ∀ v, expectedOf phase = some v →
        expectedOf (e.phase n) = some v ∨ (e.phase n = .start ∧ m = .selectEvent v)) :
      Moved e n m (e.goto n phase)
  /-- It commits. -/
  | saved {expected : ℤ} {save : Save} {row row' : EventRow} {store : Store}
      (hexpected : expectedOf (e.phase n) = some expected) (hrow : e.store.event = some row)
      (hversion : row.version = expected) (hrow' : store.event = some row')
      (hversion' : row'.version = expected + 1) :
      Moved e n .save { e.goto n .committed with store := store, saves := e.saves ++ [save] }

variable {e e' e₁ e₂ e₃ : State} {sign : List UInt8 → List UInt8} {n : ℕ} {m : Move} {ttl : ℤ}
  {s t : System} {id : Uuid} {ticket : Ticket} {now : ℚ}

theorem Moved.raised : Moved e n m (e.goto n .raised) :=
  .went (by simp) (by simp) (by simp [expectedOf])

theorem moved_of_step (h : e.step n m = some e') : Moved e n m e' := by
  revert h
  fun_cases State.step e n m <;> rintro ⟨⟩ <;> try exact .raised
  next expected hphase row hrow =>
    refine .went (by simp) (by simp) fun v hv => .inr ⟨hphase, ?_⟩
    rw [Option.some.inj hv]
  next hphase assignee hassignee =>
    exact .went (by simp) (by simp) fun v hv => .inl (by rw [hphase]; exact hv)
  next hphase agg' happly =>
    exact .went (by simp) (by simp) fun v hv => .inl (by rw [hphase]; exact hv)
  next hphase store hsave =>
    obtain ⟨⟨row, hrow, hversion⟩, row', hrow', hversion'⟩ := save_version hsave
    exact .saved (by rw [hphase]; rfl) hrow hversion hrow' hversion'

/-- **The version counts the saves.** -/
def Grows (e e' : State) : Prop :=
  ∀ row, e.store.event = some row → e.saves.length ≤ e'.saves.length ∧
    ∃ row', e'.store.event = some row' ∧
      row'.version + e.saves.length = row.version + e'.saves.length

theorem Grows.refl (e : State) : Grows e e := fun row hrow => ⟨le_rfl, row, hrow, rfl⟩

theorem Grows.trans (h : Grows e₁ e₂) (h' : Grows e₂ e₃) : Grows e₁ e₃ := by
  intro row hrow
  obtain ⟨hle, row', hrow', hversion⟩ := h row hrow
  obtain ⟨hle', row'', hrow'', hversion'⟩ := h' row' hrow'
  exact ⟨hle.trans hle', row'', hrow'', by omega⟩

theorem Moved.grows (h : Moved e n m e') : Grows e e' := by
  cases h with
  | went hstart hcommitted hexpected => exact .refl e
  | saved hexpected hrow hversion hrow' hversion' =>
    intro row hrow₀
    obtain rfl := Option.some.inj (hrow.symm.trans hrow₀)
    refine ⟨by simp, _, hrow', ?_⟩
    simp only [length_append, length_singleton]
    push_cast
    omega

/-! ## What a request does -/

/-- A token that decodes to a minted one was minted for this event and version. -/
def Bound (sign : List UInt8 → List UInt8) (token : String) (eventId : Uuid) (version : ℤ) :
    Prop :=
  ∀ mint : Mint, decodeToken token = decodeToken (mint.token sign) →
    mint.eventId = eventId ∧ mint.version = version

/-- What a request can do. -/
inductive Happens (sign : List UInt8 → List UInt8) (s : System) : System → Prop
  /-- It is refused. -/
  | refused : Happens sign s s
  /-- It creates an event. -/
  | created {id : Uuid} {store : Store} (hnone : (s.events id).store.event = none) :
      Happens sign s (s.setEvent id { s.events id with store := store })
  /-- It mints a token. -/
  | minted {mint : Mint} {row : EventRow} (hrow : (s.events mint.eventId).store.event = some row)
      (hversion : mint.version = row.version) :
      Happens sign s { s with minted := s.minted ++ [mint] }
  /-- It is let in with a token. -/
  | admitted {id : Uuid} {n : ℕ} {ticket : Ticket} {e : State}
      (hbound : Bound sign ticket.token id ticket.expected)
      (hstart : (s.events id).phase n = .start)
      (hmoved : Moved (s.events id) n (.selectEvent ticket.expected) e) :
      Happens sign s { s.setEvent id e with
        tickets := update s.tickets id (update (s.tickets id) n (some ticket)) }
  /-- Its transaction makes a move. -/
  | advanced {id : Uuid} {n : ℕ} {m : Move} {e : State} (hmoved : Moved (s.events id) n m e) :
      Happens sign s (s.advanced id n m e)

theorem start_of_selectEvent {v : ℤ}
    (h : e.step n (.selectEvent v) = some e') : e.phase n = .start := by
  cases hphase : e.phase n with
  | start => rfl
  | _ => simp [State.step, hphase] at h

theorem happens_of_step {p : Uuid × ℕ} {request : Request}
    (h : step sign ttl s p request = some t) : Happens sign s t := by
  revert h
  fun_cases step sign ttl s p request <;> intro h <;> try cases h; exact .refused
  next hadd =>
    cases h
    refine .created ?_
    unfold Store.add at hadd
    split at hadd
    · cases hadd
    · assumption
  next hrow _ =>
    cases h
    exact .minted hrow rfl
  next hverify =>
    obtain ⟨e, hstep, rfl⟩ := Option.map_eq_some_iff.1 h
    refine .admitted (fun mint hdecode => ?_) (start_of_selectEvent hstep) (moved_of_step hstep)
    rw [decodeToken_token] at hdecode
    obtain ⟨hevent, -, hversion, -⟩ := (verifyToken_of_carries hdecode _ _ _ _).1 hverify
    exact ⟨hevent, hversion⟩
  · obtain ⟨e, hstep, rfl⟩ := Option.map_eq_some_iff.1 h
    exact .advanced (moved_of_step hstep)
  · cases h

/-! ## Whole runs -/

/-- A transaction with a ticket has begun, and its header is the one of the ticket. -/
def Follows (ticket : Ticket) (phase : Phase) : Prop :=
  phase ≠ .start ∧ ∀ v, expectedOf phase = some v → v = ticket.expected

/-- Tickets and reactivations keep to the event and the version of their tokens; tokens and
reactivations are not ahead of the event. -/
structure Sound (sign : List UInt8 → List UInt8) (s : System) : Prop where
  tickets : ∀ id n ticket, s.tickets id n = some ticket →
    Bound sign ticket.token id ticket.expected ∧ Follows ticket ((s.events id).phase n)
  minted : ∀ mint ∈ s.minted, ∃ row, (s.events mint.eventId).store.event = some row ∧
    mint.version ≤ row.version
  spent : ∀ r ∈ s.reactivated, Bound sign r.token r.eventId r.version ∧
    ∃ row, (s.events r.eventId).store.event = some row ∧ r.version < row.version
  once : s.reactivated.Pairwise fun a b => a.eventId = b.eventId → a.version < b.version

/-- A request commits a reactivation over the version of its token. -/
structure Commits (sign : List UInt8 → List UInt8) (s t : System) (r : Reactivated) : Prop where
  log : t.reactivated = s.reactivated ++ [r]
  bound : Bound sign r.token r.eventId r.version
  base : ∃ row, (s.events r.eventId).store.event = some row ∧ row.version = r.version
  saved : (t.events r.eventId).saves.length = (s.events r.eventId).saves.length + 1

theorem grows_setEvent (h : Grows (s.events id) e) (id' : Uuid) :
    Grows (s.events id') ((s.setEvent id e).events id') :=
  forall_update (Q := fun k => Grows (s.events k)) h (fun _ => .refl _) id'

@[simp] theorem advanced_events (s : System) (id : Uuid) (n : ℕ) (m : Move) (e : State) :
    (s.advanced id n m e).events = (s.setEvent id e).events := by
  unfold System.advanced
  split <;> rfl

@[simp] theorem advanced_tickets (s : System) (id : Uuid) (n : ℕ) (m : Move) (e : State) :
    (s.advanced id n m e).tickets = s.tickets := by
  unfold System.advanced
  split <;> rfl

@[simp] theorem advanced_minted (s : System) (id : Uuid) (n : ℕ) (m : Move) (e : State) :
    (s.advanced id n m e).minted = s.minted := by
  unfold System.advanced
  split <;> rfl

/-- Every request lets the version count the saves. -/
theorem Happens.grows (h : Happens sign s t) (id : Uuid) : Grows (s.events id) (t.events id) := by
  cases h with
  | refused => exact .refl _
  | created hnone =>
    exact grows_setEvent (fun row hrow => by rw [hnone] at hrow; cases hrow) id
  | minted hrow hversion => exact .refl _
  | admitted hbound hstart hmoved => exact grows_setEvent hmoved.grows id
  | advanced hmoved =>
    rw [advanced_events]
    exact grows_setEvent hmoved.grows id

/-- A move leaves the other transactions alone. -/
theorem Moved.frame {k : ℕ} (h : Moved e n m e') (hk : k ≠ n) : e'.phase k = e.phase k := by
  cases h with
  | went hstart hcommitted hexpected | saved hexpected hrow hversion hrow' hversion' =>
    exact e.goto_phase_of_ne hk _

/-- A transaction keeps its header. -/
theorem Moved.follows (h : Moved e n m e')
    (hfollows : Follows ticket (e.phase n)) : Follows ticket (e'.phase n) := by
  cases h with
  | went hstart hcommitted hexpected =>
    rw [State.goto_phase_self]
    refine ⟨hstart, fun v hv => ?_⟩
    rcases hexpected v hv with hbefore | ⟨hbegan, -⟩
    · exact hfollows.2 v hbefore
    · exact absurd hbegan hfollows.1
  | saved hexpected hrow hversion hrow' hversion' =>
    have hphase : ({ e.goto n .committed with store := _, saves := _ } : State).phase n =
      .committed := e.goto_phase_self n .committed
    rw [hphase]
    exact ⟨by simp, by simp [expectedOf]⟩

/-- **A request commits a reactivation only over the version of its token.** -/
theorem Happens.log (hs : Sound sign s) (h : Happens sign s t) :
    t.reactivated = s.reactivated ∨ ∃ r, Commits sign s t r := by
  cases h with
  | refused => exact .inl rfl
  | created hnone => exact .inl rfl
  | minted hrow hversion => exact .inl rfl
  | admitted hbound hstart hmoved => exact .inl rfl
  | @advanced id n m e hmoved =>
    unfold System.advanced
    split
    next ticket hticket hphase =>
      obtain ⟨hbound, hfollows⟩ := hs.tickets id n ticket hticket
      cases hmoved with
      | went hstart hcommitted hexpected =>
        rw [State.goto_phase_self] at hphase
        exact absurd hphase hcommitted
      | saved hexpected hrow hversion hrow' hversion' =>
        have hheader := hfollows.2 _ hexpected
        exact .inr ⟨_, rfl, hbound, ⟨_, hrow, hversion.trans hheader⟩,
          by simp [System.setEvent]⟩
    · exact .inl rfl

namespace Sound

theorem init (sign : List UInt8 → List UInt8) (stores : Uuid → Store) :
    Sound sign (init stores) where
  tickets := by simp [Reactivation.init]
  minted := by simp [Reactivation.init]
  spent := by simp [Reactivation.init]
  once := .nil

/-- A transaction keeps its header when transactions of any event go on. -/
theorem follows_setEvent {id' : Uuid} {n' : ℕ}
    (hfollows : Follows ticket ((s.events id).phase n)) (hmoved : Moved (s.events id') n' m e) :
    Follows ticket (((s.setEvent id' e).events id).phase n) := by
  by_cases hid : id = id'
  · subst hid
    rw [System.setEvent_events_self]
    by_cases hn : n = n'
    · subst hn
      exact hmoved.follows hfollows
    · rw [hmoved.frame hn]
      exact hfollows
  · simpa [System.setEvent, hid] using hfollows

/-- A request that is let in brings the header of its ticket. -/
theorem follows_admitted (hstart : e.phase n = .start)
    (hmoved : Moved e n (.selectEvent ticket.expected) e') : Follows ticket (e'.phase n) := by
  cases hmoved with
  | went hphase hcommitted hexpected =>
    rw [State.goto_phase_self]
    refine ⟨hphase, fun v hv => ?_⟩
    rcases hexpected v hv with hbefore | ⟨-, hmove⟩
    · rw [hstart] at hbefore
      cases hbefore
    · exact (Move.selectEvent.inj hmove).symm

variable (hs : Sound sign s) (h : Happens sign s t)
include hs h

theorem tickets_happens (id : Uuid) (n : ℕ) (ticket : Ticket)
    (hticket : t.tickets id n = some ticket) :
    Bound sign ticket.token id ticket.expected ∧ Follows ticket ((t.events id).phase n) := by
  cases h with
  | refused => exact hs.tickets id n ticket hticket
  | @created id' store hnone =>
    obtain ⟨hbound, hfollows⟩ := hs.tickets id n ticket hticket
    have hphase : ((s.setEvent id' { s.events id' with store := store }).events id).phase =
        (s.events id).phase :=
      forall_update (Q := fun k (e : State) => e.phase = (s.events k).phase)
        (x := { s.events id' with store := store }) rfl (fun _ => rfl) id
    rw [hphase]
    exact ⟨hbound, hfollows⟩
  | minted hrow hversion => exact hs.tickets id n ticket hticket
  | @admitted id' n' ticket' e hbound' hstart hmoved =>
    by_cases hsame : id = id' ∧ n = n'
    · obtain ⟨rfl, rfl⟩ := hsame
      simp only [update_self, Option.some.injEq] at hticket
      subst hticket
      refine ⟨hbound', ?_⟩
      simpa [System.setEvent] using follows_admitted hstart hmoved
    · have hold : s.tickets id n = some ticket := by
        by_cases hid : id = id'
        · subst hid
          simpa [update_of_ne fun hn => hsame ⟨rfl, hn⟩] using hticket
        · simpa [update_of_ne hid] using hticket
      obtain ⟨hbound, hfollows⟩ := hs.tickets id n ticket hold
      exact ⟨hbound, follows_setEvent hfollows hmoved⟩
  | advanced hmoved =>
    rw [advanced_tickets] at hticket
    rw [advanced_events]
    obtain ⟨hbound, hfollows⟩ := hs.tickets id n ticket hticket
    exact ⟨hbound, follows_setEvent hfollows hmoved⟩

/-- Tokens are not ahead of the event. -/
theorem minted_happens (mint : Mint) (hmint : mint ∈ t.minted) :
    ∃ row, (t.events mint.eventId).store.event = some row ∧ mint.version ≤ row.version := by
  have hold (hmint : mint ∈ s.minted) :
      ∃ row, (t.events mint.eventId).store.event = some row ∧ mint.version ≤ row.version := by
    obtain ⟨row, hrow, hle⟩ := hs.minted mint hmint
    obtain ⟨hsaves, row', hrow', hversion⟩ := h.grows mint.eventId row hrow
    exact ⟨row', hrow', by omega⟩
  cases h with
  | refused => exact hs.minted mint hmint
  | created hnone => exact hold hmint
  | minted hrow hversion =>
    rcases mem_append.1 hmint with hmint | hmint
    · exact hold hmint
    · rw [mem_singleton.1 hmint]
      exact ⟨_, hrow, hversion.le⟩
  | admitted hbound hstart hmoved => exact hold hmint
  | advanced hmoved => exact hold (by simpa using hmint)

/-- Reactivations stay behind the event. -/
theorem spent_grows {r : Reactivated} (hr : r ∈ s.reactivated) :
    Bound sign r.token r.eventId r.version ∧
      ∃ row, (t.events r.eventId).store.event = some row ∧ r.version < row.version := by
  obtain ⟨hbound, row, hrow, hlt⟩ := hs.spent r hr
  obtain ⟨hsaves, row', hrow', hversion⟩ := h.grows r.eventId row hrow
  exact ⟨hbound, row', hrow', by omega⟩

/-- **Every request keeps the invariant.** -/
theorem happens : Sound sign t where
  tickets := hs.tickets_happens h
  minted := hs.minted_happens h
  spent r hr := by
    rcases h.log hs with hlog | ⟨r', hlog, hbound, ⟨row, hrow, hversion⟩, hsaved⟩
    · rw [hlog] at hr
      exact hs.spent_grows h hr
    · rw [hlog] at hr
      rcases mem_append.1 hr with hr | hr
      · exact hs.spent_grows h hr
      · obtain rfl := mem_singleton.1 hr
        obtain ⟨-, row', hrow', hversion'⟩ := h.grows _ row hrow
        exact ⟨hbound, row', hrow', by omega⟩
  once := by
    rcases h.log hs with hlog | ⟨r', hlog, hbound, ⟨row, hrow, hversion⟩, hsaved⟩
    · rw [hlog]
      exact hs.once
    · rw [hlog, pairwise_append]
      refine ⟨hs.once, pairwise_singleton _ _, fun r hr r'' hr'' hevent => ?_⟩
      obtain rfl := mem_singleton.1 hr''
      obtain ⟨-, row₀, hrow₀, hlt⟩ := hs.spent r hr
      rw [hevent, hrow] at hrow₀
      cases hrow₀
      omega

end Sound

abbrev Run (sign : List UInt8 → List UInt8) (ttl : ℤ) : System → System → Prop :=
  Relation.ReflTransGen (AnyTurn (step sign ttl))

theorem Sound.run (hs : Sound sign s) (hrun : Run sign ttl s t) : Sound sign t :=
  Turn.invariant (P := Sound sign)
    (fun _ _ _ _ ih _ hstep => ih.happens (happens_of_step hstep)) hs hrun

theorem grows_run (hrun : Run sign ttl s t) (id : Uuid) : Grows (s.events id) (t.events id) :=
  Turn.invariant (P := fun u => Grows (s.events id) (u.events id))
    (fun _ _ _ _ ih _ hstep => ih.trans ((happens_of_step hstep).grows id)) (.refl _) hrun

/-- The reactivations that are committed along a run are saved over versions that are not older than
the run. -/
theorem log_run (hs : Sound sign s) (hrun : Run sign ttl s t) :
    ∃ later, t.reactivated = s.reactivated ++ later ∧ ∀ r ∈ later,
      Bound sign r.token r.eventId r.version ∧
        ∀ row, (s.events r.eventId).store.event = some row → row.version ≤ r.version := by
  induction hrun with
  | refl => exact ⟨[], by simp, by simp⟩
  | @tail u v hrun hturn ih =>
    obtain ⟨p, request, -, hstep⟩ := hturn
    obtain ⟨later, hlater, hall⟩ := ih
    rcases (happens_of_step hstep).log (hs.run hrun) with
      hlog | ⟨r, hlog, hbound, ⟨row, hrow, hversion⟩, -⟩
    · exact ⟨later, by rw [hlog, hlater], hall⟩
    · refine ⟨later ++ [r], by rw [hlog, hlater, append_assoc], fun r' hr' => ?_⟩
      rcases mem_append.1 hr' with hr' | hr'
      · exact hall r' hr'
      · obtain rfl := mem_singleton.1 hr'
        refine ⟨hbound, fun row₀ hrow₀ => ?_⟩
        obtain ⟨hsaves, row', hrow', hversion'⟩ := grows_run hrun _ row₀ hrow₀
        rw [hrow] at hrow'
        cases hrow'
        omega

/-- The reactivations that were committed with a token. -/
def System.uses (s : System) (sign : List UInt8 → List UInt8) (mint : Mint) : List Reactivated :=
  s.reactivated.filter fun r => decodeToken r.token = decodeToken (mint.token sign)

/-- **A token is used at most once.** -/
theorem Sound.uses_le (hs : Sound sign s) (mint : Mint) : (s.uses sign mint).length ≤ 1 := by
  have hbound : ∀ r ∈ s.uses sign mint, mint.eventId = r.eventId ∧ mint.version = r.version := by
    intro r hr
    obtain ⟨hr, hdecode⟩ := mem_filter.1 hr
    exact (hs.spent r hr).1 mint (of_decide_eq_true hdecode)
  have honce : (s.uses sign mint).Pairwise fun a b => a.eventId = b.eventId →
      a.version < b.version := hs.once.filter _
  cases huses : s.uses sign mint with
  | nil => simp
  | cons a rest =>
    cases rest with
    | nil => simp
    | cons b rest =>
      rw [huses] at hbound honce
      obtain ⟨hevent, hversion⟩ := hbound a (by simp)
      obtain ⟨hevent', hversion'⟩ := hbound b (by simp)
      have hlt := (pairwise_cons.1 honce).1 b (by simp) (hevent.symm.trans hevent')
      omega

/-- **A token is void once its event has been saved.** -/
theorem uses_of_changed (hs : Sound sign s) {mint : Mint} (hmint : mint ∈ s.minted)
    {u : System} (hrun : Run sign ttl s t)
    (hchanged : (s.events mint.eventId).saves.length < (t.events mint.eventId).saves.length)
    (hrun' : Run sign ttl t u) : u.uses sign mint = t.uses sign mint := by
  obtain ⟨later, hlater, hall⟩ := log_run (hs.run hrun) hrun'
  obtain ⟨row, hrow, hle⟩ := hs.minted mint hmint
  obtain ⟨-, row', hrow', hversion⟩ := grows_run hrun mint.eventId row hrow
  have hnone : later.filter (fun r => decodeToken r.token = decodeToken (mint.token sign)) =
      [] := by
    rw [filter_eq_nil_iff]
    intro r hr hdecode
    obtain ⟨hbound, hversions⟩ := hall r hr
    obtain ⟨hevent, hversion'⟩ := hbound mint (of_decide_eq_true hdecode)
    have hrow'' := hversions row' (hevent ▸ hrow')
    omega
  rw [System.uses, hlater, filter_append, hnone, append_nil]
  rfl

/-- A request with a good token is let in. -/
theorem turn_reactivate (ticket : Ticket)
    (hverify : verifyToken sign ticket.token id ticket.userId ticket.expected now = .ok ())
    (hevent : s.events id = e) (hstep : e.step n (.selectEvent ticket.expected) = some e') :
    AnyTurn (step sign ttl) s { s.setEvent id e' with
      tickets := update s.tickets id (update (s.tickets id) n (some ticket)) } := by
  refine ⟨(id, n), .reactivate true (some ticket.expected) ticket.token ticket.reason
    ticket.userId now, trivial, ?_⟩
  simp [step, hverify, System.enter, hevent, hstep]

/-- **Tokens are sound and good for one reactivation.**  A token is accepted iff it decodes to one
that was minted for the same event, user and version and has not expired, given that signatures are
not forged.  In every run of commands on the events, at most one reactivation is committed with a
minted token, and none any more once its event has been saved. -/
theorem tokens_sound_and_single_use (sign : List UInt8 → List UInt8) (ttl : ℤ)
    (stores : Uuid → Store) :
    (∀ minted token, Unforged sign minted token → ∀ eventId userId version now,
      verifyToken sign token eventId userId version now = .ok () ↔
        ∃ mint ∈ minted, decodeToken token = decodeToken (mint.token sign) ∧
          mint.eventId = eventId ∧ mint.userId = userId ∧ mint.version = version ∧
            now < mint.expiry) ∧
      ∀ s, Run sign ttl (init stores) s → ∀ mint ∈ s.minted,
        (s.uses sign mint).length ≤ 1 ∧
          ∀ t u, Run sign ttl s t →
            (s.events mint.eventId).saves.length < (t.events mint.eventId).saves.length →
              Run sign ttl t u → u.uses sign mint = t.uses sign mint := by
  refine ⟨fun minted token hunforged => verifyToken_iff hunforged, fun s hrun mint hmint => ?_⟩
  have hs : Sound sign s := (Sound.init sign stores).run hrun
  exact ⟨hs.uses_le mint, fun t u hrun' hchanged hrun'' =>
    uses_of_changed hs hmint hrun' hchanged hrun''⟩

/-- An event. -/
def doorAlarm : Uuid := ⟨"0a1b2c3d-0000-4000-8000-000000000001", by decide⟩

/-- A user. -/
def anna : Uuid := ⟨"0a1b2c3d-0000-4000-8000-000000000002", by decide⟩

def archivedRow : EventRow := { alarmRow with status := .archived, version := 3 }

def firstMint : Mint := ⟨doorAlarm, anna, 3, 0, 120⟩

/-- A minted token is accepted and reactivates the event, once. -/
theorem first_token_used : ∃ s : System,
    Run reverse 120 (init fun _ => ⟨some archivedRow, [], [], []⟩) s ∧
      s.reactivated.length = 1 ∧ (s.uses reverse firstMint).length ≤ 1 ∧
      verifyToken reverse (firstMint.token reverse) doorAlarm anna 3 60 = .ok () := by
  let store : Store := ⟨some archivedRow, [], [], []⟩
  obtain ⟨hsound, huse⟩ := tokens_sound_and_single_use reverse 120 fun _ => store
  have hunforged : Unforged reverse [firstMint] (firstMint.token reverse) := by
    intro body hbody
    rw [decodeToken_token] at hbody
    obtain ⟨rfl, -⟩ := Prod.mk.inj (Option.some.inj hbody)
    exact ⟨firstMint, mem_singleton_self _, rfl⟩
  have hexpiry : firstMint.expiry = 120 := by norm_num [Mint.expiry, firstMint, truncate]
  have hverify : verifyToken reverse (firstMint.token reverse) doorAlarm anna 3 60 =
      .ok () := by
    refine (hsound _ _ hunforged _ _ _ _).2
      ⟨firstMint, mem_singleton_self _, rfl, rfl, rfl, rfl, ?_⟩
    rw [hexpiry]
    norm_num
  let s₁ : System := { init (fun _ => store) with minted := [firstMint] }
  have hintent : AnyTurn (step reverse 120) (init fun _ => store) s₁ :=
    ⟨(doorAlarm, 0), .intent anna 0, trivial, rfl⟩
  have hadmitted : AnyTurn (step reverse 120) s₁ _ :=
    turn_reactivate (n := 0) ⟨firstMint.token reverse, "again", anna, 3⟩ hverify rfl rfl
  let moves : List ((Uuid × ℕ) × Request) := [((doorAlarm, 0), .advance .selectAssignee),
    ((doorAlarm, 0), .advance (.mutate anna.text (.reactivate "again"))),
    ((doorAlarm, 0), .advance .save)]
  have hrun : Run reverse 120 (init fun _ => store) _ :=
    .head hintent (.head hadmitted (@run_of_execute _ _ _ _ _ _ moves rfl))
  exact ⟨_, hrun, rfl, (huse _ hrun firstMint (mem_singleton_self _)).1, hverify⟩

end BbzPlatform.Events.Reactivation
