import BbzPlatform.Doors.Open

/-!
# A door opens once per command

Three records keep a sequence from being sent twice: the row of the command id, which is dropped
when a request fails and purged when it is old; `dtmf_sent_at`, which is written after the gateway
has received the sequence; and the memory of the adapter, which is lost with its process.  A
request that is interrupted between the receipt and the write of `dtmf_sent_at` leaves no trace on
another host, and the retry sends the sequence again.

The gateway receives the sequence at most once in every run in which no two requests are between the
check of `dtmf_sent_at` and its write at the same time, and in which after such an interruption only
an adapter that remembers the command is asked again.

## Main definitions

* `Covered` — the check is made alone, and the send is not a repetition.
-/

namespace BbzPlatform.Doors

open Turns Function

/-- The request has found that the sequence was not sent, and has not recorded that it is now. -/
def Phase.inWindow : Phase → Bool
  | .driving _ _ .unsent | .driving _ _ .sending | .driving _ _ .received | .driving _ _ .sent =>
    true
  | _ => false

/-- A request that is about to send is the only one, and where the adapter does not remember the
command, no request was interrupted after the gateway had received the sequence. -/
structure Covered (s : Desk) (p : ℕ) (m : Action) : Prop where
  alone : m = .check → s.alreadySent = false → ∀ q, (s.phase q).inWindow = false
  settled : ∀ job plan, m = .send → s.phase p = .driving job plan .unsent →
    s.seen job.host = none → s.interrupted = false

variable {site : Site} {s t : Desk} {p : ℕ} {m : Action} {x : Phase} {point point' : Point}
  {job : Job} {plan : Plan} {state : DoorOpenState}

/-- `_drive` is under way. -/
def Phase.isDriving : Phase → Bool
  | .driving _ _ _ => true
  | _ => false

/-- The gateway is asked, and has not received the sequence. -/
def Phase.isSending : Phase → Bool
  | .driving _ _ .sending => true
  | _ => false

/-- What holds along a run in which every send is covered. -/
structure OnceInv (s : Desk) : Prop where
  taken : ∀ p, (s.phase p).isDriving = true → s.row.isSome = true
  exclusive : ∀ p q, (s.phase p).inWindow = true → (s.phase q).inWindow = true → p = q
  unrecorded : ∀ p, (s.phase p).inWindow = true → s.alreadySent = false
  once : s.received ≤ 1
  first : ∀ p, (s.phase p).isSending = true → s.received = 0
  traced : 0 < s.received →
    s.alreadySent = true ∨ s.interrupted = true ∨ ∃ p, (s.phase p).isSent = true

theorem onceInv_start : OnceInv Desk.start := by
  refine ⟨?_, ?_, ?_, ?_, ?_, ?_⟩ <;>
    simp [Desk.start, Phase.isDriving, Phase.inWindow, Phase.isSending]

theorem inWindow_of_isSent (h : x.isSent = true) : x.inWindow = true := by
  unfold Phase.isSent at h
  split at h
  · rfl
  · rfl
  · cases h

theorem inWindow_of_isSending (h : x.isSending = true) : x.inWindow = true := by
  unfold Phase.isSending at h
  split at h
  · rfl
  · cases h

theorem outside_of_not_driving (h : x.isDriving = false) : x.inWindow = false := by
  cases x with
  | driving => cases h
  | _ => rfl

theorem OnceInv.leaves (h : OnceInv s) (hx : x.inWindow = false)
    (hphase : t.phase = update s.phase p x) (hrow : s.row.isSome = true → t.row.isSome = true)
    (hdriving : x.isDriving = true → t.row.isSome = true) (hsent : t.alreadySent = s.alreadySent)
    (hreceived : t.received = s.received) (hinterrupted : t.interrupted =
      (s.interrupted || ((s.phase p).isSent && decide (0 < s.received)))) : OnceInv t := by
  have hother : ∀ q, (t.phase q).inWindow = true → q ≠ p ∧ t.phase q = s.phase q := by
    intro q hq
    have hne : q ≠ p := by
      rintro rfl
      simp [hphase, hx] at hq
    exact ⟨hne, by rw [hphase, update_of_ne hne]⟩
  refine ⟨fun q hq => ?_, fun q q' hq hq' => ?_, fun q hq => ?_, hreceived ▸ h.once, fun q hq => ?_,
    fun hpos => ?_⟩
  · rw [hphase] at hq
    exact forall_update
      (Q := fun _ (y : Phase) => y.isDriving = true → t.row.isSome = true) hdriving
      (fun q hq => hrow (h.taken q hq)) q hq
  · exact h.exclusive q q' ((hother q hq).2 ▸ hq) ((hother q' hq').2 ▸ hq')
  · exact hsent ▸ h.unrecorded q ((hother q hq).2 ▸ hq)
  · rw [hreceived]
    exact h.first q ((hother q (inWindow_of_isSending hq)).2 ▸ hq)
  · rw [hreceived] at hpos
    rw [hsent, hinterrupted]
    obtain hrecorded | hint | ⟨q, hq⟩ := h.traced hpos
    · exact .inl hrecorded
    · exact .inr (.inl (by simp [hint]))
    · by_cases hne : q = p
      · subst hne
        exact .inr (.inl (by simp [hq, hpos]))
      · exact .inr (.inr ⟨q, by rwa [hphase, update_of_ne hne]⟩)

/-- A request that is not in the window goes on outside of it. -/
theorem OnceInv.goTo (h : OnceInv s) (hx : x.inWindow = false)
    (hdriving : x.isDriving = true → s.row.isSome = true) (hp : (s.phase p).isSent = false)
    (hphase : t.phase = update s.phase p x) (hrow : t.row = s.row)
    (hreceived : t.received = s.received) (hinterrupted : t.interrupted = s.interrupted) :
    OnceInv t := by
  refine h.leaves hx hphase (fun hs => hrow ▸ hs) (fun hd => hrow ▸ hdriving hd) ?_ hreceived ?_
  · rw [Desk.alreadySent, hrow, Desk.alreadySent]
  · simp [hinterrupted, hp]

theorem outside_afterDtmf (job : Job) (plan : Plan) : (afterDtmf job plan).inWindow = false := by
  unfold afterDtmf
  split <;> rfl

theorem not_driving_onError {e : DoorError} (h : (s.phase p).onError e = some x) :
    x.isDriving = false := by
  cases hphase : s.phase p with
  | driving job plan point =>
    rw [hphase] at h
    cases e with
    | failed =>
      cases h
      cases point <;> rfl
    | _ =>
      cases h
      rfl
  | ended => simp [hphase, Phase.onError] at h
  | _ =>
    rw [hphase] at h
    cases h
    rfl

/-- What the provider is asked does not lead into the window or out of it. -/
theorem outside_next {next : Next} (h : point.next job plan m = some next) :
    (Phase.driving job plan point).isSent = false ∧ (next.phase job plan).inWindow = false := by
  unfold Point.next at h
  split at h
  all_goals cases h
  all_goals refine ⟨rfl, ?_⟩
  all_goals (repeat' split) <;> rfl

theorem mark_outside (job : Job) (plan : Plan) (h : point.mark = some (state, point')) :
    (Phase.driving job plan point).isSent = false ∧
      (Phase.driving job plan point').inWindow = false := by
  unfold Point.mark at h
  split at h <;> cases h <;> exact ⟨rfl, rfl⟩

namespace OnceInv

/-- A request stops driving. -/
theorem leave (h : OnceInv s) (hx : x.isDriving = false) : OnceInv (s.leave p x) :=
  h.leaves (outside_of_not_driving hx) rfl id (by simp [hx]) rfl rfl rfl

/-- A request that is not driving stays so. -/
theorem waits (h : OnceInv s) (hp : (s.phase p).isDriving = false) (hx : x.isDriving = false)
    (hphase : t.phase = update s.phase p x) (hrow : t.row = s.row)
    (hreceived : t.received = s.received) (hinterrupted : t.interrupted = s.interrupted) :
    OnceInv t := by
  have hsent : (s.phase p).isSent = false := by
    by_contra hsent
    have hwindow := inWindow_of_isSent (by simpa using hsent)
    simp [outside_of_not_driving hp] at hwindow
  exact h.goTo (outside_of_not_driving hx) (by simp [hx]) hsent hphase hrow hreceived hinterrupted

variable (h : OnceInv s)
include h

section

variable (hp : (s.phase p).isDriving = false)
include hp

theorem claimId : OnceInv (s.claimId p job) := by
  unfold Desk.claimId
  split
  · exact h.waits (x := .claimed job) hp rfl rfl rfl rfl rfl
  · exact h.waits (x := .ended _) hp rfl rfl rfl rfl rfl

theorem resolvePlan : OnceInv (s.resolvePlan site p job) := by
  unfold Desk.resolvePlan
  split
  · exact h.waits (x := .raising _) hp rfl rfl rfl rfl rfl
  · exact h.waits (x := .resolved job _) hp rfl rfl rfl rfl rfl

theorem complete {result : DoorOpenResult} : OnceInv (s.complete p result) := by
  unfold Desk.complete
  split
  · exact h.waits (x := .ended _) hp rfl rfl rfl rfl rfl
  · exact h.waits (x := .ended _) hp rfl rfl rfl rfl rfl

end

theorem finish {outcome : DoorOpenOutcome} {detail : String}
    (hphase : s.phase p = .finishing job outcome detail) :
    OnceInv (s.finish site p job outcome detail) := by
  refine h.leaves (x := .finished (site.result job outcome detail)) rfl rfl ?_
    (by simp [Phase.isDriving]) ?_ rfl ?_
  · simp [Desk.finish]
  · cases hrow : s.row <;> simp [Desk.finish, Desk.alreadySent, hrow]
  · simp [Desk.finish, Desk.goTo, hphase, Phase.isSent]

theorem takeRow {plan : Option Plan} (hphase : s.phase p = .resolved job plan) :
    OnceInv (s.takeRow site p job plan) := by
  have hp : (s.phase p).isSent = false := by rw [hphase]; rfl
  have htaken : (Desk.takenPhase job plan).inWindow = false := by cases plan <;> rfl
  unfold Desk.takeRow
  split
  next hnone =>
    refine h.leaves htaken rfl (fun _ => rfl) (fun _ => rfl) ?_ rfl (by simp [hp, Desk.goTo])
    simp [Desk.alreadySent, hnone]
  next hsome =>
    split
    · exact h.goTo htaken (fun _ => by simp [hsome]) hp rfl rfl rfl rfl
    · exact h.goTo (x := .finished _) rfl (by simp [Phase.isDriving]) hp rfl rfl rfl rfl

theorem setState (hphase : s.phase p = .driving job plan point)
    (hmark : point.mark = some (state, point')) :
    OnceInv ((s.setState state).goTo p (.driving job plan point')) := by
  obtain ⟨row, hrow⟩ := Option.isSome_iff_exists.mp (h.taken p (by rw [hphase]; rfl))
  obtain ⟨hpoint, hwindow⟩ := mark_outside job plan hmark
  refine h.leaves hwindow rfl ?_ ?_ ?_ rfl ?_
  · simp [Desk.setState, Desk.goTo]
  · simp [Desk.setState, Desk.goTo, hrow]
  · simp [Desk.setState, Desk.goTo, Desk.alreadySent, hrow]
  · simp [Desk.setState, Desk.goTo, hphase, hpoint]

/-- A request enters the window where nobody is. -/
theorem checkSent (hphase : s.phase p = .driving job plan .connected)
    (halone : s.alreadySent = false → ∀ q, (s.phase q).inWindow = false) :
    OnceInv (s.checkSent p job plan) := by
  have hp : (s.phase p).isSent = false := by rw [hphase]; rfl
  have hrow : s.row.isSome = true := h.taken p (by rw [hphase]; rfl)
  unfold Desk.checkSent
  split_ifs with hunsent
  · exact h.goTo (outside_afterDtmf job plan) (fun _ => hrow) hp rfl rfl rfl rfl
  · have hsent : s.alreadySent = false := by simpa using hunsent
    have honly : ∀ q, ((s.goTo p (.driving job plan .unsent)).phase q).inWindow = true → q = p := by
      intro q hq
      by_contra hne
      simp [Desk.goTo, update_of_ne hne, halone hsent q] at hq
    refine ⟨fun _ _ => hrow, fun q q' hq hq' => (honly q hq).trans (honly q' hq').symm,
      fun _ _ => hsent, h.once, fun q hq => ?_, fun hpos => ?_⟩
    · obtain rfl := honly q (inWindow_of_isSending hq)
      simp [Desk.goTo, Phase.isSending] at hq
    obtain hrecorded | hint | ⟨q, hq⟩ := h.traced hpos
    · exact .inl hrecorded
    · exact .inr (.inl hint)
    · exact absurd (inWindow_of_isSent hq) (by simp [halone hsent q])

/-- The gateway has nothing yet when an adapter without memory is asked. -/
theorem nothing_received (hphase : s.phase p = .driving job plan .unsent)
    (hint : s.interrupted = false) : s.received = 0 := by
  have hp : (s.phase p).inWindow = true := by rw [hphase]; rfl
  by_contra hne
  obtain hrecorded | hint' | ⟨q, hq⟩ := h.traced (Nat.pos_of_ne_zero hne)
  · simp [h.unrecorded p hp] at hrecorded
  · simp [hint] at hint'
  · obtain rfl := h.exclusive q p (inWindow_of_isSent hq) hp
    simp [hphase, Phase.isSent] at hq

/-- A request goes on within the window. -/
theorem within (hp : (s.phase p).inWindow = true) (hdriving : (s.phase p).isDriving = true)
    (hphase : t.phase = update s.phase p x) (hrow : t.row = s.row) (honce : t.received ≤ 1)
    (hfirst : x.isSending = true → t.received = 0)
    (htraced : 0 < t.received → x.isSent = true) : OnceInv t := by
  have hx : t.phase p = x := by rw [hphase, update_self]
  have hwindow : ∀ q, (t.phase q).inWindow = true → (s.phase q).inWindow = true := by
    intro q hq
    by_cases hne : q = p
    · rwa [hne]
    · rwa [hphase, update_of_ne hne] at hq
  have hsent : t.alreadySent = s.alreadySent := by rw [Desk.alreadySent, hrow, Desk.alreadySent]
  refine ⟨fun _ _ => hrow ▸ h.taken p hdriving,
    fun q q' hq hq' => h.exclusive q q' (hwindow q hq) (hwindow q' hq'),
    fun q hq => hsent ▸ h.unrecorded q (hwindow q hq), honce, fun q hq => ?_,
    fun hpos => .inr (.inr ⟨p, hx ▸ htraced hpos⟩)⟩
  obtain rfl := h.exclusive q p (hwindow q (inWindow_of_isSending hq)) hp
  exact hfirst (hx ▸ hq)

theorem sendDtmf (hphase : s.phase p = .driving job plan .unsent)
    (hsettled : s.seen job.host = none → s.interrupted = false) :
    OnceInv (s.sendDtmf p job plan) := by
  refine h.within (by rw [hphase]; rfl) (by rw [hphase]; rfl) rfl rfl h.once ?_ ?_
  all_goals
    cases hseen : s.seen job.host with
    | some accepted => simp [Phase.isSending, Phase.isSent]
    | none =>
      have hnone : (s.sendDtmf p job plan).received = 0 :=
        h.nothing_received hphase (hsettled hseen)
      simp [hnone]

theorem receive (hphase : s.phase p = .driving job plan .sending) :
    OnceInv (s.receive p job plan) := by
  have hnone : s.received = 0 := h.first p (by rw [hphase]; rfl)
  refine h.within (x := .driving job plan .received) (by rw [hphase]; rfl) (by rw [hphase]; rfl) rfl
    rfl ?_ (fun hx => by cases hx) fun _ => rfl
  simp [Desk.receive, hnone]

theorem ack {accepted : Bool} (hphase : s.phase p = .driving job plan point)
    (hpoint : point = .sending ∨ point = .received) : OnceInv (s.ack p job plan accepted) := by
  have hp : (s.phase p).inWindow = true := by
    obtain rfl | rfl := hpoint <;> rw [hphase] <;> rfl
  exact h.within (x := .driving job plan .sent) hp (by rw [hphase]; rfl) rfl rfl h.once
    (fun hx => by cases hx) fun _ => rfl

/-- Recording the sequence ends the window. -/
theorem recordSent (hphase : s.phase p = .driving job plan .sent) :
    OnceInv (s.recordSent p job plan) := by
  have hp : (s.phase p).inWindow = true := by rw [hphase]; rfl
  have hrow : s.row.isSome = true := h.taken p (by rw [hphase]; rfl)
  have hnone : ∀ q, ((s.recordSent p job plan).phase q).inWindow = false := by
    intro q
    by_cases hne : q = p
    · simp [Desk.recordSent, Desk.goTo, hne, outside_afterDtmf]
    · have hq : (s.phase q).inWindow = false := by
        by_contra hq
        exact hne (h.exclusive q p (by simpa using hq) hp)
      simpa [Desk.recordSent, Desk.goTo, update_of_ne hne] using hq
  obtain ⟨row, hrow⟩ := Option.isSome_iff_exists.mp hrow
  have hrecorded : (s.recordSent p job plan).alreadySent = true := by
    simp [Desk.recordSent, Desk.alreadySent, hrow]
  refine ⟨fun _ _ => by simp [Desk.recordSent, hrow], fun q _ hq => ?_, fun q hq => ?_, h.once,
    fun q hq => ?_, fun _ => .inl hrecorded⟩
  · simp [hnone q] at hq
  · simp [hnone q] at hq
  · exact absurd (inWindow_of_isSending hq) (by simp [hnone q])

theorem step (hcovered : Covered s p m) (hstep : s.step site p m = some t) : OnceInv t := by
  cases step_effect hstep with
  | restart | purge => exact ⟨h.taken, h.exclusive, h.unrecorded, h.once, h.first, h.traced⟩
  | fault hx | cancel hx => exact h.leave (not_driving_onError hx)
  | die => exact h.leave rfl
  | claim hphase => exact h.claimId (by rw [hphase]; rfl)
  | resolve hphase => exact h.resolvePlan (by rw [hphase]; rfl)
  | take hphase => exact h.takeRow hphase
  | setState hphase hmark => exact h.setState hphase hmark
  | check hphase => exact h.checkSent hphase (hcovered.alone rfl)
  | send hphase => exact h.sendDtmf hphase (hcovered.settled _ _ rfl hphase)
  | receive hphase => exact h.receive hphase
  | acknowledge hphase hpoint => exact h.ack hphase hpoint
  | record hphase => exact h.recordSent hphase
  | finish hphase => exact h.finish hphase
  | complete hphase => exact h.complete (by rw [hphase]; rfl)
  | abandon hphase =>
    exact h.waits (x := .ended _) (by rw [hphase]; rfl) rfl rfl rfl rfl rfl
  | ask hphase hnext =>
    obtain ⟨hpoint, houtside⟩ := outside_next hnext
    exact h.goTo houtside (fun _ => h.taken p (by rw [hphase]; rfl)) (hphase ▸ hpoint)
      rfl rfl rfl rfl

end OnceInv

/-- **The gateway receives the sequence of a command at most once** in every run in which each send
is covered. -/
theorem received_once_of_covered (site : Site) {moves : List (ℕ × Action)} {t : Desk}
    (h : execute (Desk.step site) Desk.start moves = some t)
    (hcovered : Allows (Desk.step site) Covered Desk.start moves) : t.received ≤ 1 := by
  have hrun := run_of_allows moves h hcovered
  exact (Turn.invariant (P := OnceInv) (fun _ _ _ _ hinv hok hstep => hinv.step hok hstep)
    onceInv_start hrun).once

/-- A statement that neither checks nor sends. -/
def Action.isQuiet : Action → Bool
  | .check | .send => false
  | _ => true

theorem covered_of_quiet (h : m.isQuiet = true) : Covered s p m := by
  refine ⟨?_, ?_⟩
  · rintro rfl
    cases h
  · rintro job plan rfl
    cases h

def oneDoor : Site where
  commandId := "c1"
  endpoints := [⟨⟨"front", "door_station", true, [⟨some "500", none, none⟩]⟩, some "p1", none⟩]
  profiles := [⟨"p1", some "123#", 0, true⟩]
  parties := fun _ => ⟨none, some "500", none⟩

/-- A request that finds the call connected, up to the check. -/
def upToCheck (host : ℕ) : List Action :=
  [.claim ⟨host, ⟨"front", "call-1"⟩, none, true⟩, .resolve, .take, .provider true,
    .capabilities true, .snapshot (some .connected), .setState, .poll (some .connected) false,
    .check]

/-- The gateway accepts the sequence. -/
def acceptedSend : List Action := [.send, .receive, .acknowledge true]

/-- The host crashes after the sequence is recorded, and another one serves the retry. -/
def crashAfterRecord : List (ℕ × Action) :=
  inRow 0 (upToCheck 0 ++ acceptedSend ++ [.record, .die, .restart 0, .purge]) ++
    inRow 1 (upToCheck 1 ++ [.setState, .hangup, .finish, .complete])

/-- The host crashes before the sequence is recorded, and another one serves the retry. -/
def crashBeforeRecord : List (ℕ × Action) :=
  inRow 0 (upToCheck 0 ++ acceptedSend ++ [.die, .restart 0, .purge]) ++
    inRow 1 (upToCheck 1 ++ acceptedSend)

theorem crash_after_record_covered :
    Allows (Desk.step oneDoor) Covered Desk.start crashAfterRecord := by
  have hq : ∀ {s : Desk} {p : ℕ} {m : Action}, m.isQuiet = true → Covered s p m :=
    covered_of_quiet
  refine ⟨hq rfl, hq rfl, hq rfl, hq rfl, hq rfl, hq rfl, hq rfl, hq rfl, ⟨fun _ _ q => ?_, ?_⟩,
    ⟨?_, fun _ _ _ _ _ => rfl⟩, hq rfl, hq rfl, hq rfl, hq rfl, hq rfl, hq rfl, hq rfl, hq rfl,
    hq rfl, hq rfl, hq rfl, hq rfl, hq rfl, hq rfl, ⟨fun _ hsent => ?_, ?_⟩, hq rfl, hq rfl,
    hq rfl, hq rfl,
    trivial⟩
  · cases q <;> rfl
  · simp
  · simp
  · cases hsent
  · simp

theorem crash_after_record_once :
    ∃ t, execute (Desk.step oneDoor) Desk.start crashAfterRecord = some t ∧
      t.received ≤ 1 ∧ t.sends.length = 1 ∧ t.row.map (·.outcome) = some (some .opened) := by
  obtain ⟨t, ht⟩ : ∃ t, execute (Desk.step oneDoor) Desk.start crashAfterRecord = some t :=
    ⟨_, rfl⟩
  refine ⟨t, ht, received_once_of_covered oneDoor ht crash_after_record_covered, ?_⟩
  cases ht
  exact ⟨rfl, rfl⟩

/-- The gateway receives the sequence twice. -/
theorem door_opened_twice :
    ∃ t, execute (Desk.step oneDoor) Desk.start crashBeforeRecord = some t ∧
      t.received = 2 ∧ ¬ t.received ≤ 1 :=
  ⟨_, rfl, rfl, by decide⟩

end BbzPlatform.Doors
