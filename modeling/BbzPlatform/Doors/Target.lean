import BbzPlatform.Doors.Open

/-!
# Where a door code goes

The sequence of a door station is secret; it belongs into the call that comes from this door.  The
request names the endpoint and the call, and nobody compares the two: the numbers of the call are
not read.  The codes go to their doors exactly if every request that is made names the call of its
door.
-/

namespace BbzPlatform.Doors

open Turns

/-- Every sequence went into a call whose numbers are those of the door. -/
def OnTarget (site : Site) (s : Desk) : Prop :=
  ∀ e ∈ s.sends, site.doorOf e.callId = some e.endpointId

/-- Only these requests are made. -/
def Asks (requests : DoorRequest → Prop) (m : Action) : Prop :=
  ∀ job, m = .claim job → requests job.request

variable {site : Site} {requests : DoorRequest → Prop} {s t : Desk} {p : ℕ} {m : Action} {x : Phase}
  {job : Job} {plan : Plan}

def Phase.Planned (site : Site) (requests : DoorRequest → Prop) : Phase → Prop
  | .claimed job => requests job.request
  | .resolved job plan =>
    requests job.request ∧ site.resolve job.request.endpointId = .ok plan
  | .driving job plan _ =>
    requests job.request ∧ site.resolve job.request.endpointId = .ok (some plan)
  | _ => True

/-- The sequence of a request with a plan. -/
def Wanted (site : Site) (requests : DoorRequest → Prop) (e : Send) : Prop :=
  ∃ r plan, requests r ∧ site.resolve r.endpointId = .ok (some plan) ∧
    e = ⟨r.endpointId, r.callId, plan.digits⟩

/-- What is sent is what was asked for. -/
structure SendsPlanned (site : Site) (requests : DoorRequest → Prop) (s : Desk) : Prop where
  planned : ∀ p, (s.phase p).Planned site requests
  wanted : ∀ e ∈ s.sends, Wanted site requests e

theorem planned_update (h : SendsPlanned site requests s) (hx : x.Planned site requests) :
    ∀ q, (Function.update s.phase p x q).Planned site requests :=
  forall_update (Q := fun _ (y : Phase) => y.Planned site requests) hx h.planned

theorem planned_fault {text : String} (point : Point) :
    (point.fault job plan text).Planned site requests := by
  cases point <;> trivial

theorem planned_onError {e : DoorError} (h : (s.phase p).onError e = some x) :
    x.Planned site requests := by
  cases hphase : s.phase p with
  | driving job plan point =>
    rw [hphase] at h
    cases e with
    | failed =>
      cases h
      exact planned_fault point
    | _ =>
      cases h
      trivial
  | ended => simp [hphase, Phase.onError] at h
  | _ =>
    rw [hphase] at h
    cases h
    trivial

theorem planned_afterDtmf {point : Point}
    (h : (Phase.driving job plan point).Planned site requests) :
    (afterDtmf job plan).Planned site requests := by
  unfold afterDtmf
  split
  · exact h
  · trivial

namespace SendsPlanned

variable (h : SendsPlanned site requests s)
include h

theorem of_phase (hphase : s.phase p = x) :
    x.Planned site requests := hphase ▸ h.planned p

/-- A request goes on without sending. -/
theorem goTo (hx : x.Planned site requests) (hphase : t.phase = Function.update s.phase p x)
    (hsends : t.sends = s.sends) : SendsPlanned site requests t :=
  ⟨hphase ▸ planned_update h hx, hsends ▸ h.wanted⟩

theorem claimId (hjob : requests job.request) : SendsPlanned site requests (s.claimId p job) := by
  unfold Desk.claimId
  split
  · exact h.goTo (x := .claimed job) hjob rfl rfl
  · exact h.goTo (x := .ended _) trivial rfl rfl

theorem resolvePlan (hphase : s.phase p = .claimed job) :
    SendsPlanned site requests (s.resolvePlan site p job) := by
  unfold Desk.resolvePlan
  split
  · exact h.goTo (x := .raising _) trivial rfl rfl
  next plan hplan =>
    exact h.goTo (x := .resolved job plan) ⟨h.of_phase hphase, hplan⟩ rfl rfl

theorem takeRow {plan : Option Plan} (hphase : s.phase p = .resolved job plan) :
    SendsPlanned site requests (s.takeRow site p job plan) := by
  have htaken : (Desk.takenPhase job plan).Planned site requests := by
    have hplanned := h.of_phase hphase
    cases plan with
    | none => trivial
    | some plan => exact hplanned
  unfold Desk.takeRow
  split
  · exact h.goTo htaken rfl rfl
  · split
    · exact h.goTo htaken rfl rfl
    · exact h.goTo (x := .finished _) trivial rfl rfl

theorem sendDtmf (hphase : s.phase p = .driving job plan .unsent) :
    SendsPlanned site requests (s.sendDtmf p job plan) := by
  have hjob := h.of_phase hphase
  have hwanted : ∀ e ∈ s.sends ++ [⟨job.request.endpointId, job.request.callId, plan.digits⟩],
      Wanted site requests e := by
    intro e he
    obtain he | rfl := by simpa using he
    · exact h.wanted e he
    · exact ⟨job.request, plan, hjob.1, hjob.2, rfl⟩
  exact ⟨planned_update h hjob, hwanted⟩

theorem step (hasks : Asks requests m) (hstep : s.step site p m = some t) :
    SendsPlanned site requests t := by
  cases step_effect hstep with
  | restart | purge => exact ⟨h.planned, h.wanted⟩
  | fault hx | cancel hx => exact h.goTo (planned_onError hx) rfl rfl
  | die => exact h.goTo (x := .ended .died) trivial rfl rfl
  | claim => exact h.claimId (hasks _ rfl)
  | resolve hphase => exact h.resolvePlan hphase
  | take hphase => exact h.takeRow hphase
  | @setState job plan _ point' _ hphase =>
    have hjob := h.of_phase hphase
    exact h.goTo (x := .driving job plan point') hjob rfl rfl
  | @check job plan hphase =>
    have hjob := h.of_phase hphase
    refine h.goTo ?_ rfl rfl
    split
    · exact planned_afterDtmf hjob
    · exact hjob
  | send hphase => exact h.sendDtmf hphase
  | @receive job plan hphase =>
    have hjob := h.of_phase hphase
    exact h.goTo (x := .driving job plan .received) hjob rfl rfl
  | @acknowledge job plan _ _ hphase =>
    have hjob := h.of_phase hphase
    exact h.goTo (x := .driving job plan .sent) hjob rfl rfl
  | record hphase => exact h.goTo (planned_afterDtmf (h.of_phase hphase)) rfl rfl
  | finish => exact h.goTo (x := .finished _) trivial rfl rfl
  | complete =>
    unfold Desk.complete
    split
    · exact h.goTo (x := .ended _) trivial rfl rfl
    · exact h.goTo (x := .ended _) trivial rfl rfl
  | abandon => exact h.goTo (x := .ended _) trivial rfl rfl
  | @ask job plan point m next hphase =>
    have hjob := h.of_phase hphase
    refine h.goTo ?_ rfl rfl
    cases next with
    | goOn => exact hjob
    | stop => trivial

end SendsPlanned

theorem sendsPlanned_start : SendsPlanned site requests Desk.start :=
  ⟨fun _ => trivial, fun _ he => absurd he List.not_mem_nil⟩

/-- One request while the call is connected. -/
def straight (r : DoorRequest) : List (ℕ × Action) :=
  inRow 0 [.claim ⟨0, r, none, false⟩, .resolve, .take, .provider true, .capabilities true,
    .snapshot (some .connected), .setState, .poll (some .connected) false, .check, .send]

theorem straight_sends {r : DoorRequest} (h : site.resolve r.endpointId = .ok (some plan)) :
    ∃ t, execute (Desk.step site) Desk.start (straight r) = some t ∧
      t.sends = [⟨r.endpointId, r.callId, plan.digits⟩] := by
  simp [straight, inRow, execute, Desk.step, Desk.start, Desk.claimId, Desk.goTo,
    Desk.resolvePlan, h,
    Desk.takeRow, Desk.takenPhase, Point.next, Next.phase, CallState.isRinging, Point.mark,
    Desk.setState, Desk.checkSent, Desk.alreadySent, Desk.sendDtmf]

/-- **The codes go to their doors in every run of these requests exactly if every one of them that
names a door station with a sequence names a call of this door.** -/
theorem on_target_iff_call_of_door (site : Site) (requests : DoorRequest → Prop) :
    (∀ moves t, execute (Desk.step site) Desk.start moves = some t →
        (∀ move ∈ moves, Asks requests move.2) → OnTarget site t) ↔
      ∀ r plan, requests r → site.resolve r.endpointId = .ok (some plan) →
        site.doorOf r.callId = some r.endpointId := by
  constructor
  · intro h r plan hr hplan
    obtain ⟨t, hrun, hsends⟩ := straight_sends hplan
    have hasks : ∀ move ∈ straight r, Asks requests move.2 := by
      simpa [straight, inRow, Asks] using hr
    exact h _ t hrun hasks ⟨r.endpointId, r.callId, plan.digits⟩ (by simp [hsends])
  · intro h moves t hrun hasks e he
    have hallowed := run_of_allows moves hrun (allows_of_forall moves hasks)
    have ht := Turn.invariant (P := SendsPlanned site requests)
      (fun _ _ _ _ hinv hasks hstep => hinv.step hasks hstep) sendsPlanned_start hallowed
    obtain ⟨r, plan, hr, hplan, rfl⟩ := ht.wanted e he
    exact h r plan hr hplan

def twoDoors : Site where
  commandId := "c1"
  endpoints :=
    [⟨⟨"front", "door_station", true, [⟨some "500", none, none⟩]⟩, some "p1", none⟩,
      ⟨⟨"back", "door_station", true, [⟨some "501", none, none⟩]⟩, some "p2", none⟩]
  profiles := [⟨"p1", some "123#", 0, true⟩, ⟨"p2", some "456#", 0, true⟩]
  parties := fun _ => ⟨some "700", some "501", none⟩

/-- The code of the front door is sent into a call of the back door. -/
theorem code_sent_to_other_door :
    ∃ t, execute (Desk.step twoDoors) Desk.start (straight ⟨"front", "call-1"⟩) = some t ∧
      t.sends = [⟨"front", "call-1", "123#"⟩] ∧ twoDoors.doorOf "call-1" = some "back" ∧
      ¬ OnTarget twoDoors t := by
  have hplan : twoDoors.resolve (DoorRequest.mk "front" "call-1").endpointId =
      .ok (some ⟨"123#", 0, true, 15⟩) := rfl
  obtain ⟨t, hrun, hsends⟩ := straight_sends hplan
  have hdoor : twoDoors.doorOf "call-1" = some "back" := by decide
  refine ⟨t, hrun, hsends, hdoor, fun h => ?_⟩
  have hfront := h ⟨"front", "call-1", "123#"⟩ (by simp [hsends])
  rw [hdoor] at hfront
  exact absurd hfront (by decide)

end BbzPlatform.Doors
