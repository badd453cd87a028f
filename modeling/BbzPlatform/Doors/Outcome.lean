import BbzPlatform.Doors.Once

/-!
# What is reported about a door

The outcome of a command is worked out from where `_drive` got to.  The acknowledgement of
`send_dtmf` is not looked at, so a refused command is reported as an open door; an exception between
the acknowledgement and the write of `dtmf_sent_at` makes it a provider's error; and a retry of an
interrupted request begins again with the call, which may be gone by then.

What is returned or stored is true in every run in which requests drive the command one at a time,
no acknowledgement is negative, and once the command was accepted no request that resumes it is
turned away before it gets to `dtmf_sent_at`.
-/

namespace BbzPlatform.Doors

open Turns Function

/-- Every result that was returned or is stored says whether the command was accepted. -/
structure Truthful (s : Desk) : Prop where
  returned : ∀ p r, s.phase p = .ended (.returned r) → r.opened = s.accepted
  recorded : ∀ row outcome, s.row = some row → row.outcome = some outcome →
    decide (outcome = .opened) = s.accepted
  stored : ∀ row result r, s.claim = some row → row.result = some result →
    DoorOpenResult.fromBody result.body = some r → r.opened = s.accepted

namespace Phase

/-- The row is taken up, and the outcome is not written yet. -/
def isWorking : Phase → Bool
  | driving _ _ _ | finishing _ _ _ => true
  | _ => false

/-- The answer turns the request away before the sequence is known to be sent: no profile, no
provider, no call, a call that may not be answered or does not connect in time, or an exception. -/
def turnedAway : Phase → Action → Bool
  | resolved _ none, .take => true
  | driving _ _ .start, .provider active => !active
  | driving _ _ .provided, .capabilities sendsDtmf => !sendsDtmf
  | driving _ _ .capable, .snapshot none => true
  | driving job _ .capable, .snapshot (some state) => state.isRinging && !job.mayAnswer
  | driving _ _ .connecting, .poll none _ => true
  | driving _ _ .connecting, .poll (some state) late =>
    state ≠ .connected && (state.isEnded || late)
  | driving _ _ point, .fail _ =>
    match point with
    | .start | .provided | .delivered | .completing => false
    | _ => true
  | _, _ => false

end Phase

/-- The outcome of the row has been written, and whether it says that the door is open. -/
def Desk.opened (s : Desk) : Option Bool := (s.row.bind (·.outcome)).map fun o => o = .opened

/-- Requests work one at a time, the adapter does not refuse a command that was not accepted before,
and once the command was accepted nobody is turned away. -/
structure Undisturbed (s : Desk) (p : ℕ) (m : Action) : Prop where
  alone : m = .take → s.opened = none → ∀ q, (s.phase q).isWorking = false
  answered : ∀ job plan, m = .send → s.phase p = .driving job plan .unsent →
    s.seen job.host = some false → s.accepted = true
  acknowledged : m = .acknowledge false → s.accepted = true
  kept : (s.phase p).turnedAway m = true → s.opened = none → s.accepted = false

variable {site : Site} {s t : Desk} {p : ℕ} {m : Action} {x : Phase}
  {claim : Option (Commands.CommandRow DoorRequest)} {accepted : Bool} {job : Job}
  {row : Commands.CommandRow DoorRequest} {plan : Plan} {r : DoorOpenResult} {point : Point}
  {next : Next}

/-- The sequence has been sent. -/
def Point.pastSend : Point → Bool
  | .sent | .delivered | .completing => true
  | _ => false

/-- What a request at work has to know about the acknowledgement. -/
def Phase.Honest (accepted : Bool) : Phase → Prop
  | .driving _ _ point => point.pastSend = true → accepted = true
  | .finishing _ outcome _ => decide (outcome = .opened) = accepted
  | _ => True

def Phase.result : Phase → Option DoorOpenResult
  | .finished r | .ended (.returned r) => some r
  | _ => none

/-- What is stored under the command id is what the row says. -/
def Desk.StoredBacked (s : Desk) : Prop :=
  ∀ row result, s.claim = some row → row.result = some result →
    ∃ r : DoorOpenResult, result.body = r.asBody ∧ s.opened = some r.opened

/-- What holds along a run in which nothing disturbs. -/
structure TruthInv (s : Desk) : Prop where
  taken : ∀ p, (s.phase p).isWorking = true → s.row.isSome = true ∧ s.opened = none
  exclusive : ∀ p q, (s.phase p).isWorking = true → (s.phase q).isWorking = true → p = q
  honest : ∀ p, (s.phase p).Honest s.accepted
  sent : s.alreadySent = true → s.accepted = true
  remembered : ∀ host, s.seen host = some true → s.accepted = true
  backed : ∀ p r, (s.phase p).result = some r → s.opened = some r.opened
  stored : s.StoredBacked
  recorded : ∀ b, s.opened = some b → b = s.accepted

theorem truthInv_start : TruthInv Desk.start := by
  refine ⟨?_, ?_, ?_, ?_, ?_, ?_, ?_, ?_⟩ <;>
    simp [Desk.start, Phase.isWorking, Phase.Honest, Desk.alreadySent, Phase.result, Desk.opened,
      Desk.StoredBacked]

theorem TruthInv.truthful (h : TruthInv s) : Truthful s := by
  refine ⟨fun p r hphase => ?_, fun row outcome hrow houtcome => ?_,
    fun row result r hrow hresult hbody => ?_⟩
  · exact h.recorded _ (h.backed p r (by rw [hphase]; rfl))
  · exact h.recorded _ (by simp [Desk.opened, hrow, houtcome])
  · obtain ⟨r', hr', hopened⟩ := h.stored row result hrow hresult
    rw [hr', DoorOpenResult.fromBody_asBody] at hbody
    cases hbody
    exact h.recorded _ hopened

/-- A request goes on, and the row stays as it is. -/
theorem TruthInv.moves (h : TruthInv s) (hx : x.Honest s.accepted)
    (hworking : x.isWorking = true → (s.phase p).isWorking = true)
    (hresult : ∀ r, x.result = some r → s.opened = some r.opened)
    (hclaim : ({ s.goTo p x with claim := claim } : Desk).StoredBacked) :
    TruthInv { s.goTo p x with claim := claim } := by
  have hpast : ∀ q, (update s.phase p x q).isWorking = true →
      (s.phase q).isWorking = true :=
    forall_update (Q := fun q (y : Phase) => y.isWorking = true →
      (s.phase q).isWorking = true) hworking fun _ => id
  refine ⟨fun q hq => h.taken q (hpast q hq),
    fun q q' hq hq' => h.exclusive q q' (hpast q hq) (hpast q' hq'), ?_, h.sent, h.remembered, ?_,
    hclaim, h.recorded⟩
  · exact forall_update (Q := fun _ (y : Phase) => y.Honest s.accepted) hx h.honest
  · exact forall_update (Q := fun _ (y : Phase) => ∀ r, y.result = some r →
      s.opened = some r.opened) hresult h.backed

/-- A request goes on, and the rows stay as they are. -/
theorem TruthInv.goTo (h : TruthInv s) (hx : x.Honest s.accepted)
    (hworking : x.isWorking = true → (s.phase p).isWorking = true)
    (hresult : ∀ r, x.result = some r → s.opened = some r.opened) : TruthInv (s.goTo p x) :=
  h.moves hx hworking hresult h.stored

theorem honest_of_not_working (h : x.isWorking = false) : x.Honest accepted := by
  cases x with
  | driving => cases h
  | finishing => cases h
  | _ => trivial

theorem TruthInv.left (h : TruthInv (s.goTo p x)) : TruthInv (s.leave p x) :=
  ⟨h.taken, h.exclusive, h.honest, h.sent, h.remembered, h.backed, h.stored, h.recorded⟩

/-- A request ends its work without a result. -/
theorem TruthInv.stops (h : TruthInv s) (hx : x.isWorking = false) (hresult : x.result = none) :
    TruthInv (s.goTo p x) := by
  exact h.goTo (honest_of_not_working hx) (by simp [hx]) (by simp [hresult])

theorem honest_afterDtmf (h : accepted = true) : (afterDtmf job plan).Honest accepted := by
  unfold afterDtmf
  split
  · exact fun _ => h
  · exact h.symm

theorem isWorking_afterDtmf (job : Job) (plan : Plan) : (afterDtmf job plan).isWorking = true := by
  unfold afterDtmf
  split <;> rfl

theorem result_of_isWorking (h : x.isWorking = true) : x.result = none := by
  cases x with
  | driving => rfl
  | finishing => rfl
  | _ => cases h

theorem TruthInv.works (h : TruthInv s) (hp : (s.phase p).isWorking = true)
    (hx : x.Honest s.accepted) (hworking : x.isWorking = true) : TruthInv (s.goTo p x) :=
  h.goTo hx (fun _ => hp) (by simp [result_of_isWorking hworking])

theorem replay_returned (h : (Phase.ended (Desk.replay row job)).result = some r) :
    ∃ result, row.result = some result ∧ DoorOpenResult.fromBody result.body = some r := by
  unfold Desk.replay Commands.lookup at h
  by_cases hhash : row.claim.requestHash = job.request
  · cases hresult : row.result with
    | none => simp [hhash, hresult, Phase.result] at h
    | some result =>
      cases hbody : DoorOpenResult.fromBody result.body with
      | none => simp [hhash, hresult, hbody, Phase.result] at h
      | some r' => exact ⟨result, rfl, by simpa [hhash, hresult, hbody, Phase.result] using h⟩
  · simp [hhash, Phase.result] at h

theorem claim_of_abandon (h : Commands.abandon claim = some row) : claim = some row := by
  unfold Commands.abandon at h
  split at h
  · cases h
  · exact h

/-- The provider's answers keep a request honest that they do not turn away. -/
theorem honest_next (h : point.next job plan m = some next)
    (hhonest : (Phase.driving job plan point).Honest accepted)
    (hfalse : (Phase.driving job plan point).turnedAway m = true → accepted = false) :
    (next.phase job plan).Honest accepted := by
  -- an early point knows nothing, and a failure is reported where the answer turns away
  have hearly : ∀ point' : Point, point'.pastSend = false →
      (Phase.driving job plan point').Honest accepted := fun _ h hpast => by simp [h] at hpast
  have hstop : ∀ outcome detail, outcome ≠ .opened → accepted = false →
      (Phase.finishing job outcome detail).Honest accepted := fun _ _ h h' => by
    simp [Phase.Honest, h, h']
  unfold Point.next at h
  split at h
  all_goals cases h
  next active =>
    cases active with
    | true => exact hearly _ rfl
    | false => exact hstop _ _ (by decide) (hfalse rfl)
  next sendsDtmf =>
    cases sendsDtmf with
    | true => exact hearly _ rfl
    | false => exact hstop _ _ (by decide) (hfalse rfl)
  · exact hstop _ _ (by decide) (hfalse rfl)
  next state =>
    split_ifs with hquiet hmay
    · exact hearly _ rfl
    · exact hearly _ rfl
    · exact hstop _ _ (by decide) (hfalse (by simp_all [Phase.turnedAway]))
  · exact hearly _ rfl
  · exact hstop _ _ (by decide) (hfalse rfl)
  next state late =>
    split_ifs with hconnected hended hlate
    · exact hearly _ rfl
    · exact hstop _ _ (by decide) (hfalse (by simp_all [Phase.turnedAway]))
    · exact hstop _ _ (by decide) (hfalse (by simp_all [Phase.turnedAway]))
    · exact hearly _ rfl
  · exact (hhonest rfl).symm

namespace TruthInv

theorem atWork (h : TruthInv s) (hphase : s.phase p = x) (hx : x.isWorking = true) :
    (∃ row, s.row = some row) ∧ s.opened = none ∧ x.Honest s.accepted ∧
      ∀ q, q ≠ p → (s.phase q).isWorking = false := by
  subst hphase
  obtain ⟨hrow, hnone⟩ := h.taken p hx
  refine ⟨Option.isSome_iff_exists.mp hrow, hnone, h.honest p, fun q hne => ?_⟩
  exact Bool.eq_false_iff.mpr fun hq => hne (h.exclusive q p hq hx)

/-- The only request at work goes on, before an outcome is written. -/
theorem alone (h : TruthInv s) (hnone : s.opened = none)
    (hidle : ∀ q, q ≠ p → (s.phase q).isWorking = false)
    (hphase : t.phase = update s.phase p x) (hclaim : t.claim = s.claim)
    (hworking : x.isWorking = true → t.row.isSome = true ∧ t.opened = none)
    (hx : x.Honest t.accepted) (hsent : t.alreadySent = true → t.accepted = true)
    (hseen : ∀ host, t.seen host = some true → t.accepted = true)
    (hresult : ∀ r, x.result = some r → t.opened = some r.opened)
    (hrecorded : ∀ b, t.opened = some b → b = t.accepted) : TruthInv t := by
  have hp : t.phase p = x := by rw [hphase, update_self]
  have hother : ∀ q, q ≠ p → t.phase q = s.phase q := fun q hne => by
    rw [hphase, update_of_ne hne]
  have honly : ∀ q, (t.phase q).isWorking = true → q = p := fun q hq => by
    by_contra hne
    simp [hother q hne, hidle q hne] at hq
  refine ⟨fun q hq => hworking (hp ▸ honly q hq ▸ hq),
    fun q q' hq hq' => (honly q hq).trans (honly q' hq').symm, fun q => ?_, hsent, hseen,
    fun q r hr => ?_, fun row result hrow hres => ?_, hrecorded⟩
  · rcases eq_or_ne q p with rfl | hne
    · exact hp ▸ hx
    · exact honest_of_not_working (hother q hne ▸ hidle q hne)
  · rcases eq_or_ne q p with rfl | hne
    · exact hresult r (hp ▸ hr)
    · exact absurd (h.backed q r (hother q hne ▸ hr)) (by simp [hnone])
  · obtain ⟨r, -, hr⟩ := h.stored row result (hclaim ▸ hrow) hres
    exact absurd hr (by simp [hnone])

theorem fault {text : String} (h : TruthInv s)
    (hkept : (s.phase p).turnedAway (.fail text) = true → s.opened = none → s.accepted = false)
    (hx : (s.phase p).onError (.failed text) = some x) : TruthInv (s.goTo p x) := by
  cases hphase : s.phase p with
  | driving job plan point =>
    have hp : (s.phase p).isWorking = true := by rw [hphase]; rfl
    obtain ⟨-, hnone, hhonest, -⟩ := h.atWork hphase rfl
    rw [hphase] at hx hkept
    cases hx
    have hfalse : (Phase.driving job plan point).turnedAway (.fail text) = true →
        s.accepted = false := fun haway => hkept haway hnone
    cases point with
    | start | provided => exact h.stops rfl rfl
    | delivered | completing => exact h.works hp (hhonest rfl).symm rfl
    | _ => exact h.works hp (hfalse rfl).symm rfl
  | ended => simp [hphase, Phase.onError] at hx
  | _ =>
    rw [hphase] at hx
    cases hx
    exact h.stops rfl rfl

theorem cancel (h : TruthInv s) (hx : (s.phase p).onError .cancelled = some x) :
    TruthInv (s.goTo p x) := by
  cases hphase : s.phase p with
  | ended => simp [hphase, Phase.onError] at hx
  | _ =>
    rw [hphase] at hx
    cases hx
    exact h.stops rfl rfl

variable (h : TruthInv s)
include h

theorem claimId : TruthInv (s.claimId p job) := by
  unfold Desk.claimId
  split
  · refine h.moves (x := .claimed job) trivial (by simp [Phase.isWorking]) (by simp [Phase.result])
      ?_
    intro row result hrow hresult
    cases hrow
    cases hresult
  next row hrow =>
    refine h.goTo trivial (by simp [Phase.isWorking]) fun r hr => ?_
    obtain ⟨result, hresult, hbody⟩ := replay_returned hr
    obtain ⟨r', hr', hopened⟩ := h.stored row result hrow hresult
    rw [hr', DoorOpenResult.fromBody_asBody] at hbody
    cases hbody
    exact hopened

theorem resolvePlan : TruthInv (s.resolvePlan site p job) := by
  unfold Desk.resolvePlan
  split
  · exact h.stops rfl rfl
  · exact h.stops rfl rfl

theorem takeRow {plan : Option Plan} (hphase : s.phase p = .resolved job plan)
    (halone : s.opened = none → ∀ q, (s.phase q).isWorking = false)
    (hkept : (s.phase p).turnedAway .take = true → s.opened = none → s.accepted = false) :
    TruthInv (s.takeRow site p job plan) := by
  have htaken : s.opened = none → (Desk.takenPhase job plan).Honest s.accepted := by
    intro hopened
    rw [hphase] at hkept
    cases plan with
    | none => exact (hkept rfl hopened).symm
    | some plan => exact fun hpast => absurd hpast (by decide)
  have hworking : (Desk.takenPhase job plan).isWorking = true := by cases plan <;> rfl
  unfold Desk.takeRow
  split
  next hnone =>
    have hopened : s.opened = none := by simp [Desk.opened, hnone]
    exact h.alone hopened (fun q _ => halone hopened q) rfl rfl (fun _ => ⟨rfl, rfl⟩)
      (htaken hopened) (by simp [Desk.alreadySent]) h.remembered
      (by simp [result_of_isWorking hworking]) nofun
  next row hrow =>
    split
    next houtcome =>
      have hopened : s.opened = none := by simp [Desk.opened, hrow, houtcome]
      exact h.alone hopened (fun q _ => halone hopened q) rfl rfl
        (fun _ => ⟨by simp [Desk.goTo, hrow], hopened⟩) (htaken hopened) h.sent h.remembered
        (by simp [result_of_isWorking hworking]) h.recorded
    next outcome houtcome =>
      refine h.goTo trivial (by simp [Phase.isWorking]) fun r hr => ?_
      cases hr
      simp [Desk.opened, hrow, houtcome, Site.result]

theorem setState {point' : Point} {state : DoorOpenState}
    (hphase : s.phase p = .driving job plan point) (hmark : point.mark = some (state, point')) :
    TruthInv ((s.setState state).goTo p (.driving job plan point')) := by
  have hpast : point'.pastSend = true → point.pastSend = true := by
    unfold Point.mark at hmark
    split at hmark <;> cases hmark <;> decide
  obtain ⟨⟨row, hrow⟩, hnone, hhonest, hidle⟩ := h.atWork hphase rfl
  have hopened : (s.setState state).opened = s.opened := by
    simp [Desk.opened, Desk.setState, hrow]
  refine h.alone (x := .driving job plan point') hnone hidle rfl rfl
    (fun _ => ⟨by simp [Desk.setState, Desk.goTo, hrow], hopened.trans hnone⟩)
    (fun hp' => hhonest (hpast hp')) ?_ h.remembered (by simp [Phase.result])
    (hopened ▸ h.recorded)
  simpa [Desk.setState, Desk.goTo, Desk.alreadySent, hrow] using h.sent

theorem checkSent (hphase : s.phase p = .driving job plan .connected) :
    TruthInv (s.checkSent p job plan) := by
  have hp : (s.phase p).isWorking = true := by rw [hphase]; rfl
  unfold Desk.checkSent
  split_ifs with hsent
  · exact h.works hp (honest_afterDtmf (h.sent hsent)) (isWorking_afterDtmf job plan)
  · exact h.works hp (fun hpast => absurd hpast (by decide)) rfl

theorem sendDtmf (hphase : s.phase p = .driving job plan .unsent)
    (hanswered : s.seen job.host = some false → s.accepted = true) :
    TruthInv (s.sendDtmf p job plan) := by
  obtain ⟨hrow, hnone, -, hidle⟩ := h.atWork hphase rfl
  refine h.alone hnone hidle rfl rfl (fun _ => ⟨Option.isSome_iff_exists.mpr hrow, hnone⟩) ?_
    h.sent h.remembered (by simp [Phase.result]) h.recorded
  intro hpast
  cases hseen : s.seen job.host with
  | none => simp [hseen, Point.pastSend] at hpast
  | some ack =>
    -- a refusal is remembered as well
    cases ack with
    | true => exact h.remembered job.host hseen
    | false => exact hanswered hseen

theorem receive (hphase : s.phase p = .driving job plan .sending) :
    TruthInv (s.receive p job plan) := by
  obtain ⟨hrow, hnone, -, hidle⟩ := h.atWork hphase rfl
  refine h.alone (x := .driving job plan .received) hnone hidle rfl rfl
    (fun _ => ⟨Option.isSome_iff_exists.mpr hrow, hnone⟩) ?_ h.sent h.remembered
    (by simp [Phase.result]) h.recorded
  exact fun hpast => by cases hpast

/-- The request goes on as if the command was accepted. -/
theorem ack (hphase : s.phase p = .driving job plan point)
    (hacknowledged : accepted = false → s.accepted = true) :
    TruthInv (s.ack p job plan accepted) := by
  obtain ⟨hrow, hnone, -, hidle⟩ := h.atWork hphase rfl
  have haccepted : (s.accepted || accepted) = true := by
    cases accepted with
    | true => exact Bool.or_true _
    | false => simp [hacknowledged rfl]
  refine h.alone (x := .driving job plan .sent) hnone hidle rfl rfl
    (fun _ => ⟨Option.isSome_iff_exists.mpr hrow, hnone⟩) (fun _ => haccepted)
    (fun _ => haccepted) (fun _ _ => haccepted) (by simp [Phase.result]) ?_
  exact fun b hb => absurd (hnone.symm.trans hb) (by simp)

theorem recordSent (hphase : s.phase p = .driving job plan .sent) :
    TruthInv (s.recordSent p job plan) := by
  obtain ⟨⟨row, hrow⟩, hnone, hhonest, hidle⟩ := h.atWork hphase rfl
  have hopened : (s.recordSent p job plan).opened = s.opened := by
    simp [Desk.opened, Desk.recordSent, hrow]
  exact h.alone hnone hidle rfl rfl
    (fun _ => ⟨by simp [Desk.recordSent, hrow], hopened.trans hnone⟩)
    (honest_afterDtmf (hhonest rfl)) (fun _ => hhonest rfl) h.remembered
    (by simp [result_of_isWorking (isWorking_afterDtmf job plan)]) (hopened ▸ h.recorded)

/-- The outcome is written. -/
theorem finish {outcome : DoorOpenOutcome} {detail : String}
    (hphase : s.phase p = .finishing job outcome detail) :
    TruthInv (s.finish site p job outcome detail) := by
  obtain ⟨⟨row, hrow⟩, hnone, hhonest, hidle⟩ := h.atWork hphase rfl
  have hopened :
      (s.finish site p job outcome detail).opened = some (decide (outcome = .opened)) := by
    simp [Desk.opened, Desk.finish, hrow]
  refine h.alone (x := .finished _) hnone hidle rfl rfl (by simp [Phase.isWorking]) trivial ?_
    h.remembered (fun r hr => ?_) fun b hb => ?_
  · simpa [Desk.finish, Desk.alreadySent, Desk.goTo, hrow] using h.sent
  · cases hr
    exact hopened
  · rw [hopened] at hb
    cases hb
    exact hhonest

theorem complete {result : DoorOpenResult} (hphase : s.phase p = .finished result) :
    TruthInv (s.complete p result) := by
  have hbacked : s.opened = some result.opened := h.backed p result (by rw [hphase]; rfl)
  unfold Desk.complete
  split
  · exact h.stops rfl rfl
  next row hrow =>
    refine h.moves (x := .ended (.returned result)) trivial (by simp [Phase.isWorking])
      (fun r hr => ?_) ?_
    · cases hr
      exact hbacked
    · intro row' result' hclaim hres
      cases hclaim
      cases hres
      exact ⟨result, rfl, hbacked⟩

theorem abandon {e : DoorError} :
    TruthInv { s.goTo p (.ended (.raised e)) with claim := Commands.abandon s.claim } := by
  refine h.moves (x := .ended (.raised e)) trivial (by simp [Phase.isWorking])
    (by simp [Phase.result]) ?_
  exact fun row result hclaim hres => h.stored row result (claim_of_abandon hclaim) hres

/-- An answer that turns a request away comes before the command is accepted. -/
theorem ask (hphase : s.phase p = .driving job plan point)
    (hnext : point.next job plan m = some next)
    (hkept : (s.phase p).turnedAway m = true → s.opened = none → s.accepted = false) :
    TruthInv (s.goTo p (next.phase job plan)) := by
  obtain ⟨-, hnone, hhonest, -⟩ := h.atWork hphase rfl
  refine h.works (by rw [hphase]; rfl) ?_ (by cases next <;> rfl)
  exact honest_next hnext hhonest fun haway => hkept (hphase ▸ haway) hnone

theorem step (hundisturbed : Undisturbed s p m) (hstep : s.step site p m = some t) :
    TruthInv t := by
  cases step_effect hstep with
  | restart =>
    refine ⟨h.taken, h.exclusive, h.honest, h.sent, ?_, h.backed, h.stored, h.recorded⟩
    exact forall_update (Q := fun _ (seen : Option Bool) => seen = some true →
      s.accepted = true) (by simp) h.remembered
  | purge =>
    refine ⟨h.taken, h.exclusive, h.honest, h.sent, h.remembered, h.backed, ?_, h.recorded⟩
    exact fun row result hclaim => absurd hclaim (by simp)
  | fault hx => exact (h.fault hundisturbed.kept hx).left
  | cancel hx => exact (h.cancel hx).left
  | die => exact (h.stops rfl rfl).left
  | claim => exact h.claimId
  | resolve => exact h.resolvePlan
  | take hphase => exact h.takeRow hphase (hundisturbed.alone rfl) hundisturbed.kept
  | setState hphase hmark => exact h.setState hphase hmark
  | check hphase => exact h.checkSent hphase
  | send hphase => exact h.sendDtmf hphase (hundisturbed.answered _ _ rfl hphase)
  | receive hphase => exact h.receive hphase
  | acknowledge hphase =>
    exact h.ack hphase fun hrefused => hundisturbed.acknowledged (by rw [hrefused])
  | record hphase => exact h.recordSent hphase
  | finish hphase => exact h.finish hphase
  | complete hphase => exact h.complete hphase
  | abandon => exact h.abandon
  | ask hphase hnext => exact h.ask hphase hnext hundisturbed.kept

end TruthInv

/-- **What is returned or stored about a door is true** in every run in which nothing disturbs. -/
theorem truthful_of_undisturbed (site : Site) {moves : List (ℕ × Action)} {t : Desk}
    (h : execute (Desk.step site) Desk.start moves = some t)
    (hundisturbed : Allows (Desk.step site) Undisturbed Desk.start moves) : Truthful t := by
  have hrun := run_of_allows moves h hundisturbed
  exact (Turn.invariant (P := TruthInv) (fun _ _ _ _ hinv hok hstep => hinv.step hok hstep)
    truthInv_start hrun).truthful

/-- A statement that neither takes up the row nor sends. -/
def Action.isPlain : Action → Bool
  | .take | .send | .acknowledge _ => false
  | _ => true

theorem undisturbed_of_plain (h : m.isPlain = true)
    (haway : (s.phase p).turnedAway m = false) : Undisturbed s p m := by
  refine ⟨?_, ?_, ?_, by simp [haway]⟩
  · rintro rfl
    cases h
  · rintro job plan rfl
    cases h
  · rintro rfl
    cases h

def openedAndRepeated : List (ℕ × Action) :=
  inRow 0 (upToCheck 0 ++ acceptedSend ++ [.record, .setState, .hangup, .finish, .complete]) ++
    inRow 1 [.claim ⟨1, ⟨"front", "call-1"⟩, none, true⟩]

theorem opened_and_repeated_undisturbed :
    Allows (Desk.step oneDoor) Undisturbed Desk.start openedAndRepeated := by
  have hp : ∀ {s : Desk} {p : ℕ} {m : Action}, m.isPlain = true →
      (s.phase p).turnedAway m = false → Undisturbed s p m := undisturbed_of_plain
  refine ⟨hp rfl rfl, hp rfl rfl, ⟨fun _ _ q => ?_, by simp, by simp, ?_⟩, hp rfl rfl, hp rfl rfl,
    hp rfl rfl, hp rfl rfl, hp rfl rfl, hp rfl rfl, ⟨by simp, fun _ _ _ _ hseen => ?_, by simp, ?_⟩,
    hp rfl rfl, ⟨by simp, by simp, by simp, ?_⟩, hp rfl rfl, hp rfl rfl, hp rfl rfl, hp rfl rfl,
    hp rfl rfl, hp rfl rfl, trivial⟩
  · cases q <;> rfl
  · intro haway
    cases haway
  · cases hseen
  · intro haway
    cases haway
  · intro haway
    cases haway

theorem opened_and_repeated_truthful :
    ∃ t, execute (Desk.step oneDoor) Desk.start openedAndRepeated = some t ∧ Truthful t ∧
      (t.phase 0).result = some ⟨"c1", "front", .opened, true, "DTMF sequence delivered"⟩ ∧
      (t.phase 1).result = some ⟨"c1", "front", .opened, true, "DTMF sequence delivered"⟩ := by
  obtain ⟨t, ht⟩ : ∃ t, execute (Desk.step oneDoor) Desk.start openedAndRepeated = some t :=
    ⟨_, rfl⟩
  refine ⟨t, ht, truthful_of_undisturbed oneDoor ht opened_and_repeated_undisturbed, ?_⟩
  cases ht
  exact ⟨rfl, rfl⟩

def refusedByGateway : List (ℕ × Action) :=
  inRow 0 (upToCheck 0 ++ [.send, .acknowledge false, .record, .setState, .hangup, .finish,
    .complete])

/-- The database fails after the command was accepted. -/
def notRecorded : List (ℕ × Action) :=
  inRow 0 (upToCheck 0 ++ acceptedSend ++ [.fail "connection lost", .finish, .complete])

/-- The host crashes after the sequence is recorded, and the retry finds the call gone. -/
def resumedTooLate : List (ℕ × Action) :=
  inRow 0 (upToCheck 0 ++ acceptedSend ++ [.record, .die, .restart 0, .purge]) ++
    inRow 1 [.claim ⟨0, ⟨"front", "call-1"⟩, none, true⟩, .resolve, .take, .provider true,
      .capabilities true, .snapshot none, .finish, .complete]

theorem not_truthful (h : t.phase p = .ended (.returned r))
    (hne : t.accepted = !r.opened) : ¬ Truthful t := by
  intro htrue
  rw [htrue.returned p r h] at hne
  simp at hne

/-- A refused command is reported as an open door, and an accepted one as an error of the provider
or as a call that is gone. -/
theorem reported_untruly : (∃ t, execute (Desk.step oneDoor) Desk.start refusedByGateway = some t ∧
      t.phase 0 = .ended (.returned ⟨"c1", "front", .opened, true, "DTMF sequence delivered"⟩) ∧
      t.accepted = false ∧ ¬ Truthful t) ∧
    (∃ t, execute (Desk.step oneDoor) Desk.start notRecorded = some t ∧
      t.phase 0 = .ended (.returned ⟨"c1", "front", .providerError, false,
        "telephony provider error: connection lost"⟩) ∧ t.accepted = true ∧ ¬ Truthful t) ∧
    ∃ t, execute (Desk.step oneDoor) Desk.start resumedTooLate = some t ∧
      t.phase 1 = .ended (.returned ⟨"c1", "front", .callerGone, false,
        "no active call for the given call_id"⟩) ∧ t.accepted = true ∧ ¬ Truthful t := by
  refine ⟨⟨_, rfl, rfl, rfl, ?_⟩, ⟨_, rfl, rfl, rfl, ?_⟩, ⟨_, rfl, rfl, rfl, ?_⟩⟩
  · exact not_truthful (p := 0) rfl rfl
  · exact not_truthful (p := 0) rfl rfl
  · exact not_truthful (p := 1) rfl rfl

end BbzPlatform.Doors
