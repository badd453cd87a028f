import BbzPlatform.Access.Login
import BbzPlatform.Lib.Tickets

/-!
# Login challenges

A login through the identity provider begins with a row in `oidc_login_flows`, a ceremony with a
security key begins with a row in `webauthn_challenges`.  The callback looks the row up, deletes it
and goes on with what it has read.  A flow that links an account carries the user it links.

The lookup and the deletion are two transactions, and nobody asks whether the deletion found the
row.  Callbacks that overlap are both returned the row.  As long as every callback finds the row it
has read, each row is returned once.
-/

namespace BbzPlatform.Access.SingleUse

open Function

/-! ## Rows -/

/-- A row of `oidc_login_flows`; `linkUserId` marks a flow that links an account. -/
structure Flow extends OidcLoginFlow where
  nonce : String
  codeVerifierEnc : String
  linkUserId : Option String

/-- `_ConsumedFlow`. -/
structure ConsumedFlow where
  nonce : String
  codeVerifierEnc : String
  linkUserId : Option String

def Flow.consumed (flow : Flow) : ConsumedFlow :=
  ⟨flow.nonce, flow.codeVerifierEnc, flow.linkUserId⟩

/-- What a ceremony is for. -/
inductive Kind where
  | register
  | authenticate
  deriving DecidableEq

/-- A row of `webauthn_challenges`. -/
structure Challenge extends WebauthnChallenge where
  id : String
  kind : Kind
  authIdentityId : Option String
  userId : Option String

/-- The challenges of a kind and a subject; the identity goes before the user. -/
def Challenge.concerns (c : Challenge) (kind : Kind) (authIdentityId userId : Option String) :
    Bool :=
  c.kind = kind &&
    match authIdentityId with
    | some _ => c.authIdentityId = authIdentityId
    | none => c.userId = userId

/-- The endpoint that calls `_consume_flow`. -/
inductive Entry where
  | complete
  | completeLink
  deriving DecidableEq

/-- What an endpoint comes to. -/
inductive Outcome where
  | signedIn (userId : String)
  | linked (userId subject : String)
  | raised (e : OidcError)

/-- It did not raise. -/
def Outcome.succeeded : Outcome → Bool
  | raised _ => false
  | _ => true

/-- The rest of `complete` and of `complete_link`; the answer is what comes of the exchange of the
code and the validation of the token. -/
def finish (entry : Entry) (flow : ConsumedFlow) (answer : Except OidcError String) : Outcome :=
  match entry, flow.linkUserId, answer with
  | .complete, _, .ok userId => .signedIn userId
  | .completeLink, none, _ => .raised .invalid  -- not a linking flow
  | .completeLink, some userId, .ok subject => .linked userId subject
  | _, _, .error e => .raised e

/-! ## Callbacks that overlap -/

/-- Where a request is.  A deleted row is returned unless it was expired. -/
inductive Phase where
  | idle
  | clearing (kind : Kind) (authIdentityId userId : Option String) (ids : List String)
  | readFlow (entry : Entry) (flow : Flow) (expired : Bool)
  | deletedFlow (entry : Entry) (flow : Flow) (expired : Bool)
  | finishedFlow (entry : Entry) (flow : Flow) (outcome : Outcome)
  | readChallenge (row : Challenge)
  | deletedChallenge (row : Challenge) (expired : Bool)
  | done

namespace Phase

/-- The flow that `_consume_flow` has returned. -/
def returnedFlow : Phase → Option Flow
  | deletedFlow _ flow false => some flow
  | finishedFlow _ flow _ => some flow
  | _ => none

/-- The challenge that `_consume` has returned. -/
def returnedChallenge : Phase → Option Challenge
  | deletedChallenge row false => some row
  | _ => none

/-- A flow is completed only by the endpoint it was begun for. -/
def Separate : Phase → Prop
  | finishedFlow entry flow outcome =>
    outcome.succeeded → (entry = .completeLink ↔ flow.linkUserId.isSome)
  | _ => True

end Phase

/-- The two tables, the keys that were drawn for them, and the requests. -/
structure Desk where
  flows : List Flow
  challenges : List Challenge
  states : List String
  ids : List String
  phase : ℕ → Phase

/-- What a request does next. -/
inductive Action where
  /-- The insertion of `begin`. -/
  | begin (flow : Flow)
  /-- The deletion of `_stash`, not yet committed. -/
  | clear (kind : Kind) (authIdentityId userId : Option String)
  /-- The insertion and the commit of `_stash`. -/
  | stash (id challenge : String) (expiresAt : ℤ)
  /-- The lookup of `_consume_flow`. -/
  | get (entry : Entry) (provider : AuthProvider) (state : String) (now : ℤ)
  /-- The lookup of `_consume`. -/
  | select (kind : Kind) (authIdentityId userId : Option String)
  /-- The deletion, and the end of the two. -/
  | delete (now : ℤ)
  /-- The end of `complete` or `complete_link`. -/
  | finish (answer : ConsumedFlow → Except OidcError String)

namespace Desk

variable (s : Desk)

/-- Nothing has begun. -/
def start : Desk := ⟨[], [], [], [], fun _ => .idle⟩

def goTo (p : ℕ) (x : Phase) : Desk := { s with phase := update s.phase p x }

/-- What `_consume_flow` reads. -/
def lookup (entry : Entry) (provider : AuthProvider) (state : String) (now : ℤ) : Phase :=
  match s.flows.find? (·.state = state) with
  | none => .done
  | some flow =>
    if flow.provider = provider then .readFlow entry flow (flow.expiresAt < now) else .done

/-- What `_consume` reads; more than one row is an error as well. -/
def pending (kind : Kind) (authIdentityId userId : Option String) : Phase :=
  match s.challenges.filter (·.concerns kind authIdentityId userId) with
  | [row] => .readChallenge row
  | _ => .done

/-- One action of one request.  States and ids are drawn at random and do not repeat. -/
def step (p : ℕ) (m : Action) : Option Desk :=
  match m, s.phase p with
  | .begin flow, .idle =>
    if flow.state ∈ s.states then none
    else some { s.goTo p .done with
      flows := s.flows ++ [flow]
      states := flow.state :: s.states }
  | .clear kind authIdentityId userId, .idle =>
    some (s.goTo p (.clearing kind authIdentityId userId
      ((s.challenges.filter (·.concerns kind authIdentityId userId)).map (·.id))))
  | .stash id challenge expiresAt, .clearing kind authIdentityId userId old =>
    if id ∈ s.ids then none
    else some { s.goTo p .done with
      challenges := (s.challenges.filter fun c => !old.contains c.id) ++
        [⟨⟨challenge, expiresAt⟩, id, kind, authIdentityId, userId⟩]
      ids := id :: s.ids }
  | .get entry provider state now, .idle => some (s.goTo p (s.lookup entry provider state now))
  | .select kind authIdentityId userId, .idle =>
    some (s.goTo p (s.pending kind authIdentityId userId))
  | .delete _, .readFlow entry flow expired =>
    some { s.goTo p (.deletedFlow entry flow expired) with
      flows := s.flows.filter fun other => other.state ≠ flow.state }
  | .delete now, .readChallenge row =>
    some { s.goTo p (.deletedChallenge row (row.expiresAt < now)) with
      challenges := s.challenges.filter fun other => other.id ≠ row.id }
  | .finish answer, .deletedFlow entry flow false =>
    some (s.goTo p (.finishedFlow entry flow
      (SingleUse.finish entry flow.consumed (answer flow.consumed))))
  | _, _ => none

end Desk

/-! ## Using rows once -/

/-- Each row is returned by one call, and a flow is completed by the endpoint it was begun for. -/
structure UsedOnce (s : Desk) : Prop where
  flows : ∀ p q flow flow', (s.phase p).returnedFlow = some flow →
    (s.phase q).returnedFlow = some flow' → flow.state = flow'.state → p = q
  challenges : ∀ p q row row', (s.phase p).returnedChallenge = some row →
    (s.phase q).returnedChallenge = some row' → row.id = row'.id → p = q
  separate : ∀ p, (s.phase p).Separate

/-- Where a callback deletes a row it has read in time, the row is still in its table; and what
`complete` finishes is no flow that links an account. -/
structure RowStands (s : Desk) (p : ℕ) (m : Action) : Prop where
  flow : ∀ entry flow now, s.phase p = .readFlow entry flow false → m = .delete now →
    flow ∈ s.flows
  challenge : ∀ row now, s.phase p = .readChallenge row → m = .delete now →
    now ≤ row.expiresAt → row ∈ s.challenges
  login : ∀ flow answer, s.phase p = .deletedFlow .complete flow false → m = .finish answer →
    flow.linkUserId = none

variable {s t : Desk} {p : ℕ} {m : Action} {x : Phase} {entry : Entry} {flow : Flow}

/-- What a request has been returned. -/
def flowOf (s : Desk) (p : ℕ) : Option Flow := (s.phase p).returnedFlow

/-- What a request has been returned. -/
def challengeOf (s : Desk) (p : ℕ) : Option Challenge := (s.phase p).returnedChallenge

/-- The books of both tables balance. -/
structure Inv (s : Desk) : Prop where
  flows : Tickets.Book (fun flow : Flow => flow.state) s.flows s.states (flowOf s)
  challenges : Tickets.Book (fun row : Challenge => row.id) s.challenges s.ids (challengeOf s)
  separate : ∀ p, (s.phase p).Separate

theorem inv_start : Inv Desk.start := ⟨.empty, .empty, fun _ => trivial⟩

theorem flowOf_goTo (x : Phase) : flowOf (s.goTo p x) = update (flowOf s) p x.returnedFlow := by
  funext q
  by_cases hq : q = p <;> simp [flowOf, Desk.goTo, hq]

theorem challengeOf_goTo (x : Phase) :
    challengeOf (s.goTo p x) = update (challengeOf s) p x.returnedChallenge := by
  funext q
  by_cases hq : q = p <;> simp [challengeOf, Desk.goTo, hq]

theorem separate_goTo (h : Inv s) (hx : x.Separate) (q : ℕ) : ((s.goTo p x).phase q).Separate := by
  by_cases hq : q = p
  · simpa [Desk.goTo, hq] using hx
  · simpa [Desk.goTo, hq] using h.separate q

/-- A request goes on without being returned a row. -/
theorem Inv.goTo (h : Inv s) {y : Phase} (hphase : s.phase p = y)
    (hflow : x.returnedFlow = y.returnedFlow) (hrow : x.returnedChallenge = y.returnedChallenge)
    (hx : x.Separate) : Inv (s.goTo p x) := by
  subst hphase
  refine ⟨?_, ?_, separate_goTo h hx⟩
  · rw [flowOf_goTo, hflow]
    exact (update_eq_self p (flowOf s)).symm ▸ h.flows
  · rw [challengeOf_goTo, hrow]
    exact (update_eq_self p (challengeOf s)).symm ▸ h.challenges

inductive Effect (s : Desk) (p : ℕ) : Action → Desk → Prop
  | begin {flow : Flow} (hphase : s.phase p = .idle) (hnew : flow.state ∉ s.states) :
      Effect s p (.begin flow) { s.goTo p .done with
        flows := s.flows ++ [flow]
        states := flow.state :: s.states }
  | reading {m : Action} {x : Phase} (hphase : s.phase p = .idle) (hflow : x.returnedFlow = none)
      (hrow : x.returnedChallenge = none) (hx : x.Separate) : Effect s p m (s.goTo p x)
  | stash {challenge : String} {expiresAt : ℤ} {row : Challenge} {kind : Kind}
      {authIdentityId userId : Option String} {old : List String}
      (hphase : s.phase p = .clearing kind authIdentityId userId old) (hnew : row.id ∉ s.ids) :
      Effect s p (.stash row.id challenge expiresAt) { s.goTo p .done with
        challenges := (s.challenges.filter fun c => !old.contains c.id) ++ [row]
        ids := row.id :: s.ids }
  | deleteFlow {entry : Entry} {flow : Flow} {expired : Bool} {now : ℤ}
      (hphase : s.phase p = .readFlow entry flow expired) :
      Effect s p (.delete now) { s.goTo p (.deletedFlow entry flow expired) with
        flows := s.flows.filter fun other => other.state ≠ flow.state }
  | deleteChallenge {row : Challenge} {now : ℤ} (hphase : s.phase p = .readChallenge row) :
      Effect s p (.delete now) { s.goTo p (.deletedChallenge row (row.expiresAt < now)) with
        challenges := s.challenges.filter fun other => other.id ≠ row.id }
  | finish {entry : Entry} {flow : Flow} {answer : ConsumedFlow → Except OidcError String}
      (hphase : s.phase p = .deletedFlow entry flow false) :
      Effect s p (.finish answer) (s.goTo p (.finishedFlow entry flow
        (SingleUse.finish entry flow.consumed (answer flow.consumed))))

theorem step_effect (h : s.step p m = some t) : Effect s p m t := by
  unfold Desk.step at h
  split at h
  next hphase =>
    split_ifs at h with hnew
    cases h
    exact .begin hphase hnew
  next hphase =>
    cases h
    exact .reading hphase rfl rfl trivial
  next id challenge expiresAt kind authIdentityId userId old hphase =>
    split_ifs at h with hnew
    cases h
    let row : Challenge := ⟨⟨challenge, expiresAt⟩, id, kind, authIdentityId, userId⟩
    have hrow : row.id ∉ s.ids := hnew
    exact .stash hphase hrow
  next entry provider state now hphase =>
    cases h
    fun_cases s.lookup entry provider state now <;> exact .reading hphase rfl rfl trivial
  next kind authIdentityId userId hphase =>
    cases h
    fun_cases s.pending kind authIdentityId userId <;> exact .reading hphase rfl rfl trivial
  next hphase =>
    cases h
    exact .deleteFlow hphase
  next hphase =>
    cases h
    exact .deleteChallenge hphase
  next hphase =>
    cases h
    exact .finish hphase
  · cases h

/-- `complete_link` refuses a flow that links nothing; `complete` does not ask. -/
theorem separate_finish {answer : Except OidcError String}
    (hlogin : entry = .complete → flow.linkUserId = none) :
    (Phase.finishedFlow entry flow (SingleUse.finish entry flow.consumed answer)).Separate := by
  intro hsucceeded
  cases entry with
  | complete =>
    simp [hlogin rfl]
  | completeLink =>
    cases hlink : flow.linkUserId with
    | none => simp [SingleUse.finish, Flow.consumed, hlink, Outcome.succeeded] at hsucceeded
    | some userId => simp

theorem Inv.deleteFlow (hinv : Inv s) {expired : Bool}
    (hphase : s.phase p = .readFlow entry flow expired)
    (hstands : expired = false → flow ∈ s.flows) :
    Inv { s.goTo p (.deletedFlow entry flow expired) with
      flows := s.flows.filter fun other => other.state ≠ flow.state } := by
  cases expired with
  | true =>
    have h : Inv (s.goTo p (.deletedFlow entry flow true)) :=
      hinv.goTo hphase rfl rfl trivial
    exact ⟨h.flows.discard _, h.challenges, h.separate⟩
  | false =>
    have hread : Inv (s.goTo p .done) := hinv.goTo hphase rfl rfl trivial
    have hspent := flowOf_goTo (s := s) (p := p) (.deletedFlow entry flow false)
    have hsame := challengeOf_goTo (s := s) (p := p) (.deletedFlow entry flow false)
    exact ⟨hspent ▸ hinv.flows.spend (hstands rfl),
      hsame.trans (challengeOf_goTo .done).symm ▸ hread.challenges, separate_goTo hinv trivial⟩

theorem Inv.deleteChallenge (hinv : Inv s) {row : Challenge} {now : ℤ}
    (hphase : s.phase p = .readChallenge row) (hstands : now ≤ row.expiresAt → row ∈ s.challenges) :
    Inv { s.goTo p (.deletedChallenge row (row.expiresAt < now)) with
      challenges := s.challenges.filter fun other => other.id ≠ row.id } := by
  by_cases hexpired : row.expiresAt < now
  · have h : Inv (s.goTo p (.deletedChallenge row (row.expiresAt < now))) :=
      hinv.goTo hphase rfl (by rw [decide_eq_true hexpired]; rfl) trivial
    exact ⟨h.flows, h.challenges.discard _, h.separate⟩
  · have hread : Inv (s.goTo p .done) := hinv.goTo hphase rfl rfl trivial
    have hspent := challengeOf_goTo (s := s) (p := p) (.deletedChallenge row false)
    have hsame := flowOf_goTo (s := s) (p := p) (.deletedChallenge row false)
    rw [decide_eq_false hexpired]
    exact ⟨hsame.trans (flowOf_goTo .done).symm ▸ hread.flows,
      hspent ▸ hinv.challenges.spend (hstands (not_lt.mp hexpired)), separate_goTo hinv trivial⟩

theorem Inv.step (hinv : Inv s) (hstands : RowStands s p m) (h : s.step p m = some t) : Inv t := by
  cases step_effect h with
  | begin hphase hnew =>
    have h : Inv (s.goTo p .done) := hinv.goTo hphase rfl rfl trivial
    exact ⟨h.flows.issue hnew, h.challenges, h.separate⟩
  | reading hphase hflow hrow hx =>
    exact hinv.goTo hphase hflow hrow hx
  | stash hphase hnew =>
    have h : Inv (s.goTo p .done) := hinv.goTo hphase rfl rfl trivial
    exact ⟨h.flows, (h.challenges.discard _).issue hnew, h.separate⟩
  | deleteFlow hphase =>
    refine hinv.deleteFlow hphase fun hexpired => ?_
    subst hexpired
    exact hstands.flow _ _ _ hphase rfl
  | deleteChallenge hphase =>
    exact hinv.deleteChallenge hphase (hstands.challenge _ _ hphase rfl)
  | finish hphase =>
    refine hinv.goTo hphase rfl rfl (separate_finish ?_)
    intro hentry
    subst hentry
    exact hstands.login _ _ hphase rfl

/-- **Login challenges are used once** in every run in which each callback finds the row it has read
in time, and `complete` gets no flow that links an account. -/
theorem used_once_of_rows_stand {moves : List (ℕ × Action)} {t : Desk}
    (h : Turns.execute Desk.step Desk.start moves = some t)
    (hstands : Turns.Allows Desk.step RowStands Desk.start moves) : UsedOnce t := by
  have hrun := Turns.run_of_allows moves h hstands
  have hinv := Turns.Turn.invariant (P := Inv) (fun _ _ _ _ hinv hok hstep => hinv.step hok hstep)
    inv_start hrun
  exact ⟨hinv.flows.once, hinv.challenges.once, hinv.separate⟩

def begun (linkUserId : Option String) : Flow :=
  ⟨⟨"state", .entraOidc, 600⟩, "nonce", "verifier", linkUserId⟩

/-- A login through the identity provider, and a ceremony with a security key. -/
def inTurn : List (ℕ × Action) :=
  [(0, .begin (begun none)), (1, .get .complete .entraOidc "state" 10), (1, .delete 11),
    (1, .finish fun _ => .ok "anna"),
    (2, .clear .authenticate none (some "anna")), (2, .stash "row" "challenge" 300),
    (3, .select .authenticate none (some "anna")), (3, .delete 20)]

/-- What neither deletes nor finishes has no row to find. -/
theorem rowStands_of_reading (hdelete : ∀ now, m ≠ .delete now)
    (hfinish : ∀ answer, m ≠ .finish answer) : RowStands s p m :=
  ⟨fun _ _ now _ hm => absurd hm (hdelete now), fun _ now _ hm => absurd hm (hdelete now),
    fun _ answer _ hm => absurd hm (hfinish answer)⟩

theorem in_turn_stands : Turns.Allows Desk.step RowStands Desk.start inTurn := by
  refine ⟨rowStands_of_reading (by simp) (by simp), rowStands_of_reading (by simp) (by simp),
    ⟨?_, ?_, ?_⟩, ⟨?_, ?_, ?_⟩, rowStands_of_reading (by simp) (by simp),
    rowStands_of_reading (by simp) (by simp), rowStands_of_reading (by simp) (by simp),
    ⟨?_, ?_, ?_⟩, trivial⟩
  · intro entry flow now hphase _
    cases hphase
    exact List.mem_singleton.mpr rfl
  · intro row now hphase
    cases hphase
  · intro flow answer hphase
    cases hphase
  · intro entry flow now hphase
    cases hphase
  · intro row now hphase
    cases hphase
  · intro flow answer hphase _
    cases hphase
    rfl
  · intro entry flow now hphase
    cases hphase
  · intro row now hphase _ _
    cases hphase
    exact List.mem_singleton.mpr rfl
  · intro flow answer hphase
    cases hphase

theorem in_turn_used_once : ∃ t, Turns.execute Desk.step Desk.start inTurn = some t ∧
    UsedOnce t ∧ ((t.phase 1).returnedFlow.map (·.state)) = some "state" ∧
      ((t.phase 3).returnedChallenge.map (·.id)) = some "row" := by
  obtain ⟨t, ht⟩ : ∃ t, Turns.execute Desk.step Desk.start inTurn = some t := ⟨_, rfl⟩
  refine ⟨t, ht, used_once_of_rows_stand ht in_turn_stands, ?_⟩
  cases ht
  exact ⟨rfl, rfl⟩

/-- Two callbacks with the state of a flow that links an account, and two assertions. -/
def overlapping : List (ℕ × Action) :=
  [(0, .begin (begun (some "anna"))), (1, .get .complete .entraOidc "state" 10),
    (2, .get .completeLink .entraOidc "state" 10), (1, .delete 11), (2, .delete 11),
    (1, .finish fun _ => .ok "ben"),
    (3, .clear .authenticate none (some "anna")), (3, .stash "row" "challenge" 300),
    (4, .select .authenticate none (some "anna")), (5, .select .authenticate none (some "anna")),
    (4, .delete 20), (5, .delete 20)]

/-- The flow and the challenge are each returned twice, and the flow that links an account signs
somebody in. -/
theorem consumed_twice : ∃ t, Turns.execute Desk.step Desk.start overlapping = some t ∧
    (t.phase 1).returnedFlow = some (begun (some "anna")) ∧
    (t.phase 2).returnedFlow = some (begun (some "anna")) ∧
    t.phase 1 = .finishedFlow .complete (begun (some "anna")) (.signedIn "ben") ∧
    ((t.phase 4).returnedChallenge.map (·.id)) = some "row" ∧
    ((t.phase 5).returnedChallenge.map (·.id)) = some "row" ∧ ¬ UsedOnce t := by
  refine ⟨_, rfl, rfl, rfl, rfl, rfl, rfl, fun h => ?_⟩
  exact absurd (h.flows 1 2 _ _ rfl rfl rfl) (by decide)

end BbzPlatform.Access.SingleUse
