import BbzPlatform.Access.Login

/-!
# Linked sign-in methods

A user can sign in through several identities, at most one of each provider.  Linking asks that the
account has no identity of the provider and that nobody else has the subject, then inserts the row;
unlinking asks that the identity is not the only one and that the user is not the last active
administrator, then deletes the row.

The questions and the write are statements of different transactions, and nothing is locked.  Two
requests of one account that overlap can take away its last two identities, or give it two of one
provider.  An account keeps a way in, and one identity of each provider, exactly if every write is
made while what the request has asked would still be answered in the same way.
-/

namespace BbzPlatform.Access.Linking

open Turns List

/-! ## Requests -/

def OnePerProvider (identities : List AuthIdentity) : Prop :=
  identities.Pairwise fun i j => i.userId = j.userId → i.provider ≠ j.provider

/-- The rows of `auth_identities` to begin with. -/
structure Accounts where
  identities : List AuthIdentity
  ids : (identities.map (·.id)).Nodup
  single : OnePerProvider identities

/-- Why a request is refused. -/
inductive LinkingError where
  | linking (message : String)
  | identityAlreadyLinked
  | providerAlreadyLinked
  | lastIdentity (message : String)
  | identityNotFound
  | weakPassword
  | multipleResults
  | integrity
  deriving DecidableEq

/-- What is to be linked; the verdict is that of the password policy, on a local identity. -/
structure LinkRequest where
  userId : String
  provider : AuthProvider
  subject : String
  verdict : Bool

inductive Phase where
  | idle
  | providerFree (r : LinkRequest)
  | subjectFree (r : LinkRequest)
  | found (userId identityId : String)
  | counted (userId identityId : String)
  | cleared (userId identityId : String)
  | linked (identityId : String)
  | unlinked
  | refused (e : LinkingError)

/-- The rows, the ids that were drawn, and the requests. -/
structure Desk where
  identities : List AuthIdentity
  ids : List String
  phase : ℕ → Phase

/-- What a request does next. -/
inductive Action where
  | linkLocal (userId username : String) (verdict : Bool)
  | linkExternal (userId : String) (provider : AuthProvider) (subject : String)
  | checkSubject
  | insert (identityId : String)
  | unlink (userId identityId : String)
  | count
  | checkAdmin (rbac : Rbac)
  | delete

namespace Desk

variable (s : Desk)

/-- No request yet. -/
def start (accounts : Accounts) : Desk :=
  ⟨accounts.identities, accounts.identities.map (·.id), fun _ => .idle⟩

def goTo (p : ℕ) (x : Phase) : Desk := { s with phase := Function.update s.phase p x }

def ofProvider (userId : String) (provider : AuthProvider) : List AuthIdentity :=
  s.identities.filter fun i => i.userId = userId && i.provider = provider

/-- `_ensure_no_provider`. -/
def ensureNoProvider (r : LinkRequest) : Phase :=
  match s.ofProvider r.userId r.provider with
  | [] => .providerFree r
  | [_] => .refused .providerAlreadyLinked
  | _ => .refused .multipleResults

def taken (provider : AuthProvider) (subject : String) : Bool :=
  s.identities.any fun i => i.provider = provider && i.subject = subject

/-- `_ensure_subject_free`, and the password policy after it. -/
def ensureSubjectFree (r : LinkRequest) : Phase :=
  if s.taken r.provider r.subject then .refused .identityAlreadyLinked
  else if r.verdict then .subjectFree r
  else .refused .weakPassword

/-- The row that is to be unlinked. -/
def own (userId identityId : String) : Phase :=
  match s.identities.find? (·.id = identityId) with
  | none => .refused .identityNotFound
  | some i => if i.userId = userId then .found userId identityId else .refused .identityNotFound

def identityCount (userId : String) : ℕ := (s.identities.filter (·.userId = userId)).length

/-- One action of one request.  Ids are drawn at random and do not repeat. -/
def step (p : ℕ) (m : Action) : Option Desk :=
  match m, s.phase p with
  | .linkLocal userId username verdict, .idle =>
    some (s.goTo p (s.ensureNoProvider ⟨userId, .localAccount, username, verdict⟩))
  | .linkExternal userId provider subject, .idle =>
    some (s.goTo p
      (if provider = .localAccount then .refused (.linking "not an external provider: local")
      else s.ensureNoProvider ⟨userId, provider, subject, true⟩))
  | .checkSubject, .providerFree r => some (s.goTo p (s.ensureSubjectFree r))
  | .insert identityId, .subjectFree r =>
    if identityId ∈ s.ids then none
    else if s.taken r.provider r.subject then some (s.goTo p (.refused .integrity))
    else some { s.goTo p (.linked identityId) with
      identities := s.identities ++ [⟨identityId, r.userId, r.provider, r.subject⟩]
      ids := identityId :: s.ids }
  | .unlink userId identityId, .idle => some (s.goTo p (s.own userId identityId))
  | .count, .found userId identityId =>
    some (s.goTo p
      (if s.identityCount userId ≤ 1 then
        .refused (.lastIdentity "cannot remove the account's only sign-in method")
      else .counted userId identityId))
  | .checkAdmin rbac, .counted userId identityId =>
    some (s.goTo p
      (if rbac.isLastActiveAdmin userId then .refused (.lastIdentity
        "cannot reduce the last active administrator's sign-in methods")
      else .cleared userId identityId))
  | .delete, .cleared _ identityId =>
    some { s.goTo p .unlinked with
      identities := s.identities.filter (·.id ≠ identityId) }
  | _, _ => none

end Desk

/-! ## Keeping a way in -/

/-- Who had an identity has one afterwards, and nobody has two of one provider. -/
structure KeepsWayIn (s t : Desk) : Prop where
  way : ∀ userId, (∃ i ∈ s.identities, i.userId = userId) → ∃ i ∈ t.identities, i.userId = userId
  single : OnePerProvider t.identities

def KeepsWayInAt (s : Desk) (p : ℕ) (m : Action) : Prop :=
  ∀ t, s.step p m = some t → KeepsWayIn s t

/-- Where a request writes, the account has still no identity of the provider, or it has still more
than one identity; unless the write finds the subject taken, or the row gone. -/
structure StillStands (s : Desk) (p : ℕ) (m : Action) : Prop where
  link : ∀ r identityId, s.phase p = .subjectFree r → m = .insert identityId →
    s.taken r.provider r.subject = false → s.ofProvider r.userId r.provider = []
  unlink : ∀ userId identityId, s.phase p = .cleared userId identityId → m = .delete →
    (∃ i ∈ s.identities, i.id = identityId) → 1 < s.identityCount userId

variable {s t : Desk} {p : ℕ} {m : Action} {i : AuthIdentity} {identityId : String} {x : Phase}

/-- A request to unlink was made for an identity of its user. -/
def PhaseOk (s : Desk) : Phase → Prop
  | .found userId identityId | .counted userId identityId | .cleared userId identityId =>
    identityId ∈ s.ids ∧ ∀ i ∈ s.identities, i.id = identityId → i.userId = userId
  | _ => True

/-- What holds along a run in which everything still stands. -/
structure Inv (s : Desk) : Prop where
  drawn : ∀ i ∈ s.identities, i.id ∈ s.ids
  nodup : (s.identities.map (·.id)).Nodup
  single : OnePerProvider s.identities
  phases : ∀ q, PhaseOk s (s.phase q)

theorem inv_start (accounts : Accounts) : Inv (Desk.start accounts) where
  drawn := fun i hi => mem_map.mpr ⟨i, hi, rfl⟩
  nodup := accounts.ids
  single := accounts.single
  phases := fun _ => trivial

inductive Effect (s : Desk) (p : ℕ) : Action → Desk → Prop
  | reading {m : Action} {x : Phase} (hx : PhaseOk s x)
      (hlink : ∀ r identityId, s.phase p = .subjectFree r → m = .insert identityId →
        s.taken r.provider r.subject = true)
      (hunlink : ∀ userId identityId, s.phase p = .cleared userId identityId → m ≠ .delete) :
      Effect s p m (s.goTo p x)
  | insert {r : LinkRequest} {identityId : String} (hphase : s.phase p = .subjectFree r)
      (hnew : identityId ∉ s.ids) (hfree : s.taken r.provider r.subject = false) :
      Effect s p (.insert identityId) { s.goTo p (.linked identityId) with
        identities := s.identities ++ [⟨identityId, r.userId, r.provider, r.subject⟩]
        ids := identityId :: s.ids }
  | delete {userId identityId : String} (hphase : s.phase p = .cleared userId identityId) :
      Effect s p .delete { s.goTo p .unlinked with
        identities := s.identities.filter (·.id ≠ identityId) }

theorem eq_of_id (hinv : Inv s) {j : AuthIdentity} (hi : i ∈ s.identities)
    (hj : j ∈ s.identities) (h : i.id = j.id) : i = j :=
  inj_on_of_nodup_map hinv.nodup hi hj h

theorem phaseOk_ensureNoProvider (r : LinkRequest) : PhaseOk s (s.ensureNoProvider r) := by
  unfold Desk.ensureNoProvider
  split <;> trivial

theorem phaseOk_ensureSubjectFree (r : LinkRequest) : PhaseOk s (s.ensureSubjectFree r) := by
  unfold Desk.ensureSubjectFree
  split
  · trivial
  · split <;> trivial

section

variable (hinv : Inv s)
include hinv

theorem phaseOk_own (userId identityId : String) : PhaseOk s (s.own userId identityId) := by
  unfold Desk.own
  split
  · trivial
  next i hfind =>
    split_ifs with huser
    · have hi := mem_of_find?_eq_some hfind
      have hid : i.id = identityId := by simpa using find?_some hfind
      refine ⟨hid ▸ hinv.drawn i hi, fun j hj hjid => ?_⟩
      rw [eq_of_id hinv hj hi (hjid.trans hid.symm)]
      exact huser
    · trivial

theorem step_effect (h : s.step p m = some t) : Effect s p m t := by
  have hok := hinv.phases p
  unfold Desk.step at h
  split at h
  · cases h
    exact .reading (phaseOk_ensureNoProvider _) (by simp) (by simp)
  · cases h
    refine .reading ?_ (by simp) (by simp)
    split
    · trivial
    · exact phaseOk_ensureNoProvider _
  · cases h
    exact .reading (phaseOk_ensureSubjectFree _) (by simp) (by simp)
  next identityId r hphase =>
    split at h
    · cases h
    next hnew =>
      split_ifs at h with htaken
      · cases h
        refine .reading trivial (fun r' _ hphase' _ => ?_) (by simp)
        cases hphase.symm.trans hphase'
        exact htaken
      · cases h
        exact .insert hphase hnew (by simpa using htaken)
  · cases h
    exact .reading (phaseOk_own hinv _ _) (by simp) (by simp)
  next hphase =>
    rw [hphase] at hok
    cases h
    refine .reading ?_ (by simp) (by simp)
    split
    · trivial
    · exact hok
  next hphase =>
    rw [hphase] at hok
    cases h
    refine .reading ?_ (by simp) (by simp)
    split
    · trivial
    · exact hok
  next hphase =>
    cases h
    exact .delete hphase
  · cases h

/-- More than one identity: another one than this. -/
theorem one_lt_identityCount_iff (hi : i ∈ s.identities) : 1 < s.identityCount i.userId ↔
      ∃ j ∈ s.identities, j.userId = i.userId ∧ j.id ≠ i.id := by
  have hnodup : ((s.identities.filter (·.userId = i.userId)).map (·.id)).Nodup :=
    hinv.nodup.sublist (filter_sublist.map _)
  have hself : i ∈ s.identities.filter (·.userId = i.userId) := by simpa using hi
  rw [Desk.identityCount, Rows.one_lt_length_iff hnodup hself]
  simp [and_assoc]

/-- A row is inserted: one of each provider exactly if there was none of this one. -/
theorem keepsWayIn_insert_iff {r : LinkRequest} : KeepsWayIn s { s.goTo p x with
        identities := s.identities ++ [⟨identityId, r.userId, r.provider, r.subject⟩]
        ids := identityId :: s.ids } ↔ s.ofProvider r.userId r.provider = [] := by
  have hnone : s.ofProvider r.userId r.provider = [] ↔
      ∀ i ∈ s.identities, i.userId = r.userId → i.provider ≠ r.provider := by
    simp [Desk.ofProvider, filter_eq_nil_iff]
  rw [hnone]
  constructor
  · intro hkeeps i hi
    have hpairs := pairwise_append.mp hkeeps.single
    exact hpairs.2.2 i hi _ (mem_singleton.mpr rfl)
  · intro hno
    refine ⟨fun userId ⟨i, hi, huser⟩ => ⟨i, mem_append_left _ hi, huser⟩,
      pairwise_append.mpr ⟨hinv.single, pairwise_singleton _ _, ?_⟩⟩
    intro i hi j hj
    rw [mem_singleton.mp hj]
    exact hno i hi

/-- A row is deleted: a way in is left exactly if it was not the only one, or was gone. -/
theorem keepsWayIn_delete_iff {userId : String}
    (hown : ∀ i ∈ s.identities, i.id = identityId → i.userId = userId) :
    KeepsWayIn s { s.goTo p x with identities := s.identities.filter (·.id ≠ identityId) } ↔
      ((∃ i ∈ s.identities, i.id = identityId) → 1 < s.identityCount userId) := by
  have hmem : ∀ i, i ∈ s.identities.filter (·.id ≠ identityId) ↔
      i ∈ s.identities ∧ i.id ≠ identityId := by simp
  constructor
  · rintro hkeeps ⟨i, hi, hid⟩
    have huser := hown i hi hid
    obtain ⟨j, hj, hjuser⟩ := hkeeps.way userId ⟨i, hi, huser⟩
    obtain ⟨hj, hjid⟩ := (hmem j).mp hj
    rw [← huser]
    exact (one_lt_identityCount_iff hinv hi).mpr ⟨j, hj, hjuser.trans huser.symm, hid ▸ hjid⟩
  · intro hcount
    refine ⟨?_, hinv.single.filter _⟩
    rintro user ⟨i, hi, rfl⟩
    by_cases hid : i.id = identityId
    · have hmore := hcount ⟨i, hi, hid⟩
      rw [← hown i hi hid] at hmore
      obtain ⟨j, hj, hjuser, hjid⟩ := (one_lt_identityCount_iff hinv hi).mp hmore
      exact ⟨j, (hmem j).mpr ⟨hj, hid ▸ hjid⟩, hjuser⟩
    · exact ⟨i, (hmem i).mpr ⟨hi, hid⟩, rfl⟩

/-- **An action keeps a way in exactly if what it has asked still stands.** -/
theorem keepsWayInAt_iff_stillStands (h : s.step p m = some t) :
    KeepsWayInAt s p m ↔ StillStands s p m := by
  have hat : KeepsWayInAt s p m ↔ KeepsWayIn s t := by
    simp [KeepsWayInAt, h]
  rw [hat]
  cases step_effect hinv h with
  | reading hx hlink hunlink =>
    refine iff_of_true ⟨fun _ hway => hway, hinv.single⟩ ⟨?_, ?_⟩
    · intro r identityId hphase hm hfree
      rw [hlink r identityId hphase hm] at hfree
      cases hfree
    · exact fun userId identityId hphase hm => absurd hm (hunlink userId identityId hphase)
  | insert hphase hnew hfree =>
    rw [keepsWayIn_insert_iff hinv]
    constructor
    · refine fun hno => ⟨fun r' _ hphase' _ _ => ?_, by simp⟩
      cases hphase.symm.trans hphase'
      exact hno
    · exact fun hstands => hstands.link _ _ hphase rfl hfree
  | delete hphase =>
    have hok := hinv.phases p
    rw [hphase] at hok
    rw [keepsWayIn_delete_iff hinv hok.2]
    constructor
    · refine fun hcount => ⟨by simp, fun userId' identityId' hphase' _ => ?_⟩
      cases hphase.symm.trans hphase'
      exact hcount
    · exact fun hstands => hstands.unlink _ _ hphase rfl

end

theorem phases_update (hphase : t.phase = Function.update s.phase p x)
    (hx : PhaseOk t x) (hrest : ∀ q, PhaseOk t (s.phase q)) (q : ℕ) : PhaseOk t (t.phase q) := by
  rw [hphase]
  exact forall_update (Q := fun _ => PhaseOk t) hx hrest q

/-- A request to unlink stays one for an identity of its user, where new rows have new ids. -/
theorem PhaseOk.mono (h : PhaseOk s x) (hids : ∀ id ∈ s.ids, id ∈ t.ids)
    (hrows : ∀ i ∈ t.identities, i ∈ s.identities ∨ i.id ∉ s.ids) : PhaseOk t x := by
  have hkeep : ∀ userId identityId, (identityId ∈ s.ids ∧
      ∀ i ∈ s.identities, i.id = identityId → i.userId = userId) →
      identityId ∈ t.ids ∧ ∀ i ∈ t.identities, i.id = identityId → i.userId = userId := by
    rintro userId identityId ⟨hdrawn, hown⟩
    refine ⟨hids identityId hdrawn, fun i hi hid => ?_⟩
    obtain hold | hnew := hrows i hi
    · exact hown i hold hid
    · exact absurd (hid ▸ hdrawn) hnew
  cases x with
  | found userId identityId | counted userId identityId | cleared userId identityId =>
    exact hkeep userId identityId h
  | idle | providerFree _ | subjectFree _ | linked _ | unlinked | refused _ => trivial

theorem Inv.step (hinv : Inv s) (hstands : StillStands s p m) (h : s.step p m = some t) :
    Inv t := by
  have hkeeps := (keepsWayInAt_iff_stillStands hinv h).mpr hstands t h
  cases step_effect hinv h with
  | reading hx hlink hunlink => exact { hinv with phases := phases_update rfl hx hinv.phases }
  | @insert r identityId hphase hnew hfree =>
    refine ⟨fun i hi => ?_, ?_, hkeeps.single, phases_update rfl trivial fun q =>
      (hinv.phases q).mono (fun id => mem_cons_of_mem _) fun i hi => ?_⟩
    · obtain hold | hrow := mem_append.mp hi
      · exact mem_cons_of_mem _ (hinv.drawn i hold)
      · rw [mem_singleton.mp hrow]
        exact mem_cons_self
    · have hfresh : identityId ∉ s.identities.map (·.id) := by
        intro hmem
        obtain ⟨i, hi, hid⟩ := mem_map.mp hmem
        exact hnew (hid ▸ hinv.drawn i hi)
      simp only [map_append, map_singleton]
      exact hinv.nodup.append (nodup_singleton _)
        (disjoint_singleton.mpr hfresh)
    · obtain hold | hrow := mem_append.mp hi
      · exact .inl hold
      · rw [mem_singleton.mp hrow]
        exact .inr hnew
  | delete hphase =>
    refine ⟨fun i hi => hinv.drawn i (mem_of_mem_filter hi),
      hinv.nodup.sublist (filter_sublist.map _), hkeeps.single,
      phases_update rfl trivial fun q => (hinv.phases q).mono (fun _ hid => hid) fun i hi =>
        .inl (mem_of_mem_filter hi)⟩

/-- **In a run of requests that overlap every account keeps a way in, and one identity of each
provider, exactly if every write is made while what was asked still stands.** -/
theorem way_in_kept_iff_still_stands (accounts : Accounts) {moves : List (ℕ × Action)} {t : Desk}
    (h : execute Desk.step (Desk.start accounts) moves = some t) :
    Allows Desk.step KeepsWayInAt (Desk.start accounts) moves ↔
      Allows Desk.step StillStands (Desk.start accounts) moves :=
  allows_congr (P := Inv) (fun _ _ _ _ hinv hstep => keepsWayInAt_iff_stillStands hinv hstep)
    (fun _ _ _ _ hinv hstands hstep => hinv.step hstands hstep) (inv_start accounts) h

/-- A user with a local and a directory identity. -/
def twoWays : Accounts where
  identities := [⟨"i1", "alice", .localAccount, "alice"⟩, ⟨"i2", "alice", .ldapAd, "alice"⟩]
  ids := by decide
  single := by simp [OnePerProvider]

def nobody : Rbac := { oneAdmin with userRoles := [] }

/-- A provider is linked, then another identity is unlinked. -/
def inTurn : List (ℕ × Action) :=
  [(0, .linkExternal "alice" .entraOidc "sub-1"), (0, .checkSubject), (0, .insert "i3"),
    (1, .unlink "alice" "i2"), (1, .count), (1, .checkAdmin nobody), (1, .delete)]

/-- What does not write has nothing to stand for. -/
theorem stillStands_of_reading (hinsert : ∀ id, m ≠ .insert id)
    (hdelete : m ≠ .delete) : StillStands s p m :=
  ⟨fun _ id _ hm => absurd hm (hinsert id), fun _ _ _ hm => absurd hm hdelete⟩

theorem in_turn_kept : Allows Desk.step KeepsWayInAt (Desk.start twoWays) inTurn := by
  refine (way_in_kept_iff_still_stands twoWays rfl).mpr
    ⟨stillStands_of_reading (by simp) (by simp), stillStands_of_reading (by simp) (by simp),
      ⟨?_, ?_⟩, stillStands_of_reading (by simp) (by simp),
      stillStands_of_reading (by simp) (by simp), stillStands_of_reading (by simp) (by simp),
      ⟨?_, ?_⟩, trivial⟩
  · intro r identityId hphase _ _
    cases hphase
    rfl
  · intro userId identityId hphase
    cases hphase
  · intro r identityId hphase
    cases hphase
  · intro userId identityId hphase _ _
    cases hphase
    decide

/-- Two requests unlink the two identities. -/
def bothUnlinked : List (ℕ × Action) :=
  [(0, .unlink "alice" "i1"), (1, .unlink "alice" "i2"), (0, .count), (1, .count),
    (0, .checkAdmin nobody), (1, .checkAdmin nobody), (0, .delete), (1, .delete)]

/-- Two requests link an identity of one provider. -/
def bothLinked : List (ℕ × Action) :=
  [(0, .linkExternal "alice" .entraOidc "sub-1"), (1, .linkExternal "alice" .entraOidc "sub-2"),
    (0, .checkSubject), (1, .checkSubject), (0, .insert "i3"), (1, .insert "i4")]

/-- The account is left without a way in, or with two identities of one provider. -/
theorem locked_out_and_doubled :
    (execute Desk.step (Desk.start twoWays) bothUnlinked).map (·.identities.length) = some 0 ∧
    (execute Desk.step (Desk.start twoWays) bothLinked).map
      (fun t => (t.ofProvider "alice" .entraOidc).map (·.subject)) = some ["sub-1", "sub-2"] ∧
    ¬ Allows Desk.step KeepsWayInAt (Desk.start twoWays) bothUnlinked ∧
    ¬ Allows Desk.step KeepsWayInAt (Desk.start twoWays) bothLinked := by
  refine ⟨rfl, rfl, fun h => ?_, fun h => ?_⟩
  · obtain ⟨-, -, -, -, -, -, -, hlast, -⟩ := h
    obtain ⟨i, hi, -⟩ := (hlast _ rfl).way "alice"
      ⟨⟨"i2", "alice", .ldapAd, "alice"⟩, mem_singleton.mpr rfl, rfl⟩
    exact absurd hi (by simp [Desk.goTo, twoWays, Desk.start])
  · obtain ⟨-, -, -, -, -, hlast, -⟩ := h
    have hsingle := (hlast _ rfl).single
    simp [OnePerProvider, Desk.goTo, twoWays, Desk.start] at hsingle

end BbzPlatform.Access.Linking
