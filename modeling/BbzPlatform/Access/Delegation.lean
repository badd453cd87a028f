import BbzPlatform.Access.Grants
import BbzPlatform.Lib.Histories

/-!
# Lending permissions

A user lends a permission to another for a time.  Lending asks for the permission without a scope,
and the lender names the scope of the loan; the loan has no condition, and it is a grant that can be
lent on.  So the scope of a loan is not bounded by what the lender holds.

Where every lender holds the permission in the scope of the loan or globally, nothing is widened:
whatever the loan covers is covered by the lender's grants at that time, and every chain of loans
starts at a role that granted what its last link lends.
-/

namespace BbzPlatform.Access

open Relation

/-- Why a delegation is refused. -/
inductive DelegationError where
  | unknownKey (key : String)
  | unknownScope (scope : String)
  | notInTheFuture
  | toYourself
  | notDelegatorsToGive (key : String)
  | integrity
  deriving DecidableEq

/-- What is to be lent. -/
structure DelegationRequest where
  fromUserId : String
  toUserId : String
  permissionKey : String
  expiresAt : ℤ
  scope : String

/-- `DelegationService.delegate`.  The database refuses users that are gone. -/
def delegate (env : Policy) (t : Rbac) (now : ℤ) (freshId : String) (r : DelegationRequest) :
    Except DelegationError PermissionDelegation :=
  match assertKnown r.permissionKey, Scope.ofText r.scope with
  | .error _, _ => .error (.unknownKey r.permissionKey)
  | .ok _, none => .error (.unknownScope r.scope)
  | .ok _, some scope =>
    if r.expiresAt ≤ now then .error .notInTheFuture
    else if r.fromUserId = r.toUserId then .error .toYourself
    else
      match authorize env t now r.fromUserId r.permissionKey with
      | .ok true =>
        if t.users.any (·.id = r.fromUserId) && t.users.any (·.id = r.toUserId) then
          .ok ⟨freshId, r.fromUserId, r.toUserId, r.permissionKey, scope, now, r.expiresAt,
            none⟩
        else .error .integrity
      | _ => .error (.notDelegatorsToGive r.permissionKey)

/-- `DelegationService.revoke`. -/
def revoke (t : Rbac) (now : ℤ) (id : String) : Option Rbac :=
  if t.delegations.any (·.id = id) then
    some { t with delegations := t.delegations.map fun d =>
      if d.id = id ∧ d.revokedAt = none then { d with revokedAt := some now } else d }
  else none

/-! ## Runs -/

/-- A loan with the tables and the time of lending. -/
structure Loan where
  rbac : Rbac
  now : ℤ
  row : PermissionDelegation

/-- The tables and all that was ever lent. -/
structure World where
  rbac : Rbac
  lent : List Loan

/-- Somebody changes users, roles or groups, lends, or takes back. -/
inductive Move where
  | edit (tables : Rbac)
  | delegate (now : ℤ) (freshId : String) (r : DelegationRequest)
  | revoke (now : ℤ) (id : String)

namespace World

/-- Nothing has been lent. -/
def start (t : Rbac) : World := ⟨{ t with delegations := [] }, []⟩

/-- What a move does; a refused one changes nothing. -/
def step (env : Policy) (w : World) : Move → World
  | .edit tables => { w with rbac := { tables with delegations := w.rbac.delegations } }
  | .delegate now freshId r =>
    match Access.delegate env w.rbac now freshId r with
    | .error _ => w
    | .ok row =>
      ⟨{ w.rbac with delegations := w.rbac.delegations ++ [row] },
        w.lent ++ [⟨w.rbac, now, row⟩]⟩
  | .revoke now id =>
    match Access.revoke w.rbac now id with
    | none => w
    | some rbac => { w with rbac }

def run (env : Policy) (w : World) (moves : List Move) : World := moves.foldl (step env) w

end World

/-! ## What a loan may cover -/

section Width

variable (env : Policy)

/-- Wherever and whenever the loan resolves, a grant that the lender had when lending covers the
same. -/
def NotWider (loan : Loan) : Prop :=
  ∀ (ctx : ScopeContext) (time : ℤ), time < loan.row.expiresAt →
    grantResolves env time loan.row.grant ctx →
    ∃ g ∈ loan.rbac.grantsForUser loan.now loan.row.fromUserId,
      g.permissionKey = loan.row.permissionKey ∧ grantResolves env loan.now g ctx

def Scope.Fits (scope : Scope) (g : Grant) : Prop := g.scope = scope ∨ g.scope = .global

/-- A user has a grant of the permission, in force and in the scope or global. -/
def HasFitting (t : Rbac) (now : ℤ) (userId key : String) (scope : Scope) : Prop :=
  ∃ g ∈ t.grantsForUser now userId,
    g.permissionKey = key ∧ conditionAllows env now g ∧ scope.Fits g

/-- What was lent is the lender's own. -/
def Loan.Own (loan : Loan) : Prop :=
  HasFitting env loan.rbac loan.now loan.row.fromUserId loan.row.permissionKey loan.row.scope

/-- What the service asks of a request, with the scope that its text names. -/
structure Granted (t : Rbac) (now : ℤ) (r : DelegationRequest) (scope : Scope) : Prop where
  known : r.permissionKey ∈ permissionKeys
  named : Scope.ofText r.scope = some scope
  future : now < r.expiresAt
  other : r.fromUserId ≠ r.toUserId
  holds : authorize env t now r.fromUserId r.permissionKey = .ok true
  users : t.users.any (·.id = r.fromUserId) && t.users.any (·.id = r.toUserId)

/-- A request to lend that is granted is for a scope in which the lender holds the permission. -/
def Move.LendsOwn (w : World) : Move → Prop
  | .delegate now _ r => ∀ scope, Granted env w.rbac now r scope →
      HasFitting env w.rbac now r.fromUserId r.permissionKey scope
  | .edit _ | .revoke _ _ => True

/-- So it is with every request of a run. -/
def LendOwn : World → List Move → Prop :=
  Histories.Along (World.step env) fun w m => m.LendsOwn env w

/-- The second loan passes on the permission of the first. -/
def PassedOn (a b : Loan) : Prop :=
  a.row.toUserId = b.row.fromUserId ∧ a.row.permissionKey = b.row.permissionKey

/-- A role of the lender grants the permission in a scope or globally. -/
def RoleGrants (loan : Loan) (scope : Scope) : Prop :=
  ∃ g ∈ loan.rbac.roleGrants loan.now loan.row.fromUserId,
    g.permissionKey = loan.row.permissionKey ∧ conditionAllows env loan.now g ∧ scope.Fits g

/-- At the start of a chain of loans that ends in this one, a role granted what it lends. -/
def ChainHad (lent : List Loan) (loan : Loan) : Prop :=
  ∃ first ∈ lent, ReflTransGen (fun a b => a ∈ lent ∧ PassedOn a b) first loan ∧
    RoleGrants env first loan.row.scope

end Width

/-! ## One loan -/

variable {env : Policy} {now : ℤ} {row : PermissionDelegation} {w : World} {lent lent' : List Loan}
  {loan : Loan}

/-- For every scope there is an action that no other scope covers, except globally. -/
theorem exists_only_covered (scope : Scope) :
    ∃ ctx, scopeCovers scope ctx = true ∧
      ∀ scope', scopeCovers scope' ctx = true → scope' = scope ∨ scope' = .global := by
  cases scope with
  | global =>
    refine ⟨⟨"", none, none, none, none, none, none, none, none⟩, rfl, fun scope' => ?_⟩
    cases scope' <;> decide
  | region =>
    refine ⟨⟨"", some "", none, none, some "", none, none, none, none⟩, by decide,
      fun scope' => ?_⟩
    cases scope' <;> decide
  | bbz =>
    refine ⟨⟨"", none, some "", none, none, some "", none, none, none⟩, by decide,
      fun scope' => ?_⟩
    cases scope' <;> decide
  | workplace =>
    refine ⟨⟨"", none, none, some "", none, none, some "", none, none⟩, by decide,
      fun scope' => ?_⟩
    cases scope' <;> decide
  | ownEvents =>
    refine ⟨⟨"", none, none, none, none, none, none, some "", none⟩, by decide,
      fun scope' => ?_⟩
    cases scope' <;> decide
  | assignedEvents =>
    refine ⟨⟨"", none, none, none, none, none, none, none, some ""⟩, by decide,
      fun scope' => ?_⟩
    cases scope' <;> decide

/-- **A loan widens nothing exactly if its lender holds what it lends.** -/
theorem notWider_iff_own (loan : Loan) : NotWider env loan ↔ loan.Own env := by
  constructor
  · intro h
    obtain ⟨ctx, hcovers, honly⟩ := exists_only_covered loan.row.scope
    have hresolves : grantResolves env (loan.row.expiresAt - 1) loan.row.grant ctx = true := by
      rw [grantResolves, conditionAllows_lent, Bool.and_true]
      exact hcovers
    obtain ⟨g, hg, hkey, hgrant⟩ := h ctx _ (by omega) hresolves
    rw [grantResolves, Bool.and_eq_true] at hgrant
    exact ⟨g, hg, hkey, hgrant.2, honly g.scope hgrant.1⟩
  · rintro ⟨g, hg, hkey, hallows, hfits⟩ ctx time - hresolves
    rw [grantResolves, Bool.and_eq_true] at hresolves
    refine ⟨g, hg, hkey, ?_⟩
    rw [grantResolves, hallows, Bool.and_true]
    obtain hscope | hglobal := hfits
    · rw [hscope]
      exact hresolves.1
    · rw [hglobal]
      rfl

theorem delegate_ok_iff {t : Rbac} {freshId : String} {r : DelegationRequest} :
    delegate env t now freshId r = .ok row ↔ ∃ scope, Granted env t now r scope ∧
      row = ⟨freshId, r.fromUserId, r.toUserId, r.permissionKey, scope, now, r.expiresAt,
        none⟩ := by
  constructor
  · intro h
    unfold delegate assertKnown at h
    split at h
    · cases h
    · cases h
    next scope hknown hnamed =>
      have hkey : permissionKeys.contains r.permissionKey = true := by
        by_contra hno
        rw [if_neg hno] at hknown
        cases hknown
      split_ifs at h with hfuture hother husers
      · split at h
        next hholds =>
          cases h
          exact ⟨scope, ⟨by simpa using hkey, hnamed, by omega, hother, hholds, husers⟩, rfl⟩
        · cases h
      · split at h <;> cases h
  · rintro ⟨scope, ⟨hknown, hnamed, hfuture, hother, hholds, husers⟩, rfl⟩
    have hkey : assertKnown r.permissionKey = .ok () := if_pos (by simpa using hknown)
    simp only [delegate, hkey, hnamed, hholds, if_neg (Int.not_le.mpr hfuture), if_neg hother,
      if_pos husers]

/-! ## Chains of loans -/

/-- The row is one that was lent, up to its revocation. -/
def Recorded (lent : List Loan) (d : PermissionDelegation) : Prop :=
  ∃ a ∈ lent, a.row.toUserId = d.toUserId ∧ a.row.permissionKey = d.permissionKey ∧
    a.row.scope = d.scope

theorem ChainHad.mono (h : ChainHad env lent loan) (hsub : ∀ a ∈ lent, a ∈ lent') :
    ChainHad env lent' loan := by
  obtain ⟨first, hfirst, hchain, hrole⟩ := h
  exact ⟨first, hsub first hfirst,
    ReflTransGen.mono (fun a b hab => ⟨hsub a hab.1, hab.2⟩) _ _ hchain, hrole⟩

/-- What the tables and the loans of a run have in common. -/
structure World.Sound (env : Policy) (w : World) : Prop where
  recorded : ∀ d ∈ w.rbac.delegations, Recorded w.lent d
  chains : ∀ loan ∈ w.lent, ChainHad env w.lent loan

/-- A loan of what the lender holds continues a chain or starts one. -/
theorem World.Sound.chainHad (h : w.Sound env) (hown : Loan.Own env ⟨w.rbac, now, row⟩) :
    ChainHad env (w.lent ++ [⟨w.rbac, now, row⟩]) ⟨w.rbac, now, row⟩ := by
  obtain ⟨g, hg, hkey, hallows, hfits⟩ := hown
  obtain hrole | hloan := List.mem_append.mp hg
  · exact ⟨_, by simp, .refl, g, hrole, hkey, hallows, hfits⟩
  · -- the lender passes on a loan, whose chain has the role
    obtain ⟨d, hd, hto, -, rfl⟩ := mem_lentGrants.mp hloan
    obtain ⟨a, ha, hato, hakey, hascope⟩ := h.recorded d hd
    obtain ⟨first, hfirst, hchain, g', hg', hkey', hallows', hfits'⟩ := h.chains a ha
    have hmono : ReflTransGen
        (fun x y => x ∈ w.lent ++ [⟨w.rbac, now, row⟩] ∧ PassedOn x y) first a :=
      ReflTransGen.mono (fun x y hxy => ⟨List.mem_append_left _ hxy.1, hxy.2⟩) _ _ hchain
    refine ⟨first, List.mem_append_left _ hfirst,
      hmono.tail ⟨List.mem_append_left _ ha, hato.trans hto, hakey.trans hkey⟩,
      g', hg', hkey', hallows', ?_⟩
    obtain hsame | hglobal := hfits'
    · obtain hscope | hscope := hfits
      · exact .inl (hsame.trans (hascope.trans hscope))
      · exact .inr (hsame.trans (hascope.trans hscope))
    · exact .inr hglobal

/-- What a move does to the loans and the rows. -/
theorem step_cases (env : Policy) (w : World) (m : Move) : ((w.step env m).lent = w.lent ∧
        ∀ d ∈ (w.step env m).rbac.delegations, ∃ d' ∈ w.rbac.delegations,
          d'.toUserId = d.toUserId ∧ d'.permissionKey = d.permissionKey ∧ d'.scope = d.scope) ∨
      ∃ now row, (w.step env m).lent = w.lent ++ [⟨w.rbac, now, row⟩] ∧
        (w.step env m).rbac.delegations = w.rbac.delegations ++ [row] := by
  have hkept : ∀ d ∈ w.rbac.delegations, ∃ d' ∈ w.rbac.delegations,
      d'.toUserId = d.toUserId ∧ d'.permissionKey = d.permissionKey ∧ d'.scope = d.scope :=
    fun d hd => ⟨d, hd, rfl, rfl, rfl⟩
  cases m with
  | edit tables => exact .inl ⟨rfl, hkept⟩
  | delegate now freshId r =>
    cases hrow : Access.delegate env w.rbac now freshId r with
    | error e =>
      simp only [World.step, hrow]
      exact .inl ⟨trivial, hkept⟩
    | ok row =>
      simp only [World.step, hrow]
      exact .inr ⟨now, row, rfl, rfl⟩
  | revoke now id =>
    by_cases hid : w.rbac.delegations.any (·.id = id) = true
    · simp only [World.step, Access.revoke, if_pos hid]
      refine .inl ⟨trivial, fun d hd => ?_⟩
      obtain ⟨d', hd', rfl⟩ := List.mem_map.mp hd
      refine ⟨d', hd', ?_⟩
      split <;> exact ⟨rfl, rfl, rfl⟩
    · simp only [World.step, Access.revoke, if_neg hid]
      exact .inl ⟨trivial, hkept⟩

theorem World.Sound.step (h : w.Sound env) {m : Move}
    (hown : ∀ loan ∈ (w.step env m).lent, loan.Own env) : (w.step env m).Sound env := by
  obtain ⟨hlent, hrows⟩ | ⟨now, row, hlent, hrows⟩ := step_cases env w m
  · refine ⟨fun d hd => ?_, by rw [hlent]; exact h.chains⟩
    obtain ⟨d', hd', hto, hkey, hscope⟩ := hrows d hd
    obtain ⟨a, ha, hato, hakey, hascope⟩ := h.recorded d' hd'
    rw [hlent]
    exact ⟨a, ha, hato.trans hto, hakey.trans hkey, hascope.trans hscope⟩
  · have hnew := h.chainHad (hown ⟨w.rbac, now, row⟩ (by simp [hlent]))
    refine ⟨?_, ?_⟩
    · rw [hlent, hrows]
      refine List.forall_mem_append.mpr ⟨fun d hd => ?_,
        List.forall_mem_singleton.mpr
          ⟨_, List.mem_append_right _ List.mem_cons_self, rfl, rfl, rfl⟩⟩
      obtain ⟨a, ha, hsame⟩ := h.recorded d hd
      exact ⟨a, List.mem_append_left _ ha, hsame⟩
    · rw [hlent]
      exact List.forall_mem_append.mpr ⟨fun loan hold => (h.chains loan hold).mono fun a ha =>
        List.mem_append_left _ ha, List.forall_mem_singleton.mpr hnew⟩

theorem lent_subset_step (m : Move) : ∀ loan ∈ w.lent, loan ∈ (w.step env m).lent := by
  intro loan hloan
  obtain ⟨hlent, -⟩ | ⟨now, row, hlent, -⟩ := step_cases env w m
  · rwa [hlent]
  · rw [hlent]
    exact List.mem_append_left _ hloan

theorem lent_subset_run (moves : List Move) : ∀ loan ∈ w.lent, loan ∈ (w.run env moves).lent := by
  induction moves generalizing w with
  | nil => exact fun _ h => h
  | cons m moves ih => exact fun loan h => ih loan (lent_subset_step m loan h)

theorem World.Sound.run (moves : List Move) (h : w.Sound env)
    (hown : ∀ loan ∈ (w.run env moves).lent, loan.Own env) : (w.run env moves).Sound env := by
  induction moves generalizing w with
  | nil => exact h
  | cons m moves ih =>
    exact ih (h.step fun loan hloan => hown loan (lent_subset_run moves loan hloan)) hown

theorem own_step_iff (m : Move) : (∀ loan ∈ (w.step env m).lent, loan.Own env) ↔
    (∀ loan ∈ w.lent, loan.Own env) ∧ m.LendsOwn env w := by
  cases m with
  | edit tables => exact (and_iff_left trivial).symm
  | delegate now freshId r =>
    cases hrow : Access.delegate env w.rbac now freshId r with
    | error e =>
      have hrefused : (Move.delegate now freshId r).LendsOwn env w := by
        intro scope hgranted
        rw [delegate_ok_iff.mpr ⟨scope, hgranted, rfl⟩] at hrow
        cases hrow
      simp only [World.step, hrow, hrefused, and_true]
    | ok row =>
      obtain ⟨scope, hgranted, rfl⟩ := delegate_ok_iff.mp hrow
      have honly : (Move.delegate now freshId r).LendsOwn env w ↔
          HasFitting env w.rbac now r.fromUserId r.permissionKey scope := by
        refine ⟨fun h => h scope hgranted, fun h scope' hgranted' => ?_⟩
        rwa [Option.some.inj (hgranted'.named.symm.trans hgranted.named)]
      rw [honly]
      simp only [World.step, hrow, List.forall_mem_append, List.forall_mem_singleton, Loan.Own]
  | revoke now id =>
    have hlent : (w.step env (.revoke now id)).lent = w.lent := by
      unfold World.step
      dsimp only
      split <;> rfl
    rw [hlent]
    exact (and_iff_left trivial).symm

theorem own_run_iff (moves : List Move) : (∀ loan ∈ (w.run env moves).lent, loan.Own env) ↔
    (∀ loan ∈ w.lent, loan.Own env) ∧ LendOwn env w moves := by
  induction moves generalizing w with
  | nil => exact (and_iff_left trivial).symm
  | cons m moves ih =>
    calc (∀ loan ∈ ((w.step env m).run env moves).lent, loan.Own env)
      _ ↔ (∀ loan ∈ (w.step env m).lent, loan.Own env) ∧ LendOwn env (w.step env m) moves := ih
      _ ↔ (∀ loan ∈ w.lent, loan.Own env) ∧ LendOwn env w (m :: moves) := by
          rw [own_step_iff, and_assoc]
          rfl

/-- Of all that was lent in a run, nothing covers more than the lender's grants did, and for
everything a role at the start of its chain granted it. -/
structure NeverWidens (env : Policy) (w : World) : Prop where
  lender : ∀ loan ∈ w.lent, NotWider env loan
  chain : ∀ loan ∈ w.lent, ChainHad env w.lent loan

/-- **Delegation never widens rights in a run exactly if every request that is granted is for a
scope in which the lender holds the permission, or the lender holds it globally.** -/
theorem never_widens_iff_lend_own (env : Policy) (t : Rbac) (moves : List Move) :
    NeverWidens env ((World.start t).run env moves) ↔ LendOwn env (World.start t) moves := by
  have hnone : ∀ loan ∈ (World.start t).lent, loan.Own env := by simp [World.start]
  have hown : _ ↔ _ ∧ LendOwn env (World.start t) moves := own_run_iff moves
  constructor
  · exact fun h => (hown.mp fun loan hloan => (notWider_iff_own loan).mp (h.lender loan hloan)).2
  · intro h
    have hstart : (World.start t).Sound env := ⟨by simp [World.start], by simp [World.start]⟩
    have hlent := hown.mpr ⟨hnone, h⟩
    exact ⟨fun loan hloan => (notWider_iff_own loan).mpr (hlent loan hloan),
      (hstart.run moves hlent).chains⟩

/-- One user may view events of the own BBZ, another has nothing. -/
def viewer : Rbac where
  users := [⟨"alice", "Alice", .active⟩, ⟨"bob", "Bob", .active⟩]
  permissions := permissionKeys
  roles := [⟨"viewers", "viewer", false⟩]
  rolePermissions := [⟨"viewers", "events.view", .bbz, none⟩]
  userRoles := [⟨"alice", "viewers", none, none⟩]
  groupRoles := []
  userGroups := []
  delegations := []

/-- The permission is lent globally. -/
def lendGlobally : List Move :=
  [.delegate 0 "d1" ⟨"alice", "bob", "events.view", 10, "global"⟩]

/-- Who may view events of the own BBZ lends the right to view all. -/
theorem bbz_lent_globally :
    let clock : Policy := ⟨false, fun _ => 0, fun _ => 0, fun _ => ""⟩
    (((World.start viewer).run clock lendGlobally).rbac.grantsForUser 0 "bob").map (·.scope)
        = [.global] ∧
      ¬ NeverWidens clock ((World.start viewer).run clock lendGlobally) := by
  refine ⟨by decide, fun h => ?_⟩
  obtain ⟨g, hg, hkey, hresolves⟩ := h.lender _ (List.mem_singleton.mpr rfl)
    ⟨"bob", none, none, none, none, none, none, none, none⟩ 0 (by decide) (by decide)
  have hscope : ∀ g ∈ viewer.grantsForUser 0 "alice", g.scope = .bbz := by decide
  rw [grantResolves, hscope g hg] at hresolves
  cases hresolves

end BbzPlatform.Access
