import BbzPlatform.Access.Admin
import BbzPlatform.Lib.Histories

/-!
# Roles from the groups of a directory

A mapping says that membership in a group of a provider grants a role.  At each login through the
provider the roles of the user are reconciled with the groups: `external_role_assignments` records
which roles a provider has granted, and `user_roles` holds the roles themselves.

A row of `user_roles` can have several reasons: an administrator, and every provider that grants the
role.  Reconciling takes the row away with the last group of one provider, whatever other reason
there is, and does not put back a row that was revoked by hand.  The roles are exact in a history if
and only if neither comes to pass.
-/

namespace BbzPlatform.Access

open List

/-! ## Tables -/

/-- A row of `auth_group_mappings`. -/
structure AuthGroupMapping where
  provider : String
  externalGroup : String
  roleKey : String

/-- A row of `external_role_assignments`. -/
structure ExternalRoleAssignment where
  userId : String
  roleId : String
  provider : String
  deriving DecidableEq

structure MappedTables where
  rbac : Rbac
  mappings : List AuthGroupMapping
  assignments : List ExternalRoleAssignment

namespace MappedTables

variable (t : MappedTables)

/-- `_roles_for_groups`. -/
def rolesForGroups (provider : String) (groups : List String) : List String :=
  (t.mappings.filter fun m => m.provider = provider && groups.contains m.externalGroup).map
    (·.roleKey)

/-- `_role_key_index`, at a key. -/
def roleKeyIndex (key : String) : Option String :=
  (t.rbac.roles.reverse.find? (·.key = key)).map (·.id)

/-- `_role_ids`. -/
def roleIds (keys : List String) : List String := (keys.filterMap t.roleKeyIndex).dedup

/-- The roles that groups of a provider stand for. -/
def wantedIds (provider : String) (groups : List String) : List String :=
  t.roleIds (t.rolesForGroups provider groups)

/-- The roles that a provider has granted. -/
def currentIds (userId provider : String) : List String :=
  (t.assignments.filter fun a => a.userId = userId && a.provider = provider).map (·.roleId)

/-- Grant a role; a row of `user_roles` that is there stays as it is. -/
def grantMapped (userId provider : String) (roleId : String) : MappedTables :=
  let userRoles :=
    if t.rbac.assigned userId roleId then t.rbac.userRoles
    else t.rbac.userRoles ++ [⟨userId, roleId, none, none⟩]
  { t with
    rbac := { t.rbac with userRoles }
    assignments := t.assignments ++ [⟨userId, roleId, provider⟩] }

/-- Take a role away, with its row of `user_roles`. -/
def revokeMapped (userId provider : String) (roleId : String) : MappedTables :=
  let userRoles := t.rbac.userRoles.filter fun ur => !(ur.userId = userId && ur.roleId = roleId)
  { t with
    rbac := { t.rbac with userRoles }
    assignments := t.assignments.filter (· ≠ ⟨userId, roleId, provider⟩) }

/-- `sync_user_roles`. -/
def syncUserRoles (userId provider : String) (groups : List String) :
    Except AdminError MappedTables :=
  let wanted := t.wantedIds provider groups
  let current := t.currentIds userId provider
  let toAdd := wanted.filter (· ∉ current)
  let toRemove := current.filter (· ∉ wanted)
  if !toAdd.isEmpty && !t.rbac.users.any (·.id = userId) then .error .integrity
  else
    let granted := toAdd.foldl (fun t roleId => t.grantMapped userId provider roleId) t
    .ok (toRemove.foldl (fun t roleId => t.revokeMapped userId provider roleId) granted)

end MappedTables

/-! ## Histories -/

/-- The tables, the roles that are given by hand, and the groups each provider has last named for a
user. -/
structure RoleHistory where
  tables : MappedTables
  manual : List (String × String)
  last : String → String → List String

/-- A change of the roles of a user. -/
inductive RoleEvent where
  | assign (userId roleId : String) (validFrom validTo : Option ℤ)
  | revoke (userId roleId : String)
  | sync (userId provider : String) (groups : List String)

namespace RoleHistory

variable (h : RoleHistory)

/-- No provider has granted anything; what there is was given by hand. -/
def start (rbac : Rbac) (mappings : List AuthGroupMapping) : RoleHistory :=
  ⟨⟨rbac, mappings, []⟩, rbac.userRoles.map fun ur => (ur.userId, ur.roleId), fun _ _ => []⟩

/-- The groups after a login. -/
def named (userId provider : String) (groups : List String) : String → String → List String :=
  fun userId' provider' =>
    if userId' = userId ∧ provider' = provider then groups else h.last userId' provider'

/-- A change is made, unless it is refused. -/
def step (e : RoleEvent) : RoleHistory :=
  match e with
  | .assign userId roleId validFrom validTo =>
    match h.tables.rbac.assignUserRole userId roleId validFrom validTo with
    | .error _ => h
    | .ok rbac => { h with
        tables := { h.tables with rbac }
        manual := (userId, roleId) :: h.manual }
  | .revoke userId roleId =>
    match h.tables.rbac.revokeUserRole userId roleId with
    | .error _ => h
    | .ok rbac => { h with
        tables := { h.tables with rbac }
        manual := h.manual.filter (· ≠ (userId, roleId)) }
  | .sync userId provider groups =>
    match h.tables.syncUserRoles userId provider groups with
    | .error _ => h
    | .ok tables => { h with tables, last := h.named userId provider groups }

/-- A provider grants a role through the groups it has last named. -/
def Grants (userId provider roleId : String) : Prop :=
  roleId ∈ h.tables.wantedIds provider (h.last userId provider)

/-- The roles of a user are those given by hand and those that providers grant. -/
def Exact (userId : String) : Prop :=
  ∀ roleId, h.tables.rbac.assigned userId roleId = true ↔
    (userId, roleId) ∈ h.manual ∨ ∃ provider, h.Grants userId provider roleId

/-- They are after a reconciliation that is not refused. -/
def ExactAfter (e : RoleEvent) : Prop :=
  ∀ userId provider groups tables, e = .sync userId provider groups →
    h.tables.syncUserRoles userId provider groups = .ok tables → (h.step e).Exact userId

/-- The user exists, or the groups bring nothing new. -/
def Accepts (userId provider : String) (groups : List String) : Prop :=
  (∃ u ∈ h.tables.rbac.users, u.id = userId) ∨
    ∀ roleId ∈ h.tables.wantedIds provider groups, h.Grants userId provider roleId

/-- A role that the provider takes away is not given by hand and not granted by another provider. -/
def FreeToRemove (userId provider : String) (groups : List String) : Prop :=
  ∀ roleId, h.Grants userId provider roleId → roleId ∉ h.tables.wantedIds provider groups →
    (userId, roleId) ∉ h.manual ∧
      ∀ other, other ≠ provider → ¬ h.Grants userId other roleId

/-- A role that is granted afterwards has its row, or the provider grants it anew. -/
def NothingMissing (userId provider : String) (groups : List String) : Prop :=
  ∀ roleId other, roleId ∈ h.tables.wantedIds other (h.named userId provider groups userId other) →
    h.tables.rbac.assigned userId roleId = true ∨
      roleId ∈ h.tables.wantedIds provider groups ∧ ¬ h.Grants userId provider roleId

/-- What a reconciliation needs to be exact. -/
def Reconcilable (e : RoleEvent) : Prop :=
  ∀ userId provider groups, e = .sync userId provider groups → h.Accepts userId provider groups →
    h.FreeToRemove userId provider groups ∧ h.NothingMissing userId provider groups

end RoleHistory

/-! ## One reconciliation -/

variable {t t' tables : MappedTables} {userId provider roleId roleId' userId' other : String}
  {groups : List String} {rbac : Rbac}

theorem assigned_append {row : UserRole} :
    Rbac.assigned { rbac with userRoles := rbac.userRoles ++ [row] } userId roleId = true ↔
      rbac.assigned userId roleId = true ∨ userId = row.userId ∧ roleId = row.roleId := by
  simp [assigned_iff, eq_comm (a := userId), eq_comm (a := roleId)]

theorem assigned_grantMapped :
    (t.grantMapped userId provider roleId).rbac.assigned userId' roleId' = true ↔
      t.rbac.assigned userId' roleId' = true ∨ userId' = userId ∧ roleId' = roleId := by
  unfold MappedTables.grantMapped
  cases hheld : t.rbac.assigned userId roleId with
  | true =>
    refine (or_iff_left_of_imp ?_).symm
    rintro ⟨rfl, rfl⟩
    exact hheld
  | false => exact assigned_append

/-- The row of one role of one user is deleted. -/
theorem assigned_without : Rbac.assigned { rbac with
        userRoles := rbac.userRoles.filter fun ur => !(ur.userId = userId && ur.roleId = roleId) }
        userId' roleId' = true ↔
      rbac.assigned userId' roleId' = true ∧ ¬ (userId' = userId ∧ roleId' = roleId) := by
  simp only [assigned_iff, mem_filter, Bool.not_eq_true', Bool.and_eq_false_imp,
    decide_eq_true_eq, decide_eq_false_iff_not]
  constructor
  · rintro ⟨ur, ⟨hmem, hkept⟩, rfl, rfl⟩
    exact ⟨⟨ur, hmem, rfl, rfl⟩, fun hsame => hkept hsame.1 hsame.2⟩
  · rintro ⟨⟨ur, hmem, rfl, rfl⟩, hkept⟩
    exact ⟨ur, ⟨hmem, fun huser hrole => hkept ⟨huser, hrole⟩⟩, rfl, rfl⟩

/-- What a reconciliation leaves, role by role. -/
structure Synced (t t' : MappedTables) (userId provider : String) (toAdd toRemove : List String) :
    Prop where
  mappings : t'.mappings = t.mappings
  roles : t'.rbac.roles = t.rbac.roles
  users : t'.rbac.users = t.rbac.users
  assigned : ∀ userId' roleId, t'.rbac.assigned userId' roleId = true ↔
    (t.rbac.assigned userId' roleId = true ∨ userId' = userId ∧ roleId ∈ toAdd) ∧
      ¬ (userId' = userId ∧ roleId ∈ toRemove)
  assignments : ∀ a, a ∈ t'.assignments ↔
    (a ∈ t.assignments ∨ ∃ roleId ∈ toAdd, a = ⟨userId, roleId, provider⟩) ∧
      ¬ ∃ roleId ∈ toRemove, a = ⟨userId, roleId, provider⟩

theorem Synced.granting (toAdd : List String) :
    Synced t (toAdd.foldl (fun t roleId => t.grantMapped userId provider roleId) t) userId provider
      toAdd [] := by
  induction toAdd generalizing t with
  | nil => exact ⟨rfl, rfl, rfl, by simp, by simp⟩
  | cons roleId rest ih =>
    have hrest := ih (t := t.grantMapped userId provider roleId)
    refine ⟨hrest.mappings, hrest.roles, hrest.users, fun userId' roleId' => ?_, fun a => ?_⟩
    · rw [foldl_cons, hrest.assigned, assigned_grantMapped]
      simp [or_assoc, ← and_or_left]
    · rw [foldl_cons, hrest.assignments]
      simp [MappedTables.grantMapped, or_assoc]

/-- What is gone already stays gone. -/
theorem Synced.removing {start : MappedTables} {toAdd gone : List String} (toRemove : List String)
    (h : Synced start t userId provider toAdd gone) :
    Synced start (toRemove.foldl (fun t roleId => t.revokeMapped userId provider roleId) t) userId
      provider toAdd (gone ++ toRemove) := by
  induction toRemove generalizing t gone with
  | nil => rwa [append_nil]
  | cons roleId rest ih =>
    have hone : Synced start (t.revokeMapped userId provider roleId) userId provider toAdd
        (gone ++ [roleId]) := by
      refine ⟨h.mappings, h.roles, h.users, fun userId' roleId' => ?_, fun a => ?_⟩
      · refine assigned_without.trans ?_
        rw [h.assigned]
        simp [and_or_left, not_or, and_assoc]
      · simp [MappedTables.revokeMapped, h.assignments, or_and_right, exists_or, not_or, and_assoc]
    have hrest := ih hone
    rwa [append_assoc] at hrest

/-- **A reconciliation adds what the groups bring and removes what they no longer bring.** -/
theorem synced_of_syncUserRoles (h : t.syncUserRoles userId provider groups = .ok t') :
    Synced t t' userId provider
      ((t.wantedIds provider groups).filter (· ∉ t.currentIds userId provider))
      ((t.currentIds userId provider).filter (· ∉ t.wantedIds provider groups)) := by
  unfold MappedTables.syncUserRoles at h
  simp only at h
  split at h
  · cases h
  · cases h
    exact (Synced.granting _).removing _

theorem exists_syncUserRoles_iff : (∃ t', t.syncUserRoles userId provider groups = .ok t') ↔
      (∃ u ∈ t.rbac.users, u.id = userId) ∨
        ∀ roleId ∈ t.wantedIds provider groups, roleId ∈ t.currentIds userId provider := by
  have hrefused : (!((t.wantedIds provider groups).filter
        (· ∉ t.currentIds userId provider)).isEmpty && !t.rbac.users.any (·.id = userId)) = true ↔
      ¬ ((∃ u ∈ t.rbac.users, u.id = userId) ∨
        ∀ roleId ∈ t.wantedIds provider groups, roleId ∈ t.currentIds userId provider) := by
    rw [Bool.and_eq_true, and_comm, not_or]
    exact and_congr (by simp) (by simp)
  unfold MappedTables.syncUserRoles
  simp only [hrefused]
  split
  next hno =>
    exact iff_of_false (by simp) hno
  next hyes =>
    exact iff_of_true ⟨_, rfl⟩ (not_not.mp hyes)

theorem mem_currentIds :
    roleId ∈ t.currentIds userId provider ↔ ⟨userId, roleId, provider⟩ ∈ t.assignments := by
  simp only [MappedTables.currentIds, mem_map, mem_filter, Bool.and_eq_true,
    decide_eq_true_eq]
  constructor
  · rintro ⟨a, ⟨hmem, rfl, rfl⟩, rfl⟩
    exact hmem
  · exact fun hmem => ⟨_, ⟨hmem, rfl, rfl⟩, rfl⟩

/-! ## Whole histories -/

namespace RoleHistory

variable {h : RoleHistory}

/-- What holds along a history of reconciliations that are exact: the ledger records what the last
groups grant, nothing is held without a reason, and what was given by hand is there. -/
structure Inv (h : RoleHistory) : Prop where
  ledger : ∀ userId provider roleId,
    ⟨userId, roleId, provider⟩ ∈ h.tables.assignments ↔ h.Grants userId provider roleId
  reason : ∀ userId roleId, h.tables.rbac.assigned userId roleId = true →
    (userId, roleId) ∈ h.manual ∨ ∃ provider, h.Grants userId provider roleId
  manual : ∀ userId roleId, (userId, roleId) ∈ h.manual →
    h.tables.rbac.assigned userId roleId = true

theorem wantedIds_nil (provider : String) : t.wantedIds provider [] = [] := by
  simp [MappedTables.wantedIds, MappedTables.rolesForGroups, MappedTables.roleIds]

theorem inv_start (rbac : Rbac) (mappings : List AuthGroupMapping) : Inv (start rbac mappings) where
  ledger := by simp [start, Grants, wantedIds_nil]
  reason := by
    intro userId roleId hassigned
    obtain ⟨ur, hmem, rfl, rfl⟩ := assigned_iff.mp hassigned
    exact .inl (mem_map.mpr ⟨ur, hmem, rfl⟩)
  manual := by
    intro userId roleId hmem
    obtain ⟨ur, hur, heq⟩ := mem_map.mp hmem
    cases heq
    exact assigned_iff.mpr ⟨ur, hur, rfl, rfl⟩

theorem wantedIds_congr (hmappings : t'.mappings = t.mappings)
    (hroles : t'.rbac.roles = t.rbac.roles) (provider : String) (groups : List String) :
    t'.wantedIds provider groups = t.wantedIds provider groups := by
  have hindex : t'.roleKeyIndex = t.roleKeyIndex := by
    funext key
    simp [MappedTables.roleKeyIndex, hroles]
  simp [MappedTables.wantedIds, MappedTables.rolesForGroups, MappedTables.roleIds, hmappings,
    hindex]

theorem assigned_withWindow {validFrom validTo : Option ℤ} :
    Rbac.assigned { rbac with userRoles := rbac.withWindow userId roleId validFrom validTo }
        userId' roleId' = true ↔
      rbac.assigned userId' roleId' = true ∨ userId' = userId ∧ roleId' = roleId := by
  unfold Rbac.withWindow
  cases hheld : rbac.assigned userId roleId with
  | true =>
    refine .trans ?_ (or_iff_left_of_imp ?_).symm
    · -- the window of a row changes, but not whose row it is
      rw [if_pos rfl, assigned_iff, assigned_iff, Rows.exists_mem_update_iff]
      refine exists_congr fun ur => and_congr_right fun _ => ?_
      split <;> rfl
    · rintro ⟨rfl, rfl⟩
      exact hheld
  | false => exact assigned_append

/-- An assignment is refused, or it adds the role. -/
theorem step_assign_cases (userId roleId : String) (validFrom validTo : Option ℤ) :
    h.step (.assign userId roleId validFrom validTo) = h ∨
      h.step (.assign userId roleId validFrom validTo) = { h with
        tables := { h.tables with rbac := { h.tables.rbac with
          userRoles := h.tables.rbac.withWindow userId roleId validFrom validTo } }
        manual := (userId, roleId) :: h.manual } := by
  cases hreject : h.tables.rbac.rejectAssignment userId roleId validFrom validTo with
  | some e => exact .inl (by simp [step, Rbac.assignUserRole, hreject])
  | none => exact .inr (by simp [step, Rbac.assignUserRole, hreject])

/-- A revocation is refused, or it removes the role. -/
theorem step_revoke_cases (userId roleId : String) :
    h.step (.revoke userId roleId) = h ∨
      h.step (.revoke userId roleId) = { h with
        tables := { h.tables with rbac := { h.tables.rbac with
          userRoles := h.tables.rbac.userRoles.filter fun ur =>
            !(ur.userId = userId && ur.roleId = roleId) } }
        manual := h.manual.filter (· ≠ (userId, roleId)) } := by
  obtain hok | ⟨message, hrefused⟩ := guardLastAdmin_cases h.tables.rbac
    { h.tables.rbac with userRoles := h.tables.rbac.userRoles.filter fun ur =>
      !(ur.userId = userId && ur.roleId = roleId) }
  · exact .inr (by simp only [step, Rbac.revokeUserRole, hok])
  · exact .inl (by simp only [step, Rbac.revokeUserRole, hrefused])

theorem Inv.assign (hinv : Inv h) (userId roleId : String) (validFrom validTo : Option ℤ) :
    Inv (h.step (.assign userId roleId validFrom validTo)) := by
  obtain heq | heq := step_assign_cases (h := h) userId roleId validFrom validTo
  · rwa [heq]
  · rw [heq]
    refine ⟨hinv.ledger, fun userId' roleId' hassigned => ?_, fun userId' roleId' hmem => ?_⟩
    · obtain hold | ⟨rfl, rfl⟩ := assigned_withWindow.mp hassigned
      · exact (hinv.reason userId' roleId' hold).imp_left (mem_cons_of_mem _)
      · exact .inl mem_cons_self
    · refine assigned_withWindow.mpr ?_
      obtain hself | hold := mem_cons.mp hmem
      · cases hself
        exact .inr ⟨rfl, rfl⟩
      · exact .inl (hinv.manual userId' roleId' hold)

theorem Inv.revoke (hinv : Inv h) (userId roleId : String) :
    Inv (h.step (.revoke userId roleId)) := by
  obtain heq | heq := step_revoke_cases (h := h) userId roleId
  · rwa [heq]
  · rw [heq]
    refine ⟨hinv.ledger, fun userId' roleId' hheld => ?_, fun userId' roleId' hmem => ?_⟩
    · obtain ⟨hold, hother⟩ := assigned_without.mp hheld
      refine (hinv.reason userId' roleId' hold).imp_left fun hmem =>
        mem_filter.mpr ⟨hmem, decide_eq_true fun hself => ?_⟩
      cases hself
      exact hother ⟨rfl, rfl⟩
    · obtain ⟨hold, hother⟩ := mem_filter.mp hmem
      refine assigned_without.mpr ⟨hinv.manual userId' roleId' hold, ?_⟩
      rintro ⟨rfl, rfl⟩
      exact of_decide_eq_true hother rfl

theorem Inv.granted_iff (hinv : Inv h) (roleId : String) :
    roleId ∈ h.tables.currentIds userId provider ↔ h.Grants userId provider roleId :=
  mem_currentIds.trans (hinv.ledger _ _ _)

theorem named_self : h.named userId provider groups userId provider = groups := by
  simp [named]

theorem named_of_ne (hne : other ≠ provider) :
    h.named userId provider groups userId other = h.last userId other := by
  simp [named, hne]

/-- A role that the provider keeps or grants anew is not taken away. -/
theorem kept_of_free (hfree : h.FreeToRemove userId provider groups)
    (hgranted : roleId ∈ h.tables.wantedIds other (h.named userId provider groups userId other)) :
    ¬ (h.Grants userId provider roleId ∧ roleId ∉ h.tables.wantedIds provider groups) := by
  rintro ⟨hheld, hgone⟩
  by_cases hother : other = provider
  · rw [hother, named_self] at hgranted
    exact hgone hgranted
  · rw [named_of_ne hother] at hgranted
    exact (hfree roleId hheld hgone).2 other hother hgranted

theorem accepts_iff (hinv : Inv h) : h.Accepts userId provider groups ↔
    ∃ tables, h.tables.syncUserRoles userId provider groups = .ok tables := by
  simp only [exists_syncUserRoles_iff, hinv.granted_iff, Accepts]

section Accepted

variable (hinv : Inv h) (hsync : h.tables.syncUserRoles userId provider groups = .ok tables)
include hinv hsync

/-- What the tables and the ledger are after a reconciliation. -/
theorem Inv.synced : (∀ userId' roleId, tables.rbac.assigned userId' roleId = true ↔
      (h.tables.rbac.assigned userId' roleId = true ∨ userId' = userId ∧
        roleId ∈ h.tables.wantedIds provider groups ∧ ¬ h.Grants userId provider roleId) ∧
      ¬ (userId' = userId ∧ h.Grants userId provider roleId ∧
        roleId ∉ h.tables.wantedIds provider groups)) ∧
    (∀ userId' provider' roleId, ⟨userId', roleId, provider'⟩ ∈ tables.assignments ↔
      roleId ∈ h.tables.wantedIds provider' (h.named userId provider groups userId' provider')) ∧
    ∀ provider' groups',
      tables.wantedIds provider' groups' = h.tables.wantedIds provider' groups' := by
  have hs := synced_of_syncUserRoles hsync
  refine ⟨fun userId' roleId => ?_, fun userId' provider' roleId => ?_,
    fun _ _ => wantedIds_congr hs.mappings hs.roles _ _⟩
  · simp [hs.assigned, hinv.granted_iff]
  · simp only [hs.assignments, mem_filter, decide_eq_true_eq, hinv.granted_iff, hinv.ledger,
      named]
    by_cases hself : userId' = userId ∧ provider' = provider
    · obtain ⟨rfl, rfl⟩ := hself
      simp only [and_self, if_true, ExternalRoleAssignment.mk.injEq, and_true, true_and,
        exists_eq_right']
      tauto
    · rw [if_neg hself]
      have hno : ∀ roleId', (⟨userId', roleId, provider'⟩ : ExternalRoleAssignment) ≠
          ⟨userId, roleId', provider⟩ := by
        intro roleId' heq
        cases heq
        exact hself ⟨rfl, rfl⟩
      simp [hno, Grants]

/-- Nothing is held without a reason afterwards. -/
theorem reason_of_synced (hassigned : tables.rbac.assigned userId' roleId = true) :
    (userId', roleId) ∈ h.manual ∨ ∃ other,
      roleId ∈ h.tables.wantedIds other (h.named userId provider groups userId' other) := by
  obtain ⟨hheld | ⟨rfl, hnew, -⟩, hkept⟩ := ((hinv.synced hsync).1 userId' roleId).mp hassigned
  · refine (hinv.reason userId' roleId hheld).imp_right ?_
    rintro ⟨other, hgrants⟩
    refine ⟨other, ?_⟩
    unfold named
    split_ifs with hself
    · obtain ⟨rfl, rfl⟩ := hself
      by_contra hgone
      exact hkept ⟨rfl, hgrants, hgone⟩
    · exact hgrants
  · exact .inr ⟨provider, by rwa [named_self]⟩

/-- **A reconciliation is exact if and only if nothing else stands for what it takes away and
nothing that is granted is missing.** -/
theorem exact_sync_iff : (h.step (.sync userId provider groups)).Exact userId ↔
      h.FreeToRemove userId provider groups ∧ h.NothingMissing userId provider groups := by
  obtain ⟨hassigned, -, hwanted⟩ := hinv.synced hsync
  have hexact : (h.step (.sync userId provider groups)).Exact userId ↔
      ∀ roleId, tables.rbac.assigned userId roleId = true ↔ (userId, roleId) ∈ h.manual ∨
        ∃ other,
          roleId ∈ h.tables.wantedIds other (h.named userId provider groups userId other) := by
    simp only [step, hsync, Exact, Grants, hwanted]
  rw [hexact]
  constructor
  · intro hroles
    refine ⟨fun roleId hheld hgone => ?_, fun roleId other hgranted => ?_⟩
    · -- the role has lost its row
      have hlost : ¬ tables.rbac.assigned userId roleId = true :=
        fun hrow => ((hassigned userId roleId).mp hrow).2 ⟨rfl, hheld, hgone⟩
      refine ⟨fun hmanual => hlost ((hroles roleId).mpr (.inl hmanual)), fun other hother hgrants =>
        hlost ((hroles roleId).mpr (.inr ⟨other, ?_⟩))⟩
      rwa [named_of_ne hother]
    · obtain ⟨hrow | ⟨-, hnew⟩, -⟩ :=
        (hassigned userId roleId).mp ((hroles roleId).mpr (.inr ⟨other, hgranted⟩))
      · exact .inl hrow
      · exact .inr hnew
  · rintro ⟨hfree, hmissing⟩ roleId
    refine ⟨reason_of_synced hinv hsync, fun hreason => (hassigned userId roleId).mpr ?_⟩
    obtain hmanual | ⟨other, hgranted⟩ := hreason
    · exact ⟨.inl (hinv.manual userId roleId hmanual),
        fun hgone => (hfree roleId hgone.2.1 hgone.2.2).1 hmanual⟩
    · exact ⟨(hmissing roleId other hgranted).imp_right fun hnew => ⟨rfl, hnew⟩,
        fun hgone => kept_of_free hfree hgranted hgone.2⟩

theorem Inv.sync (hfree : h.FreeToRemove userId provider groups) :
    Inv (h.step (.sync userId provider groups)) := by
  obtain ⟨hassigned, hledger, hwanted⟩ := hinv.synced hsync
  simp only [step, hsync]
  refine ⟨fun userId' provider' roleId => ?_, fun userId' roleId hrow => ?_,
    fun userId' roleId hmanual => ?_⟩
  · simp only [Grants, hwanted]
    exact hledger userId' provider' roleId
  · simpa only [Grants, hwanted] using reason_of_synced hinv hsync hrow
  · refine (hassigned userId' roleId).mpr ⟨.inl (hinv.manual userId' roleId hmanual), ?_⟩
    rintro ⟨rfl, hheld, hgone⟩
    exact (hfree roleId hheld hgone).1 hmanual

end Accepted

theorem exactAfter_iff_reconcilable (hinv : Inv h) (e : RoleEvent) :
    h.ExactAfter e ↔ h.Reconcilable e := by
  unfold ExactAfter Reconcilable
  constructor
  · rintro hexact userId provider groups rfl haccepts
    obtain ⟨tables, hsync⟩ := (accepts_iff hinv).mp haccepts
    exact (exact_sync_iff hinv hsync).mp (hexact userId provider groups tables rfl hsync)
  · rintro hok userId provider groups tables rfl hsync
    exact (exact_sync_iff hinv hsync).mpr
      (hok userId provider groups rfl ((accepts_iff hinv).mpr ⟨tables, hsync⟩))

theorem Inv.step (hinv : Inv h) (e : RoleEvent) (hok : h.Reconcilable e) : Inv (h.step e) := by
  cases e with
  | assign userId roleId validFrom validTo => exact hinv.assign userId roleId validFrom validTo
  | revoke userId roleId => exact hinv.revoke userId roleId
  | sync userId provider groups =>
    cases hsync : h.tables.syncUserRoles userId provider groups with
    | error e =>
      simp only [RoleHistory.step, hsync]
      exact hinv
    | ok tables =>
      have haccepts := (accepts_iff hinv).mpr ⟨tables, hsync⟩
      exact hinv.sync hsync (hok userId provider groups rfl haccepts).1

end RoleHistory

/-- **The roles are exact after every reconciliation of a history if and only if at each of them
nothing else stands for a role that is taken away and nothing that is granted is missing.** -/
theorem reconciles_exactly_iff (rbac : Rbac) (mappings : List AuthGroupMapping)
    (events : List RoleEvent) :
    Histories.Along RoleHistory.step RoleHistory.ExactAfter (.start rbac mappings) events ↔
      Histories.Along RoleHistory.step RoleHistory.Reconcilable (.start rbac mappings) events :=
  Histories.along_congr (I := RoleHistory.Inv)
    (fun _ e hinv => RoleHistory.exactAfter_iff_reconcilable hinv e)
    (fun _ e hinv hok => hinv.step e hok) (RoleHistory.inv_start rbac mappings) events

def oneRole : Rbac where
  users := [⟨"alice", "Alice", .active⟩]
  permissions := permissionKeys
  roles := [⟨"r1", "dispatcher", false⟩]
  rolePermissions := []
  userRoles := []
  groupRoles := []
  userGroups := []
  delegations := []

/-- Both providers map a group to it. -/
def sharedMappings : List AuthGroupMapping :=
  [⟨"ldap_ad", "ops", "dispatcher"⟩, ⟨"entra_oidc", "ops", "dispatcher"⟩]

/-- The role is given by hand, then a provider grants it too and takes it away. -/
def givenByHand : List RoleEvent :=
  [.assign "alice" "r1" none none, .sync "alice" "ldap_ad" ["ops"], .sync "alice" "ldap_ad" []]

/-- Two providers grant the role, and one takes it away. -/
def grantedTwice : List RoleEvent :=
  [.sync "alice" "ldap_ad" ["ops"], .sync "alice" "entra_oidc" ["ops"],
    .sync "alice" "ldap_ad" []]

def revokedByHand : List RoleEvent :=
  [.sync "alice" "ldap_ad" ["ops"], .revoke "alice" "r1", .sync "alice" "ldap_ad" ["ops"]]

/-- The row is gone after each of them, although the role was given by hand, is granted by the other
provider, or is granted by the provider itself. -/
theorem role_lost_in_sync : (∀ events ∈ [givenByHand, grantedTwice, revokedByHand],
      (events.foldl RoleHistory.step (.start oneRole sharedMappings)).tables.rbac.userRoles = []) ∧
    ∀ events ∈ [givenByHand, grantedTwice, revokedByHand], ¬ Histories.Along RoleHistory.step
      RoleHistory.ExactAfter (.start oneRole sharedMappings) events := by
  refine ⟨by decide, ?_⟩
  simp only [forall_mem_cons, not_mem_nil, false_imp_iff, implies_true, and_true]
  refine ⟨?_, ?_, ?_⟩
  · rintro ⟨-, -, hlast, -⟩
    have hexact := hlast "alice" "ldap_ad" [] _ rfl rfl "r1"
    exact absurd (hexact.mpr (.inl (by decide))) (by decide)
  · rintro ⟨-, -, hlast, -⟩
    have hexact := hlast "alice" "ldap_ad" [] _ rfl rfl "r1"
    exact absurd (hexact.mpr (.inr ⟨"entra_oidc", by unfold RoleHistory.Grants; decide⟩))
      (by decide)
  · rintro ⟨-, -, hlast, -⟩
    have hexact := hlast "alice" "ldap_ad" ["ops"] _ rfl rfl "r1"
    exact absurd (hexact.mpr (.inr ⟨"ldap_ad", by unfold RoleHistory.Grants; decide⟩)) (by decide)

end BbzPlatform.Access
