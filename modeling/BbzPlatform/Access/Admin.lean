import BbzPlatform.Access.Grants
import BbzPlatform.Lib.Rows
import Mathlib.Data.List.Dedup

/-!
# The last administrator

Whoever holds `permissions.manage` can repair any mistake in the roles, so the administration
refuses changes that would leave nobody who does.  It uses two guards.  The one of the roles asks
whether any user is left with a role that grants the key; the one of the users asks whether another
active user is.  Neither looks at validity windows or conditions, the first not even at the status
of the user, and assigning a role with a new window is not guarded at all.

Effective administration rests on something: a direct role in its window, the role of a group, or a
delegation.  An operation takes such a basis away or puts another in its place.
-/

namespace BbzPlatform.Access

open RuleDsl List

/-- The permission that the guards are about. -/
def manage : String := "permissions.manage"

/-- Why a change is refused. -/
inductive AdminError where
  | lastAdmin (message : String)
  | builtinRole
  | unknownKeys (keys : List String)
  | invalidCondition
  | emptyWindow
  | integrity
  deriving DecidableEq

/-- One line of a role's permissions. -/
structure PermissionAssignment where
  permissionKey : String
  scope : Scope
  condition : Option Json

namespace Rbac

variable (t : Rbac)

/-! ## The guards -/

/-- The role grants `permissions.manage`, in whatever scope and under whatever condition. -/
def managesRole (roleId : String) : Bool :=
  t.rolePermissions.any fun rp => rp.roleId = roleId && rp.permissionKey = manage

/-- `_holds_admin`. -/
def holdsAdmin (userId : String) : Bool :=
  t.userRoles.any (fun ur => ur.userId = userId && t.managesRole ur.roleId) ||
    t.userGroups.any fun ug => ug.userId = userId && t.groupRoles.any fun gr =>
      gr.groupId = ug.groupId && t.managesRole gr.roleId

/-- `_any_admin`. -/
def anyAdmin : Bool :=
  t.userRoles.any (fun ur => t.managesRole ur.roleId) ||
    t.userGroups.any fun ug => t.groupRoles.any fun gr =>
      gr.groupId = ug.groupId && t.managesRole gr.roleId

/-- `_guard_last_admin`. -/
def guardLastAdmin (changed : Rbac) : Except AdminError Rbac :=
  if t.anyAdmin && !changed.anyAdmin then
    .error (.lastAdmin "this change would leave nobody able to manage permissions")
  else .ok changed

/-- `_is_last_active_admin`. -/
def isLastActiveAdmin (userId : String) : Bool :=
  t.holdsAdmin userId && !t.users.any fun u =>
    t.holdsAdmin u.id && u.status = .active && u.id ≠ userId

/-! ## The operations -/

/-- `delete_role`; the rows of the role go with it. -/
def deleteRole (role : Role) : Except AdminError Rbac :=
  if role.builtin then .error .builtinRole
  else t.guardLastAdmin { t with
    roles := t.roles.filter (·.id ≠ role.id)
    rolePermissions := t.rolePermissions.filter (·.roleId ≠ role.id)
    userRoles := t.userRoles.filter (·.roleId ≠ role.id)
    groupRoles := t.groupRoles.filter (·.roleId ≠ role.id) }

def replacePermissions (roleId : String) (assignments : List PermissionAssignment) :
    List RolePermission :=
  t.rolePermissions.filter (·.roleId ≠ roleId) ++
    assignments.map fun a => ⟨roleId, a.permissionKey, a.scope, a.condition⟩

/-- A condition that `_validate_condition` rejects. -/
def badCondition (a : PermissionAssignment) : Bool :=
  a.condition.any fun c =>
    match rbacContext.validate c with
    | .ok _ => false
    | .error _ => true

/-- What `set_role_permissions` rejects: unknown keys and bad conditions.  The database refuses a
permission that is given twice in one scope, and a role that is gone. -/
def rejectPermissions (roleId : String) (assignments : List PermissionAssignment) :
    Option AdminError :=
  let missing := (assignments.map (·.permissionKey)).filter fun key => !t.permissions.contains key
  if !missing.isEmpty then
    some (.unknownKeys (missing.dedup.insertionSort fun a b => decide (a ≤ b)))
  else if assignments.any badCondition then some .invalidCondition
  else if !t.roles.any (·.id = roleId) ||
      decide ¬ (assignments.map fun a => (a.permissionKey, a.scope)).Nodup then some .integrity
  else none

/-- `set_role_permissions`. -/
def setRolePermissions (roleId : String) (assignments : List PermissionAssignment) :
    Except AdminError Rbac :=
  match t.rejectPermissions roleId assignments with
  | some e => .error e
  | none =>
    t.guardLastAdmin { t with rolePermissions := t.replacePermissions roleId assignments }

def assigned (userId roleId : String) : Bool :=
  t.userRoles.any fun ur => ur.userId = userId && ur.roleId = roleId

/-- What `assign_user_role` rejects: an empty window, and a user or role that is gone. -/
def rejectAssignment (userId roleId : String) (validFrom validTo : Option ℤ) :
    Option AdminError :=
  if validFrom.any fun start => validTo.any (· ≤ start) then some .emptyWindow
  else if !t.assigned userId roleId &&
      !(t.users.any (·.id = userId) && t.roles.any (·.id = roleId)) then some .integrity
  else none

/-- The rows with a new window for a role, or with a new row. -/
def withWindow (userId roleId : String) (validFrom validTo : Option ℤ) : List UserRole :=
  if t.assigned userId roleId then
    t.userRoles.map fun ur =>
      if ur.userId = userId ∧ ur.roleId = roleId then { ur with validFrom, validTo } else ur
  else t.userRoles ++ [⟨userId, roleId, validFrom, validTo⟩]

/-- `assign_user_role`. -/
def assignUserRole (userId roleId : String) (validFrom validTo : Option ℤ) :
    Except AdminError Rbac :=
  match t.rejectAssignment userId roleId validFrom validTo with
  | some e => .error e
  | none => .ok { t with userRoles := t.withWindow userId roleId validFrom validTo }

/-- `revoke_user_role`. -/
def revokeUserRole (userId roleId : String) : Except AdminError Rbac :=
  t.guardLastAdmin { t with
    userRoles := t.userRoles.filter fun ur => !(ur.userId = userId && ur.roleId = roleId) }

/-- `revoke_group_role`. -/
def revokeGroupRole (groupId roleId : String) : Except AdminError Rbac :=
  t.guardLastAdmin { t with
    groupRoles := t.groupRoles.filter fun gr => !(gr.groupId = groupId && gr.roleId = roleId) }

/-- The users with the status of one of them set. -/
def withStatus (userId : String) (status : UserStatus) : List User :=
  t.users.map fun u => if u.id = userId then { u with status } else u

/-- `set_active`, as far as it concerns these tables. -/
def setActive (userId : String) (active : Bool) : Except AdminError Rbac :=
  if !active && t.isLastActiveAdmin userId then
    .error (.lastAdmin "cannot deactivate the last user able to manage permissions")
  else .ok { t with users := t.withStatus userId (if active then .active else .disabled) }

end Rbac

inductive Operation where
  | setRolePermissions (roleId : String) (assignments : List PermissionAssignment)
  | assignUserRole (userId roleId : String) (validFrom validTo : Option ℤ)
  | revokeUserRole (userId roleId : String)
  | revokeGroupRole (groupId roleId : String)
  | deleteRole (role : Role)
  | setActive (userId : String) (active : Bool)

def Rbac.apply (t : Rbac) : Operation → Except AdminError Rbac
  | .setRolePermissions roleId assignments => t.setRolePermissions roleId assignments
  | .assignUserRole userId roleId validFrom validTo =>
    t.assignUserRole userId roleId validFrom validTo
  | .revokeUserRole userId roleId => t.revokeUserRole userId roleId
  | .revokeGroupRole groupId roleId => t.revokeGroupRole groupId roleId
  | .deleteRole role => t.deleteRole role
  | .setActive userId active => t.setActive userId active

def Rbac.rejects (t : Rbac) : Operation → Bool
  | .setRolePermissions roleId assignments => (t.rejectPermissions roleId assignments).isSome
  | .assignUserRole userId roleId validFrom validTo =>
    (t.rejectAssignment userId roleId validFrom validTo).isSome
  | .deleteRole role => role.builtin
  | _ => false

/-- The tables after an operation; a refused one changes nothing. -/
def Rbac.perform (t : Rbac) (op : Operation) : Rbac :=
  match t.apply op with
  | .ok changed => changed
  | .error _ => t

def Rbac.guarded (t : Rbac) (op : Operation) : Bool :=
  match t.apply op with
  | .error (.lastAdmin _) => true
  | _ => false

/-- Some active user passes the permission check for `permissions.manage`. -/
def Administered (env : Policy) (t : Rbac) (now : ℤ) : Bool :=
  t.users.any fun u => u.status = .active &&
    match authorize env t now u.id manage with
    | .ok allowed => allowed
    | .error _ => false

/-! ## What administration rests on -/

/-- A direct role, the role of a group, or a delegation. -/
inductive Basis where
  | direct (userId roleId : String)
  | group (userId groupId roleId : String)
  | lent (userId : String)

def Basis.user : Basis → String
  | direct userId _ => userId
  | group userId _ _ => userId
  | lent userId => userId

def Basis.role : Basis → Option String
  | direct _ roleId => some roleId
  | group _ _ roleId => some roleId
  | lent _ => none

section Bases

variable (env : Policy) (t : Rbac) (now : ℤ)

/-- The role grants `permissions.manage` now. -/
def Carries (roleId : String) : Prop :=
  ∃ rp ∈ t.rolePermissions, rp.roleId = roleId ∧ rp.permissionKey = manage ∧
    conditionAllows env now rp.grant

/-- The user has the role directly and in its window. -/
def InRole (userId roleId : String) : Prop :=
  ∃ ur ∈ t.userRoles, ur.userId = userId ∧ ur.roleId = roleId ∧ within ur.validFrom ur.validTo now

def InGroup (userId groupId roleId : String) : Prop :=
  ⟨userId, groupId⟩ ∈ t.userGroups ∧ ⟨groupId, roleId⟩ ∈ t.groupRoles

def IsActive (userId : String) : Prop := ∃ u ∈ t.users, u.id = userId ∧ u.status = .active

def Linked : Basis → Prop
  | .direct userId roleId => InRole t now userId roleId
  | .group userId groupId roleId => InGroup t userId groupId roleId
  | .lent userId => ∃ d ∈ t.delegations, d.toUserId = userId ∧ d.permissionKey = manage ∧
      d.active now

/-- The basis gives its user the permission, whether the user is active or not. -/
def Bears (b : Basis) : Prop :=
  Linked t now b ∧ ∀ roleId, b.role = some roleId → Carries env t now roleId

/-- The basis gives an active user the permission. -/
def Stands (b : Basis) : Prop := IsActive t b.user ∧ Bears env t now b

def Operation.Takes : Operation → Basis → Prop
  | .setRolePermissions roleId _, b => b.role = some roleId
  | .assignUserRole userId roleId _ _, .direct userId' roleId' =>
    userId' = userId ∧ roleId' = roleId
  | .revokeUserRole userId roleId, .direct userId' roleId' => userId' = userId ∧ roleId' = roleId
  | .revokeGroupRole groupId roleId, .group _ groupId' roleId' =>
    groupId' = groupId ∧ roleId' = roleId
  | .deleteRole role, b => b.role = some role.id
  | .setActive userId false, b => b.user = userId
  | _, _ => False

/-- The operation puts a basis in the place of one it takes: a role that keeps the permission and is
held by an active user, a window that is open and belongs to an active user, or a user who becomes
active. -/
def Operation.Gives : Operation → Prop
  | .setRolePermissions roleId assignments =>
    (∃ a ∈ assignments, a.permissionKey = manage ∧
      conditionAllows env now ⟨a.permissionKey, a.scope, a.condition⟩) ∧
    ∃ b : Basis, b.role = some roleId ∧ IsActive t b.user ∧ Linked t now b
  | .assignUserRole userId roleId validFrom validTo =>
    IsActive t userId ∧ within validFrom validTo now ∧ Carries env t now roleId
  | .setActive userId true => (∃ u ∈ t.users, u.id = userId) ∧
      ∃ b : Basis, b.user = userId ∧ Bears env t now b
  | _ => False

/-- The operation leaves effective administration: it is rejected and some basis stands, it does not
take one that stands, or it gives one. -/
def Spares (op : Operation) : Prop :=
  if t.rejects op then ∃ b, Stands env t now b
  else (∃ b, Stands env t now b ∧ ¬ op.Takes b) ∨ op.Gives env t now

end Bases

variable {env : Policy} {t t' : Rbac} {now : ℤ} {userId roleId : String} {op : Operation}
  {validFrom validTo : Option ℤ} {assignments : List PermissionAssignment}

theorem holdsDirectly_iff :
    t.holdsDirectly now userId roleId = true ↔ InRole t now userId roleId := by
  simp [Rbac.holdsDirectly, InRole, and_assoc]

theorem holdsViaGroup_iff :
    t.holdsViaGroup userId roleId = true ↔ ∃ groupId, InGroup t userId groupId roleId := by
  simp only [Rbac.holdsViaGroup, InGroup, any_eq_true, Bool.and_eq_true, decide_eq_true_eq]
  constructor
  · rintro ⟨⟨u, g⟩, hug, rfl, ⟨g', r⟩, hgr, rfl, rfl⟩
    exact ⟨g', hug, hgr⟩
  · rintro ⟨groupId, hug, hgr⟩
    exact ⟨_, hug, rfl, _, hgr, rfl, rfl⟩

/-- The check passes exactly if it has something to rest on. -/
theorem authorize_manage_iff :
    authorize env t now userId manage = .ok true ↔
      ∃ b : Basis, b.user = userId ∧ Bears env t now b := by
  rw [authorize_known (by decide), Except.ok.injEq, any_eq_true]
  simp only [Rbac.grantsForUser, mem_append, mem_roleGrants, mem_lentGrants,
    holdsDirectly_iff, holdsViaGroup_iff, Bool.and_eq_true, decide_eq_true_eq]
  constructor
  · rintro ⟨_, ⟨rp, hrp, hin | ⟨groupId, hin⟩, rfl⟩ | ⟨d, hd, rfl, hactive, rfl⟩, hkey, hallows⟩
    · refine ⟨.direct userId rp.roleId, rfl, hin, ?_⟩
      rintro _ ⟨⟩
      exact ⟨rp, hrp, rfl, hkey, hallows⟩
    · refine ⟨.group userId groupId rp.roleId, rfl, hin, ?_⟩
      rintro _ ⟨⟩
      exact ⟨rp, hrp, rfl, hkey, hallows⟩
    · refine ⟨.lent d.toUserId, rfl, ⟨d, hd, rfl, hkey, hactive⟩, ?_⟩
      rintro _ ⟨⟩
  · rintro ⟨b, rfl, hb⟩
    obtain ⟨hlinked, hcarries⟩ := hb
    cases b with
    | direct userId roleId =>
      obtain ⟨rp, hrp, rfl, hkey, hallows⟩ := hcarries roleId rfl
      exact ⟨rp.grant, .inl ⟨rp, hrp, .inl hlinked, rfl⟩, hkey, hallows⟩
    | group userId groupId roleId =>
      obtain ⟨rp, hrp, rfl, hkey, hallows⟩ := hcarries roleId rfl
      exact ⟨rp.grant, .inl ⟨rp, hrp, .inr ⟨groupId, hlinked⟩, rfl⟩, hkey, hallows⟩
    | lent userId =>
      obtain ⟨d, hd, rfl, hkey, hactive⟩ := hlinked
      exact ⟨d.grant, .inr ⟨d, hd, rfl, hactive, rfl⟩, hkey, conditionAllows_lent d⟩

/-- **Administration is effective exactly if a basis stands.** -/
theorem administered_iff : Administered env t now = true ↔ ∃ b, Stands env t now b := by
  have hcheck : ∀ userId, (match authorize env t now userId manage with
      | .ok allowed => allowed
      | .error _ => false) = true ↔ ∃ b : Basis, b.user = userId ∧ Bears env t now b := by
    intro userId
    rw [← authorize_manage_iff]
    cases authorize env t now userId manage <;> simp
  simp only [Administered, any_eq_true, Bool.and_eq_true, decide_eq_true_eq, hcheck]
  constructor
  · rintro ⟨u, hu, hactive, b, hb, hbears⟩
    exact ⟨b, ⟨u, hu, hb.symm, hactive⟩, hbears⟩
  · rintro ⟨b, ⟨u, hu, hid, hactive⟩, hbears⟩
    exact ⟨u, hu, hactive, b, hid.symm, hbears⟩

/-! ## What an operation changes -/

/-- The tables after an operation that is not refused. -/
def Rbac.change (t : Rbac) : Operation → Rbac
  | .setRolePermissions roleId assignments =>
    { t with rolePermissions := t.replacePermissions roleId assignments }
  | .assignUserRole userId roleId validFrom validTo =>
    { t with userRoles := t.withWindow userId roleId validFrom validTo }
  | .revokeUserRole userId roleId => { t with
      userRoles := t.userRoles.filter fun ur => !(ur.userId = userId && ur.roleId = roleId) }
  | .revokeGroupRole groupId roleId => { t with
      groupRoles := t.groupRoles.filter fun gr => !(gr.groupId = groupId && gr.roleId = roleId) }
  | .deleteRole role => { t with
      roles := t.roles.filter (·.id ≠ role.id)
      rolePermissions := t.rolePermissions.filter (·.roleId ≠ role.id)
      userRoles := t.userRoles.filter (·.roleId ≠ role.id)
      groupRoles := t.groupRoles.filter (·.roleId ≠ role.id) }
  | .setActive userId active =>
    { t with users := t.withStatus userId (if active then .active else .disabled) }

theorem guardLastAdmin_cases (t changed : Rbac) :
    t.guardLastAdmin changed = .ok changed ∨
      ∃ message, t.guardLastAdmin changed = .error (.lastAdmin message) := by
  unfold Rbac.guardLastAdmin
  split
  · exact .inr ⟨_, rfl⟩
  · exact .inl rfl

/-- An operation is rejected, stopped by a guard, or carried out. -/
theorem apply_cases (t : Rbac) (op : Operation) :
    (t.rejects op = true ∧ ∃ e, t.apply op = .error e) ∨
      (∃ message, t.apply op = .error (.lastAdmin message)) ∨
      (t.rejects op = false ∧ t.apply op = .ok (t.change op)) := by
  have hguard := fun changed => (guardLastAdmin_cases t changed).symm
  cases op with
  | setRolePermissions roleId assignments =>
    simp only [Rbac.apply, Rbac.setRolePermissions, Rbac.rejects, Rbac.change]
    cases t.rejectPermissions roleId assignments with
    | some e => exact .inl ⟨rfl, e, rfl⟩
    | none => exact .inr ((hguard _).imp_right fun h => ⟨rfl, h⟩)
  | assignUserRole userId roleId validFrom validTo =>
    simp only [Rbac.apply, Rbac.assignUserRole, Rbac.rejects, Rbac.change]
    cases t.rejectAssignment userId roleId validFrom validTo with
    | some e => exact .inl ⟨rfl, e, rfl⟩
    | none => exact .inr (.inr ⟨rfl, rfl⟩)
  | revokeUserRole userId roleId | revokeGroupRole groupId roleId =>
    exact .inr ((hguard _).imp_right fun h => ⟨rfl, h⟩)
  | deleteRole role =>
    simp only [Rbac.apply, Rbac.deleteRole, Rbac.rejects, Rbac.change]
    cases role.builtin with
    | true => exact .inl ⟨rfl, .builtinRole, rfl⟩
    | false => exact .inr ((hguard _).imp_right fun h => ⟨rfl, h⟩)
  | setActive userId active =>
    simp only [Rbac.apply, Rbac.setActive, Rbac.rejects, Rbac.change]
    cases !active && t.isLastActiveAdmin userId with
    | true => exact .inr (.inl ⟨_, rfl⟩)
    | false => exact .inr (.inr ⟨trivial, rfl⟩)

theorem perform_eq (h : t.guarded op = false) :
    t.perform op = if t.rejects op then t else t.change op := by
  unfold Rbac.guarded at h
  unfold Rbac.perform
  obtain ⟨hrejects, e, he⟩ | ⟨message, hm⟩ | ⟨hrejects, hok⟩ := apply_cases t op
  · rw [he, hrejects]
    rfl
  · simp [hm] at h
  · rw [hok, hrejects]
    rfl

theorem carries_replace (roleId' : String) :
    Carries env (t.change (.setRolePermissions roleId assignments)) now roleId' ↔
      if roleId' = roleId then ∃ a ∈ assignments, a.permissionKey = manage ∧
        conditionAllows env now ⟨a.permissionKey, a.scope, a.condition⟩
      else Carries env t now roleId' := by
  simp only [Carries, Rbac.change, Rbac.replacePermissions, mem_append, mem_filter,
    mem_map, decide_eq_true_eq, ne_eq]
  split
  next heq =>
    subst heq
    constructor
    · rintro ⟨_, ⟨-, hne⟩ | ⟨a, ha, rfl⟩, hrole, hkey, hallows⟩
      · exact absurd hrole hne
      · exact ⟨a, ha, hkey, hallows⟩
    · rintro ⟨a, ha, hkey, hallows⟩
      exact ⟨_, .inr ⟨a, ha, rfl⟩, rfl, hkey, hallows⟩
  next hother =>
    constructor
    · rintro ⟨rp, ⟨hrp, -⟩ | ⟨a, -, rfl⟩, hrole, hkey, hallows⟩
      · exact ⟨rp, hrp, hrole, hkey, hallows⟩
      · exact absurd hrole.symm hother
    · rintro ⟨rp, hrp, hrole, hkey, hallows⟩
      exact ⟨rp, .inl ⟨hrp, fun heq => hother (hrole ▸ heq)⟩, hrole, hkey, hallows⟩

theorem assigned_iff : t.assigned userId roleId = true ↔
    ∃ ur ∈ t.userRoles, ur.userId = userId ∧ ur.roleId = roleId := by
  simp [Rbac.assigned]

theorem inRole_withWindow (userId' roleId' : String) :
    InRole (t.change (.assignUserRole userId roleId validFrom validTo)) now userId' roleId' ↔
      if userId' = userId ∧ roleId' = roleId then within validFrom validTo now = true
      else InRole t now userId' roleId' := by
  simp only [InRole, Rbac.change, Rbac.withWindow]
  by_cases hself : userId' = userId ∧ roleId' = roleId
  · rw [if_pos hself, hself.1, hself.2]
    by_cases hrow : t.assigned userId roleId = true
    · rw [if_pos hrow, Rows.exists_mem_update_iff]
      obtain ⟨row, hmem, hat⟩ := assigned_iff.mp hrow
      refine ⟨fun ⟨ur, _, h⟩ => ?_, fun hin => ⟨row, hmem, ?_⟩⟩
      · by_cases hur : ur.userId = userId ∧ ur.roleId = roleId
        · rw [if_pos hur] at h
          exact h.2.2
        · rw [if_neg hur] at h
          exact absurd ⟨h.1, h.2.1⟩ hur
      · rw [if_pos hat]
        exact ⟨hat.1, hat.2, hin⟩
    · rw [if_neg hrow]
      constructor
      · rintro ⟨ur, hur, huser, hrole, hin⟩
        rcases mem_append.mp hur with hur | hur
        · exact absurd (assigned_iff.mpr ⟨ur, hur, huser, hrole⟩) hrow
        · rw [mem_singleton.mp hur] at hin
          exact hin
      · exact fun hin => ⟨_, mem_append_right _ (mem_singleton_self _), rfl, rfl, hin⟩
  · rw [if_neg hself]
    have hno : ∀ {ur : UserRole}, ur.userId = userId ∧ ur.roleId = roleId →
        ¬ (ur.userId = userId' ∧ ur.roleId = roleId') := by
      rintro ur ⟨rfl, rfl⟩ ⟨rfl, rfl⟩
      exact hself ⟨rfl, rfl⟩
    split
    · rw [Rows.exists_mem_update_iff]
      refine exists_congr fun ur => and_congr_right fun _ => ?_
      by_cases hur : ur.userId = userId ∧ ur.roleId = roleId
      · rw [if_pos hur]
        exact iff_of_false (fun h => hno hur ⟨h.1, h.2.1⟩) fun h => hno hur ⟨h.1, h.2.1⟩
      · rw [if_neg hur]
    · simp only [mem_append, mem_singleton, or_and_right, exists_or, exists_eq_left]
      exact or_iff_left fun h => hself ⟨h.1.symm, h.2.1.symm⟩

theorem isActive_withStatus {active : Bool} (userId' : String) :
    IsActive (t.change (.setActive userId active)) userId' ↔
      if userId' = userId then active = true ∧ ∃ u ∈ t.users, u.id = userId
      else IsActive t userId' := by
  simp only [IsActive, Rbac.change, Rbac.withStatus]
  rw [Rows.exists_mem_update_iff]
  by_cases hself : userId' = userId
  · subst hself
    rw [if_pos rfl, ← exists_and_left]
    refine exists_congr fun u => ?_
    by_cases hid : u.id = userId' <;> cases active <;> simp [hid]
  · rw [if_neg hself]
    refine exists_congr fun u => and_congr_right fun _ => ?_
    by_cases hid : u.id = userId
    · simp [hid, Ne.symm hself]
    · rw [if_neg hid]

/-- The operation gives no basis. -/
def OnlyTakes (env : Policy) (t : Rbac) (now : ℤ) (op : Operation) : Prop :=
  ∀ b, Bears env (t.change op) now b ↔ Bears env t now b ∧ ¬ op.Takes b

theorem bears_of_linked_iff
    (hlinked : ∀ b, Linked (t.change op) now b ↔ Linked t now b ∧ ¬ op.Takes b)
    (hkeys : (t.change op).rolePermissions = t.rolePermissions) : OnlyTakes env t now op := by
  intro b
  simp only [Bears, Carries, hlinked, hkeys]
  exact and_right_comm

theorem bears_revokeUserRole : OnlyTakes env t now (.revokeUserRole userId roleId) := by
  refine bears_of_linked_iff (fun b => ?_) rfl
  cases b with
  | direct userId' roleId' =>
    simp only [Linked, InRole, Rbac.change, Operation.Takes, mem_filter]
    constructor
    · rintro ⟨ur, ⟨hur, hkept⟩, rfl, rfl, hin⟩
      exact ⟨⟨ur, hur, rfl, rfl, hin⟩, by simpa [imp_iff_not_or] using hkept⟩
    · rintro ⟨⟨ur, hur, rfl, rfl, hin⟩, hkept⟩
      exact ⟨ur, ⟨hur, by simpa [imp_iff_not_or] using hkept⟩, rfl, rfl, hin⟩
  | group | lent => exact (and_iff_left id).symm

theorem bears_revokeGroupRole {groupId : String} :
    OnlyTakes env t now (.revokeGroupRole groupId roleId) := by
  refine bears_of_linked_iff (fun b => ?_) rfl
  cases b with
  | group userId groupId' roleId' =>
    simp [Linked, InGroup, Rbac.change, Operation.Takes, and_assoc, imp_iff_not_or]
  | direct | lent => exact (and_iff_left id).symm

theorem linked_assignUserRole (b : Basis) :
    Linked (t.change (.assignUserRole userId roleId validFrom validTo)) now b ↔
      (b = .direct userId roleId ∧ within validFrom validTo now = true) ∨
        Linked t now b ∧ ¬ (Operation.assignUserRole userId roleId validFrom validTo).Takes b := by
  cases b with
  | direct userId' roleId' =>
    simp only [Linked, inRole_withWindow, Operation.Takes, Basis.direct.injEq]
    by_cases hself : userId' = userId ∧ roleId' = roleId <;> simp [hself]
  | group | lent => simp [Linked, Operation.Takes, Rbac.change, InGroup]

theorem bears_deleteRole {role : Role} : OnlyTakes env t now (.deleteRole role) := by
  intro b
  have hcarries : ∀ roleId, Carries env (t.change (.deleteRole role)) now roleId ↔
      Carries env t now roleId ∧ roleId ≠ role.id := by
    intro roleId
    simp only [Carries, Rbac.change, mem_filter, decide_eq_true_eq]
    constructor
    · rintro ⟨rp, ⟨hrp, hne⟩, rfl, hkey, hallows⟩
      exact ⟨⟨rp, hrp, rfl, hkey, hallows⟩, hne⟩
    · rintro ⟨⟨rp, hrp, rfl, hkey, hallows⟩, hne⟩
      exact ⟨rp, ⟨hrp, hne⟩, rfl, hkey, hallows⟩
  simp only [Bears, Operation.Takes, hcarries]
  cases b with
  | direct userId roleId =>
    simp only [Linked, InRole, Rbac.change, mem_filter, decide_eq_true_eq, Basis.role,
      Option.some.injEq, forall_eq']
    constructor
    · rintro ⟨⟨ur, ⟨hur, -⟩, hin⟩, hcarry, hne⟩
      exact ⟨⟨⟨ur, hur, hin⟩, hcarry⟩, hne⟩
    · rintro ⟨⟨⟨ur, hur, huser, hrole, hin⟩, hcarry⟩, hne⟩
      exact ⟨⟨ur, ⟨hur, hrole ▸ hne⟩, huser, hrole, hin⟩, hcarry, hne⟩
  | group userId groupId roleId =>
    simp only [Linked, InGroup, Rbac.change, mem_filter, decide_eq_true_eq, Basis.role,
      Option.some.injEq, forall_eq']
    constructor
    · rintro ⟨⟨hug, hgr, -⟩, hcarry, hne⟩
      exact ⟨⟨⟨hug, hgr⟩, hcarry⟩, hne⟩
    · rintro ⟨⟨⟨hug, hgr⟩, hcarry⟩, hne⟩
      exact ⟨⟨hug, hgr, hne⟩, hcarry, hne⟩
  | lent userId => simp [Linked, Rbac.change, Basis.role]

/-- What stands after the operation stood before and was not taken, or was given. -/
abbrev Accounted (env : Policy) (t : Rbac) (now : ℤ) (op : Operation) : Prop :=
  (∃ b, Stands env (t.change op) now b) ↔
    (∃ b, Stands env t now b ∧ ¬ op.Takes b) ∨ op.Gives env t now

theorem stands_of_bears_iff (husers : (t.change op).users = t.users)
    (hgives : ¬ op.Gives env t now) (hbears : OnlyTakes env t now op) : Accounted env t now op := by
  refine .trans (exists_congr fun b => ?_) (or_iff_left hgives).symm
  simp only [Stands, IsActive, husers, hbears b, and_assoc]

theorem stands_setRolePermissions :
    Accounted env t now (.setRolePermissions roleId assignments) := by
  have hcarries := @carries_replace env t now roleId assignments
  constructor
  · rintro ⟨b, hactive, hlinked, hcarry⟩
    by_cases hb : b.role = some roleId
    · have hassigned := (hcarries roleId).mp (hcarry roleId hb)
      rw [if_pos rfl] at hassigned
      exact .inr ⟨hassigned, b, hb, hactive, hlinked⟩
    · refine .inl ⟨b, ⟨hactive, hlinked, fun roleId' hrole => ?_⟩, hb⟩
      have hkept := (hcarries roleId').mp (hcarry roleId' hrole)
      rwa [if_neg fun heq : roleId' = roleId => hb (heq ▸ hrole)] at hkept
  · rintro (⟨b, ⟨hactive, hlinked, hcarry⟩, hb⟩ | ⟨hassigned, b, hb, hactive, hlinked⟩)
    · refine ⟨b, hactive, hlinked, fun roleId' hrole => (hcarries roleId').mpr ?_⟩
      rw [if_neg fun heq : roleId' = roleId => hb (heq ▸ hrole)]
      exact hcarry roleId' hrole
    · refine ⟨b, hactive, hlinked, fun roleId' hrole => (hcarries roleId').mpr ?_⟩
      rw [if_pos (Option.some.inj (hrole.symm.trans hb))]
      exact hassigned

theorem stands_assignUserRole :
    Accounted env t now (.assignUserRole userId roleId validFrom validTo) := by
  constructor
  · rintro ⟨b, hactive, hlinked, hcarry⟩
    obtain ⟨rfl, hin⟩ | ⟨hold, hkept⟩ := (linked_assignUserRole b).mp hlinked
    · exact .inr ⟨hactive, hin, hcarry roleId rfl⟩
    · exact .inl ⟨b, ⟨hactive, hold, hcarry⟩, hkept⟩
  · rintro (⟨b, ⟨hactive, hlinked, hcarry⟩, hkept⟩ | ⟨hactive, hin, hcarry⟩)
    · exact ⟨b, hactive, (linked_assignUserRole b).mpr (.inr ⟨hlinked, hkept⟩), hcarry⟩
    · refine ⟨.direct userId roleId, hactive,
        (linked_assignUserRole _).mpr (.inl ⟨rfl, hin⟩), ?_⟩
      rintro _ ⟨⟩
      exact hcarry

theorem stands_deactivate : Accounted env t now (.setActive userId false) := by
  refine .trans (exists_congr fun b => ?_) (or_iff_left id).symm
  simp only [Stands, isActive_withStatus, Operation.Takes]
  by_cases hb : b.user = userId
  · simp [hb]
  · simp only [hb, if_false, not_false_eq_true, and_true]
    exact Iff.rfl

theorem stands_activate : Accounted env t now (.setActive userId true) := by
  have hactive := @isActive_withStatus t userId true
  constructor
  · rintro ⟨b, hb, hbears⟩
    by_cases huser : b.user = userId
    · rw [hactive, if_pos huser] at hb
      exact .inr ⟨hb.2, b, huser, hbears⟩
    · rw [hactive, if_neg huser] at hb
      exact .inl ⟨b, ⟨hb, hbears⟩, id⟩
  · rintro (⟨b, ⟨hb, hbears⟩, -⟩ | ⟨huser, b, hb, hbears⟩)
    · refine ⟨b, (hactive b.user).mpr ?_, hbears⟩
      split_ifs with heq
      · obtain ⟨u, hu, hid, -⟩ := hb
        exact ⟨rfl, u, hu, hid.trans heq⟩
      · exact hb
    · refine ⟨b, (hactive b.user).mpr ?_, hbears⟩
      rw [if_pos hb]
      exact ⟨rfl, huser⟩

/-- **What stands after an operation** is accounted for. -/
theorem stands_change_iff (op : Operation) : Accounted env t now op := by
  cases op with
  | setRolePermissions => exact stands_setRolePermissions
  | assignUserRole => exact stands_assignUserRole
  | revokeUserRole => exact stands_of_bears_iff rfl id bears_revokeUserRole
  | revokeGroupRole => exact stands_of_bears_iff rfl id bears_revokeGroupRole
  | deleteRole => exact stands_of_bears_iff rfl id bears_deleteRole
  | setActive userId active =>
    cases active with
    | false => exact stands_deactivate
    | true => exact stands_activate

/-! ## Runs -/

/-- The tables after operations one after another, each with its time. -/
def Rbac.performAll (t : Rbac) (steps : List (ℤ × Operation)) : Rbac :=
  steps.foldl (fun t step => t.perform step.2) t

/-- After every operation that no guard stops, administration is effective at that time. -/
def Remains (env : Policy) (t : Rbac) (steps : List (ℤ × Operation)) : Prop :=
  ∀ seen now op rest, steps = seen ++ (now, op) :: rest →
    (t.performAll seen).guarded op = false →
    Administered env ((t.performAll seen).perform op) now = true

/-- **An administrator remains exactly if every operation that no guard stops spares one.** -/
theorem admin_remains_iff_spared (env : Policy) (t : Rbac) (steps : List (ℤ × Operation)) :
    Remains env t steps ↔
      ∀ seen now op rest, steps = seen ++ (now, op) :: rest →
        (t.performAll seen).guarded op = false → Spares env (t.performAll seen) now op := by
  unfold Remains
  refine forall_congr' fun seen => forall_congr' fun now => forall_congr' fun op =>
    forall_congr' fun rest => forall_congr' fun _ => forall_congr' fun hguarded => ?_
  rw [administered_iff, perform_eq hguarded, Spares]
  cases (t.performAll seen).rejects op with
  | true => exact Iff.rfl
  | false => exact stands_change_iff op

/-- A clock that conditions do not read. -/
def plainPolicy : Policy := ⟨false, fun _ => 0, fun _ => 0, fun _ => ""⟩

/-- One user with the role of an administrator. -/
def oneAdmin : Rbac where
  users := [⟨"alice", "Alice", .active⟩]
  permissions := permissionKeys
  roles := [⟨"admins", "admin", true⟩]
  rolePermissions := [⟨"admins", manage, .global, none⟩]
  userRoles := [⟨"alice", "admins", none, none⟩]
  groupRoles := []
  userGroups := []
  delegations := []

/-- Assigning the role again with a window that is over takes the last administrator away. -/
theorem window_closed_on_last_admin :
    Administered plainPolicy oneAdmin 10 = true ∧
      ¬ Remains plainPolicy oneAdmin [(10, .assignUserRole "alice" "admins" none (some 5))] := by
  refine ⟨by decide, fun h => ?_⟩
  have hlost := h [] 10 (.assignUserRole "alice" "admins" none (some 5)) [] rfl (by decide)
  exact absurd hlost (by decide)

end BbzPlatform.Access
