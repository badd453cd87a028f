import BbzPlatform.RuleDsl.Malformed

/-!
# Roles, grants and the permission check

A user holds roles directly, inside a validity window, and through groups.  A role grants permission
keys, each in a scope and under an optional condition of the rule language.  A permission can also
be lent: a delegation is a grant of its own until it expires or is revoked.

The scope-agnostic check asks for any grant of the key whose condition allows; the scope-aware one
also asks that the scope of the grant covers the action.

A condition that raises denies.  A malformed one need not raise: a stray object under `and`, `or`
or `not` counts as true.
-/

namespace BbzPlatform.Access

open RuleDsl

/-! ## Vocabulary -/

inductive Scope where
  | global
  | region
  | bbz
  | workplace
  | ownEvents
  | assignedEvents
  deriving DecidableEq

def Scope.value : Scope → String
  | global => "global"
  | region => "region"
  | bbz => "bbz"
  | workplace => "workplace"
  | ownEvents => "own_events"
  | assignedEvents => "assigned_events"

def Scope.ofText (text : String) : Option Scope :=
  [global, region, bbz, workplace, ownEvents, assignedEvents].find? (·.value = text)

/-- `PERMISSION_KEYS`, the catalog. -/
def permissionKeys : List String :=
  ["events.view", "events.create", "events.accept", "events.acknowledge", "events.open",
    "events.edit", "events.assign", "events.takeover", "events.close", "events.archive",
    "events.reactivate", "events.postprocess", "events.export",
    "workflows.view", "workflows.execute", "workflows.override", "workflows.manage_templates",
    "calls.view", "calls.answer", "calls.dial", "calls.hangup", "calls.hold", "calls.transfer",
    "calls.document", "calls.view_history", "calls.ingest_provider_events",
    "calls.simulate_mock_scenario",
    "contacts.view", "contacts.create", "contacts.edit", "contacts.delete",
    "contacts.assign_priority",
    "monitor.view", "monitor.route", "monitor.reset_standard", "monitor.manage_profiles",
    "weather.view", "weather.create_event",
    "users.view", "users.manage", "roles.view", "roles.manage", "permissions.manage",
    "integrations.view", "integrations.configure", "integrations.enable_disable",
    "integrations.diagnostics",
    "system.audit.view", "system.cluster.view", "system.cluster.manage",
    "system.settings.manage",
    "bku.status.view", "bku.apps.launch", "bku.apps.close", "bku.session.logout",
    "bku.device.restart", "bku.catalog.view", "bku.catalog.manage", "bku.agent.manage",
    "agents.manage",
    "door.view", "door.answer", "door.open", "door.configure", "technical_endpoints.view",
    "technical_endpoints.manage"]

structure PermissionKeyError where
  key : String

/-- `assert_known`. -/
def assertKnown (key : String) : Except PermissionKeyError Unit :=
  if permissionKeys.contains key then .ok () else .error ⟨key⟩

/-- One permission a user holds. -/
structure Grant where
  permissionKey : String
  scope : Scope
  condition : Option Json

/-! ## Tables -/

inductive UserStatus where
  | active
  | disabled
  deriving DecidableEq

/-- A row of `users`. -/
structure User where
  id : String
  displayName : String
  status : UserStatus
  deriving DecidableEq

/-- A row of `roles`. -/
structure Role where
  id : String
  key : String
  builtin : Bool

/-- A row of `role_permissions`; the key stands for the row of `permissions`. -/
structure RolePermission where
  roleId : String
  permissionKey : String
  scope : Scope
  condition : Option Json

/-- A row of `user_roles`. -/
structure UserRole where
  userId : String
  roleId : String
  validFrom : Option ℤ
  validTo : Option ℤ
  deriving DecidableEq

/-- A row of `group_roles`. -/
structure GroupRole where
  groupId : String
  roleId : String
  deriving DecidableEq

/-- A row of `user_groups`. -/
structure UserGroup where
  userId : String
  groupId : String
  deriving DecidableEq

/-- A row of `permission_delegations`. -/
structure PermissionDelegation where
  id : String
  fromUserId : String
  toUserId : String
  permissionKey : String
  scope : Scope
  grantedAt : ℤ
  expiresAt : ℤ
  revokedAt : Option ℤ
  deriving DecidableEq

/-- The tables of authorization; `permissions` are the keys that are seeded. -/
structure Rbac where
  users : List User
  permissions : List String
  roles : List Role
  rolePermissions : List RolePermission
  userRoles : List UserRole
  groupRoles : List GroupRole
  userGroups : List UserGroup
  delegations : List PermissionDelegation

/-! ## The resolver -/

/-- What a permission check depends on besides the tables: whether conditions are evaluated, and how
a moment reads on the clock. -/
structure Policy where
  conditionsEnabled : Bool
  hour : ℤ → ℤ
  weekday : ℤ → ℤ
  iso : ℤ → String

/-- `RBAC_CONTEXT`, the fields a condition may read. -/
def rbacContext : ContextSchema where
  name := "rbac"
  fields := [("now.hour", .number), ("now.weekday", .number), ("now.iso", .string),
    ("scope", .string)]

def rbacValues (env : Policy) (now : ℤ) (scope : Scope) : Context := fun field =>
  match field with
  | "now.hour" => some (.int (env.hour now))
  | "now.weekday" => some (.int (env.weekday now))
  | "now.iso" => some (.str (env.iso now))
  | "scope" => some (.str scope.value)
  | _ => none

/-- `condition_allows`: what cannot be evaluated denies. -/
def conditionAllows (env : Policy) (now : ℤ) (grant : Grant) : Bool :=
  match grant.condition with
  | none => true
  | some condition =>
    env.conditionsEnabled &&
      match parse condition with
      | .error _ => false
      | .ok e =>
        match evaluate e (rbacValues env now grant.scope) with
        | .error _ => false
        | .ok allowed => allowed

/-- Who acts and on what. -/
structure ScopeContext where
  actingUserId : String
  userRegionId : Option String
  userBbzId : Option String
  userWorkplaceId : Option String
  targetRegionId : Option String
  targetBbzId : Option String
  targetWorkplaceId : Option String
  targetOwnerId : Option String
  targetAssigneeId : Option String

/-- Both are known and equal. -/
def both (a b : Option String) : Bool := a.isSome && a = b

/-- `scope_covers`. -/
def scopeCovers (scope : Scope) (ctx : ScopeContext) : Bool :=
  match scope with
  | .global => true
  | .region => both ctx.userRegionId ctx.targetRegionId
  | .bbz => both ctx.userBbzId ctx.targetBbzId
  | .workplace => both ctx.userWorkplaceId ctx.targetWorkplaceId
  | .ownEvents => both (some ctx.actingUserId) ctx.targetOwnerId
  | .assignedEvents => both (some ctx.actingUserId) ctx.targetAssigneeId

/-- `grant_resolves`. -/
def grantResolves (env : Policy) (now : ℤ) (grant : Grant) (ctx : ScopeContext) : Bool :=
  scopeCovers grant.scope ctx && conditionAllows env now grant

/-! ## The permission service -/

def RolePermission.grant (rp : RolePermission) : Grant :=
  ⟨rp.permissionKey, rp.scope, rp.condition⟩

def PermissionDelegation.grant (d : PermissionDelegation) : Grant :=
  ⟨d.permissionKey, d.scope, none⟩

def PermissionDelegation.active (d : PermissionDelegation) (now : ℤ) : Bool :=
  d.revokedAt.isNone && now < d.expiresAt

/-- The moment lies in a window with open ends. -/
def within (validFrom validTo : Option ℤ) (now : ℤ) : Bool :=
  validFrom.all (· ≤ now) && validTo.all (now ≤ ·)

namespace Rbac

variable (t : Rbac)

def holdsDirectly (now : ℤ) (userId roleId : String) : Bool :=
  t.userRoles.any fun ur =>
    ur.userId = userId && ur.roleId = roleId && within ur.validFrom ur.validTo now

def holdsViaGroup (userId roleId : String) : Bool :=
  t.userGroups.any fun ug => ug.userId = userId && t.groupRoles.any fun gr =>
    gr.groupId = ug.groupId && gr.roleId = roleId

def roleGrants (now : ℤ) (userId : String) : List Grant :=
  (t.rolePermissions.filter fun rp =>
    t.holdsDirectly now userId rp.roleId || t.holdsViaGroup userId rp.roleId).map (·.grant)

def lentGrants (now : ℤ) (userId : String) : List Grant :=
  (t.delegations.filter fun d => d.toUserId = userId && d.active now).map (·.grant)

/-- `grants_for_user`. -/
def grantsForUser (now : ℤ) (userId : String) : List Grant :=
  t.roleGrants now userId ++ t.lentGrants now userId

end Rbac

section Service

variable (env : Policy) (t : Rbac) (now : ℤ) (userId key : String)

/-- `authorize`, whatever the scope. -/
def authorize : Except PermissionKeyError Bool := do
  assertKnown key
  pure ((t.grantsForUser now userId).any fun g =>
    g.permissionKey = key && conditionAllows env now g)

/-- `authorize_scoped`. -/
def authorizeScoped (ctx : ScopeContext) : Except PermissionKeyError Bool := do
  assertKnown key
  pure ((t.grantsForUser now userId).any fun g =>
    g.permissionKey = key && grantResolves env now g ctx)

end Service

variable {env : Policy} {t : Rbac} {now : ℤ} {userId key : String} {g : Grant}

theorem authorize_known (h : key ∈ permissionKeys) :
    authorize env t now userId key = .ok ((t.grantsForUser now userId).any fun g =>
      g.permissionKey = key && conditionAllows env now g) := by
  have hknown : assertKnown key = .ok () := if_pos (by simpa using h)
  rw [authorize, hknown]
  rfl

theorem mem_roleGrants :
    g ∈ t.roleGrants now userId ↔ ∃ rp ∈ t.rolePermissions,
      (t.holdsDirectly now userId rp.roleId ∨ t.holdsViaGroup userId rp.roleId) ∧
        rp.grant = g := by
  simp [Rbac.roleGrants, and_assoc]

theorem mem_lentGrants :
    g ∈ t.lentGrants now userId ↔ ∃ d ∈ t.delegations, d.toUserId = userId ∧ d.active now ∧
      d.grant = g := by
  simp [Rbac.lentGrants, and_assoc]

theorem conditionAllows_lent (d : PermissionDelegation) :
    conditionAllows env now d.grant = true := rfl

/-! ## Malformed conditions -/

/-- The condition of the grant is the expression, and it is evaluated in the context. -/
structure Grant.Carries (g : Grant) (env : Policy) (now : ℤ) (e : Expr) (ctx : Context) :
    Prop where
  parses : ∃ condition, g.condition = some condition ∧ parse condition = .ok e
  binds : rbacValues env now g.scope = ctx

end BbzPlatform.Access
