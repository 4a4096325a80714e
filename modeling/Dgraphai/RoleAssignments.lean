import Dgraphai.AuthTables
import Mathlib.Data.List.Nodup
import Mathlib.Tactic.SplitIfs

/-!
# Roles and permissions (`rbac/engine.py`)

`Tables` holds the role rows with what the schema promises of them. The writer `assignBuiltinRole` asks whether
any assignment of the role is there; the reader `loadUserPermissions` asks for one of the tenant that has not
expired, and takes the permissions from the role row. `establishes_iff` says when what the writer finds or
leaves is what the reader needs.
-/

namespace Dgraphai.RoleTables

open Auth (Uuid Time)

inductive RoleType where
  | admin | analyst | viewer | agent | custom
  deriving DecidableEq, Repr

/-- `BUILTIN_PERMISSIONS.get(role_type, set())`. -/
def builtinPermissions : RoleType → List String
  | .admin => ["admin:*"]
  | .analyst =>
    ["graph:read", "graph:query", "mounts:read", "mounts:index", "actions:propose", "scanners:read", "users:read"]
  | .viewer => ["graph:read", "mounts:read", "scanners:read"]
  | .agent => ["scanners:register", "scanners:read", "graph:read"]
  | .custom => []

/-- `role_name if role_name in ("admin", "analyst", "viewer", "agent") else "custom"`. -/
def RoleType.ofName (name : String) : RoleType :=
  if name = "admin" then .admin
  else if name = "analyst" then .analyst
  else if name = "viewer" then .viewer
  else if name = "agent" then .agent
  else .custom

/-- `_expand_permissions`. -/
def expandPermissions (permissions : List String) : List String :=
  if "admin:*" ∈ permissions then
    [RoleType.admin, .analyst, .viewer, .agent].flatMap builtinPermissions ++ permissions
  else permissions

/-- A primary key is the number of its draw: `uuid4` does not repeat. -/
structure Role where
  id : ℕ
  tenantID : Uuid
  name : String
  roleType : Option RoleType
  permissions : Option (List String)
  isSystem : Bool
  deriving DecidableEq, Repr

/-- What a role grants to its holders. -/
def Role.grants (role : Role) : List String :=
  (role.roleType.map builtinPermissions).getD [] ++ role.permissions.getD []

structure RoleAssignment where
  tenantID : Uuid
  userID : Uuid
  roleID : ℕ
  expiresAt : Option Time
  deriving DecidableEq, Repr

/-- `assignment.expires_at and assignment.expires_at < now`. -/
def RoleAssignment.Expired (a : RoleAssignment) (now : Time) : Prop := ∃ t ∈ a.expiresAt, t < now

instance (a : RoleAssignment) (now : Time) : Decidable (a.Expired now) := inferInstanceAs (Decidable (∃ _ ∈ _, _))

/-- The rows, with the primary key, `uq_tenant_role_name` and the foreign key of an assignment. -/
structure Tables where
  tenants : List Uuid
  users : List Uuid
  roles : List Role
  assignments : List RoleAssignment
  nextID : ℕ
  drawn : ∀ r ∈ roles, r.id < nextID
  keyed : (roles.map Role.id).Nodup
  named : (roles.map fun r => (r.tenantID, r.name)).Nodup
  joined : ∀ a ∈ assignments, ∃ r ∈ roles, r.id = a.roleID

inductive DbError where
  | multipleResults | integrity
  deriving DecidableEq, Repr

/-- `scalar_one_or_none()`. -/
def scalarOneOrNone {α : Type} : List α → Except DbError (Option α)
  | [] => .ok none
  | [a] => .ok (some a)
  | _ :: _ :: _ => .error .multipleResults

namespace Tables
variable (t : Tables)

theorem drawn_append {role : Role} (hid : role.id = t.nextID) : ∀ r ∈ t.roles ++ [role], r.id < t.nextID + 1 := by
  intro r hr
  rcases List.mem_append.1 hr with hr | hr
  · exact Nat.lt_succ_of_lt (t.drawn r hr)
  · rw [List.mem_singleton.1 hr, hid]
    exact Nat.lt_succ_self _

theorem keyed_append {role : Role} (hid : role.id = t.nextID) : ((t.roles ++ [role]).map Role.id).Nodup := by
  rw [List.map_append, List.nodup_append]
  refine ⟨t.keyed, List.nodup_singleton _, ?_⟩
  rintro _ hr _ hnew rfl
  obtain ⟨r, hr, heq⟩ := List.mem_map.1 hr
  have hlt := t.drawn r hr
  have hsame : role.id = r.id := by simpa using (List.mem_singleton.1 hnew).symm.trans heq.symm
  omega

theorem named_append {role : Role} (h : ∀ r ∈ t.roles, ¬ (r.tenantID = role.tenantID ∧ r.name = role.name)) :
    ((t.roles ++ [role]).map fun r => (r.tenantID, r.name)).Nodup := by
  rw [List.map_append, List.nodup_append]
  refine ⟨t.named, List.nodup_singleton _, ?_⟩
  rintro _ hr _ hnew rfl
  obtain ⟨r, hr, heq⟩ := List.mem_map.1 hr
  obtain ⟨htenant, hname⟩ := Prod.mk.inj (heq.trans (List.mem_singleton.1 hnew))
  exact h r hr ⟨htenant, hname⟩

theorem joined_roles (role : Role) : ∀ a ∈ t.assignments, ∃ r ∈ t.roles ++ [role], r.id = a.roleID := by
  intro a ha
  obtain ⟨r, hr, hid⟩ := t.joined a ha
  exact ⟨r, List.mem_append_left _ hr, hid⟩

theorem joined_append {a : RoleAssignment} (h : ∃ r ∈ t.roles, r.id = a.roleID) :
    ∀ b ∈ t.assignments ++ [a], ∃ r ∈ t.roles, r.id = b.roleID := by
  intro b hb
  rcases List.mem_append.1 hb with hb | hb
  · exact t.joined b hb
  · rw [List.mem_singleton.1 hb]
    exact h

/-- `db.add(role)` with a flush. -/
def addRole (tenantID : Uuid) (name : String) (roleType : RoleType) (permissions : List String) (isSystem : Bool) :
    Except DbError (Role × Tables) :=
  let role : Role := ⟨t.nextID, tenantID, name, some roleType, some permissions, isSystem⟩
  if h : tenantID ∈ t.tenants ∧ ∀ r ∈ t.roles, ¬ (r.tenantID = tenantID ∧ r.name = name) then
    .ok (role, { t with
      roles := t.roles ++ [role]
      nextID := t.nextID + 1
      drawn := t.drawn_append rfl
      keyed := t.keyed_append rfl
      named := t.named_append h.2
      joined := t.joined_roles role })
  else .error .integrity

/-- `db.add(assignment)` with a flush. -/
def addAssignment (a : RoleAssignment) : Except DbError Tables :=
  if h : a.tenantID ∈ t.tenants ∧ a.userID ∈ t.users ∧ ∃ r ∈ t.roles, r.id = a.roleID then
    .ok { t with
      assignments := t.assignments ++ [a]
      joined := t.joined_append h.2.2 }
  else .error .integrity

/-- The roles of a name in a tenant. -/
def rolesNamed (tenantID : Uuid) (name : String) : List Role :=
  t.roles.filter fun r => r.tenantID = tenantID ∧ r.name = name

/-- The assignments of a role to a user. -/
def assigned (userID : Uuid) (roleID : ℕ) : List RoleAssignment :=
  t.assignments.filter fun a => a.userID = userID ∧ a.roleID = roleID

def ensureRole (tenantID : Uuid) (name : String) : Except DbError (Role × Tables) := do
  match ← scalarOneOrNone (t.rolesNamed tenantID name) with
  | some role => pure (role, t)
  | none => t.addRole tenantID name (.ofName name) (builtinPermissions (.ofName name)) true

def assignBuiltinRole (userID tenantID : Uuid) (name : String) : Except DbError Tables := do
  let made ← t.ensureRole tenantID name
  match ← scalarOneOrNone (made.2.assigned userID made.1.id) with
  | some _ => pure made.2
  | none => made.2.addAssignment ⟨tenantID, userID, made.1.id, none⟩

def role? (id : ℕ) : Option Role := t.roles.find? fun r => r.id = id

/-- The assignments of a user in a tenant that have not expired, with their roles. -/
def liveRoles (userID tenantID : Uuid) (now : Time) : List Role :=
  (t.assignments.filter fun a => a.userID = userID ∧ a.tenantID = tenantID ∧ ¬ a.Expired now).filterMap
    fun a => t.role? a.roleID

def held (userID tenantID : Uuid) (now : Time) : List String := (t.liveRoles userID tenantID now).flatMap Role.grants

/-- The role names and the permissions of a user. -/
def loadUserPermissions (userID tenantID : Uuid) (now : Time) : List String × List String :=
  ((t.liveRoles userID tenantID now).map Role.name, expandPermissions (t.held userID tenantID now))

/-- The call returns, and the user holds the permissions of the role. -/
def Establishes (userID tenantID : Uuid) (name : String) (now : Time) : Prop :=
  ∃ t', t.assignBuiltinRole userID tenantID name = .ok t' ∧
    builtinPermissions (.ofName name) ⊆ (t'.loadUserPermissions userID tenantID now).2

/-- A role that is not there is made, with its permissions. One that is there grants what its row says, and only
where the user has no assignment of it; where there is one, the user must hold the permissions already. Rows are
added for a user and a tenant that exist. -/
def Suits (userID tenantID : Uuid) (name : String) (now : Time) : Prop :=
  match t.rolesNamed tenantID name with
  | [] => tenantID ∈ t.tenants ∧ userID ∈ t.users
  | role :: _ =>
    match t.assigned userID role.id with
    | [] => (tenantID ∈ t.tenants ∧ userID ∈ t.users) ∧
        builtinPermissions (.ofName name) ⊆ expandPermissions (t.held userID tenantID now ++ role.grants)
    | [_] => builtinPermissions (.ofName name) ⊆ expandPermissions (t.held userID tenantID now)
    | _ :: _ :: _ => False

end Tables

variable {t t' : Tables} {userID tenantID : Uuid} {name : String} {now : Time} {role : Role} {a : RoleAssignment}

theorem subset_expand (permissions : List String) : permissions ⊆ expandPermissions permissions := by
  unfold expandPermissions
  split_ifs
  · exact List.subset_append_right _ _
  · exact List.Subset.refl _

namespace Tables

/-! ### Rows by key -/

theorem role?_of_mem (h : role ∈ t.roles) : t.role? role.id = some role := by
  obtain ⟨r, hr⟩ : ∃ r, t.role? role.id = some r := by
    rw [← Option.isSome_iff_exists, role?, List.find?_isSome]
    exact ⟨role, h, decide_eq_true rfl⟩
  have hid : r.id = role.id := of_decide_eq_true (List.find?_some (p := fun r : Role => r.id = role.id) hr)
  rw [hr, List.inj_on_of_nodup_map t.keyed (List.mem_of_find?_eq_some hr) h hid]

/-- There is at most one role of a name in a tenant. -/
theorem rolesNamed_cases (t : Tables) (tenantID : Uuid) (name : String) :
    t.rolesNamed tenantID name = [] ∨ ∃ role ∈ t.roles, t.rolesNamed tenantID name = [role] := by
  have hmem : ∀ r ∈ t.rolesNamed tenantID name, r ∈ t.roles ∧ r.tenantID = tenantID ∧ r.name = name := by
    intro r hr
    obtain ⟨hr, hcond⟩ := List.mem_filter.1 hr
    exact ⟨hr, of_decide_eq_true hcond⟩
  have hnodup : (t.rolesNamed tenantID name).Nodup := (List.Nodup.of_map _ t.keyed).filter _
  rcases hlist : t.rolesNamed tenantID name with _ | ⟨r, _ | ⟨r', rest⟩⟩
  · exact .inl rfl
  · exact .inr ⟨r, (hmem r (hlist ▸ .head _)).1, rfl⟩
  · obtain ⟨hr, htenant, hname⟩ := hmem r (hlist ▸ .head _)
    obtain ⟨hr', htenant', hname'⟩ := hmem r' (hlist ▸ .tail _ (.head _))
    have hsame : r = r' := List.inj_on_of_nodup_map t.named hr hr' (by rw [htenant, hname, htenant', hname'])
    rw [hlist, hsame] at hnodup
    exact absurd (.head _) (List.nodup_cons.1 hnodup).1

/-! ### Rows added -/

theorem addAssignment_ok (h : a.tenantID ∈ t.tenants ∧ a.userID ∈ t.users ∧ ∃ r ∈ t.roles, r.id = a.roleID) :
    ∃ t', t.addAssignment a = .ok t' ∧ t'.roles = t.roles ∧ t'.assignments = t.assignments ++ [a] :=
  ⟨_, dif_pos h, rfl, rfl⟩

theorem addRole_ok {roleType : RoleType} {permissions : List String} {isSystem : Bool}
    (htenant : tenantID ∈ t.tenants) (hnone : t.rolesNamed tenantID name = []) :
    ∃ role t', t.addRole tenantID name roleType permissions isSystem = .ok (role, t') ∧
      role = ⟨t.nextID, tenantID, name, some roleType, some permissions, isSystem⟩ ∧ t'.tenants = t.tenants ∧
      t'.users = t.users ∧ t'.roles = t.roles ++ [role] ∧ t'.assignments = t.assignments := by
  have hfree : ∀ r ∈ t.roles, ¬ (r.tenantID = tenantID ∧ r.name = name) := by
    intro r hr hsame
    have hmem : r ∈ t.rolesNamed tenantID name := List.mem_filter.2 ⟨hr, decide_eq_true hsame⟩
    rw [hnone] at hmem
    cases hmem
  exact ⟨_, _, dif_pos ⟨htenant, hfree⟩, rfl, rfl, rfl, rfl, rfl⟩

theorem liveRoles_add (hroles : t'.roles = t.roles) (hadd : t'.assignments = t.assignments ++ [a])
    (huser : a.userID = userID) (htenant : a.tenantID = tenantID) (hlive : a.expiresAt = none)
    (hrole : t.role? a.roleID = some role) :
    t'.liveRoles userID tenantID now = t.liveRoles userID tenantID now ++ [role] := by
  have hrole' : ∀ id, t'.role? id = t.role? id := by
    intro id
    rw [role?, role?, hroles]
  have hcond : a.userID = userID ∧ a.tenantID = tenantID ∧ ¬ a.Expired now := by
    refine ⟨huser, htenant, ?_⟩
    rintro ⟨expiry, hexpiry, -⟩
    rw [hlive] at hexpiry
    cases hexpiry
  unfold liveRoles
  simp only [hadd, hrole', List.filter_append, List.filterMap_append]
  simp [hcond, hrole]

/-! ### The assignment -/

/-- The second half of the call, for a role that is there. -/
theorem giving_iff (hrole : role ∈ t.roles) (perms : List String) :
    (∃ t', (scalarOneOrNone (t.assigned userID role.id)).bind (fun found => match found with
        | some _ => pure t
        | none => t.addAssignment ⟨tenantID, userID, role.id, none⟩) = .ok t' ∧
      perms ⊆ (t'.loadUserPermissions userID tenantID now).2) ↔
      match t.assigned userID role.id with
      | [] => (tenantID ∈ t.tenants ∧ userID ∈ t.users) ∧
          perms ⊆ expandPermissions (t.held userID tenantID now ++ role.grants)
      | [_] => perms ⊆ expandPermissions (t.held userID tenantID now)
      | _ :: _ :: _ => False := by
  rcases t.assigned userID role.id with _ | ⟨a, _ | ⟨b, rest⟩⟩
  · -- a new assignment
    show (∃ t', t.addAssignment ⟨tenantID, userID, role.id, none⟩ = .ok t' ∧ _) ↔ _
    by_cases hknown : tenantID ∈ t.tenants ∧ userID ∈ t.users
    · obtain ⟨t₁, hadd, hroles, hassignments⟩ :=
        @addAssignment_ok t ⟨tenantID, userID, role.id, none⟩ ⟨hknown.1, hknown.2, role, hrole, rfl⟩
      have hlive := @liveRoles_add t t₁ userID tenantID now role _ hroles hassignments rfl rfl rfl (role?_of_mem hrole)
      have hheld : t₁.held userID tenantID now = t.held userID tenantID now ++ role.grants := by
        simp [held, hlive]
      rw [hadd, and_iff_right hknown, ← hheld]
      constructor
      · rintro ⟨_, heq, h⟩
        obtain rfl := Except.ok.inj heq
        exact h
      · exact fun h => ⟨t₁, rfl, h⟩
    · refine iff_of_false ?_ fun h => hknown h.1
      rintro ⟨t', heq, -⟩
      have herror : t.addAssignment ⟨tenantID, userID, role.id, none⟩ = .error .integrity :=
        dif_neg fun h => hknown ⟨h.1, h.2.1⟩
      rw [herror] at heq
      cases heq
  · -- the one that is there
    constructor
    · rintro ⟨_, heq, h⟩
      obtain rfl := Except.ok.inj heq
      exact h
    · exact fun h => ⟨t, rfl, h⟩
  · refine iff_of_false ?_ id
    rintro ⟨t', heq, -⟩
    cases heq

theorem ensureRole_of_none (h : t.rolesNamed tenantID name = []) : t.ensureRole tenantID name =
    t.addRole tenantID name (.ofName name) (builtinPermissions (.ofName name)) true := by
  rw [ensureRole, h]
  rfl

theorem ensureRole_of_role (h : t.rolesNamed tenantID name = [role]) : t.ensureRole tenantID name = .ok (role, t) := by
  rw [ensureRole, h]
  rfl

/-- After `assign_builtin_role` a user holds the permissions of the role exactly if the rows it finds suit. -/
theorem establishes_iff (t : Tables) (userID tenantID : Uuid) (name : String) (now : Time) :
    t.Establishes userID tenantID name now ↔ t.Suits userID tenantID name now := by
  unfold Establishes Suits assignBuiltinRole
  rcases t.rolesNamed_cases tenantID name with hnone | ⟨role, hrole, hone⟩
  · rw [ensureRole_of_none hnone, hnone]
    by_cases htenant : tenantID ∈ t.tenants
    · -- the new role has its permissions, and nobody holds it yet
      obtain ⟨role, t₁, hadd, hnew, htenants, husers, hroles, hassignments⟩ :=
        @addRole_ok t tenantID name (.ofName name) (builtinPermissions (.ofName name)) true htenant hnone
      have hrole : role ∈ t₁.roles := hroles ▸ List.mem_append_right _ (.head _)
      have hnobody : t₁.assigned userID role.id = [] := by
        refine List.filter_eq_nil_iff.2 fun a ha hcond => ?_
        obtain ⟨r, hr, hid⟩ := t.joined a (hassignments ▸ ha)
        have hlt := t.drawn r hr
        have hfresh : a.roleID = t.nextID := by rw [(of_decide_eq_true hcond).2, hnew]
        omega
      have hgrants : builtinPermissions (.ofName name) ⊆
          expandPermissions (t₁.held userID tenantID now ++ role.grants) := by
        refine List.Subset.trans ?_ (subset_expand _)
        rw [hnew]
        exact List.Subset.trans (List.subset_append_left _ _) (List.subset_append_right _ _)
      have hgive := @giving_iff t₁ userID tenantID now role hrole (builtinPermissions (.ofName name))
      rw [hnobody, htenants, husers, and_iff_left hgrants] at hgive
      rw [hadd]
      refine Iff.trans ?_ hgive
      rw [← hnobody]
      exact Iff.rfl
    · refine iff_of_false ?_ fun h => htenant h.1
      rintro ⟨t', heq, -⟩
      have herror : t.addRole tenantID name (.ofName name) (builtinPermissions (.ofName name)) true =
          .error .integrity := dif_neg fun h => htenant h.1
      rw [herror] at heq
      cases heq
  · rw [ensureRole_of_role hone, hone]
    exact giving_iff hrole _

/-- A viewer whose assignment has expired. -/
def expiredViewer : Tables where
  tenants := ["t"]
  users := ["u"]
  roles := [⟨0, "t", "viewer", some .viewer, some (builtinPermissions .viewer), true⟩]
  assignments := [⟨"t", "u", 0, some 1⟩]
  nextID := 1
  drawn := by decide
  keyed := by decide
  named := by decide
  joined := by decide

theorem expiredViewer_not_established : ¬ ∀ (t : Tables) (userID tenantID : Uuid), tenantID ∈ t.tenants →
    userID ∈ t.users → ∀ name ∈ ["admin", "analyst", "viewer", "agent"], ∀ now,
      t.Establishes userID tenantID name now := by
  intro h
  obtain ⟨t', hcall, hperms⟩ := h expiredViewer "u" "t" (by decide) (by decide) "viewer" (by decide) 2
  have hsame : expiredViewer.assignBuiltinRole "u" "t" "viewer" = .ok expiredViewer := rfl
  obtain rfl : expiredViewer = t' := Except.ok.inj (hsame.symm.trans hcall)
  have hread := @hperms "graph:read" (by decide)
  revert hread
  decide

end Tables
end Dgraphai.RoleTables
