import Dgraphai.Accounts
import Dgraphai.RoleAssignments

/-!
# Roles given with accounts and through groups (`auth/local.py`, `api/users.py`, `auth/scim.py`)

`Store` puts the role tables beside the directory. The endpoints that make an account give it a role with
`assign_builtin_role`, in the same transaction; `patch_scim_group` gives and takes the role that a group stands for,
for the user ids of the request. An id is looked up nowhere: the foreign key of an assignment asks for a user, of
whatever tenant.
-/

namespace Dgraphai.RoleTables.Tables
variable (t : Tables)

theorem joined_filter (p : RoleAssignment → Bool) : ∀ a ∈ t.assignments.filter p, ∃ r ∈ t.roles, r.id = a.roleID :=
  fun a ha => t.joined a (List.mem_filter.1 ha).1

/-- `delete(RoleAssignment).where(user_id == …, role_id == …)`. -/
def unassign (userID : Auth.Uuid) (roleID : ℕ) : Tables :=
  { t with
    assignments := t.assignments.filter fun a => ¬ (a.userID = userID ∧ a.roleID = roleID)
    joined := t.joined_filter _ }

end Dgraphai.RoleTables.Tables

namespace Dgraphai.RoleStore

open Auth (Uuid Time HttpError serverError User)
open Provisioning (Services Directory Provision SignupRequest SignupResponse AcceptInviteRequest AcceptInviteResponse)
open RoleTables (Tables Role RoleAssignment)

structure GroupServices extends Services where
  /-- The primary key of the n-th role row. -/
  roleKey : ℕ → Uuid

/-- `tenants` and `users` of the tables are read from the directory where an insert is checked (`tablesOf`). -/
structure Store where
  dir : Directory
  tables : Tables
  /-- `user_invites.role`, by `token_hash`. -/
  inviteRoles : String → Option String

/-- The role tables as the inserts for a tenant see them: foreign keys refer to the rows of the directory. -/
def Store.tablesOf (s : Store) (tenantID : Uuid) : Tables :=
  { s.tables with
    tenants := if (s.dir.auth.tenants tenantID).isSome then [tenantID] else []
    users := s.dir.auth.users.map User.id }

abbrev StoreRequest := Txn Store HttpError

/-- A body that stays within the directory. -/
def onDirectory {α : Type} (m : Provision α) : StoreRequest α := Txn.zoom Store.dir (fun s d => { s with dir := d }) m

/-- `await assign_builtin_role(user_id, tenant_id, role_name, db)`. -/
def assignRole (userID tenantID : Uuid) (name : String) : StoreRequest Unit := do
  let made ← Txn.read fun s => (s.tablesOf tenantID).assignBuiltinRole userID tenantID name
  let tables ← Txn.ofOption serverError made.toOption
  Txn.write fun s => { s with tables := tables }

/-! ### Accounts -/

/-- The tables of a sign-up around its role are those of `Provisioning.signup`. -/
def signup (S : Services) (now : Time) (hex : String) (req : SignupRequest) : StoreRequest SignupResponse := do
  let response ← onDirectory (Provisioning.signup S now hex req)
  assignRole response.userID response.tenantID "admin"
  pure response

def acceptInvite (S : Services) (now : Time) (req : AcceptInviteRequest) : StoreRequest AcceptInviteResponse := do
  let tokHash := S.env.hashToken req.token
  let invite ← Txn.read fun s => s.dir.invites tokHash
  let role ← Txn.read fun s => s.inviteRoles tokHash
  let response ← onDirectory (Provisioning.acceptInvite S now req)
  let invite ← Txn.ofOption serverError invite
  -- a role without a name is refused by its column
  let name ← Txn.ofOption serverError role
  assignRole response.id invite.tenantID name
  pure response

def createScimUser (S : Services) (now : Time) (tenantID : String) (authorization : Option String)
    (body : Json.Fields) : StoreRequest User := do
  let row ← onDirectory (Provisioning.createScimUser S now tenantID authorization body)
  let role ← Txn.ofOption serverError (Provisioning.extractRole S body)
  assignRole row.id row.tenantID role
  pure row

/-! ### Groups -/

/-- `op.get("op", "").lower()`; `none` raises. -/
def opName (S : Services) (op : Json) : Option String := do
  let name ← (op.attrGet "op" (.str "")).toOption
  (Auth.Json.asText name).map S.lower

/-- `op.get("value", [])` as a loop takes it; `none` raises. -/
def opMembers (op : Json) : Option (List Json) := do
  let value ← (op.attrGet "value" (.arr [])).toOption
  value.iter?

/-- The user id of a member, if it has one; `none` raises. -/
def memberID (S : Services) (member : Json) : Option (Option Uuid) := do
  let value ← (member.attrGet "value" (.str "")).toOption
  if value.truthy S.isZero then
    let text ← Auth.Json.asText value
    (S.env.parseUuid text).map some
  else pure none

/-- `for member in op.get("value", [])`. -/
def forMembers (S : Services) (act : Uuid → StoreRequest Unit) : List Json → StoreRequest Unit
  | [] => pure ()
  | member :: members => do
    let id ← Txn.ofOption serverError (memberID S member)
    id.elim (pure ()) act
    forMembers S act members

def groupOp (S : Services) (tenantID : Uuid) (role : Role) (op : Json) : StoreRequest Unit := do
  let name ← Txn.ofOption serverError (opName S op)
  if name = "add" then do
    let members ← Txn.ofOption serverError (opMembers op)
    forMembers S (fun id => assignRole id tenantID role.name) members
  else if name = "remove" then do
    let members ← Txn.ofOption serverError (opMembers op)
    forMembers S (fun id => Txn.write fun s => { s with tables := s.tables.unassign id role.id }) members
  else pure ()

/-- `for op in body.get("Operations", [])`. -/
def groupOps (S : Services) (tenantID : Uuid) (role : Role) : List Json → StoreRequest Unit
  | [] => pure ()
  | op :: ops => do
    groupOp S tenantID role op
    groupOps S tenantID role ops

/-- The tenant of the request, and the role its group stands for. -/
def scimGroup (S : GroupServices) (now : Time) (tenantID groupID : String) (authorization : Option String) :
    StoreRequest (Uuid × Role) := do
  let tenant ← onDirectory (Provisioning.getScimTenant S.toServices now tenantID authorization)
  let id ← Txn.ofOption serverError (S.env.parseUuid groupID)
  let role ← Txn.read fun s => s.tables.roles.find? fun r => S.roleKey r.id = id ∧ r.tenantID = tenant
  let role ← Txn.ofOption ⟨404, "Group/role not found"⟩ role
  pure (tenant, role)

def patchScimGroup (S : GroupServices) (now : Time) (tenantID groupID : String) (authorization : Option String)
    (body : Json.Fields) : StoreRequest Role := do
  let (tenant, role) ← scimGroup S now tenantID groupID authorization
  let ops ← Txn.ofOption serverError (Provisioning.operations body)
  groupOps S.toServices tenant role ops
  pure role

/-! ### Histories -/

inductive StoreEvent where
  | signup (now : Time) (hex : String) (req : SignupRequest)
  | acceptInvite (now : Time) (req : AcceptInviteRequest)
  | createScimUser (now : Time) (tenantID : String) (authorization : Option String) (body : Json.Fields)
  | patchScimGroup (now : Time) (tenantID groupID : String) (authorization : Option String) (body : Json.Fields)

def StoreEvent.body (S : GroupServices) : StoreEvent → StoreRequest Unit
  | .signup now hex req => do
    let _response ← RoleStore.signup S.toServices now hex req
    pure ()
  | .acceptInvite now req => do
    let _response ← RoleStore.acceptInvite S.toServices now req
    pure ()
  | .createScimUser now tenantID authorization body => do
    let _row ← RoleStore.createScimUser S.toServices now tenantID authorization body
    pure ()
  | .patchScimGroup now tenantID groupID authorization body => do
    let _role ← RoleStore.patchScimGroup S now tenantID groupID authorization body
    pure ()

/-- The store after a request in its own `get_db` scope. -/
def step (S : GroupServices) (s : Store) (e : StoreEvent) : Option Store := some ((e.body S).exec s).2

end Dgraphai.RoleStore
