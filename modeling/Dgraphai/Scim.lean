import Dgraphai.Lib.PyJson
import Dgraphai.Sessions

/-!
# SCIM provisioning (`auth/scim.py`)

`Directory` is the auth tables with the tables of the provisioning endpoints beside them. A user row that an
endpoint assigns to is an `Edit` of the loaded row until it is flushed; a flush stores what the columns take
and raises for anything else. `NULL` in `is_active` is compared with `True` wherever it is read, so it is
`false` here. The role tables, and the `role`, `name` and `idp_provider` columns that only label a user, are
left out; an endpoint returns the row that `_user_to_scim` renders.
-/

namespace Dgraphai.Provisioning

open Auth (Uuid Time HttpError serverError User)

structure APIKey where
  id : Uuid
  userID : Uuid
  tenantID : Uuid
  name : String
  keyHash : String
  keyPrefix : String
  /-- May lie before 1970, where `Time` starts. -/
  expiresAt : Option Int
  revokedAt : Option Time
  deriving DecidableEq, Repr

structure UserInvite where
  tenantID : Uuid
  email : String
  expiresAt : Time
  usedAt : Option Time
  deriving DecidableEq, Repr

structure SCIMConfig where
  tenantID : Uuid
  tokenHash : String
  isActive : Bool
  lastUsedAt : Option Time
  deriving DecidableEq, Repr

structure SAMLConfig where
  tenantID : Uuid
  idpEntityID : String
  idpSSOURL : String
  idpCertificate : String
  emailAttribute : Option String
  nameAttribute : Option String
  isActive : Bool
  deriving DecidableEq, Repr

/-- `slugs` is the unique `tenants.slug`; invites are keyed by `token_hash`. -/
structure Directory where
  auth : Auth.Db
  slugs : String → Option Uuid
  apiKeys : List APIKey
  invites : String → Option UserInvite
  scimConfigs : List SCIMConfig
  samlConfigs : List SAMLConfig

/-- What `OneLogin_Saml2_Auth` says of a response. -/
structure SAMLAnswer where
  /-- `get_errors()`, as text. -/
  errors : Option String
  isAuthenticated : Bool
  attributes : List (String × List String)
  nameID : Option String
  deriving DecidableEq, Repr

structure Services where
  env : Auth.Env
  /-- `str.lower` and `str.strip`. -/
  lower : String → String
  strip : String → String
  /-- Whether the text of a float is a zero, or a one. -/
  isZero : String → Bool
  isOne : String → Bool
  /-- `secrets.token_urlsafe(32)`, drawn for the n-th primary key. -/
  tokenUrlsafe : Nat → String
  /-- `process_response` for a tenant's slug and config, if `python3-saml` is installed; `none` raises. -/
  saml : Option (String → SAMLConfig → String → Option SAMLAnswer)

abbrev Provision := Txn Directory HttpError

/-- A body that stays within the auth tables. -/
def lift {α : Type} (m : Auth.Request α) : Provision α :=
  Txn.zoom Directory.auth (fun d db => { d with auth := db }) m

/-! ### User rows -/

/-- `str(j)`. -/
def Services.str (S : Services) : Json → String
  | .str s => s
  | j => S.env.pyStr j

/-- What a `Boolean` column stores; `none` is a value it refuses. -/
def asActive (S : Services) : Json → Option Bool
  | .null => some false
  | .bool b => some b
  | .num 0 => some false
  | .num 1 => some true
  | .real text => if S.isZero text then some false else if S.isOne text then some true else none
  | _ => none

/-- What a nullable `String` column stores. -/
def asNullable : Json → Option (Option String)
  | .null => some none
  | .str s => some (some s)
  | _ => none

/-- The attributes of a loaded user as the endpoint has assigned them. -/
structure Edit where
  email : Json
  displayName : Json
  externalID : Json
  isActive : Json

def Edit.ofUser (user : User) : Edit :=
  ⟨.str user.email, .str user.displayName, (user.externalID.map Json.str).getD .null, .bool user.isActive⟩

/-- The row as a flush stores it. -/
def Edit.row (S : Services) (edit : Edit) (user : User) : Option User := do
  let email ← Auth.Json.asText edit.email
  let displayName ← Auth.Json.asText edit.displayName
  let externalID ← asNullable edit.externalID
  let isActive ← asActive S edit.isActive
  pure { user with email, displayName, externalID, isActive }

/-- No other user of the tenant has the email of the row (`uq_tenant_email`). -/
def Directory.EmailFree (d : Directory) (row : User) : Prop :=
  ∀ u ∈ d.auth.users, u.id ≠ row.id → u.tenantID = row.tenantID → u.email ≠ row.email

instance (d : Directory) (row : User) : Decidable (d.EmailFree row) :=
  inferInstanceAs (Decidable (∀ u ∈ d.auth.users, _))

def Directory.setUser (d : Directory) (row : User) : Directory :=
  { d with auth := { d.auth with users := d.auth.users.map fun u => if u.id = row.id then row else u } }

/-- `db.flush()` with a changed user. -/
def flushUser (S : Services) (user : User) (edit : Edit) : Provision User := do
  let row ← Txn.ofOption serverError (edit.row S user)
  let taken ← Txn.read fun d => decide (¬ d.EmailFree row)
  Txn.raiseIf (taken = true) serverError
  Txn.write fun d => d.setUser row
  pure row

def Directory.addUser (d : Directory) (row : User) : Directory :=
  { d with auth := { d.auth with users := d.auth.users ++ [row], nextID := d.auth.nextID + 1 } }

/-- `db.add(user)`, flushed; the primary key is drawn here. -/
def insertUser (S : Services) (user : User) (edit : Edit) : Provision User := do
  let id ← Txn.read fun d => S.env.uuid4 d.auth.nextID
  let row ← Txn.ofOption serverError (edit.row S { user with id := id })
  let taken ← Txn.read fun d => decide (¬ d.EmailFree row)
  Txn.raiseIf (taken = true) serverError
  Txn.write fun d => d.addUser row
  pure row

/-- `select(User).where(User.id == …, User.tenant_id == …)`. -/
def Directory.userOf (d : Directory) (id tenantID : Uuid) : Option User :=
  (d.auth.user id).filter fun u => u.tenantID = tenantID

/-- `select(User).where(User.email == …, User.tenant_id == …)`. -/
def Directory.usersByEmail (d : Directory) (email : String) (tenantID : Uuid) : List User :=
  d.auth.users.filter fun u => u.email = email ∧ u.tenantID = tenantID

/-- `update(APIKey).where(user_id == …, revoked_at == None).values(revoked_at=now)`. -/
def Directory.revokeKeysOf (d : Directory) (userID : Uuid) (now : Time) : Directory :=
  { d with
    apiKeys := d.apiKeys.map fun k =>
      if k.userID = userID ∧ k.revokedAt = none then { k with revokedAt := some now } else k }

/-! ### Reading a SCIM body -/

section Body
variable (S : Services)

/-- `_extract_email`; `none` raises. -/
def extractEmail (body : Json.Fields) : Option Json :=
  let userName := Json.getD body "userName" (.str "")
  if userName.truthy S.isZero then some userName
  else
    let emails := Json.getD body "emails" (.arr [])
    if emails.truthy S.isZero then
      match emails with
      | .arr (first :: _) => (first.attrGet "value" (.str "")).toOption
      | _ => none
    else some (.str "")

/-- `_extract_name`. -/
def extractName (body : Json.Fields) : Json :=
  match Json.getD body "name" (.obj []) with
  | .obj name =>
    let formatted := Json.getD name "formatted" .null
    if formatted.truthy S.isZero then formatted
    else .str (S.strip (S.str (Json.getD name "givenName" (.str "")) ++ " " ++
      S.str (Json.getD name "familyName" (.str ""))))
  | name => .str (S.str name)

/-- `_extract_role`; `none` raises. -/
def extractRole (body : Json.Fields) : Option String :=
  let groups := Json.getD body "groups" (.arr [])
  if groups.truthy S.isZero then
    match groups with
    | .arr (first :: _) => do
      let display ← (first.attrGet "display" (.str "")).toOption
      let display ← Auth.Json.asText display
      pure (if S.lower display ∈ ["admin", "analyst", "viewer"] then S.lower display else "analyst")
    | _ => none
  else some "analyst"

/-- `value or default`. -/
def orElse (value default : Json) : Json := if value.truthy S.isZero then value else default

end Body

/-! ### Endpoints -/

def getScimTenant (S : Services) (now : Time) (tenantID : String) (authorization : Option String) :
    Provision Uuid := do
  let header := (authorization.getD "").toList
  Txn.raiseIf (¬ "Bearer ".toList <+: header) ⟨401, "Bearer token required"⟩
  let tokHash := S.env.hashToken (String.ofList (header.drop 7))
  let id ← Txn.ofOption serverError (S.env.parseUuid tenantID)
  let configs ← Txn.read fun d => d.scimConfigs.filter fun c =>
    c.tenantID = id ∧ c.tokenHash = tokHash ∧ c.isActive
  let config ← lift (Auth.scalarOneOrNone configs)
  let _config ← Txn.ofOption ⟨401, "Invalid SCIM token"⟩ config
  let tenant ← Txn.read fun d => (d.auth.tenants id).filter (·.isActive)
  let _tenant ← Txn.ofOption ⟨404, "Tenant not found"⟩ tenant
  Txn.write fun d =>
    { d with
      scimConfigs := d.scimConfigs.map fun c =>
        if c.tenantID = id ∧ c.tokenHash = tokHash ∧ c.isActive then { c with lastUsedAt := some now } else c }
  pure id

def createScimUser (S : Services) (now : Time) (tenantID : String) (authorization : Option String)
    (body : Json.Fields) : Provision User := do
  let tenant ← getScimTenant S now tenantID authorization
  let email ← Txn.ofOption serverError (extractEmail S body)
  Txn.raiseIf (¬ email.truthy S.isZero) ⟨400, "userName (email) required"⟩
  let text ← Txn.ofOption serverError (Auth.Json.asText email)
  let existing ← Txn.read fun d => d.usersByEmail text tenant
  let existing ← lift (Auth.scalarOneOrNone existing)
  Txn.raiseIf existing.isSome ⟨409, "User already exists"⟩
  let _role ← Txn.ofOption serverError (extractRole S body)
  insertUser S ⟨"", tenant, text, "", none, true, true, none⟩
    ⟨email, extractName S body, Json.getD body "externalId" (.str ""), Json.getD body "active" (.bool true)⟩

/-- The assignments of `replace_scim_user`. -/
def replaceEdit (S : Services) (body : Json.Fields) (user : User) : Option Edit := do
  let edit := Edit.ofUser user
  let email ← extractEmail S body
  pure {
    email := orElse S email edit.email
    displayName := orElse S (extractName S body) edit.displayName
    externalID := Json.getD body "externalId" edit.externalID
    isActive := Json.getD body "active" (.bool true) }

/-- The user a SCIM request names, 404 if the tenant has no such user. -/
def scimUser (S : Services) (now : Time) (tenantID userID : String) (authorization : Option String) :
    Provision User := do
  let tenant ← getScimTenant S now tenantID authorization
  let id ← Txn.ofOption serverError (S.env.parseUuid userID)
  let user ← Txn.read fun d => d.userOf id tenant
  Txn.ofOption ⟨404, "User not found"⟩ user

def replaceScimUser (S : Services) (now : Time) (tenantID userID : String) (authorization : Option String)
    (body : Json.Fields) : Provision User := do
  let user ← scimUser S now tenantID userID authorization
  let edit ← Txn.ofOption serverError (replaceEdit S body user)
  flushUser S user edit

/-- `value if isinstance(value, bool) else (value or {}).get("active", True)`; `none` raises. -/
def activeOf (S : Services) : Json → Option Json
  | .bool b => some (.bool b)
  | value => if value.truthy S.isZero then (value.attrGet "active" (.bool true)).toOption else some (.bool true)

/-- `path == "active" or (not path and isinstance(value, dict) and "active" in value)`. -/
def SetsActive (S : Services) (path value : Json) : Prop :=
  path = .str "active" ∨
    path.truthy S.isZero = false ∧ ∃ fields, value.asDict = some fields ∧ (Json.field? fields "active").isSome

instance (S : Services) (path value : Json) : Decidable (SetsActive S path value) :=
  decidable_of_iff (path = .str "active" ∨ path.truthy S.isZero = false ∧
    value.asDict.any fun fields => (Json.field? fields "active").isSome) (by
      simp [SetsActive, Option.any_eq_true])

/-- What an operation with another path assigns; `none` raises. -/
def renameOp (S : Services) (path value : Json) (edit : Edit) : Option Edit :=
  match path with
  | .str p =>
    some <|
      if p = "userName" ∨ p = "emails[type eq \"work\"].value" then { edit with email := .str (S.str value) }
      else if "name".toList <+: p.toList then { edit with displayName := .str (S.str value) }
      else edit
  | _ => none

def patchOp (S : Services) (now : Time) (user : User) (edit : Edit) (op : Json) : Provision Edit := do
  let path ← Txn.ofOption serverError (op.attrGet "path" (.str "")).toOption
  let value ← Txn.ofOption serverError (op.attrGet "value" .null).toOption
  if SetsActive S path value then do
    let active ← Txn.ofOption serverError (activeOf S value)
    let edit := { edit with isActive := active }
    if active.truthy S.isZero then pure edit
    else do
      -- the updates flush the user first
      let _row ← flushUser S user edit
      lift (Txn.write fun db => db.revokeSessionsOf user.id now)
      Txn.write fun d => d.revokeKeysOf user.id now
      pure edit
  else Txn.ofOption serverError (renameOp S path value edit)

def patchOps (S : Services) (now : Time) (user : User) : Edit → List Json → Provision Edit
  | edit, [] => pure edit
  | edit, op :: ops => do
    let edit ← patchOp S now user edit op
    patchOps S now user edit ops

/-- `for op in body.get("Operations", [])`; `none` raises. -/
def operations (body : Json.Fields) : Option (List Json) := (Json.getD body "Operations" (.arr [])).iter?

def patchScimUser (S : Services) (now : Time) (tenantID userID : String) (authorization : Option String)
    (body : Json.Fields) : Provision User := do
  let user ← scimUser S now tenantID userID authorization
  let ops ← Txn.ofOption serverError (operations body)
  let edit ← patchOps S now user (Edit.ofUser user) ops
  flushUser S user edit

def deleteScimUser (S : Services) (now : Time) (tenantID userID : String) (authorization : Option String) :
    Provision Unit := do
  let tenant ← getScimTenant S now tenantID authorization
  let id ← Txn.ofOption serverError (S.env.parseUuid userID)
  lift (Auth.deactivateUser id tenant)

end Dgraphai.Provisioning
