import Dgraphai.Scim

/-!
# Sign-in, invitations, team and API keys (`api/users.py`, `auth/saml.py`, `auth/local.py`)

The endpoints beside SCIM that make users, change `is_active` or hand out credentials. An `Event` is one request
in its own `get_db` scope; `step` is the directory after it, committed or rolled back.
-/

namespace Dgraphai.Provisioning

open Auth (Uuid Time HttpError serverError User)

/-- `remove_user`. -/
def removeUser (S : Services) (now : Time) (credentials : Option String) (userID : String) : Provision Unit := do
  let auth ← lift (Auth.getAuthContext S.env now credentials)
  Txn.raiseIf ("admin:*" ∉ auth.permissions) ⟨403, "Admin required"⟩
  Txn.raiseIf (auth.userID.getD "None" = userID) ⟨400, "Cannot remove yourself"⟩
  let id ← Txn.ofOption serverError (S.env.parseUuid userID)
  lift (Auth.deactivateUser id auth.tenantID)

structure AcceptInviteRequest where
  token : String
  password : String
  name : String
  deriving DecidableEq, Repr

structure AcceptInviteResponse where
  token : String
  id : Uuid
  email : String
  name : String
  deriving DecidableEq, Repr

def acceptInvite (S : Services) (now : Time) (req : AcceptInviteRequest) : Provision AcceptInviteResponse := do
  let tokHash := S.env.hashToken req.token
  let invite ← Txn.read fun d => (d.invites tokHash).filter fun i => i.usedAt = none ∧ now ≤ i.expiresAt
  let invite ← Txn.ofOption ⟨400, "Invalid or expired invitation"⟩ invite
  lift (Auth.validatePassword S.env req.password)
  let user ← insertUser S ⟨"", invite.tenantID, "", "", none, true, true, none⟩
    ⟨.str invite.email, .str req.name, .null, .bool true⟩
  lift (Txn.write fun db => db.setCredential user.id ⟨S.env.hash req.password, some 0, none, none, none⟩)
  Txn.write fun d =>
    { d with invites := Function.update d.invites tokHash (some { invite with usedAt := some now }) }
  let tenant ← Txn.read fun d => d.auth.tenants invite.tenantID
  pure ⟨Auth.issueJwt S.env now user tenant none, user.id, user.email, user.displayName⟩

/-! ### SAML -/

/-- The posted form. -/
structure SAMLForm where
  samlResponse : Option String
  relayState : Option String
  deriving DecidableEq, Repr

/-- `_get_saml_config`. -/
def getSamlConfig (tenantSlug : String) : Provision (Uuid × SAMLConfig) := do
  let tenant ← Txn.read fun d => (d.slugs tenantSlug).filter fun id => (d.auth.tenants id).isSome
  let tenant ← Txn.ofOption ⟨404, "Tenant not found"⟩ tenant
  let configs ← Txn.read fun d => d.samlConfigs.filter fun c => c.tenantID = tenant ∧ c.isActive
  let config ← lift (Auth.scalarOneOrNone configs)
  let config ← Txn.ofOption ⟨404, "SAML not configured for this tenant"⟩ config
  pure (tenant, config)

/-- `_first_attr`. -/
def firstAttr (S : Services) (attrs : List (String × List String)) (key : String) (default : Option String) :
    Option String :=
  match (attrs.lookup key).getD ((attrs.lookup (S.lower key)).getD []) with
  | val :: _ => some val
  | [] => default

/-- `value or default` of a nullable column. -/
def orText (value : Option String) (default : String) : String := if value.getD "" = "" then default else value.getD ""

/-- Who an accepted SAML response signs in: tenant, email and name. -/
structure Identity where
  tenantID : Uuid
  email : String
  name : String
  deriving DecidableEq, Repr

/-- `saml_acs` up to the attributes. -/
def samlIdentity (S : Services) (tenantSlug : String) (form : SAMLForm) : Provision Identity := do
  let process ← Txn.ofOption ⟨501, "python3-saml not installed"⟩ S.saml
  let (tenant, config) ← getSamlConfig tenantSlug
  let answer ← Txn.ofOption serverError (process tenantSlug config (form.samlResponse.getD ""))
  Txn.raiseIf answer.errors.isSome ⟨400, "SAML validation failed: " ++ answer.errors.getD ""⟩
  Txn.raiseIf (answer.isAuthenticated = false) ⟨401, "SAML authentication failed"⟩
  let email := firstAttr S answer.attributes (orText config.emailAttribute "emailaddress") answer.nameID
  let name := firstAttr S answer.attributes (orText config.nameAttribute "displayname") email
  let email ← Txn.ofOption ⟨400, "Email attribute missing from SAML assertion"⟩ (email.filter (· ≠ ""))
  pure ⟨tenant, email, name.getD ""⟩

/-- The user record of an identity: made at a first sign-in, and else renamed and set active. -/
def provisionIdentity (S : Services) (identity : Identity) : Option User → Provision User
  | none =>
    insertUser S ⟨"", identity.tenantID, "", "", none, true, true, none⟩
      ⟨.str identity.email, .str identity.name, .null, .bool true⟩
  | some user =>
    flushUser S user { Edit.ofUser user with displayName := .str identity.name, isActive := .bool true }

/-- `saml_acs`: the token it issues. -/
def samlAcs (S : Services) (now : Time) (tenantSlug : String) (form : SAMLForm) : Provision String := do
  let identity ← samlIdentity S tenantSlug form
  let rows ← Txn.read fun d => d.usersByEmail identity.email identity.tenantID
  let user ← lift (Auth.scalarOneOrNone rows)
  let row ← provisionIdentity S identity user
  let tenant ← Txn.read fun d => d.auth.tenants identity.tenantID
  pure (Auth.issueJwt S.env now row tenant none)

/-! ### API keys -/

structure CreateAPIKeyRequest where
  name : String
  expiresDays : Option Int
  deriving DecidableEq, Repr

structure CreatedAPIKey where
  id : Uuid
  name : String
  key : String
  keyPrefix : String
  expiresAt : Option Int
  deriving DecidableEq, Repr

/-- `datetime.min` and `datetime.max` around 1970, in microseconds. -/
def minInstant : Int := -62135596800000000
def maxInstant : Int := 253402300799999999

/-- `datetime.now() + timedelta(days=days)`; `none` is an `OverflowError`. -/
def addDays (now : Time) (days : Int) : Option Int :=
  let instant := now + days * (24 * 3600 * 1000000)
  if minInstant ≤ instant ∧ instant ≤ maxInstant then some instant else none

/-- The expiry of a key; `if req.expires_days` skips zero. -/
def expiryOf (now : Time) (expiresDays : Option Int) : Option (Option Int) :=
  match expiresDays with
  | none => some none
  | some 0 => some none
  | some days => (addDays now days).map some

/-- The key an authenticated request makes; `none` raises, or is refused by `user_id NOT NULL` or the foreign
key on `users.id`. -/
def newAPIKey (S : Services) (now : Time) (auth : Auth.AuthContext) (req : CreateAPIKeyRequest) (d : Directory) :
    Option (String × APIKey) := do
  let rawKey := "dg_" ++ S.tokenUrlsafe d.auth.nextID
  let expiresAt ← expiryOf now req.expiresDays
  let userID ← auth.userID
  let _user ← d.auth.user userID
  pure (rawKey, ⟨S.env.uuid4 d.auth.nextID, userID, auth.tenantID, req.name, S.env.hashToken rawKey,
    String.ofList (rawKey.toList.take 12), expiresAt, none⟩)

def Directory.addKey (d : Directory) (key : APIKey) : Directory :=
  { d with apiKeys := d.apiKeys ++ [key], auth := { d.auth with nextID := d.auth.nextID + 1 } }

def createAPIKey (S : Services) (now : Time) (credentials : Option String) (req : CreateAPIKeyRequest) :
    Provision CreatedAPIKey := do
  let auth ← lift (Auth.getAuthContext S.env now credentials)
  let made ← Txn.read fun d => newAPIKey S now auth req d
  let (rawKey, key) ← Txn.ofOption serverError made
  let taken ← Txn.read fun d => decide (∃ k ∈ d.apiKeys, k.keyHash = key.keyHash)
  Txn.raiseIf (taken = true) serverError
  Txn.write fun d => d.addKey key
  pure ⟨key.id, req.name, rawKey, key.keyPrefix, key.expiresAt⟩

/-! ### Histories -/

inductive Event where
  | createScimUser (now : Time) (tenantID : String) (authorization : Option String) (body : Json.Fields)
  | replaceScimUser (now : Time) (tenantID userID : String) (authorization : Option String) (body : Json.Fields)
  | patchScimUser (now : Time) (tenantID userID : String) (authorization : Option String) (body : Json.Fields)
  | deleteScimUser (now : Time) (tenantID userID : String) (authorization : Option String)
  | removeUser (now : Time) (credentials : Option String) (userID : String)
  | samlAcs (now : Time) (tenantSlug : String) (form : SAMLForm)
  | acceptInvite (now : Time) (req : AcceptInviteRequest)
  | login (now : Time) (req : Auth.LoginRequest)
  | createAPIKey (now : Time) (credentials : Option String) (req : CreateAPIKeyRequest)

def Event.body (S : Services) : Event → Provision Unit
  | .createScimUser now tenantID authorization body => do
    let _row ← Provisioning.createScimUser S now tenantID authorization body
    pure ()
  | .replaceScimUser now tenantID userID authorization body => do
    let _row ← Provisioning.replaceScimUser S now tenantID userID authorization body
    pure ()
  | .patchScimUser now tenantID userID authorization body => do
    let _row ← Provisioning.patchScimUser S now tenantID userID authorization body
    pure ()
  | .deleteScimUser now tenantID userID authorization =>
    Provisioning.deleteScimUser S now tenantID userID authorization
  | .removeUser now credentials userID => Provisioning.removeUser S now credentials userID
  | .samlAcs now tenantSlug form => do
    let _token ← Provisioning.samlAcs S now tenantSlug form
    pure ()
  | .acceptInvite now req => do
    let _response ← Provisioning.acceptInvite S now req
    pure ()
  | .login now req => do
    let _response ← lift (Auth.login S.env now req)
    pure ()
  | .createAPIKey now credentials req => do
    let _key ← Provisioning.createAPIKey S now credentials req
    pure ()

/-- The directory after a request. -/
def step (S : Services) (d : Directory) (e : Event) : Option Directory := some ((e.body S).exec d).2

end Dgraphai.Provisioning
