import Dgraphai.Provisioning
import Mathlib.Data.List.DropRight

/-!
# Sign-up, invitations and profiles (`auth/local.py`, `api/users.py`)

`signup`, `invite_user` and `update_profile`; the random text an endpoint draws comes with its request. An
`AccountEvent` is one request in its own `get_db` scope: one of these three, one of `Event`, or any other request
behind `get_auth_context`, which signs its user in and reads.
-/

namespace Dgraphai.Provisioning

open Auth (Uuid Time HttpError serverError User)

/-! ### Sign-up -/

structure SignupRequest where
  email : String
  password : String
  name : String
  company : Option String
  plan : String
  deriving DecidableEq, Repr

structure SignupResponse where
  userID : Uuid
  tenantID : Uuid
  email : String
  message : String
  token : String
  deriving DecidableEq, Repr

/-- `[a-z0-9-]`. -/
def isSlugChar (c : Char) : Bool := ('a' ≤ c ∧ c ≤ 'z') ∨ ('0' ≤ c ∧ c ≤ '9') ∨ c = '-'

/-- `_slugify`. -/
def slugify (S : Services) (s : String) : String :=
  let chars := ((S.lower s).toList.map fun c => if isSlugChar c then c else '-').take 32
  String.ofList ((chars.dropWhile (· = '-')).rdropWhile (· = '-'))

/-- `select(Tenant).where(Tenant.slug == slug)`. -/
def Directory.tenantBySlug (d : Directory) (slug : String) : Option Uuid :=
  (d.slugs slug).filter fun id => (d.auth.tenants id).isSome

/-- `_unique_slug`; `hex` is what `secrets.token_hex(3)` draws. -/
def uniqueSlug (d : Directory) (base hex : String) : String :=
  let tried := base :: (List.range' 1 98).map fun i => base ++ "-" ++ toString i
  (tried.find? fun slug => (d.tenantBySlug slug).isNone).getD (base ++ "-" ++ hex)

/-- `db.add(tenant)`, flushed; the slug is unique. -/
def insertTenant (S : Services) (slug : String) (tenant : Auth.Tenant) : Provision Uuid := do
  let id ← Txn.read fun d => S.env.uuid4 d.auth.nextID
  let taken ← Txn.read fun d => (d.tenantBySlug slug).isSome
  Txn.raiseIf (taken = true) serverError
  Txn.write fun d =>
    { d with
      slugs := Function.update d.slugs slug (some id)
      auth :=
        { d.auth with
          tenants := Function.update d.auth.tenants id (some tenant)
          nextID := d.auth.nextID + 1 } }
  pure id

/-- `email.split("@")[0]`. -/
def localPart (email : String) : String := String.ofList (email.toList.takeWhile (· ≠ '@'))

def signup (S : Services) (now : Time) (hex : String) (req : SignupRequest) : Provision SignupResponse := do
  lift (Auth.validatePassword S.env req.password)
  let existing ← Txn.read fun d => d.auth.users.filter fun u => u.email = req.email
  let existing ← lift (Auth.scalarOneOrNone existing)
  Txn.raiseIf existing.isSome ⟨409, "An account with this email already exists"⟩
  let slug ← Txn.read fun d => uniqueSlug d (slugify S (orText req.company (localPart req.email))) hex
  let tenantID ← insertTenant S slug ⟨req.plan, true⟩
  let user ← insertUser S ⟨"", tenantID, "", "", none, true, false, none⟩
    ⟨.str req.email, .str req.name, .null, .bool true⟩
  lift (Txn.write fun db => db.setCredential user.id ⟨S.env.hash req.password, some 0, none, none, none⟩)
  pure ⟨user.id, tenantID, req.email, "Account created. Check your email to verify your address.",
    Auth.issueJwt S.env now user (some ⟨req.plan, true⟩) none⟩

/-! ### Invitations -/

structure InviteRequest where
  email : String
  role : String
  deriving DecidableEq, Repr

structure InviteResponse where
  status : String
  email : String
  role : String
  expires : Time
  deriving DecidableEq, Repr

/-- `invite_user`; `token` is what `secrets.token_urlsafe(48)` draws. -/
def inviteUser (S : Services) (now : Time) (token : String) (credentials : Option String) (req : InviteRequest) :
    Provision InviteResponse := do
  let auth ← lift (Auth.getAuthContext S.env now credentials)
  Txn.raiseIf ("admin:*" ∉ auth.permissions ∧ "users:write" ∉ auth.permissions) ⟨403, "Admin permission required"⟩
  let existing ← Txn.read fun d => d.usersByEmail req.email auth.tenantID
  let existing ← lift (Auth.scalarOneOrNone existing)
  Txn.raiseIf existing.isSome ⟨409, "User already a member of this tenant"⟩
  let inviter ← Txn.read fun d => auth.userID.bind d.auth.user
  -- `invited_by` is a foreign key, `token_hash` is unique
  Txn.raiseIf (auth.userID.isSome ∧ inviter = none) serverError
  let tokHash := S.env.hashToken token
  let taken ← Txn.read fun d => (d.invites tokHash).isSome
  Txn.raiseIf (taken = true) serverError
  let expires := now + Auth.hours (7 * 24)
  Txn.write fun d =>
    { d with invites := Function.update d.invites tokHash (some ⟨auth.tenantID, req.email, expires, none⟩) }
  pure ⟨"invited", req.email, req.role, expires⟩

/-! ### Profiles -/

structure UpdateProfileRequest where
  name : Option String
  email : Option String
  deriving DecidableEq, Repr

/-- `if req.email`. -/
def UpdateProfileRequest.newEmail (req : UpdateProfileRequest) : Option String := req.email.filter (· ≠ "")

def updateProfile (S : Services) (now : Time) (credentials : Option String) (req : UpdateProfileRequest) :
    Provision Unit := do
  let auth ← lift (Auth.getAuthContext S.env now credentials)
  let user ← Txn.read fun d => auth.userID.bind d.auth.user
  let user ← Txn.ofOption ⟨404, "User not found"⟩ user
  let email := req.newEmail.getD user.email
  let displayName := orText req.name user.displayName
  let _row ← flushUser S { user with emailVerified := decide (email = user.email) && user.emailVerified }
    { Edit.ofUser user with email := .str email, displayName := .str displayName }
  pure ()

/-! ### Histories -/

inductive AccountEvent where
  | signup (now : Time) (hex : String) (req : SignupRequest)
  | inviteUser (now : Time) (token : String) (credentials : Option String) (req : InviteRequest)
  | updateProfile (now : Time) (credentials : Option String) (req : UpdateProfileRequest)
  | authenticate (now : Time) (credentials : Option String)
  | provision (e : Event)

def AccountEvent.body (S : Services) : AccountEvent → Provision Unit
  | .signup now hex req => do
    let _response ← Provisioning.signup S now hex req
    pure ()
  | .inviteUser now token credentials req => do
    let _response ← Provisioning.inviteUser S now token credentials req
    pure ()
  | .updateProfile now credentials req => Provisioning.updateProfile S now credentials req
  | .authenticate now credentials => do
    let _auth ← lift (Auth.getAuthContext S.env now credentials)
    pure ()
  | .provision e => e.body S

/-- The directory after a request. -/
def accountStep (S : Services) (d : Directory) (e : AccountEvent) : Option Directory := some ((e.body S).exec d).2

end Dgraphai.Provisioning
