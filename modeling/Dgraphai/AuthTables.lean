import Dgraphai.Lib.Json
import Dgraphai.Lib.Transaction
import Mathlib.Logic.Function.Basic

/-!
# Auth tables and the environment of the auth endpoints

The rows `auth/local.py` and `auth/oidc.py` read (`db/models.py`), keyed by their unique columns, and
`Env`: what the endpoints call outside the repository (bcrypt, TOTP, JWT, UUIDs) and read from the
process environment. A `datetime` is a number of microseconds.
-/

namespace Dgraphai.Auth

abbrev Uuid := String
abbrev Time := Nat

def minutes (n : Nat) : Time := n * 60 * 1000000

def hours (n : Nat) : Time := minutes (n * 60)

/-- `exc.detail` of an `HTTPException`; any other exception is a 500. -/
structure HttpError where
  status : Nat
  detail : String
  deriving DecidableEq, Repr

def serverError : HttpError := ⟨500, "Internal Server Error"⟩

structure Tenant where
  plan : String
  isActive : Bool
  deriving DecidableEq, Repr

structure User where
  id : Uuid
  tenantID : Uuid
  email : String
  displayName : String
  externalID : Option String
  isActive : Bool
  emailVerified : Bool
  lastLogin : Option Time
  deriving DecidableEq, Repr

structure LocalCredential where
  passwordHash : String
  failedAttempts : Option Nat
  lockedUntil : Option Time
  lastFailedAt : Option Time
  lastLoginAt : Option Time
  deriving DecidableEq, Repr

structure MFAConfig where
  secret : String
  backupCodes : Option (List String)
  isActive : Bool
  deriving DecidableEq, Repr

structure UserSession where
  userID : Uuid
  tenantID : Uuid
  ipAddress : Option String
  userAgent : String
  expiresAt : Time
  revokedAt : Option Time
  deriving DecidableEq, Repr

structure PasswordResetToken where
  userID : Uuid
  expiresAt : Time
  usedAt : Option Time
  deriving DecidableEq, Repr

structure OIDCConfig where
  tenantID : Uuid
  issuerURL : String
  clientID : String
  claimMapping : List (String × String)
  isActive : Bool
  deriving DecidableEq, Repr

/-- Tenants and sessions are keyed by `id`, credentials and MFA configs by `user_id`, reset tokens by
`token_hash`. -/
structure Db where
  tenants : Uuid → Option Tenant
  users : List User
  credentials : Uuid → Option LocalCredential
  mfaConfigs : Uuid → Option MFAConfig
  sessions : Uuid → Option UserSession
  resetTokens : String → Option PasswordResetToken
  oidcConfigs : List OIDCConfig
  /-- How many primary keys have been drawn. -/
  nextID : Nat

/-- The payload of a JWT. -/
abbrev Claims := List (String × Json)

structure Env where
  /-- `pwd_ctx.hash` (with the salt drawn) and `pwd_ctx.verify`. -/
  hash : String → String
  verify : String → String → Bool
  /-- `_verify_totp(secret, code)` at a time. -/
  verifyTotp : String → String → Time → Bool
  /-- `str.upper`, and `str.isupper` and `str.isdigit` of one character. -/
  upper : String → String
  isUpper : Char → Bool
  isDigit : Char → Bool
  /-- `_hash_token`. -/
  hashToken : String → String
  /-- The n-th `uuid4()`. -/
  uuid4 : Nat → Uuid
  /-- `uuid.UUID(text)`; `none` raises `ValueError`. -/
  parseUuid : String → Option Uuid
  /-- `jwt.encode(payload, secret, "HS256")`. -/
  encode : String → Claims → String
  /-- `jwt.get_unverified_claims`; `none` raises. -/
  unverifiedClaims : String → Option Claims
  /-- `jwt.decode(token, secret, ["HS256"])` at a time; `none` raises. -/
  decodeLocal : String → String → Time → Option Claims
  /-- The loop of `_validate_token` over the keys of an issuer, for a client id, at a time. -/
  decodeOidc : OIDCConfig → String → Time → Option Claims
  /-- `str()` of a claim that is not a string. -/
  pyStr : Json → String
  /-- `load_user_permissions`. -/
  loadPermissions : Uuid → Uuid → Time → List String × List String
  /-- The environment variables `APP_URL` and `JWT_SECRET`, and the secret drawn when it is unset. -/
  appURL : Option String
  jwtSecret : Option String
  randomSecret : String
  jwtExpiryHours : Nat

abbrev Request := Txn Db HttpError

/-- `result.scalar_one_or_none()`. -/
def scalarOneOrNone {α : Type} : List α → Request (Option α)
  | [] => pure none
  | [a] => pure (some a)
  | _ :: _ :: _ => Txn.raise serverError

theorem scalarOneOrNone_eq_ok {α : Type} {l : List α} {o : Option α} {db db' : Db} :
    scalarOneOrNone l db = (.ok o, db') ↔ l = o.toList ∧ db = db' := by
  rcases l with _ | ⟨a, _ | ⟨b, l⟩⟩
  · cases o <;> simp [scalarOneOrNone]
  · cases o <;> simp [scalarOneOrNone]
  · cases o <;> simp [scalarOneOrNone]

/-- The `get_db` scope around an endpoint. -/
def getDb {α : Type} (endpoint : Request α) (db : Db) : Except HttpError α × Db := endpoint.exec db

def Db.setCredential (db : Db) (userID : Uuid) (cred : LocalCredential) : Db :=
  { db with credentials := Function.update db.credentials userID (some cred) }

def Db.setMFA (db : Db) (userID : Uuid) (mfa : MFAConfig) : Db :=
  { db with mfaConfigs := Function.update db.mfaConfigs userID (some mfa) }

/-- `db.add(session)`, flushed. -/
def Db.addSession (db : Db) (id : Uuid) (session : UserSession) : Db :=
  { db with sessions := Function.update db.sessions id (some session), nextID := db.nextID + 1 }

/-- `update(UserSession).where(user_id == …, revoked_at == None).values(revoked_at=now)`. -/
def Db.revokeSessionsOf (db : Db) (userID : Uuid) (now : Time) : Db :=
  { db with
    sessions := fun id => (db.sessions id).map fun s =>
      if s.userID = userID ∧ s.revokedAt = none then { s with revokedAt := some now } else s }

end Dgraphai.Auth
