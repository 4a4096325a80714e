import Dgraphai.AuthContext

/-!
# Endpoints that end sessions (`auth/local.py`) and the auth events of a run

`revoke_session`, `revoke_all_sessions`, `change_password` and `reset_password`, and the updates that
deactivate a user (`remove_user`, SCIM deprovisioning) or a tenant (account deletion). An `Event` is one
request in its own `getDb` scope.
-/

namespace Dgraphai.Auth

def revokeSession (E : Env) (now : Time) (credentials : Option String) (sessionID : String) :
    Request Unit := do
  let auth ← getAuthContext E now credentials
  let id ← Txn.ofOption serverError (E.parseUuid sessionID)
  let session ← Txn.read fun db => (db.sessions id).filter fun s => some s.userID = auth.userID
  let session ← Txn.ofOption ⟨404, "Session not found"⟩ session
  Txn.write fun db =>
    { db with sessions := Function.update db.sessions id (some { session with revokedAt := some now }) }

/-- `revokeSessionsOf` for the user of a token; no row has a null `user_id`. -/
def Db.revokeSessionsOf? (db : Db) (userID : Option Uuid) (now : Time) : Db :=
  match userID with
  | some id => db.revokeSessionsOf id now
  | none => db

def revokeAllSessions (E : Env) (now : Time) (credentials : Option String) : Request Unit := do
  let auth ← getAuthContext E now credentials
  Txn.write fun db => db.revokeSessionsOf? auth.userID now

def validatePassword (E : Env) (password : String) : Request Unit := do
  Txn.raiseIf (password.length < 8) ⟨422, "Password must be at least 8 characters"⟩
  Txn.raiseIf (¬ password.toList.any E.isUpper) ⟨422, "Password must contain an uppercase letter"⟩
  Txn.raiseIf (¬ password.toList.any E.isDigit) ⟨422, "Password must contain a number"⟩

def changePassword (E : Env) (now : Time) (credentials : Option String)
    (currentPassword newPassword : String) : Request Unit := do
  let auth ← getAuthContext E now credentials
  let cred ← Txn.read fun db => (auth.userID.bind db.credentials).filter fun cred =>
    E.verify currentPassword cred.passwordHash
  let cred ← Txn.ofOption ⟨401, "Current password is incorrect"⟩ cred
  validatePassword E newPassword
  Txn.write fun db =>
    (db.setCredential (auth.userID.getD "") { cred with passwordHash := E.hash newPassword }).revokeSessionsOf?
      auth.userID now

/-- The credential after a password reset. -/
def LocalCredential.renew (cred : LocalCredential) (passwordHash : String) : LocalCredential :=
  { cred with passwordHash := passwordHash, failedAttempts := some 0, lockedUntil := none }

/-- `if cred: …` of `reset_password`. -/
def Db.renewCredential (db : Db) (userID : Uuid) (passwordHash : String) : Db :=
  { db with
    credentials := Function.update db.credentials userID
      ((db.credentials userID).map (·.renew passwordHash)) }

def resetPassword (E : Env) (now : Time) (token newPassword : String) : Request Unit := do
  let pr ← Txn.read fun db =>
    (db.resetTokens (E.hashToken token)).filter fun pr => pr.usedAt = none ∧ now ≤ pr.expiresAt
  let pr ← Txn.ofOption ⟨400, "Invalid or expired reset token"⟩ pr
  validatePassword E newPassword
  Txn.write fun db =>
    { db with
      resetTokens :=
        Function.update db.resetTokens (E.hashToken token) (some { pr with usedAt := some now }) }
  Txn.write fun db => db.renewCredential pr.userID (E.hash newPassword)
  Txn.write fun db => db.revokeSessionsOf pr.userID now

/-- `update(User).where(id == …, tenant_id == …).values(is_active=False)`. -/
def deactivateUser (userID tenantID : Uuid) : Request Unit :=
  Txn.write fun db =>
    { db with
      users := db.users.map fun u =>
        if u.id = userID ∧ u.tenantID = tenantID then { u with isActive := false } else u }

/-- `update(Tenant).where(id == …).values(is_active=False)`. -/
def deactivateTenant (tenantID : Uuid) : Request Unit :=
  Txn.write fun db =>
    { db with
      tenants := Function.update db.tenants tenantID
        ((db.tenants tenantID).map fun t => { t with isActive := false }) }

inductive Event where
  | login (now : Time) (req : LoginRequest)
  | revokeSession (now : Time) (credentials : Option String) (sessionID : String)
  | revokeAllSessions (now : Time) (credentials : Option String)
  | changePassword (now : Time) (credentials : Option String) (currentPassword newPassword : String)
  | resetPassword (now : Time) (token newPassword : String)
  | deactivateUser (userID tenantID : Uuid)
  | deactivateTenant (tenantID : Uuid)
  deriving DecidableEq, Repr

def Event.body (E : Env) : Event → Request Unit
  | .login now req => do
    let _response ← Auth.login E now req
    pure ()
  | .revokeSession now credentials sessionID => Auth.revokeSession E now credentials sessionID
  | .revokeAllSessions now credentials => Auth.revokeAllSessions E now credentials
  | .changePassword now credentials cur new => Auth.changePassword E now credentials cur new
  | .resetPassword now token new => Auth.resetPassword E now token new
  | .deactivateUser userID tenantID => Auth.deactivateUser userID tenantID
  | .deactivateTenant tenantID => Auth.deactivateTenant tenantID

/-- The tables after an event, committed or rolled back. -/
def Event.run (E : Env) (db : Db) (e : Event) : Db := (getDb (e.body E) db).2

def afterEvents (E : Env) (db : Db) (events : List Event) : Db := events.foldl (Event.run E) db

end Dgraphai.Auth
