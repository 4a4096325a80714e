import Dgraphai.AuthTables

/-!
# `POST /api/auth/login` (`auth/local.py`)

The endpoint as a chain of checks, each raising where the source raises. `login_eq_ok` says when a login
succeeds and what it leaves in the tables; everything a refused login wrote is rolled back by `getDb`.
-/

namespace Dgraphai.Auth

def maxFailedAttempts : Nat := 5

def lockout : Time := minutes 15

structure LoginRequest where
  email : String
  password : String
  mfaCode : Option String
  clientHost : Option String
  userAgent : String
  deriving DecidableEq, Repr

structure LoginResponse where
  token : String
  expiresIn : Nat
  userID : Uuid
  email : String
  name : String
  emailVerified : Bool
  tenantID : Uuid
  plan : String
  deriving DecidableEq, Repr

/-- `JWT_SECRET` of `local.py`. -/
def Env.localSecret (E : Env) : String := E.jwtSecret.getD E.randomSecret

def Env.app (E : Env) : String := E.appURL.getD "https://app.dgraph.ai"

def planOf : Option Tenant → String
  | some tenant => tenant.plan
  | none => "starter"

/-- The payload of `_issue_jwt`. -/
def jwtPayload (E : Env) (now : Time) (user : User) (tenant : Option Tenant) (sid : Option Uuid) :
    Claims :=
  [("iss", .str E.app), ("sub", .str user.id), ("email", .str user.email),
    ("tenant_id", .str user.tenantID), ("plan", .str (planOf tenant)), ("auth_type", .str "local"),
    ("iat", .num (now / 1000000 : Nat)),
    ("exp", .num ((now + hours E.jwtExpiryHours) / 1000000 : Nat))] ++
  match sid with
  | some sid => [("sid", .str sid)]
  | none => []

def issueJwt (E : Env) (now : Time) (user : User) (tenant : Option Tenant) (sid : Option Uuid) : String :=
  E.encode E.localSecret (jwtPayload E now user tenant sid)

/-- `cred.locked_until and cred.locked_until > now`. -/
def LocalCredential.Locked (cred : LocalCredential) (now : Time) : Prop :=
  ∃ t, cred.lockedUntil = some t ∧ now < t

instance (cred : LocalCredential) (now : Time) : Decidable (cred.Locked now) :=
  decidable_of_iff (cred.lockedUntil.any (now < ·)) (by simp [LocalCredential.Locked, Option.any_eq_true])

/-- The credential after a wrong password. -/
def LocalCredential.fail (cred : LocalCredential) (now : Time) : LocalCredential :=
  let failed := cred.failedAttempts.getD 0 + 1
  { cred with
    failedAttempts := some failed
    lastFailedAt := some now
    lockedUntil := if maxFailedAttempts ≤ failed then some (now + lockout) else cred.lockedUntil }

/-- The credential after the right password. -/
def LocalCredential.reset (cred : LocalCredential) (now : Time) : LocalCredential :=
  { cred with failedAttempts := some 0, lockedUntil := none, lastLoginAt := some now }

def invalidLogin : HttpError := ⟨401, "Invalid email or password"⟩

def checkLockout (now : Time) (cred : LocalCredential) : Request Unit :=
  let remaining := (cred.lockedUntil.getD now - now) / minutes 1
  Txn.raiseIf (cred.Locked now)
    ⟨429, "Account temporarily locked. Try again in " ++ toString remaining ++ " minutes."⟩

def verifyPassword (E : Env) (now : Time) (userID : Uuid) (cred : LocalCredential) (password : String) :
    Request Unit :=
  if E.verify password cred.passwordHash then
    Txn.write fun db => db.setCredential userID (cred.reset now)
  else do
    Txn.write fun db => db.setCredential userID (cred.fail now)
    Txn.raise invalidLogin

/-- The normalisation in `_use_backup_code`. -/
def normalizeCode (E : Env) (code : String) : String :=
  String.ofList ((E.upper code).toList.filter fun c => c ≠ '-' ∧ c ≠ ' ')

/-- `_use_backup_code`: the config without the code, if it is one of its codes. -/
def useBackupCode (E : Env) (mfa : MFAConfig) (code : String) : Option MFAConfig :=
  let codes := mfa.backupCodes.getD []
  if normalizeCode E code ∈ codes then
    some { mfa with backupCodes := some (codes.erase (normalizeCode E code)) }
  else none

def checkMFA (E : Env) (now : Time) (userID : Uuid) (mfaCode : Option String) : Request Unit := do
  let mfa ← Txn.read fun db => (db.mfaConfigs userID).filter (·.isActive)
  match mfa with
  | none => pure ()
  | some mfa => do
    let code := mfaCode.getD ""
    Txn.raiseIf (code = "") ⟨401, "MFA required"⟩
    if E.verifyTotp mfa.secret code now then pure ()
    else do
      let mfa ← Txn.ofOption ⟨401, "Invalid MFA code"⟩ (useBackupCode E mfa code)
      Txn.write fun db => db.setMFA userID mfa

/-- The session record and the response. -/
def openSession (E : Env) (now : Time) (req : LoginRequest) (user : User) : Request LoginResponse := do
  let tenant ← Txn.read fun db => db.tenants user.tenantID
  let sid ← Txn.read fun db => E.uuid4 db.nextID
  Txn.write fun db => db.addSession sid
    ⟨user.id, user.tenantID, req.clientHost, (req.userAgent.take 512).toString,
      now + hours E.jwtExpiryHours, none⟩
  pure ⟨issueJwt E now user tenant (some sid), E.jwtExpiryHours * 3600, user.id, user.email,
    user.displayName, user.emailVerified, user.tenantID, planOf tenant⟩

/-- `select(User).where(User.email == email, User.is_active == True)`. -/
def Db.activeUsers (db : Db) (email : String) : List User :=
  db.users.filter fun u => u.email = email ∧ u.isActive

def login (E : Env) (now : Time) (req : LoginRequest) : Request LoginResponse := do
  let rows ← Txn.read fun db => db.activeUsers req.email
  let user ← scalarOneOrNone rows
  let user ← Txn.ofOption invalidLogin user
  let cred ← Txn.read fun db => db.credentials user.id
  let cred ← Txn.ofOption invalidLogin cred
  checkLockout now cred
  verifyPassword E now user.id cred req.password
  checkMFA E now user.id req.mfaCode
  openSession E now req user

/-! ### What a successful login did -/

variable {E : Env} {db db' : Db} {now : Time}

theorem verifyPassword_eq_ok {userID : Uuid} {cred : LocalCredential} {password : String} {u : Unit} :
    verifyPassword E now userID cred password db = (.ok u, db') ↔
      E.verify password cred.passwordHash = true ∧ db.setCredential userID (cred.reset now) = db' := by
  unfold verifyPassword
  split_ifs with h
  · simp [h]
  · simp [h, Txn.bind_eq_ok]

theorem checkMFA_eq_ok {userID : Uuid} {code : Option String} {u : Unit} :
    checkMFA E now userID code db = (.ok u, db') ↔
      match (db.mfaConfigs userID).filter (·.isActive) with
      | none => db = db'
      | some mfa => code.getD "" ≠ "" ∧
          (E.verifyTotp mfa.secret (code.getD "") now = true ∧ db = db' ∨
            E.verifyTotp mfa.secret (code.getD "") now = false ∧
              ∃ mfa', useBackupCode E mfa (code.getD "") = some mfa' ∧ db.setMFA userID mfa' = db') := by
  rw [checkMFA, Txn.read_bind_eq_ok]
  cases (db.mfaConfigs userID).filter (·.isActive) with
  | none => simp
  | some mfa => cases htotp : E.verifyTotp mfa.secret (code.getD "") now <;> simp [htotp]

theorem openSession_eq_ok {req : LoginRequest} {user : User} {r : LoginResponse} :
    openSession E now req user db = (.ok r, db') ↔
      ⟨issueJwt E now user (db.tenants user.tenantID) (some (E.uuid4 db.nextID)),
        E.jwtExpiryHours * 3600, user.id, user.email, user.displayName, user.emailVerified,
        user.tenantID, planOf (db.tenants user.tenantID)⟩ = r ∧
      db.addSession (E.uuid4 db.nextID) ⟨user.id, user.tenantID, req.clientHost,
        (req.userAgent.take 512).toString, now + hours E.jwtExpiryHours, none⟩ = db' := by
  simp [openSession]

theorem login_eq_ok {req : LoginRequest} {r : LoginResponse} :
    login E now req db = (.ok r, db') ↔
      ∃ user cred, db.activeUsers req.email = [user] ∧
        db.credentials user.id = some cred ∧ ¬ cred.Locked now ∧
        E.verify req.password cred.passwordHash = true ∧
        ∃ db₁, checkMFA E now user.id req.mfaCode (db.setCredential user.id (cred.reset now)) =
            (.ok (), db₁) ∧ openSession E now req user db₁ = (.ok r, db') := by
  unfold login
  rw [Txn.read_bind_eq_ok, Txn.bind_eq_ok]
  simp only [scalarOneOrNone_eq_ok, Txn.ofOption_bind_eq_ok, Txn.read_bind_eq_ok, checkLockout,
    Txn.raiseIf_bind_eq_ok]
  simp only [Txn.bind_eq_ok, verifyPassword_eq_ok]
  constructor
  · rintro ⟨_, _, ⟨hrows, rfl⟩, user, rfl, cred, hcred, hlock, _, _, ⟨hpw, rfl⟩, _, db₁, hmfa, hopen⟩
    exact ⟨user, cred, hrows, hcred, hlock, hpw, db₁, hmfa, hopen⟩
  · rintro ⟨user, cred, hrows, hcred, hlock, hpw, db₁, hmfa, hopen⟩
    exact ⟨some user, _, ⟨hrows, rfl⟩, user, rfl, cred, hcred, hlock, (), _, ⟨hpw, rfl⟩, (), db₁, hmfa,
      hopen⟩

/-- A passed second factor changes at most the MFA config. -/
theorem checkMFA_frame {userID : Uuid} {code : Option String} {u : Unit}
    (h : checkMFA E now userID code db = (.ok u, db')) :
    db' = { db with mfaConfigs := db'.mfaConfigs } := by
  rw [checkMFA_eq_ok] at h
  cases hmfa : (db.mfaConfigs userID).filter (·.isActive) with
  | none =>
    rw [hmfa] at h
    obtain rfl : db = db' := h
    rfl
  | some mfa =>
    rw [hmfa] at h
    obtain ⟨-, ⟨-, rfl⟩ | ⟨-, mfa', -, rfl⟩⟩ := h
    · rfl
    · rfl

/-! ### A sample tenant -/

/-- Passwords are stored as they are, and there is no second factor. -/
def plainEnv : Env where
  hash p := p
  verify p h := p = h
  verifyTotp _ _ _ := false
  upper s := s
  isUpper c := c.isUpper
  isDigit c := c.isDigit
  hashToken s := s
  uuid4 n := String.ofList (List.replicate (n + 1) 'i')
  parseUuid s := some s
  encode secret _ := secret
  unverifiedClaims _ := none
  decodeLocal _ _ _ := none
  decodeOidc _ _ _ := none
  pyStr _ := ""
  loadPermissions _ _ _ := ([], [])
  appURL := none
  jwtSecret := some "secret"
  randomSecret := ""
  jwtExpiryHours := 24

def emptyDb : Db := ⟨fun _ => none, [], fun _ => none, fun _ => none, fun _ => none, fun _ => none, [], 0⟩

/-- One tenant with one active account. -/
def oneAccount : Db :=
  { emptyDb with
    tenants := Function.update emptyDb.tenants "t1" (some ⟨"starter", true⟩)
    users := [⟨"u1", "t1", "ann@acme.com", "Ann", none, true, true, none⟩]
    credentials := Function.update emptyDb.credentials "u1" (some ⟨"Secret123", none, none, none, none⟩) }

theorem fresh_ids {m n : Nat} (h : plainEnv.uuid4 m = plainEnv.uuid4 n) : m = n := by
  have := congrArg List.length (String.ofList_injective h)
  simpa using this

end Dgraphai.Auth
