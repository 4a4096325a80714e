import Dgraphai.Login

/-!
# `get_auth_context` (`auth/oidc.py`)

The dependency behind every authenticated endpoint. Local tokens are checked against `JWT_SECRET`,
other tokens against the OIDC config of their issuer. The `_eq_ok` lemmas say which tokens are
accepted: neither the session named by `sid` nor `is_active` of the user is among the checks, and
`is_active` of the tenant only for OIDC.
-/

namespace Dgraphai.Auth

structure AuthContext where
  /-- `None` for a token without `sub`. -/
  userID : Option Uuid
  tenantID : Uuid
  email : String
  roles : List String
  permissions : List String
  deriving DecidableEq, Repr

/-- `claims.get(key)`. -/
def Claims.get (claims : Claims) (key : String) : Option Json := claims.lookup key

/-- `claims.get(key, default)` as text. -/
def Claims.text (E : Env) (claims : Claims) (key default : String) : String :=
  match claims.get key with
  | some (.str s) => s
  | some j => E.pyStr j
  | none => default

/-- A claim as the parameter of a comparison with a UUID column: `none` is an error of the driver. -/
def Claims.uuid (E : Env) (claims : Claims) (key : String) : Option (Option Uuid) :=
  match claims.get key with
  | none | some .null => some none
  | some (.str s) => (E.parseUuid s).map some
  | some _ => none

def Db.user (db : Db) (id : Uuid) : Option User := db.users.find? fun u => u.id = id

/-- `auth_type == "local" or (issuer and issuer == APP_URL)`. -/
def IsLocal (E : Env) (unverified : Claims) : Prop :=
  unverified.get "auth_type" = some (.str "local") ∨
    E.app ≠ "" ∧ unverified.get "iss" = some (.str E.app)

instance (E : Env) (unverified : Claims) : Decidable (IsLocal E unverified) :=
  inferInstanceAs (Decidable (_ ∨ _))

/-- The payload of a token under `JWT_SECRET` of the environment, as `oidc.py` reads it. -/
def localClaims (E : Env) (now : Time) (token : String) : Option Claims :=
  E.decodeLocal (E.jwtSecret.getD "") token now

def localContext (E : Env) (now : Time) (token : String) : Request AuthContext := do
  Txn.raiseIf (E.jwtSecret.getD "" = "") ⟨401, "JWT not configured"⟩
  let claims ← Txn.ofOption ⟨401, "Invalid local token"⟩ (localClaims E now token)
  let tenantID ← Txn.ofOption serverError (claims.uuid E "tenant_id")
  let tenant ← Txn.read fun db => tenantID.filter fun id => (db.tenants id).isSome
  let tenantID ← Txn.ofOption ⟨401, "Tenant not found"⟩ tenant
  let userID ← Txn.ofOption serverError (claims.uuid E "sub")
  let _user ← Txn.read fun db => userID.bind db.user
  let (roles, permissions) := E.loadPermissions (userID.getD "") tenantID now
  pure ⟨userID, tenantID, claims.text E "email" "", roles, permissions⟩

/-- `_extract_claim`. -/
def extractClaim (E : Env) (claims : Claims) (mapping : List (String × String))
    (field default : String) : String :=
  claims.text E ((mapping.lookup field).getD field) default

def OIDCConfig.email (E : Env) (config : OIDCConfig) (claims : Claims) : String :=
  extractClaim E claims config.claimMapping "email" ""

def OIDCConfig.displayName (E : Env) (config : OIDCConfig) (claims : Claims) : String :=
  extractClaim E claims config.claimMapping "name" (config.email E claims)

def Db.tenantActive (db : Db) (id : Uuid) : Prop := ∃ t, db.tenants id = some t ∧ t.isActive = true

instance (db : Db) (id : Uuid) : Decidable (db.tenantActive id) :=
  decidable_of_iff ((db.tenants id).any (·.isActive)) (by simp [Db.tenantActive, Option.any_eq_true])

/-- The OIDC config of an issuer: active, of an active tenant. -/
def Db.oidcConfig (db : Db) (issuer : String) : Option OIDCConfig :=
  db.oidcConfigs.find? fun c => c.issuerURL = issuer ∧ c.isActive ∧ db.tenantActive c.tenantID

/-- `select(User).where(tenant_id == …, external_id == …)`. -/
def Db.externalUsers (db : Db) (tenantID : Uuid) (externalID : String) : List User :=
  db.users.filter fun u => u.tenantID = tenantID ∧ u.externalID = some externalID

/-- The user record of a first login; `(tenant_id, email)` is unique. -/
def createUser (E : Env) (config : OIDCConfig) (email name externalID : String) : Request Uuid := do
  let taken ← Txn.read fun db =>
    db.users.any fun u => decide (u.tenantID = config.tenantID ∧ u.email = email)
  Txn.raiseIf (taken = true) serverError
  let id ← Txn.read fun db => E.uuid4 db.nextID
  Txn.write fun db => { db with
    users := db.users ++ [User.mk id config.tenantID email name (some externalID) true false none]
    nextID := db.nextID + 1 }
  pure id

/-- The user record at a later login. -/
def touchUser (now : Time) (name : String) (user : User) : Request Uuid := do
  Txn.write fun db => { db with
    users := db.users.map fun u =>
      if u.id = user.id then
        { u with lastLogin := some now, displayName := if name = "" then u.displayName else name }
      else u }
  pure user.id

/-- Find or create the user record of a validated token. -/
def upsertUser (E : Env) (now : Time) (config : OIDCConfig) (claims : Claims) : Request Uuid := do
  let rows ← Txn.read fun db => db.externalUsers config.tenantID (claims.text E "sub" "")
  let user ← scalarOneOrNone rows
  match user with
  | none =>
    createUser E config (config.email E claims) (config.displayName E claims) (claims.text E "sub" "")
  | some user => touchUser now (config.displayName E claims) user

def oidcContext (E : Env) (now : Time) (token issuer : String) : Request AuthContext := do
  let config ← Txn.read fun db => db.oidcConfig issuer
  let config ← Txn.ofOption ⟨401, "No active tenant configured for this identity provider"⟩ config
  let claims ← Txn.ofOption ⟨401, "Token validation failed"⟩ (E.decodeOidc config token now)
  Txn.raiseIf (config.email E claims = "") ⟨401, "Email claim missing"⟩
  let userID ← upsertUser E now config claims
  let (roles, permissions) := E.loadPermissions userID config.tenantID now
  pure ⟨some userID, config.tenantID, config.email E claims, roles, permissions⟩

/-- The `iss` claim where it is true in the sense of `if not issuer`. -/
def Claims.issuer (unverified : Claims) : Option Json :=
  (unverified.get "iss").filter fun j =>
    j ∉ [.null, .bool false, .num 0, .str "", .arr [], .obj []]

def Json.asText : Json → Option String
  | .str s => some s
  | _ => none

def getAuthContext (E : Env) (now : Time) (credentials : Option String) : Request AuthContext := do
  let token ← Txn.ofOption ⟨401, "Authorization header required"⟩ credentials
  let unverified ← Txn.ofOption ⟨401, "Invalid token"⟩ (E.unverifiedClaims token)
  if IsLocal E unverified then localContext E now token
  else do
    let issuer ← Txn.ofOption ⟨401, "Missing issuer claim"⟩ unverified.issuer
    let issuer ← Txn.ofOption serverError (Json.asText issuer)
    oidcContext E now token issuer

/-! ### Which tokens are accepted -/

variable {E : Env} {now : Time} {db db' : Db} {token : String} {ctx : AuthContext}

theorem localContext_eq_ok :
    localContext E now token db = (.ok ctx, db') ↔
      db = db' ∧ E.jwtSecret.getD "" ≠ "" ∧ ∃ claims tenantID userID,
        localClaims E now token = some claims ∧ claims.uuid E "tenant_id" = some (some tenantID) ∧
        (db.tenants tenantID).isSome ∧ claims.uuid E "sub" = some userID ∧
        ctx = ⟨userID, tenantID, claims.text E "email" "",
          (E.loadPermissions (userID.getD "") tenantID now).1,
          (E.loadPermissions (userID.getD "") tenantID now).2⟩ := by
  simp only [localContext, Txn.raiseIf_bind_eq_ok, Txn.ofOption_bind_eq_ok, Txn.read_bind_eq_ok,
    Txn.pure_eq_ok, Option.filter_eq_some_iff]
  constructor
  · rintro ⟨hsecret, claims, hclaims, _, htid, tenantID, ⟨rfl, hrow⟩, userID, huid, rfl, rfl⟩
    exact ⟨rfl, hsecret, claims, tenantID, userID, hclaims, htid, hrow, huid, rfl⟩
  · rintro ⟨rfl, hsecret, claims, tenantID, userID, hclaims, htid, hrow, huid, rfl⟩
    exact ⟨hsecret, claims, hclaims, _, htid, tenantID, ⟨rfl, hrow⟩, userID, huid, rfl, rfl⟩

theorem getAuthContext_eq_ok {credentials : Option String} :
    getAuthContext E now credentials db = (.ok ctx, db') ↔
      ∃ token unverified, credentials = some token ∧ E.unverifiedClaims token = some unverified ∧
        (IsLocal E unverified ∧ localContext E now token db = (.ok ctx, db') ∨
          ¬ IsLocal E unverified ∧ ∃ issuer, unverified.issuer = some (.str issuer) ∧
            oidcContext E now token issuer db = (.ok ctx, db')) := by
  unfold getAuthContext
  simp only [Txn.ofOption_bind_eq_ok]
  refine exists_congr fun token => ?_
  constructor
  · rintro ⟨hcred, unverified, huv, h⟩
    refine ⟨unverified, hcred, huv, ?_⟩
    split_ifs at h with hlocal
    · exact .inl ⟨hlocal, h⟩
    · simp only [Txn.ofOption_bind_eq_ok] at h
      obtain ⟨j, hj, issuer, htext, h⟩ := h
      refine .inr ⟨hlocal, issuer, ?_, h⟩
      cases j <;> simp only [Json.asText, Option.some.injEq, reduceCtorEq] at htext
      rw [hj, htext]
  · rintro ⟨unverified, hcred, huv, ⟨hlocal, h⟩ | ⟨hlocal, issuer, hissuer, h⟩⟩
    · exact ⟨hcred, unverified, huv, by rw [if_pos hlocal]; exact h⟩
    · refine ⟨hcred, unverified, huv, ?_⟩
      rw [if_neg hlocal]
      simp only [Txn.ofOption_bind_eq_ok]
      exact ⟨_, hissuer, issuer, rfl, h⟩

theorem createUser_eq_ok {config : OIDCConfig} {email name externalID : String} {id : Uuid}
    (h : createUser E config email name externalID db = (.ok id, db')) :
    id = E.uuid4 db.nextID ∧ db' = { db with
      users := db.users ++ [User.mk id config.tenantID email name (some externalID) true false none]
      nextID := db.nextID + 1 } := by
  unfold createUser at h
  simp only [Txn.read_bind_eq_ok, Txn.raiseIf_bind_eq_ok, Txn.write_bind_eq_ok, Txn.pure_eq_ok] at h
  obtain ⟨-, rfl, rfl⟩ := h
  exact ⟨rfl, rfl⟩

theorem touchUser_eq_ok {name : String} {user : User} {id : Uuid} :
    touchUser now name user db = (.ok id, db') ↔
      user.id = id ∧ { db with
        users := db.users.map fun u =>
          if u.id = user.id then
            { u with lastLogin := some now, displayName := if name = "" then u.displayName else name }
          else u } = db' := by
  simp [touchUser]

/-- An accepted OIDC token belongs to the user record of its subject, made on the spot if there is
none. -/
theorem upsertUser_eq_ok {config : OIDCConfig} {claims : Claims} {id : Uuid} :
    upsertUser E now config claims db = (.ok id, db') ↔
      db.externalUsers config.tenantID (claims.text E "sub" "") = [] ∧
          createUser E config (config.email E claims) (config.displayName E claims)
            (claims.text E "sub" "") db = (.ok id, db') ∨
        ∃ user, db.externalUsers config.tenantID (claims.text E "sub" "") = [user] ∧
          touchUser now (config.displayName E claims) user db = (.ok id, db') := by
  unfold upsertUser
  rw [Txn.read_bind_eq_ok, Txn.bind_eq_ok]
  simp only [scalarOneOrNone_eq_ok]
  constructor
  · rintro ⟨user, _, ⟨hrows, rfl⟩, h⟩
    cases user with
    | none => exact .inl ⟨hrows, h⟩
    | some user => exact .inr ⟨user, hrows, h⟩
  · rintro (⟨hrows, h⟩ | ⟨user, hrows, h⟩)
    · exact ⟨none, db, ⟨hrows, rfl⟩, h⟩
    · exact ⟨some user, db, ⟨hrows, rfl⟩, h⟩

theorem oidcContext_eq_ok {issuer : String} :
    oidcContext E now token issuer db = (.ok ctx, db') ↔
      ∃ config claims userID, db.oidcConfig issuer = some config ∧
        E.decodeOidc config token now = some claims ∧ config.email E claims ≠ "" ∧
        upsertUser E now config claims db = (.ok userID, db') ∧
        ctx = ⟨some userID, config.tenantID, config.email E claims,
          (E.loadPermissions userID config.tenantID now).1,
          (E.loadPermissions userID config.tenantID now).2⟩ := by
  unfold oidcContext
  simp only [Txn.read_bind_eq_ok, Txn.ofOption_bind_eq_ok, Txn.raiseIf_bind_eq_ok]
  simp only [Txn.bind_eq_ok, Txn.pure_eq_ok]
  constructor
  · rintro ⟨config, hconfig, claims, hclaims, hemail, userID, _, huser, rfl, rfl⟩
    exact ⟨config, claims, userID, hconfig, hclaims, hemail, huser, rfl⟩
  · rintro ⟨config, claims, userID, hconfig, hclaims, hemail, huser, rfl⟩
    exact ⟨config, hconfig, claims, hclaims, hemail, userID, db', huser, rfl, rfl⟩

end Dgraphai.Auth
