import Dgraphai.AuthContext

/-!
# Tenants behind one identity provider (`auth/oidc.py`)

Several tenants may have a config of one issuer. `get_auth_context` takes the first active one whose issuer is
that of the token, and only then validates the token against it. `authenticates_iff` says when the holder of a
token that validates against one config gets into the tenant of that config.
-/

namespace Dgraphai.Auth

/-- `jwt.decode` takes a token only under the algorithms it is asked for, `HS256` or the asymmetric ones. -/
def Env.SeparatesAlgorithms (E : Env) : Prop := ∀ config token secret now,
  (E.decodeOidc config token now).isSome → E.decodeLocal secret token now = none

/-- Issuer, audience and key of the token are those of the config. -/
def OIDCConfig.Validates (E : Env) (now : Time) (token issuer : String) (config : OIDCConfig) : Prop :=
  config.issuerURL = issuer ∧ (E.decodeOidc config token now).isSome

instance (E : Env) (now : Time) (token issuer : String) (config : OIDCConfig) :
    Decidable (config.Validates E now token issuer) := inferInstanceAs (Decidable (_ ∧ _))

namespace Db
variable (db : Db)

/-- The active configs of active tenants, in the order of the database. -/
def activeConfigs : List OIDCConfig := db.oidcConfigs.filter fun c => c.isActive ∧ db.tenantActive c.tenantID

/-- The subject has one user record in the tenant, or none and its address is free there. -/
def AdmitsSubject (E : Env) (config : OIDCConfig) (claims : Claims) : Prop :=
  match db.externalUsers config.tenantID (claims.text E "sub" "") with
  | [] => ∀ u ∈ db.users, ¬ (u.tenantID = config.tenantID ∧ u.email = config.email E claims)
  | [_] => True
  | _ :: _ :: _ => False

end Db

/-- `get_auth_context` returns, with the tenant of the config. -/
def AuthenticatesIn (E : Env) (now : Time) (token : String) (db : Db) (config : OIDCConfig) : Prop :=
  ∃ ctx db', getAuthContext E now (some token) db = (.ok ctx, db') ∧ ctx.tenantID = config.tenantID

variable {E : Env} {now : Time} {db : Db} {token issuer : String} {unverified claims : Claims} {config : OIDCConfig}

theorem oidcConfig_eq : db.oidcConfig issuer = db.activeConfigs.find? fun c => c.issuerURL = issuer := by
  rw [Db.oidcConfig, Db.activeConfigs, List.find?_filter]
  refine congrFun (congrArg _ (funext fun c => ?_)) _
  simp only [decide_eq_true_iff]
  exact decide_eq_decide.2 and_comm

theorem issuer_eq_some (h : unverified.get "iss" = some (.str issuer)) {text : String} :
    unverified.issuer = some (.str text) ↔ text = issuer ∧ issuer ≠ "" := by
  rw [Claims.issuer, h, Option.filter_some]
  by_cases hempty : issuer = ""
  · simp [hempty]
  · simp [hempty, eq_comm]

theorem exists_createUser_iff {email name externalID : String} :
    (∃ id db', createUser E config email name externalID db = (.ok id, db')) ↔
      ∀ u ∈ db.users, ¬ (u.tenantID = config.tenantID ∧ u.email = email) := by
  unfold createUser
  simp only [Txn.read_bind_eq_ok, Txn.raiseIf_bind_eq_ok, Txn.write_bind_eq_ok, Txn.pure_eq_ok]
  constructor
  · rintro ⟨-, -, hfree, -⟩ u hu htaken
    exact hfree (List.any_eq_true.2 ⟨u, hu, decide_eq_true htaken⟩)
  · intro hfree
    refine ⟨_, _, fun htaken => ?_, rfl, rfl⟩
    obtain ⟨u, hu, h⟩ := List.any_eq_true.1 htaken
    exact hfree u hu (of_decide_eq_true h)

theorem exists_upsertUser_iff :
    (∃ id db', upsertUser E now config claims db = (.ok id, db')) ↔ db.AdmitsSubject E config claims := by
  simp only [upsertUser_eq_ok]
  unfold Db.AdmitsSubject
  split
  next hnone =>
    rw [hnone]
    simp only [true_and, reduceCtorEq, List.nil_eq, false_and, exists_false, or_false]
    exact exists_createUser_iff
  next user hone =>
    refine iff_of_true ⟨user.id, _, .inr ⟨user, hone, touchUser_eq_ok.2 ⟨rfl, rfl⟩⟩⟩ trivial
  next hmany =>
    refine iff_of_false ?_ id
    rintro ⟨_, _, ⟨hnone, -⟩ | ⟨_, hone, -⟩⟩
    · rw [hmany] at hnone
      cases hnone
    · rw [hmany] at hone
      cases hone

/-- The holder of a token of one config gets into its tenant exactly if the config is the first with its issuer
and the token has what the code asks for besides. -/
theorem authenticates_iff (hlib : E.SeparatesAlgorithms) (hunverified : E.unverifiedClaims token = some unverified)
    (hissuer : unverified.get "iss" = some (.str issuer))
    (hone : (db.activeConfigs.filter fun c => c.Validates E now token issuer) = [config]) :
    AuthenticatesIn E now token db config ↔ ¬ IsLocal E unverified ∧ issuer ≠ "" ∧
      (db.activeConfigs.find? fun c => c.issuerURL = issuer) = some config ∧
      ∃ claims, E.decodeOidc config token now = some claims ∧ config.email E claims ≠ "" ∧
        db.AdmitsSubject E config claims := by
  have hmem : config ∈ db.activeConfigs.filter fun c => c.Validates E now token issuer :=
    hone ▸ List.mem_singleton_self config
  have hvalid : config.Validates E now token issuer := of_decide_eq_true (List.mem_filter.1 hmem).2
  have hnoLocal : ∀ ctx db', localContext E now token db ≠ (.ok ctx, db') := by
    intro ctx db' hok
    obtain ⟨-, -, claims, _, _, hclaims, -⟩ := localContext_eq_ok.1 hok
    rw [localClaims, hlib config token _ now hvalid.2] at hclaims
    cases hclaims
  constructor
  · rintro ⟨ctx, db', hok, htenant⟩
    obtain ⟨token', unverified', htoken, hunverified', hcase⟩ := getAuthContext_eq_ok.1 hok
    obtain rfl := Option.some.inj htoken
    obtain rfl := Option.some.inj (hunverified.symm.trans hunverified')
    rcases hcase with ⟨-, hok⟩ | ⟨hlocal, issuer', hissuer', hok⟩
    · exact absurd hok (hnoLocal ctx db')
    obtain ⟨rfl, hne⟩ := (issuer_eq_some hissuer).1 hissuer'
    obtain ⟨first, claims, userID, hfirst, hclaims, hemail, huser, rfl⟩ := oidcContext_eq_ok.1 hok
    rw [oidcConfig_eq] at hfirst
    -- the first row validates the token, so it is the only one that does
    obtain rfl : first = config := by
      have hfound : first ∈ db.activeConfigs.filter fun c => c.Validates E now token issuer' := by
        refine List.mem_filter.2 ⟨List.mem_of_find?_eq_some hfirst, decide_eq_true ⟨?_, ?_⟩⟩
        · exact of_decide_eq_true (List.find?_some (p := fun c : OIDCConfig => c.issuerURL = issuer') hfirst)
        · rw [hclaims]
          rfl
      rw [hone] at hfound
      exact List.mem_singleton.1 hfound
    exact ⟨hlocal, hne, hfirst, claims, hclaims, hemail, exists_upsertUser_iff.1 ⟨userID, db', huser⟩⟩
  · rintro ⟨hlocal, hne, hfirst, claims, hclaims, hemail, hadmits⟩
    obtain ⟨userID, db', huser⟩ := exists_upsertUser_iff.2 hadmits
    have hok := oidcContext_eq_ok.2
      ⟨config, claims, userID, oidcConfig_eq.trans hfirst, hclaims, hemail, huser, rfl⟩
    have htext := (issuer_eq_some hissuer).2 ⟨rfl, hne⟩
    exact ⟨_, db', getAuthContext_eq_ok.2 ⟨token, unverified, rfl, hunverified, .inr ⟨hlocal, issuer, htext, hok⟩⟩,
      rfl⟩

/-! ### Two customers of one provider -/

def googleClaims (audience : String) : Claims :=
  [("iss", .str "https://accounts.google.com"), ("aud", .str audience), ("sub", .str "ann"),
    ("email", .str "ann@acme.com")]

/-- Each token is the audience it was issued for. -/
def googleEnv : Env :=
  { plainEnv with
    unverifiedClaims := fun token => some (googleClaims token)
    decodeOidc := fun config token _ => if config.clientID = token then some (googleClaims token) else none }

def googleConfig (tenantID clientID : String) : OIDCConfig :=
  ⟨tenantID, "https://accounts.google.com", clientID, [], true⟩

/-- The configs of two tenants, in one order or the other. -/
def twoCustomers (configs : List OIDCConfig) : Db :=
  { emptyDb with
    tenants := Function.update (Function.update emptyDb.tenants "acme" (some ⟨"pro", true⟩)) "beta"
      (some ⟨"pro", true⟩)
    oidcConfigs := configs }

theorem googleEnv_separatesAlgorithms : googleEnv.SeparatesAlgorithms := fun _ _ _ _ _ => rfl

theorem firstCustomer_authenticated : AuthenticatesIn googleEnv 0 "c1"
    (twoCustomers [googleConfig "acme" "c1", googleConfig "beta" "c2"]) (googleConfig "acme" "c1") :=
  (authenticates_iff googleEnv_separatesAlgorithms rfl rfl (by decide)).2
    ⟨by decide, by decide, by decide, googleClaims "c1", rfl, by decide, fun _ hu => absurd hu List.not_mem_nil⟩

theorem secondCustomer_not_authenticated : ¬ ∀ (E : Env) (now : Time) (db : Db) (token issuer : String)
    (unverified : Claims) (config : OIDCConfig), E.SeparatesAlgorithms → E.unverifiedClaims token = some unverified →
      unverified.get "iss" = some (.str issuer) →
        (db.activeConfigs.filter fun c => c.Validates E now token issuer) = [config] →
          AuthenticatesIn E now token db config := by
  intro h
  obtain ⟨ctx, db', hok, -⟩ := h googleEnv 0 (twoCustomers [googleConfig "beta" "c2", googleConfig "acme" "c1"]) "c1"
    "https://accounts.google.com" (googleClaims "c1") (googleConfig "acme" "c1") googleEnv_separatesAlgorithms rfl rfl
    (by decide)
  have hrefused : getAuthContext googleEnv 0 (some "c1")
      (twoCustomers [googleConfig "beta" "c2", googleConfig "acme" "c1"]) =
        (.error ⟨401, "Token validation failed"⟩,
          twoCustomers [googleConfig "beta" "c2", googleConfig "acme" "c1"]) := rfl
  rw [hrefused] at hok
  cases hok

end Dgraphai.Auth
