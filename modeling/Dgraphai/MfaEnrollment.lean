import Dgraphai.AuthContext
import Dgraphai.Lib.Runs

/-!
# Enrolling and disabling a second factor (`auth/local.py`)

Four endpoints write the MFA config of a user: `enroll_mfa`, `verify_mfa_enrollment`, `login` (which takes the
used backup code out) and `disable_mfa`. `disable_mfa` asks for a code of the factor in place; `enroll_mfa` asks
for none and replaces whatever is there. `guarded_iff` says which runs never lose a factor without a code of it.
-/

namespace Dgraphai.Auth

/-- `pyotp.TOTP(secret).provisioning_uri(name, "dgraph.ai")`, and the QR code of a URI as base64. -/
structure Pyotp where
  provisioningUri : String → String → String
  qrCode : String → String

structure EnrollResponse where
  secret : String
  qrCodePng : String
  backupCodes : List String
  uri : String
  deriving DecidableEq, Repr

/-- `enroll_mfa`, with the secret and the backup codes drawn. -/
def enrollMFA (E : Env) (pyotp : Pyotp) (now : Time) (credentials : Option String) (secret : String)
    (backupCodes : List String) : Request EnrollResponse := do
  let auth ← getAuthContext E now credentials
  let user ← Txn.read fun db => auth.userID.bind db.user
  let user ← Txn.ofOption serverError user
  let uri := pyotp.provisioningUri secret user.email
  Txn.write fun db => db.setMFA user.id ⟨secret, some backupCodes, false⟩
  pure ⟨secret, pyotp.qrCode uri, backupCodes, uri⟩

/-- The config of the user of a token, with its key. -/
def ownMFA (auth : AuthContext) (db : Db) : Option (Uuid × MFAConfig) :=
  auth.userID.bind fun id => (db.mfaConfigs id).map fun mfa => (id, mfa)

def verifyMFAEnrollment (E : Env) (now : Time) (credentials : Option String) (code : String) : Request Unit := do
  let auth ← getAuthContext E now credentials
  let own ← Txn.read (ownMFA auth)
  let (id, mfa) ← Txn.ofOption ⟨404, "No pending MFA enrollment"⟩ own
  Txn.raiseIf (E.verifyTotp mfa.secret code now = false) ⟨400, "Invalid TOTP code"⟩
  Txn.write fun db => db.setMFA id { mfa with isActive := true }

/-- `_verify_totp(…) or _use_backup_code(…)`: the config without the backup code used. -/
def confirm (E : Env) (now : Time) (mfa : MFAConfig) (code : String) : Option MFAConfig :=
  if E.verifyTotp mfa.secret code now then some mfa else useBackupCode E mfa code

def disableMFA (E : Env) (now : Time) (credentials : Option String) (code : String) : Request Unit := do
  let auth ← getAuthContext E now credentials
  let own ← Txn.read fun db => (ownMFA auth db).filter (·.2.isActive)
  let (id, mfa) ← Txn.ofOption ⟨404, "MFA not enabled"⟩ own
  let mfa ← Txn.ofOption ⟨400, "Invalid TOTP code"⟩ (confirm E now mfa code)
  Txn.write fun db => db.setMFA id { mfa with isActive := false }

/-! ### Runs -/

inductive MFAEvent where
  | enroll (now : Time) (credentials : Option String) (secret : String) (backupCodes : List String)
  | verifyEnrollment (now : Time) (credentials : Option String) (code : String)
  | login (now : Time) (req : LoginRequest)
  | disable (now : Time) (credentials : Option String) (code : String)
  deriving DecidableEq, Repr

namespace MFAEvent

def body (E : Env) (pyotp : Pyotp) : MFAEvent → Request Unit
  | .enroll now credentials secret backupCodes => do
    let _response ← enrollMFA E pyotp now credentials secret backupCodes
    pure ()
  | .verifyEnrollment now credentials code => verifyMFAEnrollment E now credentials code
  | .login now req => do
    let _response ← Auth.login E now req
    pure ()
  | .disable now credentials code => disableMFA E now credentials code

def now : MFAEvent → Time
  | .enroll now .. | .verifyEnrollment now .. | .login now _ | .disable now .. => now

/-- The code a request carries. -/
def code : MFAEvent → Option String
  | .enroll .. => none
  | .verifyEnrollment _ _ code | .disable _ _ code => some code
  | .login _ req => req.mfaCode

/-- The request carries a TOTP code or an unused backup code of the config. -/
def Confirms (E : Env) (e : MFAEvent) (mfa : MFAConfig) : Prop := ∃ code ∈ e.code, (confirm E e.now mfa code).isSome

end MFAEvent

def mfaStep (E : Env) (pyotp : Pyotp) (db : Db) (e : MFAEvent) : Option Db :=
  some (getDb (e.body E pyotp) db).2

/-- The factor is in place, with the same secret. -/
def Db.HasFactor (db : Db) (userID : Uuid) (secret : String) : Prop :=
  ∃ mfa ∈ db.mfaConfigs userID, mfa.isActive = true ∧ mfa.secret = secret

/-- An active factor is still in place after the request, or the request carried a code of it. -/
def Guarded (E : Env) (pyotp : Pyotp) (db : Db) (e : MFAEvent) : Prop := ∀ userID, ∀ mfa ∈ db.mfaConfigs userID,
  mfa.isActive = true → ∀ db' ∈ mfaStep E pyotp db e, db'.HasFactor userID mfa.secret ∨ e.Confirms E mfa

/-- No user enrolls with an active factor. -/
def FreshEnrollment (E : Env) (db : Db) : MFAEvent → Prop
  | .enroll now credentials _ _ => ∀ ctx db', getAuthContext E now credentials db = (.ok ctx, db') →
      ∀ user ∈ ctx.userID.bind db'.user, ∀ mfa ∈ db.mfaConfigs user.id, mfa.isActive = false
  | _ => True

variable {E : Env} {pyotp : Pyotp} {now : Time} {db db' : Db} {ctx : AuthContext} {e : MFAEvent} {userID v : Uuid}
  {credentials : Option String} {secret code : String} {mfa mfa' : MFAConfig}

/-! ### Rows -/

theorem Db.HasFactor.congr (h : db'.mfaConfigs = db.mfaConfigs) :
    db'.HasFactor userID secret ↔ db.HasFactor userID secret := by
  rw [Db.HasFactor, Db.HasFactor, h]

theorem Db.mfaConfigs_setMFA : (db.setMFA userID mfa).mfaConfigs = Function.update db.mfaConfigs userID (some mfa) :=
  rfl

theorem Db.hasFactor_setMFA_self :
    (db.setMFA userID mfa).HasFactor userID secret ↔ mfa.isActive = true ∧ mfa.secret = secret := by
  rw [Db.HasFactor, Db.mfaConfigs_setMFA, Function.update_self]
  constructor
  · rintro ⟨mfa', hmem, h⟩
    obtain rfl := Option.some.inj hmem
    exact h
  · exact fun h => ⟨mfa, rfl, h⟩

theorem Db.hasFactor_setMFA_of_ne (h : v ≠ userID) :
    (db.setMFA userID mfa).HasFactor v secret ↔ db.HasFactor v secret := by
  rw [Db.HasFactor, Db.HasFactor, Db.mfaConfigs_setMFA, Function.update_of_ne h]

theorem getAuthContext_mfaConfigs (h : getAuthContext E now credentials db = (.ok ctx, db')) :
    db'.mfaConfigs = db.mfaConfigs := by
  obtain ⟨token, unverified, -, -, ⟨-, h⟩ | ⟨-, issuer, -, h⟩⟩ := getAuthContext_eq_ok.1 h
  · obtain ⟨rfl, -⟩ := localContext_eq_ok.1 h
    rfl
  · obtain ⟨config, claims, id, -, -, -, h, -⟩ := oidcContext_eq_ok.1 h
    rcases upsertUser_eq_ok.1 h with ⟨-, h⟩ | ⟨user, -, h⟩
    · rw [(createUser_eq_ok h).2]
    · rw [← (touchUser_eq_ok.1 h).2]

/-- A used backup code leaves the secret and the state of the factor. -/
theorem useBackupCode_eq_some (h : useBackupCode E mfa code = some mfa') :
    mfa'.secret = mfa.secret ∧ mfa'.isActive = mfa.isActive := by
  unfold useBackupCode at h
  dsimp only at h
  split_ifs at h
  obtain rfl := Option.some.inj h
  exact ⟨rfl, rfl⟩

/-! ### What an accepted request did -/

theorem enrollMFA_eq_ok {backupCodes : List String} {r : EnrollResponse} :
    enrollMFA E pyotp now credentials secret backupCodes db = (.ok r, db') ↔
      ∃ ctx db₁ user, getAuthContext E now credentials db = (.ok ctx, db₁) ∧ ctx.userID.bind db₁.user = some user ∧
        db₁.setMFA user.id ⟨secret, some backupCodes, false⟩ = db' ∧
        ⟨secret, pyotp.qrCode (pyotp.provisioningUri secret user.email), backupCodes,
          pyotp.provisioningUri secret user.email⟩ = r := by
  unfold enrollMFA
  rw [Txn.bind_eq_ok]
  simp only [Txn.read_bind_eq_ok, Txn.ofOption_bind_eq_ok, Txn.write_bind_eq_ok, Txn.pure_eq_ok]
  constructor
  · rintro ⟨ctx, db₁, hauth, user, huser, hr, hdb⟩
    exact ⟨ctx, db₁, user, hauth, huser, hdb, hr⟩
  · rintro ⟨ctx, db₁, user, hauth, huser, hdb, hr⟩
    exact ⟨ctx, db₁, hauth, user, huser, hr, hdb⟩

theorem ownMFA_eq_some : ownMFA ctx db = some (userID, mfa) ↔
    ctx.userID = some userID ∧ db.mfaConfigs userID = some mfa := by
  rw [ownMFA, Option.bind_eq_some_iff]
  constructor
  · rintro ⟨id, hid, h⟩
    obtain ⟨mfa', hmfa, heq⟩ := Option.map_eq_some_iff.1 h
    obtain ⟨rfl, rfl⟩ := Prod.mk.inj heq
    exact ⟨hid, hmfa⟩
  · rintro ⟨hid, hmfa⟩
    exact ⟨userID, hid, by rw [hmfa, Option.map_some]⟩

theorem verifyMFAEnrollment_ok {u : Unit}
    (h : verifyMFAEnrollment E now credentials code db = (.ok u, db')) :
    ∃ ctx db₁ id mfa, getAuthContext E now credentials db = (.ok ctx, db₁) ∧ db₁.mfaConfigs id = some mfa ∧
      db₁.setMFA id { mfa with isActive := true } = db' := by
  unfold verifyMFAEnrollment at h
  rw [Txn.bind_eq_ok] at h
  obtain ⟨ctx, db₁, hauth, h⟩ := h
  simp only [Txn.read_bind_eq_ok, Txn.ofOption_bind_eq_ok, Txn.raiseIf_bind_eq_ok, Txn.write_eq_ok] at h
  obtain ⟨⟨id, mfa⟩, hown, -, hdb⟩ := h
  exact ⟨ctx, db₁, id, mfa, hauth, (ownMFA_eq_some.1 hown).2, hdb⟩

theorem disableMFA_ok {u : Unit} (h : disableMFA E now credentials code db = (.ok u, db')) :
    ∃ ctx db₁ id mfa mfa', getAuthContext E now credentials db = (.ok ctx, db₁) ∧ db₁.mfaConfigs id = some mfa ∧
      confirm E now mfa code = some mfa' ∧ db₁.setMFA id { mfa' with isActive := false } = db' := by
  unfold disableMFA at h
  rw [Txn.bind_eq_ok] at h
  obtain ⟨ctx, db₁, hauth, h⟩ := h
  simp only [Txn.read_bind_eq_ok, Txn.ofOption_bind_eq_ok, Txn.write_eq_ok] at h
  obtain ⟨⟨id, mfa⟩, hown, mfa', hconfirm, hdb⟩ := h
  exact ⟨ctx, db₁, id, mfa, mfa', hauth, (ownMFA_eq_some.1 (Option.filter_eq_some_iff.1 hown).1).2, hconfirm, hdb⟩

/-- A login leaves every factor in place. -/
theorem login_hasFactor {req : LoginRequest} {r : LoginResponse} (h : login E now req db = (.ok r, db'))
    (hmfa : mfa ∈ db.mfaConfigs v) (hactive : mfa.isActive = true) : db'.HasFactor v mfa.secret := by
  obtain ⟨user, cred, -, -, -, -, db₁, hcheck, hopen⟩ := login_eq_ok.1 h
  have hdb' : db'.mfaConfigs = db₁.mfaConfigs := by rw [← (openSession_eq_ok.1 hopen).2]; rfl
  rw [Db.HasFactor.congr hdb']
  have hbefore : (db.setCredential user.id (cred.reset now)).HasFactor v mfa.secret := ⟨mfa, hmfa, hactive, rfl⟩
  rw [checkMFA_eq_ok] at hcheck
  split at hcheck
  next =>
    rw [← hcheck]
    exact hbefore
  next own hown =>
    obtain ⟨-, ⟨-, rfl⟩ | ⟨-, own', hused, rfl⟩⟩ := hcheck
    · exact hbefore
    · by_cases hv : v = user.id
      · subst hv
        obtain ⟨hsecret, hstate⟩ := useBackupCode_eq_some hused
        obtain ⟨hrow, hon⟩ := Option.filter_eq_some_iff.1 hown
        obtain rfl : own = mfa := Option.some.inj (hrow.symm.trans hmfa)
        exact Db.hasFactor_setMFA_self.2 ⟨hstate.trans hon, hsecret⟩
      · exact (Db.hasFactor_setMFA_of_ne hv).2 hbefore

/-! ### One request -/

theorem Guarded.of_body (h : ∀ db', e.body E pyotp db = (.ok (), db') → ∀ userID, ∀ mfa ∈ db.mfaConfigs userID,
    mfa.isActive = true → db'.HasFactor userID mfa.secret ∨ e.Confirms E mfa) : Guarded E pyotp db e := by
  rintro userID mfa hmfa hactive db' hstep
  obtain rfl := Option.some.inj hstep
  rcases Txn.exec_state_cases (e.body E pyotp) db with ⟨u, hok⟩ | ⟨hsame, -⟩
  · exact h _ hok userID mfa hmfa hactive
  · rw [getDb, hsame]
    exact .inl ⟨mfa, hmfa, hactive, rfl⟩

theorem guarded_enroll_iff {backupCodes : List String} :
    Guarded E pyotp db (.enroll now credentials secret backupCodes) ↔
      FreshEnrollment E db (.enroll now credentials secret backupCodes) := by
  constructor
  · intro h ctx db₁ hauth user huser mfa hmfa
    refine eq_false_of_ne_true fun hactive => ?_
    have hbody : (MFAEvent.enroll now credentials secret backupCodes).body E pyotp db =
        (.ok (), db₁.setMFA user.id ⟨secret, some backupCodes, false⟩) :=
      Txn.bind_of_ok (enrollMFA_eq_ok.2 ⟨ctx, db₁, user, hauth, huser, rfl, rfl⟩)
    have hstep : mfaStep E pyotp db (.enroll now credentials secret backupCodes) =
        some (db₁.setMFA user.id ⟨secret, some backupCodes, false⟩) := by
      rw [mfaStep, getDb, Txn.exec_of_ok hbody]
    rcases h user.id mfa hmfa hactive _ hstep with hkept | ⟨code, hcode, -⟩
    · cases (Db.hasFactor_setMFA_self.1 hkept).1
    · cases hcode
  · intro h
    refine Guarded.of_body fun db' hbody userID mfa hmfa hactive => .inl ?_
    obtain ⟨r, db'', henroll, hpure⟩ := Txn.bind_eq_ok.1 hbody
    obtain rfl := (Txn.pure_eq_ok.1 hpure).2
    obtain ⟨ctx, db₁, user, hauth, huser, rfl, -⟩ := enrollMFA_eq_ok.1 henroll
    by_cases hv : userID = user.id
    · subst hv
      rw [h ctx db₁ hauth user huser mfa hmfa] at hactive
      cases hactive
    · rw [Db.hasFactor_setMFA_of_ne hv, Db.HasFactor.congr (getAuthContext_mfaConfigs hauth)]
      exact ⟨mfa, hmfa, hactive, rfl⟩

theorem guarded_verifyEnrollment : Guarded E pyotp db (.verifyEnrollment now credentials code) := by
  refine Guarded.of_body fun db' hbody userID mfa hmfa hactive => .inl ?_
  obtain ⟨ctx, db₁, id, own, hauth, hown, rfl⟩ := verifyMFAEnrollment_ok hbody
  rw [getAuthContext_mfaConfigs hauth] at hown
  by_cases hv : userID = id
  · subst hv
    obtain rfl : own = mfa := Option.some.inj (hown.symm.trans hmfa)
    exact Db.hasFactor_setMFA_self.2 ⟨rfl, rfl⟩
  · rw [Db.hasFactor_setMFA_of_ne hv, Db.HasFactor.congr (getAuthContext_mfaConfigs hauth)]
    exact ⟨mfa, hmfa, hactive, rfl⟩

theorem guarded_login {req : LoginRequest} : Guarded E pyotp db (.login now req) := by
  refine Guarded.of_body fun db' hbody userID mfa hmfa hactive => .inl ?_
  obtain ⟨r, db'', hlogin, hpure⟩ := Txn.bind_eq_ok.1 hbody
  obtain rfl := (Txn.pure_eq_ok.1 hpure).2
  exact login_hasFactor hlogin hmfa hactive

theorem guarded_disable : Guarded E pyotp db (.disable now credentials code) := by
  refine Guarded.of_body fun db' hbody userID mfa hmfa hactive => ?_
  obtain ⟨ctx, db₁, id, own, own', hauth, hown, hconfirm, rfl⟩ := disableMFA_ok hbody
  rw [getAuthContext_mfaConfigs hauth] at hown
  by_cases hv : userID = id
  · subst hv
    obtain rfl : own = mfa := Option.some.inj (hown.symm.trans hmfa)
    exact .inr ⟨code, rfl, by rw [MFAEvent.now, hconfirm]; rfl⟩
  · refine .inl ?_
    rw [Db.hasFactor_setMFA_of_ne hv, Db.HasFactor.congr (getAuthContext_mfaConfigs hauth)]
    exact ⟨mfa, hmfa, hactive, rfl⟩

theorem guarded_iff_freshEnrollment : Guarded E pyotp db e ↔ FreshEnrollment E db e := by
  cases e with
  | enroll now credentials secret backupCodes => exact guarded_enroll_iff
  | verifyEnrollment now credentials code => exact iff_of_true guarded_verifyEnrollment trivial
  | login now req => exact iff_of_true guarded_login trivial
  | disable now credentials code => exact iff_of_true guarded_disable trivial

/-- In a run no active factor is lost without a code of it exactly if no user enrolls with an active factor. -/
theorem guarded_iff (E : Env) (pyotp : Pyotp) (db : Db) (events : List MFAEvent) :
    Runs.Along (mfaStep E pyotp) (Guarded E pyotp) db events ↔
      Runs.Along (mfaStep E pyotp) (FreshEnrollment E) db events := by
  have hsame : Guarded E pyotp = FreshEnrollment E :=
    funext fun _ => funext fun _ => propext guarded_iff_freshEnrollment
  rw [hsame]

/-- The account of `oneAccount` with a factor, and a token of it. -/
def oneFactor : Db :=
  { oneAccount with mfaConfigs := Function.update oneAccount.mfaConfigs "u1" (some ⟨"S1", some ["AAAA1111"], true⟩) }

def sessionEnv : Env :=
  { plainEnv with
    unverifiedClaims := fun _ => some [("auth_type", .str "local"), ("tenant_id", .str "t1"), ("sub", .str "u1")]
    decodeLocal := fun _ _ _ => some [("auth_type", .str "local"), ("tenant_id", .str "t1"), ("sub", .str "u1")] }

theorem enrolledAgain_not_guarded : ¬ ∀ (E : Env) (pyotp : Pyotp) (db : Db) (events : List MFAEvent),
    Runs.Along (mfaStep E pyotp) (Guarded E pyotp) db events := by
  intro h
  have hguarded := (h sessionEnv ⟨fun _ _ => "", fun _ => ""⟩ oneFactor [.enroll 0 (some "token") "S2" []] _ rfl).1
  rcases hguarded "u1" ⟨"S1", some ["AAAA1111"], true⟩ rfl rfl _ rfl with ⟨mfa, hmfa, hactive, -⟩ | ⟨code, hcode, -⟩
  · obtain rfl := Option.some.inj hmfa
    cases hactive
  · cases hcode

end Dgraphai.Auth
