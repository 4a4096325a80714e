import Dgraphai.Login

/-!
# Account lockout over runs of login requests

`Vault` is what of an account decides an attempt, and `Vault.accept` its whole life under attempts: the
counter of failed attempts does not occur in it. Since a wrong password raises and `getDb` rolls back,
`login` simulates the vault (`vault_login`), so wrong passwords leave no trace and the lockout holds
over a run exactly if the vault happens to accept no attempt in the locked window (`lockoutHolds_iff`).
-/

namespace Dgraphai.Auth

/-- A login attempt for a fixed account. -/
structure Attempt where
  now : Time
  password : String
  mfaCode : Option String
  clientHost : Option String
  userAgent : String
  deriving DecidableEq, Repr

def Attempt.request (a : Attempt) (email : String) : LoginRequest :=
  ⟨email, a.password, a.mfaCode, a.clientHost, a.userAgent⟩

/-- The result of an attempt and the tables after it. -/
def attemptLogin (E : Env) (email : String) (db : Db) (a : Attempt) : Except HttpError LoginResponse × Db :=
  getDb (login E a.now (a.request email)) db

def afterLogins (E : Env) (email : String) (db : Db) (attempts : List Attempt) : Db :=
  attempts.foldl (fun db a => (attemptLogin E email db a).2) db

structure Vault where
  passwordHash : String
  lockedUntil : Option Time
  /-- The TOTP secret and the unused backup codes of an active MFA config. -/
  secondFactor : Option (String × List String)
  deriving DecidableEq, Repr

/-- The second factor an MFA config asks for. -/
def factor (mfa : Option MFAConfig) : Option (String × List String) :=
  (mfa.filter (·.isActive)).map fun mfa => (mfa.secret, mfa.backupCodes.getD [])

/-- The vault of the one active account with this email. -/
def Db.vault (db : Db) (email : String) : Option Vault :=
  match db.activeUsers email with
  | [user] => (db.credentials user.id).map fun cred =>
      ⟨cred.passwordHash, cred.lockedUntil, factor (db.mfaConfigs user.id)⟩
  | _ => none

/-- Whether the second factor lets `code` through, and what is left of it. -/
def passFactor (E : Env) (now : Time) (code : String) :
    Option (String × List String) → Option (Option (String × List String))
  | none => some none
  | some (secret, codes) =>
    if code = "" then none
    else if E.verifyTotp secret code now then some (some (secret, codes))
    else if normalizeCode E code ∈ codes then some (some (secret, codes.erase (normalizeCode E code)))
    else none

/-- The vault after an accepted attempt. -/
def Vault.accept (E : Env) (v : Vault) (a : Attempt) : Option Vault :=
  if (∃ t ∈ v.lockedUntil, a.now < t) ∨ E.verify a.password v.passwordHash = false then none
  else (passFactor E a.now (a.mfaCode.getD "") v.secondFactor).map fun f =>
    { v with lockedUntil := none, secondFactor := f }

/-- The vault after a list of attempts, accepted or not. -/
def Vault.after (E : Env) (v : Vault) (attempts : List Attempt) : Vault :=
  attempts.foldl (fun v a => (v.accept E a).getD v) v

variable {E : Env} {db db' : Db} {now : Time} {email : String}

/-! ### The simulation -/

theorem vault_eq_some {v : Vault} :
    db.vault email = some v ↔
      ∃ user cred, db.activeUsers email = [user] ∧ db.credentials user.id = some cred ∧
        ⟨cred.passwordHash, cred.lockedUntil, factor (db.mfaConfigs user.id)⟩ = v := by
  unfold Db.vault
  generalize db.activeUsers email = rows
  rcases rows with _ | ⟨user, _ | ⟨u, l⟩⟩
  · simp
  · simp only [Option.map_eq_some_iff]
    constructor
    · rintro ⟨cred, hcred, hv⟩
      exact ⟨user, cred, rfl, hcred, hv⟩
    · rintro ⟨_, cred, hrow, hcred, hv⟩
      cases hrow
      exact ⟨cred, hcred, hv⟩
  · simp

theorem factor_of_active {mfa : MFAConfig} (h : mfa.isActive = true) :
    factor (some mfa) = some (mfa.secret, mfa.backupCodes.getD []) := by
  simp [factor, Option.filter, h]

/-- The second factor passes or not, and only it changes. -/
theorem checkMFA_spec (E : Env) (now : Time) (userID : Uuid) (code : Option String) (db : Db) :
    (∃ db₁, checkMFA E now userID code db = (.ok (), db₁) ∧ db₁.users = db.users ∧
        db₁.credentials = db.credentials ∧
        passFactor E now (code.getD "") (factor (db.mfaConfigs userID)) =
          some (factor (db₁.mfaConfigs userID))) ∨
      (∀ db₁, checkMFA E now userID code db ≠ (.ok (), db₁)) ∧
        passFactor E now (code.getD "") (factor (db.mfaConfigs userID)) = none := by
  simp only [ne_eq, checkMFA_eq_ok]
  cases hmfa : (db.mfaConfigs userID).filter (·.isActive) with
  | none =>
    have hf : factor (db.mfaConfigs userID) = none := by rw [factor, hmfa]; rfl
    exact .inl ⟨db, rfl, rfl, rfl, by rw [hf]; rfl⟩
  | some mfa =>
    obtain ⟨hrow, hactive⟩ := Option.filter_eq_some_iff.1 hmfa
    have hf : factor (db.mfaConfigs userID) = some (mfa.secret, mfa.backupCodes.getD []) := by
      rw [hrow, factor_of_active hactive]
    rw [hf]
    unfold passFactor
    dsimp only
    split_ifs with hcode htotp hmem
    · exact .inr ⟨by simp [hcode], rfl⟩
    · exact .inl ⟨db, ⟨hcode, .inl ⟨htotp, rfl⟩⟩, rfl, rfl, by rw [hf]⟩
    · -- a backup code is used up
      refine .inl ⟨_, ⟨hcode, .inr ⟨by simpa using htotp, _, if_pos hmem, rfl⟩⟩, rfl, rfl, ?_⟩
      simp [Db.setMFA, factor_of_active, hactive]
    · refine .inr ⟨?_, rfl⟩
      rintro db₁ ⟨-, ⟨h, -⟩ | ⟨-, mfa', h, -⟩⟩
      · exact htotp h
      · simp [useBackupCode, hmem] at h

/-- A login does to the vault what `Vault.accept` says, and is refused without a trace when that is
nothing. -/
theorem vault_login {v : Vault} (hv : db.vault email = some v) (a : Attempt) :
    (∃ r db' v', attemptLogin E email db a = (.ok r, db') ∧ v.accept E a = some v' ∧
        db'.vault email = some v') ∨
      (∃ e, attemptLogin E email db a = (.error e, db)) ∧ v.accept E a = none := by
  obtain ⟨user, cred, hrows, hcred, rfl⟩ := vault_eq_some.1 hv
  -- a login that is not refused passed every check on this user and credential
  have hinv : ∀ {r db'}, login E a.now (a.request email) db = (.ok r, db') →
      ¬ cred.Locked a.now ∧ E.verify a.password cred.passwordHash = true ∧
        ∃ db₁, checkMFA E a.now user.id a.mfaCode (db.setCredential user.id (cred.reset a.now)) =
          (.ok (), db₁) := by
    intro r db' h
    obtain ⟨user', cred', hrows', hcred', hlock, hpw, db₁, hmfa, -⟩ := login_eq_ok.1 h
    obtain rfl : user = user' := by simpa using hrows.symm.trans hrows'
    obtain rfl : cred = cred' := Option.some.inj (hcred.symm.trans hcred')
    exact ⟨hlock, hpw, db₁, hmfa⟩
  have hrefuse : (∀ r db', login E a.now (a.request email) db ≠ (.ok r, db')) →
      ∃ e, attemptLogin E email db a = (.error e, db) := by
    intro hno
    rcases Txn.exec_cases (login E a.now (a.request email)) db with ⟨r, db', h, -⟩ | h
    · exact absurd h (hno r db')
    · exact h
  unfold Vault.accept
  split_ifs with hdeny
  · refine .inr ⟨hrefuse fun r db' h => ?_, rfl⟩
    obtain ⟨hlock, hpw, -⟩ := hinv h
    rcases hdeny with hdeny | hdeny
    · exact hlock hdeny
    · rw [hpw] at hdeny; cases hdeny
  · rw [not_or, Bool.not_eq_false] at hdeny
    obtain ⟨hlock, hpw⟩ := hdeny
    rcases checkMFA_spec E a.now user.id a.mfaCode (db.setCredential user.id (cred.reset a.now)) with
      ⟨db₁, hmfa, husers, hcreds, hpass⟩ | ⟨hno, hpass⟩
    · obtain ⟨r, db', hopen⟩ :
          ∃ r db', openSession E a.now (a.request email) user db₁ = (.ok r, db') :=
        ⟨_, _, openSession_eq_ok.2 ⟨rfl, rfl⟩⟩
      have hlogin := login_eq_ok.2 ⟨user, cred, hrows, hcred, hlock, hpw, db₁, hmfa, hopen⟩
      refine .inl ⟨r, db', _, Txn.exec_of_ok hlogin, congrArg (Option.map _) hpass, ?_⟩
      obtain ⟨-, rfl⟩ := openSession_eq_ok.1 hopen
      refine vault_eq_some.2 ⟨user, cred.reset a.now, ?_, ?_, rfl⟩
      · show db₁.users.filter _ = _
        rw [husers]
        exact hrows
      · show db₁.credentials user.id = _
        rw [hcreds]
        exact Function.update_self ..
    · refine .inr ⟨hrefuse fun r db' h => ?_, congrArg (Option.map _) hpass⟩
      obtain ⟨-, -, db₁, hmfa⟩ := hinv h
      exact hno db₁ hmfa

theorem attemptLogin_refused_of_no_vault (hv : db.vault email = none) (a : Attempt) :
    ∃ e, attemptLogin E email db a = (.error e, db) := by
  rcases Txn.exec_cases (login E a.now (a.request email)) db with ⟨r, db', h, -⟩ | h
  · obtain ⟨user, cred, hrows, hcred, -⟩ := login_eq_ok.1 h
    have hsome := vault_eq_some.2 ⟨user, cred, hrows, hcred, rfl⟩
    exact absurd (hv.symm.trans hsome) (by simp)
  · exact h

/-- The run lemma: after any attempts the account has the vault those attempts leave. -/
theorem vault_afterLogins {v : Vault} (hv : db.vault email = some v) (attempts : List Attempt) :
    (afterLogins E email db attempts).vault email = some (v.after E attempts) := by
  induction attempts generalizing db v with
  | nil => exact hv
  | cons a attempts ih =>
    show (afterLogins E email (attemptLogin E email db a).2 attempts).vault email = _
    rcases vault_login (E := E) hv a with ⟨r, db', v', hlogin, haccept, hv'⟩ | ⟨⟨e, hlogin⟩, haccept⟩
    · rw [hlogin, ih hv', Vault.after, Vault.after, List.foldl_cons, haccept]
      rfl
    · rw [hlogin, ih hv, Vault.after, Vault.after, List.foldl_cons, haccept]
      rfl

theorem afterLogins_of_no_vault (hv : db.vault email = none) (attempts : List Attempt) :
    afterLogins E email db attempts = db := by
  induction attempts with
  | nil => rfl
  | cons a attempts ih =>
    show afterLogins E email (attemptLogin E email db a).2 attempts = db
    obtain ⟨e, hlogin⟩ := attemptLogin_refused_of_no_vault (E := E) hv a
    rw [hlogin]
    exact ih

/-! ### The lockout -/

/-- `a` presents a wrong password for the account. No login changes the password hash. -/
def WrongPassword (E : Env) (email : String) (db : Db) (a : Attempt) : Prop :=
  ∃ v, db.vault email = some v ∧ E.verify a.password v.passwordHash = false

/-- In the run `attempts`, attempt `a` comes after `before` and within the 15 minutes that follow five
consecutive attempts with a wrong password. -/
def InLockedWindow (E : Env) (email : String) (db : Db) (attempts before : List Attempt) (a : Attempt) :
    Prop :=
  ∃ pre five mid post last, attempts = before ++ a :: post ∧ before = pre ++ five ++ mid ∧
    five.length = maxFailedAttempts ∧ five.getLast? = some last ∧
    (∀ x ∈ five, WrongPassword E email db x) ∧ last.now ≤ a.now ∧ a.now < last.now + lockout

/-- Every attempt in a locked window is refused. -/
def LockoutHolds (E : Env) (email : String) (db : Db) (attempts : List Attempt) : Prop :=
  ∀ before a, InLockedWindow E email db attempts before a →
    ∃ e, (attemptLogin E email (afterLogins E email db before) a).1 = .error e

/-- The lockout holds over a run exactly if no attempt in a locked window is one the account's vault, in
which failed attempts leave nothing, accepts. -/
theorem lockoutHolds_iff (E : Env) (email : String) (db : Db) (attempts : List Attempt) :
    LockoutHolds E email db attempts ↔
      ∀ before a, InLockedWindow E email db attempts before a →
        ∀ v, db.vault email = some v → (v.after E before).accept E a = none := by
  refine forall₂_congr fun before a => forall_congr' fun _ => ?_
  cases hv : db.vault email with
  | none =>
    refine iff_of_true ?_ (by simp)
    rw [afterLogins_of_no_vault hv]
    obtain ⟨e, hlogin⟩ := attemptLogin_refused_of_no_vault (E := E) hv a
    exact ⟨e, by rw [hlogin]⟩
  | some v =>
    have hafter := vault_afterLogins (E := E) hv before
    rcases vault_login (E := E) hafter a with ⟨r, db', v', hlogin, haccept, -⟩ | ⟨⟨e, hlogin⟩, haccept⟩
    · simp [hlogin, haccept]
    · simp [hlogin, haccept]

/-! ### Five wrong passwords, then the right one -/

def wrongThenRight : List Attempt :=
  let guess (n : Nat) (p : String) : Attempt := ⟨n * 1000000, p, none, none, ""⟩
  [guess 1 "a", guess 2 "b", guess 3 "c", guess 4 "d", guess 5 "e", guess 6 "Secret123"]

/-- The right password is accepted one second after five wrong ones. -/
theorem lockout_never_engages : ¬ LockoutHolds plainEnv "ann@acme.com" oneAccount wrongThenRight := by
  intro h
  obtain ⟨e, he⟩ := h (wrongThenRight.take 5) ⟨6000000, "Secret123", none, none, ""⟩
    ⟨[], wrongThenRight.take 5, [], [], ⟨5000000, "e", none, none, ""⟩, rfl, rfl, rfl, rfl,
      fun x hx => ⟨_, rfl, by revert x; decide⟩, by decide, by decide⟩
  have hok : (attemptLogin plainEnv "ann@acme.com"
      (afterLogins plainEnv "ann@acme.com" oneAccount (wrongThenRight.take 5))
      ⟨6000000, "Secret123", none, none, ""⟩).1.toOption.isSome := by decide
  rw [he] at hok
  cases hok

end Dgraphai.Auth
