import Dgraphai.Lib.Runs
import Dgraphai.Sessions

/-!
# One-time credentials under concurrent requests (`auth/local.py`)

`login` and `reset_password` statement by statement: a request reads what is committed, keeps what it has
read and writes its changed columns back when it commits, so a request that committed in between goes
unnoticed. Backup codes and reset tokens are used once exactly if every request that accepts one commits
while what it has read of it still stands (`oneTime_always_iff`).
-/

namespace Dgraphai.Auth

/-- A request inside its transaction, with what it has read so far. -/
inductive Flight where
  | login (now : Time) (req : LoginRequest)
  | loginUser (now : Time) (req : LoginRequest) (user : User)
  /-- The password is verified. -/
  | loginCredential (now : Time) (req : LoginRequest) (user : User) (cred : LocalCredential)
  /-- The second factor is passed; `used` is the list of backup codes read and the code found in it. -/
  | loginFactor (now : Time) (req : LoginRequest) (user : User) (cred : LocalCredential)
      (used : Option (List String × String))
  | reset (now : Time) (token newPassword : String)
  | resetToken (now : Time) (token newPassword : String) (pr : PasswordResetToken)
  | resetCredential (now : Time) (token newPassword : String) (pr : PasswordResetToken)
      (cred : Option LocalCredential)
  deriving DecidableEq, Repr

/-- A one-time credential: a backup code of a user, a reset token by its hash. -/
inductive OneTimeCredential where
  | backupCode (userID : Uuid) (code : String)
  | resetToken (tokenHash : String)
  deriving DecidableEq, Repr

/-- The columns that `new` changes against `old`, written to the stored row. -/
def LocalCredential.writeBack (old new stored : LocalCredential) : LocalCredential where
  passwordHash := if new.passwordHash = old.passwordHash then stored.passwordHash else new.passwordHash
  failedAttempts := if new.failedAttempts = old.failedAttempts then stored.failedAttempts else new.failedAttempts
  lockedUntil := if new.lockedUntil = old.lockedUntil then stored.lockedUntil else new.lockedUntil
  lastFailedAt := if new.lastFailedAt = old.lastFailedAt then stored.lastFailedAt else new.lastFailedAt
  lastLoginAt := if new.lastLoginAt = old.lastLoginAt then stored.lastLoginAt else new.lastLoginAt

/-- `UPDATE local_credentials SET … WHERE user_id = …`. -/
def Db.updateCredential (db : Db) (userID : Uuid) (old new : LocalCredential) : Db :=
  { db with
    credentials := Function.update db.credentials userID ((db.credentials userID).map (old.writeBack new)) }

/-- `UPDATE mfa_configs SET backup_codes = … WHERE user_id = …`. -/
def Db.updateBackupCodes (db : Db) (userID : Uuid) (codes : List String) : Db :=
  { db with
    mfaConfigs := Function.update db.mfaConfigs userID
      ((db.mfaConfigs userID).map fun mfa => { mfa with backupCodes := some codes }) }

/-- `UPDATE password_reset_tokens SET used_at = … WHERE token_hash = …`. -/
def Db.updateUsedAt (db : Db) (tokenHash : String) (now : Time) : Db :=
  { db with
    resetTokens := Function.update db.resetTokens tokenHash
      ((db.resetTokens tokenHash).map fun pr => { pr with usedAt := some now }) }

/-- The stored backup codes of a user. -/
def Db.backupCodes (db : Db) (userID : Uuid) : List String :=
  ((db.mfaConfigs userID).bind (·.backupCodes)).getD []

namespace Flight
variable (E : Env)

/-- The request after its next query; `none` where it raises. -/
def next (db : Db) : Flight → Option Flight
  | .login now req =>
    match db.activeUsers req.email with
    | [user] => some (.loginUser now req user)
    | _ => none
  | .loginUser now req user =>
    (db.credentials user.id).bind fun cred =>
      if cred.Locked now ∨ E.verify req.password cred.passwordHash = false then none
      else some (.loginCredential now req user cred)
  | .loginCredential now req user cred =>
    match (db.mfaConfigs user.id).filter (·.isActive) with
    | none => some (.loginFactor now req user cred none)
    | some mfa =>
      let code := req.mfaCode.getD ""
      if code = "" then none
      else if E.verifyTotp mfa.secret code now then some (.loginFactor now req user cred none)
      else (useBackupCode E mfa code).map fun _ =>
        .loginFactor now req user cred (some (mfa.backupCodes.getD [], normalizeCode E code))
  | .reset now token newPassword =>
    ((db.resetTokens (E.hashToken token)).filter fun pr => pr.usedAt = none ∧ now ≤ pr.expiresAt).bind fun pr =>
      (Txn.value? (validatePassword E newPassword) db).map fun _ => .resetToken now token newPassword pr
  | .resetToken now token newPassword pr =>
    some (.resetCredential now token newPassword pr (db.credentials pr.userID))
  | .loginFactor _ _ _ _ _ => none
  | .resetCredential _ _ _ _ _ => none

/-- What a request writes when it commits, and the one-time credential it has accepted. -/
def commit (db : Db) : Flight → Option (Db × Option OneTimeCredential)
  | .loginFactor now req user cred used =>
    let db := db.updateCredential user.id cred (cred.reset now)
    let db := match used with
      | some (codes, code) => db.updateBackupCodes user.id (codes.erase code)
      | none => db
    some (db.addSession (E.uuid4 db.nextID) ⟨user.id, user.tenantID, req.clientHost,
      (req.userAgent.take 512).toString, now + hours E.jwtExpiryHours, none⟩,
      used.map fun u => .backupCode user.id u.2)
  | .resetCredential now token newPassword pr cred =>
    let db := db.updateUsedAt (E.hashToken token) now
    let db := match cred with
      | some cred => db.updateCredential pr.userID cred (cred.renew (E.hash newPassword))
      | none => db
    some (db.revokeSessionsOf pr.userID now, some (.resetToken (E.hashToken token)))
  | _ => none

end Flight

/-- The committed tables, the requests under way, and the one-time credentials accepted so far. -/
structure RaceState where
  db : Db
  flights : Nat → Option Flight
  accepted : List OneTimeCredential

inductive RaceAction where
  | login (g : Nat) (now : Time) (req : LoginRequest)
  | resetPassword (g : Nat) (now : Time) (token newPassword : String)
  /-- Request `g` runs its next query. -/
  | query (g : Nat)
  | commit (g : Nat)
  /-- Request `g` is rolled back. -/
  | abort (g : Nat)
  deriving Repr

namespace RaceState

def start (db : Db) : RaceState := ⟨db, fun _ => none, []⟩

def setFlight (s : RaceState) (g : Nat) (f : Option Flight) : RaceState :=
  { s with flights := Function.update s.flights g f }

def arrive (s : RaceState) (g : Nat) (f : Flight) : Option RaceState :=
  match s.flights g with
  | none => some (s.setFlight g (some f))
  | some _ => none

def step (E : Env) (s : RaceState) : RaceAction → Option RaceState
  | .login g now req => s.arrive g (.login now req)
  | .resetPassword g now token newPassword => s.arrive g (.reset now token newPassword)
  | .query g => (s.flights g).map fun f => s.setFlight g (f.next E s.db)
  | .commit g =>
    (s.flights g).bind fun f => (f.commit E s.db).map fun r =>
      { s.setFlight g none with db := r.1, accepted := s.accepted ++ r.2.toList }
  | .abort g => (s.flights g).map fun _ => s.setFlight g none

/-- No one-time credential was accepted twice, and no accepted backup code is in the list of its user. -/
def OneTime (s : RaceState) : Prop :=
  s.accepted.Nodup ∧ ∀ userID code, .backupCode userID code ∈ s.accepted → code ∉ s.db.backupCodes userID

end RaceState

/-- What the request read of the credential it accepts still stands: the stored list of backup codes is
the one it found its code in, once; the reset token is unused. -/
def Flight.Current (E : Env) (db : Db) : Flight → Prop
  | .loginFactor _ _ user _ (some (codes, code)) => db.backupCodes user.id = codes ∧ code ∉ codes.erase code
  | .resetCredential _ token _ _ _ => ∀ pr, db.resetTokens (E.hashToken token) = some pr → pr.usedAt = none
  | _ => True

namespace RaceState

/-- The commits of requests whose reads still stand; every other step may be taken. -/
def Timely (E : Env) (s : RaceState) : RaceAction → Prop
  | .commit g => ∀ f, s.flights g = some f → f.Current E s.db
  | _ => True

/-- What is known of a request: what it read is there, or has been accepted since. -/
def Reads (E : Env) (s : RaceState) : Flight → Prop
  | .loginFactor _ _ user _ (some (codes, code)) => code ∈ codes ∧ (s.db.mfaConfigs user.id).isSome ∧
      (s.db.backupCodes user.id = codes ∨ ∃ c ∈ codes, .backupCode user.id c ∈ s.accepted)
  | .resetToken _ token _ _ | .resetCredential _ token _ _ _ =>
    ∃ pr, s.db.resetTokens (E.hashToken token) = some pr ∧
      (pr.usedAt = none ∨ .resetToken (E.hashToken token) ∈ s.accepted)
  | _ => True

structure Inv (E : Env) (s : RaceState) : Prop where
  flights : ∀ g f, s.flights g = some f → s.Reads E f
  tokens : ∀ h, .resetToken h ∈ s.accepted → ∃ pr, s.db.resetTokens h = some pr ∧ pr.usedAt ≠ none

end RaceState

/-! ### The writes -/

section
variable {db : Db} {userID v : Uuid}

theorem Db.backupCodes_updateBackupCodes (h : (db.mfaConfigs userID).isSome) (codes : List String) (v : Uuid) :
    (db.updateBackupCodes userID codes).backupCodes v = if v = userID then codes else db.backupCodes v := by
  obtain ⟨mfa, hmfa⟩ := Option.isSome_iff_exists.1 h
  rcases eq_or_ne v userID with rfl | hne
  · simp [backupCodes, updateBackupCodes, hmfa]
  · simp [backupCodes, updateBackupCodes, hne]

theorem Db.isSome_updateBackupCodes (codes : List String) (v : Uuid) :
    ((db.updateBackupCodes userID codes).mfaConfigs v).isSome = (db.mfaConfigs v).isSome := by
  rcases eq_or_ne v userID with rfl | hne
  · simp [updateBackupCodes]
  · simp [updateBackupCodes, hne]

theorem Db.resetTokens_updateUsedAt {tokenHash h : String} {now : Time} {pr : PasswordResetToken}
    (hpr : db.resetTokens h = some pr) : ∃ pr', (db.updateUsedAt tokenHash now).resetTokens h = some pr' ∧
      (h = tokenHash ∧ pr'.usedAt ≠ none ∨ h ≠ tokenHash ∧ pr' = pr) := by
  rcases eq_or_ne h tokenHash with rfl | hne
  · exact ⟨{ pr with usedAt := some now }, by simp [updateUsedAt, hpr], .inl ⟨rfl, by simp⟩⟩
  · exact ⟨pr, by simp [updateUsedAt, hne, hpr], .inr ⟨hne, rfl⟩⟩

end

/-! ### What a request has read -/

namespace RaceState
variable {E : Env} {s s' : RaceState} {f f' : Flight}

theorem Reads.congr (hmfa : s'.db.mfaConfigs = s.db.mfaConfigs) (htok : s'.db.resetTokens = s.db.resetTokens)
    (hacc : ∀ c ∈ s.accepted, c ∈ s'.accepted) (h : s.Reads E f) : s'.Reads E f := by
  cases f with
  | loginFactor now req user cred used =>
    obtain _ | ⟨codes, code⟩ := used
    · trivial
    · obtain ⟨hmem, hsome, hcodes⟩ := h
      refine ⟨hmem, by rwa [hmfa], ?_⟩
      rw [Db.backupCodes, hmfa]
      exact hcodes.imp_right fun ⟨c, hc, ha⟩ => ⟨c, hc, hacc _ ha⟩
  | resetToken now token newPassword pr =>
    obtain ⟨pr', hpr', hused⟩ := h
    exact ⟨pr', by rwa [htok], hused.imp_right (hacc _)⟩
  | resetCredential now token newPassword pr cred =>
    obtain ⟨pr', hpr', hused⟩ := h
    exact ⟨pr', by rwa [htok], hused.imp_right (hacc _)⟩
  | _ => trivial

theorem reads_next (h : s.Reads E f) (hnext : f.next E s.db = some f') : s.Reads E f' := by
  cases f with
  | login now req =>
    simp only [Flight.next] at hnext
    split at hnext
    · cases hnext; trivial
    · cases hnext
  | loginUser now req user =>
    obtain ⟨cred, -, hnext⟩ := Option.bind_eq_some_iff.1 hnext
    split_ifs at hnext
    cases hnext
    trivial
  | loginCredential now req user cred =>
    simp only [Flight.next] at hnext
    split at hnext
    · cases hnext; trivial
    next mfa hmfa =>
      obtain ⟨hrow, -⟩ := Option.filter_eq_some_iff.1 hmfa
      split_ifs at hnext with hcode htotp
      · cases hnext; trivial
      · obtain ⟨mfa', hmfa', rfl⟩ := Option.map_eq_some_iff.1 hnext
        have hmem : normalizeCode E (req.mfaCode.getD "") ∈ mfa.backupCodes.getD [] := by
          by_contra hnot
          rw [useBackupCode, if_neg hnot] at hmfa'
          cases hmfa'
        exact ⟨hmem, by rw [hrow]; rfl, .inl (by rw [Db.backupCodes, hrow]; rfl)⟩
  | reset now token newPassword =>
    obtain ⟨pr, hpr, hnext⟩ := Option.bind_eq_some_iff.1 hnext
    obtain ⟨-, -, rfl⟩ := Option.map_eq_some_iff.1 hnext
    obtain ⟨hrow, hvalid⟩ := Option.filter_eq_some_iff.1 hpr
    exact ⟨pr, hrow, .inl (by simpa using (of_decide_eq_true hvalid).1)⟩
  | resetToken now token newPassword pr =>
    cases hnext
    exact h
  | loginFactor now req user cred used => cases hnext
  | resetCredential now token newPassword pr cred => cases hnext

theorem Inv.setFlight (h : s.Inv E) (g : Nat) {x : Option Flight} (hx : ∀ f, x = some f → s.Reads E f) :
    (s.setFlight g x).Inv E where
  flights g' f hf := by
    rcases eq_or_ne g' g with rfl | hne
    · exact hx f (by simpa [RaceState.setFlight] using hf)
    · exact h.flights g' f (by simpa [RaceState.setFlight, hne] using hf)
  tokens := h.tokens

/-- The state after a commit that accepts `used`. -/
def committed (s : RaceState) (g : Nat) (db : Db) (used : Option OneTimeCredential) : RaceState :=
  { s.setFlight g none with db := db, accepted := s.accepted ++ used.toList }

theorem flights_committed {g g' : Nat} {db : Db} {used : Option OneTimeCredential}
    (h : (s.committed g db used).flights g' = some f) : s.flights g' = some f := by
  rcases eq_or_ne g' g with rfl | hne
  · simp [committed, setFlight] at h
  · simpa [committed, setFlight, hne] using h

/-- A login without a backup code leaves the one-time credentials alone. -/
theorem login_commit (h : s.Inv E) (hs : s.OneTime) {g : Nat} {db : Db}
    (hmfa : db.mfaConfigs = s.db.mfaConfigs) (htok : db.resetTokens = s.db.resetTokens) :
    (s.committed g db none).Inv E ∧ (s.committed g db none).OneTime := by
  have hacc : (s.committed g db none).accepted = s.accepted := List.append_nil _
  refine ⟨⟨fun g' f hf => ?_, fun k hk => ?_⟩, ?_, fun userID code hc => ?_⟩
  · exact (h.flights g' f (flights_committed hf)).congr hmfa htok fun c hc => by rwa [hacc]
  · rw [hacc] at hk
    obtain ⟨pr, hpr, hused⟩ := h.tokens k hk
    exact ⟨pr, by rwa [committed, htok], hused⟩
  · rw [hacc]
    exact hs.1
  · rw [hacc] at hc
    rw [committed, Db.backupCodes, hmfa]
    exact hs.2 userID code hc

/-- A login that found `code` in the list `codes`. -/
theorem backupCode_commit (h : s.Inv E) (hs : s.OneTime) {g : Nat} {db : Db} {userID : Uuid} {codes : List String}
    {code : String} (hmem : code ∈ codes) (hrow : (s.db.mfaConfigs userID).isSome)
    (hcodes : s.db.backupCodes userID = codes ∨ ∃ c ∈ codes, .backupCode userID c ∈ s.accepted)
    (hmfa : db.mfaConfigs = (s.db.updateBackupCodes userID (codes.erase code)).mfaConfigs)
    (htok : db.resetTokens = s.db.resetTokens) :
    (s.db.backupCodes userID = codes ∧ code ∉ codes.erase code →
      (s.committed g db (some (.backupCode userID code))).Inv E ∧
        (s.committed g db (some (.backupCode userID code))).OneTime) ∧
    ((s.committed g db (some (.backupCode userID code))).OneTime →
      s.db.backupCodes userID = codes ∧ code ∉ codes.erase code) := by
  have hstored : ∀ v, db.backupCodes v = if v = userID then codes.erase code else s.db.backupCodes v := by
    intro v
    rw [Db.backupCodes, hmfa]
    exact Db.backupCodes_updateBackupCodes hrow _ v
  have hacc : ∀ c, c ∈ (s.committed g db (some (.backupCode userID code))).accepted ↔
      c ∈ s.accepted ∨ c = .backupCode userID code := fun c => by simp [committed]
  constructor
  · rintro ⟨hcur, honce⟩
    refine ⟨⟨fun g' f hf => ?_, fun k hk => ?_⟩, ?_, fun v c hc => ?_⟩
    · have hreads := h.flights g' f (flights_committed hf)
      cases f with
      | loginFactor now req user cred used =>
        obtain _ | ⟨codes', code'⟩ := used
        · trivial
        · obtain ⟨hmem', hrow', hcodes'⟩ := hreads
          refine ⟨hmem', ?_, ?_⟩
          · show (db.mfaConfigs user.id).isSome
            rw [hmfa, Db.isSome_updateBackupCodes]
            exact hrow'
          · rcases hcodes' with hcodes' | ⟨c, hc, ha⟩
            · rcases eq_or_ne user.id userID with heq | hne
              · -- both found their code in the same list
                rw [heq, hcur] at hcodes'
                exact .inr ⟨code, hcodes' ▸ hmem, (hacc _).2 (.inr (by rw [heq]))⟩
              · exact .inl (by rw [← hcodes']; exact (hstored user.id).trans (if_neg hne))
            · exact .inr ⟨c, hc, (hacc _).2 (.inl ha)⟩
      | resetToken now token newPassword pr =>
        obtain ⟨pr', hpr', hused⟩ := hreads
        exact ⟨pr', by rwa [committed, htok], hused.imp_right fun ha => (hacc _).2 (.inl ha)⟩
      | resetCredential now token newPassword pr cred =>
        obtain ⟨pr', hpr', hused⟩ := hreads
        exact ⟨pr', by rwa [committed, htok], hused.imp_right fun ha => (hacc _).2 (.inl ha)⟩
      | _ => trivial
    · rcases (hacc _).1 hk with hk | hk
      · obtain ⟨pr, hpr, hused⟩ := h.tokens k hk
        exact ⟨pr, by rwa [committed, htok], hused⟩
      · cases hk
    · refine List.nodup_append.2 ⟨hs.1, by simp, ?_⟩
      rintro a ha b hb rfl
      obtain rfl : a = .backupCode userID code := by simpa using hb
      exact hs.2 userID code ha (hcur ▸ hmem)
    · show c ∉ db.backupCodes v
      rw [hstored]
      rcases (hacc _).1 hc with hold | hnew
      · split_ifs with hv
        · obtain rfl := hv
          exact fun hin => hs.2 v c hold (hcur ▸ List.mem_of_mem_erase hin)
        · exact hs.2 v c hold
      · cases hnew
        rwa [if_pos rfl]
  · rintro ⟨hnodup, hgone⟩
    have hleft : ∀ c, .backupCode userID c ∈ (s.committed g db (some (.backupCode userID code))).accepted →
        c ∉ codes.erase code := by
      intro c hc
      have := hgone userID c hc
      rwa [committed, hstored, if_pos rfl] at this
    refine ⟨?_, hleft code ((hacc _).2 (.inr rfl))⟩
    rcases hcodes with hcodes | ⟨c, hc, ha⟩
    · exact hcodes
    · -- a code of the list has been accepted: the list that is written back holds it, or it is `code`
      exfalso
      have hne : c ≠ code := by
        rintro rfl
        exact (List.nodup_append.1 hnodup).2.2 _ ha _ (by simp) rfl
      exact hleft c ((hacc _).2 (.inl ha)) ((List.mem_erase_of_ne hne).2 hc)

/-- A password reset with the token of hash `k`. -/
theorem reset_commit (h : s.Inv E) (hs : s.OneTime) (now : Time) {g : Nat} {db : Db} {k : String}
    (hread : ∃ pr, s.db.resetTokens k = some pr ∧ (pr.usedAt = none ∨ .resetToken k ∈ s.accepted))
    (hmfa : db.mfaConfigs = s.db.mfaConfigs) (htok : db.resetTokens = (s.db.updateUsedAt k now).resetTokens) :
    ((∀ pr, s.db.resetTokens k = some pr → pr.usedAt = none) →
      (s.committed g db (some (.resetToken k))).Inv E ∧ (s.committed g db (some (.resetToken k))).OneTime) ∧
    ((s.committed g db (some (.resetToken k))).OneTime → ∀ pr, s.db.resetTokens k = some pr → pr.usedAt = none) := by
  have hacc : ∀ c, c ∈ (s.committed g db (some (.resetToken k))).accepted ↔ c ∈ s.accepted ∨ c = .resetToken k :=
    fun c => by simp [committed]
  -- a token that a request has read is still there, used or not
  have hkept : ∀ k' pr, s.db.resetTokens k' = some pr → ∃ pr', db.resetTokens k' = some pr' ∧
      (k' = k ∧ pr'.usedAt ≠ none ∨ k' ≠ k ∧ pr' = pr) := fun k' pr hpr => by
    rw [htok]
    exact Db.resetTokens_updateUsedAt hpr
  have htoken : ∀ token : String, (∃ pr, s.db.resetTokens (E.hashToken token) = some pr ∧
      (pr.usedAt = none ∨ .resetToken (E.hashToken token) ∈ s.accepted)) →
      ∃ pr, db.resetTokens (E.hashToken token) = some pr ∧ (pr.usedAt = none ∨
        .resetToken (E.hashToken token) ∈ (s.committed g db (some (.resetToken k))).accepted) := by
    rintro token ⟨pr, hpr, hused⟩
    obtain ⟨pr', hpr', ⟨heq, -⟩ | ⟨-, rfl⟩⟩ := hkept _ pr hpr
    · exact ⟨pr', hpr', .inr ((hacc _).2 (.inr (by rw [heq])))⟩
    · exact ⟨pr', hpr', hused.imp_right fun ha => (hacc _).2 (.inl ha)⟩
  constructor
  · intro hcur
    have hnot : .resetToken k ∉ s.accepted := by
      intro ha
      obtain ⟨pr, hpr, hused⟩ := h.tokens k ha
      exact hused (hcur pr hpr)
    refine ⟨⟨fun g' f hf => ?_, fun k' hk' => ?_⟩, ?_, fun v c hc => ?_⟩
    · have hreads := h.flights g' f (flights_committed hf)
      cases f with
      | loginFactor now req user cred used =>
        obtain _ | ⟨codes, code⟩ := used
        · trivial
        · obtain ⟨hmem, hrow, hcodes⟩ := hreads
          refine ⟨hmem, by rwa [committed, hmfa], ?_⟩
          rw [committed, Db.backupCodes, hmfa]
          exact hcodes.imp_right fun ⟨c, hc, ha⟩ => ⟨c, hc, (hacc _).2 (.inl ha)⟩
      | resetToken now token newPassword pr => exact htoken token hreads
      | resetCredential now token newPassword pr cred => exact htoken token hreads
      | _ => trivial
    · obtain ⟨pr, hpr, hused⟩ : ∃ pr, s.db.resetTokens k' = some pr ∧ (k' = k ∨ pr.usedAt ≠ none) := by
        rcases (hacc _).1 hk' with hk' | hk'
        · obtain ⟨pr, hpr, hused⟩ := h.tokens k' hk'
          exact ⟨pr, hpr, .inr hused⟩
        · cases hk'
          obtain ⟨pr, hpr, -⟩ := hread
          exact ⟨pr, hpr, .inl rfl⟩
      obtain ⟨pr', hpr', ⟨-, hused'⟩ | ⟨hne, rfl⟩⟩ := hkept k' pr hpr
      · exact ⟨pr', hpr', hused'⟩
      · exact ⟨pr', hpr', hused.resolve_left hne⟩
    · refine List.nodup_append.2 ⟨hs.1, by simp, ?_⟩
      rintro a ha b hb rfl
      obtain rfl : a = .resetToken k := by simpa using hb
      exact hnot ha
    · rw [committed, Db.backupCodes, hmfa]
      rcases (hacc _).1 hc with hc | hc
      · exact hs.2 v c hc
      · cases hc
  · rintro ⟨hnodup, -⟩ pr hpr
    obtain ⟨pr', hpr', hused⟩ := hread
    obtain rfl : pr' = pr := Option.some.inj (hpr'.symm.trans hpr)
    refine hused.resolve_right fun ha => ?_
    exact (List.nodup_append.1 hnodup).2.2 _ ha _ (by simp) rfl

/-- A commit keeps one-time credentials one-time exactly if what the request read still stands. -/
theorem commit_good (h : s.Inv E) (hs : s.OneTime) {g : Nat} {db : Db} {used : Option OneTimeCredential}
    (hf : s.flights g = some f) (hc : f.commit E s.db = some (db, used)) :
    (f.Current E s.db → (s.committed g db used).Inv E ∧ (s.committed g db used).OneTime) ∧
      ((s.committed g db used).OneTime → f.Current E s.db) := by
  have hreads := h.flights g f hf
  cases f with
  | loginFactor now req user cred used' =>
    obtain _ | ⟨codes, code⟩ := used'
    · cases hc
      exact ⟨fun _ => login_commit h hs rfl rfl, fun _ => trivial⟩
    · cases hc
      obtain ⟨hmem, hrow, hcodes⟩ := hreads
      exact backupCode_commit h hs hmem hrow hcodes rfl rfl
  | resetCredential now token newPassword pr cred =>
    cases hc
    refine reset_commit h hs now hreads ?_ ?_
    · cases cred <;> rfl
    · cases cred <;> rfl
  | _ => cases hc

/-- Backup codes and reset tokens are used once in every state of a run, and no used backup code comes back,
exactly if every request that accepts one commits while what it has read still stands. -/
theorem oneTime_always_iff (E : Env) (db : Db) (as : List RaceAction) :
    Runs.Always (step E) OneTime (start db) as ↔ Runs.Along (step E) (Timely E) (start db) as := by
  have hstart : (start db).Inv E ∧ (start db).OneTime :=
    ⟨⟨by simp [start], by simp [start]⟩, by simp [start, OneTime]⟩
  refine Runs.always_iff_along_of_good (fun s a s' h hs hstep => ?_) hstart.1 hstart.2
  have hkeep : ∀ g x, (∀ f, x = some f → s.Reads E f) → s' = s.setFlight g x → (s'.Inv E ∧ s'.OneTime) := by
    rintro g x hx rfl
    exact ⟨h.setFlight g hx, hs⟩
  cases a with
  | login g now req =>
    simp only [step, arrive] at hstep
    split at hstep
    · exact ⟨fun _ => hkeep g _ (fun f hf => by cases hf; trivial) (Option.some.inj hstep).symm, fun _ => trivial⟩
    · cases hstep
  | resetPassword g now token newPassword =>
    simp only [step, arrive] at hstep
    split at hstep
    · exact ⟨fun _ => hkeep g _ (fun f hf => by cases hf; trivial) (Option.some.inj hstep).symm, fun _ => trivial⟩
    · cases hstep
  | query g =>
    obtain ⟨f, hf, rfl⟩ := Option.map_eq_some_iff.1 hstep
    exact ⟨fun _ => hkeep g _ (fun f' hf' => reads_next (h.flights g f hf) hf') rfl, fun _ => trivial⟩
  | commit g =>
    obtain ⟨f, hf, hcommit⟩ := Option.bind_eq_some_iff.1 hstep
    obtain ⟨⟨db', used⟩, hc, rfl⟩ := Option.map_eq_some_iff.1 hcommit
    obtain ⟨hgood, hcur⟩ := commit_good h hs hf hc
    refine ⟨fun hok => hgood (hok f hf), fun hP f' hf' => ?_⟩
    obtain rfl : f = f' := Option.some.inj (hf.symm.trans hf')
    exact hcur hP
  | abort g =>
    obtain ⟨f, -, rfl⟩ := Option.map_eq_some_iff.1 hstep
    exact ⟨fun _ => hkeep g none (by simp) rfl, fun _ => trivial⟩

end RaceState

/-! ### Two logins at once -/

/-- An account with a second factor and two backup codes left. -/
def enrolled : Db :=
  { oneAccount with
    mfaConfigs := Function.update oneAccount.mfaConfigs "u1" (some ⟨"s", some ["AAAA1111", "BBBB2222"], true⟩) }

def loginWith (code : String) : LoginRequest := ⟨"ann@acme.com", "Secret123", some code, none, ""⟩

/-- Both requests have read the list before either commits. -/
def parallelLogins : List RaceAction :=
  [.login 1 0 (loginWith "AAAA1111"), .login 2 0 (loginWith "AAAA1111"), .query 1, .query 1, .query 1, .query 2,
    .query 2, .query 2, .commit 1, .commit 2]

theorem backupCode_used_twice :
    ¬ ∀ (E : Env) (db : Db) (as : List RaceAction),
      Runs.Always (RaceState.step E) RaceState.OneTime (RaceState.start db) as := by
  intro h
  have hlast := (h plainEnv enrolled parallelLogins parallelLogins _ (List.prefix_refl _) rfl).1
  revert hlast
  decide

end Dgraphai.Auth
