import Dgraphai.Lib.Runs
import Dgraphai.Sessions

/-!
# Revocation against acceptance

`Revoked`, `UserInactive` and `TenantInactive` of a reached state are traced back to the events of the
history that caused them (`revoked_afterEvents` and its siblings). `getAuthContext` looks at none of
the three for a local token and not at the user for an OIDC token, so it respects the history exactly if
the history holds nothing against the token or the token fails one of the checks that are made
(`respects_iff`).
-/

namespace Dgraphai.Auth

def Revoked (db : Db) (sid : Uuid) : Prop := ∃ s, db.sessions sid = some s ∧ s.revokedAt ≠ none

def UserInactive (db : Db) (id : Uuid) : Prop := ∃ u ∈ db.users, u.id = id ∧ u.isActive = false

def TenantInactive (db : Db) (id : Uuid) : Prop := ∃ t, db.tenants id = some t ∧ t.isActive = false

/-- No session and no user has a primary key that is still to be drawn. -/
def Fresh (E : Env) (db : Db) : Prop :=
  ∀ n, db.nextID ≤ n → db.sessions (E.uuid4 n) = none ∧ ∀ u ∈ db.users, u.id ≠ E.uuid4 n

variable {E : Env} {now : Time} {db db' : Db} {sid : Uuid} {ctx : AuthContext}
  {credentials : Option String}

/-! ### What the auth dependency leaves alone -/

/-- The tables around an accepted token: at most a user record made or touched. -/
structure AuthFrame (E : Env) (db db' : Db) : Prop where
  sessions : db'.sessions = db.sessions
  credentials : db'.credentials = db.credentials
  tenants : db'.tenants = db.tenants
  inactive : ∀ id, UserInactive db' id ↔ UserInactive db id
  fresh : Function.Injective E.uuid4 → Fresh E db → Fresh E db'

theorem AuthFrame.rfl' (E : Env) (db : Db) : AuthFrame E db db := ⟨rfl, rfl, rfl, fun _ => Iff.rfl, fun _ h => h⟩

/-- Rewriting user rows without touching `id` and `is_active`. -/
theorem userInactive_map {f : User → User} (hid : ∀ u, (f u).id = u.id)
    (hact : ∀ u, (f u).isActive = u.isActive) (users : List User) (id : Uuid) :
    (∃ u ∈ users.map f, u.id = id ∧ u.isActive = false) ↔
      ∃ u ∈ users, u.id = id ∧ u.isActive = false := by
  simp [hid, hact]

theorem upsertUser_frame {config : OIDCConfig} {claims : Claims} {id : Uuid}
    (h : upsertUser E now config claims db = (.ok id, db')) : AuthFrame E db db' := by
  rcases upsertUser_eq_ok.1 h with ⟨-, h⟩ | ⟨user, -, h⟩
  · obtain ⟨rfl, rfl⟩ := createUser_eq_ok h
    refine ⟨rfl, rfl, rfl, fun id => ?_, fun hinj hfresh n hn => ?_⟩
    · simp [UserInactive, or_and_right, exists_or]
    · obtain ⟨hs, hu⟩ := hfresh n (Nat.le_of_succ_le hn)
      refine ⟨hs, fun u hmem => ?_⟩
      rcases List.mem_append.1 hmem with hmem | hmem
      · exact hu u hmem
      · rw [List.mem_singleton.1 hmem]
        intro e
        have := hinj e
        simp only at hn
        omega
  · obtain ⟨-, rfl⟩ := touchUser_eq_ok.1 h
    refine ⟨rfl, rfl, rfl, fun id => ?_, fun _ hfresh n hn => ⟨(hfresh n hn).1, fun u hmem => ?_⟩⟩
    · exact userInactive_map (fun u => by split_ifs <;> rfl) (fun u => by split_ifs <;> rfl) db.users id
    · obtain ⟨u', hu', rfl⟩ := List.mem_map.1 hmem
      have := (hfresh n hn).2 u' hu'
      split_ifs <;> exact this

theorem getAuthContext_frame (h : getAuthContext E now credentials db = (.ok ctx, db')) :
    AuthFrame E db db' := by
  obtain ⟨token, unverified, -, -, ⟨-, h⟩ | ⟨-, issuer, -, h⟩⟩ := getAuthContext_eq_ok.1 h
  · obtain ⟨rfl, -⟩ := localContext_eq_ok.1 h
    exact .rfl' E db
  · obtain ⟨config, claims, userID, -, -, -, h, -⟩ := oidcContext_eq_ok.1 h
    exact upsertUser_frame h

/-! ### What an event does -/

def Event.Succeeds (E : Env) (db : Db) (e : Event) : Prop := ∃ db', e.body E db = (.ok (), db')

/-- The session belongs to the user the token speaks for. -/
def OwnSession (E : Env) (db : Db) (now : Time) (credentials : Option String) (sid : Uuid) : Prop :=
  ∃ ctx db' s, getAuthContext E now credentials db = (.ok ctx, db') ∧ db.sessions sid = some s ∧
    ctx.userID = some s.userID

/-- The sessions an event ends when it succeeds. -/
def Event.Targets (E : Env) (db : Db) (sid : Uuid) : Event → Prop
  | .revokeSession _ _ sessionID => E.parseUuid sessionID = some sid
  | .revokeAllSessions now credentials => OwnSession E db now credentials sid
  | .changePassword now credentials _ _ => OwnSession E db now credentials sid
  | .resetPassword _ token _ => ∃ pr s, db.resetTokens (E.hashToken token) = some pr ∧
      db.sessions sid = some s ∧ s.userID = pr.userID
  | _ => False

def Event.Revokes (E : Env) (db : Db) (e : Event) (sid : Uuid) : Prop :=
  e.Succeeds E db ∧ e.Targets E db sid

def Event.DeactivatesUser (db : Db) (e : Event) (id : Uuid) : Prop :=
  ∃ u ∈ db.users, u.id = id ∧ e = .deactivateUser id u.tenantID

def Event.DeactivatesTenant (db : Db) (e : Event) (id : Uuid) : Prop :=
  (db.tenants id).isSome ∧ e = .deactivateTenant id

/-- The effect of one event on everything a token can be refused for. -/
structure Effect (E : Env) (db db' : Db) (revokes offUser offTenant : Uuid → Prop) : Prop where
  revoked : ∀ sid, Revoked db' sid ↔ Revoked db sid ∨ revokes sid
  user : ∀ id, UserInactive db' id ↔ UserInactive db id ∨ offUser id
  tenant : ∀ id, TenantInactive db' id ↔ TenantInactive db id ∨ offTenant id
  fresh : Fresh E db'

theorem revoked_revokeSessionsOf (db : Db) (userID : Uuid) (now : Time) (sid : Uuid) :
    Revoked (db.revokeSessionsOf userID now) sid ↔
      Revoked db sid ∨ ∃ s, db.sessions sid = some s ∧ s.userID = userID := by
  unfold Revoked Db.revokeSessionsOf
  cases hs : db.sessions sid with
  | none => simp [hs]
  | some s =>
    by_cases hu : s.userID = userID <;> by_cases hr : s.revokedAt = none <;> simp [hs, hu, hr]

theorem fresh_revokeSessionsOf (h : Fresh E db) (userID : Uuid) (now : Time) :
    Fresh E (db.revokeSessionsOf userID now) := fun n hn =>
  ⟨by simp [Db.revokeSessionsOf, (h n hn).1], (h n hn).2⟩

theorem revokeSession_eq_ok {text : String} {u : Unit} :
    revokeSession E now credentials text db = (.ok u, db') ↔
      ∃ ctx db₁ id s, getAuthContext E now credentials db = (.ok ctx, db₁) ∧
        E.parseUuid text = some id ∧ db₁.sessions id = some s ∧ some s.userID = ctx.userID ∧
        { db₁ with sessions := Function.update db₁.sessions id (some { s with revokedAt := some now }) } =
          db' := by
  unfold revokeSession
  rw [Txn.bind_eq_ok]
  simp only [Txn.ofOption_bind_eq_ok, Txn.read_bind_eq_ok, Txn.write_eq_ok, Option.filter_eq_some_iff,
    decide_eq_true_eq]
  constructor
  · rintro ⟨ctx, db₁, hauth, id, hid, s, ⟨hs, hown⟩, rfl⟩
    exact ⟨ctx, db₁, id, s, hauth, hid, hs, hown, rfl⟩
  · rintro ⟨ctx, db₁, id, s, hauth, hid, hs, hown, rfl⟩
    exact ⟨ctx, db₁, hauth, id, hid, s, ⟨hs, hown⟩, rfl⟩

theorem revokeAllSessions_eq_ok {u : Unit} :
    revokeAllSessions E now credentials db = (.ok u, db') ↔
      ∃ ctx db₁, getAuthContext E now credentials db = (.ok ctx, db₁) ∧
        db₁.revokeSessionsOf? ctx.userID now = db' := by
  simp [revokeAllSessions, Txn.bind_eq_ok]

theorem validatePassword_frame {password : String} {u : Unit}
    (h : validatePassword E password db = (.ok u, db')) : db = db' := by
  simp only [validatePassword, Txn.raiseIf_bind_eq_ok, Txn.raiseIf_eq_ok] at h
  exact h.2.2.2

theorem changePassword_spec {cur new : String} {u : Unit}
    (h : changePassword E now credentials cur new db = (.ok u, db')) :
    ∃ ctx db₁ id cred, getAuthContext E now credentials db = (.ok ctx, db₁) ∧
      (db₁.setCredential id cred).revokeSessionsOf? ctx.userID now = db' := by
  unfold changePassword at h
  obtain ⟨ctx, db₁, hauth, h⟩ := Txn.bind_eq_ok.1 h
  rw [Txn.read_bind_eq_ok] at h
  obtain ⟨cred, -, h⟩ := Txn.ofOption_bind_eq_ok.1 h
  obtain ⟨u', db₂, hvalid, h⟩ := Txn.bind_eq_ok.1 h
  obtain rfl : db₁ = db₂ := validatePassword_frame hvalid
  exact ⟨ctx, db₁, _, _, hauth, Txn.write_eq_ok.1 h⟩

theorem resetPassword_spec {token new : String} {u : Unit}
    (h : resetPassword E now token new db = (.ok u, db')) :
    ∃ pr, ∃ db₁ : Db, db.resetTokens (E.hashToken token) = some pr ∧ db₁.sessions = db.sessions ∧
      db₁.users = db.users ∧ db₁.tenants = db.tenants ∧ db₁.nextID = db.nextID ∧
      db₁.revokeSessionsOf pr.userID now = db' := by
  unfold resetPassword at h
  rw [Txn.read_bind_eq_ok] at h
  obtain ⟨pr, hpr, h⟩ := Txn.ofOption_bind_eq_ok.1 h
  obtain ⟨u', db₂, hvalid, h⟩ := Txn.bind_eq_ok.1 h
  obtain rfl : db = db₂ := validatePassword_frame hvalid
  rw [Txn.write_bind_eq_ok] at h
  obtain ⟨hpr, -⟩ := Option.filter_eq_some_iff.1 hpr
  rw [Txn.write_bind_eq_ok] at h
  refine ⟨pr, _, hpr, ?_, ?_, ?_, ?_, Txn.write_eq_ok.1 h⟩ <;> rfl

theorem login_spec {req : LoginRequest} {r : LoginResponse}
    (h : login E now req db = (.ok r, db')) :
    ∃ s, s.revokedAt = none ∧ db'.sessions = Function.update db.sessions (E.uuid4 db.nextID) (some s) ∧
      db'.users = db.users ∧ db'.tenants = db.tenants ∧ db'.nextID = db.nextID + 1 := by
  obtain ⟨user, cred, -, -, -, -, db₁, hmfa, hopen⟩ := login_eq_ok.1 h
  have hframe := checkMFA_frame hmfa
  obtain ⟨-, rfl⟩ := openSession_eq_ok.1 hopen
  rw [hframe]
  exact ⟨_, rfl, rfl, rfl, rfl, rfl⟩

/-! ### One event -/

/-- An event that keeps users and tenants, and ends the sessions `revokes` at most. -/
theorem Effect.of_frame {revokes : Uuid → Prop}
    (hrevoked : ∀ sid, Revoked db' sid ↔ Revoked db sid ∨ revokes sid)
    (huser : ∀ id, UserInactive db' id ↔ UserInactive db id) (htenant : db'.tenants = db.tenants)
    (hfresh : Fresh E db') : Effect E db db' revokes (fun _ => False) (fun _ => False) where
  revoked := hrevoked
  user id := by rw [huser, or_false]
  tenant id := by rw [TenantInactive, htenant, or_false]; rfl
  fresh := hfresh

theorem revoked_revokeSessionsOf? (db : Db) (userID : Option Uuid) (now : Time) (sid : Uuid) :
    Revoked (db.revokeSessionsOf? userID now) sid ↔
      Revoked db sid ∨ ∃ s, db.sessions sid = some s ∧ userID = some s.userID := by
  cases userID with
  | none => simp [Db.revokeSessionsOf?]
  | some id =>
    rw [Db.revokeSessionsOf?, revoked_revokeSessionsOf]
    simp only [Option.some.injEq, eq_comm]

theorem revokeSessionsOf?_frame (db : Db) (userID : Option Uuid) (now : Time) :
    (db.revokeSessionsOf? userID now).users = db.users ∧
      (db.revokeSessionsOf? userID now).tenants = db.tenants ∧
      (Fresh E db → Fresh E (db.revokeSessionsOf? userID now)) := by
  cases userID with
  | none => exact ⟨rfl, rfl, id⟩
  | some id => exact ⟨rfl, rfl, fun h => fresh_revokeSessionsOf h id now⟩

/-- What a user's own request to end sessions does: the auth dependency, other columns, the update. -/
theorem Effect.ofOwn {db₁ : Db} (db₂ : Db) (hfresh : Fresh E db) (hinj : Function.Injective E.uuid4)
    (hauth : getAuthContext E now credentials db = (.ok ctx, db₁)) (hs : db₂.sessions = db₁.sessions)
    (hu : db₂.users = db₁.users) (ht : db₂.tenants = db₁.tenants) (hn : db₂.nextID = db₁.nextID) :
    Effect E db (db₂.revokeSessionsOf? ctx.userID now) (OwnSession E db now credentials)
      (fun _ => False) (fun _ => False) := by
  have hframe := getAuthContext_frame hauth
  obtain ⟨husers, htenants, hfresh'⟩ := revokeSessionsOf?_frame (E := E) db₂ ctx.userID now
  refine .of_frame (fun sid => ?_) (fun id => ?_) (by rw [htenants, ht, hframe.tenants]) (hfresh' ?_)
  · rw [revoked_revokeSessionsOf?, Revoked, hs, hframe.sessions]
    refine or_congr_right ⟨fun ⟨s, hs, hid⟩ => ⟨ctx, db₁, s, hauth, hs, hid⟩, ?_⟩
    rintro ⟨ctx', db', s, hauth', hs, hid⟩
    obtain rfl : ctx = ctx' := by
      have := hauth.symm.trans hauth'
      simpa using congrArg Prod.fst this
    exact ⟨s, hs, hid⟩
  · rw [UserInactive, husers, hu]
    exact hframe.inactive id
  · have := hframe.fresh hinj hfresh
    unfold Fresh at this ⊢
    rw [hs, hu, hn]
    exact this

theorem effect_login (hfresh : Fresh E db) (hinj : Function.Injective E.uuid4) {req : LoginRequest}
    {r : LoginResponse} (h : login E now req db = (.ok r, db')) :
    Effect E db db' (fun _ => False) (fun _ => False) (fun _ => False) := by
  obtain ⟨s, hs, hsessions, husers, htenants, hnext⟩ := login_spec h
  refine .of_frame (fun sid => ?_) (fun id => by rw [UserInactive, husers]; rfl) htenants fun n hn => ?_
  · -- the new session takes an unused key
    have hunused := (hfresh db.nextID (Nat.le_refl _)).1
    unfold Revoked
    rw [hsessions, or_false]
    rcases eq_or_ne sid (E.uuid4 db.nextID) with rfl | hne
    · simp [hunused, hs]
    · rw [Function.update_of_ne hne]
  · rw [hnext] at hn
    obtain ⟨h1, h2⟩ := hfresh n (Nat.le_of_succ_le hn)
    have hne : E.uuid4 n ≠ E.uuid4 db.nextID := fun e => by
      have := hinj e
      omega
    rw [hsessions, husers, Function.update_of_ne hne]
    exact ⟨h1, h2⟩

theorem effect_revokeSession (hfresh : Fresh E db) (hinj : Function.Injective E.uuid4) {text : String}
    {u : Unit} (h : revokeSession E now credentials text db = (.ok u, db')) :
    Effect E db db' (fun sid => E.parseUuid text = some sid) (fun _ => False) (fun _ => False) := by
  obtain ⟨ctx, db₁, id, s, hauth, hid, hs, -, rfl⟩ := revokeSession_eq_ok.1 h
  have hframe := getAuthContext_frame hauth
  refine .of_frame (fun sid => ?_) hframe.inactive hframe.tenants fun n hn => ?_
  · rw [hid, Option.some.injEq, Revoked, Revoked, ← hframe.sessions]
    rcases eq_or_ne sid id with rfl | hne
    · simp
    · simp [Function.update_of_ne hne, hne.symm]
  · obtain ⟨h1, h2⟩ := hframe.fresh hinj hfresh n hn
    have hne : E.uuid4 n ≠ id := by
      rintro rfl
      rw [h1] at hs
      cases hs
    exact ⟨(Function.update_of_ne hne _ _).trans h1, h2⟩

theorem effect_resetPassword (hfresh : Fresh E db) {token new : String} {u : Unit}
    (h : resetPassword E now token new db = (.ok u, db')) :
    Effect E db db' (fun sid => Event.Targets E db sid (.resetPassword now token new))
      (fun _ => False) (fun _ => False) := by
  obtain ⟨pr, db₁, hpr, hs, hu, ht, hn, rfl⟩ := resetPassword_spec h
  refine .of_frame (fun sid => ?_) (fun id => ?_) ht (fresh_revokeSessionsOf ?_ _ _)
  · rw [revoked_revokeSessionsOf, Revoked, hs]
    refine or_congr_right ⟨fun ⟨s, hs, hid⟩ => ⟨pr, s, hpr, hs, hid⟩, ?_⟩
    rintro ⟨pr', s, hpr', hs, hid⟩
    obtain rfl : pr = pr' := Option.some.inj (hpr.symm.trans hpr')
    exact ⟨s, hs, hid⟩
  · show (∃ u ∈ db₁.users, _) ↔ _
    rw [hu]
    rfl
  · unfold Fresh at hfresh ⊢
    rw [hs, hu, hn]
    exact hfresh

theorem effect_deactivateUser (hfresh : Fresh E db) {userID tenantID : Uuid} {u : Unit}
    (h : deactivateUser userID tenantID db = (.ok u, db')) :
    Effect E db db' (fun _ => False)
      (Event.DeactivatesUser db (.deactivateUser userID tenantID)) (fun _ => False) := by
  obtain rfl := Txn.write_eq_ok.1 h
  refine ⟨fun sid => by rw [or_false]; rfl, fun id => ?_, fun id => by rw [or_false]; rfl, fun n hn => ?_⟩
  · simp only [UserInactive, List.mem_map, Event.DeactivatesUser, Event.deactivateUser.injEq]
    constructor
    · rintro ⟨_, ⟨u, hu, rfl⟩, hid, hact⟩
      split_ifs at hid hact with hmatch
      · exact .inr ⟨u, hu, hid, hmatch.1.symm.trans hid, hmatch.2.symm⟩
      · exact .inl ⟨u, hu, hid, hact⟩
    · rintro (⟨u, hu, hid, hact⟩ | ⟨u, hu, hid, huser, htenant⟩)
      · refine ⟨_, ⟨u, hu, rfl⟩, ?_, ?_⟩ <;> split_ifs <;> simp [hid, hact]
      · refine ⟨_, ⟨u, hu, rfl⟩, ?_, ?_⟩ <;> simp [hid, huser, htenant]
  · refine ⟨(hfresh n hn).1, fun u hu => ?_⟩
    obtain ⟨u', hu', rfl⟩ := List.mem_map.1 hu
    have := (hfresh n hn).2 u' hu'
    split_ifs <;> exact this

theorem effect_deactivateTenant (hfresh : Fresh E db) {tenantID : Uuid} {u : Unit}
    (h : deactivateTenant tenantID db = (.ok u, db')) :
    Effect E db db' (fun _ => False) (fun _ => False)
      (Event.DeactivatesTenant db (.deactivateTenant tenantID)) := by
  obtain rfl := Txn.write_eq_ok.1 h
  refine ⟨fun sid => by rw [or_false]; rfl, fun id => by rw [or_false]; rfl, fun id => ?_, hfresh⟩
  simp only [TenantInactive, Event.DeactivatesTenant, Event.deactivateTenant.injEq]
  rcases eq_or_ne id tenantID with rfl | hne
  · cases db.tenants id <;> simp
  · simp [Function.update_of_ne hne, hne.symm]

theorem Effect.congr {r r' u u' t t' : Uuid → Prop} (h : Effect E db db' r u t)
    (hr : ∀ id, r id ↔ r' id) (hu : ∀ id, u id ↔ u' id) (ht : ∀ id, t id ↔ t' id) :
    Effect E db db' r' u' t' where
  revoked id := by rw [h.revoked, hr]
  user id := by rw [h.user, hu]
  tenant id := by rw [h.tenant, ht]
  fresh := h.fresh

theorem Event.effect (hinj : Function.Injective E.uuid4) (hfresh : Fresh E db) (e : Event) :
    Effect E db (e.run E db) (e.Revokes E db) (e.DeactivatesUser db) (e.DeactivatesTenant db) := by
  rcases Txn.exec_cases (e.body E) db with ⟨u, db', hok, hexec⟩ | ⟨err, hexec⟩
  · have happly : e.run E db = db' := by rw [Event.run, getDb, hexec]
    have hrevokes : ∀ sid, e.Targets E db sid ↔ e.Revokes E db sid := fun sid =>
      (and_iff_right ⟨db', hok⟩).symm
    have hcongr : Effect E db db' (fun sid => e.Targets E db sid) (e.DeactivatesUser db)
        (e.DeactivatesTenant db) → Effect E db (e.run E db) (e.Revokes E db) (e.DeactivatesUser db)
          (e.DeactivatesTenant db) := fun h => by
      rw [happly]
      exact h.congr hrevokes (fun _ => Iff.rfl) (fun _ => Iff.rfl)
    apply hcongr
    cases e with
    | login now req =>
      obtain ⟨r, db₁, h, hpure⟩ := Txn.bind_eq_ok.1 hok
      obtain ⟨-, rfl⟩ := Txn.pure_eq_ok.1 hpure
      exact (effect_login hfresh hinj h).congr (by simp [Event.Targets]) (by simp [Event.DeactivatesUser])
        (by simp [Event.DeactivatesTenant])
    | revokeSession now credentials text =>
      exact (effect_revokeSession hfresh hinj hok).congr (by simp [Event.Targets])
        (by simp [Event.DeactivatesUser]) (by simp [Event.DeactivatesTenant])
    | revokeAllSessions now credentials =>
      obtain ⟨ctx, db₁, hauth, rfl⟩ := revokeAllSessions_eq_ok.1 hok
      exact (Effect.ofOwn db₁ hfresh hinj hauth rfl rfl rfl rfl).congr (by simp [Event.Targets])
        (by simp [Event.DeactivatesUser]) (by simp [Event.DeactivatesTenant])
    | changePassword now credentials cur new =>
      obtain ⟨ctx, db₁, id, cred, hauth, rfl⟩ := changePassword_spec hok
      exact (Effect.ofOwn (db₁.setCredential id cred) hfresh hinj hauth rfl rfl rfl rfl).congr
        (by simp [Event.Targets]) (by simp [Event.DeactivatesUser]) (by simp [Event.DeactivatesTenant])
    | resetPassword now token new =>
      exact (effect_resetPassword hfresh hok).congr (fun _ => Iff.rfl) (by simp [Event.DeactivatesUser])
        (by simp [Event.DeactivatesTenant])
    | deactivateUser userID tenantID =>
      exact (effect_deactivateUser hfresh hok).congr (by simp [Event.Targets]) (fun _ => Iff.rfl)
        (by simp [Event.DeactivatesTenant])
    | deactivateTenant tenantID =>
      exact (effect_deactivateTenant hfresh hok).congr (by simp [Event.Targets])
        (by simp [Event.DeactivatesUser]) (fun _ => Iff.rfl)
  · -- rolled back; a deactivation cannot fail
    have happly : e.run E db = db := by rw [Event.run, getDb, hexec]
    have hfail : ¬ e.Succeeds E db := by
      rintro ⟨db', hok⟩
      rw [Txn.exec_of_ok hok] at hexec
      cases hexec
    rw [happly]
    refine (Effect.of_frame (fun _ => by rw [or_false]) (fun _ => Iff.rfl) rfl hfresh).congr
      (fun sid => iff_of_false id fun h => hfail h.1) (fun id => iff_of_false (fun h => h) ?_)
      (fun id => iff_of_false (fun h => h) ?_)
    · rintro ⟨u, -, -, rfl⟩
      exact hfail ⟨_, rfl⟩
    · rintro ⟨-, rfl⟩
      exact hfail ⟨_, rfl⟩

/-! ### Runs -/

theorem fresh_afterEvents (hinj : Function.Injective E.uuid4) (h : Fresh E db) (events : List Event) :
    Fresh E (afterEvents E db events) :=
  Runs.inv_foldl (Event.run E) (Fresh E) (fun _ e hs => (Event.effect hinj hs e).fresh) h events

/-- Event `e` of the history, taken in the state it met, satisfies `Q`. -/
def Happened (E : Env) (db : Db) (events : List Event) (Q : Db → Event → Prop) : Prop :=
  ∃ pre e post, events = pre ++ e :: post ∧ Q (afterEvents E db pre) e

/-- The session was revoked to begin with, or by an event of the history. -/
def RevokedBy (E : Env) (db : Db) (events : List Event) (sid : Uuid) : Prop :=
  Revoked db sid ∨ Happened E db events fun db e => e.Revokes E db sid

def UserDeactivatedBy (E : Env) (db : Db) (events : List Event) (id : Uuid) : Prop :=
  UserInactive db id ∨ Happened E db events fun db e => e.DeactivatesUser db id

def TenantDeactivatedBy (E : Env) (db : Db) (events : List Event) (id : Uuid) : Prop :=
  TenantInactive db id ∨ Happened E db events fun db e => e.DeactivatesTenant db id

section
variable (hinj : Function.Injective E.uuid4) (h : Fresh E db) (events : List Event)
include hinj h

theorem revoked_afterEvents (sid : Uuid) :
    Revoked (afterEvents E db events) sid ↔ RevokedBy E db events sid :=
  Runs.foldl_iff_exists (Event.run E) (Fresh E) (Revoked · sid) _
    (fun _ e hs => (Event.effect hinj hs e).fresh)
    (fun _ e hs => (Event.effect hinj hs e).revoked sid) h events

theorem userInactive_afterEvents (id : Uuid) :
    UserInactive (afterEvents E db events) id ↔ UserDeactivatedBy E db events id :=
  Runs.foldl_iff_exists (Event.run E) (Fresh E) (UserInactive · id) _
    (fun _ e hs => (Event.effect hinj hs e).fresh)
    (fun _ e hs => (Event.effect hinj hs e).user id) h events

theorem tenantInactive_afterEvents (id : Uuid) :
    TenantInactive (afterEvents E db events) id ↔ TenantDeactivatedBy E db events id :=
  Runs.foldl_iff_exists (Event.run E) (Fresh E) (TenantInactive · id) _
    (fun _ e hs => (Event.effect hinj hs e).fresh)
    (fun _ e hs => (Event.effect hinj hs e).tenant id) h events

end

/-! ### Acceptance -/

/-- The session a locally issued token names in `sid`. -/
def sessionOf (E : Env) (now : Time) (credentials : Option String) : Option Uuid :=
  credentials.bind fun token => (E.unverifiedClaims token).bind fun unverified =>
    if IsLocal E unverified then
      (localClaims E now token).bind fun claims => (claims.uuid E "sid").join
    else none

/-- No accepted token has a revoked session, an inactive user or an inactive tenant. -/
def Respects (E : Env) (now : Time) (credentials : Option String) (db : Db) : Prop :=
  ∀ ctx db', getAuthContext E now credentials db = (.ok ctx, db') →
    (∀ sid, sessionOf E now credentials = some sid → ¬ Revoked db sid) ∧
      (∀ id, ctx.userID = some id → ¬ UserInactive db id) ∧ ¬ TenantInactive db ctx.tenantID

/-- A local token that passes the checks made on it, and the `sub` and tenant it speaks for. -/
def LocalToken (E : Env) (now : Time) (credentials : Option String) (db : Db) (userID : Option Uuid)
    (tenantID : Uuid) : Prop :=
  ∃ token unverified claims, credentials = some token ∧ E.unverifiedClaims token = some unverified ∧
    IsLocal E unverified ∧ E.jwtSecret.getD "" ≠ "" ∧ localClaims E now token = some claims ∧
    claims.uuid E "tenant_id" = some (some tenantID) ∧ (db.tenants tenantID).isSome ∧
    claims.uuid E "sub" = some userID

/-- An OIDC token that passes the checks made on it, of a user with a record. -/
def OidcToken (E : Env) (now : Time) (credentials : Option String) (db : Db) (user : User) : Prop :=
  ∃ token unverified issuer config claims, credentials = some token ∧
    E.unverifiedClaims token = some unverified ∧ ¬ IsLocal E unverified ∧
    unverified.issuer = some (.str issuer) ∧ db.oidcConfig issuer = some config ∧
    E.decodeOidc config token now = some claims ∧ config.email E claims ≠ "" ∧
    db.externalUsers config.tenantID (claims.text E "sub" "") = [user]

theorem tenantActive_of_oidcConfig {issuer : String} {config : OIDCConfig}
    (h : db.oidcConfig issuer = some config) : ¬ TenantInactive db config.tenantID := by
  have hconfig := List.find?_some h
  simp only [Bool.decide_and, Bool.and_eq_true, decide_eq_true_eq] at hconfig
  obtain ⟨-, -, t, ht, hactive⟩ := hconfig
  rintro ⟨t', ht', hinactive⟩
  obtain rfl : t = t' := Option.some.inj (ht.symm.trans ht')
  rw [hactive] at hinactive
  cases hinactive

/-- The token endpoint against one state of the tables. -/
theorem respects_iff_state (hfresh : Fresh E db) :
    Respects E now credentials db ↔
      (∀ userID tenantID, LocalToken E now credentials db userID tenantID →
        (∀ sid, sessionOf E now credentials = some sid → ¬ Revoked db sid) ∧
          (∀ id, userID = some id → ¬ UserInactive db id) ∧ ¬ TenantInactive db tenantID) ∧
      ∀ user, OidcToken E now credentials db user → ¬ UserInactive db user.id := by
  constructor
  · intro h
    constructor
    · rintro userID tenantID ⟨token, unverified, claims, hcred, huv, hlocal, hsecret, hclaims, htid, hrow, huid⟩
      have hctx := localContext_eq_ok.2 ⟨rfl, hsecret, claims, tenantID, userID, hclaims, htid, hrow, huid, rfl⟩
      exact h _ db (getAuthContext_eq_ok.2 ⟨token, unverified, hcred, huv, .inl ⟨hlocal, hctx⟩⟩)
    · rintro user ⟨token, unverified, issuer, config, claims, hcred, huv, hlocal, hissuer, hconfig, hclaims,
        hemail, hrows⟩
      have huser : upsertUser E now config claims db = (.ok user.id, _) :=
        upsertUser_eq_ok.2 (.inr ⟨user, hrows, touchUser_eq_ok.2 ⟨rfl, rfl⟩⟩)
      have hctx := oidcContext_eq_ok.2 ⟨config, claims, user.id, hconfig, hclaims, hemail, huser, rfl⟩
      exact (h _ _ (getAuthContext_eq_ok.2
        ⟨token, unverified, hcred, huv, .inr ⟨hlocal, issuer, hissuer, hctx⟩⟩)).2.1 user.id rfl
  · rintro ⟨hlocalToken, hoidcToken⟩ ctx db' h
    obtain ⟨token, unverified, hcred, huv, ⟨hlocal, h⟩ | ⟨hlocal, issuer, hissuer, h⟩⟩ :=
      getAuthContext_eq_ok.1 h
    · obtain ⟨-, hsecret, claims, tenantID, userID, hclaims, htid, hrow, huid, rfl⟩ :=
        localContext_eq_ok.1 h
      exact hlocalToken userID tenantID
        ⟨token, unverified, claims, hcred, huv, hlocal, hsecret, hclaims, htid, hrow, huid⟩
    · obtain ⟨config, claims, userID, hconfig, hclaims, hemail, huser, rfl⟩ := oidcContext_eq_ok.1 h
      refine ⟨fun sid hsid => ?_, fun id hid => ?_, tenantActive_of_oidcConfig hconfig⟩
      · simp [sessionOf, hcred, huv, hlocal] at hsid
      · obtain rfl : userID = id := Option.some.inj hid
        rcases upsertUser_eq_ok.1 huser with ⟨-, hcreate⟩ | ⟨user, hrows, htouch⟩
        · -- a user made by this request
          obtain ⟨rfl, -⟩ := createUser_eq_ok hcreate
          rintro ⟨u, hu, hid, -⟩
          exact (hfresh db.nextID (Nat.le_refl _)).2 u hu hid
        · obtain ⟨rfl, -⟩ := touchUser_eq_ok.1 htouch
          exact hoidcToken user ⟨token, unverified, issuer, config, claims, hcred, huv, hlocal, hissuer,
            hconfig, hclaims, hemail, hrows⟩

/-- After any history, a request respects it exactly if the history holds nothing against a token that
passes the checks: for a local token no revocation of its session and no deactivation of its user or
tenant, for an OIDC token no deactivation of its user. -/
theorem respects_iff (hinj : Function.Injective E.uuid4) (hfresh : Fresh E db) (events : List Event)
    (now : Time) (credentials : Option String) :
    Respects E now credentials (afterEvents E db events) ↔
      (∀ userID tenantID, LocalToken E now credentials (afterEvents E db events) userID tenantID →
        (∀ sid, sessionOf E now credentials = some sid → ¬ RevokedBy E db events sid) ∧
          (∀ id, userID = some id → ¬ UserDeactivatedBy E db events id) ∧
          ¬ TenantDeactivatedBy E db events tenantID) ∧
      ∀ user, OidcToken E now credentials (afterEvents E db events) user →
        ¬ UserDeactivatedBy E db events user.id := by
  rw [respects_iff_state (fresh_afterEvents hinj hfresh events)]
  simp only [revoked_afterEvents hinj hfresh, userInactive_afterEvents hinj hfresh,
    tenantInactive_afterEvents hinj hfresh]

/-! ### Signing out and coming back -/

/-- The sample tenant with `JWT_SECRET` set; a token of the user is the id of its session. -/
def tokenEnv : Env :=
  { plainEnv with
    encode := fun _ claims => claims.text plainEnv "sid" ""
    unverifiedClaims := fun _ => some [("iss", .str "https://app.dgraph.ai"), ("auth_type", .str "local")]
    decodeLocal := fun _ token _ => some
      [("iss", .str "https://app.dgraph.ai"), ("sub", .str "u1"), ("email", .str "ann@acme.com"),
        ("tenant_id", .str "t1"), ("plan", .str "starter"), ("auth_type", .str "local"),
        ("iat", .num 0), ("exp", .num 86400), ("sid", .str token)] }

def signIn : Event := .login 0 ⟨"ann@acme.com", "Secret123", none, none, ""⟩

/-- Sign in, then revoke that session with its own token. -/
def signOut : List Event := [signIn, .revokeSession 1000000 (some "i") "i"]

/-- The token of the revoked session is accepted a second later. -/
theorem revoked_session_accepted :
    ¬ Respects tokenEnv 2000000 (some "i") (afterEvents tokenEnv oneAccount signOut) := by
  intro h
  exact (h _ _ rfl).1 "i" (by decide) ⟨_, rfl, by decide⟩

theorem fresh_oneAccount : Fresh tokenEnv oneAccount := fun n _ => ⟨rfl, fun u hu => by
  obtain rfl := List.mem_singleton.1 hu
  intro e
  have := congrArg String.toList e
  simp [tokenEnv, plainEnv, List.replicate_succ] at this⟩

/-- The token of a session nobody ended. -/
theorem signed_in_respected :
    Respects tokenEnv 2000000 (some "i") (afterEvents tokenEnv oneAccount [signIn]) := by
  have hno : ∀ Q : Db → Event → Prop, (∀ db, ¬ Q db signIn) → ¬ Happened tokenEnv oneAccount [signIn] Q := by
    rintro Q hQ ⟨pre, e, post, hsplit, he⟩
    have hmem : e ∈ [signIn] := hsplit ▸ by simp
    rw [List.mem_singleton.1 hmem] at he
    exact hQ _ he
  have husers : ∀ id, ¬ UserDeactivatedBy tokenEnv oneAccount [signIn] id := by
    rintro id (⟨u, hu, -, hinactive⟩ | h)
    · obtain rfl := List.mem_singleton.1 hu
      cases hinactive
    · exact hno _ (by rintro db ⟨u, -, -, he⟩; cases he) h
  refine (respects_iff (E := tokenEnv) (fun _ _ h => fresh_ids h) fresh_oneAccount [signIn] 2000000
    (some "i")).2 ⟨fun _ tenantID _ => ⟨fun sid _ => ?_, fun id _ => husers id, ?_⟩, fun user _ => husers _⟩
  · rintro (⟨s, hs, -⟩ | h)
    · cases hs
    · exact hno _ (fun db h => h.2) h
  · rintro (⟨t, ht, hinactive⟩ | h)
    · simp only [oneAccount, Function.update_apply, emptyDb] at ht
      split_ifs at ht
      obtain rfl := Option.some.inj ht
      cases hinactive
    · exact hno _ (by rintro db ⟨-, he⟩; cases he) h

end Dgraphai.Auth
