import Dgraphai.Provisioning
import Dgraphai.Revocation
import Mathlib.Data.List.Nodup
import Mathlib.Tactic.Tauto

/-!
# What the provisioning endpoints do to users and credentials

`Effect` says which users a write makes active and inactive and whose sessions and API keys it hands out or revokes,
`Idle` that a check does neither, and `Patched` follows a user through the operations of a PATCH. Only a PATCH that
sets `active` to a false value revokes anything.
-/

namespace Dgraphai.Provisioning

open Auth (Uuid Time HttpError User UserInactive)

/-- An unrevoked session, or an API key that `list_api_keys` lists. -/
def Directory.Holds (d : Directory) (userID : Uuid) : Prop :=
  (∃ sid s, d.auth.sessions sid = some s ∧ s.userID = userID ∧ s.revokedAt = none) ∨
    ∃ k ∈ d.apiKeys, k.userID = userID ∧ k.revokedAt = none

def NoCredentials (d : Directory) : Prop := ∀ id, UserInactive d.auth id → ¬ d.Holds id

def Directory.Known (d : Directory) (id : Uuid) : Prop := ∃ u ∈ d.auth.users, u.id = id

def UserActive (d : Directory) (id : Uuid) : Prop := ∃ u ∈ d.auth.users, u.id = id ∧ u.isActive = true

/-- Primary keys and foreign keys of users, sessions and API keys. -/
structure WellKeyed (E : Auth.Env) (d : Directory) : Prop where
  users : (d.auth.users.map (·.id)).Nodup
  sessions : ∀ sid s, d.auth.sessions sid = some s → d.Known s.userID
  keys : ∀ k ∈ d.apiKeys, d.Known k.userID
  fresh : Auth.Fresh E d.auth

/-! ### What a request does -/

/-- The effect of a request on the inactive users (`on` and `off` are made active and inactive) and on the holders of
credentials. -/
structure Effect (E : Auth.Env) (d d' : Directory) (off on cleared gains : Uuid → Prop) : Prop where
  inactive : ∀ id, UserInactive d'.auth id ↔ UserInactive d.auth id ∧ ¬ on id ∨ off id
  holds : ∀ id, d'.Holds id ↔ d.Holds id ∧ ¬ cleared id ∨ gains id
  known : ∀ id, d.Known id → d'.Known id
  keyed : WellKeyed E d'

/-- An inactive user is active after the request. -/
def Reinstated (d d' : Directory) (id : Uuid) : Prop := UserInactive d.auth id ∧ UserActive d' id

section
variable {E : Auth.Env} {d d' : Directory} {off on cleared gains : Uuid → Prop} {id : Uuid}

theorem WellKeyed.unique (h : WellKeyed E d) {u v : User} (hu : u ∈ d.auth.users) (hv : v ∈ d.auth.users)
    (hid : u.id = v.id) : u = v :=
  List.inj_on_of_nodup_map h.users hu hv hid

theorem WellKeyed.active_iff (h : WellKeyed E d) (hknown : d.Known id) :
    UserActive d id ↔ ¬ UserInactive d.auth id := by
  obtain ⟨u, hu, rfl⟩ := hknown
  constructor
  · rintro ⟨v, hv, hid, hact⟩ ⟨w, hw, hid', hinact⟩
    obtain rfl := h.unique hv hw (hid.trans hid'.symm)
    rw [hact] at hinact
    cases hinact
  · intro hno
    refine ⟨u, hu, rfl, ?_⟩
    by_contra hact
    exact hno ⟨u, hu, rfl, Bool.eq_false_iff.2 hact⟩

/-- A user still to be made holds nothing. -/
theorem WellKeyed.not_holds (h : WellKeyed E d) (hno : ¬ d.Known id) : ¬ d.Holds id := by
  rintro (⟨sid, s, hs, rfl, -⟩ | ⟨k, hk, rfl, -⟩)
  · exact hno (h.sessions sid s hs)
  · exact hno (h.keys k hk)

theorem WellKeyed.not_known (h : WellKeyed E d) {n : Nat} (hn : d.auth.nextID ≤ n) : ¬ d.Known (E.uuid4 n) := by
  rintro ⟨u, hu, hid⟩
  exact (h.fresh n hn).2 u hu hid

/-- User rows rewritten in place. -/
theorem WellKeyed.of_map (h : WellKeyed E d) {f : User → User} (hid : ∀ u, (f u).id = u.id)
    (hu : d'.auth.users = d.auth.users.map f) (hs : d'.auth.sessions = d.auth.sessions)
    (hk : d'.apiKeys = d.apiKeys) (hn : d'.auth.nextID = d.auth.nextID) :
    (∀ id, d.Known id → d'.Known id) ∧ WellKeyed E d' := by
  have hknown : ∀ id, d.Known id → d'.Known id := by
    rintro id ⟨u, hmem, rfl⟩
    exact ⟨f u, hu ▸ List.mem_map_of_mem hmem, hid u⟩
  refine ⟨hknown, ?_, fun sid s hsid => ?_, fun k hmem => ?_, fun n hle => ?_⟩
  · rw [hu, List.map_map]
    simpa only [Function.comp_def, hid] using h.users
  · exact hknown _ (h.sessions sid s (hs ▸ hsid))
  · exact hknown _ (h.keys k (hk ▸ hmem))
  · rw [hn] at hle
    obtain ⟨hfree, husers⟩ := h.fresh n hle
    refine ⟨by rw [hs, hfree], fun u hmem => ?_⟩
    rw [hu] at hmem
    obtain ⟨v, hv, rfl⟩ := List.mem_map.1 hmem
    rw [hid]
    exact husers v hv

/-- One user row more, under a fresh key. -/
theorem WellKeyed.of_append (hinj : Function.Injective E.uuid4) (h : WellKeyed E d) {row : User}
    (hid : row.id = E.uuid4 d.auth.nextID) (hu : d'.auth.users = d.auth.users ++ [row])
    (hs : d'.auth.sessions = d.auth.sessions) (hk : d'.apiKeys = d.apiKeys)
    (hn : d'.auth.nextID = d.auth.nextID + 1) : (∀ id, d.Known id → d'.Known id) ∧ WellKeyed E d' := by
  have hknown : ∀ id, d.Known id → d'.Known id := by
    rintro id ⟨u, hmem, rfl⟩
    exact ⟨u, hu ▸ List.mem_append_left _ hmem, rfl⟩
  refine ⟨hknown, ?_, fun sid s hsid => ?_, fun k hmem => ?_, fun n hle => ?_⟩
  · rw [hu, List.map_append, List.map_singleton]
    refine List.nodup_append'.2 ⟨h.users, List.nodup_singleton _, ?_⟩
    rw [List.disjoint_singleton]
    intro hmem
    obtain ⟨u, hmem, huid⟩ := List.mem_map.1 hmem
    exact (h.fresh _ (Nat.le_refl _)).2 u hmem (huid.trans hid)
  · exact hknown _ (h.sessions sid s (hs ▸ hsid))
  · exact hknown _ (h.keys k (hk ▸ hmem))
  · rw [hn] at hle
    obtain ⟨hfree, husers⟩ := h.fresh n (Nat.le_of_succ_le hle)
    refine ⟨by rw [hs, hfree], fun u hmem => ?_⟩
    rw [hu] at hmem
    rcases List.mem_append.1 hmem with hmem | hmem
    · exact husers u hmem
    · rw [List.mem_singleton.1 hmem, hid]
      intro heq
      have := hinj heq
      omega

theorem known_of_inactive (h : UserInactive d.auth id) : d.Known id := by
  obtain ⟨u, hu, hid, -⟩ := h
  exact ⟨u, hu, hid⟩

/-- When a request keeps inactive users without credentials and reinstates only users in `A`. -/
theorem Effect.careful_iff (h : Effect E d d' off on cleared gains) (h0 : NoCredentials d) (A : Uuid → Prop) :
    (NoCredentials d' ∧ ∀ id, Reinstated d d' id → A id) ↔
      (∀ id, off id → ¬ (d.Holds id ∧ ¬ cleared id ∨ gains id)) ∧
        (∀ id, UserInactive d.auth id → gains id → on id) ∧
        ∀ id, UserInactive d.auth id → on id → off id ∨ A id := by
  have hre : ∀ id, Reinstated d d' id ↔ UserInactive d.auth id ∧ on id ∧ ¬ off id := by
    intro id
    refine and_congr_right fun hin => ?_
    rw [h.keyed.active_iff (h.known id (known_of_inactive hin)), h.inactive]
    tauto
  simp only [hre, NoCredentials, h.inactive, h.holds]
  constructor
  · rintro ⟨hno, hA⟩
    refine ⟨fun id hoff => hno id (.inr hoff), fun id hin hgain => ?_, fun id hin hon => ?_⟩
    · by_contra hon
      exact hno id (.inl ⟨hin, hon⟩) (.inr hgain)
    · by_cases hoff : off id
      · exact .inl hoff
      · exact .inr (hA id ⟨hin, hon, hoff⟩)
  · rintro ⟨hoff, hgain, hA⟩
    refine ⟨fun id hin => ?_, fun id ⟨hin, hon, hno⟩ => (hA id hin hon).resolve_left hno⟩
    rcases hin with ⟨hin, hon⟩ | hin
    · rintro (⟨hholds, -⟩ | hg)
      · exact h0 id hin hholds
      · exact hon (hgain id hin hg)
    · exact hoff id hin

end

/-! ### Sequencing over the auth tables -/

section
variable {α β : Type} {m : Auth.Request α} {f : α → Provision β} {d d' : Directory} {a : α} {b : β}

@[simp] theorem lift_eq_ok : lift m d = (.ok a, d') ↔ ∃ db, m d.auth = (.ok a, db) ∧ { d with auth := db } = d' :=
  Txn.zoom_eq_ok

@[simp] theorem lift_bind_eq_ok : (lift m >>= f) d = (.ok b, d') ↔
    ∃ a db, m d.auth = (.ok a, db) ∧ f a { d with auth := db } = (.ok b, d') := by
  rw [Txn.bind_eq_ok]
  constructor
  · rintro ⟨a, d₁, h, h'⟩
    obtain ⟨db, hm, rfl⟩ := lift_eq_ok.1 h
    exact ⟨a, db, hm, h'⟩
  · rintro ⟨a, db, hm, h'⟩
    exact ⟨a, _, lift_eq_ok.2 ⟨db, hm, rfl⟩, h'⟩

theorem scalar_bind_eq_ok {γ : Type} {l : List γ} {f : Option γ → Provision β} :
    (lift (Auth.scalarOneOrNone l) >>= f) d = (.ok b, d') ↔ ∃ o, l = o.toList ∧ f o d = (.ok b, d') := by
  rw [lift_bind_eq_ok]
  simp only [Auth.scalarOneOrNone_eq_ok]
  constructor
  · rintro ⟨o, _, ⟨hl, rfl⟩, h⟩
    exact ⟨o, hl, h⟩
  · rintro ⟨o, hl, h⟩
    exact ⟨o, _, ⟨hl, rfl⟩, h⟩

end

/-! ### Checks around a request -/

/-- Tables around a check: no user is activated or deactivated and no credential changes hands. -/
structure Idle (E : Auth.Env) (d d₁ : Directory) : Prop where
  inactive : ∀ id, UserInactive d₁.auth id ↔ UserInactive d.auth id
  holds : ∀ id, d₁.Holds id ↔ d.Holds id
  known : ∀ id, d.Known id → d₁.Known id
  keyed : WellKeyed E d → WellKeyed E d₁

section
variable {S : Services} {E : Auth.Env} {d d' d₁ : Directory} {off on cleared gains : Uuid → Prop} {now : Time}
  {tenantID userID : String} {authorization credentials : Option String} {body : Json.Fields}

theorem Effect.of_idle (hidle : Idle E d d₁) (h : Effect E d₁ d' off on cleared gains) :
    Effect E d d' off on cleared gains where
  inactive id := by rw [h.inactive, hidle.inactive]
  holds id := by rw [h.holds, hidle.holds]
  known id hid := h.known id (hidle.known id hid)
  keyed := h.keyed

theorem Effect.then_idle (h : Effect E d d₁ off on cleared gains) (hidle : Idle E d₁ d') :
    Effect E d d' off on cleared gains where
  inactive id := (hidle.inactive id).trans (h.inactive id)
  holds id := (hidle.holds id).trans (h.holds id)
  known id hid := hidle.known id (h.known id hid)
  keyed := hidle.keyed h.keyed

/-- Users, sessions and API keys are as before. -/
theorem Idle.of_eq (hu : d₁.auth.users = d.auth.users) (hs : d₁.auth.sessions = d.auth.sessions)
    (hk : d₁.apiKeys = d.apiKeys) (hn : d₁.auth.nextID = d.auth.nextID) : Idle E d d₁ := by
  have hknown : ∀ id, d₁.Known id ↔ d.Known id := fun id => by rw [Directory.Known, hu]; rfl
  refine ⟨fun id => ?_, fun id => ?_, fun id => (hknown id).2, fun h => ⟨?_, ?_, ?_, ?_⟩⟩
  · rw [UserInactive, hu]; rfl
  · rw [Directory.Holds, hs, hk]; rfl
  · rw [hu]; exact h.users
  · intro sid s hsid
    rw [hs] at hsid
    exact (hknown _).2 (h.sessions sid s hsid)
  · intro k hmem
    rw [hk] at hmem
    exact (hknown _).2 (h.keys k hmem)
  · intro n hle
    rw [hn] at hle
    rw [hs, hu]
    exact h.fresh n hle

theorem getScimTenant_frame {tenant : Uuid} (h : getScimTenant S now tenantID authorization d = (.ok tenant, d₁)) :
    ∃ configs, d₁ = { d with scimConfigs := configs } := by
  unfold getScimTenant at h
  simp only [Txn.raiseIf_bind_eq_ok, Txn.ofOption_bind_eq_ok, Txn.read_bind_eq_ok, scalar_bind_eq_ok,
    Txn.write_bind_eq_ok, Txn.pure_eq_ok] at h
  obtain ⟨-, id, -, o, -, config, -, row, -, -, rfl⟩ := h
  exact ⟨_, rfl⟩

theorem getScimTenant_idle {tenant : Uuid} (h : getScimTenant S now tenantID authorization d = (.ok tenant, d₁)) :
    Idle E d d₁ := by
  obtain ⟨configs, rfl⟩ := getScimTenant_frame h
  exact .of_eq rfl rfl rfl rfl

theorem userOf_spec {id tenant : Uuid} {user : User} (h : d.userOf id tenant = some user) :
    user ∈ d.auth.users ∧ user.id = id ∧ user.tenantID = tenant := by
  obtain ⟨hfind, htenant⟩ := Option.filter_eq_some_iff.1 h
  have hfind : (d.auth.users.find? fun u => u.id = id) = some user := hfind
  have hid := List.find?_some hfind
  exact ⟨List.mem_of_find?_eq_some hfind, of_decide_eq_true hid, of_decide_eq_true htenant⟩

theorem scimUser_spec {user : User} (h : scimUser S now tenantID userID authorization d = (.ok user, d₁)) :
    S.env.parseUuid userID = some user.id ∧ user ∈ d.auth.users ∧ ∃ configs, d₁ = { d with scimConfigs := configs } := by
  unfold scimUser at h
  obtain ⟨tenant, d₂, htenant, h⟩ := Txn.bind_eq_ok.1 h
  simp only [Txn.ofOption_bind_eq_ok, Txn.read_bind_eq_ok, Txn.ofOption_eq_ok] at h
  obtain ⟨id, hid, huser, rfl⟩ := h
  obtain ⟨configs, rfl⟩ := getScimTenant_frame htenant
  obtain ⟨hmem, rfl, -⟩ := userOf_spec huser
  exact ⟨hid, hmem, configs, rfl⟩

/-! ### The auth dependency -/

/-- The user rows around an accepted token: rewritten in place, or one row more. -/
theorem getAuthContext_users {ctx : Auth.AuthContext} {db db' : Auth.Db}
    (h : Auth.getAuthContext E now credentials db = (.ok ctx, db')) :
    (∃ row : User, row.id = E.uuid4 db.nextID ∧ db'.users = db.users ++ [row] ∧ db'.nextID = db.nextID + 1) ∨
      ∃ f : User → User, (∀ u, (f u).id = u.id) ∧ (∀ u, (f u).tenantID = u.tenantID) ∧
        db'.users = db.users.map f ∧ db'.nextID = db.nextID := by
  obtain ⟨token, unverified, -, -, ⟨-, h⟩ | ⟨-, issuer, -, h⟩⟩ := Auth.getAuthContext_eq_ok.1 h
  · obtain ⟨rfl, -⟩ := Auth.localContext_eq_ok.1 h
    exact .inr ⟨id, fun _ => rfl, fun _ => rfl, (List.map_id _).symm, rfl⟩
  · obtain ⟨config, claims, uid, -, -, -, h, -⟩ := Auth.oidcContext_eq_ok.1 h
    rcases Auth.upsertUser_eq_ok.1 h with ⟨-, h⟩ | ⟨user, -, h⟩
    · obtain ⟨rfl, rfl⟩ := Auth.createUser_eq_ok h
      exact .inl ⟨_, rfl, rfl, rfl⟩
    · obtain ⟨-, rfl⟩ := Auth.touchUser_eq_ok.1 h
      exact .inr ⟨_, fun u => by split_ifs <;> rfl, fun u => by split_ifs <;> rfl, rfl, rfl⟩

theorem getAuthContext_idle (hinj : Function.Injective E.uuid4) {ctx : Auth.AuthContext} {db : Auth.Db}
    (h : Auth.getAuthContext E now credentials d.auth = (.ok ctx, db)) (hk : WellKeyed E d) :
    Idle E d { d with auth := db } := by
  have hframe := Auth.getAuthContext_frame h
  have hkeyed : (∀ id, d.Known id → Directory.Known { d with auth := db } id) ∧
      WellKeyed E { d with auth := db } := by
    rcases getAuthContext_users h with ⟨row, hid, hu, hn⟩ | ⟨f, hid, -, hu, hn⟩
    · exact hk.of_append hinj hid hu hframe.sessions rfl hn
    · exact hk.of_map hid hu hframe.sessions rfl hn
  refine ⟨hframe.inactive, fun id => ?_, hkeyed.1, fun _ => hkeyed.2⟩
  rw [Directory.Holds, Directory.Holds, hframe.sessions]

/-! ### Writes -/

theorem Edit.row_spec {edit : Edit} {user row : User} (h : edit.row S user = some row) :
    row.id = user.id ∧ row.tenantID = user.tenantID ∧ asActive S edit.isActive = some row.isActive := by
  simp only [Edit.row, Option.bind_eq_bind, Option.bind_eq_some_iff, Option.pure_def, Option.some.injEq] at h
  obtain ⟨email, -, name, -, ext, -, active, hactive, rfl⟩ := h
  exact ⟨rfl, rfl, hactive⟩

theorem flushUser_eq_ok {user row : User} {edit : Edit} :
    flushUser S user edit d = (.ok row, d') ↔ edit.row S user = some row ∧ d.EmailFree row ∧ d.setUser row = d' := by
  unfold flushUser
  simp only [Txn.ofOption_bind_eq_ok, Txn.read_bind_eq_ok, Txn.raiseIf_bind_eq_ok, Txn.write_bind_eq_ok,
    Txn.pure_eq_ok, decide_eq_true_eq, not_not]
  constructor
  · rintro ⟨row', hrow, hfree, rfl, rfl⟩
    exact ⟨hrow, hfree, rfl⟩
  · rintro ⟨hrow, hfree, rfl⟩
    exact ⟨row, hrow, hfree, rfl, rfl⟩

theorem insertUser_spec {user row : User} {edit : Edit} (h : insertUser S user edit d = (.ok row, d')) :
    row.id = S.env.uuid4 d.auth.nextID ∧ asActive S edit.isActive = some row.isActive ∧ d' = d.addUser row := by
  unfold insertUser at h
  simp only [Txn.ofOption_bind_eq_ok, Txn.read_bind_eq_ok, Txn.raiseIf_bind_eq_ok, Txn.write_bind_eq_ok,
    Txn.pure_eq_ok] at h
  obtain ⟨row', hrow, -, rfl, rfl⟩ := h
  obtain ⟨hid, -, hactive⟩ := Edit.row_spec hrow
  exact ⟨hid, hactive, rfl⟩

/-- A row is written over the row of the same user. -/
theorem Effect.setUser {row : User} (hk : WellKeyed E d) (hrow : d.Known row.id) :
    Effect E d (d.setUser row) (fun id => id = row.id ∧ row.isActive = false)
      (fun id => id = row.id ∧ row.isActive = true) (fun _ => False) (fun _ => False) := by
  have hids : ∀ u : User, (if u.id = row.id then row else u).id = u.id := by
    intro u
    split_ifs with hid
    · exact hid.symm
    · rfl
  have hkeyed : (∀ id, d.Known id → (d.setUser row).Known id) ∧ WellKeyed E (d.setUser row) :=
    hk.of_map hids rfl rfl rfl rfl
  obtain ⟨hknown, hkeyed⟩ := hkeyed
  refine ⟨fun id => ?_, fun id => ?_, hknown, hkeyed⟩
  · simp only [UserInactive, Directory.setUser, List.mem_map]
    constructor
    · rintro ⟨_, ⟨u, hu, rfl⟩, hid, hact⟩
      split_ifs at hid hact with hsame
      · exact .inr ⟨hid.symm, hact⟩
      · exact .inl ⟨⟨u, hu, hid, hact⟩, fun h => hsame (hid.trans h.1)⟩
    · rintro (⟨⟨u, hu, rfl, hact⟩, hon⟩ | ⟨rfl, hact⟩)
      · refine ⟨_, ⟨u, hu, rfl⟩, hids u, ?_⟩
        split_ifs with hsame
        · exact Bool.eq_false_iff.2 fun h => hon ⟨hsame, h⟩
        · exact hact
      · obtain ⟨u, hu, hid⟩ := hrow
        exact ⟨_, ⟨u, hu, rfl⟩, by rw [if_pos hid], by rw [if_pos hid]; exact hact⟩
  · rw [not_false_eq_true, and_true, or_false]
    rfl

/-- A row is added under a fresh key. -/
theorem Effect.addUser (hinj : Function.Injective E.uuid4) {row : User} (hk : WellKeyed E d)
    (hid : row.id = E.uuid4 d.auth.nextID) :
    Effect E d (d.addUser row) (fun id => id = row.id ∧ row.isActive = false) (fun _ => False) (fun _ => False)
      (fun _ => False) := by
  have hkeyed : (∀ id, d.Known id → (d.addUser row).Known id) ∧ WellKeyed E (d.addUser row) :=
    hk.of_append hinj hid rfl rfl rfl rfl
  obtain ⟨hknown, hkeyed⟩ := hkeyed
  refine ⟨fun id => ?_, fun id => ?_, hknown, hkeyed⟩
  · simp only [UserInactive, Directory.addUser, List.mem_append, List.mem_singleton, not_false_eq_true, and_true]
    constructor
    · rintro ⟨u, hu | rfl, rfl, hact⟩
      · exact .inl ⟨u, hu, rfl, hact⟩
      · exact .inr ⟨rfl, hact⟩
    · rintro (⟨u, hu, rfl, hact⟩ | ⟨rfl, hact⟩)
      · exact ⟨u, .inl hu, rfl, hact⟩
      · exact ⟨row, .inr rfl, rfl, hact⟩
  · rw [not_false_eq_true, and_true, or_false]
    rfl

/-- `is_active` is cleared, with nothing revoked. -/
theorem Effect.deactivate {userID tenant : Uuid} {u : Unit} (hk : WellKeyed E d)
    (h : lift (Auth.deactivateUser userID tenant) d = (.ok u, d')) :
    Effect E d d' (fun id => id = userID ∧ ∃ u ∈ d.auth.users, u.id = id ∧ u.tenantID = tenant) (fun _ => False)
      (fun _ => False) (fun _ => False) := by
  obtain ⟨db, hdb, hd'⟩ := lift_eq_ok.1 h
  obtain rfl := Txn.write_eq_ok.1 hdb
  have hids : ∀ u : User, (if u.id = userID ∧ u.tenantID = tenant then { u with isActive := false } else u).id = u.id := by
    intro u
    split_ifs <;> rfl
  have hkeyed : (∀ id, d.Known id → d'.Known id) ∧ WellKeyed E d' := by
    rw [← hd']
    exact hk.of_map hids rfl rfl rfl rfl
  obtain ⟨hknown, hkeyed⟩ := hkeyed
  subst hd'
  refine ⟨fun id => ?_, fun id => ?_, hknown, hkeyed⟩
  · simp only [UserInactive, List.mem_map, not_false_eq_true, and_true]
    constructor
    · rintro ⟨_, ⟨u, hu, rfl⟩, hid, hact⟩
      rw [hids] at hid
      split_ifs at hact with hmatch
      · exact .inr ⟨hid.symm.trans hmatch.1, u, hu, hid, hmatch.2⟩
      · exact .inl ⟨u, hu, hid, hact⟩
    · rintro (⟨u, hu, hid, hact⟩ | ⟨rfl, u, hu, hid, htenant⟩)
      · refine ⟨_, ⟨u, hu, rfl⟩, (hids u).trans hid, ?_⟩
        split_ifs
        · rfl
        · exact hact
      · exact ⟨_, ⟨u, hu, rfl⟩, (hids u).trans hid, by rw [if_pos ⟨hid, htenant⟩]⟩
  · rw [not_false_eq_true, and_true, or_false]
    rfl

/-- A key is added for a user. -/
theorem Effect.addKey (hk : WellKeyed E d) {key : APIKey} (hknown : d.Known key.userID) (hkey : key.revokedAt = none) :
    Effect E d (d.addKey key) (fun _ => False) (fun _ => False) (fun _ => False) (fun id => id = key.userID) := by
  refine ⟨fun id => ?_, fun id => ?_, fun _ h => h, hk.users, hk.sessions, fun k hmem => ?_, fun n hn => ?_⟩
  · rw [not_false_eq_true, and_true, or_false]
    rfl
  · simp only [Directory.Holds, Directory.addKey, List.mem_append, List.mem_singleton, not_false_eq_true, and_true]
    constructor
    · rintro (h | ⟨k, hmem | rfl, hid, hrev⟩)
      · exact .inl (.inl h)
      · exact .inl (.inr ⟨k, hmem, hid, hrev⟩)
      · exact .inr hid.symm
    · rintro ((h | ⟨k, hmem, hid, hrev⟩) | rfl)
      · exact .inl h
      · exact .inr ⟨k, .inl hmem, hid, hrev⟩
      · exact .inr ⟨key, .inr rfl, rfl, hkey⟩
  · rcases List.mem_append.1 hmem with hmem | hmem
    · exact hk.keys k hmem
    · rw [List.mem_singleton.1 hmem]
      exact hknown
  · have hn : d.auth.nextID + 1 ≤ n := hn
    exact hk.fresh n (Nat.le_of_succ_le hn)

/-- A session is opened for a user, under a fresh key. -/
theorem Effect.addSession (hinj : Function.Injective E.uuid4) (hk : WellKeyed E d) {sid : Uuid} {s : Auth.UserSession}
    {db : Auth.Db} (hsid : sid = E.uuid4 d.auth.nextID) (hs : db.sessions = Function.update d.auth.sessions sid (some s))
    (hrev : s.revokedAt = none) (hu : db.users = d.auth.users) (hn : db.nextID = d.auth.nextID + 1)
    (hknown : d.Known s.userID) :
    Effect E d { d with auth := db } (fun _ => False) (fun _ => False) (fun _ => False) (fun id => id = s.userID) := by
  have hsame : ∀ id, Directory.Known { d with auth := db } id ↔ d.Known id := fun id => by
    simp only [Directory.Known, hu]
  have hunused : d.auth.sessions sid = none := hsid ▸ (hk.fresh d.auth.nextID (Nat.le_refl _)).1
  have hnew : db.sessions sid = some s := by rw [hs, Function.update_self]
  have hold : ∀ k, k ≠ sid → db.sessions k = d.auth.sessions k := fun k hne => by rw [hs, Function.update_of_ne hne]
  refine ⟨fun id => ?_, fun id => ?_, fun id => (hsame id).2, ⟨?_, fun k t hkt => ?_, fun k hmem => ?_, fun n hle => ?_⟩⟩
  · simp only [UserInactive, hu, not_false_eq_true, and_true, or_false]
  · rw [not_false_eq_true, and_true, Directory.Holds, Directory.Holds, or_right_comm]
    refine or_congr_left ?_
    constructor
    · rintro ⟨k, t, ht, rfl, hopen⟩
      rcases eq_or_ne k sid with rfl | hne
      · obtain rfl := Option.some.inj (hnew.symm.trans ht)
        exact .inr rfl
      · exact .inl ⟨k, t, (hold k hne).symm.trans ht, rfl, hopen⟩
    · rintro (⟨k, t, ht, rfl, hopen⟩ | rfl)
      · refine ⟨k, t, (hold k ?_).trans ht, rfl, hopen⟩
        rintro rfl
        rw [hunused] at ht
        cases ht
      · exact ⟨sid, s, hnew, rfl, hrev⟩
  · rw [hu]
    exact hk.users
  · refine (hsame _).2 ?_
    rcases eq_or_ne k sid with rfl | hne
    · obtain rfl := Option.some.inj (hnew.symm.trans hkt)
      exact hknown
    · exact hk.sessions k t ((hold k hne).symm.trans hkt)
  · exact (hsame _).2 (hk.keys k hmem)
  · have hle : db.nextID ≤ n := hle
    rw [hn] at hle
    obtain ⟨hfree, husers⟩ := hk.fresh n (Nat.le_of_succ_le hle)
    have hne : E.uuid4 n ≠ sid := by
      rw [hsid]
      intro heq
      have := hinj heq
      omega
    exact ⟨(hold _ hne).trans hfree, fun u hmem => husers u (hu ▸ hmem)⟩

/-- A sign-in with a password opens a session for an active user. -/
theorem Effect.login (hinj : Function.Injective E.uuid4) (hk : WellKeyed E d) {req : Auth.LoginRequest}
    {r : Auth.LoginResponse} {db : Auth.Db} (h : Auth.login E now req d.auth = (.ok r, db)) :
    ∃ user ∈ d.auth.users, user.isActive = true ∧
      Effect E d { d with auth := db } (fun _ => False) (fun _ => False) (fun _ => False) (fun id => id = user.id) := by
  obtain ⟨user, cred, huser, -, -, -, db₁, hmfa, hopen⟩ := Auth.login_eq_ok.1 h
  have hmem : user ∈ d.auth.activeUsers req.email := huser ▸ List.mem_singleton_self _
  obtain ⟨hmem, hactive⟩ := List.mem_filter.1 hmem
  have hframe := Auth.checkMFA_frame hmfa
  obtain ⟨-, rfl⟩ := Auth.openSession_eq_ok.1 hopen
  rw [hframe]
  let session : Auth.UserSession := ⟨user.id, user.tenantID, req.clientHost, (req.userAgent.take 512).toString,
    now + Auth.hours E.jwtExpiryHours, none⟩
  exact ⟨user, hmem, (of_decide_eq_true hactive).2,
    .addSession (s := session) hinj hk rfl rfl rfl rfl rfl ⟨user, hmem, rfl⟩⟩

/-! ### PATCH -/

/-- The path and the value of an operation that sets `is_active`. -/
def activeValue (S : Services) (op : Json) : Option Json := do
  let path ← (op.attrGet "path" (.str "")).toOption
  let value ← (op.attrGet "value" .null).toOption
  if SetsActive S path value then some value else none

/-- What an operation assigns to `is_active`. -/
def assigned (S : Services) (op : Json) : Option Json := (activeValue S op).bind (activeOf S)

/-- What an operation itself says `active` is to be. -/
def stated (S : Services) (op : Json) : Option Json :=
  (activeValue S op).bind fun value =>
    match value with
    | .bool b => some (.bool b)
    | .obj fields => Json.field? fields "active"
    | _ => none

/-- Some operation says that the user is to be active. -/
def SaysActive (S : Services) (ops : List Json) : Prop :=
  ∃ op ∈ ops, ∃ j, stated S op = some j ∧ j.truthy S.isZero = true

/-- `is_active` as the operations leave it. -/
def lastActive (S : Services) : Json → List Json → Json
  | active, [] => active
  | active, op :: ops => lastActive S ((assigned S op).getD active) ops

theorem lastActive_cases (active : Json) (ops : List Json) :
    lastActive S active ops = active ∨ ∃ op ∈ ops, assigned S op = some (lastActive S active ops) := by
  induction ops generalizing active with
  | nil => exact .inl rfl
  | cons op ops ih =>
    rw [lastActive]
    rcases ih ((assigned S op).getD active) with h | ⟨op', hmem, h⟩
    · rw [h]
      cases hop : assigned S op with
      | none => exact .inl rfl
      | some j => exact .inr ⟨op, List.mem_cons_self, hop⟩
    · exact .inr ⟨op', List.mem_cons_of_mem op hmem, h⟩

theorem truthy_of_asActive {j : Json} {b : Bool} (h : asActive S j = some b) : j.truthy S.isZero = b := by
  cases j with
  | null => simpa [asActive, Json.truthy] using h
  | bool b' => simpa [asActive, Json.truthy] using h
  | num n =>
    unfold asActive at h
    split at h <;> simp_all [Json.truthy]
  | real text =>
    simp only [asActive] at h
    split_ifs at h <;> simp_all [Json.truthy]
  | str _ | arr _ | obj _ => simp [asActive] at h

/-- The directory after some operations of a PATCH: only the user's row was rewritten, and its credentials are revoked
if an operation has deactivated it. -/
structure Patched (E : Auth.Env) (d d' : Directory) (userID : Uuid) (cleared : Prop) : Prop where
  inactive : ∀ id, id ≠ userID → (UserInactive d'.auth id ↔ UserInactive d.auth id)
  holds : ∀ id, d'.Holds id ↔ d.Holds id ∧ ¬ (cleared ∧ id = userID)
  known : ∀ id, d.Known id → d'.Known id
  keyed : WellKeyed E d'

theorem Patched.refl (hk : WellKeyed E d) (userID : Uuid) : Patched E d d userID False :=
  ⟨fun _ _ => Iff.rfl, fun _ => by simp, fun _ h => h, hk⟩

theorem Patched.trans {d₂ : Directory} {userID : Uuid} {c c' : Prop} (h : Patched E d d₁ userID c)
    (h' : Patched E d₁ d₂ userID c') : Patched E d d₂ userID (c ∨ c') where
  inactive id hne := (h'.inactive id hne).trans (h.inactive id hne)
  holds id := by
    rw [h'.holds, h.holds]
    tauto
  known id hid := h'.known id (h.known id hid)
  keyed := h'.keyed

theorem Patched.setUser {row : User} (hk : WellKeyed E d) (hrow : d.Known row.id) :
    Patched E d (d.setUser row) row.id False := by
  have h := Effect.setUser hk hrow
  refine ⟨fun id hne => ?_, fun id => ?_, h.known, h.keyed⟩
  · rw [h.inactive]
    simp [hne]
  · rw [h.holds]
    simp

theorem Patched.revoke (hk : WellKeyed E d) (userID : Uuid) (now : Time) :
    Patched E d (Directory.revokeKeysOf { d with auth := d.auth.revokeSessionsOf userID now } userID now) userID
      True := by
  refine ⟨fun _ _ => Iff.rfl, fun id => ?_, fun _ h => h, hk.users, fun sid s hs => ?_, fun k hmem => ?_, ?_⟩
  · rw [true_and, Directory.Holds, Directory.Holds, or_and_right]
    refine or_congr ?_ ?_
    · constructor
      · rintro ⟨sid, s, hs, rfl, hrev⟩
        obtain ⟨t, ht, rfl⟩ := Option.map_eq_some_iff.1 hs
        split_ifs at hrev with hmatch
        refine ⟨⟨sid, t, ht, ?_, hrev⟩, ?_⟩
        · rw [if_neg hmatch]
        · rw [if_neg hmatch]
          exact fun hid => hmatch ⟨hid, hrev⟩
      · rintro ⟨⟨sid, s, hs, rfl, hrev⟩, hne⟩
        have hmatch : ¬ (s.userID = userID ∧ s.revokedAt = none) := fun h => hne h.1
        exact ⟨sid, s, Option.map_eq_some_iff.2 ⟨s, hs, if_neg hmatch⟩, rfl, hrev⟩
    · constructor
      · rintro ⟨k, hmem, rfl, hrev⟩
        obtain ⟨t, ht, rfl⟩ := List.mem_map.1 hmem
        split_ifs at hrev with hmatch
        refine ⟨⟨t, ht, ?_, hrev⟩, ?_⟩
        · rw [if_neg hmatch]
        · rw [if_neg hmatch]
          exact fun hid => hmatch ⟨hid, hrev⟩
      · rintro ⟨⟨k, hmem, rfl, hrev⟩, hne⟩
        have hmatch : ¬ (k.userID = userID ∧ k.revokedAt = none) := fun h => hne h.1
        exact ⟨k, List.mem_map.2 ⟨k, hmem, if_neg hmatch⟩, rfl, hrev⟩
  · obtain ⟨t, ht, rfl⟩ := Option.map_eq_some_iff.1 hs
    have := hk.sessions sid t ht
    split_ifs <;> exact this
  · obtain ⟨t, ht, rfl⟩ := List.mem_map.1 hmem
    have := hk.keys t ht
    split_ifs <;> exact this
  · exact Auth.fresh_revokeSessionsOf hk.fresh userID now

theorem patchOp_spec {user : User} {edit edit' : Edit} {op : Json} (hk : WellKeyed S.env d) (hknown : d.Known user.id)
    (h : patchOp S now user edit op d = (.ok edit', d')) :
    edit'.isActive = (assigned S op).getD edit.isActive ∧
      Patched S.env d d' user.id (∃ j, assigned S op = some j ∧ j.truthy S.isZero = false) := by
  unfold patchOp at h
  simp only [Txn.ofOption_bind_eq_ok] at h
  obtain ⟨path, hpath, value, hvalue, h⟩ := h
  have hactive : activeValue S op = if SetsActive S path value then some value else none := by
    simp only [activeValue, hpath, hvalue, Option.bind_eq_bind, Option.bind_some]
  by_cases hsets : SetsActive S path value
  · rw [if_pos hsets] at h hactive
    obtain ⟨active, hof, h⟩ := Txn.ofOption_bind_eq_ok.1 h
    have hassigned : assigned S op = some active := by rw [assigned, hactive, Option.bind_some, hof]
    rw [hassigned, Option.getD_some]
    by_cases htruthy : active.truthy S.isZero = true
    · rw [if_pos htruthy] at h
      obtain ⟨rfl, rfl⟩ := Txn.pure_eq_ok.1 h
      refine ⟨rfl, ?_⟩
      have hno : (∃ j, some active = some j ∧ j.truthy S.isZero = false) ↔ False := by simp [htruthy]
      rw [hno]
      exact .refl hk user.id
    · rw [if_neg htruthy] at h
      obtain ⟨row, d₁, hflush, h⟩ := Txn.bind_eq_ok.1 h
      rw [lift_bind_eq_ok] at h
      obtain ⟨u, db, hdb, h⟩ := h
      obtain rfl := Txn.write_eq_ok.1 hdb
      rw [Txn.write_bind_eq_ok, Txn.pure_eq_ok] at h
      obtain ⟨rfl, rfl⟩ := h
      obtain ⟨hrow, -, rfl⟩ := flushUser_eq_ok.1 hflush
      obtain ⟨hid, -, -⟩ := Edit.row_spec hrow
      have hrowKnown : d.Known row.id := hid ▸ hknown
      have hset := Patched.setUser hk hrowKnown
      have hboth := hset.trans (hid ▸ Patched.revoke hset.keyed user.id now)
      have hyes : (∃ j, some active = some j ∧ j.truthy S.isZero = false) ↔ False ∨ True := by simpa using htruthy
      rw [hyes, ← hid]
      exact ⟨rfl, hid ▸ hboth⟩
  · rw [if_neg hsets] at h hactive
    obtain ⟨hrename, rfl⟩ := Txn.ofOption_eq_ok.1 h
    have hassigned : assigned S op = none := by rw [assigned, hactive, Option.bind_none]
    have hno : (∃ j, (none : Option Json) = some j ∧ j.truthy S.isZero = false) ↔ False := by simp
    rw [hassigned, Option.getD_none, hno]
    refine ⟨?_, .refl hk user.id⟩
    unfold renameOp at hrename
    split at hrename
    · rw [← Option.some.inj hrename]
      split_ifs <;> rfl
    · cases hrename

theorem patchOps_spec {user : User} {edit edit' : Edit} {ops : List Json} (hk : WellKeyed S.env d)
    (hknown : d.Known user.id) (h : patchOps S now user edit ops d = (.ok edit', d')) :
    edit'.isActive = lastActive S edit.isActive ops ∧
      Patched S.env d d' user.id (∃ op ∈ ops, ∃ j, assigned S op = some j ∧ j.truthy S.isZero = false) := by
  induction ops generalizing edit d with
  | nil =>
    obtain ⟨rfl, rfl⟩ := Txn.pure_eq_ok.1 h
    simp only [List.not_mem_nil, false_and, exists_false]
    exact ⟨rfl, .refl hk user.id⟩
  | cons op ops ih =>
    obtain ⟨edit₁, d₁, hop, h⟩ := Txn.bind_eq_ok.1 h
    obtain ⟨hactive, hpatch⟩ := patchOp_spec hk hknown hop
    obtain ⟨hrest, hpatches⟩ := ih hpatch.keyed (hpatch.known _ hknown) h
    refine ⟨by rw [hrest, hactive, lastActive], ?_⟩
    simp only [List.mem_cons, exists_eq_or_imp]
    exact hpatch.trans hpatches

end

end Dgraphai.Provisioning
