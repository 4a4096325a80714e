import Dgraphai.Accounts
import Dgraphai.Deprovisioning

/-!
# One active user for each e-mail

`login` looks a user up by e-mail alone, so an e-mail that two active users have answers nobody
(`login_of_shared`). `Listed d a` says that the user rows of `d` show the active e-mails `a`, a map from keys to
e-mails, and every request that goes through is an update of that map at one key. Only `signup` looks at the users of
all tenants before it takes an e-mail; over a history the e-mails stay unshared exactly if every other request
meets `Clear` (`emailsUnshared_iff`).
-/

namespace Dgraphai.Provisioning

open Auth (Uuid Time HttpError serverError User UserInactive)

/-! ### Maps with one key for each value -/

section
variable {ι κ : Type*}

/-- No two keys have the same value. -/
def Unshared (a : ι → Option κ) : Prop := ∀ i j k, a i = some k → a j = some k → i = j

theorem unshared_update [DecidableEq ι] {a : ι → Option κ} (ha : Unshared a) {i : ι} {v : Option κ} :
    Unshared (Function.update a i v) ↔ ∀ k, v = some k → ∀ j, a j = some k → j = i := by
  constructor
  · intro h k hv j hj
    by_contra hne
    have hi : Function.update a i v i = some k := by rw [Function.update_self, hv]
    have hj : Function.update a i v j = some k := by rw [Function.update_of_ne hne, hj]
    exact hne (h j i k hj hi)
  · intro h j₁ j₂ k h₁ h₂
    by_cases e₁ : j₁ = i
    · by_cases e₂ : j₂ = i
      · rw [e₁, e₂]
      · rw [e₁, Function.update_self] at h₁
        rw [Function.update_of_ne e₂] at h₂
        rw [e₁, h k h₁ j₂ h₂]
    · rw [Function.update_of_ne e₁] at h₁
      by_cases e₂ : j₂ = i
      · rw [e₂, Function.update_self] at h₂
        rw [e₂, h k h₂ j₁ h₁]
      · rw [Function.update_of_ne e₂] at h₂
        exact ha j₁ j₂ k h₁ h₂

end

/-! ### The active e-mails -/

/-- The e-mail with which a row answers a login. -/
def signInEmail (u : User) : Option String := if u.isActive then some u.email else none

def Directory.activeEmail (d : Directory) (id : Uuid) : Option String :=
  (d.auth.user id).bind signInEmail

/-- No e-mail is that of two active users. -/
def EmailsUnshared (d : Directory) : Prop := ∀ email, (d.auth.activeUsers email).length ≤ 1

/-- The user rows of `d` are keyed, and show the active e-mails `a`. -/
structure Listed (E : Auth.Env) (d : Directory) (a : Uuid → Option String) : Prop where
  keyed : WellKeyed E d
  active : d.activeEmail = a

section
variable {E : Auth.Env} {d d' : Directory} {a : Uuid → Option String} {id : Uuid} {email : String}

theorem signInEmail_eq_some {u : User} {email : String} :
    signInEmail u = some email ↔ u.isActive = true ∧ u.email = email := by
  unfold signInEmail
  split_ifs with hact <;> simp [hact]

theorem mem_of_user {db : Auth.Db} {u : User} (h : db.user id = some u) : u ∈ db.users ∧ u.id = id := by
  have hfind : (db.users.find? fun u => u.id = id) = some u := h
  have hid := List.find?_some hfind
  exact ⟨List.mem_of_find?_eq_some hfind, of_decide_eq_true hid⟩

theorem WellKeyed.user_eq_some (h : WellKeyed E d) {u : User} (hu : u ∈ d.auth.users) : d.auth.user u.id = some u := by
  have hsome : (d.auth.user u.id).isSome := by
    rw [Auth.Db.user, List.find?_isSome]
    exact ⟨u, hu, decide_eq_true rfl⟩
  obtain ⟨v, hv⟩ := Option.isSome_iff_exists.1 hsome
  obtain ⟨hmem, hid⟩ := mem_of_user hv
  rw [hv, h.unique hmem hu hid]

theorem WellKeyed.activeEmail_eq_some (h : WellKeyed E d) :
    d.activeEmail id = some email ↔ ∃ u ∈ d.auth.users, u.id = id ∧ u.isActive = true ∧ u.email = email := by
  rw [Directory.activeEmail, Option.bind_eq_some_iff]
  constructor
  · rintro ⟨u, hu, hemail⟩
    obtain ⟨hmem, hid⟩ := mem_of_user hu
    obtain ⟨hact, hemail⟩ := signInEmail_eq_some.1 hemail
    exact ⟨u, hmem, hid, hact, hemail⟩
  · rintro ⟨u, hu, rfl, hact, rfl⟩
    exact ⟨u, h.user_eq_some hu, if_pos hact⟩

theorem WellKeyed.unshared_iff (h : WellKeyed E d) : EmailsUnshared d ↔ Unshared d.activeEmail := by
  have hmem : ∀ {u : User} {email : String}, u ∈ d.auth.activeUsers email ↔
      u ∈ d.auth.users ∧ u.isActive = true ∧ u.email = email := by
    intro u email
    simp only [Auth.Db.activeUsers, List.mem_filter, decide_eq_true_eq, and_comm (a := u.email = email)]
  constructor
  · intro hone i j email hi hj
    obtain ⟨u, hu, rfl, hui, huj⟩ := h.activeEmail_eq_some.1 hi
    obtain ⟨v, hv, rfl, hvi, hvj⟩ := h.activeEmail_eq_some.1 hj
    have hu : u ∈ d.auth.activeUsers email := hmem.2 ⟨hu, hui, huj⟩
    have hv : v ∈ d.auth.activeUsers email := hmem.2 ⟨hv, hvi, hvj⟩
    have hle := hone email
    obtain ⟨w, hw⟩ : ∃ w, d.auth.activeUsers email = [w] :=
      List.length_eq_one_iff.1 (le_antisymm hle (List.length_pos_of_mem hu))
    rw [hw] at hu hv
    rw [List.mem_singleton.1 hu, List.mem_singleton.1 hv]
  · intro huniq email
    have hnodup : (d.auth.activeUsers email).Nodup := (List.Nodup.of_map _ h.users).filter _
    have hsame : ∀ u ∈ d.auth.activeUsers email, ∀ v ∈ d.auth.activeUsers email, u = v := by
      intro u hu v hv
      obtain ⟨hu, hui, huj⟩ := hmem.1 hu
      obtain ⟨hv, hvi, hvj⟩ := hmem.1 hv
      refine h.unique hu hv (huniq u.id v.id email ?_ ?_)
      · exact h.activeEmail_eq_some.2 ⟨u, hu, rfl, hui, huj⟩
      · exact h.activeEmail_eq_some.2 ⟨v, hv, rfl, hvi, hvj⟩
    rcases heq : d.auth.activeUsers email with _ | ⟨u, _ | ⟨v, l⟩⟩
    · simp
    · simp
    · rw [heq] at hnodup hsame
      have huv : u = v := hsame u (by simp) v (by simp)
      simp [huv] at hnodup

/-- An e-mail that two active users have signs nobody in: `scalar_one_or_none` raises. -/
theorem login_of_shared {now : Time} {req : Auth.LoginRequest} {db : Auth.Db}
    (h : 2 ≤ (db.activeUsers req.email).length) : Auth.login E now req db = (.error serverError, db) := by
  obtain ⟨u, v, l, hl⟩ : ∃ u v l, db.activeUsers req.email = u :: v :: l := by
    rcases heq : db.activeUsers req.email with _ | ⟨u, _ | ⟨v, l⟩⟩
    · simp [heq] at h
    · simp [heq] at h
    · exact ⟨u, v, l, rfl⟩
  show (Auth.scalarOneOrNone (db.activeUsers req.email) >>= _) db = _
  rw [hl]
  rfl

/-! ### Writes -/

theorem Listed.of_users (h : Listed E d a) (hk : WellKeyed E d') (hu : d'.auth.users = d.auth.users) :
    Listed E d' a := by
  refine ⟨hk, funext fun id => ?_⟩
  rw [← h.active, Directory.activeEmail, Auth.Db.user, hu]
  rfl

/-- Rows rewritten in place, at one key at most. -/
theorem Listed.map (h : Listed E d a) (hk : WellKeyed E d') {f : User → User} (hid : ∀ u, (f u).id = u.id)
    (hu : d'.auth.users = d.auth.users.map f) {i : Uuid} {v : Option String}
    (hself : ∀ u ∈ d.auth.users, u.id = i → signInEmail (f u) = v)
    (hother : ∀ u ∈ d.auth.users, u.id ≠ i → signInEmail (f u) = signInEmail u)
    (hknown : d.Known i) : Listed E d' (Function.update a i v) := by
  have hactive : ∀ u ∈ d.auth.users, d'.activeEmail u.id = signInEmail (f u) := by
    intro u hmem
    have hmem' : f u ∈ d'.auth.users := hu ▸ List.mem_map_of_mem hmem
    rw [Directory.activeEmail, ← hid u, hk.user_eq_some hmem', Option.bind_some]
  refine ⟨hk, funext fun j => ?_⟩
  by_cases hj : d.Known j
  · obtain ⟨u, hmem, rfl⟩ := hj
    rw [hactive u hmem]
    by_cases hi : u.id = i
    · rw [hi, Function.update_self, hself u hmem hi]
    · rw [Function.update_of_ne hi, hother u hmem hi, ← h.active, Directory.activeEmail, h.keyed.user_eq_some hmem,
        Option.bind_some]
  · have hne : j ≠ i := fun hji => hj (hji ▸ hknown)
    have hnone : ∀ {d₁ : Directory}, WellKeyed E d₁ → ¬ d₁.Known j → d₁.activeEmail j = none := by
      intro d₁ hk₁ hno
      by_contra hsome
      obtain ⟨email, hemail⟩ := Option.ne_none_iff_exists'.1 hsome
      obtain ⟨u, hmem, rfl, -⟩ := hk₁.activeEmail_eq_some.1 hemail
      exact hno ⟨u, hmem, rfl⟩
    have hno : ¬ d'.Known j := by
      rintro ⟨w, hw, rfl⟩
      rw [hu] at hw
      obtain ⟨u, hmem, rfl⟩ := List.mem_map.1 hw
      exact hj ⟨u, hmem, (hid u).symm⟩
    rw [Function.update_of_ne hne, ← h.active, hnone hk hno, hnone h.keyed hj]

theorem Listed.setUser (h : Listed E d a) {row : User} (hknown : d.Known row.id) :
    Listed E (d.setUser row) (Function.update a row.id (signInEmail row)) := by
  refine h.map (Effect.setUser h.keyed hknown).keyed (fun u => ?_) rfl (fun u _ hid => ?_) (fun u _ hne => ?_) hknown
  · split_ifs with hid
    · exact hid.symm
    · rfl
  · rw [if_pos hid]
  · rw [if_neg hne]

theorem Listed.addUser (hinj : Function.Injective E.uuid4) (h : Listed E d a) {row : User}
    (hid : row.id = E.uuid4 d.auth.nextID) :
    Listed E (d.addUser row) (Function.update a row.id (signInEmail row)) := by
  have hk : WellKeyed E (d.addUser row) := (Effect.addUser hinj h.keyed hid).keyed
  refine ⟨hk, funext fun j => ?_⟩
  have hfresh : ∀ u ∈ d.auth.users, u.id ≠ row.id := fun u hu => hid ▸ (h.keyed.fresh _ (Nat.le_refl _)).2 u hu
  by_cases hj : j = row.id
  · have hmem : row ∈ (d.addUser row).auth.users := List.mem_append_right _ (List.mem_singleton_self row)
    rw [hj, Function.update_self, Directory.activeEmail, hk.user_eq_some hmem, Option.bind_some]
  · have hfind : (d.addUser row).auth.user j = d.auth.user j := by
      rw [Auth.Db.user, Directory.addUser, List.find?_append, List.find?_cons_of_neg (by simpa using Ne.symm hj),
        List.find?_nil, Option.or_none]
      rfl
    rw [Function.update_of_ne hj, ← h.active, Directory.activeEmail, hfind]
    rfl

theorem Listed.deactivate (h : Listed E d a) {userID tenant : Uuid} {u : Unit}
    (hdel : lift (Auth.deactivateUser userID tenant) d = (.ok u, d')) :
    Listed E d' (if ∃ u ∈ d.auth.users, u.id = userID ∧ u.tenantID = tenant then Function.update a userID none else a) := by
  have hk : WellKeyed E d' := (Effect.deactivate h.keyed hdel).keyed
  obtain ⟨db, hdb, rfl⟩ := lift_eq_ok.1 hdel
  obtain rfl := Txn.write_eq_ok.1 hdb
  have hids : ∀ u : User, (if u.id = userID ∧ u.tenantID = tenant then { u with isActive := false } else u).id = u.id := by
    intro u
    split_ifs <;> rfl
  split_ifs with hmatch
  · obtain ⟨w, hw, hid, htenant⟩ := hmatch
    refine h.map hk hids rfl (fun u hu hui => ?_) (fun u _ hne => ?_) ⟨w, hw, hid⟩
    · rw [h.keyed.unique hu hw (hui.trans hid.symm), if_pos ⟨hid, htenant⟩]
      rfl
    · rw [if_neg fun hboth => hne hboth.1]
  · refine h.of_users hk ?_
    have hsame : ∀ u ∈ d.auth.users,
        (if u.id = userID ∧ u.tenantID = tenant then { u with isActive := false } else u) = u :=
      fun u hu => if_neg fun hboth => hmatch ⟨u, hu, hboth⟩
    exact (List.map_congr_left hsame).trans (List.map_id' _)

/-! ### Signing in with a token -/

/-- The e-mail under which `get_auth_context` makes a user: that of an accepted OIDC token whose subject has no user
in the tenant. -/
def newSubject (E : Auth.Env) (now : Time) (credentials : Option String) (db : Auth.Db) : Option String := do
  let token ← credentials
  let unverified ← E.unverifiedClaims token
  let issuer ← unverified.issuer
  let issuer ← Auth.Json.asText issuer
  let config ← db.oidcConfig issuer
  let claims ← E.decodeOidc config token now
  if ¬ Auth.IsLocal E unverified ∧ db.externalUsers config.tenantID (claims.text E "sub" "") = [] then
    some (config.email E claims)
  else none

/-- The active e-mails after `get_auth_context`, and whom it made. -/
inductive SignedIn (E : Auth.Env) (d : Directory) (now : Time) (credentials : Option String) (ctx : Auth.AuthContext)
    (db : Auth.Db) : (Uuid → Option String) → Prop
  | known (hnew : newSubject E now credentials d.auth = none) : SignedIn E d now credentials ctx db d.activeEmail
  | made (email : String) (row : User) (hnew : newSubject E now credentials d.auth = some email)
      (huser : ctx.userID = some (E.uuid4 d.auth.nextID)) (hid : row.id = E.uuid4 d.auth.nextID)
      (htenant : row.tenantID = ctx.tenantID) (husers : db.users = d.auth.users ++ [row])
      (hfree : ∀ u ∈ d.auth.users, u.tenantID = ctx.tenantID → u.email ≠ email) :
      SignedIn E d now credentials ctx db (Function.update d.activeEmail (E.uuid4 d.auth.nextID) (some email))

theorem createUser_free {config : Auth.OIDCConfig} {email name externalID : String} {db db' : Auth.Db}
    (h : Auth.createUser E config email name externalID db = (.ok id, db')) :
    ∀ u ∈ db.users, u.tenantID = config.tenantID → u.email ≠ email := by
  unfold Auth.createUser at h
  simp only [Txn.read_bind_eq_ok, Txn.raiseIf_bind_eq_ok, List.any_eq_true, decide_eq_true_eq] at h
  obtain ⟨hno, -⟩ := h
  intro u hu htenant hemail
  exact hno ⟨u, hu, htenant, hemail⟩

theorem getAuthContext_signedIn (hinj : Function.Injective E.uuid4) (hk : WellKeyed E d) {now : Time}
    {credentials : Option String} {ctx : Auth.AuthContext} {db : Auth.Db}
    (h : Auth.getAuthContext E now credentials d.auth = (.ok ctx, db)) :
    ∃ a, SignedIn E d now credentials ctx db a ∧ Listed E { d with auth := db } a := by
  have hkeyed : WellKeyed E { d with auth := db } := (getAuthContext_idle hinj h hk).keyed hk
  obtain ⟨token, unverified, rfl, huv, ⟨hlocal, h⟩ | ⟨hlocal, issuer, hissuer, h⟩⟩ := Auth.getAuthContext_eq_ok.1 h
  · obtain ⟨rfl, -⟩ := Auth.localContext_eq_ok.1 h
    refine ⟨d.activeEmail, .known ?_, hk, rfl⟩
    simp [newSubject, huv, hlocal]
  · obtain ⟨config, claims, uid, hconfig, hclaims, -, hupsert, rfl⟩ := Auth.oidcContext_eq_ok.1 h
    have hnew : newSubject E now (some token) d.auth =
        if d.auth.externalUsers config.tenantID (claims.text E "sub" "") = [] then some (config.email E claims)
        else none := by
      simp [newSubject, huv, hlocal, hissuer, Auth.Json.asText, hconfig, hclaims]
    rcases Auth.upsertUser_eq_ok.1 hupsert with ⟨hnone, hmade⟩ | ⟨user, hrows, htouch⟩
    · rw [if_pos hnone] at hnew
      have hfree := createUser_free hmade
      obtain ⟨rfl, rfl⟩ := Auth.createUser_eq_ok hmade
      exact ⟨_, .made _ _ hnew rfl rfl rfl rfl hfree, Listed.addUser hinj ⟨hk, rfl⟩ rfl⟩
    · have hmem : user ∈ d.auth.externalUsers config.tenantID (claims.text E "sub" "") :=
        hrows ▸ List.mem_singleton_self user
      have hmem := List.mem_of_mem_filter hmem
      obtain ⟨rfl, rfl⟩ := Auth.touchUser_eq_ok.1 htouch
      refine ⟨d.activeEmail, .known (by rw [hnew, if_neg (by rw [hrows]; simp)]), ?_⟩
      rw [← Function.update_eq_self user.id d.activeEmail]
      refine Listed.map ⟨hk, rfl⟩ hkeyed (fun u => ?_) rfl (fun u hu hid => ?_) (fun u _ hne => ?_) ⟨user, hmem, rfl⟩
      · split_ifs <;> rfl
      · rw [if_pos hid, hk.unique hu hmem hid, Directory.activeEmail, hk.user_eq_some hmem]
        rfl
      · rw [if_neg hne]

/-! ### PATCH -/

/-- What an operation assigns to the e-mail. -/
def assignedEmail (S : Services) (op : Json) : Option String := do
  let path ← (op.attrGet "path" (.str "")).toOption
  let value ← (op.attrGet "value" .null).toOption
  if ¬ SetsActive S path value ∧ (path = .str "userName" ∨ path = .str "emails[type eq \"work\"].value") then
    some (S.str value)
  else none

/-- The e-mail as the operations leave it. -/
def lastEmail (S : Services) : String → List Json → String
  | email, [] => email
  | email, op :: ops => lastEmail S ((assignedEmail S op).getD email) ops

variable {S : Services} {now : Time}

theorem patchOp_cases {user : User} {edit edit' : Edit} {op : Json}
    (h : patchOp S now user edit op d = (.ok edit', d')) :
    edit'.email = ((assignedEmail S op).map Json.str).getD edit.email ∧
      (d'.auth.users = d.auth.users ∨ ∃ row, row.id = user.id ∧ d'.auth.users = (d.setUser row).auth.users) := by
  unfold patchOp at h
  simp only [Txn.ofOption_bind_eq_ok] at h
  obtain ⟨path, hpath, value, hvalue, h⟩ := h
  have hassigned : assignedEmail S op = if ¬ SetsActive S path value ∧
      (path = .str "userName" ∨ path = .str "emails[type eq \"work\"].value") then some (S.str value) else none := by
    simp only [assignedEmail, hpath, hvalue, Option.bind_eq_bind, Option.bind_some]
  by_cases hsets : SetsActive S path value
  · rw [if_pos hsets] at h
    rw [if_neg fun hno => hno.1 hsets] at hassigned
    rw [hassigned]
    obtain ⟨active, -, h⟩ := Txn.ofOption_bind_eq_ok.1 h
    by_cases htruthy : active.truthy S.isZero = true
    · rw [if_pos htruthy] at h
      obtain ⟨rfl, rfl⟩ := Txn.pure_eq_ok.1 h
      exact ⟨rfl, .inl rfl⟩
    · rw [if_neg htruthy] at h
      obtain ⟨row, d₁, hflush, h⟩ := Txn.bind_eq_ok.1 h
      rw [lift_bind_eq_ok] at h
      obtain ⟨u, db, hdb, h⟩ := h
      obtain rfl := Txn.write_eq_ok.1 hdb
      rw [Txn.write_bind_eq_ok, Txn.pure_eq_ok] at h
      obtain ⟨rfl, rfl⟩ := h
      obtain ⟨hrow, -, rfl⟩ := flushUser_eq_ok.1 hflush
      exact ⟨rfl, .inr ⟨row, (Edit.row_spec hrow).1, rfl⟩⟩
  · rw [if_neg hsets] at h
    obtain ⟨hrename, rfl⟩ := Txn.ofOption_eq_ok.1 h
    refine ⟨?_, .inl rfl⟩
    rw [hassigned]
    unfold renameOp at hrename
    split at hrename
    · rename_i p
      rw [← Option.some.inj hrename]
      simp only [hsets, not_false_eq_true, true_and, Json.str.injEq]
      split_ifs <;> rfl
    · cases hrename

theorem Listed.patchOps {user : User} {edit edit' : Edit} {ops : List Json} {v : Option String}
    (h : Listed S.env d (Function.update a user.id v)) (hknown : d.Known user.id) (hemail : edit.email = .str email)
    (hp : patchOps S now user edit ops d = (.ok edit', d')) :
    edit'.email = .str (lastEmail S email ops) ∧ d'.Known user.id ∧
      ∃ v', Listed S.env d' (Function.update a user.id v') := by
  induction ops generalizing edit d email v with
  | nil =>
    obtain ⟨rfl, rfl⟩ := Txn.pure_eq_ok.1 hp
    exact ⟨hemail, hknown, v, h⟩
  | cons op ops ih =>
    obtain ⟨edit₁, d₁, hop, hp⟩ := Txn.bind_eq_ok.1 hp
    obtain ⟨-, hpatched⟩ := patchOp_spec h.keyed hknown hop
    obtain ⟨hedit, husers⟩ := patchOp_cases hop
    have hemail₁ : edit₁.email = .str ((assignedEmail S op).getD email) := by
      rw [hedit, hemail]
      cases assignedEmail S op <;> rfl
    have hlisted : ∃ v₁, Listed S.env d₁ (Function.update a user.id v₁) := by
      rcases husers with hsame | ⟨row, hid, hset⟩
      · exact ⟨v, h.of_users hpatched.keyed hsame⟩
      · have hrow := h.setUser (hid ▸ hknown : d.Known row.id)
        rw [hid, Function.update_idem] at hrow
        exact ⟨_, hrow.of_users hpatched.keyed hset⟩
    obtain ⟨v₁, hlisted⟩ := hlisted
    exact ih hlisted (hpatched.known _ hknown) hemail₁ hp

end

/-! ### Which e-mails a request may take -/

/-- The e-mail is that of no active user but `id`, in any tenant. -/
def Directory.Free (d : Directory) (email : String) (id : Uuid) : Prop :=
  ∀ j, d.activeEmail j = some email → j = id

/-- A user that the token check makes takes a free e-mail. -/
def Directory.SignInClear (S : Services) (d : Directory) (now : Time) (credentials : Option String) : Prop :=
  ∀ email, newSubject S.env now credentials d.auth = some email → d.Free email (S.env.uuid4 d.auth.nextID)

/-- The e-mail that the request gives an active user is free. -/
def Event.Clear (S : Services) (d : Directory) : Event → Prop
  | .createScimUser _ _ _ body =>
    ∀ email, extractEmail S body = some (.str email) →
      asActive S (Json.getD body "active" (.bool true)) = some true → d.Free email (S.env.uuid4 d.auth.nextID)
  | .replaceScimUser now tenantID userID authorization body =>
    ∀ user d₁ edit row, scimUser S now tenantID userID authorization d = (.ok user, d₁) →
      replaceEdit S body user = some edit → edit.row S user = some row → row.isActive = true →
      d.Free row.email user.id
  | .patchScimUser now tenantID userID authorization body =>
    ∀ user d₁ ops, scimUser S now tenantID userID authorization d = (.ok user, d₁) → operations body = some ops →
      (lastActive S (.bool user.isActive) ops).truthy S.isZero = true → d.Free (lastEmail S user.email ops) user.id
  | .samlAcs _ tenantSlug form =>
    ∀ identity d₁, samlIdentity S tenantSlug form d = (.ok identity, d₁) →
      ∀ id, d.activeEmail id = some identity.email → ∃ u ∈ d.usersByEmail identity.email identity.tenantID, u.id = id
  | .acceptInvite _ req =>
    ∀ invite, d.invites (S.env.hashToken req.token) = some invite →
      d.Free invite.email (S.env.uuid4 d.auth.nextID)
  | .removeUser now credentials userID =>
    S.env.parseUuid userID ≠ some (S.env.uuid4 d.auth.nextID) → d.SignInClear S now credentials
  | .createAPIKey now credentials _ => d.SignInClear S now credentials
  | .deleteScimUser .. | .login .. => True

/-- `signup` has looked its e-mail up; `update_profile` has not. -/
def AccountEvent.Clear (S : Services) (d : Directory) : AccountEvent → Prop
  | .signup .. => True
  | .inviteUser now _ credentials _ => d.SignInClear S now credentials
  | .updateProfile now credentials req =>
    ∀ ctx db id email, Auth.getAuthContext S.env now credentials d.auth = (.ok ctx, db) → ctx.userID = some id →
      ¬ UserInactive d.auth id → req.newEmail.or (newSubject S.env now credentials d.auth) = some email →
      d.Free email id
  | .authenticate now credentials => d.SignInClear S now credentials
  | .provision e => e.Clear S d

/-- The request goes through. -/
def AccountEvent.Accepted (S : Services) (d : Directory) (e : AccountEvent) : Prop := ∃ d', e.body S d = (.ok (), d')

/-! ### What a request does to the e-mails -/

section
variable {S : Services} {d d' : Directory} {a : Uuid → Option String} {now : Time}
  {tenantID userID tenantSlug : String} {authorization credentials : Option String} {body : Json.Fields}
  {ctx : Auth.AuthContext} {db : Auth.Db}

/-- The directory after a request that keeps the e-mails unshared exactly under `clear`. -/
structure Emails (S : Services) (d' : Directory) (clear : Prop) : Prop where
  keyed : WellKeyed S.env d'
  unshared : EmailsUnshared d' ↔ clear

theorem Listed.emails (h : Listed S.env d' a) {clear : Prop} (hclear : Unshared a ↔ clear) : Emails S d' clear :=
  ⟨h.keyed, by rw [h.keyed.unshared_iff, h.active, hclear]⟩

/-- A request that changes one row. -/
theorem Listed.emails_update {i : Uuid} {v : Option String} (h : Listed S.env d' (Function.update d.activeEmail i v))
    (h0 : Unshared d.activeEmail) {clear : Prop} (hclear : (∀ email, v = some email → d.Free email i) ↔ clear) :
    Emails S d' clear :=
  h.emails ((unshared_update h0).trans hclear)

theorem Edit.row_email {edit : Edit} {user row : User} (h : edit.row S user = some row) :
    edit.email = .str row.email := by
  simp only [Edit.row, Option.bind_eq_bind, Option.bind_eq_some_iff, Option.pure_def, Option.some.injEq] at h
  obtain ⟨email, hemail, name, -, ext, -, active, -, rfl⟩ := h
  cases hj : edit.email with
  | str s => rw [hj] at hemail; rw [Option.some.inj hemail]
  | _ => rw [hj] at hemail; cases hemail

theorem insertUser_email {user row : User} {edit : Edit} (h : insertUser S user edit d = (.ok row, d')) :
    edit.email = .str row.email := by
  unfold insertUser at h
  simp only [Txn.ofOption_bind_eq_ok, Txn.read_bind_eq_ok, Txn.raiseIf_bind_eq_ok, Txn.write_bind_eq_ok,
    Txn.pure_eq_ok] at h
  obtain ⟨row', hrow, -, rfl, -⟩ := h
  exact Edit.row_email hrow

/-- The SCIM check touches no user. -/
theorem listed_scimConfigs (hk : WellKeyed S.env d) (configs : List SCIMConfig) :
    Listed S.env { d with scimConfigs := configs } d.activeEmail := by
  have hidle : Idle S.env d { d with scimConfigs := configs } := .of_eq rfl rfl rfl rfl
  exact Listed.of_users ⟨hk, rfl⟩ (hidle.keyed hk) rfl

theorem listed_insertTenant (hk : WellKeyed S.env d) {slug : String} {tenant : Auth.Tenant} {id : Uuid}
    (h : insertTenant S slug tenant d = (.ok id, d')) : Listed S.env d' d.activeEmail := by
  unfold insertTenant at h
  simp only [Txn.read_bind_eq_ok, Txn.raiseIf_bind_eq_ok, Txn.write_bind_eq_ok, Txn.pure_eq_ok] at h
  obtain ⟨-, -, rfl⟩ := h
  refine Listed.of_users ⟨hk, rfl⟩ ⟨hk.users, hk.sessions, hk.keys, fun n hn => ?_⟩ rfl
  have hn : d.auth.nextID + 1 ≤ n := hn
  exact hk.fresh n (Nat.le_of_succ_le hn)

variable (hinj : Function.Injective S.env.uuid4) (hk : WellKeyed S.env d) (h0 : Unshared d.activeEmail)
include hk h0

theorem emails_replaceScimUser {row : User}
    (h : replaceScimUser S now tenantID userID authorization body d = (.ok row, d')) :
    Emails S d' ((Event.replaceScimUser now tenantID userID authorization body).Clear S d) := by
  unfold replaceScimUser at h
  obtain ⟨user, d₁, huser, h⟩ := Txn.bind_eq_ok.1 h
  obtain ⟨edit, hedit, h⟩ := Txn.ofOption_bind_eq_ok.1 h
  obtain ⟨hrow, -, rfl⟩ := flushUser_eq_ok.1 h
  obtain ⟨hid, -, -⟩ := Edit.row_spec hrow
  obtain ⟨-, hmem, configs, rfl⟩ := scimUser_spec huser
  refine ((listed_scimConfigs hk configs).setUser ⟨user, hmem, hid.symm⟩).emails_update h0 ?_
  simp only [signInEmail_eq_some, hid]
  constructor
  · rintro hfree user' d₁ edit' row' huser' hedit' hrow' hact
    obtain ⟨rfl, -⟩ := Txn.ok_unique huser huser'
    obtain rfl := Option.some.inj (hedit.symm.trans hedit')
    obtain rfl := Option.some.inj (hrow.symm.trans hrow')
    exact hfree row.email ⟨hact, rfl⟩
  · rintro hclear email ⟨hact, rfl⟩
    exact hclear user _ edit row huser hedit hrow hact

theorem emails_patchScimUser {row : User}
    (h : patchScimUser S now tenantID userID authorization body d = (.ok row, d')) :
    Emails S d' ((Event.patchScimUser now tenantID userID authorization body).Clear S d) := by
  unfold patchScimUser at h
  obtain ⟨user, d₁, huser, h⟩ := Txn.bind_eq_ok.1 h
  obtain ⟨ops, hops, h⟩ := Txn.ofOption_bind_eq_ok.1 h
  obtain ⟨edit, d₂, hpatch, h⟩ := Txn.bind_eq_ok.1 h
  obtain ⟨hrow, -, rfl⟩ := flushUser_eq_ok.1 h
  obtain ⟨hid, -, hactive⟩ := Edit.row_spec hrow
  obtain ⟨-, hmem, configs, rfl⟩ := scimUser_spec huser
  have hkeyed : WellKeyed S.env { d with scimConfigs := configs } := (listed_scimConfigs hk configs).keyed
  have hlisted : Listed S.env { d with scimConfigs := configs } (Function.update d.activeEmail user.id
      (d.activeEmail user.id)) := by
    rw [Function.update_eq_self]
    exact listed_scimConfigs hk configs
  obtain ⟨hlast, -⟩ := patchOps_spec hkeyed ⟨user, hmem, rfl⟩ hpatch
  obtain ⟨hemail, hknown, v, hlisted⟩ := hlisted.patchOps ⟨user, hmem, rfl⟩ rfl hpatch
  have htruthy : (lastActive S (.bool user.isActive) ops).truthy S.isZero = row.isActive := by
    rw [hlast] at hactive
    exact truthy_of_asActive hactive
  have hrowEmail : lastEmail S user.email ops = row.email := by
    have heq := hemail.symm.trans (Edit.row_email hrow)
    simpa using heq
  have hset := hlisted.setUser (hid ▸ hknown : d₂.Known row.id)
  rw [hid, Function.update_idem] at hset
  refine hset.emails_update h0 ?_
  simp only [signInEmail_eq_some]
  constructor
  · rintro hfree user' d₁ ops' huser' hops' hact
    obtain ⟨rfl, -⟩ := Txn.ok_unique huser huser'
    obtain rfl := Option.some.inj (hops.symm.trans hops')
    rw [hrowEmail]
    exact hfree row.email ⟨htruthy ▸ hact, rfl⟩
  · rintro hclear email ⟨hact, rfl⟩
    rw [← hrowEmail]
    exact hclear user _ ops huser hops (htruthy.trans hact)

theorem emails_deleteScimUser {u : Unit} (h : deleteScimUser S now tenantID userID authorization d = (.ok u, d')) :
    Emails S d' True := by
  unfold deleteScimUser at h
  obtain ⟨tenant, d₁, htenant, h⟩ := Txn.bind_eq_ok.1 h
  obtain ⟨id, -, h⟩ := Txn.ofOption_bind_eq_ok.1 h
  obtain ⟨configs, rfl⟩ := getScimTenant_frame htenant
  refine ((listed_scimConfigs hk configs).deactivate h).emails (iff_true_intro ?_)
  split_ifs
  · exact (unshared_update h0).2 fun _ hnone => by cases hnone
  · exact h0

theorem emails_login {req : Auth.LoginRequest} {r : Auth.LoginResponse}
    (hinj : Function.Injective S.env.uuid4) (h : Auth.login S.env now req d.auth = (.ok r, db)) :
    Emails S { d with auth := db } True := by
  obtain ⟨user, -, -, heffect⟩ := Effect.login hinj hk h
  have husers : db.users = d.auth.users := by
    obtain ⟨-, -, -, hu, -⟩ := Auth.login_spec h
    exact hu
  exact (Listed.of_users ⟨hk, rfl⟩ heffect.keyed husers).emails (iff_true_intro h0)

include hinj

theorem emails_createScimUser {row : User} (h : createScimUser S now tenantID authorization body d = (.ok row, d')) :
    Emails S d' ((Event.createScimUser now tenantID authorization body).Clear S d) := by
  unfold createScimUser at h
  obtain ⟨tenant, d₁, htenant, h⟩ := Txn.bind_eq_ok.1 h
  simp only [Txn.ofOption_bind_eq_ok, Txn.raiseIf_bind_eq_ok, Txn.read_bind_eq_ok, scalar_bind_eq_ok] at h
  obtain ⟨email, hemail, -, text, -, o, -, -, role, -, h⟩ := h
  obtain ⟨configs, rfl⟩ := getScimTenant_frame htenant
  have hrow : email = .str row.email := insertUser_email h
  obtain ⟨hid, hactive, rfl⟩ := insertUser_spec h
  have hlisted := (listed_scimConfigs hk configs).addUser hinj hid
  rw [hid] at hlisted
  refine hlisted.emails_update h0 ?_
  simp only [signInEmail_eq_some, Event.Clear, hemail, hactive, hrow, Option.some.injEq, Json.str.injEq]
  constructor
  · rintro hfree email rfl hact
    exact hfree row.email ⟨hact, rfl⟩
  · rintro hclear email ⟨hact, rfl⟩
    exact hclear row.email rfl hact

theorem emails_acceptInvite {req : AcceptInviteRequest} {r : AcceptInviteResponse}
    (h : acceptInvite S now req d = (.ok r, d')) : Emails S d' ((Event.acceptInvite now req).Clear S d) := by
  unfold acceptInvite at h
  simp only [Txn.read_bind_eq_ok, Txn.ofOption_bind_eq_ok, lift_bind_eq_ok] at h
  obtain ⟨invite, hinvite, u, db, hvalid, h⟩ := h
  obtain rfl := Auth.validatePassword_frame hvalid
  obtain ⟨row, d₁, hinsert, h⟩ := Txn.bind_eq_ok.1 h
  simp only [lift_bind_eq_ok, Txn.write_bind_eq_ok, Txn.read_bind_eq_ok, Txn.pure_eq_ok] at h
  obtain ⟨u, db, hdb, -, rfl⟩ := h
  obtain rfl := Txn.write_eq_ok.1 hdb
  have hemail : Json.str invite.email = .str row.email := insertUser_email hinsert
  obtain ⟨hid, hactive, rfl⟩ := insertUser_spec hinsert
  have htrue : row.isActive = true := (Option.some.inj hactive).symm
  have hinvite := (Option.filter_eq_some_iff.1 hinvite).1
  have hadded : Listed S.env (d.addUser row) (Function.update d.activeEmail row.id (signInEmail row)) :=
    Listed.addUser hinj ⟨hk, rfl⟩ hid
  rw [hid] at hadded
  have hidle : Idle S.env (d.addUser row) { d.addUser row with
      auth := (d.addUser row).auth.setCredential row.id ⟨S.env.hash req.password, some 0, none, none, none⟩
      invites := Function.update d.invites (S.env.hashToken req.token) (some { invite with usedAt := some now }) } :=
    .of_eq rfl rfl rfl rfl
  refine (hadded.of_users (hidle.keyed hadded.keyed) rfl).emails_update h0 ?_
  simp only [signInEmail_eq_some, Event.Clear, hinvite, Option.some.injEq, htrue, true_and, forall_eq']
  rw [show invite.email = row.email from Json.str.inj hemail]

theorem emails_samlAcs {form : SAMLForm} {token : String} (h : samlAcs S now tenantSlug form d = (.ok token, d')) :
    Emails S d' ((Event.samlAcs now tenantSlug form).Clear S d) := by
  unfold samlAcs at h
  obtain ⟨identity, d₁, hidentity, h⟩ := Txn.bind_eq_ok.1 h
  have hsame : d = d₁ := samlIdentity_frame hidentity
  subst hsame
  simp only [Txn.read_bind_eq_ok, scalar_bind_eq_ok] at h
  obtain ⟨o, hrows, h⟩ := h
  obtain ⟨row, d₂, hprov, h⟩ := Txn.bind_eq_ok.1 h
  rw [Txn.read_bind_eq_ok, Txn.pure_eq_ok] at h
  obtain ⟨-, rfl⟩ := h
  have hclear : (Event.samlAcs now tenantSlug form).Clear S d ↔
      ∀ id, d.activeEmail id = some identity.email → ∃ u ∈ o.toList, u.id = id := by
    rw [← hrows]
    constructor
    · intro hc; exact hc identity d hidentity
    · rintro hc identity' d₁ hidentity'
      obtain ⟨rfl, -⟩ := Txn.ok_unique hidentity hidentity'
      exact hc
  rw [hclear]
  cases o with
  | none =>
    have hemail : Json.str identity.email = .str row.email := insertUser_email hprov
    obtain ⟨hid, hactive, rfl⟩ := insertUser_spec hprov
    have htrue : row.isActive = true := (Option.some.inj hactive).symm
    have hadded : Listed S.env (d.addUser row) (Function.update d.activeEmail row.id (signInEmail row)) :=
      Listed.addUser hinj ⟨hk, rfl⟩ hid
    refine hadded.emails_update h0 ?_
    simp only [signInEmail_eq_some, htrue, true_and, forall_eq', ← Json.str.inj hemail, Option.toList_none,
      List.not_mem_nil, false_and, exists_false]
    refine forall_congr' fun j => imp_congr_right fun hj => iff_false_intro ?_
    rintro rfl
    obtain ⟨u, hu, huid, -⟩ := hk.activeEmail_eq_some.1 hj
    exact hk.not_known (Nat.le_refl _) ⟨u, hu, huid.trans hid⟩
  | some user =>
    have hmem : user ∈ d.usersByEmail identity.email identity.tenantID := hrows ▸ List.mem_singleton_self user
    obtain ⟨hmem, hmatch⟩ := List.mem_filter.1 hmem
    have hmatch := of_decide_eq_true hmatch
    obtain ⟨hrow, -, rfl⟩ := flushUser_eq_ok.1 hprov
    have hemail : Json.str user.email = .str row.email := Edit.row_email hrow
    obtain ⟨hid, -, hactive⟩ := Edit.row_spec hrow
    have htrue : row.isActive = true := (Option.some.inj hactive).symm
    have hset : Listed S.env (d.setUser row) (Function.update d.activeEmail row.id (signInEmail row)) :=
      Listed.setUser ⟨hk, rfl⟩ ⟨user, hmem, hid.symm⟩
    refine hset.emails_update h0 ?_
    simp only [signInEmail_eq_some, htrue, true_and, forall_eq', ← Json.str.inj hemail, hmatch.1, Option.toList_some,
      List.mem_singleton, exists_eq_left, hid]
    exact forall_congr' fun j => imp_congr_right fun _ => eq_comm

omit hinj hk in
/-- A request after whose token check no user changes. -/
theorem SignedIn.emails (hs : SignedIn S.env d now credentials ctx db a) (hlisted : Listed S.env d' a) :
    Emails S d' (d.SignInClear S now credentials) := by
  cases hs with
  | known hnew =>
    refine hlisted.emails (iff_of_true h0 fun email hemail => ?_)
    rw [hnew] at hemail
    cases hemail
  | made email row hnew =>
    refine hlisted.emails_update h0 ?_
    simp only [Directory.SignInClear, hnew]

theorem emails_createAPIKey {req : CreateAPIKeyRequest} {r : CreatedAPIKey}
    (h : createAPIKey S now credentials req d = (.ok r, d')) :
    Emails S d' ((Event.createAPIKey now credentials req).Clear S d) := by
  unfold createAPIKey at h
  simp only [lift_bind_eq_ok, Txn.read_bind_eq_ok, Txn.ofOption_bind_eq_ok, Txn.raiseIf_bind_eq_ok,
    Txn.write_bind_eq_ok, Txn.pure_eq_ok] at h
  obtain ⟨ctx, db, hauth, ⟨rawKey, key⟩, hmade, -, -, rfl⟩ := h
  simp only [newAPIKey, Option.bind_eq_bind, Option.bind_eq_some_iff, Option.pure_def, Option.some.injEq,
    Prod.mk.injEq] at hmade
  obtain ⟨expiresAt, -, id, -, user, huser, -, rfl⟩ := hmade
  obtain ⟨a, hsigned, hlisted⟩ := getAuthContext_signedIn hinj hk hauth
  have hknown : Directory.Known { d with auth := db } id := ⟨user, mem_of_user huser⟩
  exact hsigned.emails h0 (hlisted.of_users (Effect.addKey hlisted.keyed hknown rfl).keyed rfl)

theorem emails_removeUser {u : Unit} (h : removeUser S now credentials userID d = (.ok u, d')) :
    Emails S d' ((Event.removeUser now credentials userID).Clear S d) := by
  unfold removeUser at h
  simp only [lift_bind_eq_ok, Txn.raiseIf_bind_eq_ok, Txn.ofOption_bind_eq_ok] at h
  obtain ⟨ctx, db, hauth, -, -, id, hparse, h⟩ := h
  obtain ⟨a, hsigned, hlisted⟩ := getAuthContext_signedIn hinj hk hauth
  have hremoved := hlisted.deactivate h
  rw [Event.Clear, hparse, Ne, Option.some.injEq]
  cases hsigned with
  | known hnew =>
    refine hremoved.emails (iff_of_true ?_ fun _ email hemail => ?_)
    · split_ifs
      · exact (unshared_update h0).2 fun _ hnone => by cases hnone
      · exact h0
    · rw [hnew] at hemail
      cases hemail
  | made email row hnew _ hid htenant husers hfree =>
    have hmade : row ∈ db.users := husers ▸ List.mem_append_right _ (List.mem_singleton_self row)
    by_cases hself : id = S.env.uuid4 d.auth.nextID
    · rw [if_pos ⟨row, hmade, hid.trans hself.symm, htenant⟩, hself, Function.update_idem] at hremoved
      refine hremoved.emails_update h0 (iff_of_true (fun _ hnone => by cases hnone) fun hne => ?_)
      exact absurd hself hne
    · split_ifs at hremoved with hmatch
      · -- the removed user is in the tenant of the new one, so it did not have its e-mail
        obtain ⟨w, hw, rfl, hwtenant⟩ := hmatch
        have hother : d.activeEmail w.id ≠ some email := by
          intro hactive
          obtain ⟨v, hv, hvid, -, hvemail⟩ := hk.activeEmail_eq_some.1 hactive
          have hv' : v ∈ db.users := husers ▸ List.mem_append_left _ hv
          have hvw : v = w := hlisted.keyed.unique hv' hw hvid
          exact hfree v hv (hvw ▸ hwtenant) hvemail
        have hnone : Unshared (Function.update d.activeEmail w.id none) :=
          (unshared_update h0).2 fun _ hnone => by cases hnone
        rw [Function.update_comm (Ne.symm hself)] at hremoved
        refine hremoved.emails ((unshared_update hnone).trans ?_)
        simp only [hself, not_false_eq_true, true_imp_iff, Directory.SignInClear, hnew, Option.some.injEq, forall_eq']
        refine forall_congr' fun j => ?_
        by_cases hj : j = w.id
        · rw [hj, Function.update_self]
          exact iff_of_true (fun hfalse => by cases hfalse) fun hactive => absurd hactive hother
        · rw [Function.update_of_ne hj]
      · refine hremoved.emails_update h0 ?_
        simp only [hself, not_false_eq_true, true_imp_iff, Directory.SignInClear, hnew]

theorem Event.emails {e : Event} (h : e.body S d = (.ok (), d')) : Emails S d' (e.Clear S d) := by
  cases e with
  | createScimUser now tenantID authorization body =>
    obtain ⟨row, d₁, hm, hpure⟩ := Txn.bind_eq_ok.1 h
    obtain ⟨-, rfl⟩ := Txn.pure_eq_ok.1 hpure
    exact emails_createScimUser hinj hk h0 hm
  | replaceScimUser now tenantID userID authorization body =>
    obtain ⟨row, d₁, hm, hpure⟩ := Txn.bind_eq_ok.1 h
    obtain ⟨-, rfl⟩ := Txn.pure_eq_ok.1 hpure
    exact emails_replaceScimUser hk h0 hm
  | patchScimUser now tenantID userID authorization body =>
    obtain ⟨row, d₁, hm, hpure⟩ := Txn.bind_eq_ok.1 h
    obtain ⟨-, rfl⟩ := Txn.pure_eq_ok.1 hpure
    exact emails_patchScimUser hk h0 hm
  | deleteScimUser now tenantID userID authorization => exact emails_deleteScimUser hk h0 h
  | removeUser now credentials userID => exact emails_removeUser hinj hk h0 h
  | samlAcs now tenantSlug form =>
    obtain ⟨token, d₁, hm, hpure⟩ := Txn.bind_eq_ok.1 h
    obtain ⟨-, rfl⟩ := Txn.pure_eq_ok.1 hpure
    exact emails_samlAcs hinj hk h0 hm
  | acceptInvite now req =>
    obtain ⟨r, d₁, hm, hpure⟩ := Txn.bind_eq_ok.1 h
    obtain ⟨-, rfl⟩ := Txn.pure_eq_ok.1 hpure
    exact emails_acceptInvite hinj hk h0 hm
  | login now req =>
    obtain ⟨r, db, hm, hpure⟩ := lift_bind_eq_ok.1 h
    obtain ⟨-, rfl⟩ := Txn.pure_eq_ok.1 hpure
    exact emails_login hk h0 hinj hm
  | createAPIKey now credentials req =>
    obtain ⟨key, d₁, hm, hpure⟩ := Txn.bind_eq_ok.1 h
    obtain ⟨-, rfl⟩ := Txn.pure_eq_ok.1 hpure
    exact emails_createAPIKey hinj hk h0 hm

/-! ### Sign-up, invitations and profiles -/

theorem emails_signup {hex : String} {req : SignupRequest} {r : SignupResponse}
    (h : signup S now hex req d = (.ok r, d')) : Emails S d' True := by
  unfold signup at h
  obtain ⟨u, db, hvalid, h⟩ := lift_bind_eq_ok.1 h
  obtain rfl := Auth.validatePassword_frame hvalid
  simp only [Txn.read_bind_eq_ok, scalar_bind_eq_ok, Txn.raiseIf_bind_eq_ok] at h
  obtain ⟨o, hrows, hno, h⟩ := h
  obtain ⟨tenantID, d₁, htenant, h⟩ := Txn.bind_eq_ok.1 h
  obtain ⟨row, d₂, hinsert, h⟩ := Txn.bind_eq_ok.1 h
  simp only [lift_bind_eq_ok, Txn.pure_eq_ok] at h
  obtain ⟨u, db, hdb, -, rfl⟩ := h
  obtain rfl := Txn.write_eq_ok.1 hdb
  have hemail : Json.str req.email = .str row.email := insertUser_email hinsert
  obtain ⟨hid, -, rfl⟩ := insertUser_spec hinsert
  have hadded := (listed_insertTenant hk htenant).addUser hinj hid
  have hidle : Idle S.env (d₁.addUser row) { d₁.addUser row with
      auth := (d₁.addUser row).auth.setCredential row.id ⟨S.env.hash req.password, some 0, none, none, none⟩ } :=
    .of_eq rfl rfl rfl rfl
  refine (hadded.of_users (hidle.keyed hadded.keyed) rfl).emails_update h0 (iff_true_intro fun email hrow j hj => ?_)
  -- the e-mail was looked up in all tenants before
  obtain ⟨-, rfl⟩ := signInEmail_eq_some.1 hrow
  obtain ⟨w, hw, -, -, hwemail⟩ := hk.activeEmail_eq_some.1 hj
  have hmem : w ∈ o.toList := by
    rw [← hrows, List.mem_filter, decide_eq_true_eq, hwemail, Json.str.inj hemail]
    exact ⟨hw, rfl⟩
  rw [Option.mem_toList] at hmem
  rw [hmem] at hno
  exact absurd rfl hno

theorem emails_inviteUser {token : String} {req : InviteRequest} {r : InviteResponse}
    (h : inviteUser S now token credentials req d = (.ok r, d')) : Emails S d' (d.SignInClear S now credentials) := by
  unfold inviteUser at h
  obtain ⟨ctx, db, hauth, h⟩ := lift_bind_eq_ok.1 h
  simp only [Txn.raiseIf_bind_eq_ok, Txn.read_bind_eq_ok, scalar_bind_eq_ok, Txn.write_bind_eq_ok,
    Txn.pure_eq_ok] at h
  obtain ⟨-, o, -, -, -, -, -, rfl⟩ := h
  obtain ⟨a, hsigned, hlisted⟩ := getAuthContext_signedIn hinj hk hauth
  refine hsigned.emails h0 (hlisted.of_users (Idle.keyed ?_ hlisted.keyed) rfl)
  exact .of_eq rfl rfl rfl rfl

theorem emails_updateProfile {req : UpdateProfileRequest} {u : Unit}
    (h : updateProfile S now credentials req d = (.ok u, d')) :
    Emails S d' ((AccountEvent.updateProfile now credentials req).Clear S d) := by
  unfold updateProfile at h
  obtain ⟨ctx, db, hauth, h⟩ := lift_bind_eq_ok.1 h
  simp only [Txn.read_bind_eq_ok, Txn.ofOption_bind_eq_ok] at h
  obtain ⟨user, huser, h⟩ := h
  obtain ⟨row, d₁, hflush, h⟩ := Txn.bind_eq_ok.1 h
  obtain ⟨-, rfl⟩ := Txn.pure_eq_ok.1 h
  obtain ⟨hrow, -, rfl⟩ := flushUser_eq_ok.1 hflush
  have hemail : Json.str (req.newEmail.getD user.email) = .str row.email := Edit.row_email hrow
  have hemail := Json.str.inj hemail
  obtain ⟨hid, -, hactive⟩ := Edit.row_spec hrow
  have hactive : user.isActive = row.isActive := Option.some.inj hactive
  obtain ⟨id, hctx, huser⟩ := Option.bind_eq_some_iff.1 huser
  obtain ⟨hmem, rfl⟩ := mem_of_user huser
  have hid : row.id = user.id := hid
  obtain ⟨a, hsigned, hlisted⟩ := getAuthContext_signedIn hinj hk hauth
  have hset := hlisted.setUser ⟨user, hmem, hid.symm⟩
  rw [hid] at hset
  have hinactive : ¬ UserInactive d.auth user.id ↔ user.isActive = true := by
    rw [← (Auth.getAuthContext_frame hauth).inactive]
    constructor
    · intro hno
      by_contra hfalse
      exact hno ⟨user, hmem, rfl, Bool.eq_false_iff.2 hfalse⟩
    · intro htrue
      exact (hlisted.keyed.active_iff ⟨user, hmem, rfl⟩).1 ⟨user, hmem, rfl, htrue⟩
  have hclear : (AccountEvent.updateProfile now credentials req).Clear S d ↔
      (user.isActive = true → ∀ email, req.newEmail.or (newSubject S.env now credentials d.auth) = some email →
        d.Free email user.id) := by
    rw [← hinactive]
    constructor
    · intro hc hno email hemail
      exact hc ctx db user.id email hauth hctx hno hemail
    · rintro hc ctx' db' id' email hauth' hctx' hno hemail
      obtain ⟨rfl, -⟩ := Txn.ok_unique hauth hauth'
      obtain rfl := Option.some.inj (hctx.symm.trans hctx')
      exact hc hno email hemail
  have hcurrent : user.isActive = true → a user.id = some user.email := by
    intro htrue
    rw [← hlisted.active]
    exact hlisted.keyed.activeEmail_eq_some.2 ⟨user, hmem, rfl, htrue, rfl⟩
  have hfree : (∀ email, signInEmail row = some email → d.Free email user.id) ↔
      (user.isActive = true → d.Free (req.newEmail.getD user.email) user.id) := by
    rw [hemail, hactive]
    simp only [signInEmail_eq_some]
    exact ⟨fun hf hact => hf row.email ⟨hact, rfl⟩, fun hf email he => he.2 ▸ hf he.1⟩
  rw [hclear]
  cases hsigned with
  | known hnew =>
    refine hset.emails_update h0 (hfree.trans (forall_congr' fun hact => ?_))
    rw [hnew, Option.or_none]
    cases hreq : req.newEmail with
    | none =>
      refine iff_of_true (fun j hj => ?_) fun _ hnone => by cases hnone
      exact h0 j user.id user.email hj (hcurrent hact)
    | some email => simp
  | made email made hnew huser' =>
    have hkey : user.id = S.env.uuid4 d.auth.nextID := Option.some.inj (hctx.symm.trans huser')
    rw [← hkey, Function.update_idem] at hset
    refine hset.emails_update h0 (hfree.trans (forall_congr' fun hact => ?_))
    have huseremail : email = user.email := by
      have hnow := hcurrent hact
      rw [hkey, Function.update_self] at hnow
      exact Option.some.inj hnow
    rw [hnew, huseremail]
    cases req.newEmail <;> simp

theorem AccountEvent.emails {e : AccountEvent} (h : e.body S d = (.ok (), d')) : Emails S d' (e.Clear S d) := by
  cases e with
  | signup now hex req =>
    obtain ⟨r, d₁, hm, hpure⟩ := Txn.bind_eq_ok.1 h
    obtain ⟨-, rfl⟩ := Txn.pure_eq_ok.1 hpure
    exact emails_signup hinj hk h0 hm
  | inviteUser now token credentials req =>
    obtain ⟨r, d₁, hm, hpure⟩ := Txn.bind_eq_ok.1 h
    obtain ⟨-, rfl⟩ := Txn.pure_eq_ok.1 hpure
    exact emails_inviteUser hinj hk h0 hm
  | updateProfile now credentials req => exact emails_updateProfile hinj hk h0 h
  | authenticate now credentials =>
    obtain ⟨ctx, db, hauth, hpure⟩ := lift_bind_eq_ok.1 h
    obtain ⟨-, rfl⟩ := Txn.pure_eq_ok.1 hpure
    obtain ⟨a, hsigned, hlisted⟩ := getAuthContext_signedIn hinj hk hauth
    exact hsigned.emails h0 hlisted
  | provision e => exact Event.emails hinj hk h0 h

end

/-! ### Histories -/

/-- A request that goes through keeps the e-mails unshared exactly if it is clear. -/
theorem accountStep_iff {S : Services} {d d' : Directory} {e : AccountEvent}
    (hinj : Function.Injective S.env.uuid4) (hk : WellKeyed S.env d) (h0 : EmailsUnshared d)
    (h : accountStep S d e = some d') :
    WellKeyed S.env d' ∧ (EmailsUnshared d' ↔ (e.Accepted S d → e.Clear S d)) := by
  obtain rfl := Option.some.inj h
  rcases Txn.exec_state_cases (e.body S) d with ⟨u, hok⟩ | ⟨hsame, hraises⟩
  · have hemails := AccountEvent.emails hinj hk (hk.unshared_iff.1 h0) hok
    exact ⟨hemails.keyed, hemails.unshared.trans ⟨fun hc _ => hc, fun hc => hc ⟨_, hok⟩⟩⟩
  · rw [hsame]
    refine ⟨hk, iff_of_true h0 ?_⟩
    rintro ⟨t, hok⟩
    exact absurd hok (hraises () t)

/-- From any directory with sound keys and unshared e-mails, the e-mails stay unshared over a history exactly if the
e-mail that a request of it gives an active user is always free. -/
theorem emailsUnshared_iff {S : Services} {d : Directory} (hinj : Function.Injective S.env.uuid4)
    (hk : WellKeyed S.env d) (h0 : EmailsUnshared d) (events : List AccountEvent) :
    Runs.Always (accountStep S) EmailsUnshared d events ↔
      Runs.Along (accountStep S) (fun d e => e.Accepted S d → e.Clear S d) d events := by
  refine Runs.always_iff_along_of_good (fun d e d' hk h0 h => ?_) hk h0
  obtain ⟨hk', hiff⟩ := accountStep_iff hinj hk h0 h
  exact ⟨fun hclear => ⟨hk', hiff.2 hclear⟩, hiff.1⟩

/-! ### Two tenants from nothing -/

/-- Every token is that of the administrator of the second tenant. -/
def twoTenants : Services where
  env :=
    { Auth.plainEnv with
      unverifiedClaims := fun _ => some [("iss", .str "https://app.dgraph.ai"), ("auth_type", .str "local")]
      decodeLocal := fun _ _ _ => some
        [("iss", .str "https://app.dgraph.ai"), ("sub", .str "iiii"), ("email", .str "bob@other.com"),
          ("tenant_id", .str "iii"), ("plan", .str "starter"), ("auth_type", .str "local"), ("iat", .num 0),
          ("exp", .num 86400)]
      loadPermissions := fun _ _ _ => (["admin"], ["admin:*"]) }
  lower s := s
  strip s := s
  isZero _ := false
  isOne _ := false
  tokenUrlsafe _ := ""
  saml := none

def emptyDirectory : Directory := ⟨Auth.emptyDb, fun _ => none, [], fun _ => none, [], []⟩

def signups : List AccountEvent :=
  [.signup 0 "" ⟨"ann@acme.com", "Secret123", "Ann", none, "starter"⟩,
    .signup 0 "" ⟨"bob@other.com", "Secret456", "Bob", none, "starter"⟩]

/-- Ann, who has a tenant of her own, takes an invitation to Bob's. -/
def secondTenant : List AccountEvent :=
  signups ++ [.inviteUser 0 "invite" (some "token") ⟨"ann@acme.com", "analyst"⟩,
    .provision (.acceptInvite 1000000 ⟨"invite", "Secret789", "Ann"⟩)]

theorem wellKeyed_empty (S : Services) : WellKeyed S.env emptyDirectory where
  users := List.nodup_nil
  sessions _ _ h := by cases h
  keys _ h := by cases h
  fresh _ _ := ⟨rfl, fun _ h => by cases h⟩

theorem invited_email_shared : ¬ Runs.Always (accountStep twoTenants) EmailsUnshared emptyDirectory secondTenant := by
  intro h
  have hlast := h secondTenant _ (List.prefix_refl _) rfl "ann@acme.com"
  revert hlast
  decide

theorem signups_unshared : Runs.Always (accountStep twoTenants) EmailsUnshared emptyDirectory signups := by
  refine (emailsUnshared_iff (fun _ _ h => Auth.fresh_ids h) (wellKeyed_empty twoTenants) (fun _ => ?_) signups).2 ?_
  · simp [emptyDirectory, Auth.Db.activeUsers, Auth.emptyDb]
  · exact fun _ _ => ⟨fun _ => trivial, fun _ _ => ⟨fun _ => trivial, trivial⟩⟩

end Dgraphai.Provisioning
