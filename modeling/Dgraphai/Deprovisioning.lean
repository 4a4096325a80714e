import Dgraphai.ProvisioningEffects

/-!
# Deprovisioned users hold no credentials

Over a history of requests: inactive users have no unrevoked session and no active API key, and one becomes active
again only by a SCIM request that says so. Both hold throughout exactly if every request that goes through is careful
about the user it is for (`deprovisioned_iff`); only `patch_scim_user` revokes what a deactivated user holds, and
`saml_acs` activates whoever signs in.
-/

namespace Dgraphai.Provisioning

open Auth (Uuid Time HttpError User UserInactive)

/-- The request says that the user is to be active; no endpoint but SCIM has a way to. -/
def Event.Activates (S : Services) : Event → Uuid → Prop
  | .replaceScimUser _ _ userID _ body, id =>
    S.env.parseUuid userID = some id ∧ ∃ j, Json.field? body "active" = some j ∧ j.truthy S.isZero = true
  | .patchScimUser _ _ userID _ body, id =>
    S.env.parseUuid userID = some id ∧ ∃ ops, operations body = some ops ∧ SaysActive S ops
  | _, _ => False

/-- What a request has to be careful about: a user it deactivates without revoking anything holds no credential, a
user it activates without saying so is active, and a user it makes a key for is not inactive. -/
def Event.Careful (S : Services) (d : Directory) : Event → Prop
  | .replaceScimUser now tenantID userID authorization body =>
    ∀ user d₁, scimUser S now tenantID userID authorization d = (.ok user, d₁) →
      ((Json.getD body "active" (.bool true)).truthy S.isZero = false → ¬ d.Holds user.id) ∧
        (Json.field? body "active" = none → user.isActive = true)
  | .patchScimUser now tenantID userID authorization body =>
    ∀ user d₁ ops, scimUser S now tenantID userID authorization d = (.ok user, d₁) → operations body = some ops →
      (lastActive S (.bool user.isActive) ops).truthy S.isZero = true → user.isActive = true ∨ SaysActive S ops
  | .deleteScimUser now tenantID userID authorization =>
    ∀ tenant d₁ id, getScimTenant S now tenantID authorization d = (.ok tenant, d₁) →
      S.env.parseUuid userID = some id → (∃ u ∈ d.auth.users, u.id = id ∧ u.tenantID = tenant) → ¬ d.Holds id
  | .removeUser now credentials userID =>
    ∀ ctx db id, Auth.getAuthContext S.env now credentials d.auth = (.ok ctx, db) → S.env.parseUuid userID = some id →
      (∃ u ∈ d.auth.users, u.id = id ∧ u.tenantID = ctx.tenantID) → ¬ d.Holds id
  | .samlAcs _ tenantSlug form =>
    ∀ identity d₁, samlIdentity S tenantSlug form d = (.ok identity, d₁) →
      ∀ u ∈ d.usersByEmail identity.email identity.tenantID, u.isActive = true
  | .createAPIKey now credentials _ =>
    ∀ ctx db id, Auth.getAuthContext S.env now credentials d.auth = (.ok ctx, db) → ctx.userID = some id →
      ¬ UserInactive d.auth id
  | .createScimUser .. | .acceptInvite .. | .login .. => True

/-- The requests with which an administrator or the identity provider deactivates users. -/
def Event.Deactivates : Event → Prop
  | .createScimUser .. | .replaceScimUser .. | .patchScimUser .. | .deleteScimUser .. | .removeUser .. => True
  | .samlAcs .. | .acceptInvite .. | .login .. | .createAPIKey .. => False

/-- The request goes through. -/
def Event.Accepted (S : Services) (d : Directory) (e : Event) : Prop := ∃ d', e.body S d = (.ok (), d')

/-- Users whom the request makes active again are users it says are to be active. -/
def Event.Reinstates (S : Services) (d : Directory) (e : Event) : Prop :=
  ∀ d', step S d e = some d' → ∀ id, Reinstated d d' id → e.Activates S id

/-! ### One request -/

theorem samlIdentity_frame {S : Services} {d d' : Directory} {tenantSlug : String} {form : SAMLForm}
    {identity : Identity} (h : samlIdentity S tenantSlug form d = (.ok identity, d')) : d = d' := by
  unfold samlIdentity at h
  obtain ⟨process, -, h⟩ := Txn.ofOption_bind_eq_ok.1 h
  obtain ⟨⟨tenant, config⟩, d₁, hconfig, h⟩ := Txn.bind_eq_ok.1 h
  simp only [Txn.ofOption_bind_eq_ok, Txn.raiseIf_bind_eq_ok, Txn.pure_eq_ok] at h
  obtain ⟨answer, -, -, -, email, -, -, rfl⟩ := h
  unfold getSamlConfig at hconfig
  simp only [Txn.read_bind_eq_ok, Txn.ofOption_bind_eq_ok, scalar_bind_eq_ok, Txn.pure_eq_ok] at hconfig
  obtain ⟨-, -, -, -, -, -, -, rfl⟩ := hconfig
  rfl

section
variable {S : Services} {d d' : Directory} {now : Time} {tenantID userID tenantSlug : String}
  {authorization credentials : Option String} {body : Json.Fields} {off on cleared gains : Uuid → Prop}

/-- What a request that goes through leaves: a good state by good means exactly if it was careful. -/
structure Event.Outcome (S : Services) (d d' : Directory) (e : Event) : Prop where
  keyed : WellKeyed S.env d'
  inactive : ∀ id, UserInactive d'.auth id → UserInactive d.auth id ∨ e.Deactivates
  careful : (NoCredentials d' ∧ ∀ id, Reinstated d d' id → e.Activates S id) ↔ e.Careful S d

theorem Effect.outcome {e : Event} (h : Effect S.env d d' off on cleared gains) (h0 : NoCredentials d)
    (hoff : ∀ id, off id → e.Deactivates)
    (hcareful : (∀ id, off id → ¬ (d.Holds id ∧ ¬ cleared id ∨ gains id)) ∧
        (∀ id, UserInactive d.auth id → gains id → on id) ∧
        (∀ id, UserInactive d.auth id → on id → off id ∨ e.Activates S id) ↔ e.Careful S d) :
    e.Outcome S d d' :=
  ⟨h.keyed, fun id hin => ((h.inactive id).1 hin).imp And.left (hoff id), (h.careful_iff h0 _).trans hcareful⟩

variable (hinj : Function.Injective S.env.uuid4) (hk : WellKeyed S.env d) (h0 : NoCredentials d)

/-- A request that only adds a user record. -/
theorem Effect.outcome_of_addUser {e : Event} {row : User} (h : Effect S.env d d'
    (fun id => id = row.id ∧ row.isActive = false) (fun _ => False) (fun _ => False) (fun _ => False))
    (hk : WellKeyed S.env d) (h0 : NoCredentials d) (hid : row.id = S.env.uuid4 d.auth.nextID)
    (hoff : row.isActive = false → e.Deactivates) (htrue : e.Careful S d) : e.Outcome S d d' := by
  refine h.outcome h0 (fun id hid => hoff hid.2) (iff_of_true ⟨?_, fun _ _ hfalse => hfalse.elim, fun _ _ hfalse => hfalse.elim⟩ htrue)
  rintro id ⟨rfl, -⟩ (⟨hholds, -⟩ | hfalse)
  · exact hk.not_holds (hid ▸ hk.not_known (Nat.le_refl _)) hholds
  · exact hfalse

include hk h0

theorem outcome_replaceScimUser {row : User}
    (h : replaceScimUser S now tenantID userID authorization body d = (.ok row, d')) :
    (Event.replaceScimUser now tenantID userID authorization body).Outcome S d d' := by
  unfold replaceScimUser at h
  obtain ⟨user, d₁, huser, h⟩ := Txn.bind_eq_ok.1 h
  obtain ⟨edit, hedit, h⟩ := Txn.ofOption_bind_eq_ok.1 h
  obtain ⟨hrow, -, rfl⟩ := flushUser_eq_ok.1 h
  obtain ⟨hid, -, hactive⟩ := Edit.row_spec hrow
  obtain ⟨hparse, hmem, configs, rfl⟩ := scimUser_spec huser
  have hidle : Idle S.env d { d with scimConfigs := configs } := .of_eq rfl rfl rfl rfl
  have htruthy : (Json.getD body "active" (.bool true)).truthy S.isZero = row.isActive := by
    obtain ⟨email, -, heq⟩ := Option.bind_eq_some_iff.1 hedit
    rw [← Option.some.inj heq] at hactive
    exact truthy_of_asActive hactive
  have hknown : Directory.Known { d with scimConfigs := configs } row.id := ⟨user, hmem, hid.symm⟩
  have heffect := (Effect.setUser (hidle.keyed hk) hknown).of_idle hidle
  refine heffect.outcome h0 (fun _ _ => trivial) ?_
  have hcareful : (Event.replaceScimUser now tenantID userID authorization body).Careful S d ↔
      (row.isActive = false → ¬ d.Holds user.id) ∧ (Json.field? body "active" = none → user.isActive = true) := by
    rw [← htruthy]
    constructor
    · intro hc; exact hc user _ huser
    · rintro hc user' d₁ huser'
      obtain ⟨rfl, -⟩ := Txn.ok_unique huser huser'
      exact hc
  rw [hcareful, hid]
  constructor
  · rintro ⟨hoff, -, hon⟩
    refine ⟨fun hrow hholds => hoff user.id ⟨rfl, hrow⟩ (.inl ⟨hholds, id⟩), fun hnone => ?_⟩
    by_contra hact
    have htrue : row.isActive = true := by
      rw [← htruthy, Json.getD, hnone]
      rfl
    rcases hon user.id ⟨user, hmem, rfl, Bool.eq_false_iff.2 hact⟩ ⟨rfl, htrue⟩ with ⟨-, hfalse⟩ | ⟨-, j, hj, -⟩
    · rw [htrue] at hfalse
      cases hfalse
    · rw [hnone] at hj
      cases hj
  · rintro ⟨hoff, hon⟩
    refine ⟨?_, fun _ _ hfalse => hfalse.elim, ?_⟩
    · rintro id ⟨rfl, hrow⟩ (⟨hholds, -⟩ | hfalse)
      · exact hoff hrow hholds
      · exact hfalse
    · rintro id hin ⟨rfl, htrue⟩
      cases hfield : Json.field? body "active" with
      | none =>
        have hno := (hk.active_iff ⟨user, hmem, rfl⟩).1 ⟨user, hmem, rfl, hon hfield⟩
        exact absurd hin hno
      | some j =>
        rw [Json.getD, hfield, Option.getD_some] at htruthy
        exact .inr ⟨hparse, j, hfield, htruthy.trans htrue⟩

theorem outcome_patchScimUser {row : User}
    (h : patchScimUser S now tenantID userID authorization body d = (.ok row, d')) :
    (Event.patchScimUser now tenantID userID authorization body).Outcome S d d' := by
  unfold patchScimUser at h
  obtain ⟨user, d₁, huser, h⟩ := Txn.bind_eq_ok.1 h
  obtain ⟨ops, hops, h⟩ := Txn.ofOption_bind_eq_ok.1 h
  obtain ⟨edit, d₂, hpatch, h⟩ := Txn.bind_eq_ok.1 h
  obtain ⟨hrow, -, rfl⟩ := flushUser_eq_ok.1 h
  obtain ⟨hid, -, hactive⟩ := Edit.row_spec hrow
  obtain ⟨hparse, hmem, configs, rfl⟩ := scimUser_spec huser
  have hidle : Idle S.env d { d with scimConfigs := configs } := .of_eq rfl rfl rfl rfl
  obtain ⟨hlast, hpatched⟩ := patchOps_spec (hidle.keyed hk) ⟨user, hmem, rfl⟩ hpatch
  have htruthy : (lastActive S (.bool user.isActive) ops).truthy S.isZero = row.isActive := by
    rw [hlast] at hactive
    exact truthy_of_asActive hactive
  have hknown : d₂.Known row.id := hid ▸ hpatched.known _ ⟨user, hmem, rfl⟩
  have hset := Effect.setUser hpatched.keyed hknown
  rw [hid] at hset
  have heffect : Effect S.env d (d₂.setUser row) (fun id => id = user.id ∧ row.isActive = false)
      (fun id => id = user.id ∧ row.isActive = true)
      (fun id => (∃ op ∈ ops, ∃ j, assigned S op = some j ∧ j.truthy S.isZero = false) ∧ id = user.id)
      (fun _ => False) := by
    refine ⟨fun id => ?_, fun id => ?_, fun id hknown => hset.known id (hpatched.known id hknown), hset.keyed⟩
    · rw [hset.inactive]
      by_cases hne : id = user.id
      · cases hrow : row.isActive <;> simp [hne]
      · rw [hpatched.inactive id hne, hidle.inactive]
    · rw [hset.holds, hpatched.holds, hidle.holds]
      simp
  refine heffect.outcome h0 (fun _ _ => trivial) ?_
  have hcareful : (Event.patchScimUser now tenantID userID authorization body).Careful S d ↔
      (row.isActive = true → user.isActive = true ∨ SaysActive S ops) := by
    rw [← htruthy]
    constructor
    · intro hc; exact hc user _ ops huser hops
    · rintro hc user' d₁ ops' huser' hops'
      obtain ⟨rfl, -⟩ := Txn.ok_unique huser huser'
      obtain rfl := Option.some.inj (hops.symm.trans hops')
      exact hc
  rw [hcareful]
  constructor
  · rintro ⟨-, -, hon⟩ htrue
    by_cases hact : user.isActive = true
    · exact .inl hact
    rcases hon user.id ⟨user, hmem, rfl, Bool.eq_false_iff.2 hact⟩ ⟨rfl, htrue⟩ with ⟨-, hfalse⟩ | ⟨-, ops', hops', hsays⟩
    · rw [htrue] at hfalse
      cases hfalse
    · obtain rfl := Option.some.inj (hops.symm.trans hops')
      exact .inr hsays
  · intro hon
    refine ⟨?_, fun _ _ hfalse => hfalse.elim, ?_⟩
    · rintro id ⟨rfl, hrow⟩ (⟨hholds, hclear⟩ | hfalse)
      · -- the last operation on `active` has revoked everything, or there was none and the user was inactive
        rw [hrow] at htruthy
        rcases lastActive_cases (S := S) (.bool user.isActive) ops with hsame | ⟨op, hop, hassigned⟩
        · rw [hsame] at htruthy
          exact h0 user.id ⟨user, hmem, rfl, htruthy⟩ hholds
        · exact hclear ⟨⟨op, hop, _, hassigned, htruthy⟩, rfl⟩
      · exact hfalse
    · rintro id hin ⟨rfl, htrue⟩
      rcases hon htrue with hact | hsays
      · exact absurd hin ((hk.active_iff ⟨user, hmem, rfl⟩).1 ⟨user, hmem, rfl, hact⟩)
      · exact .inr ⟨hparse, ops, hops, hsays⟩

theorem outcome_deleteScimUser {u : Unit} (h : deleteScimUser S now tenantID userID authorization d = (.ok u, d')) :
    (Event.deleteScimUser now tenantID userID authorization).Outcome S d d' := by
  unfold deleteScimUser at h
  obtain ⟨tenant, d₁, htenant, h⟩ := Txn.bind_eq_ok.1 h
  obtain ⟨id, hparse, h⟩ := Txn.ofOption_bind_eq_ok.1 h
  obtain ⟨configs, rfl⟩ := getScimTenant_frame htenant
  have hidle := getScimTenant_idle (E := S.env) htenant
  refine ((Effect.deactivate (hidle.keyed hk) h).of_idle hidle).outcome h0 (fun _ _ => trivial) ?_
  constructor
  · rintro ⟨hoff, -⟩ tenant' d₁ id' htenant' hparse' hmem hholds
    obtain ⟨rfl, -⟩ := Txn.ok_unique htenant htenant'
    obtain rfl := Option.some.inj (hparse.symm.trans hparse')
    exact hoff id ⟨rfl, hmem⟩ (.inl ⟨hholds, fun hfalse => hfalse⟩)
  · intro hcareful
    refine ⟨?_, fun _ _ hfalse => hfalse.elim, fun _ _ hfalse => hfalse.elim⟩
    rintro _ ⟨rfl, hmem⟩ (⟨hholds, -⟩ | hfalse)
    · exact hcareful tenant _ _ htenant hparse hmem hholds
    · exact hfalse

include hinj

theorem outcome_createScimUser {row : User} (h : createScimUser S now tenantID authorization body d = (.ok row, d')) :
    (Event.createScimUser now tenantID authorization body).Outcome S d d' := by
  unfold createScimUser at h
  obtain ⟨tenant, d₁, htenant, h⟩ := Txn.bind_eq_ok.1 h
  simp only [Txn.ofOption_bind_eq_ok, Txn.raiseIf_bind_eq_ok, Txn.read_bind_eq_ok, scalar_bind_eq_ok] at h
  obtain ⟨email, -, -, text, -, o, -, -, role, -, h⟩ := h
  obtain ⟨configs, rfl⟩ := getScimTenant_frame htenant
  have hidle := getScimTenant_idle (E := S.env) htenant
  obtain ⟨hid, -, rfl⟩ := insertUser_spec h
  exact ((Effect.addUser hinj (hidle.keyed hk) hid).of_idle hidle).outcome_of_addUser hk h0 hid (fun _ => trivial) trivial

theorem outcome_acceptInvite {req : AcceptInviteRequest} {r : AcceptInviteResponse}
    (h : acceptInvite S now req d = (.ok r, d')) : (Event.acceptInvite now req).Outcome S d d' := by
  unfold acceptInvite at h
  simp only [Txn.read_bind_eq_ok, Txn.ofOption_bind_eq_ok, lift_bind_eq_ok] at h
  obtain ⟨invite, -, u, db, hvalid, h⟩ := h
  obtain rfl := Auth.validatePassword_frame hvalid
  obtain ⟨row, d₁, hinsert, h⟩ := Txn.bind_eq_ok.1 h
  simp only [lift_bind_eq_ok, Txn.write_bind_eq_ok, Txn.read_bind_eq_ok, Txn.pure_eq_ok] at h
  obtain ⟨u, db, hdb, -, rfl⟩ := h
  obtain rfl := Txn.write_eq_ok.1 hdb
  obtain ⟨hid, hactive, rfl⟩ := insertUser_spec hinsert
  have htrue : row.isActive = true := (Option.some.inj hactive).symm
  refine Effect.outcome_of_addUser (e := .acceptInvite now req) ((Effect.addUser hinj hk hid).then_idle ?_) hk h0 hid
    (fun hfalse => by rw [htrue] at hfalse; cases hfalse) trivial
  exact .of_eq rfl rfl rfl rfl

theorem outcome_login {req : Auth.LoginRequest} {r : Auth.LoginResponse} {db : Auth.Db}
    (h : Auth.login S.env now req d.auth = (.ok r, db)) :
    (Event.login now req).Outcome S d { d with auth := db } := by
  obtain ⟨user, hmem, hactive, heffect⟩ := Effect.login hinj hk h
  refine heffect.outcome h0 (fun _ hfalse => hfalse.elim) (iff_of_true ⟨fun _ hfalse => hfalse.elim, ?_, fun _ _ hfalse => hfalse.elim⟩ trivial)
  rintro id hin rfl
  exact (hk.active_iff ⟨user, hmem, rfl⟩).1 ⟨user, hmem, rfl, hactive⟩ hin

theorem outcome_removeUser {u : Unit} (h : removeUser S now credentials userID d = (.ok u, d')) :
    (Event.removeUser now credentials userID).Outcome S d d' := by
  unfold removeUser at h
  simp only [lift_bind_eq_ok, Txn.raiseIf_bind_eq_ok, Txn.ofOption_bind_eq_ok] at h
  obtain ⟨ctx, db, hauth, -, -, id, hparse, h⟩ := h
  have hidle := getAuthContext_idle hinj hauth hk
  refine ((Effect.deactivate (hidle.keyed hk) h).of_idle hidle).outcome h0 (fun _ _ => trivial) ?_
  -- a user the token check has just made holds nothing
  have hrows : (∃ u ∈ db.users, u.id = id ∧ u.tenantID = ctx.tenantID) → d.Holds id →
      ∃ u ∈ d.auth.users, u.id = id ∧ u.tenantID = ctx.tenantID := by
    rintro ⟨u, hmem, rfl, htenant⟩ hholds
    rcases getAuthContext_users hauth with ⟨row, hid, hu, -⟩ | ⟨f, hid, hten, hu, -⟩
    · rw [hu] at hmem
      rcases List.mem_append.1 hmem with hmem | hmem
      · exact ⟨u, hmem, rfl, htenant⟩
      · rw [List.mem_singleton.1 hmem, hid] at hholds
        exact absurd hholds (hk.not_holds (hk.not_known (Nat.le_refl _)))
    · rw [hu] at hmem
      obtain ⟨v, hv, rfl⟩ := List.mem_map.1 hmem
      exact ⟨v, hv, (hid v).symm, (hten v).symm.trans htenant⟩
  have hkept : (∃ u ∈ d.auth.users, u.id = id ∧ u.tenantID = ctx.tenantID) →
      ∃ u ∈ db.users, u.id = id ∧ u.tenantID = ctx.tenantID := by
    rintro ⟨u, hmem, rfl, htenant⟩
    rcases getAuthContext_users hauth with ⟨row, -, hu, -⟩ | ⟨f, hid, hten, hu, -⟩
    · exact ⟨u, hu ▸ List.mem_append_left _ hmem, rfl, htenant⟩
    · exact ⟨f u, hu ▸ List.mem_map_of_mem hmem, hid u, (hten u).trans htenant⟩
  constructor
  · rintro ⟨hoff, -⟩ ctx' db' id' hauth' hparse' hmem hholds
    obtain ⟨rfl, -⟩ := Txn.ok_unique hauth hauth'
    obtain rfl := Option.some.inj (hparse.symm.trans hparse')
    exact hoff id ⟨rfl, hkept hmem⟩ (.inl ⟨hholds, fun hfalse => hfalse⟩)
  · intro hcareful
    refine ⟨?_, fun _ _ hfalse => hfalse.elim, fun _ _ hfalse => hfalse.elim⟩
    rintro _ ⟨rfl, hmem⟩ (⟨hholds, -⟩ | hfalse)
    · exact hcareful ctx db _ hauth hparse (hrows hmem hholds) hholds
    · exact hfalse

theorem outcome_createAPIKey {req : CreateAPIKeyRequest} {r : CreatedAPIKey}
    (h : createAPIKey S now credentials req d = (.ok r, d')) :
    (Event.createAPIKey now credentials req).Outcome S d d' := by
  unfold createAPIKey at h
  simp only [lift_bind_eq_ok, Txn.read_bind_eq_ok, Txn.ofOption_bind_eq_ok, Txn.raiseIf_bind_eq_ok,
    Txn.write_bind_eq_ok, Txn.pure_eq_ok] at h
  obtain ⟨ctx, db, hauth, ⟨rawKey, key⟩, hmade, -, -, rfl⟩ := h
  simp only [newAPIKey, Option.bind_eq_bind, Option.bind_eq_some_iff, Option.pure_def, Option.some.injEq,
    Prod.mk.injEq] at hmade
  obtain ⟨expiresAt, -, id, hid, user, huser, -, rfl⟩ := hmade
  have hidle := getAuthContext_idle hinj hauth hk
  have hknown : Directory.Known { d with auth := db } id := by
    have huser : (db.users.find? fun u => u.id = id) = some user := huser
    have huid := List.find?_some huser
    exact ⟨user, List.mem_of_find?_eq_some huser, of_decide_eq_true huid⟩
  refine ((Effect.addKey (hidle.keyed hk) hknown rfl).of_idle hidle).outcome h0 (fun _ hfalse => hfalse.elim) ?_
  constructor
  · rintro ⟨-, hgain, -⟩ ctx' db' id' hauth' hid' hin
    obtain ⟨rfl, -⟩ := Txn.ok_unique hauth hauth'
    obtain rfl := Option.some.inj (hid.symm.trans hid')
    exact hgain id hin rfl
  · intro hcareful
    refine ⟨fun _ hfalse => hfalse.elim, ?_, fun _ _ hfalse => hfalse.elim⟩
    rintro _ hin rfl
    exact hcareful ctx db _ hauth hid hin

theorem outcome_samlAcs {form : SAMLForm} {token : String} (h : samlAcs S now tenantSlug form d = (.ok token, d')) :
    (Event.samlAcs now tenantSlug form).Outcome S d d' := by
  unfold samlAcs at h
  obtain ⟨identity, d₁, hidentity, h⟩ := Txn.bind_eq_ok.1 h
  have hsame : d = d₁ := samlIdentity_frame hidentity
  subst hsame
  simp only [Txn.read_bind_eq_ok, scalar_bind_eq_ok] at h
  obtain ⟨o, hrows, h⟩ := h
  obtain ⟨row, d₂, hprov, h⟩ := Txn.bind_eq_ok.1 h
  rw [Txn.read_bind_eq_ok, Txn.pure_eq_ok] at h
  obtain ⟨-, rfl⟩ := h
  have hcareful : (Event.samlAcs now tenantSlug form).Careful S d ↔
      ∀ u ∈ d.usersByEmail identity.email identity.tenantID, u.isActive = true := by
    constructor
    · intro hc; exact hc identity d hidentity
    · rintro hc identity' d₁ hidentity'
      obtain ⟨rfl, -⟩ := Txn.ok_unique hidentity hidentity'
      exact hc
  cases o with
  | none =>
    obtain ⟨hid, hactive, rfl⟩ := insertUser_spec hprov
    have htrue : row.isActive = true := (Option.some.inj hactive).symm
    refine (Effect.addUser hinj hk hid).outcome_of_addUser hk h0 hid
      (fun hfalse => by rw [htrue] at hfalse; cases hfalse) (hcareful.2 ?_)
    rw [hrows]
    simp
  | some user =>
    have hmem : user ∈ d.usersByEmail identity.email identity.tenantID := hrows ▸ List.mem_singleton_self user
    have hmem := List.mem_of_mem_filter hmem
    obtain ⟨hrow, -, rfl⟩ := flushUser_eq_ok.1 hprov
    obtain ⟨hid, -, hactive⟩ := Edit.row_spec hrow
    have htrue : row.isActive = true := (Option.some.inj hactive).symm
    have hknown : d.Known row.id := ⟨user, hmem, hid.symm⟩
    refine (Effect.setUser hk hknown).outcome h0 (fun id hoff => by rw [htrue] at hoff; cases hoff.2) ?_
    rw [hcareful, hrows]
    simp only [Option.toList_some, List.mem_singleton, forall_eq, htrue, Bool.true_eq_false, and_false, and_true,
      false_imp_iff, implies_true, true_and, false_or, Event.Activates, hid]
    constructor
    · intro hon
      by_contra hact
      exact hon user.id ⟨user, hmem, rfl, Bool.eq_false_iff.2 hact⟩ rfl
    · rintro hact _ hin rfl
      exact (hk.active_iff ⟨user, hmem, rfl⟩).1 ⟨user, hmem, rfl, hact⟩ hin

/-- Every request that goes through. -/
theorem Event.outcome {e : Event} (h : e.body S d = (.ok (), d')) : e.Outcome S d d' := by
  cases e with
  | createScimUser now tenantID authorization body =>
    obtain ⟨row, d₁, hm, hpure⟩ := Txn.bind_eq_ok.1 h
    obtain ⟨-, rfl⟩ := Txn.pure_eq_ok.1 hpure
    exact outcome_createScimUser hinj hk h0 hm
  | replaceScimUser now tenantID userID authorization body =>
    obtain ⟨row, d₁, hm, hpure⟩ := Txn.bind_eq_ok.1 h
    obtain ⟨-, rfl⟩ := Txn.pure_eq_ok.1 hpure
    exact outcome_replaceScimUser hk h0 hm
  | patchScimUser now tenantID userID authorization body =>
    obtain ⟨row, d₁, hm, hpure⟩ := Txn.bind_eq_ok.1 h
    obtain ⟨-, rfl⟩ := Txn.pure_eq_ok.1 hpure
    exact outcome_patchScimUser hk h0 hm
  | deleteScimUser now tenantID userID authorization => exact outcome_deleteScimUser hk h0 h
  | removeUser now credentials userID => exact outcome_removeUser hinj hk h0 h
  | samlAcs now tenantSlug form =>
    obtain ⟨token, d₁, hm, hpure⟩ := Txn.bind_eq_ok.1 h
    obtain ⟨-, rfl⟩ := Txn.pure_eq_ok.1 hpure
    exact outcome_samlAcs hinj hk h0 hm
  | acceptInvite now req =>
    obtain ⟨r, d₁, hm, hpure⟩ := Txn.bind_eq_ok.1 h
    obtain ⟨-, rfl⟩ := Txn.pure_eq_ok.1 hpure
    exact outcome_acceptInvite hinj hk h0 hm
  | login now req =>
    obtain ⟨r, db, hm, hpure⟩ := lift_bind_eq_ok.1 h
    obtain ⟨-, rfl⟩ := Txn.pure_eq_ok.1 hpure
    exact outcome_login hinj hk h0 hm
  | createAPIKey now credentials req =>
    obtain ⟨key, d₁, hm, hpure⟩ := Txn.bind_eq_ok.1 h
    obtain ⟨-, rfl⟩ := Txn.pure_eq_ok.1 hpure
    exact outcome_createAPIKey hinj hk h0 hm

end

/-! ### Histories -/

section
variable {S : Services} {d d' : Directory}

/-- A request goes through or leaves the directory as it was. -/
theorem step_cases {e : Event} (h : step S d e = some d') :
    e.body S d = (.ok (), d') ∨ d' = d ∧ ¬ e.Accepted S d := by
  obtain rfl := Option.some.inj h
  rcases Txn.exec_state_cases (e.body S) d with ⟨u, hok⟩ | ⟨hsame, hraises⟩
  · exact .inl hok
  · refine .inr ⟨hsame, ?_⟩
    rintro ⟨t, hok⟩
    exact hraises () t hok

/-- Inactive users hold no credentials in any state of the history, and whoever is made active again in it is made so
by a request that says so. -/
def Deprovisioned (S : Services) (d : Directory) (events : List Event) : Prop :=
  Runs.Always (step S) NoCredentials d events ∧ Runs.Along (step S) (fun d e => e.Reinstates S d) d events

variable (hinj : Function.Injective S.env.uuid4)
include hinj

theorem step_iff {e : Event} (hk : WellKeyed S.env d) (h0 : NoCredentials d) (h : step S d e = some d') :
    WellKeyed S.env d' ∧
      (NoCredentials d' ∧ e.Reinstates S d ↔ (e.Accepted S d → e.Careful S d)) := by
  have hre : e.Reinstates S d ↔ ∀ id, Reinstated d d' id → e.Activates S id := by
    refine ⟨fun hre => hre d' h, fun hre d₁ h₁ => ?_⟩
    obtain rfl := Option.some.inj (h.symm.trans h₁)
    exact hre
  rw [hre]
  rcases step_cases h with hok | ⟨rfl, hno⟩
  · have hout := Event.outcome hinj hk h0 hok
    refine ⟨hout.keyed, hout.careful.trans ⟨fun hc _ => hc, fun hc => hc ⟨d', hok⟩⟩⟩
  · refine ⟨hk, iff_of_true ⟨h0, fun id hid => ?_⟩ fun hyes => absurd hyes hno⟩
    exact absurd hid.1 ((hk.active_iff (known_of_inactive hid.1)).1 hid.2)

/-- Whoever becomes inactive is deactivated by an administrator or by SCIM. -/
theorem inactive_of_step {e : Event} (hk : WellKeyed S.env d) (h0 : NoCredentials d) (h : step S d e = some d')
    {id : Uuid} (hin : UserInactive d'.auth id) : UserInactive d.auth id ∨ e.Deactivates := by
  rcases step_cases h with hok | ⟨rfl, -⟩
  · exact (Event.outcome hinj hk h0 hok).inactive id hin
  · exact .inl hin

/-- From any directory with sound keys in which inactive users hold nothing, deprovisioning holds over a history
exactly if each request of it that goes through is careful. -/
theorem deprovisioned_iff (hk : WellKeyed S.env d) (h0 : NoCredentials d) (events : List Event) :
    Deprovisioned S d events ↔ Runs.Along (step S) (fun d e => e.Accepted S d → e.Careful S d) d events :=
  Runs.always_and_along_iff (fun _ _ _ hk h0 h => step_iff hinj hk h0 h) hk h0

end

/-! ### A tenant with an administrator, an analyst and SAML -/

/-- Every token is the administrator's, and every SAML response the analyst's. -/
def sampleServices : Services where
  env := { Auth.tokenEnv with loadPermissions := fun _ _ _ => (["admin"], ["admin:*"]) }
  lower s := s
  strip s := s
  isZero _ := false
  isOne _ := false
  tokenUrlsafe _ := ""
  saml := some fun _ _ _ => some ⟨none, true, [("emailaddress", ["bob@acme.com"])], none⟩

def sampleDirectory : Directory where
  auth := { Auth.oneAccount with
    users := Auth.oneAccount.users ++ [⟨"u2", "t1", "bob@acme.com", "Bob", none, true, true, none⟩]
    credentials :=
      Function.update Auth.oneAccount.credentials "u2" (some ⟨"Secret456", none, none, none, none⟩) }
  slugs := Function.update (fun _ => none) "acme" (some "t1")
  apiKeys := []
  invites _ := none
  scimConfigs := [⟨"t1", "scim", true, none⟩]
  samlConfigs := [⟨"t1", "idp", "https://idp.acme.com", "", none, none, true⟩]

def analystSignsIn : Event := .login 0 ⟨"bob@acme.com", "Secret456", none, none, ""⟩

def analystRemoved : Event := .removeUser 1000000 (some "token") "u2"

/-- The session of a removed user stays open; and a removed user is active again after a SAML sign-in. -/
theorem removed_user_signed_in :
    ¬ Deprovisioned sampleServices sampleDirectory [analystSignsIn, analystRemoved] ∧
      ¬ Deprovisioned sampleServices sampleDirectory [analystRemoved, .samlAcs 2000000 "acme" ⟨none, none⟩] := by
  constructor
  · rintro ⟨hall, -⟩
    have hlast := hall [analystSignsIn, analystRemoved] _ (List.prefix_refl _) rfl
    refine hlast "u2" ⟨⟨"u2", "t1", "bob@acme.com", "Bob", none, false, true, none⟩, ?_, rfl, rfl⟩ ?_
    · exact List.mem_cons_of_mem _ List.mem_cons_self
    · exact .inl ⟨"i", _, rfl, rfl, rfl⟩
  · rintro ⟨-, hsteps⟩
    obtain ⟨-, hsteps⟩ := hsteps _ rfl
    obtain ⟨hre, -⟩ := hsteps _ rfl
    refine hre _ rfl "u2" ⟨⟨_, List.mem_cons_of_mem _ List.mem_cons_self, rfl, rfl⟩, ?_⟩
    exact ⟨_, List.mem_cons_of_mem _ List.mem_cons_self, rfl, rfl⟩

theorem wellKeyed_sample : WellKeyed sampleServices.env sampleDirectory where
  users := by decide
  sessions sid s h := by cases h
  keys k h := by cases h
  fresh n _ := by
    refine ⟨rfl, fun u hu heq => ?_⟩
    have htext := congrArg String.toList heq
    rcases List.mem_cons.1 hu with rfl | hu
    · simp [sampleServices, Auth.tokenEnv, Auth.plainEnv, List.replicate_succ] at htext
    · rw [List.mem_singleton.1 hu] at htext
      simp [sampleServices, Auth.tokenEnv, Auth.plainEnv, List.replicate_succ] at htext

/-- A SCIM PATCH deactivates a user who is signed in. -/
theorem deprovisioned_by_patch : Deprovisioned sampleServices sampleDirectory [analystSignsIn,
    .patchScimUser 1000000 "t1" "u2" (some "Bearer scim") [("Operations", .arr [.obj
      [("op", .str "replace"), ("path", .str "active"), ("value", .bool false)]])]] := by
  refine (deprovisioned_iff (fun _ _ h => Auth.fresh_ids h) wellKeyed_sample ?_ _).2 fun d _ =>
    ⟨fun _ => trivial, fun d' _ => ⟨fun _ user d₁ ops _ hops htruthy => ?_, trivial⟩⟩
  · rintro id ⟨u, hu, -, hact⟩
    rcases List.mem_cons.1 hu with rfl | hu
    · cases hact
    · rw [List.mem_singleton.1 hu] at hact
      cases hact
  · obtain rfl := Option.some.inj hops
    cases htruthy

end Dgraphai.Provisioning
