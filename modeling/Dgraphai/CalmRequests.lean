import Dgraphai.EmailOwners
import Dgraphai.MfaEnrollment

/-!
# What account requests leave alone

Most endpoints store no password and no token of a mail: they are `Calm`. `signup`, `accept_invite`, `change_password`
and `reset_password` are not, and have a lemma each that says what they store. No request removes a user, and users are
made under primary keys drawn for them.
-/

namespace Dgraphai.Auth

/-- The stored password of a user. -/
def Db.passwordHash (db : Db) (id : Uuid) : Option String := (db.credentials id).map (·.passwordHash)

/-- The users stay, and new ones are made under primary keys drawn since. -/
structure Grows (E : Env) (db db' : Db) : Prop where
  nextID : db.nextID ≤ db'.nextID
  kept : ∀ u ∈ db.users, ∃ u' ∈ db'.users, u'.id = u.id
  made : ∀ u' ∈ db'.users, (∃ u ∈ db.users, u.id = u'.id) ∨ ∃ n, db.nextID ≤ n ∧ n < db'.nextID ∧ u'.id = E.uuid4 n

structure Calm (E : Env) (db db' : Db) : Prop where
  resetTokens : db'.resetTokens = db.resetTokens
  passwords : db'.passwordHash = db.passwordHash
  grows : Grows E db db'

section
variable {E : Env} {pyotp : Pyotp} {now : Time} {db db' db₁ : Db} {credentials : Option String}

theorem Grows.refl : Grows E db db := ⟨le_rfl, fun u hu => ⟨u, hu, rfl⟩, fun u hu => .inl ⟨u, hu, rfl⟩⟩

theorem Grows.trans (h : Grows E db db₁) (h' : Grows E db₁ db') : Grows E db db' where
  nextID := h.nextID.trans h'.nextID
  kept u hu := by
    obtain ⟨u₁, hu₁, hid⟩ := h.kept u hu
    obtain ⟨u', hu', hid'⟩ := h'.kept u₁ hu₁
    exact ⟨u', hu', hid'.trans hid⟩
  made u' hu' := by
    rcases h'.made u' hu' with ⟨u₁, hu₁, hid⟩ | ⟨n, hle, hlt, hid⟩
    · rw [← hid]
      rcases h.made u₁ hu₁ with hold | ⟨n, hle, hlt, hn⟩
      · exact .inl hold
      · exact .inr ⟨n, hle, hlt.trans_le h'.nextID, hn⟩
    · exact .inr ⟨n, h.nextID.trans hle, hlt, hid⟩

/-- User rows rewritten in place. -/
theorem Grows.of_map {f : User → User} (hid : ∀ u, (f u).id = u.id) (hu : db'.users = db.users.map f)
    (hn : db.nextID ≤ db'.nextID) : Grows E db db' where
  nextID := hn
  kept u hmem := by
    have hmem' : f u ∈ db'.users := hu ▸ List.mem_map_of_mem hmem
    exact ⟨f u, hmem', hid u⟩
  made u' hmem := by
    rw [hu] at hmem
    obtain ⟨u, hold, rfl⟩ := List.mem_map.1 hmem
    exact .inl ⟨u, hold, (hid u).symm⟩

theorem Grows.of_eq (hu : db'.users = db.users) (hn : db.nextID ≤ db'.nextID) : Grows E db db' :=
  .of_map (fun _ => rfl) (hu.trans (List.map_id _).symm) hn

/-- One user row more. -/
theorem Grows.of_append {row : User} (hid : row.id = E.uuid4 db.nextID) (hu : db'.users = db.users ++ [row])
    (hn : db'.nextID = db.nextID + 1) : Grows E db db' where
  nextID := by omega
  kept u hmem := by
    have hmem' : u ∈ db'.users := hu ▸ List.mem_append_left _ hmem
    exact ⟨u, hmem', rfl⟩
  made u' hmem := by
    rw [hu] at hmem
    rcases List.mem_append.1 hmem with hmem | hmem
    · exact .inl ⟨u', hmem, rfl⟩
    · obtain rfl := List.mem_singleton.1 hmem
      exact .inr ⟨db.nextID, le_rfl, by omega, hid⟩

theorem Calm.refl : Calm E db db := ⟨rfl, rfl, .refl⟩

instance : Std.Refl (Calm E) := ⟨fun _ => .refl⟩

instance : IsTrans Db (Calm E) where
  trans _ _ _ h h' :=
    ⟨h'.resetTokens.trans h.resetTokens, h'.passwords.trans h.passwords, h.grows.trans h'.grows⟩

/-- The tables of tokens and credentials are as before. -/
theorem Calm.of_eq (ht : db'.resetTokens = db.resetTokens) (hc : db'.credentials = db.credentials)
    (hg : Grows E db db') : Calm E db db' :=
  ⟨ht, funext fun id => by rw [Db.passwordHash, hc]; rfl, hg⟩

theorem passwordHash_setCredential {id : Uuid} {cred : LocalCredential} :
    (db.setCredential id cred).passwordHash = Function.update db.passwordHash id (some cred.passwordHash) := by
  have hcreds : (db.setCredential id cred).credentials = Function.update db.credentials id (some cred) := rfl
  funext id'
  rw [Db.passwordHash, hcreds]
  by_cases hid : id' = id
  · rw [hid, Function.update_self, Function.update_self, Option.map_some]
  · rw [Function.update_of_ne hid, Function.update_of_ne hid, Db.passwordHash]

/-- A credential rewritten with its password. -/
theorem Calm.setCredential {id : Uuid} {cred cred' : LocalCredential} (hcred : db.credentials id = some cred)
    (hhash : cred'.passwordHash = cred.passwordHash) : Calm E db (db.setCredential id cred') where
  resetTokens := rfl
  passwords := by
    rw [passwordHash_setCredential, Function.update_eq_self_iff, Db.passwordHash, hcred, Option.map_some, hhash]
  grows := .of_eq rfl le_rfl

theorem calm_getAuthContext : Txn.Leads (Calm E) (getAuthContext E now credentials) := by
  intro db ctx db' h
  obtain ⟨token, unverified, -, -, ⟨-, h⟩ | ⟨-, issuer, -, h⟩⟩ := getAuthContext_eq_ok.1 h
  · obtain ⟨rfl, -⟩ := localContext_eq_ok.1 h
    exact .refl
  · obtain ⟨config, claims, uid, -, -, -, h, -⟩ := oidcContext_eq_ok.1 h
    rcases upsertUser_eq_ok.1 h with ⟨-, h⟩ | ⟨user, -, h⟩
    · obtain ⟨rfl, rfl⟩ := createUser_eq_ok h
      exact .of_eq rfl rfl (.of_append rfl rfl rfl)
    · obtain ⟨-, rfl⟩ := touchUser_eq_ok.1 h
      exact .of_eq rfl rfl (.of_map (fun u => by split_ifs <;> rfl) rfl le_rfl)

theorem calm_login {req : LoginRequest} : Txn.Leads (Calm E) (login E now req) := by
  intro db r db' h
  obtain ⟨user, cred, -, hcred, -, -, db₁, hmfa, hopen⟩ := login_eq_ok.1 h
  have hreset : Calm E db (db.setCredential user.id (cred.reset now)) := .setCredential hcred rfl
  refine IsTrans.trans _ _ _ hreset ?_
  obtain ⟨-, rfl⟩ := openSession_eq_ok.1 hopen
  rw [checkMFA_frame hmfa]
  exact .of_eq rfl rfl (.of_eq rfl (Nat.le_succ _))

theorem calm_revokeSession {sessionID : String} : Txn.Leads (Calm E) (revokeSession E now credentials sessionID) :=
  .bind calm_getAuthContext fun _ => .bind .ofOption fun _ => .bind .read fun _ => .bind .ofOption fun _ =>
    .write fun _ => .of_eq rfl rfl (.of_eq rfl le_rfl)

theorem Calm.revokeSessionsOf? (userID : Option Uuid) : Calm E db (db.revokeSessionsOf? userID now) := by
  cases userID with
  | none => exact .refl
  | some id => exact .of_eq rfl rfl (.of_eq rfl le_rfl)

theorem calm_revokeAllSessions : Txn.Leads (Calm E) (revokeAllSessions E now credentials) :=
  .bind calm_getAuthContext fun _ => .write fun _ => .revokeSessionsOf? _

theorem calm_deactivateUser {userID tenantID : Uuid} : Txn.Leads (Calm E) (deactivateUser userID tenantID) :=
  .write fun _ => .of_eq rfl rfl (.of_map (fun u => by split_ifs <;> rfl) rfl le_rfl)

theorem calm_deactivateTenant {tenantID : Uuid} : Txn.Leads (Calm E) (deactivateTenant tenantID) :=
  .write fun _ => .of_eq rfl rfl (.of_eq rfl le_rfl)

theorem calm_setMFA {id : Uuid} {mfa : MFAConfig} :
    Txn.Leads (Calm E) (Txn.write fun db => db.setMFA id mfa : Request Unit) :=
  .write fun _ => .of_eq rfl rfl (.of_eq rfl le_rfl)

theorem MFAEvent.calm (e : MFAEvent) : Txn.Leads (Calm E) (e.body E pyotp) := by
  cases e with
  | enroll now credentials secret backupCodes =>
    refine .bind (.bind calm_getAuthContext fun _ => ?_) fun _ => .pure
    exact .bind .read fun _ => .bind .ofOption fun _ => .bind calm_setMFA fun _ => .pure
  | verifyEnrollment now credentials code =>
    refine .bind calm_getAuthContext fun _ => .bind .read fun _ => .bind .ofOption fun _ => ?_
    exact .bind .raiseIf fun _ => calm_setMFA
  | login now req => exact .bind calm_login fun _ => .pure
  | disable now credentials code =>
    refine .bind calm_getAuthContext fun _ => .bind .read fun _ => .bind .ofOption fun _ => ?_
    exact .bind .ofOption fun _ => calm_setMFA

/-! ### Passwords that change -/

/-- A credential is stored, and sessions end. -/
theorem setCredential_revokeSessionsOf? {id : Uuid} {cred : LocalCredential} (userID : Option Uuid) (now : Time)
    (h : (db.setCredential id cred).revokeSessionsOf? userID now = db') :
    db'.passwordHash = Function.update db.passwordHash id (some cred.passwordHash) ∧
      db'.resetTokens = db.resetTokens ∧ Grows E db db' := by
  have hset : Grows E db (db.setCredential id cred) := .of_eq rfl le_rfl
  have hrevoked : Calm E (db.setCredential id cred) db' := h ▸ .revokeSessionsOf? userID
  exact ⟨hrevoked.passwords.trans passwordHash_setCredential, hrevoked.resetTokens, hset.trans hrevoked.grows⟩

/-- The user of the token has shown the password it had. -/
theorem changePassword_stores {cur new : String} {u : Unit}
    (h : changePassword E now credentials cur new db = (.ok u, db')) :
    ∃ ctx id hash, (∃ db₁, getAuthContext E now credentials db = (.ok ctx, db₁)) ∧ ctx.userID = some id ∧
      db.passwordHash id = some hash ∧ E.verify cur hash = true ∧
      db'.passwordHash = Function.update db.passwordHash id (some (E.hash new)) ∧ db'.resetTokens = db.resetTokens ∧
      Grows E db db' := by
  unfold changePassword at h
  obtain ⟨ctx, db₁, hauth, h⟩ := Txn.bind_eq_ok.1 h
  rw [Txn.read_bind_eq_ok] at h
  obtain ⟨cred, hcred, h⟩ := Txn.ofOption_bind_eq_ok.1 h
  obtain ⟨u', db₂, hvalid, h⟩ := Txn.bind_eq_ok.1 h
  obtain rfl : db₁ = db₂ := validatePassword_frame hvalid
  obtain ⟨hown, hverify⟩ := Option.filter_eq_some_iff.1 hcred
  obtain ⟨id, hid, hcred⟩ := Option.bind_eq_some_iff.1 hown
  have hcalm : Calm E db db₁ := calm_getAuthContext _ _ _ hauth
  obtain ⟨hpasswords, htokens, hgrows⟩ := setCredential_revokeSessionsOf? ctx.userID now (Txn.write_eq_ok.1 h)
  refine ⟨ctx, id, cred.passwordHash, ⟨db₁, hauth⟩, hid, ?_, hverify, ?_, htokens.trans hcalm.resetTokens, ?_⟩
  · rw [← hcalm.passwords, Db.passwordHash, hcred, Option.map_some]
  · rw [hpasswords, hcalm.passwords, hid, Option.getD_some]
  · exact hcalm.grows.trans hgrows

theorem resetPassword_stores {token new : String} {u : Unit} (h : resetPassword E now token new db = (.ok u, db')) :
    ∃ pr, db.resetTokens (E.hashToken token) = some pr ∧ pr.usedAt = none ∧ now ≤ pr.expiresAt ∧
      db'.resetTokens = Function.update db.resetTokens (E.hashToken token) (some { pr with usedAt := some now }) ∧
      (∀ id, id ≠ pr.userID → db'.passwordHash id = db.passwordHash id) ∧
      (db.passwordHash pr.userID = none → db'.passwordHash pr.userID = none) ∧ Grows E db db' := by
  unfold resetPassword at h
  rw [Txn.read_bind_eq_ok] at h
  obtain ⟨pr, hpr, h⟩ := Txn.ofOption_bind_eq_ok.1 h
  obtain ⟨u', db₂, hvalid, h⟩ := Txn.bind_eq_ok.1 h
  obtain rfl : db = db₂ := validatePassword_frame hvalid
  rw [Txn.write_bind_eq_ok, Txn.write_bind_eq_ok, Txn.write_eq_ok] at h
  subst h
  obtain ⟨hrow, hvalid⟩ := Option.filter_eq_some_iff.1 hpr
  obtain ⟨hunused, hle⟩ := of_decide_eq_true hvalid
  refine ⟨pr, hrow, hunused, hle, rfl, fun id hid => ?_, fun hnone => ?_, .of_eq rfl le_rfl⟩
  · exact congrArg (Option.map _) (Function.update_of_ne hid _ _)
  · have hnone : db.credentials pr.userID = none := Option.map_eq_none_iff.1 hnone
    refine Option.map_eq_none_iff.2 ((Function.update_self _ _ _).trans ?_)
    exact Option.map_eq_none_iff.2 hnone

end

end Dgraphai.Auth

namespace Dgraphai.Provisioning

open Auth (Uuid Time User)

/-! ### The provisioning endpoints -/

/-- As `Calm`, with the invitations. -/
structure Still (E : Auth.Env) (d d' : Directory) : Prop where
  auth : Auth.Calm E d.auth d'.auth
  invites : d'.invites = d.invites

section
variable {S : Services} {now : Time} {d d' : Directory} {tenantID userID tenantSlug : String}
  {authorization credentials : Option String} {body : Json.Fields}

theorem Still.refl {E : Auth.Env} : Still E d d := ⟨.refl, rfl⟩

instance {E : Auth.Env} : Std.Refl (Still E) := ⟨fun _ => .refl⟩

instance {E : Auth.Env} : IsTrans Directory (Still E) where
  trans _ _ _ h h' := ⟨IsTrans.trans _ _ _ h.auth h'.auth, h'.invites.trans h.invites⟩

theorem still_lift {α : Type} {m : Auth.Request α} (h : Txn.Leads (Auth.Calm S.env) m) :
    Txn.Leads (Still S.env) (lift m) :=
  .zoom h fun _ _ hcalm => ⟨hcalm, rfl⟩

theorem still_scalar {γ : Type} {l : List γ} : Txn.Leads (Still S.env) (lift (Auth.scalarOneOrNone l)) := by
  refine still_lift fun db o db' h => ?_
  obtain ⟨-, rfl⟩ := Auth.scalarOneOrNone_eq_ok.1 h
  exact .refl

theorem still_getScimTenant : Txn.Leads (Still S.env) (getScimTenant S now tenantID authorization) := by
  intro d tenant d' h
  obtain ⟨configs, rfl⟩ := getScimTenant_frame h
  exact ⟨.refl, rfl⟩

theorem still_scimUser : Txn.Leads (Still S.env) (scimUser S now tenantID userID authorization) := by
  intro d user d' h
  obtain ⟨-, -, configs, rfl⟩ := scimUser_spec h
  exact ⟨.refl, rfl⟩

theorem still_flushUser {user : User} {edit : Edit} : Txn.Leads (Still S.env) (flushUser S user edit) := by
  intro d row d' h
  obtain ⟨-, -, rfl⟩ := flushUser_eq_ok.1 h
  refine ⟨.of_eq rfl rfl (.of_map (fun u => ?_) rfl le_rfl), rfl⟩
  split_ifs with hid
  · exact hid.symm
  · rfl

theorem still_insertUser {user : User} {edit : Edit} : Txn.Leads (Still S.env) (insertUser S user edit) := by
  intro d row d' h
  obtain ⟨hid, -, rfl⟩ := insertUser_spec h
  exact ⟨.of_eq rfl rfl (.of_append hid rfl rfl), rfl⟩

theorem still_createScimUser : Txn.Leads (Still S.env) (createScimUser S now tenantID authorization body) := by
  refine .bind still_getScimTenant fun _ => .bind .ofOption fun _ => .bind .raiseIf fun _ => .bind .ofOption fun _ => ?_
  exact .bind .read fun _ => .bind still_scalar fun _ => .bind .raiseIf fun _ => .bind .ofOption fun _ => still_insertUser

theorem still_replaceScimUser :
    Txn.Leads (Still S.env) (replaceScimUser S now tenantID userID authorization body) :=
  .bind still_scimUser fun _ => .bind .ofOption fun _ => still_flushUser

theorem still_patchOp {user : User} {edit : Edit} {op : Json} : Txn.Leads (Still S.env) (patchOp S now user edit op) := by
  refine .bind .ofOption fun path => .bind .ofOption fun value => ?_
  split_ifs with hsets
  · refine .bind .ofOption fun active => ?_
    split_ifs with htruthy
    · exact .pure
    · refine .bind still_flushUser fun _ => .bind (still_lift ?_) fun _ => .bind (.write fun _ => ⟨.refl, rfl⟩) fun _ => .pure
      exact .write fun _ => .of_eq rfl rfl (.of_eq rfl le_rfl)
  · exact .ofOption

theorem still_patchOps {user : User} {edit : Edit} {ops : List Json} :
    Txn.Leads (Still S.env) (patchOps S now user edit ops) := by
  induction ops generalizing edit with
  | nil => exact .pure
  | cons op ops ih => exact .bind still_patchOp fun _ => ih

theorem still_patchScimUser : Txn.Leads (Still S.env) (patchScimUser S now tenantID userID authorization body) :=
  .bind still_scimUser fun _ => .bind .ofOption fun _ => .bind still_patchOps fun _ => still_flushUser

theorem still_deleteScimUser : Txn.Leads (Still S.env) (deleteScimUser S now tenantID userID authorization) :=
  .bind still_getScimTenant fun _ => .bind .ofOption fun _ => still_lift Auth.calm_deactivateUser

theorem still_removeUser : Txn.Leads (Still S.env) (removeUser S now credentials userID) := by
  refine .bind (still_lift Auth.calm_getAuthContext) fun _ => .bind .raiseIf fun _ => .bind .raiseIf fun _ => ?_
  exact .bind .ofOption fun _ => still_lift Auth.calm_deactivateUser

theorem still_samlAcs {form : SAMLForm} : Txn.Leads (Still S.env) (samlAcs S now tenantSlug form) := by
  have hidentity : Txn.Leads (Still S.env) (samlIdentity S tenantSlug form) := by
    intro d identity d' h
    obtain rfl : d = d' := samlIdentity_frame h
    exact .refl
  refine .bind hidentity fun identity => .bind .read fun _ => .bind still_scalar fun user => .bind ?_ fun _ => ?_
  · cases user with
    | none => exact still_insertUser
    | some user => exact still_flushUser
  · exact .bind .read fun _ => .pure

theorem still_createAPIKey {req : CreateAPIKeyRequest} :
    Txn.Leads (Still S.env) (createAPIKey S now credentials req) := by
  refine .bind (still_lift Auth.calm_getAuthContext) fun _ => .bind .read fun _ => .bind .ofOption fun made => ?_
  refine .bind .read fun _ => .bind .raiseIf fun _ => .bind (.write fun _ => ⟨?_, rfl⟩) fun _ => .pure
  exact .of_eq rfl rfl (.of_eq rfl (Nat.le_succ _))

theorem still_updateProfile {req : UpdateProfileRequest} :
    Txn.Leads (Still S.env) (updateProfile S now credentials req) := by
  refine .bind (still_lift Auth.calm_getAuthContext) fun _ => .bind .read fun _ => .bind .ofOption fun _ => ?_
  exact .bind still_flushUser fun _ => .pure

theorem Event.still {e : Event} (h : ∀ now req, e ≠ .acceptInvite now req) : Txn.Leads (Still S.env) (e.body S) := by
  cases e with
  | createScimUser => exact .bind still_createScimUser fun _ => .pure
  | replaceScimUser => exact .bind still_replaceScimUser fun _ => .pure
  | patchScimUser => exact .bind still_patchScimUser fun _ => .pure
  | deleteScimUser => exact still_deleteScimUser
  | removeUser => exact still_removeUser
  | samlAcs => exact .bind still_samlAcs fun _ => .pure
  | acceptInvite now req => exact absurd rfl (h now req)
  | login => exact .bind (still_lift Auth.calm_login) fun _ => .pure
  | createAPIKey => exact .bind still_createAPIKey fun _ => .pure

/-! ### New accounts -/

/-- A user made with a password, under a primary key drawn since. -/
structure Joined (E : Auth.Env) (d d' : Directory) (row : User) (passwordHash : String) : Prop where
  fresh : ∃ n, d.auth.nextID ≤ n ∧ row.id = E.uuid4 n
  mem : row ∈ d'.auth.users
  resetTokens : d'.auth.resetTokens = d.auth.resetTokens
  passwords : d'.auth.passwordHash = Function.update d.auth.passwordHash row.id (some passwordHash)
  grows : Auth.Grows E d.auth d'.auth

theorem Still.joined {E : Auth.Env} {d₁ : Directory} {row : User} {passwordHash : String} (h : Still E d d₁)
    (h' : Joined E d₁ d' row passwordHash) : Joined E d d' row passwordHash where
  fresh := by
    obtain ⟨n, hle, hid⟩ := h'.fresh
    exact ⟨n, h.auth.grows.nextID.trans hle, hid⟩
  mem := h'.mem
  resetTokens := h'.resetTokens.trans h.auth.resetTokens
  passwords := by rw [h'.passwords, h.auth.passwords]
  grows := h.auth.grows.trans h'.grows

theorem joined_insertUser {user row : User} {edit : Edit} {cred : Auth.LocalCredential}
    {invites : String → Option UserInvite} (h : insertUser S user edit d = (.ok row, d')) :
    Joined S.env d { d' with auth := d'.auth.setCredential row.id cred, invites := invites } row cred.passwordHash := by
  have hstill := still_insertUser _ _ _ h
  obtain ⟨hid, -, rfl⟩ := insertUser_spec h
  refine ⟨⟨d.auth.nextID, le_rfl, hid⟩, List.mem_append_right _ (List.mem_singleton_self row), rfl, ?_, ?_⟩
  · exact Auth.passwordHash_setCredential.trans (by rw [hstill.auth.passwords])
  · exact hstill.auth.grows.trans (.of_eq rfl le_rfl)

theorem signup_joined {hex : String} {req : SignupRequest} {r : SignupResponse}
    (h : signup S now hex req d = (.ok r, d')) :
    ∃ row, row.id = r.userID ∧ row.email = req.email ∧ Joined S.env d d' row (S.env.hash req.password) ∧
      d'.invites = d.invites := by
  unfold signup at h
  obtain ⟨u, db, hvalid, h⟩ := lift_bind_eq_ok.1 h
  obtain rfl := Auth.validatePassword_frame hvalid
  simp only [Txn.read_bind_eq_ok, scalar_bind_eq_ok, Txn.raiseIf_bind_eq_ok] at h
  obtain ⟨o, -, -, h⟩ := h
  obtain ⟨tenantID, d₁, htenant, h⟩ := Txn.bind_eq_ok.1 h
  obtain ⟨row, d₂, hinsert, h⟩ := Txn.bind_eq_ok.1 h
  simp only [lift_bind_eq_ok, Txn.pure_eq_ok] at h
  obtain ⟨u, db, hdb, rfl, rfl⟩ := h
  obtain rfl := Txn.write_eq_ok.1 hdb
  have htenant : Still S.env d d₁ := by
    unfold insertTenant at htenant
    simp only [Txn.read_bind_eq_ok, Txn.raiseIf_bind_eq_ok, Txn.write_bind_eq_ok, Txn.pure_eq_ok] at htenant
    obtain ⟨-, -, rfl⟩ := htenant
    exact ⟨.of_eq rfl rfl (.of_eq rfl (Nat.le_succ _)), rfl⟩
  have hemail : Json.str req.email = .str row.email := insertUser_email hinsert
  have hinvites : d₂.invites = d.invites := (still_insertUser _ _ _ hinsert).invites.trans htenant.invites
  exact ⟨row, rfl, (Json.str.inj hemail).symm, htenant.joined (joined_insertUser hinsert), hinvites⟩

theorem acceptInvite_joined {req : AcceptInviteRequest} {r : AcceptInviteResponse}
    (h : acceptInvite S now req d = (.ok r, d')) :
    ∃ invite row, d.invites (S.env.hashToken req.token) = some invite ∧ invite.usedAt = none ∧
      now ≤ invite.expiresAt ∧ Joined S.env d d' row (S.env.hash req.password) ∧
      d'.invites =
        Function.update d.invites (S.env.hashToken req.token) (some { invite with usedAt := some now }) := by
  unfold acceptInvite at h
  simp only [Txn.read_bind_eq_ok, Txn.ofOption_bind_eq_ok, lift_bind_eq_ok] at h
  obtain ⟨invite, hinvite, u, db, hvalid, h⟩ := h
  obtain rfl := Auth.validatePassword_frame hvalid
  obtain ⟨row, d₁, hinsert, h⟩ := Txn.bind_eq_ok.1 h
  simp only [lift_bind_eq_ok, Txn.write_bind_eq_ok, Txn.read_bind_eq_ok, Txn.pure_eq_ok] at h
  obtain ⟨u, db, hdb, -, rfl⟩ := h
  obtain rfl := Txn.write_eq_ok.1 hdb
  obtain ⟨hrow, hvalid⟩ := Option.filter_eq_some_iff.1 hinvite
  obtain ⟨hunused, hle⟩ := of_decide_eq_true hvalid
  have hinvites : d₁.invites = d.invites := (still_insertUser _ _ _ hinsert).invites
  exact ⟨invite, row, hrow, hunused, hle, joined_insertUser hinsert, by rw [hinvites]⟩

end

end Dgraphai.Provisioning
