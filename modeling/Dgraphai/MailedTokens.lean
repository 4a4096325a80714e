import Dgraphai.CalmRequests

/-!
# Tokens in mails (`auth/local.py`, `api/users.py`)

`signup`, `resend_verification` and `forgot_password` store the hash of a random token and mail the token; `verify_email`
and `reset_password` accept it. `invite_user` stores one too and then fails, for the function it imports to send its mail
does not exist. In every history of requests a token that is accepted was in such a mail, or unused in the tables before,
and was not accepted since (`accepted_from`).
-/

namespace Dgraphai.MailedTokens

open Auth (Uuid Time HttpError serverError User Pyotp)
open Provisioning (Services Directory Provision SignupRequest SignupResponse InviteRequest InviteResponse
  UpdateProfileRequest UserInvite Still Joined)

structure EmailVerificationToken where
  userID : Uuid
  expiresAt : Time
  usedAt : Option Time
  deriving DecidableEq, Repr

inductive Kind where
  | verification | reset | invitation
  deriving DecidableEq, Repr

/-- A mail handed to `send_email`, with the token of its link. -/
structure Mail where
  kind : Kind
  recipient : String
  token : String
  deriving DecidableEq, Repr

/-- The tables, and the mails handed over. Verification tokens are keyed by `token_hash`. -/
structure Office where
  dir : Directory
  verifications : String → Option EmailVerificationToken
  outbox : List Mail

abbrev Endpoint := Txn Office HttpError

def within {α : Type} (m : Provision α) : Endpoint α := Txn.zoom Office.dir (fun o d => { o with dir := d }) m

def send (mail : Mail) : Endpoint Unit := Txn.write fun o => { o with outbox := o.outbox ++ [mail] }

/-! ### Endpoints -/

/-- What an endpoint without data answers. -/
structure Reply where
  status : String
  message : Option String
  deriving DecidableEq, Repr

/-- `db.add(EmailVerificationToken(…))`, flushed; `token_hash` is unique. -/
def addVerification (S : Services) (now : Time) (userID : Uuid) (token : String) : Endpoint Unit := do
  let key := S.env.hashToken token
  let taken ← Txn.read fun o => (o.verifications key).isSome
  Txn.raiseIf (taken = true) serverError
  Txn.write fun o =>
    { o with verifications := Function.update o.verifications key (some ⟨userID, now + Auth.hours 48, none⟩) }

/-- `db.add(PasswordResetToken(…))`, flushed; `token_hash` is unique. -/
def addReset (S : Services) (now : Time) (userID : Uuid) (token : String) : Auth.Request Unit := do
  let key := S.env.hashToken token
  let taken ← Txn.read fun db => (db.resetTokens key).isSome
  Txn.raiseIf (taken = true) serverError
  Txn.write fun db =>
    { db with resetTokens := Function.update db.resetTokens key (some ⟨userID, now + Auth.hours 1, none⟩) }

/-- `signup`; `token` is what `_generate_token` draws. -/
def signup (S : Services) (now : Time) (hex token : String) (req : SignupRequest) : Endpoint SignupResponse := do
  let response ← within (Provisioning.signup S now hex req)
  addVerification S now response.userID token
  send ⟨.verification, req.email, token⟩
  pure response

def verifyEmail (S : Services) (now : Time) (token : String) : Endpoint Reply := do
  let key := S.env.hashToken token
  let ev ← Txn.read fun o => (o.verifications key).filter fun ev => ev.usedAt = none ∧ now ≤ ev.expiresAt
  let ev ← Txn.ofOption ⟨400, "Invalid or expired verification token"⟩ ev
  Txn.write fun o => { o with verifications := Function.update o.verifications key (some { ev with usedAt := some now }) }
  within (Provisioning.lift (Txn.write fun db =>
    { db with users := db.users.map fun u => if u.id = ev.userID then { u with emailVerified := true } else u }))
  pure ⟨"verified", some "Email address verified successfully"⟩

/-- `resend_verification` for the user of the request. -/
def resendTo (S : Services) (now : Time) (token : String) : Option User → Endpoint Reply
  | none => pure ⟨"ok", none⟩
  | some user => do
    addVerification S now user.id token
    send ⟨.verification, user.email, token⟩
    pure ⟨"sent", none⟩

def resendVerification (S : Services) (now : Time) (credentials : Option String) (token : String) : Endpoint Reply := do
  let auth ← within (Provisioning.lift (Auth.getAuthContext S.env now credentials))
  let user ← Txn.read fun o => (auth.userID.bind o.dir.auth.user).filter fun u => u.emailVerified = false
  resendTo S now token user

/-- `if user:` of `forgot_password`. -/
def sendReset (S : Services) (now : Time) (token : String) : Option User → Endpoint Unit
  | none => pure ()
  | some user => do
    within (Provisioning.lift (addReset S now user.id token))
    send ⟨.reset, user.email, token⟩

def forgotPassword (S : Services) (now : Time) (token email : String) : Endpoint Reply := do
  let rows ← Txn.read fun o => o.dir.auth.users.filter fun u => u.email = email
  let user ← within (Provisioning.lift (Auth.scalarOneOrNone rows))
  sendReset S now token user
  pure ⟨"ok", some "If an account exists for that email, a reset link was sent"⟩

/-- `invite_user`: `send_invitation_email`, which it imports, is not in `auth/email.py`. -/
def inviteUser (S : Services) (now : Time) (token : String) (credentials : Option String) (req : InviteRequest) :
    Endpoint InviteResponse := do
  let _response ← within (Provisioning.inviteUser S now token credentials req)
  Txn.raise serverError

/-! ### Histories -/

inductive Event where
  | signup (now : Time) (hex token : String) (req : SignupRequest)
  | verifyEmail (now : Time) (token : String)
  | resendVerification (now : Time) (credentials : Option String) (token : String)
  | forgotPassword (now : Time) (token email : String)
  | inviteUser (now : Time) (token : String) (credentials : Option String) (req : InviteRequest)
  | updateProfile (now : Time) (credentials : Option String) (req : UpdateProfileRequest)
  | authenticate (now : Time) (credentials : Option String)
  | provision (e : Provisioning.Event)
  | session (e : Auth.Event)
  | mfa (e : Auth.MFAEvent)

def Event.body (S : Services) (pyotp : Pyotp) : Event → Endpoint Unit
  | .signup now hex token req => do
    let _response ← MailedTokens.signup S now hex token req
    pure ()
  | .verifyEmail now token => do
    let _reply ← MailedTokens.verifyEmail S now token
    pure ()
  | .resendVerification now credentials token => do
    let _reply ← MailedTokens.resendVerification S now credentials token
    pure ()
  | .forgotPassword now token email => do
    let _reply ← MailedTokens.forgotPassword S now token email
    pure ()
  | .inviteUser now token credentials req => do
    let _response ← MailedTokens.inviteUser S now token credentials req
    pure ()
  | .updateProfile now credentials req => within (Provisioning.updateProfile S now credentials req)
  | .authenticate now credentials => do
    let _auth ← within (Provisioning.lift (Auth.getAuthContext S.env now credentials))
    pure ()
  | .provision e => within (e.body S)
  | .session e => within (Provisioning.lift (e.body S.env))
  | .mfa e => within (Provisioning.lift (e.body S.env pyotp))

/-- The request goes through. -/
def Event.Accepted (S : Services) (pyotp : Pyotp) (o : Office) (e : Event) : Prop :=
  ∃ o', e.body S pyotp o = (.ok (), o')

/-- The tables after a request, committed or rolled back. -/
def next (S : Services) (pyotp : Pyotp) (o : Office) (e : Event) : Office := ((e.body S pyotp).exec o).2

def after (S : Services) (pyotp : Pyotp) (o : Office) (events : List Event) : Office := events.foldl (next S pyotp) o

/-! ### Tokens -/

/-- Whom a token is for. -/
inductive Holder where
  | user (id : Uuid)
  | invitee (tenantID : Uuid) (email : String)
  deriving DecidableEq, Repr

/-- The row of an unused token, by its hash: whom it is for and when it expires. -/
def Office.unused (o : Office) (key : String) : Kind → Option (Holder × Time)
  | .verification => ((o.verifications key).filter (·.usedAt = none)).map fun ev => (.user ev.userID, ev.expiresAt)
  | .reset => ((o.dir.auth.resetTokens key).filter (·.usedAt = none)).map fun pr => (.user pr.userID, pr.expiresAt)
  | .invitation => ((o.dir.invites key).filter (·.usedAt = none)).map fun i => (.invitee i.tenantID i.email, i.expiresAt)

/-- The address is that of the holder. -/
def Office.Address (o : Office) : Holder → String → Prop
  | .user id, email => ∃ u ∈ o.dir.auth.users, u.id = id ∧ u.email = email
  | .invitee _ invited, email => email = invited

/-- The token a request presents, and when. -/
def Event.presents : Event → Option (Kind × String × Time)
  | .verifyEmail now token => some (.verification, token, now)
  | .session (.resetPassword now token _) => some (.reset, token, now)
  | .provision (.acceptInvite now req) => some (.invitation, req.token, now)
  | _ => none

/-- When a request that mails a token is made. -/
def Event.mailsAt : Event → Option Time
  | .signup now .. | .resendVerification now .. | .forgotPassword now .. => some now
  | _ => none

def lifetime : Kind → Time
  | .verification => Auth.hours 48
  | .reset => Auth.hours 1
  | .invitation => Auth.hours (7 * 24)

/-- The request mails, at the time, a token of the kind with this hash to the address of the holder. -/
def Mails (S : Services) (pyotp : Pyotp) (o : Office) (e : Event) (kind : Kind) (key : String) (holder : Holder)
    (sent : Time) : Prop :=
  e.mailsAt = some sent ∧ ∃ mail : Mail, (next S pyotp o e).outbox = o.outbox ++ [mail] ∧ mail.kind = kind ∧
    S.env.hashToken mail.token = key ∧ (next S pyotp o e).Address holder mail.recipient

/-- The request goes through with a token of the kind with this hash. -/
def Redeems (S : Services) (pyotp : Pyotp) (o : Office) (e : Event) (kind : Kind) (key : String) : Prop :=
  e.Accepted S pyotp o ∧ ∃ token now, e.presents = some (kind, token, now) ∧ S.env.hashToken token = key

/-! ### What an accepted request stores -/

/-- No password, no token and no invitation is stored. -/
structure Quiet (E : Auth.Env) (o o' : Office) : Prop where
  dir : Still E o.dir o'.dir
  verifications : o'.verifications = o.verifications

inductive Did (S : Services) (o : Office) : Event → Office → Prop
  | quiet {e : Event} {o' : Office} (hidden : e.presents = none) (h : Quiet S.env o o') : Did S o e o'
  | signedUp {now : Time} {hex token : String} {req : SignupRequest} {d' : Directory} (row : User)
      (hemail : row.email = req.email) (hjoined : Joined S.env o.dir d' row (S.env.hash req.password))
      (hinvites : d'.invites = o.dir.invites) :
      Did S o (.signup now hex token req)
        ⟨d', Function.update o.verifications (S.env.hashToken token) (some ⟨row.id, now + Auth.hours 48, none⟩),
          o.outbox ++ [⟨.verification, req.email, token⟩]⟩
  | verified {now : Time} {token : String} {d' : Directory} (ev : EmailVerificationToken)
      (hev : o.verifications (S.env.hashToken token) = some ev) (hunused : ev.usedAt = none)
      (hle : now ≤ ev.expiresAt) (hstill : Still S.env o.dir d') :
      Did S o (.verifyEmail now token)
        ⟨d', Function.update o.verifications (S.env.hashToken token) (some { ev with usedAt := some now }), o.outbox⟩
  | resent {now : Time} {credentials : Option String} {token : String} {d' : Directory} (user : User)
      (hmem : user ∈ d'.auth.users) (hstill : Still S.env o.dir d') :
      Did S o (.resendVerification now credentials token)
        ⟨d', Function.update o.verifications (S.env.hashToken token) (some ⟨user.id, now + Auth.hours 48, none⟩),
          o.outbox ++ [⟨.verification, user.email, token⟩]⟩
  | asked {now : Time} {token email : String} (user : User) (hmem : user ∈ o.dir.auth.users) :
      Did S o (.forgotPassword now token email)
        ⟨{ o.dir with
            auth := { o.dir.auth with
              resetTokens := Function.update o.dir.auth.resetTokens (S.env.hashToken token)
                (some ⟨user.id, now + Auth.hours 1, none⟩) } },
          o.verifications, o.outbox ++ [⟨.reset, user.email, token⟩]⟩
  | invited {now : Time} {req : Provisioning.AcceptInviteRequest} {d' : Directory} (invite : UserInvite) (row : User)
      (hinvite : o.dir.invites (S.env.hashToken req.token) = some invite) (hunused : invite.usedAt = none)
      (hle : now ≤ invite.expiresAt) (hjoined : Joined S.env o.dir d' row (S.env.hash req.password))
      (hinvites : d'.invites = Function.update o.dir.invites (S.env.hashToken req.token)
        (some { invite with usedAt := some now })) :
      Did S o (.provision (.acceptInvite now req)) ⟨d', o.verifications, o.outbox⟩
  | changed {now : Time} {credentials : Option String} {cur new : String} {db : Auth.Db}
      (h : Auth.changePassword S.env now credentials cur new o.dir.auth = (.ok (), db)) :
      Did S o (.session (.changePassword now credentials cur new))
        ⟨{ o.dir with auth := db }, o.verifications, o.outbox⟩
  | reset {now : Time} {token new : String} {db : Auth.Db}
      (h : Auth.resetPassword S.env now token new o.dir.auth = (.ok (), db)) :
      Did S o (.session (.resetPassword now token new)) ⟨{ o.dir with auth := db }, o.verifications, o.outbox⟩

section
variable {S : Services} {pyotp : Pyotp} {o o' : Office} {now : Time} {credentials : Option String}
  {token email key : String} {e : Event} {kind : Kind} {holder : Holder}

theorem quiet_within {α : Type} {m : Provision α} {a : α} (hm : Txn.Leads (Still S.env) m)
    (h : within m o = (.ok a, o')) : Quiet S.env o o' := by
  obtain ⟨d, hd, rfl⟩ := Txn.zoom_eq_ok.1 h
  exact ⟨hm _ _ _ hd, rfl⟩

theorem addVerification_eq_ok {userID : Uuid} {u : Unit} (h : addVerification S now userID token o = (.ok u, o')) :
    o' = { o with verifications :=
      Function.update o.verifications (S.env.hashToken token) (some ⟨userID, now + Auth.hours 48, none⟩) } := by
  unfold addVerification at h
  rw [Txn.read_bind_eq_ok, Txn.raiseIf_bind_eq_ok, Txn.write_eq_ok] at h
  exact h.2.symm

theorem send_bind_eq_ok {β : Type} {mail : Mail} {f : Unit → Endpoint β} {b : β} :
    (send mail >>= f) o = (.ok b, o') ↔ f () { o with outbox := o.outbox ++ [mail] } = (.ok b, o') := Iff.rfl

theorem did_signup {hex : String} {req : SignupRequest} {r : SignupResponse}
    (h : signup S now hex token req o = (.ok r, o')) : Did S o (.signup now hex token req) o' := by
  obtain ⟨r', o₁, hjoin, h⟩ := Txn.bind_eq_ok.1 h
  obtain ⟨u, o₂, hadd, h⟩ := Txn.bind_eq_ok.1 h
  obtain rfl := addVerification_eq_ok hadd
  obtain ⟨d, hsignup, rfl⟩ := Txn.zoom_eq_ok.1 hjoin
  rw [send_bind_eq_ok, Txn.pure_eq_ok] at h
  obtain ⟨-, rfl⟩ := h
  obtain ⟨row, hid, hemail, hjoined, hinvites⟩ := Provisioning.signup_joined hsignup
  rw [← hid]
  exact .signedUp row hemail hjoined hinvites

theorem did_verifyEmail {r : Reply} (h : verifyEmail S now token o = (.ok r, o')) :
    Did S o (.verifyEmail now token) o' := by
  unfold verifyEmail at h
  simp only [Txn.read_bind_eq_ok, Txn.ofOption_bind_eq_ok, Txn.write_bind_eq_ok] at h
  obtain ⟨ev, hev, h⟩ := h
  obtain ⟨u, o₁, hset, hpure⟩ := Txn.bind_eq_ok.1 h
  obtain ⟨-, rfl⟩ := Txn.pure_eq_ok.1 hpure
  obtain ⟨d, hd, rfl⟩ := Txn.zoom_eq_ok.1 hset
  obtain ⟨hrow, hvalid⟩ := Option.filter_eq_some_iff.1 hev
  obtain ⟨hunused, hle⟩ := of_decide_eq_true hvalid
  refine .verified ev hrow hunused hle ?_
  refine Provisioning.still_lift (.write fun db => ?_) _ _ _ hd
  exact .of_eq rfl rfl (.of_map (fun u => by split_ifs <;> rfl) rfl le_rfl)

theorem did_resendVerification {r : Reply} (h : resendVerification S now credentials token o = (.ok r, o')) :
    Did S o (.resendVerification now credentials token) o' := by
  unfold resendVerification at h
  obtain ⟨ctx, o₁, hauth, h⟩ := Txn.bind_eq_ok.1 h
  rw [Txn.read_bind_eq_ok] at h
  have hquiet : Quiet S.env o o₁ := quiet_within (Provisioning.still_lift Auth.calm_getAuthContext) hauth
  cases huser : (ctx.userID.bind o₁.dir.auth.user).filter fun u => u.emailVerified = false with
  | none =>
    rw [huser] at h
    obtain ⟨-, rfl⟩ := Txn.pure_eq_ok.1 h
    exact .quiet rfl hquiet
  | some user =>
    rw [huser] at h
    obtain ⟨u, o₂, hadd, h⟩ := Txn.bind_eq_ok.1 h
    obtain rfl := addVerification_eq_ok hadd
    rw [send_bind_eq_ok, Txn.pure_eq_ok] at h
    obtain ⟨-, rfl⟩ := h
    obtain ⟨id, -, hid⟩ := Option.bind_eq_some_iff.1 (Option.filter_eq_some_iff.1 huser).1
    obtain ⟨d, -, rfl⟩ := Txn.zoom_eq_ok.1 hauth
    exact .resent user (Provisioning.mem_of_user hid).1 hquiet.dir

theorem did_forgotPassword {r : Reply} (h : forgotPassword S now token email o = (.ok r, o')) :
    Did S o (.forgotPassword now token email) o' := by
  unfold forgotPassword at h
  rw [Txn.read_bind_eq_ok] at h
  obtain ⟨user, o₁, hread, h⟩ := Txn.bind_eq_ok.1 h
  obtain ⟨d, hd, rfl⟩ := Txn.zoom_eq_ok.1 hread
  obtain ⟨db, hdb, rfl⟩ := Provisioning.lift_eq_ok.1 hd
  obtain ⟨hrows, rfl⟩ := Auth.scalarOneOrNone_eq_ok.1 hdb
  obtain ⟨u, o₁, hsend, h⟩ := Txn.bind_eq_ok.1 h
  obtain ⟨-, rfl⟩ := Txn.pure_eq_ok.1 h
  cases user with
  | none =>
    obtain ⟨-, rfl⟩ := Txn.pure_eq_ok.1 hsend
    exact .quiet rfl ⟨.refl, rfl⟩
  | some user =>
    obtain ⟨u, o₂, hadd, hsend⟩ := Txn.bind_eq_ok.1 hsend
    obtain ⟨d, hd, rfl⟩ := Txn.zoom_eq_ok.1 hadd
    obtain ⟨db, hdb, rfl⟩ := Provisioning.lift_eq_ok.1 hd
    unfold addReset at hdb
    rw [Txn.read_bind_eq_ok, Txn.raiseIf_bind_eq_ok, Txn.write_eq_ok] at hdb
    obtain ⟨-, rfl⟩ := hdb
    obtain rfl := Txn.write_eq_ok.1 hsend
    have hmem : user ∈ o.dir.auth.users.filter fun u => u.email = email := hrows ▸ List.mem_singleton_self user
    exact .asked user (List.mem_of_mem_filter hmem)

theorem calm_session {e : Auth.Event}
    (hpassword : ∀ now credentials cur new, e ≠ .changePassword now credentials cur new)
    (hreset : ∀ now token new, e ≠ .resetPassword now token new) : Txn.Leads (Auth.Calm S.env) (e.body S.env) := by
  cases e with
  | login => exact .bind Auth.calm_login fun _ => .pure
  | revokeSession => exact Auth.calm_revokeSession
  | revokeAllSessions => exact Auth.calm_revokeAllSessions
  | changePassword now credentials cur new => exact absurd rfl (hpassword now credentials cur new)
  | resetPassword now token new => exact absurd rfl (hreset now token new)
  | deactivateUser => exact Auth.calm_deactivateUser
  | deactivateTenant => exact Auth.calm_deactivateTenant

theorem did_provision {e : Provisioning.Event} (h : within (e.body S) o = (.ok (), o')) :
    Did S o (.provision e) o' := by
  cases e with
  | acceptInvite =>
    obtain ⟨d, hd, rfl⟩ := Txn.zoom_eq_ok.1 h
    obtain ⟨r, hr⟩ := Txn.discard_eq_ok.1 hd
    obtain ⟨invite, row, hrow, hunused, hle, hjoined, hinvites⟩ := Provisioning.acceptInvite_joined hr
    exact .invited invite row hrow hunused hle hjoined hinvites
  | _ => exact .quiet rfl (quiet_within (Provisioning.Event.still fun _ _ he => by cases he) h)

theorem did_session {e : Auth.Event} (h : within (Provisioning.lift (e.body S.env)) o = (.ok (), o')) :
    Did S o (.session e) o' := by
  obtain ⟨d, hd, rfl⟩ := Txn.zoom_eq_ok.1 h
  obtain ⟨db, hdb, rfl⟩ := Provisioning.lift_eq_ok.1 hd
  cases e with
  | changePassword => exact .changed hdb
  | resetPassword => exact .reset hdb
  | _ =>
    refine .quiet rfl (quiet_within (Provisioning.still_lift (calm_session ?_ ?_)) h)
    · exact fun _ _ _ _ he => by cases he
    · exact fun _ _ _ he => by cases he

theorem Event.did (h : e.body S pyotp o = (.ok (), o')) : Did S o e o' := by
  cases e with
  | signup =>
    obtain ⟨r, hr⟩ := Txn.discard_eq_ok.1 h
    exact did_signup hr
  | verifyEmail =>
    obtain ⟨r, hr⟩ := Txn.discard_eq_ok.1 h
    exact did_verifyEmail hr
  | resendVerification =>
    obtain ⟨r, hr⟩ := Txn.discard_eq_ok.1 h
    exact did_resendVerification hr
  | forgotPassword =>
    obtain ⟨r, hr⟩ := Txn.discard_eq_ok.1 h
    exact did_forgotPassword hr
  | inviteUser =>
    -- the mail cannot be sent, and the request fails
    obtain ⟨r, hr⟩ := Txn.discard_eq_ok.1 h
    obtain ⟨r', o₁, -, hraise⟩ := Txn.bind_eq_ok.1 hr
    exact absurd hraise Txn.raise_ne_ok
  | updateProfile => exact .quiet rfl (quiet_within Provisioning.still_updateProfile h)
  | authenticate =>
    obtain ⟨ctx, hctx⟩ := Txn.discard_eq_ok.1 h
    exact .quiet rfl (quiet_within (Provisioning.still_lift Auth.calm_getAuthContext) hctx)
  | provision e => exact did_provision h
  | session e => exact did_session h
  | mfa e => exact .quiet rfl (quiet_within (Provisioning.still_lift e.calm) h)

/-! ### The unused tokens -/

/-- A request stores no token, mails one, or takes one. -/
inductive Posting (S : Services) (o o' : Office) (e : Event) : Prop
  | idle (hidden : e.presents = none) (hsame : o'.unused = o.unused)
  | mailed (mail : Mail) (holder : Holder) (sent : Time) (hidden : e.presents = none) (hat : e.mailsAt = some sent)
      (hkind : mail.kind ≠ .invitation) (houtbox : o'.outbox = o.outbox ++ [mail])
      (haddress : o'.Address holder mail.recipient)
      (hunused : ∀ key kind, o'.unused key kind =
        if kind = mail.kind ∧ key = S.env.hashToken mail.token then some (holder, sent + lifetime mail.kind)
        else o.unused key kind)
  | taken (kind : Kind) (token : String) (now : Time) (holder : Holder) (expiresAt : Time)
      (hpresents : e.presents = some (kind, token, now))
      (hheld : o.unused (S.env.hashToken token) kind = some (holder, expiresAt)) (hle : now ≤ expiresAt)
      (hunused : ∀ key kind', o'.unused key kind' =
        if kind' = kind ∧ key = S.env.hashToken token then none else o.unused key kind')

theorem unused_congr (hv : o'.verifications = o.verifications) (hr : o'.dir.auth.resetTokens = o.dir.auth.resetTokens)
    (hi : o'.dir.invites = o.dir.invites) : o'.unused = o.unused := by
  funext key kind
  cases kind with
  | verification => rw [Office.unused, Office.unused, hv]
  | reset => rw [Office.unused, Office.unused, hr]
  | invitation => rw [Office.unused, Office.unused, hi]

theorem filter_update {ρ α : Type} {rows : String → Option ρ} {row : ρ} {p : ρ → Bool} {f : ρ → α} {key key' : String} :
    ((Function.update rows key' (some row) key).filter p).map f =
      if key = key' then (if p row then some (f row) else none) else ((rows key).filter p).map f := by
  by_cases h : key = key'
  · rw [if_pos h, h, Function.update_self, Option.filter_some]
    split_ifs <;> rfl
  · rw [if_neg h, Function.update_of_ne h]

section
variable {d' : Directory} {outbox : List Mail} {key' : String}

theorem unused_verification {ev : EmailVerificationToken} (hr : d'.auth.resetTokens = o.dir.auth.resetTokens)
    (hi : d'.invites = o.dir.invites) (key : String) (kind : Kind) :
    (Office.mk d' (Function.update o.verifications key' (some ev)) outbox).unused key kind =
      if kind = .verification ∧ key = key' then
        (if ev.usedAt = none then some (.user ev.userID, ev.expiresAt) else none)
      else o.unused key kind := by
  cases kind with
  | verification =>
    rw [Office.unused, filter_update]
    simp [Office.unused]
  | reset => simp [Office.unused, hr]
  | invitation => simp [Office.unused, hi]

theorem unused_reset {db : Auth.Db} {pr : Auth.PasswordResetToken}
    (hr : db.resetTokens = Function.update o.dir.auth.resetTokens key' (some pr)) (key : String) (kind : Kind) :
    (Office.mk { o.dir with auth := db } o.verifications outbox).unused key kind =
      if kind = .reset ∧ key = key' then
        (if pr.usedAt = none then some (.user pr.userID, pr.expiresAt) else none)
      else o.unused key kind := by
  cases kind with
  | verification => simp [Office.unused]
  | reset =>
    rw [Office.unused, hr, filter_update]
    simp [Office.unused]
  | invitation => simp [Office.unused]

theorem unused_invitation {invite : UserInvite} (hr : d'.auth.resetTokens = o.dir.auth.resetTokens)
    (hi : d'.invites = Function.update o.dir.invites key' (some invite)) (key : String) (kind : Kind) :
    (Office.mk d' o.verifications outbox).unused key kind =
      if kind = .invitation ∧ key = key' then
        (if invite.usedAt = none then some (.invitee invite.tenantID invite.email, invite.expiresAt) else none)
      else o.unused key kind := by
  cases kind with
  | verification => simp [Office.unused]
  | reset => simp [Office.unused, hr]
  | invitation =>
    rw [Office.unused, hi, filter_update]
    simp [Office.unused]

end

theorem Did.posting (h : Did S o e o') : Posting S o o' e := by
  cases h with
  | quiet hidden h => exact .idle hidden (unused_congr h.verifications h.dir.auth.resetTokens h.dir.invites)
  | signedUp row hemail hjoined hinvites =>
    refine .mailed _ (.user row.id) _ rfl rfl (fun hk => by cases hk) rfl ⟨row, hjoined.mem, rfl, hemail⟩ ?_
    exact unused_verification hjoined.resetTokens hinvites
  | verified ev hev hunused hle hstill =>
    refine .taken _ _ _ (.user ev.userID) ev.expiresAt rfl ?_ hle ?_
    · simp [Office.unused, hev, hunused]
    · exact unused_verification hstill.auth.resetTokens hstill.invites
  | resent user hmem hstill =>
    refine .mailed _ (.user user.id) _ rfl rfl (fun hk => by cases hk) rfl ⟨user, hmem, rfl, rfl⟩ ?_
    exact unused_verification hstill.auth.resetTokens hstill.invites
  | asked user hmem =>
    refine .mailed _ (.user user.id) _ rfl rfl (fun hk => by cases hk) rfl ⟨user, hmem, rfl, rfl⟩ ?_
    exact fun key kind => (unused_reset rfl key kind).trans rfl
  | invited invite row hinvite hunused hle hjoined hinvites =>
    refine .taken _ _ _ (.invitee invite.tenantID invite.email) invite.expiresAt rfl ?_ hle ?_
    · simp [Office.unused, hinvite, hunused]
    · exact unused_invitation hjoined.resetTokens hinvites
  | changed h =>
    obtain ⟨-, -, -, -, -, -, -, -, htokens, -⟩ := Auth.changePassword_stores h
    exact .idle rfl (unused_congr rfl htokens rfl)
  | reset h =>
    obtain ⟨pr, hpr, hunused, hle, htokens, -⟩ := Auth.resetPassword_stores h
    refine .taken _ _ _ (.user pr.userID) pr.expiresAt rfl ?_ hle ?_
    · simp [Office.unused, hpr, hunused]
    · exact fun key kind => (unused_reset htokens key kind).trans rfl

end

end Dgraphai.MailedTokens
