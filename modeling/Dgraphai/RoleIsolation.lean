import Dgraphai.Lib.Runs
import Dgraphai.ProvisioningEffects
import Dgraphai.RoleStore

/-!
# Role assignments across tenants

In a `Tenanted` store the user and the role of every assignment are of its tenant. The endpoints that make an account
keep that whatever they return: the user is made in the tenant the role is looked up in. A group patch keeps it
exactly if it leaves no user of another tenant added (`tenanted_iff_confined`), since `assign_builtin_role` takes any
user id. So a run is always tenanted exactly along requests that do not (`tenanted_always_iff`).
-/

namespace Dgraphai.RoleStore

open Auth (Uuid Time User)
open Provisioning (Services Directory Provision WellKeyed Idle)
open RoleTables (Tables Role RoleAssignment)

/-- User and role of every assignment are of its tenant. -/
def Store.Tenanted (s : Store) : Prop := ∀ a ∈ s.tables.assignments,
  (∃ u ∈ s.dir.auth.users, u.id = a.userID ∧ u.tenantID = a.tenantID) ∧
    ∃ r ∈ s.tables.roles, r.id = a.roleID ∧ r.tenantID = a.tenantID

/-- Primary keys, and one assignment of a role to a user. -/
structure Store.Sound (E : Auth.Env) (s : Store) : Prop where
  keyed : WellKeyed E s.dir
  single : (s.tables.assignments.map fun a => (a.userID, a.roleID)).Nodup

/-! ### What a patch asks for -/

/-- A user id under an `add` or a `remove`. -/
structure Change where
  adds : Bool
  userID : Uuid
  deriving DecidableEq, Repr

def memberChanges (S : Services) (adds : Bool) : List Json → Option (List Change)
  | [] => some []
  | member :: members => do
    let id ← memberID S member
    let changes ← memberChanges S adds members
    pure (id.elim changes fun id => ⟨adds, id⟩ :: changes)

def opChanges (S : Services) (op : Json) : Option (List Change) := do
  let name ← opName S op
  if name = "add" then (opMembers op).bind (memberChanges S true)
  else if name = "remove" then (opMembers op).bind (memberChanges S false)
  else some []

/-- The changes of the operations, in the order of the loops; `none` raises. -/
def changesOf (S : Services) : List Json → Option (List Change)
  | [] => some []
  | op :: ops => do
    let changes ← opChanges S op
    let rest ← changesOf S ops
    pure (changes ++ rest)

/-- The last change of a user id is an `add`, or there is none and it was `held` before. -/
def heldAfter (held : Bool) (changes : List Change) (id : Uuid) : Bool :=
  changes.foldl (fun held c => if c.userID = id then c.adds else held) held

/-- A group patch that reaches its operations, reads them all and adds users that are there leaves no user of another
tenant added. -/
def StoreEvent.Confined (S : GroupServices) (s : Store) : StoreEvent → Prop
  | .patchScimGroup now tenantID groupID authorization body =>
    ∀ tenant role s₁ ops changes, scimGroup S now tenantID groupID authorization s = (.ok (tenant, role), s₁) →
      Provisioning.operations body = some ops → changesOf S.toServices ops = some changes →
      (∀ c ∈ changes, c.adds = true → s.dir.Known c.userID) →
      ∀ u ∈ s.dir.auth.users, u.tenantID ≠ tenant → heldAfter false changes u.id = false
  | _ => True

/-! ### Requests on the directory -/

section
variable {α β : Type} {m : Provision α} {f : α → StoreRequest β} {s s' : Store} {a : α} {b : β}

theorem onDirectory_eq_ok : onDirectory m s = (.ok a, s') ↔ ∃ d, m s.dir = (.ok a, d) ∧ { s with dir := d } = s' :=
  Txn.zoom_eq_ok

theorem onDirectory_bind_eq_ok : (onDirectory m >>= f) s = (.ok b, s') ↔
    ∃ a d, m s.dir = (.ok a, d) ∧ f a { s with dir := d } = (.ok b, s') := by
  rw [Txn.bind_eq_ok]
  constructor
  · rintro ⟨a, s₁, h, h'⟩
    obtain ⟨d, hm, rfl⟩ := onDirectory_eq_ok.1 h
    exact ⟨a, d, hm, h'⟩
  · rintro ⟨a, d, hm, h'⟩
    exact ⟨a, _, onDirectory_eq_ok.2 ⟨d, hm, rfl⟩, h'⟩

end

/-- The directory with one user more, made in a tenant. -/
structure Joins (E : Auth.Env) (d d' : Directory) (userID tenantID : Uuid) : Prop where
  kept : ∀ u ∈ d.auth.users, u ∈ d'.auth.users
  joined : ∃ u ∈ d'.auth.users, u.id = userID ∧ u.tenantID = tenantID
  keyed : WellKeyed E d'

section Accounts
variable {S : Services} {d d' : Directory} {now : Time}

theorem insertUser_tenant {user row : User} {edit : Provisioning.Edit}
    (h : Provisioning.insertUser S user edit d = (.ok row, d')) : row.tenantID = user.tenantID := by
  unfold Provisioning.insertUser at h
  simp only [Txn.ofOption_bind_eq_ok, Txn.read_bind_eq_ok, Txn.raiseIf_bind_eq_ok, Txn.write_bind_eq_ok,
    Txn.pure_eq_ok] at h
  obtain ⟨row', hrow, -, rfl, -⟩ := h
  obtain ⟨-, htenant, -⟩ := Provisioning.Edit.row_spec hrow
  exact htenant

theorem insertUser_joins (hinj : Function.Injective S.env.uuid4) (hk : WellKeyed S.env d) {user row : User}
    {edit : Provisioning.Edit} (h : Provisioning.insertUser S user edit d = (.ok row, d')) :
    Joins S.env d d' row.id user.tenantID := by
  have htenant := insertUser_tenant h
  obtain ⟨hid, -, rfl⟩ := Provisioning.insertUser_spec h
  have hadded : (∀ id, d.Known id → (d.addUser row).Known id) ∧ WellKeyed S.env (d.addUser row) :=
    hk.of_append hinj hid rfl rfl rfl rfl
  exact ⟨fun u hu => List.mem_append_left _ hu, ⟨row, List.mem_append_right _ (.head _), rfl, htenant⟩, hadded.2⟩

theorem insertTenant_keyed (hk : WellKeyed S.env d) {slug : String} {tenant : Auth.Tenant} {id : Uuid}
    (h : Provisioning.insertTenant S slug tenant d = (.ok id, d')) :
    d'.auth.users = d.auth.users ∧ WellKeyed S.env d' := by
  unfold Provisioning.insertTenant at h
  simp only [Txn.read_bind_eq_ok, Txn.raiseIf_bind_eq_ok, Txn.write_bind_eq_ok, Txn.pure_eq_ok] at h
  obtain ⟨-, -, rfl⟩ := h
  refine ⟨rfl, hk.users, hk.sessions, hk.keys, fun n hn => ?_⟩
  have hn : d.auth.nextID + 1 ≤ n := hn
  exact hk.fresh n (Nat.le_of_succ_le hn)

theorem Joins.idle {E : Auth.Env} {d₁ : Directory} {userID tenantID : Uuid} (h : Joins E d d₁ userID tenantID)
    (hidle : Idle E d₁ d') (hu : d'.auth.users = d₁.auth.users) : Joins E d d' userID tenantID := by
  refine ⟨fun u hmem => ?_, ?_, hidle.keyed h.keyed⟩
  · rw [hu]
    exact h.kept u hmem
  · rw [hu]
    exact h.joined

variable (hinj : Function.Injective S.env.uuid4) (hk : WellKeyed S.env d)
include hinj hk

theorem signup_joins {hex : String} {req : Provisioning.SignupRequest} {r : Provisioning.SignupResponse}
    (h : Provisioning.signup S now hex req d = (.ok r, d')) : Joins S.env d d' r.userID r.tenantID := by
  unfold Provisioning.signup at h
  obtain ⟨u, db, hvalid, h⟩ := Provisioning.lift_bind_eq_ok.1 h
  obtain rfl := Auth.validatePassword_frame hvalid
  simp only [Txn.read_bind_eq_ok, Provisioning.scalar_bind_eq_ok, Txn.raiseIf_bind_eq_ok] at h
  obtain ⟨o, -, -, h⟩ := h
  obtain ⟨tenantID, d₁, htenant, h⟩ := Txn.bind_eq_ok.1 h
  obtain ⟨row, d₂, hinsert, h⟩ := Txn.bind_eq_ok.1 h
  simp only [Provisioning.lift_bind_eq_ok, Txn.pure_eq_ok] at h
  obtain ⟨u, db, hdb, rfl, rfl⟩ := h
  obtain rfl := Txn.write_eq_ok.1 hdb
  obtain ⟨husers, hkeyed⟩ := insertTenant_keyed hk htenant
  obtain ⟨hkept, hjoined, hkeyed⟩ := insertUser_joins hinj hkeyed hinsert
  rw [husers] at hkept
  have hjoins : Joins S.env d d₂ row.id tenantID := ⟨hkept, hjoined, hkeyed⟩
  exact hjoins.idle (.of_eq rfl rfl rfl rfl) rfl

theorem acceptInvite_joins {req : Provisioning.AcceptInviteRequest} {r : Provisioning.AcceptInviteResponse}
    (h : Provisioning.acceptInvite S now req d = (.ok r, d')) :
    ∃ invite, d.invites (S.env.hashToken req.token) = some invite ∧ Joins S.env d d' r.id invite.tenantID := by
  unfold Provisioning.acceptInvite at h
  simp only [Txn.read_bind_eq_ok, Txn.ofOption_bind_eq_ok, Provisioning.lift_bind_eq_ok] at h
  obtain ⟨invite, hinvite, u, db, hvalid, h⟩ := h
  obtain rfl := Auth.validatePassword_frame hvalid
  obtain ⟨row, d₁, hinsert, h⟩ := Txn.bind_eq_ok.1 h
  simp only [Provisioning.lift_bind_eq_ok, Txn.write_bind_eq_ok, Txn.read_bind_eq_ok, Txn.pure_eq_ok] at h
  obtain ⟨u, db, hdb, rfl, rfl⟩ := h
  obtain rfl := Txn.write_eq_ok.1 hdb
  refine ⟨invite, (Option.filter_eq_some_iff.1 hinvite).1, (insertUser_joins hinj hk hinsert).idle ?_ rfl⟩
  exact .of_eq rfl rfl rfl rfl

theorem createScimUser_joins {tenantID : String} {authorization : Option String} {body : Json.Fields} {row : User}
    (h : Provisioning.createScimUser S now tenantID authorization body d = (.ok row, d')) :
    Joins S.env d d' row.id row.tenantID := by
  unfold Provisioning.createScimUser at h
  obtain ⟨tenant, d₁, htenant, h⟩ := Txn.bind_eq_ok.1 h
  simp only [Txn.ofOption_bind_eq_ok, Txn.raiseIf_bind_eq_ok, Txn.read_bind_eq_ok,
    Provisioning.scalar_bind_eq_ok] at h
  obtain ⟨email, -, -, text, -, o, -, -, role, -, h⟩ := h
  obtain ⟨configs, rfl⟩ := Provisioning.getScimTenant_frame htenant
  have hidle := Provisioning.getScimTenant_idle (E := S.env) htenant
  have hjoins := insertUser_joins hinj (hidle.keyed hk) h
  rw [insertUser_tenant h]
  exact ⟨hjoins.kept, hjoins.joined, hjoins.keyed⟩

end Accounts

/-! ### The helper -/

section Tables
variable {t t' : Tables} {userID tenantID : Uuid} {name : String} {role : Role} {a : RoleAssignment}

theorem addAssignment_eq_ok : t.addAssignment a = .ok t' →
    a.userID ∈ t.users ∧ t'.roles = t.roles ∧ t'.assignments = t.assignments ++ [a] := by
  intro h
  unfold Tables.addAssignment at h
  split_ifs at h with hfk
  obtain rfl := Except.ok.inj h
  exact ⟨hfk.2.1, rfl, rfl⟩

/-- The rows after a role has been given. -/
structure Given (t t' : Tables) (userID : Uuid) (role : Role) : Prop where
  kept : ∀ r ∈ t.roles, r ∈ t'.roles
  there : role ∈ t'.roles
  known : userID ∈ t.users ∨ ∃ a ∈ t.assignments, a.userID = userID ∧ a.roleID = role.id
  rows : t'.assignments = t.assignments ∧ (∃ a ∈ t.assignments, a.userID = userID ∧ a.roleID = role.id) ∨
    t'.assignments = t.assignments ++ [⟨role.tenantID, userID, role.id, none⟩] ∧
      ∀ a ∈ t.assignments, ¬ (a.userID = userID ∧ a.roleID = role.id)

/-- The second half of the call. -/
theorem giving_given {t₁ : Tables} (hkept : ∀ r ∈ t.roles, r ∈ t₁.roles) (hrole : role ∈ t₁.roles)
    (husers : t₁.users = t.users) (hassignments : t₁.assignments = t.assignments)
    (h : (RoleTables.scalarOneOrNone (t₁.assigned userID role.id)).bind (fun found => match found with
      | some _ => pure t₁
      | none => t₁.addAssignment ⟨role.tenantID, userID, role.id, none⟩) = .ok t') :
    Given t t' userID role := by
  have hassigned : ∀ a, a ∈ t₁.assigned userID role.id ↔
      a ∈ t.assignments ∧ a.userID = userID ∧ a.roleID = role.id := by
    intro a
    rw [Tables.assigned, List.mem_filter, decide_eq_true_iff, hassignments]
  rcases hlist : t₁.assigned userID role.id with _ | ⟨a, _ | ⟨b, rest⟩⟩
  · rw [hlist] at h hassigned
    obtain ⟨hknown, hroles, hadded⟩ := addAssignment_eq_ok h
    rw [hassignments] at hadded
    rw [husers] at hknown
    refine ⟨hroles ▸ hkept, hroles ▸ hrole, .inl hknown, .inr ⟨hadded, fun a ha hsame => ?_⟩⟩
    cases (hassigned a).2 ⟨ha, hsame⟩
  · rw [hlist] at h hassigned
    obtain rfl := Except.ok.inj h
    obtain ⟨ha, hsame⟩ := (hassigned a).1 (.head _)
    exact ⟨hkept, hrole, .inr ⟨a, ha, hsame⟩, .inl ⟨hassignments, a, ha, hsame⟩⟩
  · rw [hlist] at h
    cases h

theorem assignBuiltinRole_given (h : t.assignBuiltinRole userID tenantID name = .ok t') :
    ∃ role, role.tenantID = tenantID ∧ role.name = name ∧ Given t t' userID role := by
  unfold Tables.assignBuiltinRole at h
  rcases t.rolesNamed_cases tenantID name with hnone | ⟨role, hrole, hone⟩
  · rw [Tables.ensureRole_of_none hnone] at h
    by_cases htenant : tenantID ∈ t.tenants
    · obtain ⟨role, t₁, hadd, hnew, htenants, husers, hroles, hassignments⟩ :=
        @Tables.addRole_ok t tenantID name (.ofName name) (RoleTables.builtinPermissions (.ofName name)) true htenant hnone
      rw [hadd] at h
      obtain ⟨rfl, rfl⟩ : role.tenantID = tenantID ∧ role.name = name := by rw [hnew]; exact ⟨rfl, rfl⟩
      exact ⟨role, rfl, rfl, giving_given (fun r hr => hroles ▸ List.mem_append_left _ hr)
        (hroles ▸ List.mem_append_right _ (.head _)) husers hassignments h⟩
    · have herror : t.addRole tenantID name (.ofName name) (RoleTables.builtinPermissions (.ofName name)) true =
          .error .integrity := dif_neg fun hfk => htenant hfk.1
      rw [herror] at h
      cases h
  · rw [Tables.ensureRole_of_role hone] at h
    have hmem : role ∈ t.rolesNamed tenantID name := hone ▸ .head _
    obtain ⟨-, hcond⟩ := List.mem_filter.1 hmem
    obtain ⟨rfl, rfl⟩ : role.tenantID = tenantID ∧ role.name = name := of_decide_eq_true hcond
    exact ⟨role, rfl, rfl, giving_given (fun _ hr => hr) hrole rfl rfl h⟩

theorem role_unique {role' : Role} (h : role ∈ t.roles) (h' : role' ∈ t.roles)
    (htenant : role'.tenantID = role.tenantID) (hname : role'.name = role.name) : role' = role :=
  List.inj_on_of_nodup_map t.named h' h (by rw [htenant, hname])

/-- A user that is there can be given a role that is there. -/
theorem assignBuiltinRole_ok (hsingle : (t.assignments.map fun a => (a.userID, a.roleID)).Nodup)
    (hrole : role ∈ t.roles) (htenant : role.tenantID ∈ t.tenants) (huser : userID ∈ t.users) :
    ∃ t', t.assignBuiltinRole userID role.tenantID role.name = .ok t' := by
  have hmem : role ∈ t.rolesNamed role.tenantID role.name :=
    List.mem_filter.2 ⟨hrole, decide_eq_true ⟨rfl, rfl⟩⟩
  have hone : t.rolesNamed role.tenantID role.name = [role] := by
    rcases t.rolesNamed_cases role.tenantID role.name with hnone | ⟨r, -, hone⟩
    · rw [hnone] at hmem
      cases hmem
    · rw [hone] at hmem ⊢
      rw [List.mem_singleton.1 hmem]
  unfold Tables.assignBuiltinRole
  rw [Tables.ensureRole_of_role hone]
  show ∃ t', (RoleTables.scalarOneOrNone (t.assigned userID role.id)).bind _ = .ok t'
  rcases hlist : t.assigned userID role.id with _ | ⟨a, _ | ⟨b, rest⟩⟩
  · obtain ⟨t', hadd, -⟩ :=
      @Tables.addAssignment_ok t ⟨role.tenantID, userID, role.id, none⟩ ⟨htenant, huser, role, hrole, rfl⟩
    exact ⟨t', hadd⟩
  · exact ⟨t, rfl⟩
  · have hkey : ∀ c ∈ t.assigned userID role.id, (c.userID, c.roleID) = (userID, role.id) := by
      intro c hc
      obtain ⟨huser, hid⟩ : c.userID = userID ∧ c.roleID = role.id := of_decide_eq_true (List.mem_filter.1 hc).2
      rw [huser, hid]
    have hnodup : ((t.assigned userID role.id).map fun a => (a.userID, a.roleID)).Nodup :=
      hsingle.sublist (List.filter_sublist.map _)
    rw [hlist] at hkey hnodup
    have hsame : (b.userID, b.roleID) = (a.userID, a.roleID) :=
      (hkey b (.tail _ (.head _))).trans (hkey a (.head _)).symm
    exact absurd (List.mem_map.2 ⟨b, .head _, hsame⟩) (List.nodup_cons.1 hnodup).1

end Tables

/-! ### The changes of a patch -/

def Change.act (role : Role) (c : Change) : StoreRequest Unit :=
  if c.adds then assignRole c.userID role.tenantID role.name
  else Txn.write fun s => { s with tables := s.tables.unassign c.userID role.id }

def acts (role : Role) : List Change → StoreRequest Unit
  | [] => pure ()
  | c :: changes => do
    c.act role
    acts role changes

section Changes
variable {S : Services} {s s' : Store} {role : Role} {u : Unit}

theorem acts_append_eq_ok {changes rest : List Change} : acts role (changes ++ rest) s = (.ok u, s') ↔
    ∃ s₁, acts role changes s = (.ok (), s₁) ∧ acts role rest s₁ = (.ok u, s') := by
  induction changes generalizing s with
  | nil =>
    constructor
    · intro h
      exact ⟨s, rfl, h⟩
    · rintro ⟨s₁, h, h'⟩
      obtain ⟨-, rfl⟩ := Txn.pure_eq_ok.1 h
      exact h'
  | cons c changes ih =>
    rw [List.cons_append, acts, acts, Txn.bind_eq_ok]
    simp only [ih, Txn.bind_eq_ok]
    constructor
    · rintro ⟨v, s₁, hc, s₂, h, h'⟩
      exact ⟨s₂, ⟨v, s₁, hc, h⟩, h'⟩
    · rintro ⟨s₂, ⟨v, s₁, hc, h⟩, h'⟩
      exact ⟨v, s₁, hc, s₂, h, h'⟩

theorem forMembers_eq_ok {act : Uuid → StoreRequest Unit} {adds : Bool}
    (hact : ∀ id, act id = Change.act role ⟨adds, id⟩) {members : List Json} :
    forMembers S act members s = (.ok u, s') ↔
      ∃ changes, memberChanges S adds members = some changes ∧ acts role changes s = (.ok u, s') := by
  induction members generalizing s with
  | nil => simp [forMembers, memberChanges, acts]
  | cons member members ih =>
    rw [forMembers, Txn.ofOption_bind_eq_ok]
    simp only [memberChanges, Option.bind_eq_bind, Option.bind_eq_some_iff, Option.pure_def, Option.some.injEq]
    constructor
    · rintro ⟨id, hid, h⟩
      obtain ⟨v, s₁, hfirst, h⟩ := Txn.bind_eq_ok.1 h
      obtain ⟨changes, hchanges, hrest⟩ := ih.1 h
      refine ⟨_, ⟨id, hid, changes, hchanges, rfl⟩, ?_⟩
      cases id with
      | none =>
        obtain ⟨-, rfl⟩ := Txn.pure_eq_ok.1 hfirst
        exact hrest
      | some id =>
        rw [Option.elim_some, hact] at hfirst
        exact Txn.bind_eq_ok.2 ⟨v, s₁, hfirst, hrest⟩
    · rintro ⟨_, ⟨id, hid, changes, hchanges, rfl⟩, h⟩
      refine ⟨id, hid, Txn.bind_eq_ok.2 ?_⟩
      cases id with
      | none => exact ⟨(), s, rfl, ih.2 ⟨changes, hchanges, h⟩⟩
      | some id =>
        obtain ⟨v, s₁, hfirst, h⟩ := Txn.bind_eq_ok.1 h
        rw [← hact] at hfirst
        exact ⟨v, s₁, hfirst, ih.2 ⟨changes, hchanges, h⟩⟩

/-- One operation over its members. -/
theorem opMembers_eq_ok {op : Json} {act : Uuid → StoreRequest Unit} {adds : Bool}
    (hact : ∀ id, act id = Change.act role ⟨adds, id⟩) :
    (Txn.ofOption Auth.serverError (opMembers op) >>= forMembers S act) s = (.ok u, s') ↔
      ∃ changes, (opMembers op).bind (memberChanges S adds) = some changes ∧ acts role changes s = (.ok u, s') := by
  simp only [Txn.ofOption_bind_eq_ok, forMembers_eq_ok hact, Option.bind_eq_some_iff]
  constructor
  · rintro ⟨members, hmembers, changes, hchanges, h⟩
    exact ⟨changes, ⟨members, hmembers, hchanges⟩, h⟩
  · rintro ⟨changes, ⟨members, hmembers, hchanges⟩, h⟩
    exact ⟨members, hmembers, changes, hchanges, h⟩

theorem groupOp_eq_ok {op : Json} : groupOp S role.tenantID role op s = (.ok u, s') ↔
    ∃ changes, opChanges S op = some changes ∧ acts role changes s = (.ok u, s') := by
  rw [groupOp, Txn.ofOption_bind_eq_ok, opChanges]
  cases opName S op with
  | none => simp
  | some name =>
    simp only [Option.some.injEq, exists_eq_left', Option.bind_eq_bind, Option.bind_some]
    split_ifs
    · exact opMembers_eq_ok fun _ => rfl
    · exact opMembers_eq_ok fun _ => rfl
    · simp [acts]

/-- The loops make the changes that the operations read as. -/
theorem groupOps_eq_ok {ops : List Json} : groupOps S role.tenantID role ops s = (.ok u, s') ↔
    ∃ changes, changesOf S ops = some changes ∧ acts role changes s = (.ok u, s') := by
  induction ops generalizing s with
  | nil => simp [groupOps, changesOf, acts]
  | cons op ops ih =>
    rw [groupOps, Txn.bind_eq_ok, changesOf]
    simp only [groupOp_eq_ok, ih, Option.bind_eq_bind, Option.bind_eq_some_iff, Option.pure_def, Option.some.injEq]
    constructor
    · rintro ⟨_, s₁, ⟨changes, hchanges, h⟩, rest, hrest, h'⟩
      exact ⟨_, ⟨changes, hchanges, rest, hrest, rfl⟩, acts_append_eq_ok.2 ⟨s₁, h, h'⟩⟩
    · rintro ⟨_, ⟨changes, hchanges, rest, hrest, rfl⟩, h⟩
      obtain ⟨s₁, h, h'⟩ := acts_append_eq_ok.1 h
      exact ⟨(), s₁, ⟨changes, hchanges, h⟩, rest, hrest, h'⟩

theorem assignRole_eq_ok {userID tenantID : Uuid} {name : String} : assignRole userID tenantID name s = (.ok u, s') ↔
    ∃ t, (s.tablesOf tenantID).assignBuiltinRole userID tenantID name = .ok t ∧ { s with tables := t } = s' := by
  rw [assignRole, Txn.read_bind_eq_ok, Txn.ofOption_bind_eq_ok]
  cases (s.tablesOf tenantID).assignBuiltinRole userID tenantID name with
  | error e => simp [Except.toOption]
  | ok t => simp [Except.toOption]

theorem Given.mem_assignments {t t' : Tables} {userID : Uuid} {a : RoleAssignment} (h : Given t t' userID role)
    (ha : a ∈ t'.assignments) : a ∈ t.assignments ∨ a = ⟨role.tenantID, userID, role.id, none⟩ := by
  rcases h.rows with ⟨hsame, -⟩ | ⟨hadded, -⟩
  · exact .inl (hsame ▸ ha)
  · rw [hadded, List.mem_append, List.mem_singleton] at ha
    exact ha

theorem Given.subset {t t' : Tables} {userID : Uuid} {a : RoleAssignment} (h : Given t t' userID role)
    (ha : a ∈ t.assignments) : a ∈ t'.assignments := by
  rcases h.rows with ⟨hsame, -⟩ | ⟨hadded, -⟩
  · exact hsame ▸ ha
  · exact hadded ▸ List.mem_append_left _ ha

theorem Given.held {t t' : Tables} {userID : Uuid} (h : Given t t' userID role) :
    ∃ a ∈ t'.assignments, a.userID = userID ∧ a.roleID = role.id := by
  rcases h.rows with ⟨hsame, hheld⟩ | ⟨hadded, -⟩
  · exact hsame ▸ hheld
  · exact ⟨_, hadded ▸ List.mem_append_right _ (.head _), rfl, rfl⟩

theorem Given.single {t t' : Tables} {userID : Uuid} (h : Given t t' userID role)
    (hsingle : (t.assignments.map fun a => (a.userID, a.roleID)).Nodup) :
    (t'.assignments.map fun a => (a.userID, a.roleID)).Nodup := by
  rcases h.rows with ⟨hsame, -⟩ | ⟨hadded, hnone⟩
  · rw [hsame]
    exact hsingle
  · rw [hadded, List.map_append, List.map_singleton]
    refine List.nodup_append'.2 ⟨hsingle, List.nodup_singleton _, List.disjoint_singleton.2 fun hmem => ?_⟩
    obtain ⟨a, ha, hkey⟩ := List.mem_map.1 hmem
    exact hnone a ha (Prod.mk.inj hkey)

/-- The user has the role. -/
def Store.Held (s : Store) (role : Role) (userID : Uuid) : Prop :=
  ∃ a ∈ s.tables.assignments, a.userID = userID ∧ a.roleID = role.id

/-- What holds while a patch makes its changes: the assignments of its role are of the role's tenant. -/
structure Serving (role : Role) (s : Store) : Prop where
  ofTenant : ∀ a ∈ s.tables.assignments, a.roleID = role.id → a.tenantID = role.tenantID
  known : ∀ a ∈ s.tables.assignments, s.dir.Known a.userID
  there : role ∈ s.tables.roles
  tenant : (s.dir.auth.tenants role.tenantID).isSome
  single : (s.tables.assignments.map fun a => (a.userID, a.roleID)).Nodup

/-- The store after changes, told from the one before. -/
structure Changed (role : Role) (s s' : Store) (held : Uuid → Prop) : Prop where
  dir : s'.dir = s.dir
  roles : ∀ r ∈ s.tables.roles, r ∈ s'.tables.roles
  others : ∀ a : RoleAssignment, a.roleID ≠ role.id → (a ∈ s'.tables.assignments ↔ a ∈ s.tables.assignments)
  held : ∀ id, s'.Held role id ↔ held id

theorem Serving.assignRole (h : Serving role s) {userID : Uuid}
    (hok : assignRole userID role.tenantID role.name s = (.ok u, s')) :
    s.dir.Known userID ∧ Serving role s' ∧ Changed role s s' (fun id => userID = id ∨ s.Held role id) := by
  obtain ⟨t, hgive, rfl⟩ := assignRole_eq_ok.1 hok
  obtain ⟨role', htenant, hname, hgiven⟩ := assignBuiltinRole_given hgive
  have hkept : role ∈ t.roles := hgiven.kept role h.there
  obtain rfl : role' = role := role_unique hkept hgiven.there htenant hname
  have hknown : s.dir.Known userID := by
    rcases hgiven.known with husers | ⟨a, ha, rfl, -⟩
    · obtain ⟨user, hmem, hid⟩ := List.mem_map.1 husers
      exact ⟨user, hmem, hid⟩
    · exact h.known a ha
  refine ⟨hknown, ⟨fun a ha hid => ?_, fun a ha => ?_, hkept, h.tenant, hgiven.single h.single⟩, rfl, hgiven.kept,
    fun a hid => ?_, fun id => ?_⟩
  · rcases hgiven.mem_assignments ha with ha | rfl
    · exact h.ofTenant a ha hid
    · rfl
  · rcases hgiven.mem_assignments ha with ha | rfl
    · exact h.known a ha
    · exact hknown
  · refine ⟨fun ha => ?_, hgiven.subset⟩
    rcases hgiven.mem_assignments ha with ha | rfl
    · exact ha
    · exact absurd rfl hid
  · constructor
    · rintro ⟨a, ha, rfl, hid⟩
      rcases hgiven.mem_assignments ha with ha | rfl
      · exact .inr ⟨a, ha, rfl, hid⟩
      · exact .inl rfl
    · rintro (rfl | ⟨a, ha, hsame⟩)
      · exact hgiven.held
      · exact ⟨a, hgiven.subset ha, hsame⟩

theorem Serving.unassign (h : Serving role s) (userID : Uuid) {s' : Store}
    (hs' : { s with tables := s.tables.unassign userID role.id } = s') :
    Serving role s' ∧ Changed role s s' (fun id => userID ≠ id ∧ s.Held role id) := by
  subst hs'
  have hmem : ∀ a, a ∈ (s.tables.unassign userID role.id).assignments ↔
      a ∈ s.tables.assignments ∧ ¬ (a.userID = userID ∧ a.roleID = role.id) := by
    intro a
    rw [Tables.unassign, List.mem_filter, decide_eq_true_iff]
  refine ⟨⟨fun a ha => h.ofTenant a ((hmem a).1 ha).1, fun a ha => h.known a ((hmem a).1 ha).1, h.there, h.tenant,
    h.single.sublist (List.filter_sublist.map _)⟩, rfl, fun _ hr => hr, fun a hid => ?_, fun id => ?_⟩
  · exact (hmem a).trans (and_iff_left fun hsame => hid hsame.2)
  · constructor
    · rintro ⟨a, ha, rfl, hid⟩
      obtain ⟨ha, hno⟩ := (hmem a).1 ha
      exact ⟨fun heq => hno ⟨heq.symm, hid⟩, a, ha, rfl, hid⟩
    · rintro ⟨hne, a, ha, rfl, hid⟩
      exact ⟨a, (hmem a).2 ⟨ha, fun hsame => hne hsame.1.symm⟩, rfl, hid⟩

/-- What one change makes of the store. -/
theorem Serving.act {c : Change} (h : Serving role s) (hok : c.act role s = (.ok u, s')) :
    (c.adds = true → s.dir.Known c.userID) ∧ Serving role s' ∧
      Changed role s s' (fun id => if c.userID = id then c.adds = true else s.Held role id) := by
  unfold Change.act at hok
  split_ifs at hok with hadds
  · obtain ⟨hknown, hserving, hchanged⟩ := h.assignRole hok
    refine ⟨fun _ => hknown, hserving, hchanged.dir, hchanged.roles, hchanged.others, fun id => ?_⟩
    rw [hchanged.held]
    split_ifs with hid <;> simp [hid, hadds]
  · obtain ⟨hserving, hchanged⟩ := h.unassign c.userID (Txn.write_eq_ok.1 hok)
    refine ⟨fun htrue => absurd htrue hadds, hserving, hchanged.dir, hchanged.roles, hchanged.others, fun id => ?_⟩
    rw [hchanged.held]
    split_ifs with hid <;> simp [hid, hadds]

theorem Serving.exists_act {c : Change} (h : Serving role s) (hknown : c.adds = true → s.dir.Known c.userID) :
    ∃ s', c.act role s = (.ok (), s') := by
  unfold Change.act
  split_ifs with hadds
  · obtain ⟨user, hmem, hid⟩ := hknown hadds
    have htenant : role.tenantID ∈ (s.tablesOf role.tenantID).tenants := by
      rw [Store.tablesOf, if_pos h.tenant]
      exact .head _
    obtain ⟨t, ht⟩ := assignBuiltinRole_ok (t := s.tablesOf role.tenantID) h.single h.there htenant
      (List.mem_map.2 ⟨user, hmem, hid⟩)
    exact ⟨_, assignRole_eq_ok.2 ⟨t, ht, rfl⟩⟩
  · exact ⟨_, rfl⟩

/-- What the changes of a patch make of the store. -/
theorem Serving.acts {changes : List Change} (h : Serving role s) (hok : acts role changes s = (.ok u, s')) :
    (∀ c ∈ changes, c.adds = true → s.dir.Known c.userID) ∧ Serving role s' ∧
      ∀ held : Uuid → Bool, (∀ id, held id = true ↔ s.Held role id) →
        Changed role s s' (fun id => heldAfter (held id) changes id = true) := by
  induction changes generalizing s with
  | nil =>
    obtain ⟨-, rfl⟩ := Txn.pure_eq_ok.1 hok
    refine ⟨fun _ hc => ?_, h, fun held hheld => ⟨rfl, fun _ hr => hr, fun _ _ => Iff.rfl, fun id => (hheld id).symm⟩⟩
    cases hc
  | cons c changes ih =>
    obtain ⟨v, s₁, hc, hrest⟩ := Txn.bind_eq_ok.1 hok
    obtain ⟨hknown, hserving, hchanged⟩ := h.act hc
    obtain ⟨hknowns, hserving', hafter⟩ := ih hserving hrest
    refine ⟨?_, hserving', fun held hheld => ?_⟩
    · rw [List.forall_mem_cons]
      refine ⟨hknown, fun c' hc' hadds => ?_⟩
      have hk := hknowns c' hc' hadds
      rwa [hchanged.dir] at hk
    · have hlater := hafter (fun id => if c.userID = id then c.adds else held id) fun id => by
        rw [hchanged.held]
        split_ifs
        · exact Iff.rfl
        · exact hheld id
      exact ⟨hlater.dir.trans hchanged.dir, fun r hr => hlater.roles r (hchanged.roles r hr),
        fun a ha => (hlater.others a ha).trans (hchanged.others a ha), hlater.held⟩

theorem Serving.exists_acts {changes : List Change} (h : Serving role s)
    (hknown : ∀ c ∈ changes, c.adds = true → s.dir.Known c.userID) :
    ∃ s', RoleStore.acts role changes s = (.ok (), s') := by
  induction changes generalizing s with
  | nil => exact ⟨s, rfl⟩
  | cons c changes ih =>
    rw [List.forall_mem_cons] at hknown
    obtain ⟨s₁, hc⟩ := h.exists_act hknown.1
    obtain ⟨-, hserving, hchanged⟩ := h.act hc
    obtain ⟨s', hs'⟩ := ih hserving fun c' hc' hadds => by
      rw [hchanged.dir]
      exact hknown.2 c' hc' hadds
    exact ⟨s', Txn.bind_eq_ok.2 ⟨(), s₁, hc, hs'⟩⟩

end Changes

/-! ### One request -/

section
variable {S : GroupServices} {s s' s₁ : Store} {now : Time} {tenantID groupID : String} {authorization : Option String}
  {tenant : Uuid} {role : Role} {body : Json.Fields}

theorem getScimTenant_tenant {S : Services} {d d' : Directory}
    (h : Provisioning.getScimTenant S now tenantID authorization d = (.ok tenant, d')) :
    (d.auth.tenants tenant).isSome := by
  unfold Provisioning.getScimTenant at h
  simp only [Txn.raiseIf_bind_eq_ok, Txn.ofOption_bind_eq_ok, Txn.read_bind_eq_ok, Provisioning.scalar_bind_eq_ok,
    Txn.write_bind_eq_ok, Txn.pure_eq_ok] at h
  obtain ⟨-, id, -, o, -, config, -, row, hrow, rfl, -⟩ := h
  rw [(Option.filter_eq_some_iff.1 hrow).1]
  rfl

theorem scimGroup_spec (h : scimGroup S now tenantID groupID authorization s = (.ok (tenant, role), s₁)) :
    role ∈ s.tables.roles ∧ role.tenantID = tenant ∧ (s.dir.auth.tenants tenant).isSome ∧
      ∃ configs, s₁ = { s with dir := { s.dir with scimConfigs := configs } } := by
  unfold scimGroup at h
  simp only [onDirectory_bind_eq_ok, Txn.ofOption_bind_eq_ok, Txn.read_bind_eq_ok, Txn.pure_eq_ok] at h
  obtain ⟨tenant', d, hscim, id, -, role', hrole, heq, rfl⟩ := h
  obtain ⟨rfl, rfl⟩ := Prod.mk.inj heq
  obtain ⟨configs, rfl⟩ := Provisioning.getScimTenant_frame hscim
  have hcond := List.find?_some hrole
  simp only [decide_eq_true_iff] at hcond
  exact ⟨List.mem_of_find?_eq_some hrole, hcond.2, getScimTenant_tenant hscim, configs, rfl⟩

theorem serving (hs : s.Sound S.env) (ht : s.Tenanted) (hrole : role ∈ s.tables.roles)
    (htenant : (s.dir.auth.tenants role.tenantID).isSome) : Serving role s := by
  refine ⟨fun a ha hid => ?_, fun a ha => ?_, hrole, htenant, hs.single⟩
  · obtain ⟨-, r, hr, hrid, hrtenant⟩ := ht a ha
    obtain rfl : r = role := List.inj_on_of_nodup_map s.tables.keyed hr hrole (hrid.trans hid)
    exact hrtenant.symm
  · obtain ⟨⟨u, hu, hid, -⟩, -⟩ := ht a ha
    exact ⟨u, hu, hid⟩

theorem patchScimGroup_eq_ok : patchScimGroup S now tenantID groupID authorization body s = (.ok role, s') ↔
    ∃ tenant s₁ ops changes, scimGroup S now tenantID groupID authorization s = (.ok (tenant, role), s₁) ∧
      Provisioning.operations body = some ops ∧ changesOf S.toServices ops = some changes ∧
      acts role changes s₁ = (.ok (), s') := by
  rw [patchScimGroup, Txn.bind_eq_ok]
  constructor
  · rintro ⟨⟨tenant, role'⟩, s₁, hgroup, h⟩
    obtain ⟨ops, hops, h⟩ := Txn.ofOption_bind_eq_ok.1 h
    obtain ⟨u, s₂, hloops, h⟩ := Txn.bind_eq_ok.1 h
    obtain ⟨rfl, rfl⟩ := Txn.pure_eq_ok.1 h
    obtain ⟨-, rfl, -⟩ := scimGroup_spec hgroup
    obtain ⟨changes, hchanges, hacts⟩ := groupOps_eq_ok.1 hloops
    exact ⟨_, s₁, ops, changes, hgroup, hops, hchanges, hacts⟩
  · rintro ⟨tenant, s₁, ops, changes, hgroup, hops, hchanges, hacts⟩
    obtain ⟨-, rfl, -⟩ := scimGroup_spec hgroup
    exact ⟨_, s₁, hgroup, Txn.ofOption_bind_eq_ok.2
      ⟨ops, hops, Txn.bind_eq_ok.2 ⟨(), s', groupOps_eq_ok.2 ⟨changes, hchanges, hacts⟩, rfl⟩⟩⟩

/-- After changes the store is tenanted exactly if the changes leave no user of another tenant added. -/
theorem Serving.tenanted_iff {changes : List Change} {u : Unit} (h : Serving role s) (hs : s.Sound S.env)
    (ht : s.Tenanted) (hok : RoleStore.acts role changes s = (.ok u, s')) :
    s'.Tenanted ↔ ∀ u ∈ s.dir.auth.users, u.tenantID ≠ role.tenantID → heldAfter false changes u.id = false := by
  obtain ⟨-, hserving, hafter⟩ := h.acts hok
  classical
  have hchanged := hafter (fun id => decide (s.Held role id)) fun id => decide_eq_true_iff
  -- nobody of another tenant had the role before
  have hforeign : ∀ u ∈ s.dir.auth.users, u.tenantID ≠ role.tenantID → ¬ s.Held role u.id := by
    rintro u hu hne ⟨a, ha, hid, hrole⟩
    obtain ⟨⟨v, hv, hvid, htenant⟩, -⟩ := ht a ha
    obtain rfl : v = u := hs.keyed.unique hv hu (hvid.trans hid)
    exact hne (htenant.trans (h.ofTenant a ha hrole))
  constructor
  · intro ht' u hu hne
    by_contra hheld
    have hdecide : decide (s.Held role u.id) = false := decide_eq_false (hforeign u hu hne)
    have hheld : s'.Held role u.id := (hchanged.held u.id).2 (by rw [hdecide]; exact eq_true_of_ne_false hheld)
    obtain ⟨a, ha, hid, hrole⟩ := hheld
    obtain ⟨⟨v, hv, hvid, htenant⟩, -⟩ := ht' a ha
    rw [hchanged.dir] at hv
    obtain rfl : v = u := hs.keyed.unique hv hu (hvid.trans hid)
    exact hne (htenant.trans (hserving.ofTenant a ha hrole))
  · intro hnone a ha
    by_cases hrole : a.roleID = role.id
    · have htenant := hserving.ofTenant a ha hrole
      obtain ⟨u, hu, hid⟩ := hserving.known a ha
      refine ⟨⟨u, hu, hid, ?_⟩, role, hserving.there, hrole.symm, htenant.symm⟩
      rw [hchanged.dir] at hu
      by_contra hne
      rw [htenant] at hne
      have hheld := (hchanged.held u.id).1 ⟨a, ha, hid.symm, hrole⟩
      rw [decide_eq_false (hforeign u hu hne), hnone u hu hne] at hheld
      cases hheld
    · obtain ⟨huser, r, hr, hrid⟩ := ht a ((hchanged.others a hrole).1 ha)
      rw [← hchanged.dir] at huser
      exact ⟨huser, r, hchanged.roles r hr, hrid⟩

/-- The store once the group is found. -/
theorem scimGroup_serving (hs : s.Sound S.env) (ht : s.Tenanted)
    (h : scimGroup S now tenantID groupID authorization s = (.ok (tenant, role), s₁)) :
    s₁.Sound S.env ∧ s₁.Tenanted ∧ Serving role s₁ ∧ role.tenantID = tenant ∧ s₁.dir.auth = s.dir.auth := by
  obtain ⟨hrole, rfl, htenant, configs, rfl⟩ := scimGroup_spec h
  have hidle : Idle S.env s.dir { s.dir with scimConfigs := configs } := .of_eq rfl rfl rfl rfl
  have hs₁ : Store.Sound S.env { s with dir := { s.dir with scimConfigs := configs } } :=
    ⟨hidle.keyed hs.keyed, hs.single⟩
  exact ⟨hs₁, ht, serving hs₁ ht hrole htenant, rfl, rfl⟩

/-- A group patch that returns keeps a store tenanted exactly if it is confined. -/
theorem patchScimGroup_tenanted_iff (hs : s.Sound S.env) (ht : s.Tenanted)
    (h : patchScimGroup S now tenantID groupID authorization body s = (.ok role, s')) :
    s'.Sound S.env ∧ (s'.Tenanted ↔ (StoreEvent.patchScimGroup now tenantID groupID authorization body).Confined S s) := by
  obtain ⟨tenant, s₁, ops, changes, hgroup, hops, hchanges, hacts⟩ := patchScimGroup_eq_ok.1 h
  obtain ⟨hs₁, ht₁, hserving, rfl, hauth⟩ := scimGroup_serving hs ht hgroup
  obtain ⟨hknown, hserving', hafter⟩ := hserving.acts hacts
  classical
  have hdir := (hafter (fun id => decide (s₁.Held role id)) fun id => decide_eq_true_iff).dir
  refine ⟨⟨hdir ▸ hs₁.keyed, hserving'.single⟩, (hserving.tenanted_iff hs₁ ht₁ hacts).trans ?_⟩
  rw [hauth]
  constructor
  · intro hnone tenant' role' s₂ ops' changes' hgroup' hops' hchanges' _
    obtain ⟨heq, -⟩ := Txn.ok_unique hgroup hgroup'
    obtain ⟨rfl, rfl⟩ := Prod.mk.inj heq
    obtain rfl := Option.some.inj (hops.symm.trans hops')
    obtain rfl := Option.some.inj (hchanges.symm.trans hchanges')
    exact hnone
  · intro hconfined
    refine hconfined _ role s₁ ops changes hgroup hops hchanges fun c hc hadds => ?_
    have hk := hknown c hc hadds
    rwa [Directory.Known, hauth] at hk

/-- A group patch that is read and adds users that are there returns. -/
theorem confined_of_raises (hs : s.Sound S.env) (ht : s.Tenanted)
    (h : ∀ role t, patchScimGroup S now tenantID groupID authorization body s ≠ (.ok role, t)) :
    (StoreEvent.patchScimGroup now tenantID groupID authorization body).Confined S s := by
  intro tenant role s₁ ops changes hgroup hops hchanges hknown
  obtain ⟨-, -, hserving, rfl, hauth⟩ := scimGroup_serving hs ht hgroup
  obtain ⟨s₂, hacts⟩ := hserving.exists_acts fun c hc hadds => by
    rw [Directory.Known, hauth]
    exact hknown c hc hadds
  exact absurd (patchScimGroup_eq_ok.2 ⟨_, s₁, ops, changes, hgroup, hops, hchanges, hacts⟩) (h role s₂)

/-- The role given with an account is of the tenant of its user. -/
theorem assignRole_tenanted {E : Auth.Env} {d : Directory} {userID tenant : Uuid} {name : String} {u : Unit}
    (hs : s.Sound E) (ht : s.Tenanted) (hd : Joins E s.dir d userID tenant)
    (h : assignRole userID tenant name { s with dir := d } = (.ok u, s')) : s'.Sound E ∧ s'.Tenanted := by
  obtain ⟨t, hgive, rfl⟩ := assignRole_eq_ok.1 h
  obtain ⟨role, rfl, -, hgiven⟩ := assignBuiltinRole_given hgive
  refine ⟨⟨hd.keyed, hgiven.single hs.single⟩, fun a ha => ?_⟩
  rcases hgiven.mem_assignments ha with ha | rfl
  · obtain ⟨⟨user, huser, hid, htenant⟩, r, hr, hrole⟩ := ht a ha
    exact ⟨⟨user, hd.kept user huser, hid, htenant⟩, r, hgiven.kept r hr, hrole⟩
  · exact ⟨hd.joined, role, hgiven.there, rfl, rfl⟩

/-! ### Runs -/

theorem discard_eq_ok {α : Type} {m : StoreRequest α} {u : Unit} :
    (m >>= fun _ => (pure () : StoreRequest Unit)) s = (.ok u, s') ↔ ∃ a, m s = (.ok a, s') := by
  rw [Txn.bind_eq_ok]
  simp only [Txn.pure_eq_ok, true_and, exists_eq_right]

/-- An account is made with a role of its tenant. -/
theorem StoreEvent.body_tenanted_iff (hinj : Function.Injective S.env.uuid4) (hs : s.Sound S.env) (ht : s.Tenanted)
    (e : StoreEvent) {u : Unit} (h : e.body S s = (.ok u, s')) : s'.Sound S.env ∧ (s'.Tenanted ↔ e.Confined S s) := by
  have haccount : s'.Sound S.env ∧ s'.Tenanted → s'.Sound S.env ∧ (s'.Tenanted ↔ True) :=
    fun hgood => ⟨hgood.1, iff_of_true hgood.2 trivial⟩
  cases e with
  | signup now hex req =>
    obtain ⟨r, hok⟩ := discard_eq_ok.1 h
    obtain ⟨r, d, hsignup, hok⟩ := onDirectory_bind_eq_ok.1 hok
    obtain ⟨v, s₂, hassign, hpure⟩ := Txn.bind_eq_ok.1 hok
    obtain ⟨-, rfl⟩ := Txn.pure_eq_ok.1 hpure
    exact haccount (assignRole_tenanted hs ht (signup_joins hinj hs.keyed hsignup) hassign)
  | acceptInvite now req =>
    obtain ⟨r, hok⟩ := discard_eq_ok.1 h
    simp only [RoleStore.acceptInvite, Txn.read_bind_eq_ok, onDirectory_bind_eq_ok, Txn.ofOption_bind_eq_ok] at hok
    obtain ⟨r, d, haccept, invite, hinvite, name, -, hok⟩ := hok
    obtain ⟨v, s₂, hassign, hpure⟩ := Txn.bind_eq_ok.1 hok
    obtain ⟨-, rfl⟩ := Txn.pure_eq_ok.1 hpure
    obtain ⟨invite', hinvite', hjoins⟩ := acceptInvite_joins hinj hs.keyed haccept
    obtain rfl := Option.some.inj (hinvite.symm.trans hinvite')
    exact haccount (assignRole_tenanted hs ht hjoins hassign)
  | createScimUser now tenantID authorization body =>
    obtain ⟨r, hok⟩ := discard_eq_ok.1 h
    simp only [RoleStore.createScimUser, onDirectory_bind_eq_ok, Txn.ofOption_bind_eq_ok] at hok
    obtain ⟨row, d, hcreate, name, -, hok⟩ := hok
    obtain ⟨v, s₂, hassign, hpure⟩ := Txn.bind_eq_ok.1 hok
    obtain ⟨-, rfl⟩ := Txn.pure_eq_ok.1 hpure
    exact haccount (assignRole_tenanted hs ht (createScimUser_joins hinj hs.keyed hcreate) hassign)
  | patchScimGroup now tenantID groupID authorization body =>
    obtain ⟨role, hok⟩ := discard_eq_ok.1 h
    exact patchScimGroup_tenanted_iff hs ht hok

theorem StoreEvent.confined_of_raises (hs : s.Sound S.env) (ht : s.Tenanted) (e : StoreEvent)
    (h : ∀ t, e.body S s ≠ (.ok (), t)) : e.Confined S s := by
  cases e with
  | patchScimGroup now tenantID groupID authorization body =>
    exact RoleStore.confined_of_raises hs ht fun role t hok => h t (discard_eq_ok.2 ⟨role, hok⟩)
  | _ => trivial

/-- A request keeps a store tenanted exactly if it is confined. -/
theorem tenanted_iff_confined (hinj : Function.Injective S.env.uuid4) (hs : s.Sound S.env) (ht : s.Tenanted)
    {e : StoreEvent} (h : step S s e = some s') : s'.Sound S.env ∧ (s'.Tenanted ↔ e.Confined S s) := by
  obtain rfl := Option.some.inj h
  rcases Txn.exec_state_cases (e.body S) s with ⟨u, hok⟩ | ⟨hsame, hraises⟩
  · exact e.body_tenanted_iff hinj hs ht hok
  · rw [hsame]
    exact ⟨hs, iff_of_true ht (e.confined_of_raises hs ht (hraises ()))⟩

/-- User and role of every assignment stay in its tenant exactly along confined requests. -/
theorem tenanted_always_iff (hinj : Function.Injective S.env.uuid4) (hs : s.Sound S.env) (ht : s.Tenanted)
    (es : List StoreEvent) :
    Runs.Always (step S) Store.Tenanted s es ↔ Runs.Along (step S) (fun s e => e.Confined S s) s es := by
  have hstep : ∀ s e s', Store.Sound S.env s → s.Tenanted → step S s e = some s' →
      (e.Confined S s → s'.Sound S.env ∧ s'.Tenanted) ∧ (s'.Tenanted → e.Confined S s) := by
    intro s e s' hs ht hstep
    obtain ⟨hs', hiff⟩ := tenanted_iff_confined hinj hs ht hstep
    exact ⟨fun hconfined => ⟨hs', hiff.2 hconfined⟩, hiff.1⟩
  exact Runs.always_iff_along_of_good hstep hs ht

end

/-! ### Two tenants -/

/-- Role keys are the numbers of their draws. -/
def plainGroups : GroupServices where
  env := Auth.plainEnv
  lower s := s
  strip s := s
  isZero _ := false
  isOne _ := false
  tokenUrlsafe _ := ""
  saml := none
  roleKey n := if n = 0 then "viewers" else "others"

/-- The first tenant has a SCIM token and a viewer role; each has one user. -/
def viewers : Store where
  dir :=
    { auth :=
        { Auth.emptyDb with
          tenants := fun id => if id = "t1" ∨ id = "t2" then some ⟨"starter", true⟩ else none
          users := [⟨"u1", "t1", "ann@acme.com", "Ann", none, true, true, none⟩,
            ⟨"u2", "t2", "bob@other.com", "Bob", none, true, true, none⟩] }
      slugs := fun _ => none
      apiKeys := []
      invites := fun _ => none
      scimConfigs := [⟨"t1", "scim", true, none⟩]
      samlConfigs := [] }
  tables :=
    { tenants := []
      users := []
      roles := [⟨0, "t1", "viewer", some .viewer, some ["graph:read"], true⟩]
      assignments := []
      nextID := 1
      drawn := by decide
      keyed := by decide
      named := by decide
      joined := by decide }
  inviteRoles := fun _ => none

def addViewer (userID : String) : StoreEvent :=
  .patchScimGroup 0 "t1" "viewers" (some "Bearer scim")
    [("Operations", .arr [.obj [("op", .str "add"), ("value", .arr [.obj [("value", .str userID)]])]])]

theorem sound_viewers : viewers.Sound plainGroups.env where
  keyed :=
    { users := by decide
      sessions := fun sid s h => by cases h
      keys := fun k h => by cases h
      fresh := fun n _ => by
        refine ⟨rfl, fun u hu heq => ?_⟩
        have htext := congrArg String.toList heq
        rcases List.mem_cons.1 hu with rfl | hu
        · simp [plainGroups, Auth.plainEnv, List.replicate_succ] at htext
        · rw [List.mem_singleton.1 hu] at htext
          simp [plainGroups, Auth.plainEnv, List.replicate_succ] at htext }
  single := List.nodup_nil

theorem tenanted_viewers : viewers.Tenanted := fun _ h => by cases h

theorem addViewer_assigned (userID : String) (h : userID = "u1" ∨ userID = "u2") :
    ∃ s, step plainGroups viewers (addViewer userID) = some s ∧ s.dir.auth = viewers.dir.auth ∧
      s.tables.assignments = [⟨"t1", userID, 0, none⟩] := by
  rcases h with rfl | rfl <;> exact ⟨_, rfl, rfl, rfl⟩

theorem ann_viewer : Runs.Always (step plainGroups) Store.Tenanted viewers [addViewer "u1"] := by
  refine (tenanted_always_iff (fun _ _ h => Auth.fresh_ids h) sound_viewers tenanted_viewers _).2 fun s hs => ?_
  refine ⟨fun tenant role s₁ ops changes hgroup hops hchanges _ => ?_, trivial⟩
  obtain ⟨hrole, rfl, -⟩ := scimGroup_spec hgroup
  obtain rfl := List.mem_singleton.1 hrole
  obtain rfl := Option.some.inj hops
  have hread : changesOf plainGroups.toServices
      [.obj [("op", .str "add"), ("value", .arr [.obj [("value", .str "u1")]])]] = some [⟨true, "u1"⟩] := rfl
  obtain rfl := Option.some.inj (hread.symm.trans hchanges)
  intro u hu hne
  rcases List.mem_cons.1 hu with rfl | hu
  · exact absurd rfl hne
  · rw [List.mem_singleton.1 hu]
    rfl

/-- The SCIM client of the first tenant adds the user of the second to a group. -/
theorem bob_viewer : ¬ ∀ (S : GroupServices) (s : Store), Function.Injective S.env.uuid4 → s.Sound S.env →
    s.Tenanted → ∀ es, Runs.Always (step S) Store.Tenanted s es := by
  intro h
  have halways := h plainGroups viewers (fun _ _ h => Auth.fresh_ids h) sound_viewers tenanted_viewers [addViewer "u2"]
  obtain ⟨s, hstep, hauth, hrows⟩ := addViewer_assigned "u2" (.inr rfl)
  have htenanted : s.Tenanted := halways [addViewer "u2"] s (List.prefix_refl _) (Runs.run_cons.2 ⟨s, hstep, rfl⟩)
  obtain ⟨⟨u, hu, hid, htenant⟩, -⟩ := htenanted ⟨"t1", "u2", 0, none⟩ (hrows ▸ .head _)
  rw [hauth] at hu
  rcases List.mem_cons.1 hu with rfl | hu
  · exact absurd hid (by decide)
  · rw [List.mem_singleton.1 hu] at htenant
    exact absurd htenant (by decide)

end Dgraphai.RoleStore
