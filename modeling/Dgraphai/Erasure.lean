import Dgraphai.AuthTables
import Dgraphai.Lib.Runs
import Mathlib.Data.List.Nodup

/-!
# Right to erasure (`tasks/gdpr.py`)

`erase_user_data` in its session: the user's rows are deleted or anonymized, and the graph data of the tenant go
when no other active user is left. The arguments are `str` of UUIDs, which `uuid.UUID` reads back, so they are UUIDs
here. The graph is the list of the `tenant_id`s of its nodes and is not part of the transaction. Columns that neither
name a person nor are written (roles, labels, dates) are left out.

`erasure_iff` says what an erasure leaves behind, and which users can be erased one after the other: the placeholder
e-mail keeps eight characters of the id, and `name` and the invitations keep everything.
-/

namespace Dgraphai.Gdpr

open Auth (Uuid Time)

/-! ### Tables -/

structure User where
  id : Uuid
  tenantID : Uuid
  email : String
  displayName : Option String
  externalID : Option String
  name : Option String
  isActive : Bool
  deriving DecidableEq, Repr

/-- The tables whose rows belong to a user and go with it. -/
inductive AuthTable where
  | localCredentials | mfaConfigs | userSessions | apiKeys | emailVerificationTokens | passwordResetTokens
  deriving DecidableEq, Repr

structure AuthRow where
  id : Uuid
  userID : Uuid
  deriving DecidableEq, Repr

structure AuditLog where
  userID : Option Uuid
  ipAddress : Option String
  userAgent : Option String
  deriving DecidableEq, Repr

structure UserInvite where
  tenantID : Uuid
  email : String
  deriving DecidableEq, Repr

structure Tenant where
  graphBackend : Option String
  deriving DecidableEq, Repr

inductive JobStatus where
  | pending | running | complete | failed
  deriving DecidableEq, Repr

structure GDPRErasureJob where
  userID : Uuid
  tenantID : Uuid
  status : JobStatus
  completedAt : Option Time
  error : Option String
  deriving DecidableEq, Repr

structure Db where
  tenants : Uuid → Option Tenant
  users : List User
  authRows : AuthTable → List AuthRow
  auditLogs : List AuditLog
  userInvites : List UserInvite
  jobs : Uuid → Option GDPRErasureJob

structure World where
  db : Db
  graph : List Uuid

structure Env where
  /-- The error of the n-th deletion statement on a graph backend, or of opening it. -/
  graphError : String → Nat → Option String

/-! ### The statements -/

def Db.setJob (db : Db) (jobID : Uuid) (f : GDPRErasureJob → GDPRErasureJob) : Db :=
  { db with jobs := Function.update db.jobs jobID ((db.jobs jobID).map f) }

/-- `delete(table).where(table.user_id == uid)`. -/
def deleteRows (uid : Uuid) (rows : AuthTable → List AuthRow) (table : AuthTable) : AuthTable → List AuthRow :=
  Function.update rows table ((rows table).filter (·.userID ≠ uid))

def Db.deleteAuthData (db : Db) (uid : Uuid) : Db :=
  { db with
    authRows :=
      [AuthTable.localCredentials, .mfaConfigs, .userSessions, .apiKeys, .emailVerificationTokens,
        .passwordResetTokens].foldl (deleteRows uid) db.authRows }

def Db.anonymizeAuditLogs (db : Db) (uid : Uuid) : Db :=
  { db with
    auditLogs := db.auditLogs.map fun a =>
      if a.userID = some uid then ⟨none, some "[erased]", some "[erased]"⟩ else a }

/-- `user_id[:8]`. -/
def shortID (uid : Uuid) : List Char := uid.toList.take 8

def placeholder (uid : Uuid) : String := "erased-" ++ String.ofList (shortID uid) ++ "@erased.invalid"

def User.anonymize (u : User) : User :=
  { u with email := placeholder u.id, displayName := some "[Erased]", externalID := none, isActive := false }

def Db.anonymizeUser (db : Db) (uid : Uuid) : Db :=
  { db with users := db.users.map fun u => if u.id = uid then u.anonymize else u }

/-- No other user of the tenant has the placeholder of `uid` (`uq_tenant_email`). -/
def Db.PlaceholderFree (db : Db) (uid : Uuid) : Prop :=
  ∀ u ∈ db.users, u.id = uid → ∀ v ∈ db.users, v.id ≠ uid → v.tenantID = u.tenantID → v.email ≠ placeholder uid

instance (db : Db) (uid : Uuid) : Decidable (db.PlaceholderFree uid) :=
  inferInstanceAs (Decidable (∀ u ∈ db.users, _))

def Db.start (db : Db) (jobID : Uuid) : Db := db.setJob jobID fun job => { job with status := .running }

/-- `select(User).where(tenant_id == …, id != uid, is_active == True)`. -/
def Db.otherUsers (db : Db) (uid tenantID : Uuid) : List User :=
  db.users.filter fun u => u.tenantID = tenantID ∧ u.id ≠ uid ∧ u.isActive

def Db.complete (db : Db) (jobID : Uuid) (now : Time) : Db :=
  db.setJob jobID fun job => { job with status := .complete, completedAt := some now }

def Db.fail (db : Db) (jobID : Uuid) (error : String) : Db :=
  db.setJob jobID fun job => { job with status := .failed, error := some error }

/-! ### The graph -/

/-- The nodes after the first `n` of the tenant are deleted. -/
def removeFirst (tenantID : Uuid) : Nat → List Uuid → List Uuid
  | 0, graph => graph
  | _, [] => []
  | n + 1, node :: graph =>
    if node = tenantID then removeFirst tenantID n graph else node :: removeFirst tenantID (n + 1) graph

/-- The loop of `_erase_graph_data`; `fuel` bounds its rounds. -/
def eraseLoop (E : Env) (backend : String) (tenantID : Uuid) : Nat → Nat → List Uuid → Except String Unit × List Uuid
  | 0, _, graph => (.ok (), graph)
  | fuel + 1, batch, graph =>
    match E.graphError backend batch with
    | some e => (.error e, graph)
    | none =>
      let rest := removeFirst tenantID 10000 graph
      if graph.length - rest.length = 0 then (.ok (), rest) else eraseLoop E backend tenantID fuel (batch + 1) rest

/-- `tenant.graph_backend or "neo4j"`. -/
def Tenant.backend (tenant : Tenant) : String :=
  if tenant.graphBackend.getD "" = "" then "neo4j" else tenant.graphBackend.getD ""

/-- `_erase_graph_data`. -/
def eraseGraphData (E : Env) (tenantID : Uuid) : Txn World String Unit := fun w =>
  match w.db.tenants tenantID with
  | none => (.ok (), w)
  | some tenant =>
    let (result, graph) := eraseLoop E tenant.backend tenantID (w.graph.length + 1) 0 w.graph
    (result, { w with graph := graph })

/-! ### The task -/

def duplicateEmail : String := "duplicate key value violates unique constraint uq_tenant_email"

/-- `if not other_users: await _erase_graph_data(tenant_id, db)`. -/
def eraseIfLast (E : Env) (tenantID : Uuid) (otherUsers : List User) : Txn World String Unit :=
  if otherUsers = [] then eraseGraphData E tenantID else pure ()

/-- The body of the session in `_erase_user_data_async`. -/
def eraseUserData (E : Env) (now : Time) (uid tenantID jobID : Uuid) : Txn World String Unit := do
  Txn.write fun w => { w with db := ((w.db.start jobID).deleteAuthData uid).anonymizeAuditLogs uid }
  let free ← Txn.read fun w => decide (w.db.PlaceholderFree uid)
  Txn.raiseIf (free = false) duplicateEmail
  Txn.write fun w => { w with db := w.db.anonymizeUser uid }
  let otherUsers ← Txn.read fun w => w.db.otherUsers uid tenantID
  eraseIfLast E tenantID otherUsers
  Txn.write fun w => { w with db := w.db.complete jobID now }

/-- `_erase_user_data_async`: the session commits, or the job is marked as failed and retried. -/
def eraseUserDataAsync (E : Env) (now : Time) (uid tenantID jobID : Uuid) (w : World) : Except String Unit × World :=
  match eraseUserData E now uid tenantID jobID w with
  | (.ok (), w') => (.ok (), w')
  | (.error e, w') => (.error e, { w' with db := w.db.fail jobID e })

/-! ### What the statements do -/

/-- The tables before the check for other users. -/
def Db.erase (db : Db) (uid jobID : Uuid) : Db :=
  (((db.start jobID).deleteAuthData uid).anonymizeAuditLogs uid).anonymizeUser uid

section
variable {E : Env} {now : Time} {uid tenantID jobID : Uuid} {db : Db} {w w' : World}

theorem authRows_deleteAuthData (db : Db) (uid : Uuid) (table : AuthTable) :
    (db.deleteAuthData uid).authRows table = (db.authRows table).filter (·.userID ≠ uid) := by
  cases table <;> simp [Db.deleteAuthData, deleteRows]

@[simp] theorem users_erase :
    (db.erase uid jobID).users = db.users.map fun u => if u.id = uid then u.anonymize else u := rfl

@[simp] theorem userInvites_erase : (db.erase uid jobID).userInvites = db.userInvites := rfl

@[simp] theorem tenants_erase : (db.erase uid jobID).tenants = db.tenants := rfl

@[simp] theorem users_complete : (db.complete jobID now).users = db.users := rfl

@[simp] theorem userInvites_complete : (db.complete jobID now).userInvites = db.userInvites := rfl

@[simp] theorem authRows_complete : (db.complete jobID now).authRows = db.authRows := rfl

theorem authRows_erase (table : AuthTable) :
    (db.erase uid jobID).authRows table = (db.authRows table).filter (·.userID ≠ uid) :=
  authRows_deleteAuthData (db.start jobID) uid table

theorem removeFirst_sublist (n : Nat) (graph : List Uuid) : (removeFirst tenantID n graph).Sublist graph := by
  induction graph generalizing n with
  | nil => cases n <;> simp [removeFirst]
  | cons node graph ih =>
    cases n with
    | zero => simp [removeFirst]
    | succ n =>
      rw [removeFirst]
      split_ifs with hnode
      · exact (ih n).cons node
      · exact (ih (n + 1)).cons_cons node

theorem filter_removeFirst (n : Nat) (graph : List Uuid) :
    (removeFirst tenantID n graph).filter (· ≠ tenantID) = graph.filter (· ≠ tenantID) := by
  induction graph generalizing n with
  | nil => cases n <;> simp [removeFirst]
  | cons node graph ih =>
    cases n with
    | zero => simp [removeFirst]
    | succ n =>
      rw [removeFirst]
      split_ifs with hnode
      · rw [ih n, List.filter_cons_of_neg (by simp [hnode])]
      · simp only [List.filter_cons, ih (n + 1)]

/-- A batch that deletes nothing finds no node of the tenant. -/
theorem not_mem_of_length_removeFirst {n : Nat} {graph : List Uuid} (hn : 0 < n)
    (h : graph.length ≤ (removeFirst tenantID n graph).length) : tenantID ∉ graph := by
  obtain ⟨m, rfl⟩ : ∃ m, n = m + 1 := ⟨n - 1, by omega⟩
  induction graph with
  | nil => simp
  | cons node graph ih =>
    rw [removeFirst] at h
    split_ifs at h with hnode
    · have hle : (removeFirst tenantID m graph).length ≤ graph.length := (removeFirst_sublist m graph).length_le
      rw [List.length_cons] at h
      omega
    · rw [List.length_cons, List.length_cons] at h
      rw [List.mem_cons, not_or]
      exact ⟨fun heq => hnode heq.symm, ih (by omega)⟩

/-- The loop ends when the nodes of the tenant are gone. -/
theorem eraseLoop_cases (E : Env) (backend : String) (tenantID : Uuid) (batch : Nat) {fuel : Nat}
    {graph : List Uuid} (h : graph.length < fuel) :
    (∃ e rest n, eraseLoop E backend tenantID fuel batch graph = (.error e, rest) ∧ E.graphError backend n = some e) ∨
      eraseLoop E backend tenantID fuel batch graph = (.ok (), graph.filter (· ≠ tenantID)) := by
  induction fuel generalizing batch graph with
  | zero => omega
  | succ fuel ih =>
    rw [eraseLoop]
    cases herror : E.graphError backend batch with
    | some e => exact .inl ⟨e, graph, batch, rfl, herror⟩
    | none =>
      have hsub : (removeFirst tenantID 10000 graph).Sublist graph := removeFirst_sublist 10000 graph
      have hle := hsub.length_le
      by_cases hzero : graph.length - (removeFirst tenantID 10000 graph).length = 0
      · have hrest : tenantID ∉ graph := not_mem_of_length_removeFirst (n := 10000) (by omega) (by omega)
        have hsame : (removeFirst tenantID 10000 graph).filter (· ≠ tenantID) = removeFirst tenantID 10000 graph := by
          refine List.filter_eq_self.2 fun node hnode => decide_eq_true ?_
          rintro rfl
          exact hrest (hsub.subset hnode)
        rw [filter_removeFirst] at hsame
        simp only [if_pos hzero, hsame]
        exact .inr trivial
      · simp only [if_neg hzero]
        have hlt : (removeFirst tenantID 10000 graph).length < fuel := by omega
        rcases ih (batch + 1) hlt with herr | hok
        · exact .inl herr
        · rw [filter_removeFirst] at hok
          exact .inr hok

/-- `_erase_graph_data` leaves the tables alone, and the graph without nodes of the tenant. -/
theorem eraseGraphData_spec (h : eraseGraphData E tenantID w = (.ok (), w')) :
    w'.db = w.db ∧ ∀ tenant, w.db.tenants tenantID = some tenant → w'.graph = w.graph.filter (· ≠ tenantID) := by
  unfold eraseGraphData at h
  cases htenant : w.db.tenants tenantID with
  | none =>
    simp only [htenant, Prod.mk.injEq, true_and] at h
    rw [← h]
    exact ⟨rfl, fun tenant hnone => by cases hnone⟩
  | some tenant =>
    simp only [htenant] at h
    rcases eraseLoop_cases E tenant.backend tenantID 0 (Nat.lt_add_one w.graph.length) with ⟨e, rest, n, heq, -⟩ | heq
    · rw [heq] at h
      cases h
    · rw [heq] at h
      cases h
      exact ⟨rfl, fun _ _ => rfl⟩

theorem eraseGraphData_ok (hup : ∀ backend n, E.graphError backend n = none) (tenantID : Uuid) (w : World) :
    ∃ w', eraseGraphData E tenantID w = (.ok (), w') := by
  unfold eraseGraphData
  cases w.db.tenants tenantID with
  | none => exact ⟨w, rfl⟩
  | some tenant =>
    rcases eraseLoop_cases E tenant.backend tenantID 0 (Nat.lt_add_one w.graph.length) with ⟨e, rest, n, -, herror⟩ | heq
    · rw [hup] at herror
      cases herror
    · refine ⟨{ w with graph := w.graph.filter (· ≠ tenantID) }, ?_⟩
      simp only [heq]

theorem eraseIfLast_db {others : List User} (h : eraseIfLast E tenantID others w = (.ok (), w')) : w'.db = w.db := by
  unfold eraseIfLast at h
  split_ifs at h
  · exact (eraseGraphData_spec h).1
  · rw [(Txn.pure_eq_ok.1 h).2]

theorem eraseUserData_eq_ok :
    eraseUserData E now uid tenantID jobID w = (.ok (), w') ↔ w.db.PlaceholderFree uid ∧
      ∃ w₁, eraseIfLast E tenantID ((w.db.erase uid jobID).otherUsers uid tenantID)
          { w with db := w.db.erase uid jobID } = (.ok (), w₁) ∧
        w' = { w₁ with db := w₁.db.complete jobID now } := by
  unfold eraseUserData
  simp only [Txn.read_bind_eq_ok, Txn.raiseIf_bind_eq_ok, Txn.write_bind_eq_ok, decide_eq_false_iff_not, not_not]
  refine and_congr Iff.rfl ?_
  rw [Txn.bind_eq_ok]
  constructor
  · rintro ⟨u, w₁, h, hw⟩
    exact ⟨w₁, h, (Txn.write_eq_ok.1 hw).symm⟩
  · rintro ⟨w₁, h, hw⟩
    exact ⟨(), w₁, h, Txn.write_eq_ok.2 hw.symm⟩

theorem eraseUserDataAsync_eq_ok : eraseUserDataAsync E now uid tenantID jobID w = (.ok (), w') ↔
    eraseUserData E now uid tenantID jobID w = (.ok (), w') := by
  unfold eraseUserDataAsync
  rcases eraseUserData E now uid tenantID jobID w with ⟨e | u, w₁⟩
  · simp
  · simp

/-- The tables after an erasure that returns. -/
theorem eraseUserDataAsync_db (h : eraseUserDataAsync E now uid tenantID jobID w = (.ok (), w')) :
    w'.db = (w.db.erase uid jobID).complete jobID now := by
  obtain ⟨-, w₁, hlast, rfl⟩ := eraseUserData_eq_ok.1 (eraseUserDataAsync_eq_ok.1 h)
  rw [eraseIfLast_db hlast]

/-- An erasure returns exactly if the placeholder is free, as far as the graph backend does its part. -/
theorem eraseUserDataAsync_ok_iff (hup : ∀ backend n, E.graphError backend n = none) :
    (∃ w', eraseUserDataAsync E now uid tenantID jobID w = (.ok (), w')) ↔ w.db.PlaceholderFree uid := by
  simp only [eraseUserDataAsync_eq_ok, eraseUserData_eq_ok]
  constructor
  · rintro ⟨w', hfree, -⟩
    exact hfree
  · intro hfree
    obtain ⟨w₁, hw₁⟩ : ∃ w₁, eraseIfLast E tenantID ((w.db.erase uid jobID).otherUsers uid tenantID)
        { w with db := w.db.erase uid jobID } = (.ok (), w₁) := by
      unfold eraseIfLast
      split_ifs
      · exact eraseGraphData_ok hup tenantID _
      · exact ⟨_, rfl⟩
    exact ⟨_, hfree, w₁, hw₁, rfl⟩

end

/-! ### What stays of a user -/

/-- The personal values in a user row. -/
def User.texts (u : User) : List String :=
  (u.email :: (u.displayName.toList ++ u.externalID.toList ++ u.name.toList)).filter (· ≠ "")

/-- No row has a personal value of the user, and none of the rows that belong to it is left. -/
structure Gone (u : User) (db : Db) : Prop where
  users : ∀ v ∈ db.users, ∀ x ∈ u.texts, x ∉ v.texts
  userInvites : ∀ i ∈ db.userInvites, i.email ∉ u.texts
  authRows : ∀ table, ∀ r ∈ db.authRows table, r.userID ≠ u.id

/-- What an erasure does not reach: the `name`, invitations, other rows, and a user that looks erased already. -/
structure Erasable (u : User) (db : Db) : Prop where
  name : u.name.getD "" = ""
  email : placeholder u.id ∉ u.texts
  displayName : "[Erased]" ∉ u.texts
  users : ∀ v ∈ db.users, v.id ≠ u.id → ∀ x ∈ u.texts, x ∉ v.texts
  userInvites : ∀ i ∈ db.userInvites, i.email ∉ u.texts

theorem placeholder_ne_empty (uid : Uuid) : placeholder uid ≠ "" := by
  intro h
  have htext := congrArg String.toList h
  simp [placeholder] at htext

theorem texts_anonymize (u : User) :
    u.anonymize.texts = placeholder u.id :: "[Erased]" :: u.name.toList.filter (· ≠ "") := by
  have hne := placeholder_ne_empty u.id
  simp [User.texts, User.anonymize, hne]

theorem mem_texts_name {u : User} {x : String} (h : x ∈ u.name.toList) (hne : x ≠ "") : x ∈ u.texts := by
  simp [User.texts, h, hne]

/-- When the row of an erased user keeps none of its values. -/
theorem anonymize_disjoint_iff (u : User) : (∀ x ∈ u.texts, x ∉ u.anonymize.texts) ↔
    u.name.getD "" = "" ∧ placeholder u.id ∉ u.texts ∧ "[Erased]" ∉ u.texts := by
  rw [texts_anonymize]
  constructor
  · intro h
    refine ⟨?_, fun hmem => h _ hmem (by simp), fun hmem => h _ hmem (by simp)⟩
    cases hname : u.name with
    | none => rfl
    | some name =>
      by_contra hne
      have hmem : name ∈ u.texts := mem_texts_name (by rw [hname]; simp) hne
      have hne : name ≠ "" := hne
      exact h name hmem (by simp [hname, hne])
  · rintro ⟨hname, hemail, hdisplay⟩ x hx hmem
    rcases List.mem_cons.1 hmem with rfl | hmem
    · exact hemail hx
    rcases List.mem_cons.1 hmem with rfl | hmem
    · exact hdisplay hx
    obtain ⟨hmem, hne⟩ := List.mem_filter.1 hmem
    rw [Option.mem_toList] at hmem
    rw [hmem] at hname
    exact of_decide_eq_true hne hname

theorem gone_iff {E : Env} {now : Time} {u : User} {tenantID jobID : Uuid} {w w' : World}
    (hkeys : (w.db.users.map (·.id)).Nodup) (hu : u ∈ w.db.users)
    (h : eraseUserDataAsync E now u.id tenantID jobID w = (.ok (), w')) : Gone u w'.db ↔ Erasable u w.db := by
  have hsame : ∀ v ∈ w.db.users, v.id = u.id → v = u := fun v hv hid => List.inj_on_of_nodup_map hkeys hv hu hid
  rw [eraseUserDataAsync_db h]
  have husers : (∀ v ∈ ((w.db.erase u.id jobID).complete jobID now).users, ∀ x ∈ u.texts, x ∉ v.texts) ↔
      (∀ x ∈ u.texts, x ∉ u.anonymize.texts) ∧
        ∀ v ∈ w.db.users, v.id ≠ u.id → ∀ x ∈ u.texts, x ∉ v.texts := by
    rw [users_complete, users_erase, List.forall_mem_map]
    constructor
    · intro hall
      refine ⟨by simpa using hall u hu, fun v hv hne => ?_⟩
      simpa [hne] using hall v hv
    · rintro ⟨hself, hothers⟩ v hv
      split_ifs with hid
      · rw [hsame v hv hid]
        exact hself
      · exact hothers v hv hid
  have hinvites : ((w.db.erase u.id jobID).complete jobID now).userInvites = w.db.userInvites := by
    rw [userInvites_complete, userInvites_erase]
  constructor
  · rintro ⟨hrows, hkept, -⟩
    rw [hinvites] at hkept
    obtain ⟨hself, hothers⟩ := husers.1 hrows
    obtain ⟨hname, hemail, hdisplay⟩ := (anonymize_disjoint_iff u).1 hself
    exact ⟨hname, hemail, hdisplay, hothers, hkept⟩
  · rintro ⟨hname, hemail, hdisplay, hothers, hkept⟩
    refine ⟨husers.2 ⟨(anonymize_disjoint_iff u).2 ⟨hname, hemail, hdisplay⟩, hothers⟩, ?_, fun table r hr => ?_⟩
    · rw [hinvites]
      exact hkept
    rw [authRows_complete, authRows_erase] at hr
    exact of_decide_eq_true (List.mem_filter.1 hr).2

/-! ### Several users of a tenant -/

/-- The erasure of the user and under the job of `job`, if it returns. -/
def eraseStep (E : Env) (now : Time) (tenantID : Uuid) (w : World) (job : Uuid × Uuid) : Option World :=
  match eraseUserDataAsync E now job.1 tenantID job.2 w with
  | (.ok (), w') => some w'
  | (.error _, _) => none

/-- The placeholder of `uid` is taken when the users `erased` have been erased. -/
def Collides (users : List User) (tenantID : Uuid) (erased : List Uuid) (uid : Uuid) : Prop :=
  ∃ v ∈ users, v.id ≠ uid ∧ v.tenantID = tenantID ∧
    if v.id ∈ erased then shortID v.id = shortID uid else v.email = placeholder uid

instance (users : List User) (tenantID : Uuid) (erased : List Uuid) (uid : Uuid) :
    Decidable (Collides users tenantID erased uid) :=
  inferInstanceAs (Decidable (∃ v ∈ users, _))

theorem placeholder_inj {i j : Uuid} : placeholder i = placeholder j ↔ shortID i = shortID j := by
  constructor
  · intro h
    have htext := congrArg String.toList h
    simpa [placeholder] using htext
  · intro h
    rw [placeholder, placeholder, h]

section
variable {E : Env} {now : Time} {tenantID uid jobID : Uuid} {users : List User} {w w' : World}

/-- The rows when the users `erased` have been erased. -/
def rowsAfter (erased : List Uuid) (users : List User) : List User :=
  users.map fun u => if u.id ∈ erased then u.anonymize else u

theorem rowsAfter_append (erased : List Uuid) (uid : Uuid) :
    (rowsAfter erased users).map (fun u => if u.id = uid then u.anonymize else u) =
      rowsAfter (erased ++ [uid]) users := by
  rw [rowsAfter, rowsAfter, List.map_map]
  refine List.map_congr_left fun u _ => ?_
  by_cases hmem : u.id ∈ erased
  · have hid : u.anonymize.id = u.id := rfl
    simp only [Function.comp_apply, hid, List.mem_append, hmem, true_or, if_true]
    split_ifs <;> rfl
  · simp [hmem]

theorem eraseStep_eq_some {job : Uuid × Uuid} : eraseStep E now tenantID w job = some w' ↔
    eraseUserDataAsync E now job.1 tenantID job.2 w = (.ok (), w') := by
  unfold eraseStep
  rcases eraseUserDataAsync E now job.1 tenantID job.2 w with ⟨e | u, w₁⟩
  · simp
  · simp

theorem placeholderFree_iff {db : Db} {erased : List Uuid} (hkeys : (users.map (·.id)).Nodup)
    (huser : ∃ u ∈ users, u.id = uid ∧ u.tenantID = tenantID) (hrows : db.users = rowsAfter erased users) :
    db.PlaceholderFree uid ↔ ¬ Collides users tenantID erased uid := by
  have hfield : ∀ v : User, (if v.id ∈ erased then v.anonymize else v).id = v.id ∧
      (if v.id ∈ erased then v.anonymize else v).tenantID = v.tenantID := by
    intro v
    split_ifs <;> exact ⟨rfl, rfl⟩
  have hemail : ∀ v : User, (if v.id ∈ erased then v.anonymize else v).email = placeholder uid ↔
      if v.id ∈ erased then shortID v.id = shortID uid else v.email = placeholder uid := by
    intro v
    split_ifs
    · exact placeholder_inj
    · rfl
  obtain ⟨u, hu, huid, htenant⟩ := huser
  rw [Db.PlaceholderFree, hrows, rowsAfter, List.forall_mem_map]
  simp only [List.forall_mem_map, hfield, Ne, hemail, Collides, not_exists, not_and]
  constructor
  · intro h v hv hne hvt
    exact h u hu huid v hv hne (hvt.trans htenant.symm)
  · intro h u' hu' hid v hv hne hvt
    have hsame : u' = u := List.inj_on_of_nodup_map hkeys hu' hu (hid.trans huid.symm)
    exact h v hv hne (by rw [hvt, hsame, htenant])

theorem run_eraseStep_iff (hup : ∀ backend n, E.graphError backend n = none) (hkeys : (users.map (·.id)).Nodup)
    {jobs : List (Uuid × Uuid)} (husers : ∀ j ∈ jobs, ∃ u ∈ users, u.id = j.1 ∧ u.tenantID = tenantID)
    {erased : List Uuid} (hrows : w.db.users = rowsAfter erased users) :
    (∃ w', Runs.run (eraseStep E now tenantID) w jobs = some w') ↔
      ∀ pre uid post, jobs.map Prod.fst = pre ++ uid :: post → ¬ Collides users tenantID (erased ++ pre) uid := by
  induction jobs generalizing w erased with
  | nil =>
    refine iff_of_true ⟨w, rfl⟩ fun pre uid post h => ?_
    simp at h
  | cons j jobs ih =>
    have hfree := placeholderFree_iff hkeys (husers j List.mem_cons_self) hrows
    have hjobs : ∀ k ∈ jobs, ∃ u ∈ users, u.id = k.1 ∧ u.tenantID = tenantID :=
      fun k hk => husers k (List.mem_cons_of_mem j hk)
    have hnext : ∀ w₁, eraseStep E now tenantID w j = some w₁ →
        w₁.db.users = rowsAfter (erased ++ [j.1]) users := by
      intro w₁ hstep
      rw [eraseUserDataAsync_db (eraseStep_eq_some.1 hstep), users_complete, users_erase, hrows, rowsAfter_append]
    constructor
    · rintro ⟨w', hrun⟩ pre uid post hsplit
      obtain ⟨w₁, hstep, hrest⟩ := Runs.run_cons.1 hrun
      cases pre with
      | nil =>
        obtain ⟨rfl, -⟩ := List.cons.inj hsplit
        rw [List.append_nil, ← hfree]
        exact (eraseUserDataAsync_ok_iff hup).1 ⟨w₁, eraseStep_eq_some.1 hstep⟩
      | cons i pre =>
        obtain ⟨rfl, htail⟩ := List.cons.inj hsplit
        have hlater := (ih hjobs (hnext w₁ hstep)).1 ⟨w', hrest⟩ pre uid post htail
        rwa [List.append_assoc] at hlater
    · intro h
      have hj : ¬ Collides users tenantID erased j.1 := by simpa using h [] j.1 (jobs.map Prod.fst) rfl
      obtain ⟨w₁, hw₁⟩ := (eraseUserDataAsync_ok_iff hup).2 (hfree.2 hj)
      have hstep : eraseStep E now tenantID w j = some w₁ := eraseStep_eq_some.2 hw₁
      obtain ⟨w', hrun⟩ := (ih hjobs (hnext w₁ hstep)).2 fun pre uid post hsplit => by
        have hlater := h (j.1 :: pre) uid post (by rw [List.map_cons, hsplit, List.cons_append])
        rwa [List.append_assoc]
      exact ⟨w', Runs.run_cons.2 ⟨w₁, hstep, hrun⟩⟩

end

/-- One erasure: nothing of the user stays exactly if it is `Erasable`. Several: distinct users of a tenant can be
erased one after the other exactly if no placeholder collides. -/
theorem erasure_iff (E : Env) (now : Time) (w : World) (hkeys : (w.db.users.map (·.id)).Nodup) :
    (∀ u ∈ w.db.users, ∀ tenantID jobID w', eraseUserDataAsync E now u.id tenantID jobID w = (.ok (), w') →
        (Gone u w'.db ↔ Erasable u w.db)) ∧
      ((∀ backend n, E.graphError backend n = none) → ∀ tenantID (jobs : List (Uuid × Uuid)),
        (jobs.map Prod.fst).Nodup → (∀ j ∈ jobs, ∃ u ∈ w.db.users, u.id = j.1 ∧ u.tenantID = tenantID) →
        ((∃ w', Runs.run (eraseStep E now tenantID) w jobs = some w') ↔
          ∀ pre uid post, jobs.map Prod.fst = pre ++ uid :: post → ¬ Collides w.db.users tenantID pre uid)) := by
  refine ⟨fun u hu tenantID jobID w' h => gone_iff hkeys hu h, fun hup tenantID jobs _ husers => ?_⟩
  have hrows : w.db.users = rowsAfter [] w.db.users := by simp [rowsAfter]
  simpa using run_eraseStep_iff hup hkeys husers hrows

/-! ### A tenant of two -/

def ann : User := ⟨"3f2a9c1e-0d4b-4c55-9f6e-1b2a3c4d5e6f", "t1", "ann@acme.com", some "Ann", none, some "Ann", true⟩

def bob : User := ⟨"3f2a9c1e-77aa-4e01-8c2d-9a8b7c6d5e4f", "t1", "bob@acme.com", some "Bob", none, none, true⟩

/-- Ann was invited, and Bob's id begins like hers. -/
def annAndBob : World where
  db :=
    { tenants := Function.update (fun _ => none) "t1" (some ⟨none⟩)
      users := [ann, bob]
      authRows := fun _ => []
      auditLogs := []
      userInvites := [⟨"t1", "ann@acme.com"⟩]
      jobs := fun _ => none }
  graph := ["t1"]

def upEnv : Env := ⟨fun _ _ => none⟩

theorem annAndBob_keys : (annAndBob.db.users.map (·.id)).Nodup := by decide

/-- Ann's name and her invitation stay, and Bob cannot be erased after her. -/
theorem erasure_incomplete :
    (∃ w', eraseUserDataAsync upEnv 0 ann.id "t1" "j1" annAndBob = (.ok (), w') ∧ ¬ Gone ann w'.db) ∧
      ¬ ∃ w', Runs.run (eraseStep upEnv 0 "t1") annAndBob [(ann.id, "j1"), (bob.id, "j2")] = some w' := by
  constructor
  · obtain ⟨w', hw'⟩ : ∃ w', eraseUserDataAsync upEnv 0 ann.id "t1" "j1" annAndBob = (.ok (), w') :=
      (eraseUserDataAsync_ok_iff fun _ _ => rfl).2 (by decide)
    refine ⟨w', hw', fun hgone => ?_⟩
    have hname := ((gone_iff annAndBob_keys List.mem_cons_self hw').1 hgone).name
    revert hname
    decide
  · have hnone : (Runs.run (eraseStep upEnv 0 "t1") annAndBob [(ann.id, "j1"), (bob.id, "j2")]).isNone = true := by
      decide
    rintro ⟨w', hw'⟩
    rw [hw'] at hnone
    cases hnone

theorem bob_erased : ∃ w', Runs.run (eraseStep upEnv 0 "t1") annAndBob [(bob.id, "j2")] = some w' ∧
    Gone bob w'.db := by
  obtain ⟨hgone, hruns⟩ := erasure_iff upEnv 0 annAndBob annAndBob_keys
  obtain ⟨w', hw'⟩ := (hruns (fun _ _ => rfl) "t1" [(bob.id, "j2")] (by decide) (by decide)).2 fun pre uid post h => by
    obtain ⟨rfl, rfl⟩ : pre = [] ∧ uid = bob.id := by
      cases pre with
      | nil => exact ⟨rfl, (List.cons.inj h).1.symm⟩
      | cons i pre => simp at h
    decide
  obtain ⟨w₁, hstep, hw₁⟩ := Runs.run_cons.1 hw'
  obtain rfl : w₁ = w' := Option.some.inj hw₁
  refine ⟨w₁, hw', (hgone bob (by decide) "t1" "j2" w₁ (eraseStep_eq_some.1 hstep)).2 ⟨rfl, ?_, ?_, ?_, ?_⟩⟩
  all_goals decide

end Dgraphai.Gdpr
