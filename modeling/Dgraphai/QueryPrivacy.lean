import Dgraphai.Lib.Runs
import Dgraphai.SavedQueries

/-!
# Who can read a saved query

The readers of a saved query ask for its tenant only, so a user reaches every query of the tenant and is shown no
other than the listed ones exactly where all of them are listed (`private_iff_open`). It stays so exactly as long as no
one else keeps a query private (`private_always_iff`).
-/

namespace Dgraphai.SavedQueries

open Auth (Uuid Time AuthContext HttpError serverError)

variable (S : Services)

/-- A request for the text, the rows or the exports of a saved query. -/
inductive Read where
  | get (queryID : String)
  | run (queryID : String) (req : RunQueryRequest)
  | exports (queryID : String)
  | export (queryID format : String)
  | schema (queryID : String)
  | stream (queryID : String) (limit : ℤ)
  | shard (queryName : String)

/-- The saved query that the response is made from. -/
def Read.source (auth : AuthContext) (now : Time) : Read → QueryRequest Uuid
  | .get queryID => do
    let r ← getQuery S auth queryID
    pure r.1
  | .run queryID req => do
    let r ← runQuery S auth now queryID req
    pure r.1
  | .exports queryID => do
    let r ← listExports S auth queryID
    pure r.1
  | .export queryID format => do
    let r ← exportQuery S auth now queryID format
    pure r.1
  | .schema queryID => do
    let r ← getStreamSchema S auth queryID
    pure r.1
  | .stream queryID limit => do
    let r ← streamQuery S auth queryID limit
    pure r.1
  | .shard queryName => do
    let r ← hfParquetShard S auth queryName
    pure r.1

inductive Event where
  | save (auth : AuthContext) (now : Time) (req : SaveQueryRequest)
  | update (auth : AuthContext) (now : Time) (queryID : String) (req : UpdateQueryRequest)
  | delete (auth : AuthContext) (queryID : String)
  | read (auth : AuthContext) (now : Time) (r : Read)

def Event.body : Event → QueryRequest Unit
  | .save auth now req => do
    let _query ← saveQuery S auth now req
    pure ()
  | .update auth now queryID req => do
    let _query ← updateQuery S auth now queryID req
    pure ()
  | .delete auth queryID => deleteQuery S auth queryID
  | .read auth now r => do
    let _source ← r.source S auth now
    pure ()

/-- The tables after a request in its own `get_db` scope. -/
def step (t : Tables) (e : Event) : Option Tables := some ((e.body S).exec t).2

/-- Without `admin:*`, a user of a tenant gets the text, the rows and the exports of the queries only that
`list_queries` shows. -/
def Tables.Private (t : Tables) (tenantID : Uuid) (userID : Option Uuid) : Prop :=
  ∀ (auth : AuthContext) (now : Time) (r : Read) (id : Uuid) (t' : Tables), auth.tenantID = tenantID →
    auth.userID = userID → "admin:*" ∉ auth.permissions → r.source S auth now t = (.ok id, t') →
      ∃ queries t₁, listQueries S auth none none t = (.ok queries, t₁) ∧ id ∈ queries.map Prod.fst

/-- Every query of the tenant is public or the user's own. -/
def Tables.Open (t : Tables) (tenantID : Uuid) (userID : Option Uuid) : Prop :=
  ∀ q ∈ t.queries.values, q.tenantID = tenantID → q.isPublic = true ∨ q.createdBy = userID

/-- A new query that the tables take. -/
def Tables.Inserts (t : Tables) (auth : AuthContext) (req : SaveQueryRequest) : Prop :=
  (∀ e ∈ t.queries.entries, e.2.tenantID = auth.tenantID → e.2.name ≠ req.name) ∧
    S.uuid4 t.nextID ∉ t.queries.keys ∧ S.takesSave req = true ∧
      auth.tenantID ∈ t.tenants ∧ ∀ user ∈ auth.userID, user ∈ t.users

/-- What is saved in the tenant by others is public, and what is changed there to be private is the user's own. -/
def Event.KeepsOpen (tenantID : Uuid) (userID : Option Uuid) (t : Tables) : Event → Prop
  | .save auth _ req => auth.tenantID = tenantID → t.Inserts S auth req → req.isPublic = true ∨ auth.userID = userID
  | .update auth _ queryID req => ∀ id q, S.parseUuid queryID = some id → t.queries.get? id = some q →
      q.tenantID = auth.tenantID → auth.tenantID = tenantID →
      (q.createdBy = auth.userID ∨ "admin:*" ∈ auth.permissions) → S.takesUpdate req = true →
      t.NameFree id q.tenantID (req.name.getD q.name) → req.isPublic = some false → q.createdBy = userID
  | _ => True

variable {S} {t t' : Tables} {auth : AuthContext} {now : Time} {queryID : String} {id : Uuid} {q : SavedQuery}
  {tenantID : Uuid} {userID : Option Uuid}

/-! ### The lookups -/

theorem getQueryOr404_eq_ok {requireOwner : Bool} {r : Uuid × SavedQuery} :
    getQueryOr404 S auth queryID requireOwner t = (.ok r, t') ↔
      S.parseUuid queryID = some r.1 ∧ t.queries.get? r.1 = some r.2 ∧ r.2.tenantID = auth.tenantID ∧
        (requireOwner = true → r.2.createdBy = auth.userID ∨ "admin:*" ∈ auth.permissions) ∧ t = t' := by
  unfold getQueryOr404
  simp only [Txn.ofOption_bind_eq_ok, Txn.read_bind_eq_ok, Txn.raiseIf_bind_eq_ok, Txn.pure_eq_ok,
    Option.filter_eq_some_iff, decide_eq_true_eq, not_and, not_not, ne_eq, ← or_iff_not_imp_left]
  constructor
  · rintro ⟨id, hid, q, ⟨hget, htenant⟩, howner, rfl, rfl⟩
    exact ⟨hid, hget, htenant, howner, rfl⟩
  · rintro ⟨hid, hget, htenant, howner, rfl⟩
    exact ⟨r.1, hid, r.2, ⟨hget, htenant⟩, howner, rfl, rfl⟩

theorem streamedQuery_eq_ok {r : Uuid × SavedQuery} : streamedQuery S auth queryID t = (.ok r, t') ↔
    S.parseUuid queryID = some r.1 ∧ t.queries.get? r.1 = some r.2 ∧ r.2.tenantID = auth.tenantID ∧ t = t' := by
  unfold streamedQuery
  simp only [Txn.ofOption_bind_eq_ok, Txn.read_bind_eq_ok, Txn.pure_eq_ok, Option.filter_eq_some_iff,
    decide_eq_true_eq]
  constructor
  · rintro ⟨id, hid, q, ⟨hget, htenant⟩, rfl, rfl⟩
    exact ⟨hid, hget, htenant, rfl⟩
  · rintro ⟨hid, hget, htenant, rfl⟩
    exact ⟨r.1, hid, r.2, ⟨hget, htenant⟩, rfl, rfl⟩

/-- `list_queries` shows what is listed, and nothing else. -/
theorem mem_listQueries : (∃ queries t₁, listQueries S auth none none t = (.ok queries, t₁) ∧ id ∈ queries.map Prod.fst) ↔
    ∃ q, t.queries.get? id = some q ∧ Listed auth q := by
  have hlist : ∀ queries t₁, listQueries S auth none none t = (.ok queries, t₁) →
      ∀ e, e ∈ queries ↔ e ∈ t.queries.entries ∧ Listed auth e.2 := by
    intro queries t₁ h e
    unfold listQueries at h
    simp only [Txn.read_bind_eq_ok, Txn.pure_eq_ok] at h
    rw [← h.1, (S.order_perm _).mem_iff, List.mem_filter, decide_eq_true_eq]
    exact and_congr_right fun _ => and_iff_left fun p hp => absurd hp (Option.not_mem_none p)
  constructor
  · rintro ⟨queries, t₁, h, hid⟩
    obtain ⟨e, he, rfl⟩ := List.mem_map.1 hid
    obtain ⟨hmem, hlisted⟩ := (hlist queries t₁ h e).1 he
    exact ⟨e.2, PyDict.get?_of_mem hmem, hlisted⟩
  · rintro ⟨q, hget, hlisted⟩
    refine ⟨_, t, rfl, List.mem_map.2 ⟨(id, q), ?_, rfl⟩⟩
    exact (hlist _ t rfl (id, q)).2 ⟨PyDict.mem_of_get? hget, hlisted⟩

/-- Every query of the tenant can be had by its id. -/
theorem get_source (hget : t.queries.get? id = some q) (htenant : q.tenantID = auth.tenantID) :
    (Read.get (S.strUuid id)).source S auth now t = (.ok id, t) := by
  have hfound : getQuery S auth (S.strUuid id) t = (.ok (id, q), t) :=
    getQueryOr404_eq_ok.2 ⟨S.parse_str id, hget, htenant, fun h => absurd h Bool.false_ne_true, rfl⟩
  exact Txn.bind_eq_ok.2 ⟨(id, q), t, hfound, rfl⟩

/-! ### What a reader answers from, and what it leaves -/

/-- Who sees which query is as before. -/
def SameVisibility (t t' : Tables) : Prop := ∀ q' ∈ t'.queries.values, ∃ q ∈ t.queries.values,
  q.tenantID = q'.tenantID ∧ q.isPublic = q'.isPublic ∧ q.createdBy = q'.createdBy

theorem SameVisibility.of_eq (h : t'.queries = t.queries) : SameVisibility t t' := by
  intro q hq
  exact ⟨q, h ▸ hq, rfl, rfl, rfl⟩

theorem SameVisibility.of_queries {t₁ : Tables} (h : SameVisibility t t₁) (hqueries : t'.queries = t₁.queries) :
    SameVisibility t t' := fun q hq => h q (hqueries ▸ hq)

/-- A query of the caller's tenant, and nothing else is changed than its statistics. -/
structure Answers (auth : AuthContext) (t : Tables) (id : Uuid) (t' : Tables) : Prop where
  found : ∃ q, t.queries.get? id = some q ∧ q.tenantID = auth.tenantID
  left : SameVisibility t t'

theorem Answers.of_eq (h : ∃ q, t.queries.get? id = some q ∧ q.tenantID = auth.tenantID)
    (hqueries : t'.queries = t.queries) : Answers auth t id t' := ⟨h, .of_eq hqueries⟩

theorem store_eq_some (h : t.store id q = some t') :
    ((q.tenantID ∈ t.tenants ∧ ∀ user ∈ q.createdBy, user ∈ t.users) ∧ t.NameFree id q.tenantID q.name) ∧
      t'.queries = t.queries.set id q := by
  unfold Tables.store at h
  split_ifs at h with hkeys
  obtain rfl := Option.some.inj h
  exact ⟨hkeys, rfl⟩

theorem tenantBackend_eq_ok {b : String → Params → Except String (List Row)}
    (h : tenantBackend S auth t = (.ok b, t')) : t' = t := by
  rw [tenantBackend, Txn.read_bind_eq_ok, Txn.raiseIf_bind_eq_ok] at h
  exact (Txn.ofOption_eq_ok.1 h.2).2.symm

theorem executeQuery_eq_ok {limit : ℤ} {rows : List Row} (h : executeQuery S auth q limit t = (.ok rows, t')) :
    t' = t := by
  obtain ⟨b, t₁, hb, hrest⟩ := Txn.bind_eq_ok.1 h
  obtain rfl := tenantBackend_eq_ok hb
  obtain ⟨all, -, hrest⟩ := Txn.ofOption_bind_eq_ok.1 hrest
  exact (Txn.pure_eq_ok.1 hrest).2.symm

theorem gate_eq_ok {u : Unit} (h : gate S t = (.ok u, t')) : t' = t := by
  unfold gate at h
  cases hlicense : S.licenseError with
  | none =>
    rw [hlicense] at h
    exact (Txn.pure_eq_ok.1 h).2.symm
  | some e =>
    rw [hlicense] at h
    exact absurd h Txn.raise_ne_ok

theorem addExport_eq_ok {exportID : Uuid} (h : addExport S auth now id t = (.ok exportID, t')) :
    t'.queries = t.queries := by
  unfold addExport at h
  simp only [Txn.read_bind_eq_ok, Txn.raiseIf_bind_eq_ok, Txn.write_bind_eq_ok, Txn.pure_eq_ok] at h
  obtain ⟨-, -, rfl⟩ := h
  rfl

theorem requireQuery_eq_ok {u : Unit} (h : requireQuery auth t = (.ok u, t')) : t' = t :=
  (Txn.raiseIf_eq_ok.1 h).2.symm

/-- A run changes the statistics of its query. -/
theorem runQuery_answers {req : RunQueryRequest} {r : Uuid × RunResponse}
    (h : runQuery S auth now queryID req t = (.ok r, t')) : Answers auth t r.1 t' := by
  obtain ⟨_, t₁, hperm, hlookup⟩ := Txn.bind_eq_ok.1 h
  obtain rfl := requireQuery_eq_ok hperm
  obtain ⟨query, t₂, hquery, hflush⟩ := Txn.bind_eq_ok.1 hlookup
  obtain ⟨-, hget, htenant, -, rfl⟩ := getQueryOr404_eq_ok.1 hquery
  simp only [Txn.read_bind_eq_ok, Txn.ofOption_bind_eq_ok, Txn.write_bind_eq_ok] at hflush
  obtain ⟨stored, hstore, hflush⟩ := hflush
  obtain ⟨backend, t₃, hbackend, hrows⟩ := Txn.bind_eq_ok.1 hflush
  obtain rfl := tenantBackend_eq_ok hbackend
  have hsame : SameVisibility t₁ t₃ := by
    intro q' hq'
    rw [(store_eq_some hstore).2] at hq'
    rcases PyDict.mem_values_set hq' with rfl | hq'
    · exact ⟨query.2, List.mem_map_of_mem (PyDict.mem_of_get? hget), rfl, rfl, rfl⟩
    · exact ⟨q', hq', rfl, rfl, rfl⟩
  have hfound : ∃ q, t₁.queries.get? query.1 = some q ∧ q.tenantID = auth.tenantID := ⟨query.2, hget, htenant⟩
  cases hresult : backend query.2.cypher
    (req.params.entries.foldl (fun params e => params.set e.1 e.2) query.2.params) with
  | error e =>
    rw [hresult] at hrows
    exact absurd hrows Txn.raise_ne_ok
  | ok rows =>
    rw [hresult] at hrows
    split_ifs at hrows
    · obtain ⟨exportID, t₄, hexport, hrest⟩ := Txn.bind_eq_ok.1 hrows
      obtain ⟨rfl, rfl⟩ := Txn.pure_eq_ok.1 hrest
      exact ⟨hfound, hsame.of_queries (addExport_eq_ok hexport)⟩
    · obtain ⟨rfl, rfl⟩ := Txn.pure_eq_ok.1 hrows
      exact ⟨hfound, hsame⟩

theorem listExports_answers {r : Uuid × List (Uuid × QueryExport)}
    (h : listExports S auth queryID t = (.ok r, t')) : Answers auth t r.1 t' := by
  obtain ⟨⟨id, query⟩, t₁, hquery, hread⟩ := Txn.bind_eq_ok.1 h
  obtain ⟨-, hget, htenant, -, rfl⟩ := getQueryOr404_eq_ok.1 hquery
  rw [Txn.read_bind_eq_ok] at hread
  obtain ⟨rfl, rfl⟩ := Txn.pure_eq_ok.1 hread
  exact .of_eq ⟨query, hget, htenant⟩ rfl

theorem exportQuery_answers {format : String} {r : Uuid × ExportResponse}
    (h : exportQuery S auth now queryID format t = (.ok r, t')) : Answers auth t r.1 t' := by
  obtain ⟨-, hlookup⟩ := Txn.raiseIf_bind_eq_ok.1 h
  obtain ⟨query, t₁, hquery, hadd⟩ := Txn.bind_eq_ok.1 hlookup
  obtain ⟨-, hget, htenant, -, rfl⟩ := getQueryOr404_eq_ok.1 hquery
  obtain ⟨exportID, t₂, hexport, hrest⟩ := Txn.bind_eq_ok.1 hadd
  obtain ⟨rfl, rfl⟩ := Txn.pure_eq_ok.1 hrest
  exact .of_eq ⟨query.2, hget, htenant⟩ (addExport_eq_ok hexport)

theorem getStreamSchema_answers {r : Uuid × SchemaResponse}
    (h : getStreamSchema S auth queryID t = (.ok r, t')) : Answers auth t r.1 t' := by
  obtain ⟨_, t₁, hgate, hlookup⟩ := Txn.bind_eq_ok.1 h
  obtain rfl := gate_eq_ok hgate
  obtain ⟨query, t₂, hquery, hexec⟩ := Txn.bind_eq_ok.1 hlookup
  obtain ⟨-, hget, htenant, rfl⟩ := streamedQuery_eq_ok.1 hquery
  obtain ⟨rows, t₃, hrows, hschema⟩ := Txn.bind_eq_ok.1 hexec
  obtain rfl := executeQuery_eq_ok hrows
  cases rows with
  | nil =>
    obtain ⟨rfl, rfl⟩ := Txn.pure_eq_ok.1 hschema
    exact .of_eq ⟨query.2, hget, htenant⟩ rfl
  | cons row rows =>
    obtain ⟨schema, -, hrest⟩ := Txn.ofOption_bind_eq_ok.1 hschema
    obtain ⟨rfl, rfl⟩ := Txn.pure_eq_ok.1 hrest
    exact .of_eq ⟨query.2, hget, htenant⟩ rfl

theorem streamQuery_answers {limit : ℤ} {r : Uuid × StreamResponse}
    (h : streamQuery S auth queryID limit t = (.ok r, t')) : Answers auth t r.1 t' := by
  obtain ⟨_, t₁, hgate, hperm⟩ := Txn.bind_eq_ok.1 h
  obtain rfl := gate_eq_ok hgate
  obtain ⟨_, t₂, hrequire, hlookup⟩ := Txn.bind_eq_ok.1 hperm
  obtain rfl := requireQuery_eq_ok hrequire
  obtain ⟨query, t₃, hquery, hexec⟩ := Txn.bind_eq_ok.1 hlookup
  obtain ⟨-, hget, htenant, rfl⟩ := streamedQuery_eq_ok.1 hquery
  obtain ⟨rows, t₄, hrows, hrest⟩ := Txn.bind_eq_ok.1 hexec
  obtain rfl := executeQuery_eq_ok hrows
  obtain ⟨rfl, rfl⟩ := Txn.pure_eq_ok.1 hrest
  exact .of_eq ⟨query.2, hget, htenant⟩ rfl

theorem hfParquetShard_answers {queryName : String} {r : Uuid × List Row}
    (h : hfParquetShard S auth queryName t = (.ok r, t')) : Answers auth t r.1 t' := by
  obtain ⟨_, t₁, hgate, hlookup⟩ := Txn.bind_eq_ok.1 h
  obtain rfl := gate_eq_ok hgate
  rw [Txn.read_bind_eq_ok] at hlookup
  obtain ⟨query, hfind, hexec⟩ := Txn.ofOption_bind_eq_ok.1 hlookup
  obtain ⟨backend, t₂, hbackend, hrows⟩ := Txn.bind_eq_ok.1 hexec
  obtain rfl := tenantBackend_eq_ok hbackend
  obtain ⟨rows, -, hrest⟩ := Txn.ofOption_bind_eq_ok.1 hrows
  obtain ⟨rfl, rfl⟩ := Txn.pure_eq_ok.1 hrest
  have hfound := List.find?_some hfind
  rw [decide_eq_true_eq] at hfound
  exact .of_eq ⟨query.2, PyDict.get?_of_mem (List.mem_of_find?_eq_some hfind), hfound.1⟩ rfl

theorem fst_eq_ok {α : Type} {m : QueryRequest (Uuid × α)}
    (h : (m >>= fun r => pure r.1 : QueryRequest Uuid) t = (.ok id, t')) : ∃ r, m t = (.ok r, t') ∧ r.1 = id := by
  obtain ⟨r, t₁, hr, hrest⟩ := Txn.bind_eq_ok.1 h
  obtain ⟨rfl, rfl⟩ := Txn.pure_eq_ok.1 hrest
  exact ⟨r, hr, rfl⟩

theorem source_answers {r : Read} (h : r.source S auth now t = (.ok id, t')) : Answers auth t id t' := by
  cases r with
  | get queryID =>
    obtain ⟨r, hr, rfl⟩ := fst_eq_ok h
    obtain ⟨-, hget, htenant, -, rfl⟩ := getQueryOr404_eq_ok.1 hr
    exact .of_eq ⟨r.2, hget, htenant⟩ rfl
  | run queryID req =>
    obtain ⟨r, hr, rfl⟩ := fst_eq_ok h
    exact runQuery_answers hr
  | exports queryID =>
    obtain ⟨r, hr, rfl⟩ := fst_eq_ok h
    exact listExports_answers hr
  | «export» queryID format =>
    obtain ⟨r, hr, rfl⟩ := fst_eq_ok h
    exact exportQuery_answers hr
  | schema queryID =>
    obtain ⟨r, hr, rfl⟩ := fst_eq_ok h
    exact getStreamSchema_answers hr
  | stream queryID limit =>
    obtain ⟨r, hr, rfl⟩ := fst_eq_ok h
    exact streamQuery_answers hr
  | shard queryName =>
    obtain ⟨r, hr, rfl⟩ := fst_eq_ok h
    exact hfParquetShard_answers hr

/-! ### Private and open tables -/

/-- Each user is shown the listed queries only exactly if all queries of the tenant are listed. -/
theorem private_iff_open : t.Private S tenantID userID ↔ t.Open tenantID userID := by
  constructor
  · intro h q hq htenant
    obtain ⟨e, he, rfl⟩ := List.mem_map.1 hq
    have hget : t.queries.get? e.1 = some e.2 := PyDict.get?_of_mem he
    have hlisted := h ⟨userID, tenantID, "", [], []⟩ 0 _ e.1 t rfl rfl List.not_mem_nil (get_source hget htenant)
    obtain ⟨q, hq, -, hvisible⟩ := mem_listQueries.1 hlisted
    obtain rfl := Option.some.inj (hget.symm.trans hq)
    exact hvisible
  · rintro h auth now r id t' rfl rfl - hr
    obtain ⟨q, hget, htenant⟩ := (source_answers hr).found
    exact mem_listQueries.2 ⟨q, hget, htenant, h q (List.mem_map_of_mem (PyDict.mem_of_get? hget)) htenant⟩

theorem Tables.Open.same (h : t.Open tenantID userID) (hsame : SameVisibility t t') : t'.Open tenantID userID := by
  intro q' hq' htenant
  obtain ⟨q, hq, ht, hp, hc⟩ := hsame q' hq'
  rw [← hp, ← hc]
  exact h q hq (ht.trans htenant)

/-- A row that is written is as open as the others. -/
theorem Tables.Open.store_iff (h : t.Open tenantID userID) (hstore : t.store id q = some t') :
    t'.Open tenantID userID ↔ (q.tenantID = tenantID → q.isPublic = true ∨ q.createdBy = userID) := by
  obtain ⟨-, hqueries⟩ := store_eq_some hstore
  constructor
  · intro hopen
    refine hopen q ?_
    rw [hqueries]
    exact List.mem_map_of_mem (PyDict.mem_set_self _ _ _)
  · intro hq q' hq'
    rw [hqueries] at hq'
    rcases PyDict.mem_values_set hq' with rfl | hq'
    · exact hq
    · exact h q' hq'

theorem Tables.Open.delete (h : t.Open tenantID userID) : (t.delete id).Open tenantID userID :=
  fun q hq => h q (PyDict.mem_values_erase hq)

/-! ### Requests that write -/

theorem saveQuery_eq_ok {req : SaveQueryRequest} {r : Uuid × SavedQuery}
    (h : saveQuery S auth now req t = (.ok r, t')) :
    t.Inserts S auth req ∧ ∃ stored, t.store (S.uuid4 t.nextID) (newQuery auth now req) = some stored ∧
      t'.queries = stored.queries := by
  unfold saveQuery at h
  simp only [Txn.read_bind_eq_ok, Txn.raiseIf_bind_eq_ok, Txn.ofOption_bind_eq_ok, Txn.write_bind_eq_ok,
    Txn.pure_eq_ok, not_or, decide_eq_true_eq, Bool.not_eq_false] at h
  obtain ⟨hname, ⟨hfresh, htakes⟩, stored, hstore, -, rfl⟩ := h
  refine ⟨⟨fun e he htenant heq => hname ?_, hfresh, htakes, (store_eq_some hstore).1.1⟩, stored, hstore, rfl⟩
  exact List.any_eq_true.2 ⟨e, he, decide_eq_true ⟨htenant, heq⟩⟩

theorem saveQuery_of_inserts {req : SaveQueryRequest} (h : t.Inserts S auth req) :
    ∃ r t', saveQuery S auth now req t = (.ok r, t') := by
  obtain ⟨hname, hfresh, htakes, htenant, huser⟩ := h
  have hfree : t.NameFree (S.uuid4 t.nextID) auth.tenantID req.name := fun e he htenant hsame =>
    absurd hsame (hname e he htenant)
  have hstore : ∃ stored, t.store (S.uuid4 t.nextID) (newQuery auth now req) = some stored :=
    ⟨_, dif_pos ⟨⟨htenant, huser⟩, hfree⟩⟩
  obtain ⟨stored, hstore⟩ := hstore
  refine ⟨(S.uuid4 t.nextID, newQuery auth now req), { stored with nextID := stored.nextID + 1 }, ?_⟩
  unfold saveQuery
  simp only [Txn.read_bind_eq_ok, Txn.raiseIf_bind_eq_ok, Txn.ofOption_bind_eq_ok, Txn.write_bind_eq_ok,
    Txn.pure_eq_ok, not_or, decide_eq_true_eq, Bool.not_eq_false]
  refine ⟨fun hany => ?_, ⟨hfresh, htakes⟩, stored, hstore, trivial, rfl⟩
  obtain ⟨e, he, hboth⟩ := List.any_eq_true.1 hany
  obtain ⟨htenant, hsame⟩ := of_decide_eq_true hboth
  exact hname e he htenant hsame

/-- An update that goes through: its query, and that the tables take the new row. -/
structure Updates (S : Services) (auth : AuthContext) (queryID : String) (req : UpdateQueryRequest) (t : Tables)
    (id : Uuid) (q : SavedQuery) : Prop where
  parsed : S.parseUuid queryID = some id
  found : t.queries.get? id = some q
  tenant : q.tenantID = auth.tenantID
  owner : q.createdBy = auth.userID ∨ "admin:*" ∈ auth.permissions
  takes : S.takesUpdate req = true
  free : t.NameFree id q.tenantID (req.name.getD q.name)

theorem updateQuery_eq_ok {req : UpdateQueryRequest} {r : Uuid × SavedQuery}
    (h : updateQuery S auth now queryID req t = (.ok r, t')) :
    ∃ id q, Updates S auth queryID req t id q ∧ t.store id (updated q now req) = some t' := by
  obtain ⟨query, t₁, hquery, hflush⟩ := Txn.bind_eq_ok.1 h
  obtain ⟨hparsed, hget, htenant, howner, rfl⟩ := getQueryOr404_eq_ok.1 hquery
  simp only [Txn.read_bind_eq_ok, Txn.raiseIf_bind_eq_ok, Txn.ofOption_bind_eq_ok, Txn.write_bind_eq_ok,
    Txn.pure_eq_ok, Bool.not_eq_false] at hflush
  obtain ⟨htakes, stored, hstore, -, rfl⟩ := hflush
  exact ⟨query.1, query.2, ⟨hparsed, hget, htenant, howner rfl, htakes, (store_eq_some hstore).1.2⟩, hstore⟩

/-- Only a row that is made private by someone else is not open. -/
theorem Tables.Open.updated_iff {req : UpdateQueryRequest} (h : t.Open tenantID userID)
    (hupdates : Updates S auth queryID req t id q) :
    ((updated q now req).tenantID = tenantID → (updated q now req).isPublic = true ∨
      (updated q now req).createdBy = userID) ↔ (Event.update auth now queryID req).KeepsOpen S tenantID userID t := by
  have hq : q ∈ t.queries.values := List.mem_map_of_mem (PyDict.mem_of_get? hupdates.found)
  constructor
  · intro hopen id' q' hparsed hfound htenant htenant' _ _ _ hfalse
    obtain rfl := Option.some.inj (hupdates.parsed.symm.trans hparsed)
    obtain rfl := Option.some.inj (hupdates.found.symm.trans hfound)
    rcases hopen (htenant.trans htenant') with hpublic | hown
    · rw [updated, hfalse] at hpublic
      exact absurd hpublic Bool.false_ne_true
    · exact hown
  · intro hkeeps htenant
    have hkeeps := hkeeps id q hupdates.parsed hupdates.found hupdates.tenant (hupdates.tenant.symm.trans htenant)
      hupdates.owner hupdates.takes hupdates.free
    show req.isPublic.getD q.isPublic = true ∨ q.createdBy = userID
    rcases hpublic : req.isPublic with _ | _ | _
    · exact h q hq htenant
    · exact .inr (hkeeps hpublic)
    · exact .inl rfl

theorem updateQuery_of_updates {req : UpdateQueryRequest} (h : Updates S auth queryID req t id q) :
    ∃ r t', updateQuery S auth now queryID req t = (.ok r, t') := by
  have hq : q ∈ t.queries.values := List.mem_map_of_mem (PyDict.mem_of_get? h.found)
  have hstore : ∃ stored, t.store id (updated q now req) = some stored := ⟨_, dif_pos ⟨t.owned q hq, h.free⟩⟩
  obtain ⟨stored, hstore⟩ := hstore
  have hfound : getQueryOr404 S auth queryID true t = (.ok (id, q), t) :=
    getQueryOr404_eq_ok.2 ⟨h.parsed, h.found, h.tenant, fun _ => h.owner, rfl⟩
  refine ⟨(id, updated q now req), stored, Txn.bind_eq_ok.2 ⟨(id, q), t, hfound, ?_⟩⟩
  simp only [Txn.read_bind_eq_ok, Txn.raiseIf_bind_eq_ok, Txn.ofOption_bind_eq_ok, Txn.write_bind_eq_ok,
    Txn.pure_eq_ok, Bool.not_eq_false]
  exact ⟨h.takes, stored, hstore, trivial, rfl⟩

theorem deleteQuery_eq_ok {u : Unit} (h : deleteQuery S auth queryID t = (.ok u, t')) : ∃ id, t' = t.delete id := by
  obtain ⟨query, t₁, hquery, hdelete⟩ := Txn.bind_eq_ok.1 h
  obtain ⟨-, -, -, -, rfl⟩ := getQueryOr404_eq_ok.1 hquery
  exact ⟨query.1, (Txn.write_eq_ok.1 hdelete).symm⟩

/-! ### Histories -/

theorem open_step_iff {e : Event} (h : t.Open tenantID userID) (hstep : step S t e = some t') :
    t'.Open tenantID userID ↔ e.KeepsOpen S tenantID userID t := by
  obtain rfl := Option.some.inj hstep
  cases e with
  | save auth now req =>
    rcases Txn.exec_state_cases ((Event.save auth now req).body S) t with ⟨u, hbody⟩ | ⟨hsame, hraises⟩
    · obtain ⟨r, hr⟩ := Txn.discard_eq_ok.1 hbody
      obtain ⟨hinserts, stored, hstore, hqueries⟩ := saveQuery_eq_ok hr
      rw [Tables.Open, hqueries, ← Tables.Open, h.store_iff hstore]
      exact ⟨fun hq htenant _ => hq htenant, fun hq htenant => hq htenant hinserts⟩
    · rw [hsame]
      refine iff_of_true h fun _ hinserts => ?_
      obtain ⟨r, t₁, hr⟩ := saveQuery_of_inserts hinserts
      exact absurd (Txn.discard_eq_ok.2 ⟨r, hr⟩) (hraises () t₁)
  | update auth now queryID req =>
    rcases Txn.exec_state_cases ((Event.update auth now queryID req).body S) t with ⟨u, hbody⟩ | ⟨hsame, hraises⟩
    · obtain ⟨r, hr⟩ := Txn.discard_eq_ok.1 hbody
      obtain ⟨id, q, hupdates, hstore⟩ := updateQuery_eq_ok hr
      exact (h.store_iff hstore).trans (h.updated_iff hupdates)
    · rw [hsame]
      refine iff_of_true h fun id q hparsed hfound htenant _ howner htakes hfree _ => ?_
      obtain ⟨r, t₁, hr⟩ := updateQuery_of_updates ⟨hparsed, hfound, htenant, howner, htakes, hfree⟩
      exact absurd (Txn.discard_eq_ok.2 ⟨r, hr⟩) (hraises () t₁)
  | delete auth queryID =>
    refine iff_of_true ?_ trivial
    rcases Txn.exec_state_cases ((Event.delete auth queryID).body S) t with ⟨u, hbody⟩ | ⟨hsame, -⟩
    · obtain ⟨id, heq⟩ := deleteQuery_eq_ok hbody
      rw [heq]
      exact h.delete
    · rw [hsame]
      exact h
  | read auth now r =>
    refine iff_of_true ?_ trivial
    rcases Txn.exec_state_cases ((Event.read auth now r).body S) t with ⟨u, hbody⟩ | ⟨hsame, -⟩
    · obtain ⟨id, hid⟩ := Txn.discard_eq_ok.1 hbody
      exact h.same (source_answers hid).left
    · rw [hsame]
      exact h

/-- In every state of a history a user is shown the listed queries only exactly if it is so at the start, and no one
else keeps a query of the tenant private. -/
theorem private_always_iff (S : Services) (tenantID : Uuid) (userID : Option Uuid) (t : Tables) (events : List Event) :
    Runs.Always (step S) (fun t => t.Private S tenantID userID) t events ↔
      t.Private S tenantID userID ∧ Runs.Along (step S) (fun t e => e.KeepsOpen S tenantID userID t) t events :=
  Runs.always_iff_and_along fun _ _ _ h hstep =>
    private_iff_open.trans (open_step_iff (private_iff_open.1 h) hstep)

/-! ### A private query of another user -/

def sampleServices : Services where
  uuid4 _ := "q"
  parseUuid text := some text
  strUuid id := id
  parse_str _ := rfl
  pyRepr text := text
  order l := l
  order_perm _ := List.Perm.refl _
  takesSave _ := true
  takesUpdate _ := true
  backend _ := none
  licenseError := none
  arrowSchema _ := none

def sampleTables : Tables where
  tenants := ["t"]
  users := ["u", "v"]
  queries := PyDict.empty
  exports := PyDict.empty
  nextID := 0
  owned := fun _ hq => absurd hq List.not_mem_nil
  named := fun _ he => absurd he List.not_mem_nil

def privateRequest : SaveQueryRequest := ⟨"mine", "", "RETURN 1", PyDict.empty, [], false, false, none, none⟩

/-- `v` saves a query for herself. -/
def savePrivate : List Event := [.save ⟨some "v", "t", "", [], []⟩ 0 privateRequest]

theorem private_query_read : sampleTables.Private sampleServices "t" (some "u") ∧
    ¬ Runs.Always (step sampleServices) (fun t => t.Private sampleServices "t" (some "u")) sampleTables savePrivate := by
  constructor
  · exact private_iff_open.2 fun _ hq => absurd hq List.not_mem_nil
  · intro h
    have hlast := private_iff_open.1 (h savePrivate
      ((Runs.run (step sampleServices) sampleTables savePrivate).getD sampleTables) (List.prefix_refl _) rfl)
    rcases hlast (newQuery ⟨some "v", "t", "", [], []⟩ 0 privateRequest) (List.mem_singleton.2 rfl) rfl with hp | hu
    · exact absurd hp Bool.false_ne_true
    · exact absurd hu (by decide)

end Dgraphai.SavedQueries
