import Dgraphai.AuthContext
import Dgraphai.Lib.PyDict
import Dgraphai.Lib.PyJson
import Mathlib.Data.List.Sort

/-!
# Saved queries (`api/queries.py`, `api/stream.py`)

`list_queries` shows the public queries of the tenant and the caller's own. Every other reader finds a query by its id
or its name in the tenant: `_get_query_or_404`, the `_get_query` of the streaming endpoints, and the Hugging Face
endpoint with a statement of its own.
-/

namespace Dgraphai.SavedQueries

open Auth (Uuid Time AuthContext HttpError serverError)

abbrev Row := Json.Fields

abbrev Params := PyDict String Json

/-- `SavedQuery`, by its `id`. -/
structure SavedQuery where
  tenantID : Uuid
  createdBy : Option Uuid
  name : String
  description : String
  cypher : String
  params : Params
  tags : List String
  isPublic : Bool
  isPinned : Bool
  runCount : ℕ
  lastRunAt : Option Time
  createdAt : Time
  updatedAt : Time
  exportFormat : Option String
  exportSchedule : Option String

/-- `QueryExport`, by its `id`; the columns of a run that has ended stay empty. -/
structure QueryExport where
  queryID : Uuid
  tenantID : Uuid
  triggeredBy : String
  status : String
  startedAt : Time

/-- The tables by their primary keys, with the foreign keys of a query; names are unique in a tenant. -/
structure Tables where
  tenants : List Uuid
  users : List Uuid
  queries : PyDict Uuid SavedQuery
  exports : PyDict Uuid QueryExport
  nextID : ℕ
  owned : ∀ q ∈ queries.values, q.tenantID ∈ tenants ∧ ∀ user ∈ q.createdBy, user ∈ users
  named : ∀ e ∈ queries.entries, ∀ e' ∈ queries.entries,
    e.2.tenantID = e'.2.tenantID → e.2.name = e'.2.name → e.1 = e'.1

structure SaveQueryRequest where
  name : String
  description : String
  cypher : String
  params : Params
  tags : List String
  isPublic : Bool
  isPinned : Bool
  exportFormat : Option String
  exportSchedule : Option String

structure UpdateQueryRequest where
  name : Option String
  description : Option String
  cypher : Option String
  params : Option Params
  tags : Option (List String)
  isPublic : Option Bool
  isPinned : Option Bool
  exportFormat : Option String
  exportSchedule : Option String

structure RunQueryRequest where
  params : Params
  limit : ℤ
  exports : Bool

structure Services where
  /-- The n-th `uuid4()`; `uuid.UUID(text)`, where `none` raises; `str(id)`. -/
  uuid4 : ℕ → Uuid
  parseUuid : String → Option Uuid
  strUuid : Uuid → String
  parse_str : ∀ id, parseUuid (strUuid id) = some id
  /-- `{text!r}`. -/
  pyRepr : String → String
  /-- `ORDER BY is_pinned DESC, name`. -/
  order : List (Uuid × SavedQuery) → List (Uuid × SavedQuery)
  order_perm : ∀ l, (order l).Perm l
  /-- The columns take the values that a request sets. -/
  takesSave : SaveQueryRequest → Bool
  takesUpdate : UpdateQueryRequest → Bool
  /-- `get_backend_for_tenant`, where `none` raises, and `backend.query`. -/
  backend : Uuid → Option (String → Params → Except String (List Row))
  /-- What `gate_feature("ai_training_export")` raises with. -/
  licenseError : Option String
  /-- The names and types of the columns of `pa.Table.from_pylist`; `none` raises. -/
  arrowSchema : List Row → Option (List (String × String))

abbrev QueryRequest := Txn Tables HttpError

variable (S : Services)

def requireQuery (auth : AuthContext) : QueryRequest Unit :=
  Txn.raiseIf ("graph:query" ∉ auth.permissions ∧ "admin:*" ∉ auth.permissions)
    ⟨403, "Permission required: graph:query"⟩

/-! ### The library -/

/-- `is_public` or `created_by` the user. -/
def Listed (auth : AuthContext) (q : SavedQuery) : Prop :=
  q.tenantID = auth.tenantID ∧ (q.isPublic = true ∨ q.createdBy = auth.userID)

instance (auth : AuthContext) (q : SavedQuery) : Decidable (Listed auth q) := inferInstanceAs (Decidable (_ ∧ _))

def listQueries (auth : AuthContext) (tag : Option String) (pinned : Option Bool) :
    QueryRequest (List (Uuid × SavedQuery)) := do
  let queries ← Txn.read fun t => S.order (t.queries.entries.filter fun e =>
    Listed auth e.2 ∧ ∀ p ∈ pinned, e.2.isPinned = p)
  match tag with
  | none | some "" => pure queries
  | some tag => pure (queries.filter fun e => tag ∈ e.2.tags)

/-- No other query of the tenant has the name. -/
def Tables.NameFree (t : Tables) (id tenantID : Uuid) (name : String) : Prop :=
  ∀ e ∈ t.queries.entries, e.2.tenantID = tenantID → e.2.name = name → e.1 = id

instance (t : Tables) (id tenantID : Uuid) (name : String) : Decidable (t.NameFree id tenantID name) :=
  inferInstanceAs (Decidable (∀ _ ∈ _, _))

/-- Flushes a row; `none` is an error of a foreign key or of the unique name. -/
def Tables.store (t : Tables) (id : Uuid) (q : SavedQuery) : Option Tables :=
  if h : (q.tenantID ∈ t.tenants ∧ ∀ user ∈ q.createdBy, user ∈ t.users) ∧ t.NameFree id q.tenantID q.name then
    some { t with
      queries := t.queries.set id q
      owned := fun q' hq' => by
        rcases PyDict.mem_values_set hq' with rfl | hq'
        · exact h.1
        · exact t.owned q' hq'
      named := fun e he e' he' htenant hname => by
        rcases PyDict.mem_set he with heq | he <;> rcases PyDict.mem_set he' with heq' | he'
        · rw [(Prod.mk.inj heq).1, (Prod.mk.inj heq').1]
        · obtain ⟨hid, hq⟩ := Prod.mk.inj heq
          rw [hid]
          exact (h.2 e' he' (by rw [← htenant, hq]) (by rw [← hname, hq])).symm
        · obtain ⟨hid, hq⟩ := Prod.mk.inj heq'
          rw [hid]
          exact h.2 e he (by rw [htenant, hq]) (by rw [hname, hq])
        · exact t.named e he e' he' htenant hname }
  else none

def newQuery (auth : AuthContext) (now : Time) (req : SaveQueryRequest) : SavedQuery :=
  ⟨auth.tenantID, auth.userID, req.name, req.description, req.cypher, req.params, req.tags, req.isPublic, req.isPinned,
    0, none, now, now, req.exportFormat, req.exportSchedule⟩

def saveQuery (auth : AuthContext) (now : Time) (req : SaveQueryRequest) : QueryRequest (Uuid × SavedQuery) := do
  let existing ← Txn.read fun t =>
    t.queries.entries.any fun e => decide (e.2.tenantID = auth.tenantID ∧ e.2.name = req.name)
  Txn.raiseIf (existing = true) ⟨409, "Query named " ++ S.pyRepr req.name ++ " already exists"⟩
  let id ← Txn.read fun t => S.uuid4 t.nextID
  let taken ← Txn.read fun t => decide (id ∈ t.queries.keys)
  Txn.raiseIf (taken = true ∨ S.takesSave req = false) serverError
  let stored ← Txn.read fun t => t.store id (newQuery auth now req)
  let stored ← Txn.ofOption serverError stored
  Txn.write fun _ => { stored with nextID := stored.nextID + 1 }
  pure (id, newQuery auth now req)

/-- `_get_query_or_404`. -/
def getQueryOr404 (auth : AuthContext) (queryID : String) (requireOwner : Bool) :
    QueryRequest (Uuid × SavedQuery) := do
  let id ← Txn.ofOption serverError (S.parseUuid queryID)
  let query ← Txn.read fun t => (t.queries.get? id).filter fun q => q.tenantID = auth.tenantID
  let query ← Txn.ofOption ⟨404, "Query not found"⟩ query
  Txn.raiseIf (requireOwner = true ∧ query.createdBy ≠ auth.userID ∧ "admin:*" ∉ auth.permissions)
    ⟨403, "You don't own this query"⟩
  pure (id, query)

def getQuery (auth : AuthContext) (queryID : String) : QueryRequest (Uuid × SavedQuery) :=
  getQueryOr404 S auth queryID false

/-- The row after the loop over the fields that are set. -/
def updated (q : SavedQuery) (now : Time) (req : UpdateQueryRequest) : SavedQuery :=
  { q with
    name := req.name.getD q.name
    description := req.description.getD q.description
    cypher := req.cypher.getD q.cypher
    params := req.params.getD q.params
    tags := req.tags.getD q.tags
    isPublic := req.isPublic.getD q.isPublic
    isPinned := req.isPinned.getD q.isPinned
    exportFormat := req.exportFormat.orElse fun _ => q.exportFormat
    exportSchedule := req.exportSchedule.orElse fun _ => q.exportSchedule
    updatedAt := now }

def updateQuery (auth : AuthContext) (now : Time) (queryID : String) (req : UpdateQueryRequest) :
    QueryRequest (Uuid × SavedQuery) := do
  let (id, query) ← getQueryOr404 S auth queryID true
  Txn.raiseIf (S.takesUpdate req = false) serverError
  let stored ← Txn.read fun t => t.store id (updated query now req)
  let stored ← Txn.ofOption serverError stored
  Txn.write fun _ => stored
  pure (id, updated query now req)

/-- The row and its exports are gone. -/
def Tables.delete (t : Tables) (id : Uuid) : Tables where
  tenants := t.tenants
  users := t.users
  queries := t.queries.erase id
  exports := ⟨t.exports.entries.filter fun e => e.2.queryID ≠ id,
    t.exports.keyed.sublist (List.filter_sublist.map Prod.fst)⟩
  nextID := t.nextID
  owned := fun q hq => t.owned q (PyDict.mem_values_erase hq)
  named := fun e he e' he' => t.named e (List.mem_filter.1 he).1 e' (List.mem_filter.1 he').1

def deleteQuery (auth : AuthContext) (queryID : String) : QueryRequest Unit := do
  let (id, _) ← getQueryOr404 S auth queryID true
  Txn.write fun t => t.delete id

/-! ### Runs and exports -/

/-- `rows[:limit]`. -/
def upTo (rows : List Row) (limit : ℤ) : List Row :=
  if limit < 0 then rows.take (rows.length - limit.natAbs) else rows.take limit.toNat

/-- A pending export of a query. -/
def addExport (auth : AuthContext) (now : Time) (queryID : Uuid) : QueryRequest Uuid := do
  let id ← Txn.read fun t => S.uuid4 t.nextID
  let taken ← Txn.read fun t => decide (id ∈ t.exports.keys)
  Txn.raiseIf (taken = true) serverError
  Txn.write fun t => { t with
    exports := t.exports.set id ⟨queryID, auth.tenantID, "manual", "pending", now⟩
    nextID := t.nextID + 1 }
  pure id

/-- The backend of the caller's tenant. -/
def tenantBackend (auth : AuthContext) : QueryRequest (String → Params → Except String (List Row)) := do
  let found ← Txn.read fun t => decide (auth.tenantID ∈ t.tenants)
  Txn.raiseIf (found = false) serverError
  Txn.ofOption serverError (S.backend auth.tenantID)

structure RunResponse where
  queryID : String
  queryName : String
  rows : List Row
  exportID : Option Uuid

def runQuery (auth : AuthContext) (now : Time) (queryID : String) (req : RunQueryRequest) :
    QueryRequest (Uuid × RunResponse) := do
  requireQuery auth
  let (id, query) ← getQueryOr404 S auth queryID false
  let merged := req.params.entries.foldl (fun params e => params.set e.1 e.2) query.params
  let stored ← Txn.read fun t =>
    t.store id { query with runCount := query.runCount + 1, lastRunAt := some now, updatedAt := now }
  let stored ← Txn.ofOption serverError stored
  Txn.write fun _ => stored
  let backend ← tenantBackend S auth
  match backend query.cypher merged with
  | .error e => Txn.raise ⟨400, "Query error: " ++ e⟩
  | .ok rows =>
    let rows := upTo rows req.limit
    if req.exports = true ∧ query.exportFormat.getD "" ≠ "" then do
      let exportID ← addExport S auth now id
      pure (id, ⟨queryID, query.name, rows, some exportID⟩)
    else pure (id, ⟨queryID, query.name, rows, none⟩)

def listExports (auth : AuthContext) (queryID : String) : QueryRequest (Uuid × List (Uuid × QueryExport)) := do
  let (id, _) ← getQueryOr404 S auth queryID false
  let exports ← Txn.read fun t => (t.exports.entries.filter fun e => e.2.queryID = id).insertionSort
    fun e e' => e'.2.startedAt ≤ e.2.startedAt
  pure (id, exports.take 50)

structure ExportResponse where
  exportID : Uuid
  format : String

def exportQuery (auth : AuthContext) (now : Time) (queryID format : String) :
    QueryRequest (Uuid × ExportResponse) := do
  Txn.raiseIf (format ∉ ["jsonl", "csv", "parquet"]) ⟨400, "format must be jsonl, csv, or parquet"⟩
  let (id, _) ← getQueryOr404 S auth queryID false
  let exportID ← addExport S auth now id
  pure (id, ⟨exportID, format⟩)

/-! ### Streaming -/

/-- `gate_feature("ai_training_export")`. -/
def gate : QueryRequest Unit :=
  match S.licenseError with
  | none => pure ()
  | some e => Txn.raise ⟨402, e⟩

/-- `_get_query`. -/
def streamedQuery (auth : AuthContext) (queryID : String) : QueryRequest (Uuid × SavedQuery) := do
  let id ← Txn.ofOption serverError (S.parseUuid queryID)
  let query ← Txn.read fun t => (t.queries.get? id).filter fun q => q.tenantID = auth.tenantID
  let query ← Txn.ofOption ⟨404, "Query not found"⟩ query
  pure (id, query)

/-- `_execute_query`. -/
def executeQuery (auth : AuthContext) (query : SavedQuery) (limit : ℤ) : QueryRequest (List Row) := do
  let backend ← tenantBackend S auth
  let rows ← Txn.ofOption serverError (backend query.cypher query.params).toOption
  pure (if limit > 0 then upTo rows limit else rows)

structure SchemaResponse where
  schema : List (String × String)
  sampleRow : Option Row

def getStreamSchema (auth : AuthContext) (queryID : String) : QueryRequest (Uuid × SchemaResponse) := do
  gate S
  let (id, query) ← streamedQuery S auth queryID
  let rows ← executeQuery S auth query 1
  match rows with
  | [] => pure (id, ⟨[], none⟩)
  | row :: _ => do
    let schema ← Txn.ofOption serverError (S.arrowSchema rows)
    pure (id, ⟨schema, some row⟩)

/-- The name in the headers, and the rows before they are encoded. -/
structure StreamResponse where
  queryName : String
  rows : List Row

def streamQuery (auth : AuthContext) (queryID : String) (limit : ℤ) : QueryRequest (Uuid × StreamResponse) := do
  gate S
  requireQuery auth
  let (id, query) ← streamedQuery S auth queryID
  let rows ← executeQuery S auth query (if limit > 0 then limit else 100000)
  pure (id, ⟨query.name, rows⟩)

def hfParquetShard (auth : AuthContext) (queryName : String) : QueryRequest (Uuid × List Row) := do
  gate S
  let query ← Txn.read fun t =>
    t.queries.entries.find? fun e => e.2.tenantID = auth.tenantID ∧ e.2.name = queryName
  let query ← Txn.ofOption ⟨404, "Dataset not found"⟩ query
  let backend ← tenantBackend S auth
  let rows ← Txn.ofOption serverError (backend query.2.cypher query.2.params).toOption
  pure (query.1, rows)

end Dgraphai.SavedQueries
