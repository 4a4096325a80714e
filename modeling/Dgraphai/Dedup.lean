import Dgraphai.Lib.PropertyGraph

/-!
# File deduplication (`graph/dedup.py`)

`makeNodeID` and `makeCanonicalPath` build the key and the path of a file; `upsertFile` and `bulkUpsert`
are what the statements of `upsert_cypher` and `bulk_upsert_query` do to a graph. In both, `ON CREATE`
replaces all properties by a map that has the key under `node_id`.
-/

namespace Dgraphai.Dedup

open PropertyGraph (Props Graph)

structure Env where
  /-- `hashlib.sha256(text.encode()).hexdigest()`. -/
  hexdigest : String → String
  /-- `str()` of a value that is no string. -/
  pyStr : Json → String
  /-- Whether the text of a float is zero. -/
  isZero : String → Bool

variable (E : Env)

/-- A value in an f-string. -/
def Env.fmt : Json → String
  | .str s => s
  | j => E.pyStr j

/-- `make_node_id`; `none` raises. -/
def makeNodeID (props : Json.Fields) : Option String :=
  let sha := Json.getD props "sha256" (.str "")
  let key := E.fmt (Json.getD props "connector_id" (.str "")) ++ ":" ++
    E.fmt (Json.getD props "path" (.str ""))
  if sha.truthy E.isZero then
    sha.len?.map fun n => if n = 64 then "sha256:" ++ E.fmt sha else "path:" ++ E.hexdigest key
  else some ("path:" ++ E.hexdigest key)

def makeCanonicalPath (props : Json.Fields) : String :=
  let get := fun k => Json.getD props k (.str "")
  let protocol := Json.getD props "protocol" (.str "local")
  let host := get "host"
  let path := E.fmt (get "path")
  if protocol = .str "smb" ∧ host.truthy E.isZero then
    "smb://" ++ E.fmt host ++ "/" ++ E.fmt (get "share") ++ path
  else if protocol = .str "nfs" ∧ host.truthy E.isZero then "nfs://" ++ E.fmt host ++ path
  else if protocol = .str "s3" ∨ protocol = .str "aws-s3" then
    "s3://" ++ E.fmt (get "bucket") ++ "/" ++ E.fmt (Json.getD props "key" (get "path"))
  else if protocol = .str "azure-blob" ∨ protocol = .str "azure" then
    "azure://" ++ E.fmt (get "account_name") ++ "/" ++ E.fmt (get "container") ++ path
  else
    let localhost := if host.truthy E.isZero then host else .str "localhost"
    "local://" ++ E.fmt (Json.getD props "hostname" localhost) ++ path

/-! ### `upsert_cypher` -/

structure UpsertParams where
  nodeID : String
  tenantID : String
  createProps : Json.Fields
  updateProps : Json.Fields
  canonPath : String
  agentID : String
  deriving DecidableEq, Repr

def upsertCypher (props : Json.Fields) (agentID tenantID : String) : Option UpsertParams := do
  let nodeID ← makeNodeID E props
  pure
    { nodeID := nodeID
      tenantID := tenantID
      createProps :=
        [("node_id", .str nodeID), ("tenant_id", .str tenantID),
         ("sha256", Json.getD props "sha256" (.str "")), ("name", Json.getD props "name" (.str "")),
         ("extension", Json.getD props "extension" (.str "")),
         ("file_category", Json.getD props "file_category" (.str "unknown")),
         ("mime_type", Json.getD props "mime_type" (.str "")),
         ("protocol", Json.getD props "protocol" (.str "local")),
         ("connector_id", Json.getD props "connector_id" (.str ""))]
      updateProps :=
        [("size", Json.getD props "size" (.num 0)), ("modified_at", Json.getD props "modified_at" (.str "")),
         ("indexed_at", Json.getD props "indexed_at" (.str "")),
         ("file_category", Json.getD props "file_category" (.str "unknown")),
         ("mime_type", Json.getD props "mime_type" (.str ""))]
      canonPath := makeCanonicalPath E props
      agentID := agentID }

/-- The key of `MERGE (f:File {id: …, tenant_id: …})`. -/
def fileKey (nodeID tenantID : String) : Json.Fields := [("id", .str nodeID), ("tenant_id", .str tenantID)]

/-- The statement of `upsert_cypher` at the time `datetime()`. -/
def upsertFile (p : UpsertParams) (datetime : String) (g : Graph) : Graph :=
  g.merge "File" (fileKey p.nodeID p.tenantID)
    (fun _ =>
      (((Props.ofMap p.createProps).set "paths" (.arr [.str p.canonPath])).set
        "agent_ids" (.arr [.str p.agentID])).set "created_at" (.str datetime))
    fun f =>
      (((f.add p.updateProps).set "last_seen_at" (.str datetime)).addItem
        "paths" (.str p.canonPath)).addItem "agent_ids" (.str p.agentID)

/-! ### `bulk_upsert_query` -/

structure Row where
  nodeID : String
  canonPath : String
  sha256 : Json
  name : Json
  extension : Json
  fileCategory : Json
  mimeType : Json
  size : Json
  modifiedAt : Json
  protocol : Json
  connectorID : Json
  deriving DecidableEq, Repr

/-- The row as the map the statement reads. -/
def Row.toMap (row : Row) : Json.Fields :=
  [("node_id", .str row.nodeID), ("canon_path", .str row.canonPath), ("sha256", row.sha256),
   ("name", row.name), ("extension", row.extension), ("file_category", row.fileCategory),
   ("mime_type", row.mimeType), ("size", row.size), ("modified_at", row.modifiedAt),
   ("protocol", row.protocol), ("connector_id", row.connectorID)]

def makeRow (props : Json.Fields) : Option Row := do
  let nodeID ← makeNodeID E props
  pure
    { nodeID := nodeID
      canonPath := makeCanonicalPath E props
      sha256 := Json.getD props "sha256" (.str "")
      name := Json.getD props "name" (.str "")
      extension := Json.getD props "extension" (.str "")
      fileCategory := Json.getD props "file_category" (.str "unknown")
      mimeType := Json.getD props "mime_type" (.str "")
      size := Json.getD props "size" (.num 0)
      modifiedAt := Json.getD props "modified_at" (.str "")
      protocol := Json.getD props "protocol" (.str "local")
      connectorID := Json.getD props "connector_id" (.str "") }

/-- The rows of `bulk_upsert_query`; `none` raises. -/
def bulkRows (nodes : List Json) : Option (List Row) :=
  nodes.mapM fun node => do
    let nodeProps ← node.asDict
    let props ← (Json.getD nodeProps "props" node).asDict
    makeRow E props

/-- One row of the statement of `bulk_upsert_query` at the time `datetime()`. -/
def upsertRow (tenantID agentID datetime : String) (g : Graph) (row : Row) : Graph :=
  g.merge "File" (fileKey row.nodeID tenantID)
    (fun _ =>
      ((((Props.ofMap row.toMap).set "tenant_id" (.str tenantID)).set
        "paths" (.arr [.str row.canonPath])).set "agent_ids" (.arr [.str agentID])).set
        "created_at" (.str datetime))
    fun f =>
      ((((((f.set "size" row.size).set "modified_at" row.modifiedAt).set
        "file_category" row.fileCategory).set "mime_type" row.mimeType).set
        "last_seen_at" (.str datetime)).addItem "paths" (.str row.canonPath)).addItem
        "agent_ids" (.str agentID)

/-- `UNWIND $rows AS row`. -/
def bulkUpsert (rows : List Row) (tenantID agentID datetime : String) (g : Graph) : Graph :=
  rows.foldl (upsertRow tenantID agentID datetime) g

/-- `RETURN count(f) AS merged`. -/
def bulkMerged (tenantID agentID datetime : String) : List Row → Graph → Nat
  | [], _ => 0
  | row :: rows, g =>
    g.mergedRows "File" (fileKey row.nodeID tenantID) +
      bulkMerged tenantID agentID datetime rows (upsertRow tenantID agentID datetime g row)

end Dgraphai.Dedup
