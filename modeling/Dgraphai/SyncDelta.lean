import Dgraphai.AuthTables
import Dgraphai.Dedup

/-!
# `sync_delta` (`api/scanner.py`)

A delivered chunk upserts its File nodes in one statement of `bulk_upsert_query` and its other nodes and
edges one by one through the tenant's backend. A statement that raises is counted and its effect is
lost; the effects of the statements before an uncaught exception stay. Node types are label names, and
the tenant's backend is the database of the graph client.
-/

namespace Dgraphai.Dedup

open PropertyGraph (Graph Props)
open Auth (Uuid HttpError serverError)

structure Scanner where
  id : Uuid
  tenantID : Uuid
  deriving DecidableEq, Repr

structure DeltaChunk where
  scannerID : String
  tenantID : String
  scanJobID : String
  chunkIndex : Int
  isFinal : Bool
  scannedAt : String
  stats : List (String × Int)
  nodes : List Json.Fields
  edges : List Json.Fields
  deriving DecidableEq, Repr

/-- What the databases answer to one delivery. -/
structure Outcome where
  /-- The row of the scanner's tenant is found. -/
  tenantFound : Bool
  /-- `get_backend_for_tenant` knows the backend of the tenant. -/
  backendKnown : Bool
  /-- The statement for the File nodes goes through, at the time `datetime()`. -/
  filesAccepted : Bool
  datetime : String
  /-- `async with backend` connects. -/
  connects : Bool
  /-- The n-th statement of the backend goes through. -/
  accepted : Nat → Bool

structure State where
  graph : Graph
  /-- `ScannerAgent.last_health`. -/
  lastHealth : Uuid → Option Json

structure Tally where
  nodesMerged : Nat
  edgesMerged : Nat
  errors : Nat
  deriving DecidableEq, Repr

structure SyncResponse where
  status : String
  chunkIndex : Int
  tally : Tally
  isFinal : Bool
  deriving DecidableEq, Repr

variable (E : Env)

/-- `n.get("type") == "File" or (n.get("labels") or [None])[0] == "File"`; `none` raises. -/
def isFileNode (node : Json.Fields) : Option Bool :=
  if Json.getD node "type" .null = .str "File" then some true
  else
    let labels := Json.getD node "labels" .null
    if labels.truthy E.isZero then
      match labels with
      | .arr (label :: _) => some (decide (label = .str "File"))
      -- a single character
      | .str _ => some false
      | _ => none
    else some false

/-- `file_nodes` and `other_nodes`. -/
def splitNodes : List Json.Fields → Option (List Json.Fields × List Json.Fields)
  | [] => some ([], [])
  | node :: nodes => do
    let isFile ← isFileNode E node
    let (files, others) ← splitNodes nodes
    pure (if isFile then (node :: files, others) else (files, node :: others))

/-- The rows for `file_nodes`; `none` raises. -/
def fileRows (files : List Json.Fields) : Option (List Row) :=
  bulkRows E (files.map fun n => Json.getD n "props" (.obj n))

/-- The File statement of a delivery: its graph, and `nodes_merged` and `errors` after it. -/
def syncFiles (scanner : Scanner) (chunk : DeltaChunk) (O : Outcome) (files : List Json.Fields) (g : Graph) :
    Graph × Tally :=
  if files = [] then (g, ⟨0, 0, 0⟩)
  else match fileRows E files, O.filesAccepted with
    | some rows, true =>
      (bulkUpsert rows chunk.tenantID scanner.id O.datetime g,
       ⟨bulkMerged chunk.tenantID scanner.id O.datetime rows g, 0, 0⟩)
    | _, _ => (g, ⟨0, 0, files.length⟩)

/-! ### The backend -/

/-- One pass of the loop over nodes or edges. -/
inductive Statement where
  | raises
  | skipped
  | runs (effect : Graph → Graph)

/-- A node type as the label of a statement; other values are a syntax error. -/
def labelText : Json → Option String
  | .str s => some s
  | .null => some "None"
  | .bool b => some (if b then "True" else "False")
  | _ => none

/-- `{**props, "tenant_id": …}`: of two fields of one name the last counts. -/
def withTenant (props : Json.Fields) (tenantID : String) : Json.Fields :=
  props ++ [("tenant_id", .str tenantID)]

/-- `backend.upsert_node`. -/
def upsertNode (tenantID label : String) (id : Json) (props : Json.Fields) (g : Graph) : Graph :=
  g.merge label [("id", id), ("tenant_id", .str tenantID)]
    (fun n => n.add (withTenant props tenantID)) (fun n => n.add (withTenant props tenantID))

def nodeStatement (tenantID : String) (node : Json.Fields) : Statement :=
  match Json.field? node "op" with
  | none => .raises
  | some op =>
    if op ≠ .str "upsert" then .skipped
    else match (Json.field? node "type").bind labelText, Json.field? node "id",
        (Json.getD node "props" (.obj [])).asDict with
      | some label, some id, some props =>
        if id = .null then .raises else .runs (upsertNode tenantID label id props)
      | _, _, _ => .raises

def edgeStatement (tenantID : String) (edge : Json.Fields) : Statement :=
  match Json.field? edge "op" with
  | none => .raises
  | some op =>
    if op ≠ .str "upsert" then .skipped
    else match (Json.field? edge "type").bind labelText, Json.field? edge "from", Json.field? edge "to",
        (Json.getD edge "props" (.obj [])).asDict with
      | some type, some source, some target, some props =>
        let key := fun id : Json => [("id", id), ("tenant_id", Json.str tenantID)]
        .runs fun g => g.mergeRels type props (key source) (key target)
      | _, _, _, _ => .raises

/-- A loop of `sync_delta` from the i-th statement on: the graph, and how many were merged and raised. -/
def runStatements (accepted : Nat → Bool) : Nat → List Statement → Graph → Graph × Nat × Nat
  | _, [], g => (g, 0, 0)
  | i, .skipped :: rest, g => runStatements accepted (i + 1) rest g
  | i, .raises :: rest, g =>
    let (g', merged, errors) := runStatements accepted (i + 1) rest g
    (g', merged, errors + 1)
  | i, .runs effect :: rest, g =>
    if accepted i then
      let (g', merged, errors) := runStatements accepted (i + 1) rest (effect g)
      (g', merged + 1, errors)
    else
      let (g', merged, errors) := runStatements accepted (i + 1) rest g
      (g', merged, errors + 1)

def syncBackend (chunk : DeltaChunk) (O : Outcome) (others : List Json.Fields) (g : Graph) (tally : Tally) :
    Graph × Tally :=
  let (g₁, nodes, nodeErrors) := runStatements O.accepted 0 (others.map (nodeStatement chunk.tenantID)) g
  let (g₂, edges, edgeErrors) :=
    runStatements O.accepted others.length (chunk.edges.map (edgeStatement chunk.tenantID)) g₁
  (g₂, ⟨tally.nodesMerged + nodes, tally.edgesMerged + edges, tally.errors + nodeErrors + edgeErrors⟩)

/-- `scanner.last_health` on the final chunk. -/
def health (chunk : DeltaChunk) (errors : Nat) : Json :=
  .obj [("last_sync", .str chunk.scannedAt),
    ("files_indexed", .num ((chunk.stats.lookup "total_files").getD 0)), ("errors", .num errors)]

def syncDelta (scanner : Scanner) (chunk : DeltaChunk) (O : Outcome) (s : State) :
    Except HttpError SyncResponse × State :=
  if scanner.tenantID ≠ chunk.tenantID then (.error ⟨403, "tenant_id mismatch"⟩, s)
  else if O.tenantFound = false then (.error ⟨404, "Tenant not found"⟩, s)
  else if O.backendKnown = false then (.error serverError, s)
  else match splitNodes E chunk.nodes with
    | none => (.error serverError, s)
    | some (files, others) =>
      let (g₁, tally) := syncFiles E scanner chunk O files s.graph
      if O.connects = false then (.error serverError, { s with graph := g₁ })
      else
        let (g₂, tally) := syncBackend chunk O others g₁ tally
        let lastHealth := if chunk.isFinal then
          Function.update s.lastHealth scanner.id (some (health chunk tally.errors)) else s.lastHealth
        (.ok ⟨"accepted", chunk.chunkIndex, tally, chunk.isFinal⟩, ⟨g₂, lastHealth⟩)

/-! ### What a delivery can do -/

/-- The first statement of a loop is passed over, fails, or has its effect. -/
theorem runStatements_cons (accepted : Nat → Bool) (i : Nat) (st : Statement) (rest : List Statement) (g : Graph) :
    (st = .skipped ∧ runStatements accepted i (st :: rest) g = runStatements accepted (i + 1) rest g) ∨
      (runStatements accepted i (st :: rest) g = ((runStatements accepted (i + 1) rest g).1,
        (runStatements accepted (i + 1) rest g).2.1, (runStatements accepted (i + 1) rest g).2.2 + 1)) ∨
      ∃ effect, st = .runs effect ∧ runStatements accepted i (st :: rest) g =
        ((runStatements accepted (i + 1) rest (effect g)).1, (runStatements accepted (i + 1) rest (effect g)).2.1 + 1,
          (runStatements accepted (i + 1) rest (effect g)).2.2) := by
  cases st with
  | skipped => exact .inl ⟨rfl, rfl⟩
  | raises => exact .inr (.inl rfl)
  | runs effect =>
    rw [runStatements]
    split_ifs
    · exact .inr (.inr ⟨effect, rfl, rfl⟩)
    · exact .inr (.inl rfl)

/-- A loop keeps what the effects of its statements keep. -/
theorem runStatements_inv (P : Graph → Prop) (accepted : Nat → Bool) {statements : List Statement}
    (hkeep : ∀ effect, .runs effect ∈ statements → ∀ g, P g → P (effect g)) (i : Nat) {g : Graph} (hg : P g) :
    P (runStatements accepted i statements g).1 := by
  induction statements generalizing i g with
  | nil => exact hg
  | cons st rest ih =>
    have hrest : ∀ effect, .runs effect ∈ rest → ∀ g, P g → P (effect g) :=
      fun effect h => hkeep effect (List.mem_cons_of_mem st h)
    rcases runStatements_cons accepted i st rest g with ⟨-, hr⟩ | hr | ⟨effect, rfl, hr⟩ <;> rw [hr]
    · exact ih hrest (i + 1) hg
    · exact ih hrest (i + 1) hg
    · exact ih hrest (i + 1) (hkeep effect List.mem_cons_self g hg)

/-- `sync_delta` refuses the chunk and leaves the databases alone, or stops behind the File statement, or
answers. -/
theorem syncDelta_cases (scanner : Scanner) (chunk : DeltaChunk) (O : Outcome) (s : State) :
    ((∃ e, syncDelta E scanner chunk O s = (.error e, s)) ∧ (splitNodes E chunk.nodes = none ∨
      ¬ (scanner.tenantID = chunk.tenantID ∧ O.tenantFound = true ∧ O.backendKnown = true))) ∨
    ∃ files others, splitNodes E chunk.nodes = some (files, others) ∧
      (scanner.tenantID = chunk.tenantID ∧ O.tenantFound = true ∧ O.backendKnown = true) ∧
      (O.connects = false ∧ syncDelta E scanner chunk O s =
          (.error serverError, { s with graph := (syncFiles E scanner chunk O files s.graph).1 }) ∨
        O.connects = true ∧ ∃ response lastHealth, syncDelta E scanner chunk O s = (.ok response,
          ⟨(syncBackend chunk O others (syncFiles E scanner chunk O files s.graph).1
            (syncFiles E scanner chunk O files s.graph).2).1, lastHealth⟩) ∧
          response.tally = (syncBackend chunk O others (syncFiles E scanner chunk O files s.graph).1
            (syncFiles E scanner chunk O files s.graph).2).2) := by
  unfold syncDelta
  by_cases htenant : scanner.tenantID = chunk.tenantID
  case neg =>
    rw [if_pos htenant]
    exact .inl ⟨⟨_, rfl⟩, .inr fun h => htenant h.1⟩
  rw [if_neg (not_not.2 htenant)]
  by_cases hfound : O.tenantFound = true
  case neg =>
    rw [if_pos (eq_false_of_ne_true hfound)]
    exact .inl ⟨⟨_, rfl⟩, .inr fun h => hfound h.2.1⟩
  rw [if_neg (ne_false_of_eq_true hfound)]
  by_cases hknown : O.backendKnown = true
  case neg =>
    rw [if_pos (eq_false_of_ne_true hknown)]
    exact .inl ⟨⟨_, rfl⟩, .inr fun h => hknown h.2.2⟩
  rw [if_neg (ne_false_of_eq_true hknown)]
  cases splitNodes E chunk.nodes with
  | none => exact .inl ⟨⟨_, rfl⟩, .inl rfl⟩
  | some p =>
    refine .inr ⟨p.1, p.2, rfl, ⟨htenant, hfound, hknown⟩, ?_⟩
    dsimp only
    by_cases hconnects : O.connects = true
    · rw [if_neg (ne_false_of_eq_true hconnects)]
      exact .inr ⟨hconnects, _, _, rfl, rfl⟩
    · rw [if_pos (eq_false_of_ne_true hconnects)]
      exact .inl ⟨eq_false_of_ne_true hconnects, rfl⟩

/-! ### Runs -/

/-- A chunk as a scanner sends it, and what the databases answer. -/
structure Delivery where
  scanner : Scanner
  chunk : DeltaChunk
  outcome : Outcome

def Delivery.run (d : Delivery) (s : State) : State := (syncDelta E d.scanner d.chunk d.outcome s).2

def emptyState : State := ⟨PropertyGraph.empty, fun _ => none⟩

def afterDeliveries (ds : List Delivery) : State := ds.foldl (fun s d => d.run E s) emptyState

/-- The rows a delivery applies to the graph. -/
def Delivery.appliedRows (d : Delivery) : List Row :=
  if d.scanner.tenantID = d.chunk.tenantID ∧ d.outcome.tenantFound = true ∧ d.outcome.backendKnown = true ∧
      d.outcome.filesAccepted = true then
    ((splitNodes E d.chunk.nodes).bind fun p => fileRows E p.1).getD []
  else []

end Dgraphai.Dedup
