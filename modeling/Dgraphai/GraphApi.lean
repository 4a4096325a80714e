import Dgraphai.GraphRows
import Dgraphai.SyncConfinement

/-!
# The graph API (`api/graph.py`, `graph/client.py`)

The five routes under `/api/graph` and the methods of `GraphClient` behind them. A statement with a fixed text is
modelled by its rows; what the database does with a text it gets from outside is a parameter. Only `stats` is told
the caller's tenant.
-/

namespace Dgraphai.GraphApi

open Auth (HttpError serverError)
open GraphRows (Record Value)
open PropertyGraph (Graph Node Props Rel)
open SyncText (own)

/-! ### Requests and answers -/

structure CypherRequest where
  cypher : String
  params : PyDict String Json

structure SearchRequest where
  term : Option String
  nodeType : Option String
  filters : PyDict String Json
  limit : Int

/-- `depth: int = Query(ge=1, le=3)`, `limit: int = Query(ge=1, le=500)`. -/
structure NeighborsRequest where
  nodeID : String
  depth : Nat
  limit : Nat
  depth_range : 1 ≤ depth ∧ depth ≤ 3
  limit_range : 1 ≤ limit ∧ limit ≤ 500

inductive Request where
  | stats
  | query (req : CypherRequest)
  | node (nodeID : String)
  | neighbors (req : NeighborsRequest)
  | search (req : SearchRequest)

/-- An entry of `nodes` of `get_neighbors`. -/
structure NodeEntry where
  id : Option Json
  label : Option String
  name : Option Json
  props : Props

/-- An entry of `edges`; a relationship is known by its place in the graph. -/
structure EdgeEntry where
  id : Nat
  source : Option Json
  target : Option Json
  type : String
  deriving DecidableEq

structure SearchRow where
  id : Option Json
  label : Option String
  name : Option Json
  summary : Option Json
  category : Option Json
  sizeBytes : Option Json

variable {σ : Type}

/-- A row of `GraphClient.query`. -/
abbrev Row (σ : Type) := List (String × Value σ)

inductive Answer (σ : Type) where
  | counts (counts : PyDict String Nat)
  | rows (rows : List (Row σ))
  | node (n : Props) (labels : List String)
  | subgraph (nodes : List NodeEntry) (edges : List EdgeEntry)
  | found (rows : List SearchRow)

/-- What the database decides. -/
structure Database (σ : Type) extends Cypher.Reading where
  /-- The order of rows that no `ORDER BY` asks for. -/
  order : ∀ {α : Type}, List α → List α
  order_perm : ∀ {α : Type} (rows : List α), (order rows).Perm rows
  elementId : Nat → String
  /-- Equality of maps. -/
  sameProps : Props → Props → Bool
  sameProps_iff : ∀ p q, sameProps p q = true ↔ p = q
  /-- `toLower` of a text. -/
  lower : String → String
  /-- At this node an expression of the search is an error, such as `toLower` of a number. -/
  refuses : SearchRequest → Node → Bool
  /-- The order of `ORDER BY`. -/
  before : Option Json → Option Json → Bool
  /-- `session.run`: the records or the text of the error, and the graph afterwards. -/
  session : String → PyDict String Json → Graph → Except String (List (Record σ)) × Graph

/-- What the driver raises at the statements of a request, as when the database is not there. -/
abbrev Outage := Nat → Option String

/-- The rows of a statement with a fixed text. -/
def rowsUnless {α : Type} : Option String → α → Except String α
  | some e, _ => .error e
  | none, rows => .ok rows

variable (D : Database σ) (outage : Outage)

/-! ### `GraphClient.stats` -/

/-- `n.tenant_id = $tid`, where `tenant_id` is given. -/
def inScope (tenantID : Option String) (n : Node) : Bool := (tenantID.filter (· ≠ "")).all fun tid => own tid n

/-- `MATCH (n) WHERE … RETURN labels(n)[0] AS label, count(n) AS c`. -/
def labelRows (tenantID : Option String) (g : Graph) : List (Option String × Nat) :=
  let labels := (g.nodes.filter (inScope tenantID)).map fun n => n.labels.head?
  labels.eraseDups.map fun label => (label, labels.count label)

/-- The rows of `MATCH (a)-[r]->(b) WHERE …`, which asks about `a` only. -/
def relationshipRows (tenantID : Option String) (g : Graph) : List Rel :=
  g.rels.filter fun r => (g.nodes.filter (inScope tenantID)).any fun a => a.eid = r.source

/-- `if row.get("label"): counts[row["label"]] = row["c"]`. -/
def addCount (counts : PyDict String Nat) (row : Option String × Nat) : PyDict String Nat :=
  match row.1 with
  | some label => if label = "" then counts else counts.set label row.2
  | none => counts

/-- An error in the first statement leaves the counts empty, one in the second makes its count 0. -/
def stats (tenantID : Option String) (g : Graph) : PyDict String Nat :=
  let counts := match rowsUnless (outage 0) (D.order (labelRows tenantID g)) with
    | .ok rows => rows.foldl addCount PyDict.empty
    | .error _ => PyDict.empty
  counts.set "relationships" (match rowsUnless (outage 1) (relationshipRows tenantID g).length with
    | .ok c => c
    | .error _ => 0)

/-! ### `GraphClient.get_node` -/

/-- `MATCH (n {id: $id})`. -/
def withId (g : Graph) (nodeID : String) : List Node := g.matched none [("id", .str nodeID)]

/-- `_serialize` of a node: `{"id": …, "labels": …, **dict(val)}`. -/
def serializeNode (n : Node) : Props := fun k =>
  (n.props k).or (if k = "id" then some (.str (D.elementId n.eid))
    else if k = "labels" then some (.arr (n.labels.map .str)) else none)

/-- `MATCH (n {id: $id}) RETURN n, labels(n) AS labels`, the first row. -/
def getNode (nodeID : String) (g : Graph) : Except String (Option (Props × List String)) :=
  rowsUnless (outage 0) ((D.order ((withId g nodeID).map fun n => (serializeNode D n, n.labels))).head?)

/-! ### `GraphClient.get_neighbors` -/

/-- A relationship with its place in the graph, and the node at its other end. -/
abbrev Hop := (Rel × Nat) × Node

def hops (g : Graph) (a : Node) : List Hop :=
  g.rels.zipIdx.flatMap fun e =>
    (g.nodes.filter fun b => e.1.source = a.eid ∧ e.1.target = b.eid ∨ e.1.target = a.eid ∧ e.1.source = b.eid).map
      fun b => (e, b)

def walks (g : Graph) : Nat → Node → List (List Hop)
  | 0, _ => [[]]
  | k + 1, a => (hops g a).flatMap fun h => (walks g k h.2).map (h :: ·)

/-- A path, by its first node and its hops. -/
abbrev Path := Node × List Hop

namespace Path

def nodes (p : Path) : List Node := p.1 :: p.2.map (·.2)

/-- `relationships(path)`. -/
def rels (p : Path) : List (Rel × Nat) := p.2.map (·.1)

def relIds (p : Path) : List Nat := p.rels.map (·.2)

end Path

/-- `MATCH path = (n {id: $id})-[*1..depth]-(neighbor)`; a path takes no relationship twice. -/
def paths (nodeID : String) (depth : Nat) (g : Graph) : List Path :=
  (withId g nodeID).flatMap fun n => (List.range' 1 depth).flatMap fun k =>
    ((walks g k n).map fun walk => (n, walk)).filter fun p => (Path.relIds p).Nodup

/-- The map of a node; `name` is `coalesce(node.name, node.title, node.path, node.id)`. -/
def nodeEntry (n : Node) : NodeEntry where
  id := n.props "id"
  label := n.labels.head?
  name := (((n.props "name").or (n.props "title")).or (n.props "path")).or (n.props "id")
  props := n.props

/-- The map of a relationship. -/
def edgeEntry (g : Graph) (r : Rel × Nat) : EdgeEntry where
  id := r.2
  source := (g.nodes.find? fun n => n.eid = r.1.source).bind fun n => n.props "id"
  target := (g.nodes.find? fun n => n.eid = r.1.target).bind fun n => n.props "id"
  type := r.1.type

def sameEntry (a b : NodeEntry) : Bool :=
  a.id = b.id && a.label = b.label && a.name = b.name && D.sameProps a.props b.props

/-- `WITH collect(DISTINCT …) AS nodes, rels`: the paths over the same relationships are one row. -/
def nodeRows (ps : List Path) : List (List NodeEntry × List (Rel × Nat)) :=
  (ps.eraseDupsBy fun p q => p.relIds = q.relIds).map fun p =>
    (((ps.filter fun q => q.relIds = p.relIds).flatMap fun q => q.nodes.map nodeEntry).eraseDupsBy (sameEntry D),
      p.rels)

/-- `UNWIND rels AS rel WITH nodes, collect(DISTINCT …) AS edges`. -/
def edgeRows (g : Graph) (rows : List (List NodeEntry × List (Rel × Nat))) : List (List NodeEntry × List EdgeEntry) :=
  let unwound := rows.flatMap fun row => row.2.map fun r => (row.1, edgeEntry g r)
  (unwound.eraseDupsBy fun p q => p.1.isEqv q.1 (sameEntry D)).map fun p =>
    (p.1, ((unwound.filter fun q => q.1.isEqv p.1 (sameEntry D)).map (·.2)).eraseDups)

/-- The first row, or no nodes and no edges. -/
def getNeighbors (req : NeighborsRequest) (g : Graph) : Except String (List NodeEntry × List EdgeEntry) :=
  rowsUnless (outage 0)
    (((edgeRows D g (nodeRows D (D.order (paths req.nodeID req.depth g)))).take req.limit).head?.getD ([], []))

/-! ### `GraphClient.search` -/

namespace SearchRequest

variable (req : SearchRequest)

/-- `if term`, `if node_type`. -/
def term? : Option String := req.term.filter (· ≠ "")

def nodeType? : Option String := req.nodeType.filter (· ≠ "")

/-- A filter named `term` takes the place of the term. -/
def params : PyDict String Json :=
  req.filters.entries.foldl (fun d e => d.set e.1 e.2)
    (match req.term? with
      | some term => PyDict.empty.set "term" (.str term)
      | none => PyDict.empty)

def conditions : List String :=
  (match req.term? with
    | some _ => ["(toLower(n.name) CONTAINS toLower($term) OR toLower(n.path) CONTAINS toLower($term) OR " ++
        "toLower(n.summary) CONTAINS toLower($term))"]
    | none => []) ++
  req.filters.keys.map fun k => "n." ++ k ++ " = $" ++ k

/-- The text of the statement. -/
def text : String :=
  "\n            MATCH (n" ++ (match req.nodeType? with | some type => ":" ++ type | none => "") ++ ")\n            " ++
  (if req.conditions = [] then "" else "WHERE " ++ " AND ".intercalate req.conditions) ++
  "\n            RETURN n.id AS id, labels(n)[0] AS label," ++
  "\n                   coalesce(n.name, n.path, n.id) AS name," ++
  "\n                   n.summary AS summary," ++
  "\n                   n.file_category AS category," ++
  "\n                   n.size_bytes AS size_bytes" ++
  "\n            ORDER BY name\n            LIMIT " ++ toString req.limit ++ "\n        "

/-- The type and the names of the filters are names where the text has them. -/
def Plain : Prop :=
  (∀ type ∈ req.nodeType?, Cypher.Identifier type.toList) ∧ ∀ k ∈ req.filters.keys, Cypher.Identifier k.toList

instance : Decidable req.Plain := inferInstanceAs (Decidable (_ ∧ _))

end SearchRequest

/-- `toLower(value) CONTAINS toLower(term)`. -/
def containsLower : Option Json → Option Json → Cypher.Truth
  | some (.str value), some (.str term) => some (decide ((D.lower term).toList <:+: (D.lower value).toList))
  | _, _ => none

/-- `n.k = $k`. -/
def meetsFilter (n : Node) (filter : String × Json) : Cypher.Truth :=
  (n.props filter.1).bind fun value => Cypher.compareValues D.toReading .eq value filter.2

/-- The label and the conditions hold at a node. -/
def meets (req : SearchRequest) (n : Node) : Bool :=
  (req.nodeType?.all fun type => n.labels.contains type) &&
  (req.term?.all fun _ => ["name", "path", "summary"].any fun k =>
    containsLower D (n.props k) (req.params.get? "term") = some true) &&
  req.filters.entries.all fun filter => meetsFilter D n filter = some true

/-- The columns of a node; `name` is `coalesce(n.name, n.path, n.id)`. -/
def searchRow (n : Node) : SearchRow where
  id := n.props "id"
  label := n.labels.head?
  name := ((n.props "name").or (n.props "path")).or (n.props "id")
  summary := n.props "summary"
  category := n.props "file_category"
  sizeBytes := n.props "size_bytes"

def foundRows (req : SearchRequest) (g : Graph) : List SearchRow := D.order ((g.nodes.filter (meets D req)).map searchRow)

/-- The statement over plain names; `none` is an error of the database, as for a negative LIMIT. -/
def searchRows (req : SearchRequest) (g : Graph) : Option (List SearchRow) :=
  if req.limit < 0 ∨ g.nodes.any (D.refuses req) then none
  else some (((foundRows D req g).mergeSort fun r r' => D.before r.name r'.name).take req.limit.toNat)

/-! ### The routes -/

/-- `GraphClient.query`. -/
def query (cypher : String) (params : PyDict String Json) (g : Graph) : Except String (List (Row σ)) × Graph :=
  match outage 0 with
  | some e => (.error e, g)
  | none =>
    let (result, g') := D.session cypher params g
    (result.map fun records => records.map fun record => GraphRows.serializeFields record.entries, g')

/-- `results[:500]`; an error is a 400 with its text. -/
def queryAnswer : Except String (List (Row σ)) → Except HttpError (Answer σ)
  | .ok rows => .ok (.rows (rows.take 500))
  | .error e => .error ⟨400, e⟩

def searchAnswer : Except String (List (Row σ)) → Except HttpError (Answer σ)
  | .ok rows => .ok (.rows rows)
  | .error _ => .error serverError

/-- The answer of a route and the graph afterwards; `repr` is that of Python. -/
def respond (repr : String → String) (tenantID : String) (r : Request) (g : Graph) :
    Except HttpError (Answer σ) × Graph :=
  match r with
  | .stats => (.ok (.counts (stats D outage (some tenantID) g)), g)
  | .query req =>
    let (result, g') := query D outage req.cypher req.params g
    (queryAnswer result, g')
  | .node nodeID =>
    (match getNode D outage nodeID g with
      | .ok (some (n, labels)) => .ok (.node n labels)
      | .ok none => .error ⟨404, "Node " ++ repr nodeID ++ " not found"⟩
      | .error _ => .error serverError, g)
  | .neighbors req =>
    (match getNeighbors D outage req g with
      | .ok (nodes, edges) => .ok (.subgraph nodes edges)
      | .error _ => .error serverError, g)
  | .search req =>
    if req.Plain then
      (match rowsUnless (outage 0) (searchRows D req g) with
        | .ok (some rows) => .ok (.found rows)
        | .ok none | .error _ => .error serverError, g)
    else
      let (result, g') := query D outage req.text req.params g
      (searchAnswer result, g')

end Dgraphai.GraphApi
