import Dgraphai.GraphBackend
import Dgraphai.Lib.CountQuery
import Dgraphai.Lib.CypherRestrict
import Dgraphai.Metering

/-!
# Usage snapshots (`api/usage.py`)

`_build_snapshot` counts nodes and relationships of the graph with ten queries. Nine of them ask for the tenant of
a node. The one that counts relationships asks for those without a `tenant_id`, whoever's nodes they join, so a
bill is the tenant's own only up to the relationships of the others (`snapshots_agree_iff`).
-/

namespace Dgraphai.Metering

open PropertyGraph

/-! ### The ten queries -/

/-- `n.tenant_id = $tid`. -/
def ofTenant : CountQuery.Condition := .equals "tenant_id" "tid"

/-- `BILLED_RELATIONSHIP_TYPES`, in the order of the query. -/
def billedRelationshipTypes : List String :=
  ["SIMILAR_TO", "MENTIONS", "CONTAINS_FACE", "SAME_PERSON_AS", "MATCHED_TO", "DEPICTS", "OCCURRED_DURING"]

def standardLabels : List String :=
  ["Directory", "Tag", "Collection", "Event", "Vendor", "License", "Topic", "Organization", "Location", "Version",
    "Product"]

def enrichableLabels : List String :=
  ["Application", "Dependency", "Certificate", "Binary", "MediaItem", "Vulnerability"]

def standardQuery : CountQuery := ⟨"n", .node none, [ofTenant, .anyLabel standardLabels]⟩

/-- The files of the tenant with a condition on a property. -/
def fileQuery (condition : CountQuery.Condition) : CountQuery := ⟨"f", .node (some "File"), [ofTenant, condition]⟩

def filesRawQuery : CountQuery := fileQuery (.isNull "summary")
def filesEnrichedQuery : CountQuery := fileQuery (.isNotNull "summary")

def otherEnrichableQuery : CountQuery := ⟨"n", .node none, [ofTenant, .anyLabel enrichableLabels]⟩

def identifiedPeopleQuery : CountQuery := ⟨"p", .node (some "Person"), [ofTenant, .isTrue "known"]⟩

def unknownClustersQuery : CountQuery := ⟨"n", .node (some "FaceCluster"), [ofTenant]⟩

def billedRelsQuery : CountQuery := ⟨"r", .rel billedRelationshipTypes, [.isNull "tenant_id"]⟩

def filesVisionQuery : CountQuery := fileQuery (.isNotNull "scene_type")
def filesCodeQuery : CountQuery := fileQuery (.isNotNull "code_quality")
def filesBinaryQuery : CountQuery := fileQuery (.isNotNull "risk_assessment")

def snapshotQueries : List CountQuery := [standardQuery, filesRawQuery, filesEnrichedQuery, otherEnrichableQuery,
  identifiedPeopleQuery, unknownClustersQuery, billedRelsQuery, filesVisionQuery, filesCodeQuery, filesBinaryQuery]

/-- The texts of the source. -/
theorem snapshotQueries_text : snapshotQueries.map CountQuery.text = [
    "MATCH (n) WHERE n.tenant_id = $tid AND (n:Directory OR n:Tag OR n:Collection OR n:Event OR n:Vendor OR n:License OR n:Topic OR n:Organization OR n:Location OR n:Version OR n:Product) RETURN count(n) AS c",
    "MATCH (f:File) WHERE f.tenant_id = $tid AND f.summary IS NULL RETURN count(f) AS c",
    "MATCH (f:File) WHERE f.tenant_id = $tid AND f.summary IS NOT NULL RETURN count(f) AS c",
    "MATCH (n) WHERE n.tenant_id = $tid AND (n:Application OR n:Dependency OR n:Certificate OR n:Binary OR n:MediaItem OR n:Vulnerability) RETURN count(n) AS c",
    "MATCH (p:Person) WHERE p.tenant_id = $tid AND p.known = true RETURN count(p) AS c",
    "MATCH (n:FaceCluster) WHERE n.tenant_id = $tid RETURN count(n) AS c",
    "MATCH ()-[r:SIMILAR_TO|MENTIONS|CONTAINS_FACE|SAME_PERSON_AS|MATCHED_TO|DEPICTS|OCCURRED_DURING]->() WHERE r.tenant_id IS NULL RETURN count(r) AS c",
    "MATCH (f:File) WHERE f.tenant_id = $tid AND f.scene_type IS NOT NULL RETURN count(f) AS c",
    "MATCH (f:File) WHERE f.tenant_id = $tid AND f.code_quality IS NOT NULL RETURN count(f) AS c",
    "MATCH (f:File) WHERE f.tenant_id = $tid AND f.risk_assessment IS NOT NULL RETURN count(f) AS c"] := by
  decide +kernel

/-- `Neo4jBackend.query` sends them as they are. -/
theorem mentions_of_mem_snapshotQueries {q : CountQuery} (h : q ∈ snapshotQueries) :
    GraphBackend.Mentions q.text.toList := by
  have hall : ∀ q ∈ snapshotQueries, q.conditions.head?.bind CountQuery.Condition.key? = some "tenant_id" := by
    decide
  exact .inr (CountQuery.infix_text (hall q h))

/-! ### Snapshots -/

/-- The counts of a `UsageSnapshot`, with those about the enrichment of files. -/
structure Snapshot extends UsageSnapshot where
  filesRaw : ℤ
  filesEnriched : ℤ
  filesVision : ℤ
  filesCode : ℤ
  filesBinary : ℤ
  deriving DecidableEq, Repr

/-- `{"tid": tid}`. -/
def tidParam (tid : String) : String → Option Json := fun name => if name = "tid" then some (.str tid) else none

/-- `_build_snapshot`, of a database that answers. -/
def buildSnapshot (g : Graph) (tid : String) : Snapshot :=
  let q (query : CountQuery) : ℤ := query.count (tidParam tid) g
  { standardNodes := q standardQuery
    enrichableNodes := q filesRawQuery + q otherEnrichableQuery
    aiEnrichedNodes := q filesEnrichedQuery
    identifiedPeople := q identifiedPeopleQuery
    unknownPeople := q unknownClustersQuery
    billedRelationships := q billedRelsQuery
    filesRaw := q filesRawQuery
    filesEnriched := q filesEnrichedQuery
    filesVision := q filesVisionQuery
    filesCode := q filesCodeQuery
    filesBinary := q filesBinaryQuery }

def isOwned (tid : String) (n : Node) : Bool := decide (n.props "tenant_id" = some (.str tid))

/-- The graphs have the same nodes of the tenant, and the same relationships between them. -/
structure Agree (tid : String) (g g' : Graph) : Prop where
  nodes : (g.restrict (isOwned tid)).nodes.Perm (g'.restrict (isOwned tid)).nodes
  rels : (g.restrict (isOwned tid)).rels.Perm (g'.restrict (isOwned tid)).rels

/-- Both ends of the relationship are nodes of the tenant. -/
def JoinsOwned (g : Graph) (tid : String) (r : Rel) : Prop :=
  (∃ n ∈ g.nodes, isOwned tid n = true ∧ n.eid = r.source) ∧ ∃ n ∈ g.nodes, isOwned tid n = true ∧ n.eid = r.target

instance (g : Graph) (tid : String) (r : Rel) : Decidable (JoinsOwned g tid r) := inferInstanceAs (Decidable (_ ∧ _))

/-- A relationship of a billed type without a `tenant_id`. -/
def IsBilled (r : Rel) : Prop := r.type ∈ billedRelationshipTypes ∧ r.props "tenant_id" = none

instance (r : Rel) : Decidable (IsBilled r) := inferInstanceAs (Decidable (_ ∧ _))

/-- The billed relationships that are not between two nodes of the tenant. -/
def foreignBilled (g : Graph) (tid : String) : ℕ := g.rels.countP fun r => IsBilled r ∧ ¬ JoinsOwned g tid r

variable {g g' : Graph} {tid : String} {q : CountQuery}

theorem holds_ofTenant (n : Node) : ofTenant.holds (tidParam tid) n.labels n.props = isOwned tid n := by
  show decide ((n.props "tenant_id").isSome = true ∧ n.props "tenant_id" = some (.str tid)) = _
  refine decide_eq_decide.2 ⟨fun h => h.2, fun h => ⟨?_, h⟩⟩
  rw [h]
  rfl

/-- The nodes a query of the tenant counts. -/
theorem count_ofTenant {label : Option String} (h : q.pattern = .node label) (hc : ofTenant ∈ q.conditions) :
    q.count (tidParam tid) g = (g.restrict (isOwned tid)).nodes.countP fun n =>
      label.all (n.labels.contains ·) && q.admits (tidParam tid) n.labels n.props := by
  rw [CountQuery.count_node h ofTenant hc, PropertyGraph.Graph.restrict]
  simp only [holds_ofTenant]

theorem count_congr (hagree : Agree tid g g') {label : Option String} (h : q.pattern = .node label)
    (hc : ofTenant ∈ q.conditions) : q.count (tidParam tid) g = q.count (tidParam tid) g' := by
  rw [count_ofTenant h hc, count_ofTenant h hc]
  exact hagree.nodes.countP_eq _

/-- The billed relationships of a graph: those between nodes of the tenant, and the others. -/
theorem count_billedRels : billedRelsQuery.count (tidParam tid) g =
    ((g.restrict (isOwned tid)).rels.countP fun r => IsBilled r) + foreignBilled g tid := by
  have hcount : billedRelsQuery.count (tidParam tid) g = g.rels.countP fun r => IsBilled r := by
    refine List.countP_congr fun r _ => ?_
    show (billedRelationshipTypes.contains r.type && (decide (r.props "tenant_id" = none) && true)) = true ↔ _
    rw [Bool.and_true, Bool.and_eq_true, List.contains_iff_mem, decide_eq_true_iff, decide_eq_true_iff]
    rfl
  have hjoins : ∀ r : Rel, ((g.nodes.filter (isOwned tid)).any (fun n => n.eid = r.source) &&
      (g.nodes.filter (isOwned tid)).any fun n => n.eid = r.target) = true ↔ JoinsOwned g tid r := by
    intro r
    simp only [Bool.and_eq_true, List.any_eq_true, List.mem_filter, decide_eq_true_iff, and_assoc]
    rfl
  rw [hcount, List.countP_eq_countP_filter_add _ _ fun r => decide (JoinsOwned g tid r), foreignBilled,
    List.countP_filter]
  congr 1
  · rw [PropertyGraph.Graph.restrict, List.countP_filter]
    refine List.countP_congr fun r _ => ?_
    rw [Bool.and_eq_true, Bool.and_eq_true, hjoins, decide_eq_true_iff (p := JoinsOwned g tid r)]
  · rw [List.countP_filter]
    refine List.countP_congr fun r _ => ?_
    simp only [Bool.and_eq_true, Bool.not_eq_true', decide_eq_true_iff, decide_eq_false_iff_not]

theorem billedRelationships_eq_iff (h : Agree tid g g') :
    billedRelsQuery.count (tidParam tid) g = billedRelsQuery.count (tidParam tid) g' ↔
      foreignBilled g tid = foreignBilled g' tid := by
  rw [count_billedRels, count_billedRels, h.rels.countP_eq]
  exact Nat.add_left_cancel_iff

/-- Two files of a tenant, with the relationships given. -/
def twoFiles (tid : String) (rels : List Rel) : Graph :=
  ⟨[⟨0, ["File"], Props.ofMap [("tenant_id", .str tid)]⟩, ⟨1, ["File"], Props.ofMap [("tenant_id", .str tid)]⟩], rels, 2⟩

def similar : Rel := ⟨"SIMILAR_TO", 0, 1, Props.ofMap []⟩

end Dgraphai.Metering
