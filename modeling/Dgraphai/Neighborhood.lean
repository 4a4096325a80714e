import Dgraphai.Erasure
import Dgraphai.GraphNeighbors

/-!
# Neighborhood expansion (`api/graph_intelligence.py`)

`get_neighborhood` builds a query over `hops` and runs another one, over one hop, which cuts the list of neighbors and
not the list of edges and which asks `id(center)` for a text. `getNeighborhood_iff` says for which graphs the answer is
a closed part of the graph, whichever order the rows have.
-/

namespace Dgraphai.Neighborhood

open Auth (HttpError serverError)
open GraphApi (Database Outage rowsUnless)
open GraphRows (Value rowGet?)
open PropertyGraph (Graph Node Props Rel)
open SyncText (own own_iff)

variable {σ : Type}

/-! ### Backends -/

/-- What `id(n)` is in the tenant's database: a number in Neo4j, a text in Neptune. -/
inductive Backend where
  | neo4j
  | neptune (ids : ℕ → String) (inj : Function.Injective ids)

namespace Backend

def id : Backend → ℕ → Json
  | neo4j, eid => .num eid
  | neptune ids _, eid => .str (ids eid)

/-- `toString(id(n))`, which is how a request names a node. -/
def idText : Backend → ℕ → String
  | neo4j, eid => toString eid
  | neptune ids _, eid => ids eid

end Backend

/-- `_backend`, over the ids of a Neptune cluster. -/
def backendOf (ids : ℕ → String) (inj : Function.Injective ids) : Option Gdpr.Tenant → Except HttpError Backend
  | none => .error ⟨404, "Tenant not found"⟩
  | some tenant =>
    if tenant.backend = "neo4j" ∨ tenant.backend = "auradb" then .ok .neo4j
    else if tenant.backend = "neptune" then .ok (.neptune ids inj)
    else .error serverError

/-! ### Requests and answers -/

/-- `hops: int = Query(ge=1, le=3)`, `limit: int = Query(ge=1, le=200)`. -/
structure Request where
  nodeID : String
  hops : ℕ
  limit : ℕ
  hops_range : 1 ≤ hops ∧ hops ≤ 3
  limit_range : 1 ≤ limit ∧ limit ≤ 200

/-- An entry of `neighbors`. -/
structure NodeOut where
  id : Json
  labels : List String
  name : Json
  props : Props

/-- An entry of `edges`; the keys of its ends are `from` and `to`. -/
structure EdgeOut where
  type : String
  source : Json
  target : Json
  deriving DecidableEq

structure Answer (σ : Type) where
  center : Option (List (String × Value σ))
  neighbors : List NodeOut
  edges : List EdgeOut
  total : Option ℕ

/-! ### The query that is run -/

section
variable (B : Backend) (D : Database σ) (g : Graph)

/-- The map of a neighbor; `name` is `coalesce(neighbor.name, neighbor.path, toString(id(neighbor)))`. -/
def nodeOut (n : Node) : NodeOut where
  id := B.id n.eid
  labels := n.labels
  name := ((n.props "name").or (n.props "path")).getD (.str (B.idText n.eid))
  props := n.props

def edgeOut (r : Rel) : EdgeOut := ⟨r.type, B.id r.source, B.id r.target⟩

def sameNode (a b : NodeOut) : Bool :=
  a.id = b.id && a.labels = b.labels && a.name = b.name && D.sameProps a.props b.props

/-- `MATCH (center) WHERE id(center) = $node_id AND center.tenant_id = $tid`. -/
def centers (nodeID tid : String) : List Node := g.nodes.filter fun n => B.id n.eid = .str nodeID ∧ own tid n

/-- `MATCH (center) -[r]- (neighbor) WHERE neighbor.tenant_id = $tid`. -/
def matched (tid : String) (center : Node) : List (Rel × Node) := (g.steps center).filter fun s => own tid s.2

/-- `collect(DISTINCT {…})`, before it is cut. -/
def collected (tid : String) (center : Node) : List NodeOut :=
  ((D.order (matched g tid center)).map fun s => nodeOut B s.2).eraseDupsBy (sameNode D)

def collectedEdges (tid : String) (center : Node) : List EdgeOut :=
  ((D.order (matched g tid center)).map fun s => edgeOut B s.1).eraseDups

/-- The rows of `cypher_simple`, one for each center that has matches. -/
def rows (nodeID tid : String) (limit : ℕ) : List (Node × List NodeOut × List EdgeOut) :=
  ((centers B g nodeID tid).filter fun center => !(matched g tid center).isEmpty).map fun center =>
    (center, (collected B D g tid center).take limit, collectedEdges B D g tid center)

end

/-! ### The route -/

/-- What becomes of the center of a row. -/
def centerOut (truthy : σ → Bool) (nodeID : String) (center : Value σ) : List (String × Value σ) :=
  match center.asDict? with
  | some d => [("id", (rowGet? d "id").getD (.text nodeID)), ("labels", (rowGet? d "labels").getD (.list [])),
      ("name", (((rowGet? d "name").filter (Value.truthy truthy)).or ((rowGet? d "path").filter (Value.truthy truthy))).getD
        (.text nodeID)), ("props", .dict d)]
  | none => [("id", .text nodeID), ("labels", .list []), ("name", .text nodeID), ("props", .dict [])]

/-- The answer for the rows; `driver` is the driver's form of a node. -/
def answerOf (truthy : σ → Bool) (driver : Node → GraphRows.Node σ) (nodeID : String) :
    Except String (List (Node × List NodeOut × List EdgeOut)) → Except HttpError (Answer σ)
  | .error e => .error ⟨502, "Graph query failed: " ++ e⟩
  | .ok [] => .ok ⟨none, [], [], none⟩
  | .ok ((center, neighbors, edges) :: _) =>
    .ok ⟨some (centerOut truthy nodeID (.node (driver center))), neighbors, edges, some neighbors.length⟩

/-- `get_neighborhood`. -/
def getNeighborhood (backend : Except HttpError Backend) (D : Database σ) (outage : Outage) (truthy : σ → Bool)
    (driver : Node → GraphRows.Node σ) (tid : String) (req : Request) (g : Graph) : Except HttpError (Answer σ) :=
  backend.bind fun B =>
    answerOf truthy driver req.nodeID (rowsUnless (outage 0) (D.order (rows B D g req.nodeID tid req.limit)))

/-! ### Closed parts of the graph -/

/-- The other nodes of the tenant within so many hops. -/
def near (g : Graph) (tid : String) (hops : ℕ) (center : Node) : List Node :=
  g.nodes.filter fun m => own tid m ∧ m.eid ≠ center.eid ∧ m.eid ∈ (g.within hops center).map (·.eid)

/-- The neighbors are nodes of the tenant within `hops`, all of them where there are at most `limit`, and the edges join
the center and the neighbors. -/
structure Closed (B : Backend) (g : Graph) (tid : String) (center : Node) (hops limit : ℕ) (neighbors : List NodeOut)
    (edges : List EdgeOut) : Prop where
  sound : ∀ v ∈ neighbors, ∃ m ∈ near g tid hops center, v = nodeOut B m
  complete : (near g tid hops center).length ≤ limit → ∀ m ∈ near g tid hops center, nodeOut B m ∈ neighbors
  closed : ∀ e ∈ edges, e.source ∈ B.id center.eid :: neighbors.map (·.id) ∧ e.target ∈ B.id center.eid :: neighbors.map (·.id)

/-- The answer for a node of the tenant is closed. -/
def Expands (backend : Except HttpError Backend) (B : Backend) (D : Database σ) (truthy : σ → Bool)
    (driver : Node → GraphRows.Node σ) (tid : String) (req : Request) (g : Graph) (center : Node) : Prop :=
  ∃ answer, getNeighborhood backend D (fun _ => none) truthy driver tid req g = .ok answer ∧
    Closed B g tid center req.hops req.limit answer.neighbors answer.edges

/-- In Neo4j nothing is found. In Neptune the direct neighbors are, all of them, and there may be no others to be found. -/
def Fits (g : Graph) (tid : String) (center : Node) (hops limit : ℕ) : Backend → Prop
  | .neo4j => near g tid hops center = [] ∨ limit < (near g tid hops center).length
  | .neptune _ _ => (∀ s ∈ g.steps center, s.2.eid ≠ center.eid) ∧ (near g tid 1 center).length ≤ limit ∧
      ((near g tid hops center).length = (near g tid 1 center).length ∨ limit < (near g tid hops center).length)

instance (g : Graph) (tid : String) (center : Node) (hops limit : ℕ) :
    ∀ B : Backend, Decidable (Fits g tid center hops limit B)
  | .neo4j => inferInstanceAs (Decidable (_ ∨ _))
  | .neptune _ _ => inferInstanceAs (Decidable (_ ∧ _ ∧ _))

variable {B : Backend} {D : Database σ} {g : Graph} {tid nodeID : String} {center n m : Node} {hops limit : ℕ}
  {truthy : σ → Bool} {driver : Node → GraphRows.Node σ} {req : Request} {outage : Outage}

/-! ### Ids -/

theorem Backend.id_injective : Function.Injective B.id := by
  intro i j h
  cases B with
  | neo4j => exact Int.ofNat.inj (Json.num.inj h)
  | neptune ids inj => exact inj (Json.str.inj h)

theorem eq_of_eid_eq (hg : g.Valid) (hn : n ∈ g.nodes) (hm : m ∈ g.nodes) (h : n.eid = m.eid) : n = m :=
  List.inj_on_of_nodup_map hg.eids hn hm h

theorem mem_near (hg : g.Valid) (hcenter : center ∈ g.nodes) :
    m ∈ near g tid hops center ↔ m ∈ g.nodes ∧ own tid m = true ∧ m ≠ center ∧ m ∈ g.within hops center := by
  simp only [near, List.mem_filter, decide_eq_true_eq, List.mem_map]
  refine and_congr_right fun hm => and_congr_right fun _ => and_congr ?_ ?_
  · exact not_congr ⟨eq_of_eid_eq hg hm hcenter, congrArg Node.eid⟩
  · refine ⟨fun ⟨m', hm', heid⟩ => ?_, fun h => ⟨m, h, rfl⟩⟩
    obtain rfl := eq_of_eid_eq hg (Graph.mem_nodes_of_within hcenter hm') hm heid
    exact hm'

/-- The neighbors are as many as the nodes. -/
theorem nodup_near (hg : g.Valid) : ((near g tid hops center).map (nodeOut B)).Nodup := by
  have heids : ((near g tid hops center).map (·.eid)).Nodup := hg.eids.sublist (List.filter_sublist.map _)
  have hids : ((near g tid hops center).map fun n => B.id n.eid).Nodup := by
    have := heids.map Backend.id_injective (f := B.id)
    rwa [List.map_map] at this
  refine List.Nodup.of_map (·.id) ?_
  rwa [List.map_map]

/-! ### The answer -/

theorem sameNode_iff (D : Database σ) (a b : NodeOut) : sameNode D a b = true ↔ a = b := by
  obtain ⟨id, labels, name, props⟩ := a
  obtain ⟨id', labels', name', props'⟩ := b
  simp [sameNode, D.sameProps_iff, and_assoc]

theorem mem_matched {s : Rel × Node} : s ∈ matched g tid center ↔ s ∈ g.steps center ∧ own tid s.2 = true :=
  List.mem_filter

theorem mem_collected {v : NodeOut} : v ∈ collected B D g tid center ↔ ∃ s ∈ matched g tid center, nodeOut B s.2 = v := by
  rw [collected, Distinct.mem_eraseDupsBy_iff (sameNode_iff D)]
  simp only [List.mem_map, (D.order_perm _).mem_iff]

theorem mem_collectedEdges {e : EdgeOut} : e ∈ collectedEdges B D g tid center ↔
    ∃ s ∈ matched g tid center, edgeOut B s.1 = e := by
  rw [collectedEdges, List.mem_eraseDups]
  simp only [List.mem_map, (D.order_perm _).mem_iff]

theorem getNeighborhood_ok {found : List (Node × List NodeOut × List EdgeOut)}
    (h : D.order (rows B D g req.nodeID tid req.limit) = found) :
    getNeighborhood (.ok B) D (fun _ => none) truthy driver tid req g = answerOf truthy driver req.nodeID (.ok found) := by
  show answerOf truthy driver req.nodeID (.ok (D.order (rows B D g req.nodeID tid req.limit))) = _
  rw [h]

/-- A number is no text. -/
theorem getNeighborhood_neo4j :
    getNeighborhood (.ok .neo4j) D (fun _ => none) truthy driver tid req g = .ok ⟨none, [], [], none⟩ := by
  have hnone : centers .neo4j g req.nodeID tid = [] := by
    refine List.filter_eq_nil_iff.2 fun n _ => ?_
    simp [Backend.id]
  have hrows : D.order (rows .neo4j D g req.nodeID tid req.limit) = [] := by
    rw [rows, hnone]
    exact D.order_nil
  exact getNeighborhood_ok hrows

variable {ids : ℕ → String} {inj : Function.Injective ids}

theorem centers_eq (hg : g.Valid) (hcenter : center ∈ g.nodes) (hown : own tid center = true) :
    centers (.neptune ids inj) g (ids center.eid) tid = [center] := by
  have hnodup : (centers (.neptune ids inj) g (ids center.eid) tid).Nodup := (List.Nodup.of_map _ hg.eids).filter _
  refine List.perm_singleton.1 ((List.perm_ext_iff_of_nodup hnodup (List.nodup_singleton center)).2 fun n => ?_)
  rw [List.mem_singleton, centers, List.mem_filter, decide_eq_true_eq]
  constructor
  · rintro ⟨hn, hid, -⟩
    exact eq_of_eid_eq hg hn hcenter (inj (Json.str.inj hid))
  · rintro rfl
    exact ⟨hcenter, rfl, hown⟩

/-- What is collected around the center, with no row where nothing is. -/
theorem getNeighborhood_neptune (D : Database σ) (truthy : σ → Bool) (driver : Node → GraphRows.Node σ)
    (inj : Function.Injective ids) (hg : g.Valid) (hcenter : center ∈ g.nodes) (hown : own tid center = true)
    (hreq : req.nodeID = ids center.eid) : ∃ out total,
    getNeighborhood (.ok (.neptune ids inj)) D (fun _ => none) truthy driver tid req g =
      .ok ⟨out, (collected (.neptune ids inj) D g tid center).take req.limit,
        collectedEdges (.neptune ids inj) D g tid center, total⟩ := by
  have hrows : rows (.neptune ids inj) D g req.nodeID tid req.limit =
      ([center].filter fun center => !(matched g tid center).isEmpty).map fun center =>
        (center, (collected (.neptune ids inj) D g tid center).take req.limit,
          collectedEdges (.neptune ids inj) D g tid center) := by
    rw [rows, hreq, centers_eq hg hcenter hown]
  cases hmatched : matched g tid center with
  | nil =>
    have hnodes : (collected (.neptune ids inj) D g tid center).take req.limit = [] := by
      rw [collected, hmatched, D.order_nil, List.map_nil, List.eraseDupsBy_nil, List.take_nil]
    have hedges : collectedEdges (.neptune ids inj) D g tid center = [] := by
      rw [collectedEdges, hmatched, D.order_nil, List.map_nil, List.eraseDups_nil]
    rw [List.filter_singleton, hmatched] at hrows
    rw [hnodes, hedges]
    have hfound := congrArg D.order hrows
    exact ⟨none, none, getNeighborhood_ok (hfound.trans D.order_nil)⟩
  | cons s rest =>
    rw [List.filter_singleton, hmatched] at hrows
    have hfound := congrArg D.order hrows
    exact ⟨_, _, getNeighborhood_ok (hfound.trans (D.order_singleton _))⟩

/-! ### Neighbors -/

theorem mem_near_one (hg : g.Valid) (hcenter : center ∈ g.nodes) :
    m ∈ near g tid 1 center ↔ m ≠ center ∧ ∃ s ∈ matched g tid center, s.2 = m := by
  rw [mem_near hg hcenter, Graph.mem_within_one]
  constructor
  · rintro ⟨-, hown, hne, heq | ⟨s, hs, rfl⟩⟩
    · exact absurd heq hne
    · exact ⟨hne, s, mem_matched.2 ⟨hs, hown⟩, rfl⟩
  · rintro ⟨hne, s, hs, rfl⟩
    obtain ⟨hs, hown⟩ := mem_matched.1 hs
    exact ⟨(Graph.mem_steps.1 hs).2.1, hown, hne, .inr ⟨s, hs, rfl⟩⟩

theorem near_one_sublist (hops_pos : 1 ≤ hops) : (near g tid 1 center).Sublist (near g tid hops center) := by
  refine List.monotone_filter_right _ fun m hm => ?_
  simp only [decide_eq_true_eq, List.mem_map] at hm ⊢
  obtain ⟨hown, hne, m', hm', heid⟩ := hm
  exact ⟨hown, hne, m', Graph.within_mono hops_pos hm', heid⟩

/-- Without a relationship of the center to itself the direct neighbors are collected. -/
theorem collected_perm (tid : String) (hg : g.Valid) (hcenter : center ∈ g.nodes)
    (hloop : ∀ s ∈ matched g tid center, s.2 ≠ center) :
    (collected B D g tid center).Perm ((near g tid 1 center).map (nodeOut B)) := by
  refine (List.perm_ext_iff_of_nodup (Distinct.nodup_eraseDupsBy (sameNode_iff D) _) (nodup_near hg)).2 fun v => ?_
  show v ∈ collected B D g tid center ↔ _
  rw [mem_collected, List.mem_map]
  constructor
  · rintro ⟨s, hs, rfl⟩
    exact ⟨s.2, (mem_near_one hg hcenter).2 ⟨hloop s hs, s, hs, rfl⟩, rfl⟩
  · rintro ⟨m, hm, rfl⟩
    obtain ⟨-, s, hs, rfl⟩ := (mem_near_one hg hcenter).1 hm
    exact ⟨s, hs, rfl⟩

/-- Where every direct neighbor has a place and there are no others, the answer is closed. -/
theorem closed_of_fits (hg : g.Valid) (hcenter : center ∈ g.nodes) (hops_pos : 1 ≤ hops)
    (hfits : Fits g tid center hops limit (.neptune ids inj)) : Closed (.neptune ids inj) g tid center hops limit
      ((collected (.neptune ids inj) D g tid center).take limit) (collectedEdges (.neptune ids inj) D g tid center) := by
  obtain ⟨hloop, hlimit, hfar⟩ := hfits
  have hperm := collected_perm (B := .neptune ids inj) (D := D) tid hg hcenter
    fun s hs heq => hloop s (mem_matched.1 hs).1 (congrArg Node.eid heq)
  have htake : (collected (.neptune ids inj) D g tid center).take limit = collected (.neptune ids inj) D g tid center := by
    refine List.take_of_length_le ?_
    rw [hperm.length_eq, List.length_map]
    exact hlimit
  rw [htake]
  refine ⟨fun v hv => ?_, fun hle m hm => ?_, fun e he => ?_⟩
  · obtain ⟨m, hm, rfl⟩ := List.mem_map.1 (hperm.mem_iff.1 hv)
    exact ⟨m, (near_one_sublist hops_pos).subset hm, rfl⟩
  · rcases hfar with heq | hlt
    · rw [← (near_one_sublist hops_pos).eq_of_length heq.symm] at hm
      exact hperm.mem_iff.2 (List.mem_map_of_mem hm)
    · omega
  · obtain ⟨s, hs, rfl⟩ := mem_collectedEdges.1 he
    have hneighbor : Backend.id (.neptune ids inj) s.2.eid ∈ (collected (.neptune ids inj) D g tid center).map (·.id) :=
      List.mem_map.2 ⟨_, mem_collected.2 ⟨s, hs, rfl⟩, rfl⟩
    obtain ⟨-, -, ⟨hsource, htarget⟩ | ⟨htarget, hsource⟩⟩ := Graph.mem_steps.1 (mem_matched.1 hs).1
    · refine ⟨?_, ?_⟩ <;> dsimp only [edgeOut]
      · rw [hsource]; exact List.mem_cons_self
      · rw [htarget]; exact List.mem_cons_of_mem _ hneighbor
    · refine ⟨?_, ?_⟩ <;> dsimp only [edgeOut]
      · rw [hsource]; exact List.mem_cons_of_mem _ hneighbor
      · rw [htarget]; exact List.mem_cons_self

/-! ### Rows in every order -/

theorem mem_take_rotated {s : Rel × Node} (hs : s ∈ matched g tid center) (hlimit : 1 ≤ limit) :
    ∃ k, nodeOut B s.2 ∈ (collected B (D.ordered (fun rows => rows.rotate k) fun rows => List.rotate_perm rows k) g tid
      center).take limit := by
  obtain ⟨before, after, hsplit⟩ := List.append_of_mem hs
  obtain ⟨l, rfl⟩ : ∃ l, limit = l + 1 := ⟨limit - 1, by omega⟩
  refine ⟨before.length, ?_⟩
  have horder : (matched g tid center).rotate before.length = s :: (after ++ before) := by
    rw [hsplit, List.rotate_append_length_eq]
    rfl
  show _ ∈ ((((matched g tid center).rotate before.length).map fun s => nodeOut B s.2).eraseDupsBy _).take (l + 1)
  rw [horder, List.map_cons, List.eraseDupsBy_cons, List.take_succ_cons]
  exact List.mem_cons_self

theorem fits_of_closed (hg : g.Valid) (hcenter : center ∈ g.nodes) (hown : own tid center = true) (hops_pos : 1 ≤ hops)
    (limit_pos : 1 ≤ limit)
    (h : ∀ order horder, Closed (.neptune ids inj) g tid center hops limit
      ((collected (.neptune ids inj) (D.ordered order horder) g tid center).take limit)
      (collectedEdges (.neptune ids inj) (D.ordered order horder) g tid center)) :
    Fits g tid center hops limit (.neptune ids inj) := by
  have hloop : ∀ s ∈ g.steps center, s.2.eid ≠ center.eid := by
    intro s hs heid
    have hself := eq_of_eid_eq hg (Graph.mem_steps.1 hs).2.1 hcenter heid
    have hmatched : s ∈ matched g tid center := mem_matched.2 ⟨hs, by rw [hself]; exact hown⟩
    obtain ⟨k, hk⟩ := mem_take_rotated (B := .neptune ids inj) (D := D) hmatched limit_pos
    obtain ⟨m, hm, heq⟩ := (h _ fun rows => List.rotate_perm rows k).sound _ hk
    obtain ⟨hm, -, hne, -⟩ := (mem_near hg hcenter).1 hm
    refine hne (eq_of_eid_eq hg hm hcenter (Backend.id_injective (B := .neptune ids inj) ?_))
    rw [← heid]
    exact (congrArg NodeOut.id heq).symm
  have hclosed := h id fun rows => .refl rows
  have hperm := collected_perm (B := .neptune ids inj) (D := D.ordered id fun rows => .refl rows) tid hg hcenter
    fun s hs heq => hloop s (mem_matched.1 hs).1 (congrArg Node.eid heq)
  -- every direct neighbor is the end of an edge, so none is cut off
  have hall : (near g tid 1 center).map (fun m => Backend.id (.neptune ids inj) m.eid) ⊆
      ((collected (.neptune ids inj) (D.ordered id fun rows => .refl rows) g tid center).take limit).map (·.id) := by
    intro i hi
    obtain ⟨m, hm, rfl⟩ := List.mem_map.1 hi
    obtain ⟨hne, s, hs, rfl⟩ := (mem_near_one hg hcenter).1 hm
    have hends := hclosed.closed _ (mem_collectedEdges.2 ⟨s, hs, rfl⟩)
    have hid : Backend.id (.neptune ids inj) s.2.eid ≠ Backend.id (.neptune ids inj) center.eid :=
      fun heq => hloop s (mem_matched.1 hs).1 (Backend.id_injective heq)
    dsimp only [edgeOut] at hends
    obtain ⟨-, -, ⟨-, htarget⟩ | ⟨-, hsource⟩⟩ := Graph.mem_steps.1 (mem_matched.1 hs).1
    · rw [htarget] at hends
      exact (List.mem_cons.1 hends.2).resolve_left hid
    · rw [hsource] at hends
      exact (List.mem_cons.1 hends.1).resolve_left hid
  have hids : ((near g tid 1 center).map fun m => Backend.id (.neptune ids inj) m.eid).Nodup := by
    have heids : ((near g tid 1 center).map (·.eid)).Nodup := hg.eids.sublist (List.filter_sublist.map _)
    have := heids.map (Backend.id_injective (B := .neptune ids inj))
    rwa [List.map_map] at this
  have hlimit : (near g tid 1 center).length ≤ limit := by
    have hlength := hids.length_le_of_subset hall
    rw [List.length_map, List.length_map] at hlength
    exact hlength.trans (List.length_take_le _ _)
  refine ⟨hloop, hlimit, ?_⟩
  by_cases hfar : limit < (near g tid hops center).length
  · exact .inr hfar
  · refine .inl (Nat.le_antisymm ?_ (near_one_sublist hops_pos).length_le)
    have hsubset : (near g tid hops center).map (nodeOut (.neptune ids inj)) ⊆
        (near g tid 1 center).map (nodeOut (.neptune ids inj)) := by
      intro v hv
      obtain ⟨m, hm, rfl⟩ := List.mem_map.1 hv
      exact hperm.mem_iff.1 (List.mem_of_mem_take (hclosed.complete (by omega) m hm))
    have hlength := (nodup_near hg).length_le_of_subset hsubset
    rwa [List.length_map, List.length_map] at hlength

/-- For every node of a tenant, over all orders of the rows. -/
theorem getNeighborhood_iff (ids : ℕ → String) (inj : Function.Injective ids) (tenant : Gdpr.Tenant) (B : Backend)
    (hbackend : backendOf ids inj (some tenant) = .ok B) (D : Database σ) (truthy : σ → Bool)
    (driver : Node → GraphRows.Node σ) (g : Graph) (hg : g.Valid) (tid : String) (center : Node) (hcenter : center ∈ g.nodes)
    (hown : own tid center = true) (req : Request) (hreq : req.nodeID = B.idText center.eid) :
    (∀ order horder, Expands (backendOf ids inj (some tenant)) B (D.ordered order horder) truthy driver tid req g center) ↔
      Fits g tid center req.hops req.limit B := by
  rw [hbackend]
  cases B with
  | neo4j =>
    have hclosed : Closed .neo4j g tid center req.hops req.limit [] [] ↔ Fits g tid center req.hops req.limit .neo4j := by
      constructor
      · intro h
        by_cases hlimit : req.limit < (near g tid req.hops center).length
        · exact .inr hlimit
        · exact .inl (List.eq_nil_iff_forall_not_mem.2 fun m hm => List.not_mem_nil (h.complete (by omega) m hm))
      · rintro hfits
        refine ⟨fun v hv => absurd hv List.not_mem_nil, fun hle m hm => ?_, fun e he => absurd he List.not_mem_nil⟩
        rcases hfits with hnil | hlimit
        · rw [hnil] at hm
          cases hm
        · omega
    rw [← hclosed]
    constructor
    · intro h
      obtain ⟨answer, hanswer, hclosed⟩ := h id fun rows => .refl rows
      rw [getNeighborhood_neo4j] at hanswer
      cases hanswer
      exact hclosed
    · exact fun h order horder => ⟨_, getNeighborhood_neo4j, h⟩
  | neptune ids' inj' =>
    constructor
    · intro h
      refine fits_of_closed (D := D) hg hcenter hown req.hops_range.1 req.limit_range.1 fun order horder => ?_
      obtain ⟨answer, hanswer, hclosed⟩ := h order horder
      obtain ⟨out, total, hfound⟩ := getNeighborhood_neptune (D.ordered order horder) truthy driver inj' hg hcenter hown
        hreq
      rw [hfound] at hanswer
      cases hanswer
      exact hclosed
    · intro hfits order horder
      obtain ⟨out, total, hfound⟩ := getNeighborhood_neptune (D.ordered order horder) truthy driver inj' hg hcenter hown
        hreq
      exact ⟨_, hfound, closed_of_fits hg hcenter req.hops_range.1 hfits⟩

/-! ### A file and its directory -/

def ownedNode (eid : ℕ) : Node := ⟨eid, ["File"], PropertyGraph.Props.ofMap [("tenant_id", .str "acme")]⟩

def pair : Graph := ⟨[ownedNode 0, ownedNode 1], [⟨"CHILD_OF", 0, 1, fun _ => none⟩], 2⟩

theorem valid_pair : pair.Valid := ⟨by decide, by decide⟩

def driverNode (n : Node) : GraphRows.Node ℕ := ⟨"4:" ++ toString n.eid, n.labels, .empty⟩

/-- In Neo4j the directory of a file is not found. -/
theorem pair_not_found : ¬ Expands (.ok .neo4j) .neo4j GraphApi.plainDb (fun _ => true) driverNode "acme"
    ⟨Backend.idText .neo4j 0, 1, 50, by decide, by decide⟩ pair (ownedNode 0) := by
  rintro ⟨answer, hanswer, hclosed⟩
  rw [getNeighborhood_neo4j] at hanswer
  cases hanswer
  have hnear : ownedNode 1 ∈ near pair "acme" 1 (ownedNode 0) := List.mem_singleton_self _
  exact List.not_mem_nil (hclosed.complete (by decide) _ hnear)

/-- A Neptune cluster with an id of so many letters for each node. -/
def letters (eid : ℕ) : String := String.ofList (List.replicate eid 'n')

theorem letters_injective : Function.Injective letters := fun i j h => by
  simpa [letters] using congrArg String.length h

theorem pair_found : Expands (backendOf letters letters_injective (some ⟨some "neptune"⟩)) (.neptune letters letters_injective)
    GraphApi.plainDb (fun _ => true) driverNode "acme" ⟨letters 0, 2, 50, by decide, by decide⟩ pair (ownedNode 0) :=
  (getNeighborhood_iff letters letters_injective ⟨some "neptune"⟩ (.neptune letters letters_injective) rfl GraphApi.plainDb
    (fun _ => true) driverNode pair valid_pair "acme" (ownedNode 0) List.mem_cons_self (by decide)
    ⟨letters 0, 2, 50, by decide, by decide⟩ rfl).2 (by decide) id fun _ => .refl _

end Dgraphai.Neighborhood
