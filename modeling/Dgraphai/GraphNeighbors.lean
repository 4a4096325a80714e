import Dgraphai.GraphApiIsolation
import Dgraphai.Lib.Distinct
import Dgraphai.Lib.GraphPath
import Mathlib.Data.List.Rotate

/-!
# The subgraph around a node (`GraphClient.get_neighbors`)

The statement groups by the relationships of a path before it collects the nodes, and `query_one` keeps one row, so the
answer has the nodes of one path. It is the whole subgraph, whichever row comes first, exactly where the node and one
neighbour are all there is (`getNeighbors_iff`).
-/

namespace Dgraphai.GraphApi

open PropertyGraph (Graph Node Rel)

variable {σ : Type}

/-- `GraphClient.get_neighbors`; the route bounds `depth` and `limit`. -/
def GraphClient.getNeighbors (D : Database σ) (outage : Outage) (nodeID : String) (depth limit : ℕ) (g : Graph) :
    Except String (List NodeEntry × List EdgeEntry) :=
  rowsUnless (outage 0) (((edgeRows D g (nodeRows D (D.order (paths nodeID depth g)))).take limit).head?.getD ([], []))

theorem getNeighbors_eq (D : Database σ) (outage : Outage) (req : NeighborsRequest) (g : Graph) :
    getNeighbors D outage req g = GraphClient.getNeighbors D outage req.nodeID req.depth req.limit g := rfl

/-! ### The subgraph -/

/-- All nodes within `depth` hops of the node and all relationships on the paths to them, each once. -/
structure Subgraph (g : Graph) (nodeID : String) (depth : ℕ) (nodes : List NodeEntry) (edges : List EdgeEntry) : Prop where
  nodes_nodup : nodes.Nodup
  mem_nodes : ∀ e, e ∈ nodes ↔ ∃ n ∈ withId g nodeID, ∃ m ∈ g.within depth n, nodeEntry m = e
  edges_nodup : edges.Nodup
  mem_edges : ∀ e, e ∈ edges ↔ ∃ p ∈ paths nodeID depth g, ∃ r ∈ p.rels, edgeEntry g r = e

/-- The answer is the subgraph. -/
def Returns (D : Database σ) (nodeID : String) (depth limit : ℕ) (g : Graph) : Prop :=
  ∃ nodes edges, GraphClient.getNeighbors D (fun _ => none) nodeID depth limit g = .ok (nodes, edges) ∧
    Subgraph g nodeID depth nodes edges

/-- The same database with the rows in another order. -/
def Database.ordered (D : Database σ) (order : ∀ {α : Type}, List α → List α)
    (horder : ∀ {α : Type} (rows : List α), (order rows).Perm rows) : Database σ :=
  { D with order := order, order_perm := horder }

/-- The node has relationships, and all nodes within reach are the node or the neighbour at each of them. -/
def Paired (g : Graph) (depth : ℕ) (n : Node) : Prop :=
  hops g n ≠ [] ∧ ∀ h ∈ hops g n, ∀ m ∈ g.within depth n, nodeEntry m = nodeEntry n ∨ nodeEntry m = nodeEntry h.2

variable {D : Database σ} {g : Graph} {nodeID : String} {depth limit : ℕ} {n m : Node} {p q : Path} {ps : List Path}
  {h : Hop} {walk : List Hop} {k : ℕ}

/-! ### Hops and paths -/

theorem mem_hops : h ∈ hops g n ↔ h.1 ∈ g.rels.zipIdx ∧ h.2 ∈ g.nodes ∧
    (h.1.1.source = n.eid ∧ h.1.1.target = h.2.eid ∨ h.1.1.target = n.eid ∧ h.1.1.source = h.2.eid) := by
  constructor
  · intro hmem
    obtain ⟨e, he, hmem⟩ := List.mem_flatMap.1 hmem
    obtain ⟨b, hb, rfl⟩ := List.mem_map.1 hmem
    obtain ⟨hb, hends⟩ := List.mem_filter.1 hb
    exact ⟨he, hb, of_decide_eq_true hends⟩
  · rintro ⟨he, hb, hends⟩
    exact List.mem_flatMap.2 ⟨h.1, he, List.mem_map.2 ⟨h.2, List.mem_filter.2 ⟨hb, decide_eq_true hends⟩, rfl⟩⟩

/-- A relationship leads from a node to one node. -/
theorem hop_eq (hg : g.Valid) {h h' : Hop} (hh : h ∈ hops g n) (hh' : h' ∈ hops g n) (hid : h.1.2 = h'.1.2) : h = h' := by
  obtain ⟨⟨r, i⟩, b⟩ := h
  obtain ⟨⟨r', j⟩, b'⟩ := h'
  obtain ⟨he, hb, hends⟩ := mem_hops.1 hh
  obtain ⟨he', hb', hends'⟩ := mem_hops.1 hh'
  obtain rfl : i = j := hid
  obtain rfl : r = r' := Option.some.inj ((List.mem_zipIdx_iff_getElem?.1 he).symm.trans (List.mem_zipIdx_iff_getElem?.1 he'))
  have heid : b.eid = b'.eid := by
    dsimp only at hends hends'
    omega
  obtain rfl : b = b' := List.inj_on_of_nodup_map hg.eids hb hb' heid
  rfl

theorem mem_walks_succ : walk ∈ walks g (k + 1) n ↔ ∃ h ∈ hops g n, ∃ rest ∈ walks g k h.2, walk = h :: rest := by
  simp only [walks, List.mem_flatMap, List.mem_map, eq_comm]

theorem mem_paths : p ∈ paths nodeID depth g ↔ p.1 ∈ withId g nodeID ∧ (∃ k, 1 ≤ k ∧ k ≤ depth ∧ p.2 ∈ walks g k p.1) ∧
    p.relIds.Nodup := by
  obtain ⟨n, walk⟩ := p
  constructor
  · intro hp
    obtain ⟨n', hn, hp⟩ := List.mem_flatMap.1 hp
    obtain ⟨k, hk, hp⟩ := List.mem_flatMap.1 hp
    obtain ⟨hp, hnodup⟩ := List.mem_filter.1 hp
    obtain ⟨walk', hwalk, heq⟩ := List.mem_map.1 hp
    obtain ⟨rfl, rfl⟩ := Prod.mk.inj heq
    have hrange := List.mem_range'_1.1 hk
    exact ⟨hn, ⟨k, hrange.1, by omega, hwalk⟩, of_decide_eq_true hnodup⟩
  · rintro ⟨hn, ⟨k, hpos, hle, hwalk⟩, hnodup⟩
    refine List.mem_flatMap.2 ⟨n, hn, List.mem_flatMap.2 ⟨k, List.mem_range'_1.2 (by omega), ?_⟩⟩
    exact List.mem_filter.2 ⟨List.mem_map.2 ⟨walk, hwalk, rfl⟩, decide_eq_true hnodup⟩

/-- A path of one hop. -/
theorem hop_mem_paths (hdepth : 1 ≤ depth) (hn : n ∈ withId g nodeID) (hh : h ∈ hops g n) :
    (n, [h]) ∈ paths nodeID depth g :=
  mem_paths.2 ⟨hn, ⟨1, le_rfl, hdepth, mem_walks_succ.2 ⟨h, hh, [], List.mem_singleton_self _, rfl⟩⟩, List.nodup_singleton _⟩

/-- A path has a first hop. -/
theorem exists_hop (hp : p ∈ paths nodeID depth g) : p.1 ∈ withId g nodeID ∧ ∃ h ∈ hops g p.1, ∃ rest, p.2 = h :: rest := by
  obtain ⟨hn, ⟨k, hpos, -, hwalk⟩, -⟩ := mem_paths.1 hp
  obtain ⟨j, rfl⟩ : ∃ j, k = j + 1 := ⟨k - 1, by omega⟩
  obtain ⟨h, hh, rest, -, hcons⟩ := mem_walks_succ.1 hwalk
  exact ⟨hn, h, hh, rest, hcons⟩

theorem hop_mem_steps (hh : h ∈ hops g n) : (h.1.1, h.2) ∈ g.steps n := by
  obtain ⟨he, hb, hends⟩ := mem_hops.1 hh
  exact Graph.mem_steps.2 ⟨List.fst_mem_of_mem_zipIdx he, hb, hends⟩

theorem hop_mem_within (hdepth : 1 ≤ depth) (hh : h ∈ hops g n) : h.2 ∈ g.within depth n :=
  Graph.within_mono hdepth (Graph.mem_within_one.2 (.inr ⟨_, hop_mem_steps hh, rfl⟩))

/-- The nodes of a walk are within its length. -/
theorem mem_within_of_walk (hk : k ≤ depth) (hwalk : walk ∈ walks g k n) (hm : m ∈ n :: walk.map (·.2)) :
    m ∈ g.within depth n := by
  induction k generalizing n walk depth with
  | zero =>
    obtain rfl := List.mem_singleton.1 hwalk
    obtain rfl := List.mem_singleton.1 hm
    exact g.self_mem_within depth m
  | succ k ih =>
    obtain ⟨h, hh, rest, hrest, rfl⟩ := mem_walks_succ.1 hwalk
    obtain ⟨d, rfl⟩ : ∃ d, depth = d + 1 := ⟨depth - 1, by omega⟩
    refine Graph.mem_within_succ.2 ((List.mem_cons.1 hm).imp_right fun hm => ?_)
    exact ⟨_, hop_mem_steps hh, ih (by omega) hrest hm⟩

theorem mem_within_of_path (hp : p ∈ paths nodeID depth g) (hm : m ∈ p.nodes) : m ∈ g.within depth p.1 := by
  obtain ⟨-, ⟨k, -, hk, hwalk⟩, -⟩ := mem_paths.1 hp
  exact mem_within_of_walk hk hwalk hm

/-! ### Rows -/

theorem sameEntry_iff (D : Database σ) (a b : NodeEntry) : sameEntry D a b = true ↔ a = b := by
  obtain ⟨id, label, name, props⟩ := a
  obtain ⟨id', label', name', props'⟩ := b
  simp [sameEntry, D.sameProps_iff, and_assoc]

theorem isEqv_iff (D : Database σ) (l l' : List NodeEntry) : l.isEqv l' (sameEntry D) = true ↔ l = l' := by
  induction l generalizing l' with
  | nil => cases l' <;> simp [List.isEqv]
  | cons a l ih =>
    cases l' with
    | nil => simp [List.isEqv]
    | cons b l' => simp [List.isEqv, ih, sameEntry_iff]

/-- The nodes of the row of a path. -/
def groupNodes (D : Database σ) (ps : List Path) (p : Path) : List NodeEntry :=
  ((ps.filter fun q => q.relIds = p.relIds).flatMap fun q => q.nodes.map nodeEntry).eraseDupsBy (sameEntry D)

/-- The relationships of the rows, each with its nodes. -/
def unwound (D : Database σ) (g : Graph) (ps : List Path) : List (List NodeEntry × EdgeEntry) :=
  (nodeRows D ps).flatMap fun row => row.2.map fun r => (row.1, edgeEntry g r)

/-- The relationships of the rows that have the nodes of a path. -/
def groupEdges (D : Database σ) (g : Graph) (ps : List Path) (p : Path) : List EdgeEntry :=
  (((unwound D g ps).filter fun row => row.1.isEqv (groupNodes D ps p) (sameEntry D)).map (·.2)).eraseDups

theorem mem_groupNodes {e : NodeEntry} : e ∈ groupNodes D ps p ↔
    ∃ q ∈ ps, q.relIds = p.relIds ∧ ∃ m ∈ q.nodes, nodeEntry m = e := by
  rw [groupNodes, Distinct.mem_eraseDupsBy_iff (sameEntry_iff D)]
  simp only [List.mem_flatMap, List.mem_filter, List.mem_map, decide_eq_true_eq, and_assoc]

theorem groupNodes_congr (h : q.relIds = p.relIds) : groupNodes D ps q = groupNodes D ps p := by
  rw [groupNodes, groupNodes, h]

theorem mem_unwound {row : List NodeEntry × EdgeEntry} : row ∈ unwound D g ps ↔
    ∃ q ∈ ps.eraseDupsBy (fun p q => p.relIds = q.relIds), groupNodes D ps q = row.1 ∧ ∃ r ∈ q.rels, edgeEntry g r = row.2 := by
  obtain ⟨nodes, edge⟩ := row
  simp only [unwound, nodeRows, List.mem_flatMap, List.mem_map]
  constructor
  · rintro ⟨_, ⟨q, hq, rfl⟩, r, hr, heq⟩
    obtain ⟨rfl, rfl⟩ := Prod.mk.inj heq
    exact ⟨q, hq, rfl, r, hr, rfl⟩
  · rintro ⟨q, hq, rfl, r, hr, rfl⟩
    exact ⟨_, ⟨q, hq, rfl⟩, r, hr, rfl⟩

theorem rels_eq_of_relIds (hp : p ∈ paths nodeID depth g) (hq : q ∈ paths nodeID depth g) (h : p.relIds = q.relIds) :
    p.rels = q.rels := by
  have hmem : ∀ {p : Path}, p ∈ paths nodeID depth g → ∀ r ∈ p.rels, r ∈ g.rels.zipIdx := by
    intro p hp
    obtain ⟨-, ⟨k, -, -, hwalk⟩, -⟩ := mem_paths.1 hp
    obtain ⟨n, walk⟩ := p
    clear hp
    show ∀ r ∈ walk.map (·.1), _
    induction k generalizing n walk with
    | zero =>
      obtain rfl := List.mem_singleton.1 hwalk
      exact fun r hr => absurd hr List.not_mem_nil
    | succ k ih =>
      obtain ⟨h, hh, rest, hrest, rfl⟩ := mem_walks_succ.1 hwalk
      exact List.forall_mem_cons.2 ⟨(mem_hops.1 hh).1, ih _ _ hrest⟩
  have hinj : ∀ l l' : List (Rel × ℕ), (∀ r ∈ l, r ∈ g.rels.zipIdx) → (∀ r ∈ l', r ∈ g.rels.zipIdx) →
      l.map (·.2) = l'.map (·.2) → l = l' := by
    intro l
    induction l with
    | nil =>
      rintro (_ | ⟨r', l'⟩) - - h
      · rfl
      · cases h
    | cons r l ih =>
      rintro (_ | ⟨r', l'⟩) hl hl' h
      · cases h
      · obtain ⟨hi, h⟩ := List.cons.inj h
        rw [List.forall_mem_cons] at hl hl'
        have hr : r.1 = r'.1 := Option.some.inj ((List.mem_zipIdx_iff_getElem?.1 hl.1).symm.trans
          ((congrArg (g.rels[·]?) hi).trans (List.mem_zipIdx_iff_getElem?.1 hl'.1)))
        rw [Prod.ext hr hi, ih l' hl.2 hl'.2 h]
  exact hinj _ _ (hmem hp) (hmem hq) h

theorem mem_groupEdges (hps : ∀ q ∈ ps, q ∈ paths nodeID depth g) {e : EdgeEntry} : e ∈ groupEdges D g ps p ↔
    ∃ q ∈ ps, groupNodes D ps q = groupNodes D ps p ∧ ∃ r ∈ q.rels, edgeEntry g r = e := by
  rw [groupEdges, List.mem_eraseDups]
  simp only [List.mem_map, List.mem_filter, isEqv_iff]
  constructor
  · rintro ⟨row, ⟨hrow, hnodes⟩, rfl⟩
    obtain ⟨q, hq, hgroup, r, hr, he⟩ := mem_unwound.1 hrow
    exact ⟨q, Distinct.mem_of_mem_eraseDupsBy hq, hgroup.trans hnodes, r, hr, he⟩
  · rintro ⟨q, hq, hgroup, r, hr, rfl⟩
    have hself : ∀ p : Path, decide (p.relIds = p.relIds) = true := fun p => decide_eq_true rfl
    obtain ⟨q', hq', hids⟩ := Distinct.exists_mem_eraseDupsBy (r := fun p q : Path => decide (p.relIds = q.relIds)) hself hq
    replace hids : q.relIds = q'.relIds := of_decide_eq_true hids
    have hrels := rels_eq_of_relIds (hps q hq) (hps q' (Distinct.mem_of_mem_eraseDupsBy hq')) hids
    refine ⟨(groupNodes D ps q', edgeEntry g r), ⟨mem_unwound.2 ⟨q', hq', rfl, r, hrels ▸ hr, rfl⟩, ?_⟩, rfl⟩
    rw [← hgroup]
    exact groupNodes_congr hids.symm

/-- The first row has the nodes of the first path. -/
theorem head_edgeRows (ps : List Path) (hrels : p.rels ≠ []) : ∃ rows, edgeRows D g (nodeRows D (p :: ps)) =
    (groupNodes D (p :: ps) p, groupEdges D g (p :: ps) p) :: rows := by
  obtain ⟨r, rels, hrels⟩ := List.exists_cons_of_ne_nil hrels
  have hunwound : ∃ rest, unwound D g (p :: ps) = (groupNodes D (p :: ps) p, edgeEntry g r) :: rest := by
    rw [unwound, nodeRows, List.eraseDupsBy_cons, List.map_cons, List.flatMap_cons, hrels]
    exact ⟨_, rfl⟩
  obtain ⟨rest, hrest⟩ := hunwound
  have hrows : ∃ rows, (unwound D g (p :: ps)).eraseDupsBy (fun p q => p.1.isEqv q.1 (sameEntry D)) =
      (groupNodes D (p :: ps) p, edgeEntry g r) :: rows := by
    rw [hrest, List.eraseDupsBy_cons]
    exact ⟨_, rfl⟩
  obtain ⟨rows, hrows⟩ := hrows
  have hmap : edgeRows D g (nodeRows D (p :: ps)) =
      ((unwound D g (p :: ps)).eraseDupsBy fun p q => p.1.isEqv q.1 (sameEntry D)).map fun row =>
        (row.1, (((unwound D g (p :: ps)).filter fun q => q.1.isEqv row.1 (sameEntry D)).map (·.2)).eraseDups) := rfl
  rw [hmap, hrows, List.map_cons]
  exact ⟨_, rfl⟩

/-- The answer, by the path that comes first. -/
theorem answer_eq (hlimit : (paths nodeID depth g).length ≤ limit) (horder : D.order (paths nodeID depth g) = p :: ps) :
    GraphClient.getNeighbors D (fun _ => none) nodeID depth limit g =
      .ok (groupNodes D (p :: ps) p, groupEdges D g (p :: ps) p) := by
  have hperm := D.order_perm (paths nodeID depth g)
  have hp : p ∈ paths nodeID depth g := hperm.mem_iff.1 (by rw [horder]; exact List.mem_cons_self)
  obtain ⟨rows, hrows⟩ := head_edgeRows (D := D) (g := g) ps (rels_ne_nil hp)
  obtain ⟨l, rfl⟩ : ∃ l, limit = l + 1 := ⟨limit - 1, by have := List.length_pos_of_mem hp; omega⟩
  rw [GraphClient.getNeighbors, horder, hrows, List.take_succ_cons]
  rfl

/-! ### Pairs -/

/-- Where the node and one neighbour are all there is, every row has the same nodes. -/
theorem groupNodes_eq (hdepth : 1 ≤ depth) (hn : withId g nodeID = [n]) (hpair : Paired g depth n)
    (hps : ∀ q ∈ ps, q ∈ paths nodeID depth g) (hh : h ∈ hops g n) (hq : q ∈ ps) :
    groupNodes D ps q = [nodeEntry n, nodeEntry h.2].eraseDupsBy (sameEntry D) := by
  have hstart : ∀ {p : Path}, p ∈ paths nodeID depth g → p.1 = n := by
    intro p hp
    have hid := (exists_hop hp).1
    rw [hn] at hid
    exact List.mem_singleton.1 hid
  obtain ⟨hstart', h', hh', rest, hcons⟩ := exists_hop (hps q hq)
  have hfirst : q.1 = n := hstart (hps q hq)
  rw [hfirst] at hh'
  -- the row begins with the node
  have hrow : ∃ l, ((ps.filter fun p => p.relIds = q.relIds).flatMap fun p => p.nodes.map nodeEntry) = nodeEntry n :: l := by
    have hself : q ∈ ps.filter fun p => p.relIds = q.relIds := List.mem_filter.2 ⟨hq, decide_eq_true rfl⟩
    obtain ⟨p, rows, hrows⟩ := List.exists_cons_of_ne_nil (List.ne_nil_of_mem hself)
    have hp : p ∈ ps := (List.mem_filter.1 (by rw [hrows]; exact List.mem_cons_self)).1
    rw [hrows, List.flatMap_cons, Path.nodes, hstart (hps p hp)]
    exact ⟨_, rfl⟩
  obtain ⟨l, hl⟩ := hrow
  have hmem : ∀ e, e ∈ nodeEntry n :: l ↔ e ∈ groupNodes D ps q := by
    intro e
    rw [← hl, groupNodes, Distinct.mem_eraseDupsBy_iff (sameEntry_iff D)]
  rw [groupNodes, hl]
  refine Distinct.eraseDupsBy_pair (sameEntry_iff D) (fun e he => ?_) ?_
  · obtain ⟨p, hp, -, m, hm, rfl⟩ := mem_groupNodes.1 ((hmem e).1 (List.mem_cons_of_mem _ he))
    have hwithin := mem_within_of_path (hps p hp) hm
    rw [hstart (hps p hp)] at hwithin
    exact hpair.2 h hh m hwithin
  · have hneighbor : nodeEntry h'.2 ∈ nodeEntry n :: l := by
      refine (hmem _).2 (mem_groupNodes.2 ⟨q, hq, rfl, h'.2, ?_, rfl⟩)
      rw [Path.nodes, hcons]
      exact List.mem_cons_of_mem _ List.mem_cons_self
    rcases hpair.2 h' hh' h.2 (hop_mem_within hdepth hh) with heq | heq
    · rw [heq]
      exact List.mem_cons_self
    · rw [heq]
      exact hneighbor

theorem returns_of_paired (hdepth : 1 ≤ depth) (hlimit : (paths nodeID depth g).length ≤ limit)
    (hn : withId g nodeID = [n]) (hpair : Paired g depth n) : Returns D nodeID depth limit g := by
  obtain ⟨h, rest, hhops⟩ := List.exists_cons_of_ne_nil hpair.1
  have hh : h ∈ hops g n := hhops ▸ List.mem_cons_self
  have hid : n ∈ withId g nodeID := hn ▸ List.mem_singleton_self n
  have hperm := D.order_perm (paths nodeID depth g)
  obtain ⟨p, ps, horder⟩ := List.exists_cons_of_ne_nil
    (List.ne_nil_of_mem (hperm.mem_iff.2 (hop_mem_paths hdepth hid hh)))
  rw [horder] at hperm
  have hps : ∀ q ∈ p :: ps, q ∈ paths nodeID depth g := fun q hq => hperm.mem_iff.1 hq
  have hnodes := fun {q : Path} (hq : q ∈ p :: ps) => groupNodes_eq (D := D) hdepth hn hpair hps hh hq
  refine ⟨_, _, answer_eq hlimit horder, Distinct.nodup_eraseDupsBy (sameEntry_iff D) _, fun e => ?_,
    Distinct.nodup_eraseDupsBy (fun _ _ => beq_iff_eq) _, fun e => ?_⟩
  · rw [hnodes List.mem_cons_self, Distinct.mem_eraseDupsBy_iff (sameEntry_iff D), List.mem_pair, hn]
    constructor
    · rintro (rfl | rfl)
      · exact ⟨n, List.mem_singleton_self n, n, g.self_mem_within depth n, rfl⟩
      · exact ⟨n, List.mem_singleton_self n, h.2, hop_mem_within hdepth hh, rfl⟩
    · rintro ⟨n', hn', m, hm, rfl⟩
      obtain rfl := List.mem_singleton.1 hn'
      exact hpair.2 h hh m hm
  · rw [mem_groupEdges hps]
    constructor
    · rintro ⟨q, hq, -, r, hr, rfl⟩
      exact ⟨q, hps q hq, r, hr, rfl⟩
    · rintro ⟨q, hq, r, hr, rfl⟩
      have hq := hperm.mem_iff.2 hq
      exact ⟨q, hq, (hnodes hq).trans (hnodes List.mem_cons_self).symm, r, hr, rfl⟩

/-! ### One row is one path -/

/-- Where a path of one hop comes first, the answer has its two nodes. -/
theorem mem_of_answer (hg : g.Valid) (hlimit : (paths nodeID depth g).length ≤ limit)
    (hn : withId g nodeID = [n]) (hh : h ∈ hops g n) (horder : D.order (paths nodeID depth g) = (n, [h]) :: ps)
    (hreturns : Returns D nodeID depth limit g) :
    ∀ m ∈ g.within depth n, nodeEntry m = nodeEntry n ∨ nodeEntry m = nodeEntry h.2 := by
  intro m hm
  obtain ⟨nodes, edges, hanswer, hsubgraph⟩ := hreturns
  rw [answer_eq hlimit horder] at hanswer
  obtain ⟨rfl, rfl⟩ := Prod.mk.inj (Except.ok.inj hanswer)
  have hmem := (hsubgraph.mem_nodes _).2 ⟨n, hn ▸ List.mem_singleton_self n, m, hm, rfl⟩
  obtain ⟨q, hq, hids, m', hm', heq⟩ := mem_groupNodes.1 hmem
  have hperm := D.order_perm (paths nodeID depth g)
  rw [horder] at hperm
  -- no other path goes over this relationship alone
  obtain ⟨hid, h', hh', rest, hcons⟩ := exists_hop (hperm.mem_iff.1 hq)
  rw [hn] at hid
  have hfirst := List.mem_singleton.1 hid
  rw [hfirst] at hh'
  obtain ⟨n', walk⟩ := q
  obtain rfl : n' = n := hfirst
  obtain rfl : walk = h' :: rest := hcons
  obtain ⟨hhead, htail⟩ := List.cons.inj hids
  obtain rfl : h' = h := hop_eq hg hh' hh hhead
  obtain rfl : rest = [] := List.map_eq_nil_iff.1 (List.map_eq_nil_iff.1 htail)
  rw [← heq]
  rcases List.mem_cons.1 hm' with rfl | hm'
  · exact .inl rfl
  · obtain rfl := List.mem_singleton.1 hm'
    exact .inr rfl

theorem not_returns_of_isolated (hn : withId g nodeID = [n]) (hnone : hops g n = []) :
    ¬ Returns D nodeID depth limit g := by
  rintro ⟨nodes, edges, hanswer, hsubgraph⟩
  have hpaths : paths nodeID depth g = [] := by
    refine List.eq_nil_iff_forall_not_mem.2 fun p hp => ?_
    obtain ⟨hid, h, hh, -⟩ := exists_hop hp
    rw [hn] at hid
    rw [List.mem_singleton.1 hid, hnone] at hh
    cases hh
  have hnil : GraphClient.getNeighbors D (fun _ => none) nodeID depth limit g = .ok ([], []) := by
    rw [GraphClient.getNeighbors, hpaths, D.order_nil]
    show Except.ok ((List.take limit []).head?.getD ([], [])) = _
    rw [List.take_nil]
    rfl
  obtain ⟨rfl, -⟩ := Prod.mk.inj (Except.ok.inj (hnil.symm.trans hanswer))
  have hself := (hsubgraph.mem_nodes _).2 ⟨n, hn ▸ List.mem_singleton_self n, n, g.self_mem_within depth n, rfl⟩
  cases hself

theorem returns_of_unknown (hn : withId g nodeID = []) : Returns D nodeID depth limit g := by
  have hpaths : paths nodeID depth g = [] := by rw [paths, hn, List.flatMap_nil]
  refine ⟨[], [], ?_, List.nodup_nil, fun e => ?_, List.nodup_nil, fun e => ?_⟩
  · rw [GraphClient.getNeighbors, hpaths, D.order_nil]
    show Except.ok ((List.take limit []).head?.getD ([], [])) = _
    rw [List.take_nil]
    rfl
  · simp [hn]
  · simp [hpaths]

/-- For a node with an id of its own, over all orders of the rows. -/
theorem getNeighbors_iff (D : Database σ) (g : Graph) (hg : g.Valid) (nodeID : String) (hone : (withId g nodeID).length ≤ 1)
    (depth limit : ℕ) (hdepth : 1 ≤ depth) (hlimit : (paths nodeID depth g).length ≤ limit) :
    (∀ order horder, Returns (D.ordered order horder) nodeID depth limit g) ↔
      ∀ n ∈ withId g nodeID, Paired g depth n := by
  rcases hnodes : withId g nodeID with _ | ⟨n, _ | ⟨n', rest⟩⟩
  · exact iff_of_true (fun order horder => returns_of_unknown hnodes) (fun n hn => absurd hn List.not_mem_nil)
  · rw [List.forall_mem_singleton]
    refine ⟨fun hreturns => ⟨fun hnone => ?_, fun h hh => ?_⟩, fun hpair order horder => returns_of_paired hdepth hlimit hnodes hpair⟩
    · exact not_returns_of_isolated hnodes hnone (hreturns id fun _ => .refl _)
    · -- the row of this hop comes first
      have hp := hop_mem_paths hdepth (hnodes ▸ List.mem_singleton_self n) hh
      obtain ⟨before, after, hsplit⟩ := List.append_of_mem hp
      have hfirst : (paths nodeID depth g).rotate before.length = (n, [h]) :: (after ++ before) := by
        rw [hsplit, List.rotate_append_length_eq]
        rfl
      exact mem_of_answer hg hlimit hnodes hh hfirst
        (hreturns (fun rows => rows.rotate before.length) fun rows => List.rotate_perm rows _)
  · rw [hnodes] at hone
    simp at hone

/-! ### A directory and its files -/

def fileNode (eid : ℕ) (id : String) : Node := ⟨eid, ["File"], PropertyGraph.Props.ofMap [("id", .str id)]⟩

/-- A node that so many nodes are joined to. -/
def directory (ids : List String) : Graph :=
  ⟨fileNode 0 "dir" :: ids.zipIdx.map fun e => fileNode (e.2 + 1) e.1,
    ids.zipIdx.map fun e => ⟨"CHILD_OF", e.2 + 1, 0, fun _ => none⟩, ids.length + 1⟩

/-- One file of a directory with two is in the answer. -/
theorem directory_incomplete : (directory ["a", "b"]).Valid ∧ (withId (directory ["a", "b"]) "dir").length ≤ 1 ∧
    (paths "dir" 1 (directory ["a", "b"])).length ≤ 100 ∧ ¬ Returns plainDb "dir" 1 100 (directory ["a", "b"]) := by
  have hvalid : (directory ["a", "b"]).Valid := ⟨by decide, by decide⟩
  have hn : withId (directory ["a", "b"]) "dir" = [fileNode 0 "dir"] := rfl
  have hlimit : (paths "dir" 1 (directory ["a", "b"])).length ≤ 100 := by decide
  refine ⟨hvalid, le_of_eq (congrArg List.length hn), hlimit, fun hreturns => ?_⟩
  have hhop : ((⟨"CHILD_OF", 1, 0, fun _ => none⟩, 0), fileNode 1 "a") ∈ hops (directory ["a", "b"]) (fileNode 0 "dir") :=
    List.mem_cons_self
  have hother : fileNode 2 "b" ∈ (directory ["a", "b"]).within 1 (fileNode 0 "dir") :=
    List.mem_cons_of_mem _ (List.mem_cons_of_mem _ List.mem_cons_self)
  rcases mem_of_answer hvalid hlimit hn hhop rfl hreturns _ hother with h | h
  · exact absurd (congrArg NodeEntry.id h) (by decide)
  · exact absurd (congrArg NodeEntry.id h) (by decide)

/-- A directory with one file. -/
theorem directory_returned : Returns plainDb "dir" 2 100 (directory ["a"]) := by
  refine (getNeighbors_iff plainDb (directory ["a"]) ⟨by decide, by decide⟩ "dir" (by decide) 2 100 (by decide)
    (by decide)).2 (fun n hn => ?_) id fun _ => .refl _
  obtain rfl := List.mem_singleton.1 hn
  refine ⟨List.cons_ne_nil _ _, fun h hh m hm => ?_⟩
  obtain rfl := List.mem_singleton.1 hh
  have hwithin : (directory ["a"]).within 2 (fileNode 0 "dir") = [fileNode 0 "dir", fileNode 1 "a", fileNode 0 "dir"] := rfl
  rw [hwithin] at hm
  simp only [List.mem_cons, List.not_mem_nil, or_false] at hm
  rcases hm with rfl | rfl | rfl
  · exact .inl rfl
  · exact .inr rfl
  · exact .inl rfl

end Dgraphai.GraphApi
