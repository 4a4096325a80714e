import Dgraphai.GraphApi
import Dgraphai.Lib.CypherRestrict

/-!
# What the graph API shows of other tenants

Two graphs that agree on the caller's nodes and the relationships between them (`Agree`) get the same answer only
where the request itself names nothing of another tenant (`request_isolated_iff`): the routes do not scope what they send,
and `stats` counts the relationships that leave the caller's nodes. A request that is not told the caller and is
isolated for two of them has the answer of the empty graph (`answer_of_two_tenants`).
-/

namespace Dgraphai.GraphApi

open Auth (HttpError serverError)
open PropertyGraph (Graph Node Props Rel)
open SyncText (own own_iff)

variable {σ : Type}

/-- The caller's nodes and the relationships between them are the same. -/
def Agree (tenantID : String) (g g' : Graph) : Prop := g.restrict (own tenantID) = g'.restrict (own tenantID)

/-- The nodes of another tenant. -/
def foreign (tenantID : String) (n : Node) : Bool :=
  match n.props "tenant_id" with
  | some (.str owner) => owner != tenantID
  | _ => false

structure Isolated (D : Database σ) (tenantID : String) (r : Request) : Prop where
  answer : ∀ repr outage (g g' : Graph), g.Valid → g'.Valid → Agree tenantID g g' →
    (respond D outage repr tenantID r g).1 = (respond D outage repr tenantID r g').1
  others : ∀ repr outage (g : Graph), g.Valid →
    (respond D outage repr tenantID r g).2.nodes.filter (foreign tenantID) = g.nodes.filter (foreign tenantID)

/-! ### The condition -/

/-- A text from outside keeps to the tenant by itself, as far as its rows are shown. -/
structure Keeps (D : Database σ) (tenantID cypher : String) (params : PyDict String Json)
    (shown : Except String (List (Row σ)) → Except HttpError (Answer σ)) : Prop where
  answer : ∀ g g' : Graph, g.Valid → g'.Valid → Agree tenantID g g' →
    shown (query D (fun _ => none) cypher params g).1 = shown (query D (fun _ => none) cypher params g').1
  others : ∀ g : Graph, g.Valid →
    (query D (fun _ => none) cypher params g).2.nodes.filter (foreign tenantID) = g.nodes.filter (foreign tenantID)

/-- A node makes a difference to the search: it is found, or is an error. -/
def Reaches (D : Database σ) (req : SearchRequest) (n : Node) : Prop :=
  D.refuses req n = true ∨ 0 < req.limit ∧ meets D req n = true

def Scoped (D : Database σ) (tenantID : String) : Request → Prop
  | .stats | .node _ | .neighbors _ => False
  | .query req => Keeps D tenantID req.cypher req.params queryAnswer
  | .search req =>
    if req.Plain then req.limit < 0 ∨ ∀ n, Reaches D req n → own tenantID n = true
    else Keeps D tenantID req.text req.params searchAnswer

/-- The number of relationships from the caller's nodes to others. -/
def leaving (tenantID : String) (g : Graph) : Nat :=
  (g.rels.filter fun r => (g.nodes.filter (own tenantID)).any (fun a => a.eid = r.source) &&
    !(g.nodes.filter (own tenantID)).any fun b => b.eid = r.target).length

variable {D : Database σ} {outage : Outage} {repr : String → String} {tenantID : String} {g g' : Graph}

/-! ### Graphs without a node of the caller -/

theorem agree_of_not_own (h : ∀ n ∈ g.nodes, own tenantID n = false) (h' : ∀ n ∈ g'.nodes, own tenantID n = false) :
    Agree tenantID g g' :=
  (PropertyGraph.Graph.restrict_eq_empty h).trans (PropertyGraph.Graph.restrict_eq_empty h').symm

theorem valid_empty : PropertyGraph.empty.Valid := ⟨List.nodup_nil, fun _ h => absurd h List.not_mem_nil⟩

/-- The graph with one node. -/
def single (n : Node) : Graph := ⟨[n], [], 0⟩

theorem valid_single (n : Node) : (single n).Valid := ⟨List.nodup_singleton _, fun _ h => absurd h List.not_mem_nil⟩

theorem agree_empty_single {n : Node} (h : own tenantID n = false) : Agree tenantID PropertyGraph.empty (single n) :=
  agree_of_not_own (fun _ hn => absurd hn List.not_mem_nil) fun m hm => by rw [List.mem_singleton.1 hm, h]

/-- A node of another tenant. -/
def stranger (tenantID nodeID : String) (eid : Nat) : Node :=
  ⟨eid, ["File"], Props.ofMap [("id", .str nodeID), ("tenant_id", .str (tenantID ++ "'"))]⟩

theorem own_stranger (tenantID nodeID : String) (eid : Nat) : own tenantID (stranger tenantID nodeID eid) = false := by
  refine eq_false_of_ne_true fun h => ?_
  have heq : some (Json.str (tenantID ++ "'")) = some (.str tenantID) := own_iff.1 h
  have hlength := congrArg String.length (Json.str.inj (Option.some.inj heq))
  rw [String.length_append] at hlength
  have hquote : "'".length = 1 := rfl
  omega

theorem Database.order_singleton (D : Database σ) {α : Type} (a : α) : D.order [a] = [a] :=
  List.perm_singleton.1 (D.order_perm [a])

theorem Database.order_nil (D : Database σ) {α : Type} : D.order ([] : List α) = [] :=
  List.perm_nil.1 (D.order_perm [])

/-! ### `stats` -/

theorem stats_relationships (tenantID : Option String) (g : Graph) :
    (stats D (fun _ => none) tenantID g).get? "relationships" = some (relationshipRows tenantID g).length :=
  PyDict.get?_set_self _ _ _

theorem inScope_some (h : tenantID ≠ "") : inScope (some tenantID) = own tenantID := by
  funext n
  rw [inScope, Option.filter_some, if_pos (decide_eq_true h)]
  rfl

theorem relationshipRows_length (h : tenantID ≠ "") (g : Graph) :
    (relationshipRows (some tenantID) g).length = (g.restrict (own tenantID)).rels.length + leaving tenantID g := by
  rw [relationshipRows, inScope_some h, List.length_eq_length_filter_add (fun r : Rel =>
    (g.nodes.filter (own tenantID)).any fun b => b.eid = r.target), List.filter_filter, List.filter_filter]
  congr 2
  · exact List.filter_congr fun r _ => Bool.and_comm _ _
  · exact List.filter_congr fun r _ => Bool.and_comm _ _

theorem labelRows_congr (h : tenantID ≠ "") (hagree : Agree tenantID g g') :
    labelRows (some tenantID) g = labelRows (some tenantID) g' := by
  have hnodes : g.nodes.filter (own tenantID) = g'.nodes.filter (own tenantID) := congrArg Graph.nodes hagree
  rw [labelRows, labelRows, inScope_some h, hnodes]

theorem stats_eq_iff (h : tenantID ≠ "") (hagree : Agree tenantID g g') :
    (respond D (fun _ => none) repr tenantID .stats g).1 = (respond D (fun _ => none) repr tenantID .stats g').1 ↔
      leaving tenantID g = leaving tenantID g' := by
  have hrels : (g.restrict (own tenantID)).rels.length = (g'.restrict (own tenantID)).rels.length :=
    congrArg (fun k : Graph => k.rels.length) hagree
  have hlength := relationshipRows_length h g
  have hlength' := relationshipRows_length h g'
  constructor
  · intro heq
    have hcounts : stats D (fun _ => none) (some tenantID) g = stats D (fun _ => none) (some tenantID) g' :=
      Answer.counts.inj (Except.ok.inj heq)
    have hcount := congrArg (fun d : PyDict String Nat => d.get? "relationships") hcounts
    rw [stats_relationships, stats_relationships, Option.some.injEq] at hcount
    omega
  · intro heq
    have hcount : (relationshipRows (some tenantID) g).length = (relationshipRows (some tenantID) g').length := by omega
    rw [respond, respond, stats, stats, hcount, labelRows_congr h hagree]

/-- A node of the caller. -/
def callerNode (tenantID : String) : Node := ⟨0, ["File"], Props.ofMap [("tenant_id", .str tenantID)]⟩

def tie : Rel := ⟨"CHILD_OF", 0, 1, fun _ => none⟩

/-- A relationship from the caller's node to one of another tenant. -/
def tied (tenantID : String) : Graph := ⟨[callerNode tenantID, stranger tenantID "" 1], [tie], 2⟩

theorem valid_of_tie {a b : Node} (ha : a.eid = 0) (hb : b.eid = 1) (k : Nat) :
    (⟨[a, b], [tie], k⟩ : PropertyGraph.Graph).Valid := by
  refine ⟨?_, fun r hr => ?_⟩
  · show [a.eid, b.eid].Nodup
    rw [ha, hb]
    decide
  · rw [List.mem_singleton.1 hr]
    exact ⟨List.mem_map.2 ⟨a, List.mem_cons_self, ha⟩,
      List.mem_map.2 ⟨b, List.mem_cons_of_mem _ List.mem_cons_self, hb⟩⟩

theorem own_callerNode (tenantID : String) : own tenantID (callerNode tenantID) = true := own_iff.2 rfl

theorem agree_callerNode (tenantID : String) {rels : List Rel} (h : ∀ r ∈ rels, r.target = 1) (k : Nat) :
    Agree tenantID (single (callerNode tenantID)) ⟨[callerNode tenantID, stranger tenantID "" 1], rels, k⟩ := by
  have hsingle : [callerNode tenantID].filter (own tenantID) = [callerNode tenantID] :=
    List.filter_cons_of_pos (own_callerNode tenantID)
  have hnodes : [callerNode tenantID, stranger tenantID "" 1].filter (own tenantID) = [callerNode tenantID] := by
    have hother := Bool.eq_false_iff.1 (own_stranger tenantID "" 1)
    rw [List.filter_cons_of_pos (own_callerNode tenantID), List.filter_cons_of_neg hother]
    rfl
  rw [Agree, PropertyGraph.Graph.restrict, PropertyGraph.Graph.restrict, single, hnodes, hsingle]
  refine congrArg (fun rels => (⟨[callerNode tenantID], rels, 0⟩ : PropertyGraph.Graph)) ?_
  refine (List.filter_eq_nil_iff.2 fun r hr hends => ?_).symm
  obtain ⟨n, hn, htarget⟩ := List.any_eq_true.1 (Bool.and_eq_true_iff.1 hends).2
  rw [List.mem_singleton.1 hn, h r hr] at htarget
  exact Nat.zero_ne_one (of_decide_eq_true htarget)

theorem not_isolated_stats (D : Database σ) (tenantID : String) : ¬ Isolated D tenantID .stats := by
  intro h
  have hvalid : (tied tenantID).Valid := valid_of_tie rfl rfl 2
  have hagree : Agree tenantID (single (callerNode tenantID)) (tied tenantID) :=
    agree_callerNode tenantID (fun r hr => by rw [List.mem_singleton.1 hr]; rfl) 2
  have heq := h.answer id (fun _ => none) _ _ (valid_single _) hvalid hagree
  have hcounts : stats D (fun _ => none) (some tenantID) (single (callerNode tenantID)) =
      stats D (fun _ => none) (some tenantID) (tied tenantID) := Answer.counts.inj (Except.ok.inj heq)
  have hcount := congrArg (fun d : PyDict String Nat => d.get? "relationships") hcounts
  have hscope : inScope (some tenantID) (callerNode tenantID) = true := by
    by_cases htenant : tenantID = ""
    · rw [htenant]
      rfl
    · rw [inScope_some htenant, own_callerNode]
  have htied : relationshipRows (some tenantID) (tied tenantID) = [tie] := by
    refine List.filter_cons_of_pos (List.any_eq_true.2 ⟨callerNode tenantID, ?_, decide_eq_true rfl⟩)
    exact List.mem_filter.2 ⟨List.mem_cons_self, hscope⟩
  rw [stats_relationships, stats_relationships, htied] at hcount
  nomatch hcount

/-! ### `get_node` -/

theorem stranger_matches (tenantID nodeID : String) (eid : Nat) :
    (stranger tenantID nodeID eid).Matches none [("id", .str nodeID)] := by
  refine ⟨fun _ h => (nomatch h), fun kv hkv => ?_⟩
  rw [List.mem_singleton.1 hkv]
  rfl

theorem withId_single : withId (single (stranger tenantID nodeID 0)) nodeID = [stranger tenantID nodeID 0] :=
  List.filter_eq_self.2 fun n hn => decide_eq_true (by rw [List.mem_singleton.1 hn]; exact stranger_matches ..)

theorem not_isolated_node (D : Database σ) (tenantID nodeID : String) : ¬ Isolated D tenantID (.node nodeID) := by
  intro h
  have hagree := agree_empty_single (own_stranger tenantID nodeID 0)
  have heq := h.answer id (fun _ => none) _ _ valid_empty (valid_single _) hagree
  have hempty : getNode D (fun _ => none) nodeID PropertyGraph.empty = .ok none := by
    show Except.ok (D.order []).head? = _
    rw [D.order_nil]
    rfl
  have hsingle : getNode D (fun _ => none) nodeID (single (stranger tenantID nodeID 0)) =
      .ok (some (serializeNode D (stranger tenantID nodeID 0), ["File"])) := by
    rw [getNode, withId_single, List.map_singleton, D.order_singleton]
    rfl
  rw [respond, respond, hempty, hsingle] at heq
  nomatch heq

/-! ### `get_neighbors` -/

theorem rels_ne_nil {p : Path} {nodeID : String} {depth : Nat} (h : p ∈ paths nodeID depth g) : p.rels ≠ [] := by
  obtain ⟨n, -, h⟩ := List.mem_flatMap.1 h
  obtain ⟨k, hk, h⟩ := List.mem_flatMap.1 h
  obtain ⟨walk, hwalk, rfl⟩ := List.mem_map.1 (List.mem_of_mem_filter h)
  obtain ⟨j, rfl⟩ : ∃ j, k = j + 1 := ⟨k - 1, by have := List.mem_range'_1.1 hk; omega⟩
  obtain ⟨hop, -, hrest⟩ := List.mem_flatMap.1 hwalk
  obtain ⟨rest, -, rfl⟩ := List.mem_map.1 hrest
  exact List.cons_ne_nil _ _

/-- The first row has the nodes of the first path. -/
theorem edgeRows_cons {p : Path} (h : p.rels ≠ []) (ps : List Path) :
    ∃ n nodes edges rows, edgeRows D g (nodeRows D (p :: ps)) = (n :: nodes, edges) :: rows := by
  obtain ⟨r, rels, hrels⟩ := List.exists_cons_of_ne_nil h
  have hnodes : ∃ n nodes rows, nodeRows D (p :: ps) = (n :: nodes, r :: rels) :: rows := by
    have hfilter : (p :: ps).filter (fun q => decide (q.relIds = p.relIds)) =
        p :: ps.filter fun q => decide (q.relIds = p.relIds) := List.filter_cons_of_pos (decide_eq_true rfl)
    rw [nodeRows, List.eraseDupsBy_cons, List.map_cons, hfilter, List.flatMap_cons, Path.nodes, List.map_cons,
      List.cons_append, List.eraseDupsBy_cons, hrels]
    exact ⟨_, _, _, rfl⟩
  obtain ⟨n, nodes, rows, hnodes⟩ := hnodes
  rw [hnodes, edgeRows, List.flatMap_cons, List.map_cons, List.cons_append, List.eraseDupsBy_cons, List.map_cons]
  exact ⟨n, nodes, _, _, rfl⟩

/-- Two nodes of another tenant with a relationship between them. -/
def strangers (tenantID nodeID : String) : Graph :=
  ⟨[stranger tenantID nodeID 0, stranger tenantID nodeID 1], [tie], 2⟩

theorem hop_mem_strangers (tenantID nodeID : String) :
    ((tie, 0), stranger tenantID nodeID 1) ∈ hops (strangers tenantID nodeID) (stranger tenantID nodeID 0) := by
  refine List.mem_flatMap.2 ⟨(tie, 0), List.mem_singleton_self _, ?_⟩
  refine List.mem_map.2 ⟨stranger tenantID nodeID 1, List.mem_filter.2 ⟨?_, ?_⟩, rfl⟩
  · exact List.mem_cons_of_mem _ List.mem_cons_self
  · exact decide_eq_true (.inl ⟨rfl, rfl⟩)

theorem path_mem_strangers {nodeID : String} {depth : Nat} (h : 1 ≤ depth) :
    (stranger tenantID nodeID 0, [((tie, 0), stranger tenantID nodeID 1)]) ∈
      paths nodeID depth (strangers tenantID nodeID) := by
  have hid : stranger tenantID nodeID 0 ∈ withId (strangers tenantID nodeID) nodeID :=
    List.mem_filter.2 ⟨List.mem_cons_self, decide_eq_true (stranger_matches tenantID nodeID 0)⟩
  have hwalk : [((tie, 0), stranger tenantID nodeID 1)] ∈
      walks (strangers tenantID nodeID) 1 (stranger tenantID nodeID 0) :=
    List.mem_flatMap.2 ⟨_, hop_mem_strangers tenantID nodeID, List.mem_singleton_self _⟩
  refine List.mem_flatMap.2 ⟨_, hid, List.mem_flatMap.2 ⟨1, List.mem_range'_1.2 (by omega), ?_⟩⟩
  exact List.mem_filter.2 ⟨List.mem_map.2 ⟨_, hwalk, rfl⟩, decide_eq_true (List.nodup_singleton 0)⟩

theorem not_isolated_neighbors (D : Database σ) (tenantID : String) (req : NeighborsRequest) :
    ¬ Isolated D tenantID (.neighbors req) := by
  intro h
  have hagree : Agree tenantID PropertyGraph.empty (strangers tenantID req.nodeID) := by
    refine agree_of_not_own (fun _ hn => absurd hn List.not_mem_nil) fun n hn => ?_
    rcases List.mem_cons.1 hn with rfl | hn
    · exact own_stranger tenantID req.nodeID 0
    · rw [List.mem_singleton.1 hn]
      exact own_stranger tenantID req.nodeID 1
  have hvalid : (strangers tenantID req.nodeID).Valid := valid_of_tie rfl rfl 2
  have heq := h.answer id (fun _ => none) _ _ valid_empty hvalid hagree
  have hempty : getNeighbors D (fun _ => none) req PropertyGraph.empty = .ok ([], []) := by
    show Except.ok (((edgeRows D _ (nodeRows D (D.order []))).take req.limit).head?.getD ([], [])) = _
    rw [D.order_nil]
    show Except.ok ((List.take req.limit []).head?.getD ([], [])) = _
    rw [List.take_nil]
    rfl
  have hstrangers : ∃ n nodes edges, getNeighbors D (fun _ => none) req (strangers tenantID req.nodeID) =
      .ok (n :: nodes, edges) := by
    have hperm := D.order_perm (paths req.nodeID req.depth (strangers tenantID req.nodeID))
    have hmem := hperm.mem_iff.2 (path_mem_strangers req.depth_range.1)
    obtain ⟨p, ps, hps⟩ := List.exists_cons_of_ne_nil (List.ne_nil_of_mem hmem)
    have hp : p ∈ paths req.nodeID req.depth (strangers tenantID req.nodeID) :=
      hperm.mem_iff.1 (by rw [hps]; exact List.mem_cons_self)
    obtain ⟨n, nodes, edges, rows, hrows⟩ :=
      edgeRows_cons (D := D) (g := strangers tenantID req.nodeID) (rels_ne_nil hp) ps
    obtain ⟨l, hl⟩ : ∃ l, req.limit = l + 1 := ⟨req.limit - 1, by have := req.limit_range; omega⟩
    refine ⟨n, nodes, edges, ?_⟩
    rw [getNeighbors, hps, hrows, hl, List.take_succ_cons]
    rfl
  obtain ⟨n, nodes, edges, hstrangers⟩ := hstrangers
  rw [respond, respond, hempty, hstrangers] at heq
  nomatch heq

/-! ### `search` over plain names -/

theorem filter_nodes_congr {q : Node → Bool} (h : ∀ n, q n = true → own tenantID n = true)
    (hagree : Agree tenantID g g') : g.nodes.filter q = g'.nodes.filter q := by
  rw [← PropertyGraph.Graph.filter_nodes_restrict h, ← PropertyGraph.Graph.filter_nodes_restrict (g := g') h, hagree]

theorem searchRows_congr {req : SearchRequest} (h : ∀ n, Reaches D req n → own tenantID n = true)
    (hagree : Agree tenantID g g') : searchRows D req g = searchRows D req g' := by
  have hany : ∀ k : Graph, k.nodes.any (D.refuses req) = (k.nodes.filter (D.refuses req)).any (D.refuses req) := by
    intro k
    rw [List.any_filter]
    simp only [Bool.and_self]
  have hrefuses : g.nodes.any (D.refuses req) = g'.nodes.any (D.refuses req) := by
    rw [hany, hany, filter_nodes_congr (fun n hn => h n (.inl hn)) hagree]
  unfold searchRows
  rw [hrefuses]
  by_cases hlimit : 0 < req.limit
  · rw [foundRows, foundRows, filter_nodes_congr (fun n hn => h n (.inr ⟨hlimit, hn⟩)) hagree]
  · have hzero : req.limit.toNat = 0 := by omega
    rw [hzero, List.take_zero, List.take_zero]

theorem searchRows_empty {req : SearchRequest} (h : ¬ req.limit < 0) :
    searchRows D req PropertyGraph.empty = some [] := by
  have herror : ¬ (req.limit < 0 ∨ PropertyGraph.empty.nodes.any (D.refuses req) = true) := fun hor =>
    hor.elim h Bool.false_ne_true
  rw [searchRows, if_neg herror]
  show some (((D.order []).mergeSort _).take _) = _
  rw [D.order_nil, List.mergeSort_nil, List.take_nil]

theorem searchRows_single {req : SearchRequest} {n : Node} (hreach : Reaches D req n) :
    searchRows D req (single n) ≠ some [] := by
  unfold searchRows
  split_ifs with herror
  · exact fun heq => nomatch heq
  · have hrefuses : D.refuses req n ≠ true := fun hn =>
      herror (.inr (List.any_eq_true.2 ⟨n, List.mem_singleton_self n, hn⟩))
    obtain ⟨hlimit, hmeets⟩ := hreach.resolve_left hrefuses
    obtain ⟨l, hl⟩ : ∃ l, req.limit.toNat = l + 1 := ⟨req.limit.toNat - 1, by omega⟩
    have hnodes : (single n).nodes.filter (meets D req) = [n] := List.filter_cons_of_pos hmeets
    rw [foundRows, hnodes, List.map_singleton, D.order_singleton, List.mergeSort_singleton, hl, List.take_succ_cons]
    exact fun heq => List.cons_ne_nil _ _ (Option.some.inj heq)

theorem respond_search {req : SearchRequest} (h : req.Plain) (g : Graph) :
    respond D outage repr tenantID (.search req) g = ((match rowsUnless (outage 0) (searchRows D req g) with
      | .ok (some rows) => .ok (.found rows)
      | .ok none | .error _ => .error serverError), g) := if_pos h

theorem isolated_search_iff {req : SearchRequest} (hplain : req.Plain) : Isolated D tenantID (.search req) ↔
    req.limit < 0 ∨ ∀ n, Reaches D req n → own tenantID n = true := by
  constructor
  · intro h
    by_cases hlimit : req.limit < 0
    · exact .inl hlimit
    refine .inr fun n hreach => ?_
    by_contra hown
    have hagree := agree_empty_single (Bool.eq_false_iff.2 hown)
    have heq := h.answer id (fun _ => none) _ _ valid_empty (valid_single n) hagree
    rw [respond_search hplain, respond_search hplain, searchRows_empty hlimit] at heq
    have hne := searchRows_single hreach
    cases hrows : searchRows D req (single n) with
    | none =>
      rw [hrows] at heq
      nomatch heq
    | some rows =>
      rw [hrows] at heq
      have hnil : [] = rows := Answer.found.inj (Except.ok.inj heq)
      exact hne (hrows.trans (congrArg some hnil.symm))
  · intro h
    have hrows : ∀ g g' : Graph, Agree tenantID g g' → searchRows D req g = searchRows D req g' := by
      intro g g' hagree
      rcases h with hlimit | h
      · rw [searchRows, searchRows, if_pos (.inl hlimit), if_pos (.inl hlimit)]
      · exact searchRows_congr h hagree
    refine ⟨fun repr outage g g' _ _ hagree => ?_, fun repr outage g _ => ?_⟩
    · rw [respond_search hplain, respond_search hplain, hrows g g' hagree]
    · rw [respond_search hplain]

/-! ### Texts from outside -/

theorem isolated_raw_iff {r : Request} {cypher : String} {params : PyDict String Json}
    {shown : Except String (List (Row σ)) → Except HttpError (Answer σ)}
    (h : ∀ outage repr g, respond D outage repr tenantID r g =
      (shown (query D outage cypher params g).1, (query D outage cypher params g).2)) :
    Isolated D tenantID r ↔ Keeps D tenantID cypher params shown := by
  constructor
  · intro hr
    refine ⟨fun g g' hg hg' hagree => ?_, fun g hg => ?_⟩
    · have heq := hr.answer id (fun _ => none) g g' hg hg' hagree
      rw [h, h] at heq
      exact heq
    · have heq := hr.others id (fun _ => none) g hg
      rw [h] at heq
      exact heq
  · intro hkeeps
    -- a statement that raises before it runs
    have hraise : ∀ (outage : Outage) e (g : Graph), outage 0 = some e →
        query D outage cypher params g = (.error e, g) := by
      intro outage e g he
      rw [query, he]
    have hrun : ∀ (outage : Outage) (g : Graph), outage 0 = none →
        query D outage cypher params g = query D (fun _ => none) cypher params g := by
      intro outage g he
      rw [query, query, he]
    refine ⟨fun repr outage g g' hg hg' hagree => ?_, fun repr outage g hg => ?_⟩
    · rw [h, h]
      cases he : outage 0 with
      | some e => rw [hraise outage e g he, hraise outage e g' he]
      | none =>
        rw [hrun outage g he, hrun outage g' he]
        exact hkeeps.answer g g' hg hg' hagree
    · rw [h]
      cases he : outage 0 with
      | some e => rw [hraise outage e g he]
      | none =>
        rw [hrun outage g he]
        exact hkeeps.others g hg

theorem isolated_iff_scoped (D : Database σ) (tenantID : String) (r : Request) :
    Isolated D tenantID r ↔ Scoped D tenantID r := by
  cases r with
  | stats => exact iff_of_false (not_isolated_stats D tenantID) id
  | node nodeID => exact iff_of_false (not_isolated_node D tenantID nodeID) id
  | neighbors req => exact iff_of_false (not_isolated_neighbors D tenantID req) id
  | query req => exact isolated_raw_iff fun _ _ _ => rfl
  | search req =>
    rw [Scoped]
    split_ifs with hplain
    · exact isolated_search_iff hplain
    · exact isolated_raw_iff fun _ _ _ => if_neg hplain

/-- For every request, and for `stats` also for every two graphs. -/
theorem request_isolated_iff (D : Database σ) (tenantID : String) : (∀ r, Isolated D tenantID r ↔ Scoped D tenantID r) ∧
    ∀ repr (g g' : Graph), tenantID ≠ "" → Agree tenantID g g' →
      ((respond D (fun _ => none) repr tenantID .stats g).1 = (respond D (fun _ => none) repr tenantID .stats g').1 ↔
        leaving tenantID g = leaving tenantID g') :=
  ⟨isolated_iff_scoped D tenantID, fun _ _ _ htenant hagree => stats_eq_iff htenant hagree⟩

/-- A database whose rows come in the order of the graph. -/
noncomputable def plainDb : Database ℕ where
  literal _ := none
  compare _ _ _ := none
  accepts _ _ := false
  other _ _ _ _ := none
  order := id
  order_perm _ := .refl _
  elementId eid := "4:" ++ toString eid
  sameProps p q := @decide (p = q) (Classical.propDecidable _)
  sameProps_iff _ _ := @decide_eq_true_iff _ (Classical.propDecidable _)
  lower s := String.ofList (s.toList.map Char.toLower)
  refuses _ _ := false
  before _ _ := true
  session _ _ g := (.ok [], g)

/-- `stats` over the caller's file, without and with an unrelated file of another tenant. -/
theorem stats_unrelated :
    (respond plainDb (fun _ => none) id "acme" .stats (single (callerNode "acme"))).1 =
      (respond plainDb (fun _ => none) id "acme" .stats ⟨[callerNode "acme", stranger "acme" "" 1], [], 2⟩).1 :=
  have hagree := agree_callerNode "acme" (fun _ h => absurd h List.not_mem_nil) 2
  ((request_isolated_iff plainDb "acme").2 id _ _ (by decide) hagree).2 rfl

/-- A node of another tenant by its id. -/
theorem document_not_isolated : ¬ Isolated plainDb "acme" (.node "doc") := not_isolated_node plainDb "acme" "doc"

/-! ### Two callers -/

theorem respond_congr {r : Request} (h : r ≠ .stats) (tenantID tenantID' : String) (g : Graph) :
    respond D outage repr tenantID r g = respond D outage repr tenantID' r g := by
  cases r with
  | stats => exact absurd rfl h
  | _ => rfl

/-- What is isolated without being told the caller says nothing about the graph. -/
theorem answer_of_two_tenants {r : Request} {tenantID' : String} (hr : r ≠ .stats) (hne : tenantID ≠ tenantID')
    (h : Isolated D tenantID r) (h' : Isolated D tenantID' r) (hg : g.Valid) :
    (respond D outage repr tenantID r g).1 = (respond D outage repr tenantID r PropertyGraph.empty).1 := by
  have hown : Agree tenantID g (g.restrict (own tenantID)) := PropertyGraph.Graph.restrict_restrict.symm
  have hother : Agree tenantID' (g.restrict (own tenantID)) PropertyGraph.empty := by
    refine agree_of_not_own (fun n hn => eq_false_of_ne_true fun hn' => hne ?_) fun _ hn => absurd hn List.not_mem_nil
    have htenant := own_iff.1 (List.mem_filter.1 hn).2
    exact Json.str.inj (Option.some.inj (htenant.symm.trans (own_iff.1 hn')))
  have hpart := h.answer repr outage g _ hg hg.restrict hown
  have hempty := h'.answer repr outage _ _ hg.restrict valid_empty hother
  rw [respond_congr hr tenantID' tenantID, respond_congr hr tenantID' tenantID] at hempty
  exact hpart.trans hempty

end Dgraphai.GraphApi
