import Dgraphai.Lib.PyJson
import Mathlib.Logic.Function.Basic
import Mathlib.Tactic.SplitIfs

/-!
# Property graphs and `MERGE`

Nodes with labels and properties, relationships between them, and the writing clauses of Cypher:
`merge` is `MERGE (n:label {key}) ON CREATE SET … ON MATCH SET …`, `mergeRel` is
`MATCH (a …) MATCH (b …) MERGE (a)-[r:type]->(b) SET r += props`. A property that is null is absent.
-/

namespace PropertyGraph

abbrev Props := String → Option Json

namespace Props

/-- The properties of `SET n = map`. -/
def ofMap (m : Json.Fields) : Props := fun k => (Json.field? m k).filter (· ≠ .null)

/-- `SET n.k = v`. -/
def set (p : Props) (k : String) (v : Json) : Props :=
  Function.update p k ((some v).filter (· ≠ .null))

/-- `SET n += map`. -/
def add (p : Props) (m : Json.Fields) : Props := fun k =>
  match Json.field? m k with
  | none => p k
  | some v => (some v).filter (· ≠ .null)

/-- `coalesce(n.k, [])` of a list property. -/
def items (p : Props) (k : String) : List Json :=
  match p k with
  | some (.arr l) => l
  | _ => []

/-- `SET n.k = CASE WHEN x IN coalesce(n.k, []) THEN n.k ELSE coalesce(n.k, []) + [x] END`. -/
def addItem (p : Props) (k : String) (x : Json) : Props :=
  if x ∈ p.items k then p else p.set k (.arr (p.items k ++ [x]))

theorem set_ne {p : Props} {k k' : String} {v : Json} (h : k' ≠ k) : p.set k v k' = p k' :=
  Function.update_of_ne h ..

theorem set_self {p : Props} {k : String} {v : Json} (h : v ≠ .null) : p.set k v k = some v := by
  rw [set, Function.update_self, Option.filter_some, if_pos (decide_eq_true h)]

theorem set_ofMap (m : Json.Fields) (k : String) (v : Json) : (ofMap m).set k v = ofMap (m ++ [(k, v)]) := by
  funext k'
  rw [ofMap, Json.field?_concat]
  split_ifs with h
  · rw [← h, set, Function.update_self]
  · exact set_ne (Ne.symm h)

theorem items_set {p : Props} {k : String} {l : List Json} : (p.set k (.arr l)).items k = l := by
  rw [items, set_self (by simp)]

theorem mem_items_addItem {p : Props} {k : String} {x y : Json} :
    y ∈ (p.addItem k x).items k ↔ y ∈ p.items k ∨ y = x := by
  unfold addItem
  split_ifs with hx
  · exact ⟨.inl, fun h => h.elim id fun hy => hy ▸ hx⟩
  · rw [items_set, List.mem_append, List.mem_singleton]

theorem addItem_ne {p : Props} {k k' : String} {x : Json} (h : k' ≠ k) : p.addItem k x k' = p k' := by
  unfold addItem
  split_ifs
  · rfl
  · exact set_ne h

theorem items_congr {p q : Props} {k : String} (h : p k = q k) : p.items k = q.items k := by
  rw [items, items, h]

end Props

structure Node where
  /-- The element id. -/
  eid : Nat
  labels : List String
  props : Props

structure Rel where
  type : String
  source : Nat
  target : Nat
  props : Props

structure Graph where
  nodes : List Node
  rels : List Rel
  nextEid : Nat

def empty : Graph := ⟨[], [], 0⟩

/-- Element ids are unique, and a relationship joins nodes of the graph. -/
structure Graph.Valid (g : Graph) : Prop where
  eids : (g.nodes.map (·.eid)).Nodup
  ends : ∀ e ∈ g.rels, e.source ∈ g.nodes.map (·.eid) ∧ e.target ∈ g.nodes.map (·.eid)

/-- The pattern `(n:label {key})`; without a label any node. -/
def Node.Matches (n : Node) (label : Option String) (key : Json.Fields) : Prop :=
  (∀ l ∈ label, l ∈ n.labels) ∧ ∀ kv ∈ key, n.props kv.1 = some kv.2

instance (n : Node) (label : Option String) (key : Json.Fields) : Decidable (n.Matches label key) :=
  inferInstanceAs (Decidable ((∀ l ∈ label, l ∈ n.labels) ∧ ∀ kv ∈ key, n.props kv.1 = some kv.2))

namespace Graph

variable {g : Graph} {label : String} {key : Json.Fields} {onCreate onMatch : Props → Props}

def matched (g : Graph) (label : Option String) (key : Json.Fields) : List Node :=
  g.nodes.filter (·.Matches label key)

/-- The node `MERGE` creates. -/
def created (g : Graph) (label : String) (key : Json.Fields) (onCreate : Props → Props) : Node :=
  ⟨g.nextEid, [label], onCreate (Props.ofMap key)⟩

def merge (g : Graph) (label : String) (key : Json.Fields) (onCreate onMatch : Props → Props) : Graph :=
  if g.matched (some label) key = [] then
    { g with nodes := g.nodes ++ [g.created label key onCreate], nextEid := g.nextEid + 1 }
  else
    { g with
      nodes := g.nodes.map fun n =>
        if n.Matches (some label) key then { n with props := onMatch n.props } else n }

/-- How many rows a `MERGE` of one row returns. -/
def mergedRows (g : Graph) (label : String) (key : Json.Fields) : Nat :=
  max 1 (g.matched (some label) key).length

/-- `MERGE (a)-[r:type]->(b) SET r += props` for one pair. -/
def mergeRel (g : Graph) (type : String) (props : Json.Fields) (source target : Nat) : Graph :=
  if g.rels.any (fun r => r.type = type ∧ r.source = source ∧ r.target = target) then
    { g with
      rels := g.rels.map fun r =>
        if r.type = type ∧ r.source = source ∧ r.target = target then { r with props := r.props.add props }
        else r }
  else { g with rels := g.rels ++ [⟨type, source, target, Props.ofMap props⟩] }

/-- `mergeRel` for all pairs of matched nodes. -/
def mergeRels (g : Graph) (type : String) (props source target : Json.Fields) : Graph :=
  let pairs := (g.matched none source).flatMap fun a => (g.matched none target).map fun b => (a.eid, b.eid)
  pairs.foldl (fun g p => g.mergeRel type props p.1 p.2) g

/-! ### What `MERGE` does to the nodes of a label -/

def labelled (g : Graph) (label : String) : List Node := g.nodes.filter (label ∈ ·.labels)

/-- The element ids in use are below the next one. -/
def FreshEid (g : Graph) : Prop := ∀ n ∈ g.nodes, n.eid < g.nextEid

theorem merge_of_matched_eq_nil (h : g.matched (some label) key = []) :
    g.merge label key onCreate onMatch =
      { g with nodes := g.nodes ++ [g.created label key onCreate], nextEid := g.nextEid + 1 } :=
  if_pos h

/-- Nothing matches where no node of the label has the value of a key property. -/
theorem matched_eq_nil {k : String} {v : Json} (hkey : (k, v) ∈ key)
    (h : ∀ n ∈ g.labelled label, n.props k ≠ some v) : g.matched (some label) key = [] := by
  refine List.filter_eq_nil_iff.2 fun n hn hmatch => ?_
  obtain ⟨hlabel, hprops⟩ := of_decide_eq_true hmatch
  have hmem : n ∈ g.labelled label := List.mem_filter.2 ⟨hn, decide_eq_true (hlabel label rfl)⟩
  exact h n hmem (hprops (k, v) hkey)

theorem labelled_merge_of_matched_eq_nil (h : g.matched (some label) key = []) :
    (g.merge label key onCreate onMatch).labelled label =
      g.labelled label ++ [g.created label key onCreate] := by
  rw [merge_of_matched_eq_nil h, labelled, labelled, List.filter_append]
  congr 1
  simp [created]

/-- A `MERGE` on another label leaves the nodes of a label as they are, if none of them has both. -/
theorem labelled_merge_of_ne {label' : String} (hne : label' ≠ label)
    (honly : ∀ n ∈ g.labelled label, label' ∉ n.labels) :
    (g.merge label' key onCreate onMatch).labelled label = g.labelled label := by
  unfold merge
  split_ifs with h
  · rw [labelled, labelled, List.filter_append]
    simp [created, hne.symm]
  · show (g.nodes.map _).filter _ = g.nodes.filter _
    have hkeep : ∀ n ∈ g.nodes, label ∈ n.labels → ¬ n.Matches (some label') key := by
      intro n hn hlabel hmatch
      exact honly n (List.mem_filter.2 ⟨hn, decide_eq_true hlabel⟩) (hmatch.1 label' rfl)
    rw [List.filter_map]
    have hcomp : (fun n : Node => decide (label ∈ n.labels)) ∘ (fun n : Node =>
        if n.Matches (some label') key then { n with props := onMatch n.props } else n) =
        fun n => decide (label ∈ n.labels) := by
      funext n
      simp only [Function.comp]
      split_ifs <;> rfl
    rw [hcomp]
    refine (List.map_congr_left fun n hn => ?_).trans (List.map_id _)
    obtain ⟨hn, hlabel⟩ := List.mem_filter.1 hn
    exact if_neg (hkeep n hn (of_decide_eq_true hlabel))

theorem FreshEid.merge (h : g.FreshEid) : (g.merge label key onCreate onMatch).FreshEid := by
  unfold Graph.merge
  split_ifs with hmatch
  · intro n hn
    show n.eid < g.nextEid + 1
    rcases List.mem_append.1 hn with hn | hn
    · have := h n hn
      omega
    · obtain rfl := List.mem_singleton.1 hn
      show g.nextEid < g.nextEid + 1
      omega
  · intro n hn
    obtain ⟨m, hm, rfl⟩ := List.mem_map.1 hn
    show _ < g.nextEid
    have := h m hm
    split_ifs <;> exact this

/-- A node survives a `MERGE`, with its properties updated where it matches. -/
theorem mem_merge_of_mem {n : Node} (h : n ∈ g.nodes) :
    ∃ n' ∈ (g.merge label key onCreate onMatch).nodes, n' = n ∨ n' = { n with props := onMatch n.props } := by
  unfold merge
  split_ifs with hmatch
  · exact ⟨n, List.mem_append_left _ h, .inl rfl⟩
  · refine ⟨_, List.mem_map_of_mem h, ?_⟩
    split_ifs
    · exact .inr rfl
    · exact .inl rfl

variable (g label key onCreate onMatch) in
/-- After a `MERGE` there is the node it created, or an updated node that matched. -/
theorem exists_merged : (g.created label key onCreate) ∈ (g.merge label key onCreate onMatch).nodes ∨
    ∃ n : Node, n.Matches (some label) key ∧ { n with props := onMatch n.props } ∈
      (g.merge label key onCreate onMatch).nodes := by
  unfold merge
  split_ifs with hmatch
  · exact .inl (List.mem_append_right _ (List.mem_singleton_self _))
  · obtain ⟨n, hn⟩ := List.exists_mem_of_ne_nil _ hmatch
    obtain ⟨hn, hkey⟩ := List.mem_filter.1 hn
    have hkey := of_decide_eq_true hkey
    exact .inr ⟨n, hkey, List.mem_map.2 ⟨n, hn, if_pos hkey⟩⟩

theorem nextEid_le_merge : g.nextEid ≤ (g.merge label key onCreate onMatch).nextEid := by
  unfold merge
  split_ifs
  · exact Nat.le_succ g.nextEid
  · exact Nat.le_refl g.nextEid

theorem nodes_mergeRel (type : String) (props : Json.Fields) (source target : Nat) :
    (g.mergeRel type props source target).nodes = g.nodes ∧
      (g.mergeRel type props source target).nextEid = g.nextEid := by
  unfold mergeRel
  split_ifs <;> exact ⟨rfl, rfl⟩

theorem nodes_mergeRels (type : String) (props source target : Json.Fields) :
    (g.mergeRels type props source target).nodes = g.nodes ∧
      (g.mergeRels type props source target).nextEid = g.nextEid := by
  unfold mergeRels
  generalize (g.matched none source).flatMap _ = pairs
  induction pairs generalizing g with
  | nil => exact ⟨rfl, rfl⟩
  | cons p pairs ih =>
    have hone := nodes_mergeRel (g := g) type props p.1 p.2
    have hrest := ih (g := g.mergeRel type props p.1 p.2)
    exact ⟨hrest.1.trans hone.1, hrest.2.trans hone.2⟩

end Graph

end PropertyGraph
