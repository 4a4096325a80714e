import Dgraphai.Lib.GraphPart

/-!
# Paths of a property graph

A path steps over relationships in either direction. Where every relationship joins two nodes of one colour
(`Coloured`), the nodes of a path have the colour of the first (`Coloured.walks`). `MERGE` keeps that if it
keeps the colours of the nodes it matches and joins nodes of one colour.
-/

namespace PropertyGraph
namespace Graph

/-- A relationship from a node, and the node at its other end. -/
def steps (g : Graph) (a : Node) : List (Rel × Node) :=
  g.rels.flatMap fun r =>
    (g.nodes.filter fun b => r.source = a.eid ∧ r.target = b.eid ∨ r.target = a.eid ∧ r.source = b.eid).map fun b => (r, b)

/-- The steps over `k` relationships, one after another. -/
def walks (g : Graph) : Nat → Node → List (List (Rel × Node))
  | 0, _ => [[]]
  | k + 1, a => (g.steps a).flatMap fun s => (g.walks k s.2).map (s :: ·)

def lastNode (a : Node) (walk : List (Rel × Node)) : Node := (walk.getLast?.map (·.2)).getD a

/-- The nodes within `k` steps. -/
def within (g : Graph) : Nat → Node → List Node
  | 0, a => [a]
  | k + 1, a => a :: (g.steps a).flatMap fun s => g.within k s.2

/-- `allShortestPaths((a)-[*1..maxHops]-(b))` of different nodes. The shortest walks take no relationship twice. -/
def allShortestPaths (g : Graph) (maxHops : Nat) (a b : Node) : List (List (Rel × Node)) :=
  (((List.range' 1 maxHops).map fun k => (g.walks k a).filter fun walk => (lastNode a walk).eid = b.eid).find?
    fun walks => !walks.isEmpty).getD []

/-- `MATCH (a …) MATCH (b …) MERGE (a)-[:type]->(b)`. -/
def mergeBetween (g : Graph) (type : String) (as bs : List Node) : Graph :=
  (as.flatMap fun a => bs.map fun b => (a.eid, b.eid)).foldl (fun g q => g.mergeRel type [] q.1 q.2) g

/-- Every relationship joins two nodes of one colour. -/
def Coloured {α : Type*} (g : Graph) (colour : Node → Option α) : Prop :=
  ∀ r ∈ g.rels, ∃ c, ∃ a ∈ g.nodes, ∃ b ∈ g.nodes, (a.eid = r.source ∧ colour a = some c) ∧ b.eid = r.target ∧ colour b = some c

variable {α : Type*} {colour : Node → Option α} {g : Graph} {label type : String} {key props source target : Json.Fields}
  {onCreate onMatch : Props → Props} {a b : Node} {c : α} {k : Nat}

/-! ### Paths -/

theorem mem_steps {s : Rel × Node} : s ∈ g.steps a ↔ s.1 ∈ g.rels ∧ s.2 ∈ g.nodes ∧
    (s.1.source = a.eid ∧ s.1.target = s.2.eid ∨ s.1.target = a.eid ∧ s.1.source = s.2.eid) := by
  constructor
  · intro h
    obtain ⟨r, hr, h⟩ := List.mem_flatMap.1 h
    obtain ⟨b, hb, rfl⟩ := List.mem_map.1 h
    obtain ⟨hb, hends⟩ := List.mem_filter.1 hb
    exact ⟨hr, hb, of_decide_eq_true hends⟩
  · rintro ⟨hr, hb, hends⟩
    exact List.mem_flatMap.2 ⟨s.1, hr, List.mem_map.2 ⟨s.2, List.mem_filter.2 ⟨hb, decide_eq_true hends⟩, rfl⟩⟩

theorem mem_within_succ : b ∈ g.within (k + 1) a ↔ b = a ∨ ∃ s ∈ g.steps a, b ∈ g.within k s.2 := by
  rw [within, List.mem_cons, List.mem_flatMap]

theorem self_mem_within (g : Graph) (k : Nat) (a : Node) : a ∈ g.within k a := by
  cases k with
  | zero => exact List.mem_singleton_self a
  | succ k => exact List.mem_cons_self

theorem mem_within_one : b ∈ g.within 1 a ↔ b = a ∨ ∃ s ∈ g.steps a, b = s.2 := by
  rw [mem_within_succ]
  simp only [within, List.mem_singleton]

theorem within_mono {k' : Nat} (hk : k ≤ k') (h : b ∈ g.within k a) : b ∈ g.within k' a := by
  induction k generalizing a k' with
  | zero =>
    obtain rfl := List.mem_singleton.1 h
    exact self_mem_within g k' b
  | succ k ih =>
    obtain ⟨j, rfl⟩ : ∃ j, k' = j + 1 := ⟨k' - 1, by omega⟩
    rw [mem_within_succ] at h ⊢
    exact h.imp_right fun ⟨s, hs, h⟩ => ⟨s, hs, ih (by omega) h⟩

theorem mem_nodes_of_within (ha : a ∈ g.nodes) (h : b ∈ g.within k a) : b ∈ g.nodes := by
  induction k generalizing a with
  | zero =>
    obtain rfl := List.mem_singleton.1 h
    exact ha
  | succ k ih =>
    rcases mem_within_succ.1 h with rfl | ⟨s, hs, h⟩
    · exact ha
    · exact ih (mem_steps.1 hs).2.1 h

theorem Coloured.step (h : g.Coloured colour) (hg : g.Sound) (ha : a ∈ g.nodes) {s : Rel × Node} (hs : s ∈ g.steps a) :
    colour s.2 = colour a := by
  obtain ⟨hr, hb, hends⟩ := mem_steps.1 hs
  obtain ⟨c, x, hx, y, hy, ⟨hsource, hcx⟩, htarget, hcy⟩ := h s.1 hr
  rcases hends with ⟨ha', hb'⟩ | ⟨ha', hb'⟩
  · obtain rfl := eq_of_eid_eq hg hx ha (hsource.trans ha')
    obtain rfl := eq_of_eid_eq hg hy hb (htarget.trans hb')
    exact hcy.trans hcx.symm
  · obtain rfl := eq_of_eid_eq hg hy ha (htarget.trans ha')
    obtain rfl := eq_of_eid_eq hg hx hb (hsource.trans hb')
    exact hcx.trans hcy.symm

/-- A path stays among the nodes of the colour it begins with. -/
theorem Coloured.walks (h : g.Coloured colour) (hg : g.Sound) (ha : a ∈ g.nodes) {walk : List (Rel × Node)}
    (hwalk : walk ∈ g.walks k a) : ∀ s ∈ walk, s.2 ∈ g.nodes ∧ colour s.2 = colour a := by
  induction k generalizing a walk with
  | zero =>
    obtain rfl := List.mem_singleton.1 hwalk
    exact fun s hs => absurd hs List.not_mem_nil
  | succ k ih =>
    obtain ⟨s, hs, hmem⟩ := List.mem_flatMap.1 hwalk
    obtain ⟨rest, hrest, rfl⟩ := List.mem_map.1 hmem
    have hnode : s.2 ∈ g.nodes := (mem_steps.1 hs).2.1
    have hcolour := h.step hg ha hs
    refine List.forall_mem_cons.2 ⟨⟨hnode, hcolour⟩, fun t ht => ?_⟩
    obtain ⟨ht, hc⟩ := ih hnode hrest t ht
    exact ⟨ht, hc.trans hcolour⟩

theorem mem_allShortestPaths {maxHops : Nat} {walk : List (Rel × Node)} (h : walk ∈ g.allShortestPaths maxHops a b) :
    ∃ k, walk ∈ g.walks k a := by
  unfold allShortestPaths at h
  generalize hfind : List.find? _ _ = found at h
  cases found with
  | none => exact absurd h List.not_mem_nil
  | some walks =>
    obtain ⟨k, -, rfl⟩ := List.mem_map.1 (List.mem_of_find?_eq_some hfind)
    exact ⟨k, List.mem_of_mem_filter h⟩

/-! ### `MERGE` -/

theorem Coloured.merge (h : g.Coloured colour)
    (hmatch : ∀ n : Node, n.Matches (some label) key → colour { n with props := onMatch n.props } = colour n) :
    (g.merge label key onCreate onMatch).Coloured colour := by
  have hnode : ∀ n ∈ g.nodes, ∃ n' ∈ (g.merge label key onCreate onMatch).nodes, n'.eid = n.eid ∧ colour n' = colour n := by
    intro n hn
    unfold Graph.merge
    split_ifs
    · exact ⟨n, List.mem_append_left _ hn, rfl, rfl⟩
    · refine ⟨_, List.mem_map_of_mem hn, ?_⟩
      split_ifs with hkey
      · exact ⟨rfl, hmatch n hkey⟩
      · exact ⟨rfl, rfl⟩
  have hrels : (g.merge label key onCreate onMatch).rels = g.rels := by
    unfold Graph.merge
    split_ifs <;> rfl
  intro r hr
  rw [hrels] at hr
  obtain ⟨c, a, ha, b, hb, ⟨hsource, hca⟩, htarget, hcb⟩ := h r hr
  obtain ⟨a', ha', hea, hca'⟩ := hnode a ha
  obtain ⟨b', hb', heb, hcb'⟩ := hnode b hb
  exact ⟨c, a', ha', b', hb', ⟨hea.trans hsource, hca'.trans hca⟩, heb.trans htarget, hcb'.trans hcb⟩

theorem Coloured.mergeRel (h : g.Coloured colour) (ha : a ∈ g.nodes) (hb : b ∈ g.nodes) (hca : colour a = some c)
    (hcb : colour b = some c) : (g.mergeRel type props a.eid b.eid).Coloured colour := by
  intro r hr
  rw [(nodes_mergeRel type props a.eid b.eid).1]
  rcases rels_mergeRel_mem.1 ⟨r, hr, rfl, rfl, rfl⟩ with ⟨r', hr', -, hsource, htarget⟩ | ⟨-, hsource, htarget⟩
  · rw [← hsource, ← htarget]
    exact h r' hr'
  · exact ⟨c, a, ha, b, hb, ⟨hsource.symm, hca⟩, htarget.symm, hcb⟩

theorem Coloured.mergeRels (h : g.Coloured colour) (hg : g.Sound) (hsource : ∀ n : Node, n.Matches none source → colour n = some c)
    (htarget : ∀ n : Node, n.Matches none target → colour n = some c) :
    (g.mergeRels type props source target).Sound ∧ (g.mergeRels type props source target).Coloured colour :=
  inv_mergeRels (·.Coloured colour) hg h fun _ _ h' a ha b hb hkey hkey' =>
    h'.mergeRel ha hb (hsource a hkey) (htarget b hkey')

theorem Coloured.mergeBetween (h : g.Coloured colour) (hg : g.Sound) {as bs : List Node}
    (has : ∀ a ∈ as, a ∈ g.nodes ∧ colour a = some c) (hbs : ∀ b ∈ bs, b ∈ g.nodes ∧ colour b = some c) :
    (g.mergeBetween type as bs).Sound ∧ (g.mergeBetween type as bs).Coloured colour := by
  refine inv_foldl_mergeRel (·.Coloured colour) (fun a b => colour a = some c ∧ colour b = some c)
    (fun _ _ h' a ha b hb hQ => h'.mergeRel ha hb hQ.1 hQ.2) hg h fun q hq => ?_
  obtain ⟨a, ha, hq⟩ := List.mem_flatMap.1 hq
  obtain ⟨b, hb, rfl⟩ := List.mem_map.1 hq
  exact ⟨a, (has a ha).1, b, (hbs b hb).1, ⟨(has a ha).2, (hbs b hb).2⟩, rfl⟩

end Graph
end PropertyGraph
