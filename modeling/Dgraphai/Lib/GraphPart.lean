import Dgraphai.Lib.GraphView

/-!
# The rest of a graph

`Graph.rest p` is what a graph has apart from the nodes of a kind `p`: the other nodes, and the relationships
with one of them at an end. `MERGE` on a key that only nodes of the kind have leaves it as it is.
-/

namespace PropertyGraph

/-- The nodes that are not of a kind, and the relationships that touch one of them. -/
def Graph.rest (p : Node → Bool) (g : Graph) : List Node × List Rel :=
  (g.nodes.filter fun n => !p n,
   g.rels.filter fun r => (g.nodes.filter fun n => !p n).any fun n => n.eid = r.source ∨ n.eid = r.target)

namespace Graph

variable {g : Graph} {p : Node → Bool} {label type : String} {key props source target : Json.Fields}
  {onCreate onMatch : Props → Props}

/-- `MERGE` of a node of the kind: it creates one of them, and those it matches stay in it. -/
theorem rest_merge (hcreated : p (g.created label key onCreate) = true)
    (hmatched : ∀ n : Node, n.Matches (some label) key → p n = true ∧ p { n with props := onMatch n.props } = true) :
    (g.merge label key onCreate onMatch).rest p = g.rest p := by
  have hnodes : ((g.merge label key onCreate onMatch).nodes.filter fun n => !p n) = g.nodes.filter fun n => !p n := by
    unfold merge
    split_ifs
    · rw [List.filter_append, List.filter_singleton, hcreated]
      exact List.append_nil _
    · show ((g.nodes.map _).filter _) = _
      rw [List.filter_map]
      have hcomp : ((fun n => !p n) ∘ fun n : Node =>
          if n.Matches (some label) key then { n with props := onMatch n.props } else n) = fun n => !p n := by
        funext n
        show (!p (if n.Matches (some label) key then _ else n)) = !p n
        split_ifs with hn
        · rw [(hmatched n hn).1, (hmatched n hn).2]
        · rfl
      rw [hcomp]
      refine (List.map_congr_left fun n hn => if_neg fun hmatch => ?_).trans (List.map_id _)
      have hp : (!p n) = true := (List.mem_filter.1 hn).2
      rw [(hmatched n hmatch).1] at hp
      cases hp
  have hrels : (g.merge label key onCreate onMatch).rels = g.rels := by
    unfold merge
    split_ifs <;> rfl
  rw [rest, rest, hnodes, hrels]

/-- `MERGE` of a relationship between two nodes of the kind. -/
theorem rest_mergeRel (hg : g.Sound) {a b : Node} (ha : a ∈ g.nodes) (hb : b ∈ g.nodes) (hpa : p a = true)
    (hpb : p b = true) : (g.mergeRel type props a.eid b.eid).rest p = g.rest p := by
  have hnodes := (nodes_mergeRel (g := g) type props a.eid b.eid).1
  -- a relationship between `a` and `b` touches no other node
  have hapart : ∀ r : Rel, r.source = a.eid → r.target = b.eid →
      ((g.nodes.filter fun n => !p n).any fun n => n.eid = r.source ∨ n.eid = r.target) = false := by
    intro r hsource htarget
    refine List.any_eq_false.2 fun n hn htouch => ?_
    obtain ⟨hn, hp⟩ := List.mem_filter.1 hn
    rcases of_decide_eq_true htouch with heid | heid
    · rw [eq_of_eid_eq hg hn ha (heid.trans hsource), hpa] at hp
      cases hp
    · rw [eq_of_eid_eq hg hn hb (heid.trans htarget), hpb] at hp
      cases hp
  rw [rest, rest, hnodes]
  refine congrArg _ ?_
  unfold mergeRel
  split_ifs
  · show ((g.rels.map _).filter _) = _
    rw [List.filter_map]
    have hcomp : ((fun r : Rel => (g.nodes.filter fun n => !p n).any fun n => n.eid = r.source ∨ n.eid = r.target) ∘
        fun r : Rel => if r.type = type ∧ r.source = a.eid ∧ r.target = b.eid then
          { r with props := r.props.add props } else r) =
        fun r => (g.nodes.filter fun n => !p n).any fun n => n.eid = r.source ∨ n.eid = r.target := by
      funext r
      simp only [Function.comp]
      split_ifs <;> rfl
    rw [hcomp]
    refine (List.map_congr_left fun r hr => if_neg fun hmatch => ?_).trans (List.map_id _)
    have htouch := (List.mem_filter.1 hr).2
    rw [hapart r hmatch.2.1 hmatch.2.2] at htouch
    cases htouch
  · show ((g.rels ++ [_]).filter _) = _
    rw [List.filter_append, List.filter_singleton, hapart _ rfl rfl]
    exact List.append_nil _

/-- What `MERGE` of a relationship between any two of the pairs keeps, `MERGE` of all of them keeps. -/
theorem inv_foldl_mergeRel (P : Graph → Prop) (Q : Node → Node → Prop)
    (hstep : ∀ g' : Graph, g'.Sound → P g' → ∀ a ∈ g'.nodes, ∀ b ∈ g'.nodes, Q a b → P (g'.mergeRel type props a.eid b.eid))
    {pairs : List (Nat × Nat)} (hg : g.Sound) (h : P g)
    (hpairs : ∀ q ∈ pairs, ∃ a ∈ g.nodes, ∃ b ∈ g.nodes, Q a b ∧ q = (a.eid, b.eid)) :
    (pairs.foldl (fun g q => g.mergeRel type props q.1 q.2) g).Sound ∧
      P (pairs.foldl (fun g q => g.mergeRel type props q.1 q.2) g) := by
  induction pairs generalizing g with
  | nil => exact ⟨hg, h⟩
  | cons q pairs ih =>
    obtain ⟨a, ha, b, hb, hQ, rfl⟩ := hpairs q List.mem_cons_self
    refine ih (hg.mergeRel ha hb) (hstep g hg h a ha b hb hQ) fun q hq => ?_
    rw [(nodes_mergeRel type props a.eid b.eid).1]
    exact hpairs q (List.mem_cons_of_mem _ hq)

/-- What one `MERGE` of a relationship keeps, `MERGE` of all pairs keeps. -/
theorem inv_mergeRels (P : Graph → Prop) (hg : g.Sound) (h : P g)
    (hstep : ∀ g' : Graph, g'.Sound → P g' → ∀ a ∈ g'.nodes, ∀ b ∈ g'.nodes, a.Matches none source →
      b.Matches none target → P (g'.mergeRel type props a.eid b.eid)) :
    (g.mergeRels type props source target).Sound ∧ P (g.mergeRels type props source target) := by
  refine inv_foldl_mergeRel P (fun a b => a.Matches none source ∧ b.Matches none target)
    (fun g' hg' h' a ha b hb hQ => hstep g' hg' h' a ha b hb hQ.1 hQ.2) hg h fun q hq => ?_
  obtain ⟨a, ha, hq⟩ := List.mem_flatMap.1 hq
  obtain ⟨b, hb, rfl⟩ := List.mem_map.1 hq
  obtain ⟨ha, hsource⟩ := List.mem_filter.1 ha
  obtain ⟨hb, htarget⟩ := List.mem_filter.1 hb
  exact ⟨a, ha, b, hb, ⟨of_decide_eq_true hsource, of_decide_eq_true htarget⟩, rfl⟩

theorem rest_mergeRels (hg : g.Sound) (hsource : ∀ n : Node, n.Matches none source → p n = true)
    (htarget : ∀ n : Node, n.Matches none target → p n = true) :
    (g.mergeRels type props source target).Sound ∧ (g.mergeRels type props source target).rest p = g.rest p :=
  inv_mergeRels (fun g' => g'.rest p = g.rest p) hg rfl fun _ hg' h' a ha b hb hkey hkey' =>
    (rest_mergeRel hg' ha hb (hsource a hkey) (htarget b hkey')).trans h'

end Graph
end PropertyGraph
