import Dgraphai.Lib.CypherRun

/-!
# Queries over a part of a graph

`Query.run_restrict`: a query whose predicate binds a node of a part, which no relationship leaves, has the
same rows over that part.
-/

namespace PropertyGraph

/-- The nodes of a kind and the relationships between them. -/
def Graph.restrict (p : Node → Bool) (g : Graph) : Graph where
  nodes := g.nodes.filter p
  rels := g.rels.filter fun r =>
    (g.nodes.filter p).any (fun n => n.eid = r.source) && (g.nodes.filter p).any fun n => n.eid = r.target
  nextEid := 0

/-- Both ends of a relationship are of the kind or none is. -/
def Graph.Apart (p : Node → Bool) (g : Graph) : Prop :=
  ∀ r ∈ g.rels, ∀ n ∈ g.nodes, ∀ m ∈ g.nodes, n.eid = r.source → m.eid = r.target → p n = p m

namespace Graph

variable {g : Graph} {p : Node → Bool}

theorem restrict_eq_empty (h : ∀ n ∈ g.nodes, p n = false) : g.restrict p = empty := by
  have hnodes : g.nodes.filter p = [] := List.filter_eq_nil_iff.2 fun n hn => Bool.eq_false_iff.1 (h n hn)
  rw [restrict, hnodes]
  exact congrArg (fun rels => (⟨[], rels, 0⟩ : Graph)) (List.filter_eq_nil_iff.2 fun _ _ => Bool.false_ne_true)

theorem restrict_restrict : (g.restrict p).restrict p = g.restrict p := by
  have hnodes : (g.nodes.filter p).filter p = g.nodes.filter p :=
    List.filter_eq_self.2 fun _ hn => (List.mem_filter.1 hn).2
  unfold restrict
  rw [hnodes]
  exact congrArg (fun rels => (⟨_, rels, 0⟩ : Graph)) (List.filter_eq_self.2 fun _ hr => (List.mem_filter.1 hr).2)

theorem Valid.restrict (h : g.Valid) : (g.restrict p).Valid := by
  refine ⟨h.eids.sublist (List.filter_sublist.map _), fun r hr => ?_⟩
  obtain ⟨hsource, htarget⟩ := Bool.and_eq_true_iff.1 (List.mem_filter.1 hr).2
  obtain ⟨a, ha, hsource⟩ := List.any_eq_true.1 hsource
  obtain ⟨b, hb, htarget⟩ := List.any_eq_true.1 htarget
  exact ⟨List.mem_map.2 ⟨a, ha, of_decide_eq_true hsource⟩, List.mem_map.2 ⟨b, hb, of_decide_eq_true htarget⟩⟩

/-- Nodes that are all of the kind are those of the part. -/
theorem filter_nodes_restrict {q : Node → Bool} (h : ∀ n, q n = true → p n = true) :
    (g.restrict p).nodes.filter q = g.nodes.filter q := by
  rw [restrict, List.filter_filter]
  refine List.filter_congr fun n _ => ?_
  cases hq : q n with
  | false => rfl
  | true => exact h n hq

end Graph

end PropertyGraph

namespace Cypher

open PropertyGraph (Graph Node Rel)

/-- Expressions that are not read here are about the row, not about the graph. -/
def Reading.Local (R : Reading) : Prop := ∀ g g' P b ts, R.other g P b ts = R.other g' P b ts

variable {R : Reading} {P : Params} {p : Node → Bool} {g : Graph} {b : Binding} {q : Query}

def Binding.All (p : Node → Bool) (b : Binding) : Bool := b.all fun xn => p xn.2

/-! ### Candidates -/

theorem labelled_restrict (label : String) : (g.restrict p).labelled label = (g.labelled label).filter p := by
  rw [Graph.labelled, Graph.labelled, PropertyGraph.Graph.restrict, List.filter_filter, List.filter_filter]
  exact List.filter_congr fun n _ => Bool.and_comm _ _

theorem flatMap_filter_of_nil {α β : Type} {k : α → Bool} {f : α → List β} {l : List α}
    (h : ∀ a ∈ l, k a = false → f a = []) : (l.filter k).flatMap f = l.flatMap f := by
  induction l with
  | nil => rfl
  | cons a l ih =>
    obtain ⟨ha, hl⟩ := List.forall_mem_cons.1 h
    rw [List.filter_cons, List.flatMap_cons, ← ih hl]
    split_ifs with hk
    · rfl
    · rw [ha (eq_false_of_ne_true hk), List.nil_append]

theorem filter_comm {α : Type} (k k' : α → Bool) (l : List α) : (l.filter k).filter k' = (l.filter k').filter k := by
  rw [List.filter_filter, List.filter_filter]
  exact List.filter_congr fun a _ => Bool.and_comm _ _

section Path

variable (p) (x y : Text) (ns ms : List Node)

/-- The bindings of two variables to nodes of two lists. -/
def pairs : List Binding := ns.flatMap fun n => ms.map fun m => [(x, n), (y, m)]

theorem filter_pairs : (pairs x y ns ms).filter (Binding.All p) = pairs x y (ns.filter p) (ms.filter p) := by
  have hinner : ∀ n, (ms.map fun m => [(x, n), (y, m)]).filter (Binding.All p) =
      (ms.filter fun m => p n && p m).map fun m => [(x, n), (y, m)] := by
    intro n
    rw [List.filter_map]
    congr 1
    exact List.filter_congr fun m _ => by simp [Binding.All]
  rw [pairs, List.filter_flatMap, pairs, ← flatMap_filter_of_nil (k := p)]
  · refine List.flatMap_congr fun n hn => ?_
    have hp : p n = true := (List.mem_filter.1 hn).2
    rw [hinner]
    simp only [hp, Bool.true_and]
  · intro n _ hp
    rw [hinner]
    simp [hp]

end Path

theorem candidates_restrict (pattern : Pattern) :
    pattern.candidates (g.restrict p) = (pattern.candidates g).filter (Binding.All p) := by
  cases pattern with
  | node x label =>
    simp only [Pattern.candidates, labelled_restrict, List.filter_map]
    congr 1
    exact List.filter_congr fun n _ => by simp [Binding.All]
  | path x label type y label' =>
    have hpairs : ∀ g : Graph, Pattern.candidates g (.path x label type y label') =
        (g.rels.filter fun r => r.type = String.ofList type).flatMap fun r =>
          pairs x y ((g.labelled (String.ofList label)).filter (·.eid = r.source))
            ((g.labelled (String.ofList label')).filter (·.eid = r.target)) := fun _ => rfl
    rw [hpairs, hpairs, List.filter_flatMap]
    simp only [filter_pairs, labelled_restrict, filter_comm p]
    rw [PropertyGraph.Graph.restrict, filter_comm]
    refine flatMap_filter_of_nil fun r _ hr => ?_
    -- no node of the kind is at one of the ends
    have hend : ∀ (label : String) (e : Nat), (g.nodes.filter p).any (fun n => n.eid = e) = false →
        ((g.labelled label).filter (·.eid = e)).filter p = [] := by
      intro label e he
      refine List.filter_eq_nil_iff.2 fun n hn hp => ?_
      obtain ⟨hlabel, heid⟩ := List.mem_filter.1 hn
      have hmem : n ∈ g.nodes.filter p := List.mem_filter.2 ⟨(List.mem_filter.1 hlabel).1, hp⟩
      rw [List.any_eq_false] at he
      exact he n hmem heid
    rcases Bool.and_eq_false_iff.1 hr with hsource | htarget
    · rw [hend _ _ hsource]
      rfl
    · rw [hend _ _ htarget]
      simp [pairs]

/-- A binding of a pattern is to nodes of the graph, and of one kind where relationships do not leave it. -/
theorem mem_candidates {pattern : Pattern} (h : b ∈ pattern.candidates g) :
    (∀ xn ∈ b, xn.2 ∈ g.nodes) ∧ (g.Apart p → ∀ xn ∈ b, ∀ ym ∈ b, p xn.2 = p ym.2) := by
  cases pattern with
  | node x label =>
    obtain ⟨n, hn, rfl⟩ := List.mem_map.1 h
    refine ⟨fun xn hxn => ?_, fun _ xn hxn ym hym => ?_⟩
    · rw [List.mem_singleton.1 hxn]
      exact (List.mem_filter.1 hn).1
    · rw [List.mem_singleton.1 hxn, List.mem_singleton.1 hym]
  | path x label type y label' =>
    obtain ⟨r, hr, h⟩ := List.mem_flatMap.1 h
    obtain ⟨n, hn, h⟩ := List.mem_flatMap.1 h
    obtain ⟨m, hm, rfl⟩ := List.mem_map.1 h
    obtain ⟨hn, hsource⟩ := List.mem_filter.1 hn
    obtain ⟨hm, htarget⟩ := List.mem_filter.1 hm
    have hn : n ∈ g.nodes := (List.mem_filter.1 hn).1
    have hm : m ∈ g.nodes := (List.mem_filter.1 hm).1
    refine ⟨by simp [hn, hm], fun hapart => ?_⟩
    have hsame : p n = p m :=
      hapart r (List.mem_filter.1 hr).1 n hn m hm (of_decide_eq_true hsource) (of_decide_eq_true htarget)
    simp [hsame]

/-! ### Predicates -/

theorem evalAtom_restrict (hlocal : R.Local) (hapart : g.Apart p) (hnodes : ∀ xn ∈ b, xn.2 ∈ g.nodes)
    (hall : b.All p = true) (a : Atom) : evalAtom R P (g.restrict p) b a = evalAtom R P g b a := by
  cases a with
  | related x type label =>
    rcases hlookup : b.lookup x with _ | n
    · simp only [evalAtom, hlookup]
      rfl
    · have hmem : (x, n) ∈ b := mem_of_lookup hlookup
      have hn := hnodes _ hmem
      have hp : p n = true := List.all_eq_true.1 hall _ hmem
      simp only [evalAtom, hlookup, Option.bind_eq_bind, Option.bind_some]
      refine congrArg some ?_
      rw [Bool.eq_iff_iff]
      simp only [List.any_eq_true, decide_eq_true_eq]
      constructor
      · rintro ⟨r, hr, htype, hsource, m, hm, htarget⟩
        exact ⟨r, (List.mem_filter.1 hr).1, htype, hsource, m, (List.mem_filter.1 hm).1, htarget⟩
      · rintro ⟨r, hr, htype, hsource, m, hm, htarget, hlabel⟩
        have hpm : p m = true := by rw [← hapart r hr n hn m hm hsource.symm htarget, hp]
        refine ⟨r, List.mem_filter.2 ⟨hr, ?_⟩, htype, hsource, m, List.mem_filter.2 ⟨hm, hpm⟩, htarget, hlabel⟩
        rw [Bool.and_eq_true, List.any_eq_true, List.any_eq_true]
        exact ⟨⟨n, List.mem_filter.2 ⟨hn, hp⟩, decide_eq_true hsource.symm⟩,
          ⟨m, List.mem_filter.2 ⟨hm, hpm⟩, decide_eq_true htarget⟩⟩
  | other ts => exact hlocal _ _ _ _ _
  | _ => rfl

namespace Query

/-- A predicate that binds a node of the kind wherever it holds does not see the rest of the graph. -/
theorem run_restrict (hlocal : R.Local) (hapart : g.Apart p)
    (hbinds : ∀ b ∈ q.pattern.candidates g, q.holds R P g b = true → ∃ xn ∈ b, p xn.2 = true) :
    q.run R P (g.restrict p) = q.run R P g := by
  have hanswers : q.answers R P (g.restrict p) = q.answers R P g := by
    rw [answers, answers, candidates_restrict, List.filter_filter]
    refine List.filter_congr fun b hb => ?_
    obtain ⟨hnodes, hsame⟩ := mem_candidates (p := p) hb
    have hholds : b.All p = true → q.holds R P (g.restrict p) b = q.holds R P g b := by
      intro hall
      unfold holds
      congr 1
      funext ts
      rw [evalPred, evalPred, evalExpr_congr fun a _ => evalAtom_restrict hlocal hapart hnodes hall (parseAtom a)]
    cases hall : b.All p with
    | true => rw [Bool.and_true, hholds hall]
    | false =>
      rw [Bool.and_false]
      refine (eq_false_of_ne_true fun htrue => ?_).symm
      obtain ⟨xn, hxn, hp⟩ := hbinds b hb htrue
      have hall' : b.All p = true := List.all_eq_true.2 fun ym hym => by rw [← hsame hapart xn hxn ym hym, hp]
      rw [hall'] at hall
      cases hall
  rw [run, run, rows, rows, hanswers]

end Query

end Cypher
