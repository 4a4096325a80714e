import Dgraphai.Lib.PropertyGraph
import Mathlib.Data.List.Nodup
import Mathlib.Data.Set.Basic
import Mathlib.Order.Basic

/-!
# A graph by the names of its nodes

A `View` has the names of the nodes and the relationships between names. Ingesting names and relationships
adds the names, and then those relationships whose ends both have a node. `mem_ties_ingestAll` says what is
left of relationships that come in parts, and `Graph.view` reads a `View` off a property graph: `MERGE` of a
node and of the relationships between matched nodes are ingests of it.
-/

/-- The names of nodes, and the relationships of a type between names. -/
@[ext] structure View (τ ι : Type*) where
  names : Set ι
  ties : Set (τ × ι × ι)

namespace View

variable {τ ι : Type*} {v w : View τ ι} {ns ns' : List ι} {es es' : List (τ × ι × ι)} {parts : List (List ι × List (τ × ι × ι))}

instance : PartialOrder (View τ ι) where
  le v w := v.names ⊆ w.names ∧ v.ties ⊆ w.ties
  le_refl v := ⟨subset_rfl, subset_rfl⟩
  le_trans _ _ _ h h' := ⟨h.1.trans h'.1, h.2.trans h'.2⟩
  le_antisymm _ _ h h' := View.ext (h.1.antisymm h'.1) (h.2.antisymm h'.2)

/-- All names first, then the relationships between names that are there. -/
def ingest (v : View τ ι) (ns : List ι) (es : List (τ × ι × ι)) : View τ ι where
  names := {x | x ∈ v.names ∨ x ∈ ns}
  ties := {e | e ∈ v.ties ∨ e ∈ es ∧ (e.2.1 ∈ v.names ∨ e.2.1 ∈ ns) ∧ (e.2.2 ∈ v.names ∨ e.2.2 ∈ ns)}

theorem le_ingest (v : View τ ι) (ns : List ι) (es : List (τ × ι × ι)) : v ≤ v.ingest ns es :=
  ⟨fun _ h => .inl h, fun _ h => .inl h⟩

theorem ingest_mono (h : v ≤ w) (hns : ns ⊆ ns') (hes : es ⊆ es') : v.ingest ns es ≤ w.ingest ns' es' := by
  have hname : ∀ x, x ∈ v.names ∨ x ∈ ns → x ∈ w.names ∨ x ∈ ns' := fun x hx => hx.imp (@h.1 x) (@hns x)
  exact ⟨hname, fun e he => he.imp (@h.2 e) fun ⟨hmem, hsource, htarget⟩ =>
    ⟨hes hmem, hname _ hsource, hname _ htarget⟩⟩

@[simp] theorem ingest_nil (v : View τ ι) : v.ingest [] [] = v := by
  ext <;> simp [ingest]

/-- Names, and then relationships. -/
theorem ingest_ingest (v : View τ ι) (ns : List ι) (es : List (τ × ι × ι)) :
    (v.ingest ns []).ingest [] es = v.ingest ns es := by
  ext <;> simp [ingest]

theorem ingest_names_append (v : View τ ι) (ns ns' : List ι) :
    (v.ingest ns []).ingest ns' [] = v.ingest (ns ++ ns') [] := by
  ext <;> simp [ingest, or_assoc]

theorem ingest_ties_append (v : View τ ι) (es es' : List (τ × ι × ι)) :
    (v.ingest [] es).ingest [] es' = v.ingest [] (es ++ es') := by
  ext <;> simp [ingest, or_assoc, or_and_right]

/-- What was ingested in part is completed by ingesting all of it. -/
theorem ingest_of_between (h : v ≤ w) (h' : w ≤ v.ingest ns es) : w.ingest ns es = v.ingest ns es := by
  refine le_antisymm ?_ (ingest_mono h (List.Subset.refl _) (List.Subset.refl _))
  have hname : ∀ x, x ∈ w.names ∨ x ∈ ns → x ∈ v.names ∨ x ∈ ns := fun x hx => hx.elim (@h'.1 x) .inr
  refine ⟨hname, fun e he => ?_⟩
  rcases he with he | ⟨he, hsource, htarget⟩
  · exact h'.2 he
  · exact .inr ⟨he, hname _ hsource, hname _ htarget⟩

/-! ### Parts -/

def ingestAll (v : View τ ι) (parts : List (List ι × List (τ × ι × ι))) : View τ ι :=
  parts.foldl (fun v part => v.ingest part.1 part.2) v

theorem mem_names_ingestAll {x : ι} : x ∈ (v.ingestAll parts).names ↔ x ∈ v.names ∨ ∃ part ∈ parts, x ∈ part.1 := by
  induction parts generalizing v with
  | nil => simp [ingestAll]
  | cons part parts ih =>
    have hrest := @ih (v.ingest part.1 part.2)
    rw [ingestAll, List.foldl_cons]
    rw [ingestAll] at hrest
    rw [hrest]
    simp [ingest, or_assoc]

/-- A relationship is there after all parts if it was there before, or came in a part by which both its ends had
a node. -/
theorem mem_ties_ingestAll {e : τ × ι × ι} : e ∈ (v.ingestAll parts).ties ↔
    e ∈ v.ties ∨ ∃ pre part post, parts = pre ++ part :: post ∧ e ∈ part.2 ∧
      ∀ x ∈ [e.2.1, e.2.2], x ∈ v.names ∨ ∃ p ∈ pre ++ [part], x ∈ p.1 := by
  induction parts generalizing v with
  | nil => simp [ingestAll]
  | cons part parts ih =>
    have hrest := @ih (v.ingest part.1 part.2)
    rw [ingestAll, List.foldl_cons]
    rw [ingestAll] at hrest
    rw [hrest]
    constructor
    · rintro ((h | ⟨hmem, hsource, htarget⟩) | ⟨pre, p, post, rfl, hmem, hends⟩)
      · exact .inl h
      · refine .inr ⟨[], part, parts, rfl, hmem, ?_⟩
        simpa using ⟨hsource, htarget⟩
      · refine .inr ⟨part :: pre, p, post, rfl, hmem, fun x hx => ?_⟩
        rcases hends x hx with (h | h) | ⟨q, hq, hx⟩
        · exact .inl h
        · exact .inr ⟨part, List.mem_cons_self, h⟩
        · exact .inr ⟨q, List.mem_cons_of_mem part hq, hx⟩
    · rintro (h | ⟨pre, p, post, hsplit, hmem, hends⟩)
      · exact .inl (.inl h)
      · cases pre with
        | nil =>
          obtain ⟨rfl, rfl⟩ := List.cons.inj hsplit
          exact .inl (.inr ⟨hmem, by simpa using hends⟩)
        | cons q pre =>
          obtain ⟨rfl, rfl⟩ := List.cons.inj hsplit
          refine .inr ⟨pre, p, post, rfl, hmem, fun x hx => ?_⟩
          rcases hends x hx with h | ⟨q, hq, hx⟩
          · exact .inl (.inl h)
          · rcases List.mem_cons.1 hq with rfl | hq
            · exact .inl (.inr hx)
            · exact .inr ⟨q, hq, hx⟩

theorem ingestAll_cons (v : View τ ι) (part : List ι × List (τ × ι × ι)) (parts : List (List ι × List (τ × ι × ι))) :
    v.ingestAll (part :: parts) = (v.ingest part.1 part.2).ingestAll parts := rfl

/-- Names one after the other. -/
theorem ingestAll_names {α : Type*} (v : View τ ι) (f : α → Option ι) (l : List α) :
    v.ingestAll (l.map fun a => ((f a).toList, [])) = v.ingest (l.filterMap f) [] := by
  induction l generalizing v with
  | nil => exact (ingest_nil v).symm
  | cons a l ih =>
    rw [List.map_cons, ingestAll_cons, ih, ingest_names_append, List.filterMap_cons]
    cases f a <;> rfl

/-- Relationships one after the other. -/
theorem ingestAll_ties {α : Type*} (v : View τ ι) (f : α → Option (τ × ι × ι)) (l : List α) :
    v.ingestAll (l.map fun a => ([], (f a).toList)) = v.ingest [] (l.filterMap f) := by
  induction l generalizing v with
  | nil => exact (ingest_nil v).symm
  | cons a l ih =>
    rw [List.map_cons, ingestAll_cons, ih, ingest_ties_append, List.filterMap_cons]
    cases f a <;> rfl

theorem ingestAll_mono (h : v ≤ w) (parts : List (List ι × List (τ × ι × ι))) : v.ingestAll parts ≤ w.ingestAll parts := by
  induction parts generalizing v w with
  | nil => exact h
  | cons part parts ih => exact ih (ingest_mono h (List.Subset.refl _) (List.Subset.refl _))

end View

namespace PropertyGraph

/-- Element ids are unique and below the next one, and a relationship joins nodes of the graph. -/
structure Graph.Sound (g : Graph) : Prop where
  valid : g.Valid
  fresh : g.FreshEid

/-- A name has one key, and a node one name. -/
def Naming (key : Json → Json.Fields) : Prop :=
  ∀ (n : Node) x y, n.Matches none (key x) → n.Matches none (key y) → x = y

namespace Graph

variable {g : Graph} {key : Json → Json.Fields} {label type : String} {fields props : Json.Fields}
  {onCreate onMatch : Props → Props}

/-- The nodes by their keys, and the relationships between them. -/
def view (g : Graph) (key : Json → Json.Fields) : View String Json where
  names := {x | ∃ n ∈ g.nodes, n.Matches none (key x)}
  ties := {e | ∃ r ∈ g.rels, r.type = e.1 ∧ (∃ a ∈ g.nodes, a.eid = r.source ∧ a.Matches none (key e.2.1)) ∧
    ∃ b ∈ g.nodes, b.eid = r.target ∧ b.Matches none (key e.2.2)}

/-! ### `MERGE` of a node -/

theorem Sound.merge (hg : g.Sound) : (g.merge label fields onCreate onMatch).Sound := by
  refine ⟨?_, hg.fresh.merge⟩
  unfold Graph.merge
  split_ifs with hmatch
  · refine ⟨?_, fun r hr => ?_⟩
    · rw [List.map_append, List.nodup_append]
      refine ⟨hg.valid.eids, List.nodup_singleton _, ?_⟩
      intro i hi j hj
      obtain ⟨n, hn, rfl⟩ := List.mem_map.1 hi
      obtain rfl : j = g.nextEid := List.mem_singleton.1 hj
      exact Nat.ne_of_lt (hg.fresh n hn)
    · rw [List.map_append]
      exact (hg.valid.ends r hr).imp (List.mem_append_left _) (List.mem_append_left _)
  · have heids : (g.nodes.map fun n => if n.Matches (some label) fields then { n with props := onMatch n.props } else n).map
        (·.eid) = g.nodes.map (·.eid) := by
      rw [List.map_map]
      refine List.map_congr_left fun n _ => ?_
      simp only [Function.comp]
      split_ifs <;> rfl
    refine ⟨?_, fun r hr => ?_⟩
    · rw [heids]
      exact hg.valid.eids
    · rw [heids]
      exact hg.valid.ends r hr

/-- A `MERGE` whose node has the names `xs` adds them; what it does to the nodes it matches has to keep their
names, these among them. -/
theorem view_merge (hg : g.Sound) (xs : List Json)
    (hcreate : ∀ y, (g.created label fields onCreate).Matches none (key y) ↔ y ∈ xs)
    (hmatch : ∀ n : Node, n.Matches (some label) fields →
      (∀ y, Node.Matches { n with props := onMatch n.props } none (key y) ↔ n.Matches none (key y)) ∧
        ∀ y ∈ xs, n.Matches none (key y)) :
    (g.merge label fields onCreate onMatch).view key = (g.view key).ingest xs [] := by
  by_cases hnil : g.matched (some label) fields = []
  · rw [merge_of_matched_eq_nil hnil]
    -- no relationship ends in the new node
    have hend : ∀ i, i ∈ g.nodes.map (·.eid) → ∀ y,
        (∃ a ∈ g.nodes ++ [g.created label fields onCreate], a.eid = i ∧ a.Matches none (key y)) ↔
          ∃ a ∈ g.nodes, a.eid = i ∧ a.Matches none (key y) := by
      intro i hi y
      constructor
      · rintro ⟨a, ha, heid, hkey⟩
        rcases List.mem_append.1 ha with ha | ha
        · exact ⟨a, ha, heid, hkey⟩
        · obtain ⟨n, hn, hni⟩ := List.mem_map.1 hi
          rw [List.mem_singleton.1 ha] at heid
          have hlt := hg.fresh n hn
          have hnext : g.nextEid = i := heid
          omega
      · rintro ⟨a, ha, hrest⟩
        exact ⟨a, List.mem_append_left _ ha, hrest⟩
    ext x
    · show (∃ n ∈ g.nodes ++ [_], _) ↔ (∃ n ∈ g.nodes, _) ∨ x ∈ xs
      rw [← hcreate x]
      simp [or_and_right, exists_or]
    · show (∃ r ∈ g.rels, _ ∧ (∃ a ∈ g.nodes ++ [_], _) ∧ ∃ b ∈ g.nodes ++ [_], _) ↔ _
      have hiff : ∀ r ∈ g.rels, _ := fun r hr =>
        and_congr (hend r.source (hg.valid.ends r hr).1 x.2.1) (hend r.target (hg.valid.ends r hr).2 x.2.2)
      simp only [View.ingest, view, List.not_mem_nil, false_and, or_false, Set.mem_ofPred_eq]
      exact exists_congr fun r => and_congr_right fun hr => and_congr_right fun _ => hiff r hr
  · have hnodes : (g.merge label fields onCreate onMatch).nodes = g.nodes.map fun n =>
        if n.Matches (some label) fields then { n with props := onMatch n.props } else n := by
      rw [merge, if_neg hnil]
    have hrels : (g.merge label fields onCreate onMatch).rels = g.rels := by rw [merge, if_neg hnil]
    have hkeep : ∀ (P : ℕ → Prop) y, (∃ a ∈ (g.merge label fields onCreate onMatch).nodes, P a.eid ∧ a.Matches none (key y)) ↔
        ∃ a ∈ g.nodes, P a.eid ∧ a.Matches none (key y) := by
      intro P y
      rw [hnodes]
      simp only [List.mem_map, exists_exists_and_eq_and]
      refine exists_congr fun n => and_congr_right fun _ => ?_
      split_ifs with hn
      · exact and_congr_right fun _ => (hmatch n hn).1 y
      · rfl
    obtain ⟨n, hn⟩ := List.exists_mem_of_ne_nil _ hnil
    obtain ⟨hn, hkey⟩ := List.mem_filter.1 hn
    ext x
    · have hsame := hkeep (fun _ => True) x
      simp only [true_and] at hsame
      show (∃ a ∈ (g.merge label fields onCreate onMatch).nodes, _) ↔ (∃ a ∈ g.nodes, _) ∨ x ∈ xs
      rw [hsame]
      exact (or_iff_left_of_imp fun hx => ⟨n, hn, (hmatch n (of_decide_eq_true hkey)).2 x hx⟩).symm
    · show (∃ r ∈ (g.merge label fields onCreate onMatch).rels, _) ↔ _
      rw [hrels]
      simp only [View.ingest, view, List.not_mem_nil, false_and, or_false, Set.mem_ofPred_eq]
      exact exists_congr fun r => and_congr_right fun _ => and_congr_right fun _ =>
        and_congr (hkeep (· = r.source) x.2.1) (hkeep (· = r.target) x.2.2)

/-! ### `MERGE` of relationships -/

theorem rels_mergeRel_mem {source target : Nat} {t : String} {i j : Nat} :
    (∃ r ∈ (g.mergeRel type props source target).rels, r.type = t ∧ r.source = i ∧ r.target = j) ↔
      (∃ r ∈ g.rels, r.type = t ∧ r.source = i ∧ r.target = j) ∨ t = type ∧ i = source ∧ j = target := by
  unfold mergeRel
  split_ifs with hany
  · obtain ⟨r, hr, hmatch⟩ := List.any_eq_true.1 hany
    obtain ⟨rfl, rfl, rfl⟩ := of_decide_eq_true hmatch
    constructor
    · rintro ⟨r', hr', hrest⟩
      obtain ⟨r'', hr'', rfl⟩ := List.mem_map.1 hr'
      refine .inl ⟨r'', hr'', ?_⟩
      split_ifs at hrest <;> exact hrest
    · rintro (⟨r', hr', hrest⟩ | ⟨rfl, rfl, rfl⟩)
      · refine ⟨_, List.mem_map_of_mem hr', ?_⟩
        split_ifs <;> exact hrest
      · refine ⟨_, List.mem_map_of_mem hr, ?_⟩
        split_ifs <;> exact ⟨rfl, rfl, rfl⟩
  · constructor
    · rintro ⟨r, hr, hrest⟩
      rcases List.mem_append.1 hr with hr | hr
      · exact .inl ⟨r, hr, hrest⟩
      · obtain rfl := List.mem_singleton.1 hr
        exact .inr ⟨hrest.1.symm, hrest.2.1.symm, hrest.2.2.symm⟩
    · rintro (⟨r, hr, hrest⟩ | ⟨rfl, rfl, rfl⟩)
      · exact ⟨r, List.mem_append_left _ hr, hrest⟩
      · exact ⟨_, List.mem_append_right _ (List.mem_singleton_self _), rfl, rfl, rfl⟩

/-- A relationship of the graph between nodes `a` and `b`. -/
theorem mem_ties_iff {e : String × Json × Json} : e ∈ (g.view key).ties ↔
    ∃ a ∈ g.nodes, ∃ b ∈ g.nodes, (∃ r ∈ g.rels, r.type = e.1 ∧ r.source = a.eid ∧ r.target = b.eid) ∧
      a.Matches none (key e.2.1) ∧ b.Matches none (key e.2.2) := by
  constructor
  · rintro ⟨r, hr, htype, ⟨a, ha, hsource, hkey⟩, b, hb, htarget, hkey'⟩
    exact ⟨a, ha, b, hb, ⟨r, hr, htype, hsource.symm, htarget.symm⟩, hkey, hkey'⟩
  · rintro ⟨a, ha, b, hb, ⟨r, hr, htype, hsource, htarget⟩, hkey, hkey'⟩
    exact ⟨r, hr, htype, ⟨a, ha, hsource.symm, hkey⟩, b, hb, htarget.symm, hkey'⟩

theorem eq_of_eid_eq (hg : g.Sound) {a b : Node} (ha : a ∈ g.nodes) (hb : b ∈ g.nodes) (h : a.eid = b.eid) : a = b :=
  List.inj_on_of_nodup_map hg.valid.eids ha hb h

theorem Sound.mergeRel (hg : g.Sound) {a b : Node} (ha : a ∈ g.nodes) (hb : b ∈ g.nodes) :
    (g.mergeRel type props a.eid b.eid).Sound := by
  obtain ⟨hnodes, hnext⟩ := nodes_mergeRel (g := g) type props a.eid b.eid
  refine ⟨⟨?_, fun r hr => ?_⟩, fun n hn => ?_⟩
  · rw [hnodes]
    exact hg.valid.eids
  · rw [hnodes]
    rcases rels_mergeRel_mem.1 ⟨r, hr, rfl, rfl, rfl⟩ with ⟨r', hr', -, hsource, htarget⟩ | ⟨-, hsource, htarget⟩
    · rw [← hsource, ← htarget]
      exact hg.valid.ends r' hr'
    · rw [hsource, htarget]
      exact ⟨List.mem_map_of_mem ha, List.mem_map_of_mem hb⟩
  · rw [hnodes] at hn
    rw [hnext]
    exact hg.fresh n hn

theorem view_mergeRel (hg : g.Sound) (hkey : Naming key) {a b : Node} (ha : a ∈ g.nodes) (hb : b ∈ g.nodes) {x y : Json}
    (hx : a.Matches none (key x)) (hy : b.Matches none (key y)) :
    (g.mergeRel type props a.eid b.eid).view key = (g.view key).ingest [] [(type, x, y)] := by
  have hnodes := (nodes_mergeRel (g := g) type props a.eid b.eid).1
  ext e
  · show (∃ n ∈ (g.mergeRel type props a.eid b.eid).nodes, _) ↔ (∃ n ∈ g.nodes, _) ∨ e ∈ []
    rw [hnodes]
    simp
  · have hadded : e ∈ ((g.view key).ingest [] [(type, x, y)]).ties ↔ e ∈ (g.view key).ties ∨ e = (type, x, y) := by
      refine or_congr_right ?_
      rw [List.mem_singleton]
      refine and_iff_left_of_imp ?_
      rintro rfl
      exact ⟨.inl ⟨a, ha, hx⟩, .inl ⟨b, hb, hy⟩⟩
    rw [hadded, mem_ties_iff, mem_ties_iff, hnodes]
    simp only [rels_mergeRel_mem]
    constructor
    · rintro ⟨c, hc, d, hd, hrel | ⟨htype, hsource, htarget⟩, hkc, hkd⟩
      · exact .inl ⟨c, hc, d, hd, hrel, hkc, hkd⟩
      · obtain rfl := eq_of_eid_eq hg hc ha hsource
        obtain rfl := eq_of_eid_eq hg hd hb htarget
        exact .inr (Prod.ext htype (Prod.ext (hkey c _ _ hkc hx) (hkey d _ _ hkd hy)))
    · rintro (⟨c, hc, d, hd, hrel, hkc, hkd⟩ | rfl)
      · exact ⟨c, hc, d, hd, .inl hrel, hkc, hkd⟩
      · exact ⟨a, ha, b, hb, .inr ⟨rfl, rfl, rfl⟩, hx, hy⟩

/-- `MERGE` of a relationship between all pairs of nodes with two names. -/
theorem view_mergeRels (hg : g.Sound) (hkey : Naming key) (type : String) (props : Json.Fields) (x y : Json) :
    (g.mergeRels type props (key x) (key y)).Sound ∧
      (g.mergeRels type props (key x) (key y)).view key = (g.view key).ingest [] [(type, x, y)] := by
  have hpairs : ∀ (pairs : List (Nat × Nat)) (g : Graph), g.Sound →
      (∀ p ∈ pairs, ∃ a ∈ g.nodes, ∃ b ∈ g.nodes, a.Matches none (key x) ∧ b.Matches none (key y) ∧ p = (a.eid, b.eid)) →
      (pairs.foldl (fun g p => g.mergeRel type props p.1 p.2) g).Sound ∧
        (pairs.foldl (fun g p => g.mergeRel type props p.1 p.2) g).view key =
          if pairs = [] then g.view key else (g.view key).ingest [] [(type, x, y)] := by
    intro pairs
    induction pairs with
    | nil => exact fun g hg _ => ⟨hg, rfl⟩
    | cons p pairs ih =>
      intro g hg hp
      obtain ⟨a, ha, b, hb, hx, hy, rfl⟩ := hp p List.mem_cons_self
      have hnodes := (nodes_mergeRel (g := g) type props a.eid b.eid).1
      obtain ⟨hsound, hview⟩ := ih _ (hg.mergeRel ha hb) fun q hq => by
        rw [hnodes]
        exact hp q (List.mem_cons_of_mem _ hq)
      refine ⟨hsound, hview.trans ?_⟩
      rw [view_mergeRel hg hkey ha hb hx hy, if_neg (List.cons_ne_nil _ _)]
      split_ifs
      · rfl
      · refine View.ingest_of_between (View.le_ingest _ _ _) le_rfl
  have hmem : ∀ p ∈ (g.matched none (key x)).flatMap fun a => (g.matched none (key y)).map fun b => (a.eid, b.eid),
      ∃ a ∈ g.nodes, ∃ b ∈ g.nodes, a.Matches none (key x) ∧ b.Matches none (key y) ∧ p = (a.eid, b.eid) := by
    intro p hp
    obtain ⟨a, ha, hp⟩ := List.mem_flatMap.1 hp
    obtain ⟨b, hb, rfl⟩ := List.mem_map.1 hp
    obtain ⟨ha, hx⟩ := List.mem_filter.1 ha
    obtain ⟨hb, hy⟩ := List.mem_filter.1 hb
    exact ⟨a, ha, b, hb, of_decide_eq_true hx, of_decide_eq_true hy, rfl⟩
  obtain ⟨hsound, hview⟩ := hpairs _ g hg hmem
  refine ⟨hsound, hview.trans ?_⟩
  split_ifs with hnil
  · -- one of the names has no node
    refine le_antisymm (View.le_ingest _ _ _) ⟨fun z hz => hz.elim id fun hz => absurd hz List.not_mem_nil, ?_⟩
    rintro e (he | ⟨he, hsource, htarget⟩)
    · exact he
    · obtain rfl := List.mem_singleton.1 he
      obtain ⟨a, ha, hx⟩ := hsource.elim id fun h => absurd h List.not_mem_nil
      obtain ⟨b, hb, hy⟩ := htarget.elim id fun h => absurd h List.not_mem_nil
      have hpair : (a.eid, b.eid) ∈ (g.matched none (key x)).flatMap fun a =>
          (g.matched none (key y)).map fun b => (a.eid, b.eid) :=
        List.mem_flatMap.2 ⟨a, List.mem_filter.2 ⟨ha, decide_eq_true hx⟩,
          List.mem_map.2 ⟨b, List.mem_filter.2 ⟨hb, decide_eq_true hy⟩, rfl⟩⟩
      rw [hnil] at hpair
      exact absurd hpair List.not_mem_nil
  · rfl

end Graph
end PropertyGraph
