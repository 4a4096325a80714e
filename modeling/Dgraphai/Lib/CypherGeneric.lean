import Dgraphai.Lib.CypherMatch
import Mathlib.Data.List.Dedup

/-!
# The generic graph of a statement

A graph with what the patterns of a statement ask for: one node for every variable and for every pattern
without one, one relationship for every relationship pattern. Where some property values meet all maps
the statement has a match in it, the generic one (`genericBound_mem`); where none do it has no match in any
graph (`satisfiable_of_mem`).
-/

namespace Cypher

open PropertyGraph (Graph Node Rel)

/-- The node a pattern stands for: that of its variable, or one of its own. -/
inductive Place where
  | var (x : Text)
  | anon (p : NodePattern)
  deriving DecidableEq, Repr

def NodePattern.place (p : NodePattern) : Place :=
  match p.var with
  | some x => .var x
  | none => .anon p

/-- Property values for the places and the relationship patterns. -/
structure Values where
  node : Place → String → Option Json
  rel : RelPattern → String → Option Json

section Satisfiable

variable (R : Reading) (P : Params) (cs : List Clause)

structure Values.Fit (v : Values) : Prop where
  node : ∀ p ∈ nodesOf cs, ∀ e ∈ p.props, e.2.Agrees R P (v.node p.place (String.ofList e.1))
  rel : ∀ r ∈ relsOf cs, ∀ e ∈ r.props, e.2.Agrees R P (v.rel r (String.ofList e.1))

/-- The maps of one node, and of one relationship, agree. -/
def Satisfiable : Prop := ∃ v : Values, v.Fit R P cs

/-- Values with one property set apart. -/
def Values.withOwner (v : Values) (key : String) (owner : Place → Option Json) : Values where
  node pl k := if k = key then owner pl else v.node pl k
  rel r k := if k = key then none else v.rel r k

variable {R P cs}

theorem Values.Fit.withOwner {v : Values} (h : v.Fit R P cs) {key : String} {owner : Place → Option Json}
    (hkey : ∀ e ∈ entriesOf cs, String.ofList e.1 ≠ key) : (v.withOwner key owner).Fit R P cs where
  node p hp e he := by
    have hne := hkey e (List.mem_append_left _ (List.mem_flatMap.2 ⟨p, hp, he⟩))
    show e.2.Agrees R P (if _ = key then _ else _)
    rw [if_neg hne]
    exact h.node p hp e he
  rel r hr e he := by
    have hne := hkey e (List.mem_append_right _ (List.mem_flatMap.2 ⟨r, hr, he⟩))
    show e.2.Agrees R P (if _ = key then _ else _)
    rw [if_neg hne]
    exact h.rel r hr e he

/-- A statement with a match has maps that agree. -/
theorem satisfiable_of_mem {g : Graph} {b : Bound} (hids : (g.nodes.map (·.eid)).Nodup)
    (hdisjoint : ∀ x ∈ relVars cs, x ∉ nodeVars cs) (h : b ∈ answersFrom R P g [] cs) : Satisfiable R P cs := by
  classical
  obtain ⟨b₁, rfl, hbinds, hcoherent⟩ := Binds.of_answersFrom h
  have hplace : ∀ pl : Place, ∃ n : Node, ∀ p ∈ nodesOf cs, p.place = pl → p.Admits R P n := by
    rintro (x | q)
    · by_cases hx : x ∈ nodeVars cs
      · obtain ⟨n, -, -, hadmits⟩ := hbinds.lookup_node (hcoherent .nil) hids hx fun hrel => hdisjoint x hrel hx
        refine ⟨n, fun p hp hpl => hadmits p hp ?_⟩
        unfold NodePattern.place at hpl
        split at hpl
        · rename_i y hy
          rw [hy, Place.var.inj hpl]
        · cases hpl
      · refine ⟨⟨0, [], fun _ => none⟩, fun p hp hpl => absurd ?_ hx⟩
        unfold NodePattern.place at hpl
        split at hpl
        · rename_i y hy
          rw [← Place.var.inj hpl]
          exact List.mem_filterMap.2 ⟨p, hp, hy⟩
        · cases hpl
    · by_cases hq : q ∈ nodesOf cs
      · obtain ⟨n, -, hadmits, -⟩ := hbinds.node q hq
        refine ⟨n, fun p _ hpl => ?_⟩
        unfold NodePattern.place at hpl
        split at hpl
        · cases hpl
        · rw [Place.anon.inj hpl]
          exact hadmits
      · refine ⟨⟨0, [], fun _ => none⟩, fun p hp hpl => absurd ?_ hq⟩
        unfold NodePattern.place at hpl
        split at hpl
        · cases hpl
        · rwa [← Place.anon.inj hpl]
  have hrel : ∀ r : RelPattern, ∃ e : Rel, r ∈ relsOf cs → r.Admits R P e := by
    intro r
    by_cases hr : r ∈ relsOf cs
    · obtain ⟨_, e, -, hadmits, -⟩ := hbinds.rel r hr
      exact ⟨e, fun _ => hadmits⟩
    · exact ⟨⟨"", 0, 0, fun _ => none⟩, fun h => absurd h hr⟩
  choose node hnode using hplace
  choose rel hrel using hrel
  exact ⟨⟨fun pl => (node pl).props, fun r => (rel r).props⟩, fun p hp => (hnode p.place p hp rfl).2,
    fun r hr => (hrel r hr).2⟩

end Satisfiable

/-! ### The graph -/

section Graph

variable (all : List Clause) (v : Values)

def genericNode (pl : Place) : Node :=
  ⟨((nodesOf all).map (·.place)).idxOf pl,
    ((nodesOf all).filter (·.place = pl)).flatMap (·.labels.map String.ofList), v.node pl⟩

def genericRel (p : NodePattern) (r : RelPattern) (p' : NodePattern) : Rel :=
  let n := (genericNode all v p.place).eid
  let m := (genericNode all v p'.place).eid
  ⟨(r.types.head?.map String.ofList).getD "", if r.direction = .left then m else n,
    if r.direction = .left then n else m, v.rel r⟩

def hopRels : NodePattern → List (RelPattern × NodePattern) → List Rel
  | _, [] => []
  | p, (r, p') :: hops => genericRel all v p r p' :: hopRels p' hops

def pathsRels (paths : List PathPattern) : List Rel := paths.flatMap fun p => hopRels all v p.start p.hops

def clausesRels (cs : List Clause) : List Rel := cs.flatMap fun c => pathsRels all v c.paths

def genericGraph : Graph :=
  ⟨((nodesOf all).map (·.place)).dedup.map (genericNode all v), clausesRels all v all, (nodesOf all).length⟩

def hopTrace : Nat → NodePattern → List (RelPattern × NodePattern) → Trace
  | _, _, [] => ([], [])
  | i, p, (r, p') :: hops =>
    (bind r.var (.rel i (genericRel all v p r p')) ++ bind p'.var (.node (genericNode all v p'.place)) ++
      (hopTrace (i + 1) p' hops).1, i :: (hopTrace (i + 1) p' hops).2)

def pathTrace (i : Nat) (path : PathPattern) : Trace :=
  (bind path.start.var (.node (genericNode all v path.start.place)) ++ (hopTrace all v i path.start path.hops).1,
    (hopTrace all v i path.start path.hops).2)

def pathsTrace : Nat → List PathPattern → Trace
  | _, [] => ([], [])
  | i, p :: ps =>
    ((pathTrace all v i p).1 ++ (pathsTrace (i + p.hops.length) ps).1,
      (pathTrace all v i p).2 ++ (pathsTrace (i + p.hops.length) ps).2)

def genericBound : Nat → List Clause → Bound
  | _, [] => []
  | i, c :: cs => (pathsTrace all v i c.paths).1 ++ genericBound (i + (pathsRels all v c.paths).length) cs

variable {all v} {R : Reading} {P : Params}

theorem eid_genericNode_inj {pl pl' : Place} (h : pl ∈ (nodesOf all).map (·.place))
    (heq : (genericNode all v pl).eid = (genericNode all v pl').eid) : pl = pl' :=
  (List.idxOf_inj h).1 heq

theorem eids_genericGraph : ((genericGraph all v).nodes.map (·.eid)).Nodup := by
  rw [genericGraph, List.map_map]
  refine (List.nodup_map_iff_inj_on (List.nodup_dedup _)).2 fun pl hpl pl' _ heq => ?_
  exact eid_genericNode_inj (List.mem_dedup.1 hpl) heq

theorem genericNode_mem {p : NodePattern} (h : p ∈ nodesOf all) :
    genericNode all v p.place ∈ (genericGraph all v).nodes :=
  List.mem_map_of_mem (List.mem_dedup.2 (List.mem_map_of_mem h))

theorem Values.Fit.admits (hv : v.Fit R P all) {p : NodePattern} (h : p ∈ nodesOf all) :
    p.Admits R P (genericNode all v p.place) := by
  refine ⟨fun l hl => List.mem_flatMap.2 ⟨p, ?_, List.mem_map_of_mem hl⟩, hv.node p h⟩
  exact List.mem_filter.2 ⟨h, decide_eq_true rfl⟩

theorem Values.Fit.admits_rel (hv : v.Fit R P all) {r : RelPattern} (h : r ∈ relsOf all) (p p' : NodePattern) :
    r.Admits R P (genericRel all v p r p') := by
  refine ⟨?_, hv.rel r h⟩
  cases htypes : r.types with
  | nil => exact .inl rfl
  | cons t types =>
    refine .inr ⟨t, List.mem_cons_self, ?_⟩
    rw [genericRel, htypes]
    rfl

theorem joins_genericRel (p : NodePattern) (r : RelPattern) (p' : NodePattern) :
    r.direction.Joins (genericNode all v p.place) (genericRel all v p r p') (genericNode all v p'.place) := by
  cases hd : r.direction <;> simp [Direction.Joins, genericRel, hd]

theorem ends_hopRels {p : NodePattern} {hops : List (RelPattern × NodePattern)} (hp : p ∈ nodesOf all)
    (hsub : ∀ hop ∈ hops, hop.2 ∈ nodesOf all) {e : Rel} (he : e ∈ hopRels all v p hops) :
    e.source ∈ (genericGraph all v).nodes.map (·.eid) ∧ e.target ∈ (genericGraph all v).nodes.map (·.eid) := by
  induction hops generalizing p with
  | nil => cases he
  | cons hop hops ih =>
    obtain ⟨r, p'⟩ := hop
    obtain ⟨hp', hsub⟩ := List.forall_mem_cons.1 hsub
    rcases List.mem_cons.1 he with rfl | he
    · have hn := List.mem_map_of_mem (f := Node.eid) (genericNode_mem (v := v) hp)
      have hm := List.mem_map_of_mem (f := Node.eid) (genericNode_mem (v := v) hp')
      unfold genericRel
      dsimp only
      split_ifs
      · exact ⟨hm, hn⟩
      · exact ⟨hn, hm⟩
    · exact ih hp' hsub he

/-! ### The match -/

theorem length_hopRels (p : NodePattern) (hops : List (RelPattern × NodePattern)) :
    (hopRels all v p hops).length = hops.length := by
  induction hops generalizing p with
  | nil => rfl
  | cons hop hops ih => exact congrArg (· + 1) (ih hop.2)

theorem hopTrace_mem (hv : v.Fit R P all) {p : NodePattern} {hops : List (RelPattern × NodePattern)}
    (hsub : ∀ hop ∈ hops, hop.1 ∈ relsOf all ∧ hop.2 ∈ nodesOf all) {pre post : List Rel}
    (hrels : (genericGraph all v).rels = pre ++ hopRels all v p hops ++ post) :
    hopTrace all v pre.length p hops ∈ trails R P (genericGraph all v) (genericNode all v p.place) hops := by
  induction hops generalizing p pre with
  | nil => exact List.mem_singleton_self _
  | cons hop hops ih =>
    obtain ⟨r, p'⟩ := hop
    obtain ⟨⟨hr, hp'⟩, hsub⟩ := List.forall_mem_cons.1 hsub
    have hget : (genericGraph all v).rels[pre.length]? = some (genericRel all v p r p') := by
      rw [hrels, List.append_assoc, List.getElem?_append_right (Nat.le_refl _), Nat.sub_self]
      rfl
    have hrest : (genericGraph all v).rels = (pre ++ [genericRel all v p r p']) ++ hopRels all v p' hops ++ post := by
      rw [hrels, hopRels]
      simp
    refine mem_trails_cons.2 ⟨_, pre.length, _, _, hget, genericNode_mem hp', ⟨?_, ?_, hv.admits hp'⟩, ih hsub hrest, ?_⟩
    · exact hv.admits_rel hr p p'
    · exact joins_genericRel p r p'
    · rw [hopTrace, List.length_append]
      rfl

theorem pathTrace_mem (hv : v.Fit R P all) {path : PathPattern}
    (hsub : (∀ p ∈ path.nodes, p ∈ nodesOf all) ∧ ∀ r ∈ path.rels, r ∈ relsOf all) {pre post : List Rel}
    (hrels : (genericGraph all v).rels = pre ++ hopRels all v path.start path.hops ++ post) :
    pathTrace all v pre.length path ∈ path.traces R P (genericGraph all v) := by
  have hstart : path.start ∈ nodesOf all := hsub.1 _ List.mem_cons_self
  refine mem_traces.2 ⟨_, genericNode_mem hstart, hv.admits hstart, _, hopTrace_mem hv (fun hop hhop => ?_) hrels, rfl⟩
  exact ⟨hsub.2 _ (List.mem_map_of_mem hhop), hsub.1 _ (List.mem_cons_of_mem _ (List.mem_map_of_mem hhop))⟩

theorem pathsTrace_mem (hv : v.Fit R P all) {paths : List PathPattern}
    (hsub : ∀ path ∈ paths, (∀ p ∈ path.nodes, p ∈ nodesOf all) ∧ ∀ r ∈ path.rels, r ∈ relsOf all)
    {pre post : List Rel} (hrels : (genericGraph all v).rels = pre ++ pathsRels all v paths ++ post) :
    pathsTrace all v pre.length paths ∈ pathsTraces R P (genericGraph all v) paths := by
  induction paths generalizing pre with
  | nil => exact List.mem_singleton_self _
  | cons path paths ih =>
    obtain ⟨hpath, hsub⟩ := List.forall_mem_cons.1 hsub
    rw [pathsRels, List.flatMap_cons] at hrels
    have hfirst : (genericGraph all v).rels =
        pre ++ hopRels all v path.start path.hops ++ (pathsRels all v paths ++ post) := by
      rw [hrels]
      simp [pathsRels]
    have hrest : (genericGraph all v).rels =
        (pre ++ hopRels all v path.start path.hops) ++ pathsRels all v paths ++ post := by
      rw [hrels]
      simp [pathsRels]
    have hih := ih hsub hrest
    rw [List.length_append, length_hopRels] at hih
    exact mem_pathsTraces_cons.2 ⟨_, pathTrace_mem hv hpath hfirst, _, hih, rfl⟩

theorem used_hopTrace (i : Nat) (p : NodePattern) (hops : List (RelPattern × NodePattern)) :
    (hopTrace all v i p hops).2 = List.range' i hops.length := by
  induction hops generalizing i p with
  | nil => rfl
  | cons hop hops ih => rw [hopTrace, ih, List.length_cons, List.range'_succ]

theorem used_pathsTrace (i : Nat) (paths : List PathPattern) :
    (pathsTrace all v i paths).2 = List.range' i (pathsRels all v paths).length := by
  induction paths generalizing i with
  | nil => rfl
  | cons path paths ih =>
    have hlength : (pathsRels all v (path :: paths)).length = path.hops.length + (pathsRels all v paths).length := by
      rw [pathsRels, List.flatMap_cons, List.length_append, length_hopRels]
      rfl
    rw [pathsTrace, ih, pathTrace, used_hopTrace, hlength, ← List.range'_append_1]

theorem place_of_mem {p : NodePattern} {x : Text} (h : x ∈ p.var) : p.place = .var x := by
  have hvar : p.var = some x := h
  rw [NodePattern.place, hvar]

/-- The variable of a relationship. -/
def relKey (a : Text × Entity) : Option Text :=
  match a.2 with
  | .node _ => none
  | .rel _ _ => some a.1

variable (all v) in
/-- A binding of node variables to their generic nodes, and of the variables of relationships. -/
structure IsGeneric (b : Bound) (rs : List RelPattern) : Prop where
  node : ∀ x n, (x, .node n) ∈ b → n = genericNode all v (.var x) ∧ x ∈ nodeVars all
  rel : b.filterMap relKey = rs.filterMap (·.var)

namespace IsGeneric

variable {b b' : Bound} {rs rs' : List RelPattern}

theorem nil : IsGeneric all v [] [] := ⟨fun _ _ h => absurd h List.not_mem_nil, rfl⟩

theorem append (h : IsGeneric all v b rs) (h' : IsGeneric all v b' rs') : IsGeneric all v (b ++ b') (rs ++ rs') where
  node x n hx := (List.mem_append.1 hx).elim (h.node x n) (h'.node x n)
  rel := by rw [List.filterMap_append, List.filterMap_append, h.rel, h'.rel]

theorem singleNode {p : NodePattern} (h : p ∈ nodesOf all) :
    IsGeneric all v (bind p.var (.node (genericNode all v p.place))) [] where
  node x n hx := by
    obtain ⟨y, hy, heq⟩ := List.mem_map.1 hx
    cases heq
    have hvar := Option.mem_toList.1 hy
    exact ⟨by rw [place_of_mem hvar], List.mem_filterMap.2 ⟨p, h, hvar⟩⟩
  rel := by
    unfold bind
    cases p.var <;> rfl

theorem singleRel (i : Nat) (r : RelPattern) (e : Rel) : IsGeneric all v (bind r.var (.rel i e)) [r] where
  node x n hx := by
    obtain ⟨y, -, heq⟩ := List.mem_map.1 hx
    cases (Prod.mk.inj heq).2
  rel := by
    unfold bind
    cases hvar : r.var <;> simp [relKey, hvar]

theorem hopTrace {i : Nat} {p : NodePattern} {hops : List (RelPattern × NodePattern)}
    (hsub : ∀ hop ∈ hops, hop.2 ∈ nodesOf all) : IsGeneric all v (hopTrace all v i p hops).1 (hops.map (·.1)) := by
  induction hops generalizing i p with
  | nil => exact nil
  | cons hop hops ih =>
    obtain ⟨hp', hsub⟩ := List.forall_mem_cons.1 hsub
    exact ((singleRel i hop.1 _).append (singleNode hp')).append (ih hsub)

theorem pathsTrace {i : Nat} {paths : List PathPattern} (hsub : ∀ path ∈ paths, ∀ p ∈ path.nodes, p ∈ nodesOf all) :
    IsGeneric all v (pathsTrace all v i paths).1 (paths.flatMap (·.rels)) := by
  induction paths generalizing i with
  | nil => exact nil
  | cons path paths ih =>
    obtain ⟨hpath, hsub⟩ := List.forall_mem_cons.1 hsub
    have hhops : ∀ hop ∈ path.hops, hop.2 ∈ nodesOf all := fun hop hhop =>
      hpath _ (List.mem_cons_of_mem _ (List.mem_map_of_mem hhop))
    exact ((singleNode (hpath _ List.mem_cons_self)).append (IsGeneric.hopTrace hhops)).append (ih hsub)

/-- The generic match is coherent: a relationship has a variable of its own. -/
theorem coherent (h : IsGeneric all v b rs) (hnodup : (rs.filterMap (·.var)).Nodup)
    (hdisjoint : ∀ x ∈ rs.filterMap (·.var), x ∉ nodeVars all) : Coherent b := by
  rw [← h.rel] at hnodup hdisjoint
  have hne := List.pairwise_filterMap.1 hnodup
  refine List.Pairwise.imp_of_mem (fun {a c} ha hc hac heq => ?_) hne
  obtain ⟨x, e⟩ := a
  obtain ⟨y, e'⟩ := c
  obtain rfl : x = y := heq
  cases e with
  | node n =>
    obtain ⟨hn, hx⟩ := h.node x n ha
    cases e' with
    | node m =>
      obtain ⟨hm, -⟩ := h.node x m hc
      show n.eid = m.eid
      rw [hn, hm]
    | rel j e' => exact absurd hx (hdisjoint x (List.mem_filterMap.2 ⟨_, hc, rfl⟩))
  | rel i e =>
    cases e' with
    | node m => exact absurd (h.node x m hc).2 (hdisjoint x (List.mem_filterMap.2 ⟨_, ha, rfl⟩))
    | rel j e' => exact absurd rfl (hac x rfl x rfl)

end IsGeneric

theorem isGeneric_genericBound {i : Nat} {cs : List Clause}
    (hsub : ∀ c ∈ cs, ∀ path ∈ c.paths, ∀ p ∈ path.nodes, p ∈ nodesOf all) :
    IsGeneric all v (genericBound all v i cs) (relsOf cs) := by
  induction cs generalizing i with
  | nil => exact .nil
  | cons c cs ih =>
    obtain ⟨hc, hsub⟩ := List.forall_mem_cons.1 hsub
    exact (IsGeneric.pathsTrace hc).append (ih hsub)

/-- Without predicates the generic match is an answer. -/
theorem genericBound_mem_answersFrom (hv : v.Fit R P all) {cs : List Clause} (hpred : ∀ c ∈ cs, c.pred = none)
    (hsub : ∀ c ∈ cs, ∀ path ∈ c.paths, (∀ p ∈ path.nodes, p ∈ nodesOf all) ∧ ∀ r ∈ path.rels, r ∈ relsOf all)
    {pre post : List Rel} (hrels : (genericGraph all v).rels = pre ++ clausesRels all v cs ++ post) {b : Bound}
    (hcoherent : Coherent (b ++ genericBound all v pre.length cs)) :
    b ++ genericBound all v pre.length cs ∈ answersFrom R P (genericGraph all v) b cs := by
  induction cs generalizing b pre with
  | nil =>
    rw [genericBound, List.append_nil]
    exact List.mem_singleton_self b
  | cons c cs ih =>
    obtain ⟨hc, hsub⟩ := List.forall_mem_cons.1 hsub
    obtain ⟨hpredc, hpred⟩ := List.forall_mem_cons.1 hpred
    rw [clausesRels, List.flatMap_cons] at hrels
    have hfirst : (genericGraph all v).rels =
        pre ++ pathsRels all v c.paths ++ (clausesRels all v cs ++ post) := by
      rw [hrels]
      simp [clausesRels]
    have hrest : (genericGraph all v).rels =
        (pre ++ pathsRels all v c.paths) ++ clausesRels all v cs ++ post := by
      rw [hrels]
      simp [clausesRels]
    rw [genericBound, ← List.append_assoc] at hcoherent ⊢
    have hih := ih hpred hsub hrest (b := b ++ (pathsTrace all v pre.length c.paths).1)
      (by rwa [List.length_append])
    rw [List.length_append] at hih
    refine List.mem_flatMap.2 ⟨_, mem_extend.2 ⟨_, pathsTrace_mem hv hc hfirst, rfl, ?_, ?_, ?_⟩, hih⟩
    · exact (List.pairwise_append.1 hcoherent).1
    · rw [used_pathsTrace]
      exact List.nodup_range'
    · rw [Clause.holds, hpredc]
      rfl

end Graph

theorem mem_nodesOf {cs : List Clause} {c : Clause} {path : PathPattern} {p : NodePattern} (hc : c ∈ cs)
    (hpath : path ∈ c.paths) (hp : p ∈ path.nodes) : p ∈ nodesOf cs :=
  List.mem_flatMap.2 ⟨c, hc, List.mem_flatMap.2 ⟨path, hpath, hp⟩⟩

theorem mem_relsOf {cs : List Clause} {c : Clause} {path : PathPattern} {r : RelPattern} (hc : c ∈ cs)
    (hpath : path ∈ c.paths) (hr : r ∈ path.rels) : r ∈ relsOf cs :=
  List.mem_flatMap.2 ⟨c, hc, List.mem_flatMap.2 ⟨path, hpath, hr⟩⟩

section Generic

variable {R : Reading} {P : Params} {cs : List Clause} {v : Values}

theorem props_withOwner {key : String} {owner : Place → Option Json} {pl : Place} :
    (genericNode cs (v.withOwner key owner) pl).props key = owner pl := by
  show (if key = key then owner pl else v.node pl key) = owner pl
  rw [if_pos rfl]

theorem rel_props_withOwner {key : String} {owner : Place → Option Json} {e : Rel}
    (h : e ∈ (genericGraph cs (v.withOwner key owner)).rels) : e.props key = none := by
  have hhops : ∀ (p : NodePattern) (hops : List (RelPattern × NodePattern)),
      ∀ e ∈ hopRels cs (v.withOwner key owner) p hops, e.props key = none := by
    intro p hops
    induction hops generalizing p with
    | nil =>
      intro e he
      cases he
    | cons hop hops ih =>
      intro e he
      rcases List.mem_cons.1 he with rfl | he
      · show (if key = key then none else v.rel hop.1 key) = none
        rw [if_pos rfl]
      · exact ih hop.2 e he
  obtain ⟨c, -, he⟩ := List.mem_flatMap.1 h
  obtain ⟨path, -, he⟩ := List.mem_flatMap.1 he
  exact hhops path.start path.hops e he

theorem valid_genericGraph : (genericGraph cs v).Valid where
  eids := eids_genericGraph
  ends e he := by
    obtain ⟨c, hc, he⟩ := List.mem_flatMap.1 he
    obtain ⟨path, hpath, he⟩ := List.mem_flatMap.1 he
    refine ends_hopRels (mem_nodesOf hc hpath List.mem_cons_self) (fun hop hhop => ?_) he
    exact mem_nodesOf hc hpath (List.mem_cons_of_mem _ (List.mem_map_of_mem hhop))

/-- Without predicates, property values that meet all maps give a match: the generic one. -/
theorem genericBound_mem (hv : v.Fit R P cs) (hpred : ∀ c ∈ cs, c.pred = none) (hnodup : (relVars cs).Nodup)
    (hdisjoint : ∀ x ∈ relVars cs, x ∉ nodeVars cs) :
    genericBound cs v 0 cs ∈ answersFrom R P (genericGraph cs v) [] cs := by
  have hgeneric : IsGeneric cs v (genericBound cs v 0 cs) (relsOf cs) :=
    isGeneric_genericBound fun c hc path hpath p hp => mem_nodesOf hc hpath hp
  have hrels : (genericGraph cs v).rels = [] ++ clausesRels cs v cs ++ [] := by
    rw [List.append_nil, List.nil_append]
    rfl
  exact genericBound_mem_answersFrom hv hpred (fun c hc path hpath => ⟨fun p hp => mem_nodesOf hc hpath hp,
    fun r hr => mem_relsOf hc hpath hr⟩) hrels (hgeneric.coherent hnodup hdisjoint)

/-- The generic match binds a node variable to its generic node. -/
theorem lookup_genericBound (hv : v.Fit R P cs) (hpred : ∀ c ∈ cs, c.pred = none) (hnodup : (relVars cs).Nodup)
    (hdisjoint : ∀ x ∈ relVars cs, x ∉ nodeVars cs) {x : Text} (hx : x ∈ nodeVars cs) :
    (genericBound cs v 0 cs).lookup x = some (.node (genericNode cs v (.var x))) := by
  have hgeneric : IsGeneric cs v (genericBound cs v 0 cs) (relsOf cs) :=
    isGeneric_genericBound fun c hc path hpath p hp => mem_nodesOf hc hpath hp
  obtain ⟨b, hb, hbinds, -⟩ := Binds.of_answersFrom (genericBound_mem hv hpred hnodup hdisjoint)
  rw [List.nil_append] at hb
  obtain ⟨p, hp, hvar⟩ := List.mem_filterMap.1 hx
  obtain ⟨n, -, -, hbound⟩ := hbinds.node p hp
  have hmem : (x, .node n) ∈ genericBound cs v 0 cs := hb ▸ hbound x hvar
  obtain ⟨e, he⟩ := exists_lookup hmem
  rw [he]
  cases e with
  | node m => rw [(hgeneric.node x m (mem_of_lookup he)).1]
  | rel i e =>
    have hrel : x ∈ (genericBound cs v 0 cs).filterMap relKey := List.mem_filterMap.2 ⟨_, mem_of_lookup he, rfl⟩
    rw [hgeneric.rel] at hrel
    exact absurd hx (hdisjoint x hrel)

end Generic

end Cypher
