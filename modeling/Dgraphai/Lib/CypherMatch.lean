import Dgraphai.Lib.CypherRun
import Mathlib.Data.List.Nodup

/-!
# Matching path patterns

Statements `MATCH paths [WHERE predicate] … RETURN items [LIMIT n]` and their answers over a graph. A
match assigns a node to every node pattern and a relationship to every relationship pattern; one variable
is one entity, and within a MATCH clause no relationship is used twice. The database returns the rows in
any order, here that of a parameter.
-/

namespace Cypher

open PropertyGraph (Graph Node Rel Props)

/-! ### Statements -/

abbrev Entries := List (Text × Operand)

/-- `(var:labels {props})`. -/
structure NodePattern where
  var : Option Text
  labels : List Text
  props : Entries
  deriving DecidableEq, Repr

inductive Direction where
  | right | left | both
  deriving DecidableEq, Repr

/-- `-[var:types {props}]->`; without a type any relationship. -/
structure RelPattern where
  var : Option Text
  types : List Text
  props : Entries
  direction : Direction
  deriving DecidableEq, Repr

structure PathPattern where
  start : NodePattern
  hops : List (RelPattern × NodePattern)
  deriving DecidableEq, Repr

/-- `MATCH paths [WHERE pred]`. -/
structure Clause where
  paths : List PathPattern
  pred : Option (List Token)
  deriving DecidableEq, Repr

/-- `var [AS column]` or `var.key [AS column]`. -/
structure Item where
  var : Text
  key : Option Text
  column : Text
  deriving DecidableEq, Repr

structure Statement where
  clauses : List Clause
  items : List Item
  limit : Option Nat
  deriving DecidableEq, Repr

def PathPattern.nodes (p : PathPattern) : List NodePattern := p.start :: p.hops.map (·.2)

def PathPattern.rels (p : PathPattern) : List RelPattern := p.hops.map (·.1)

def nodesOf (cs : List Clause) : List NodePattern := cs.flatMap fun c => c.paths.flatMap (·.nodes)

def relsOf (cs : List Clause) : List RelPattern := cs.flatMap fun c => c.paths.flatMap (·.rels)

def nodeVars (cs : List Clause) : List Text := (nodesOf cs).filterMap (·.var)

def relVars (cs : List Clause) : List Text := (relsOf cs).filterMap (·.var)

/-- The variables a list of clauses binds. -/
def vars (cs : List Clause) : List Text := nodeVars cs ++ relVars cs

def entriesOf (cs : List Clause) : Entries :=
  (nodesOf cs).flatMap (·.props) ++ (relsOf cs).flatMap (·.props)

/-! ### Matches -/

inductive Entity where
  | node (n : Node)
  /-- A relationship, with its place in the graph. -/
  | rel (i : Nat) (r : Rel)

namespace Entity

/-- An entity as an expression reads it. -/
def record : Entity → Node
  | node n => n
  | rel i r => ⟨i, [r.type], r.props⟩

def node? : Entity → Option Node
  | node n => some n
  | rel _ _ => none

def Same : Entity → Entity → Prop
  | node n, node m => n.eid = m.eid
  | rel i _, rel j _ => i = j
  | _, _ => False

instance : ∀ e e' : Entity, Decidable (e.Same e')
  | node n, node m => inferInstanceAs (Decidable (n.eid = m.eid))
  | rel i _, rel j _ => inferInstanceAs (Decidable (i = j))
  | node _, rel _ _ | rel _ _, node _ => .isFalse id

end Entity

abbrev Bound := List (Text × Entity)

/-- One variable is one entity. -/
def Coherent (b : Bound) : Prop := b.Pairwise fun p p' => p.1 = p'.1 → p.2.Same p'.2

instance (b : Bound) : Decidable (Coherent b) := inferInstanceAs (Decidable (b.Pairwise _))

def bind (x : Option Text) (e : Entity) : Bound := x.toList.map (·, e)

/-- The entities bound, and the places of the relationships used. -/
abbrev Trace := Bound × List Nat

section Matches

variable (R : Reading) (P : Params)

/-- A property has the value an operand stands for. -/
def Operand.Agrees (rhs : Operand) (v : Option Json) : Prop :=
  (do compareValues R .eq (← v) (← rhs.value R P)) = some true

instance (rhs : Operand) (v : Option Json) : Decidable (rhs.Agrees R P v) :=
  inferInstanceAs (Decidable (_ = some true))

def NodePattern.Admits (p : NodePattern) (n : Node) : Prop :=
  (∀ l ∈ p.labels, String.ofList l ∈ n.labels) ∧ ∀ e ∈ p.props, e.2.Agrees R P (n.props (String.ofList e.1))

instance (p : NodePattern) (n : Node) : Decidable (p.Admits R P n) := inferInstanceAs (Decidable (_ ∧ _))

def RelPattern.Admits (r : RelPattern) (e : Rel) : Prop :=
  (r.types = [] ∨ ∃ t ∈ r.types, e.type = String.ofList t) ∧
    ∀ p ∈ r.props, p.2.Agrees R P (e.props (String.ofList p.1))

instance (r : RelPattern) (e : Rel) : Decidable (r.Admits R P e) := inferInstanceAs (Decidable (_ ∧ _))

def Direction.Joins (d : Direction) (n : Node) (e : Rel) (m : Node) : Prop :=
  (d ≠ .left ∧ e.source = n.eid ∧ e.target = m.eid) ∨ (d ≠ .right ∧ e.source = m.eid ∧ e.target = n.eid)

instance (d : Direction) (n : Node) (e : Rel) (m : Node) : Decidable (d.Joins n e m) :=
  inferInstanceAs (Decidable (_ ∨ _))

variable (g : Graph)

/-- The ways to follow a path on from a node. -/
def trails : Node → List (RelPattern × NodePattern) → List Trace
  | _, [] => [([], [])]
  | n, (r, p) :: hops =>
    g.rels.zipIdx.flatMap fun e => g.nodes.flatMap fun m =>
      if r.Admits R P e.1 ∧ r.direction.Joins n e.1 m ∧ p.Admits R P m then
        (trails m hops).map fun t => (bind r.var (.rel e.2 e.1) ++ bind p.var (.node m) ++ t.1, e.2 :: t.2)
      else []

def PathPattern.traces (p : PathPattern) : List Trace :=
  (g.nodes.filter fun n => p.start.Admits R P n).flatMap fun n =>
    (trails R P g n p.hops).map fun t => (bind p.start.var (.node n) ++ t.1, t.2)

def pathsTraces : List PathPattern → List Trace
  | [] => [([], [])]
  | p :: ps => (p.traces R P g).flatMap fun t => (pathsTraces ps).map fun u => (t.1 ++ u.1, t.2 ++ u.2)

def Clause.holds (c : Clause) (b : Bound) : Bool :=
  c.pred.all fun ts => evalPred R P g (b.map fun p => (p.1, p.2.record)) ts = some true

/-- The matches of a clause that go on from a binding. -/
def Clause.extend (c : Clause) (b : Bound) : List Bound :=
  (((pathsTraces R P g c.paths).filter fun t => Coherent (b ++ t.1) ∧ t.2.Nodup).map (b ++ ·.1)).filter
    (c.holds R P g)

def answersFrom : Bound → List Clause → List Bound
  | b, [] => [b]
  | b, c :: cs => (c.extend R P g b).flatMap fun b' => answersFrom b' cs

/-- The database takes the atoms of every predicate, over the variables bound so far. -/
def acceptsClauses : List Text → List Clause → Bool
  | _, [] => true
  | xs, c :: cs =>
    ((c.pred.toList.flatMap fun ts => exprAtoms ts.length ts).all fun a =>
      acceptsAtom R P (xs ++ vars [c]) (parseAtom a)) && acceptsClauses (xs ++ vars [c]) cs

end Matches

/-- What a row shows in a column: an entity, or a property of it. -/
structure Cell where
  column : Text
  entity : Entity
  key : Option Text

abbrev Row := List Cell

/-- The nodes a row shows, or shows properties of. -/
def Row.nodes (row : Row) : List Node := row.filterMap (·.entity.node?)

namespace Statement

variable (R : Reading) (P : Params) (g : Graph) (q : Statement)

/-- A relationship has a variable of its own; operands have values; items name what is bound. -/
def accepted : Bool :=
  decide ((relVars q.clauses).Nodup ∧ ∀ x ∈ relVars q.clauses, x ∉ nodeVars q.clauses) &&
    acceptsClauses R P [] q.clauses && ((entriesOf q.clauses).all fun e => (e.2.value R P).isSome) &&
    decide (q.items ≠ [] ∧ (q.items.map (·.column)).Nodup ∧ ∀ it ∈ q.items, it.var ∈ vars q.clauses)

def answers : List Bound := answersFrom R P g [] q.clauses

def row (b : Bound) : Row :=
  q.items.filterMap fun it => (b.lookup it.var).map fun e => ⟨it.column, e, it.key⟩

/-- `LIMIT n`. -/
def page (rows : List Row) : List Row :=
  match q.limit with
  | some l => rows.take l
  | none => rows

def run (order : List Row → List Row) : Option (List Row) :=
  if q.accepted R P then some (q.page (order ((q.answers R P g).map q.row))) else none

end Statement

/-! ### What a match binds -/

section Soundness

variable {R : Reading} {P : Params} {g : Graph} {n : Node} {r : RelPattern} {p : NodePattern}
  {hops : List (RelPattern × NodePattern)} {t : Trace}

theorem mem_trails_cons : t ∈ trails R P g n ((r, p) :: hops) ↔ ∃ e i m u, g.rels[i]? = some e ∧ m ∈ g.nodes ∧
    (r.Admits R P e ∧ r.direction.Joins n e m ∧ p.Admits R P m) ∧ u ∈ trails R P g m hops ∧
      t = (bind r.var (.rel i e) ++ bind p.var (.node m) ++ u.1, i :: u.2) := by
  rw [trails, List.mem_flatMap]
  constructor
  · rintro ⟨⟨e, i⟩, he, ht⟩
    obtain ⟨m, hm, ht⟩ := List.mem_flatMap.1 ht
    split_ifs at ht with hadmits
    · obtain ⟨u, hu, rfl⟩ := List.mem_map.1 ht
      exact ⟨e, i, m, u, List.mk_mem_zipIdx_iff_getElem?.1 he, hm, hadmits, hu, rfl⟩
    · cases ht
  · rintro ⟨e, i, m, u, he, hm, hadmits, hu, rfl⟩
    refine ⟨(e, i), List.mk_mem_zipIdx_iff_getElem?.2 he, List.mem_flatMap.2 ⟨m, hm, ?_⟩⟩
    rw [if_pos hadmits]
    exact List.mem_map_of_mem hu

theorem mem_traces {path : PathPattern} : t ∈ path.traces R P g ↔ ∃ n ∈ g.nodes, path.start.Admits R P n ∧
    ∃ u ∈ trails R P g n path.hops, t = (bind path.start.var (.node n) ++ u.1, u.2) := by
  rw [PathPattern.traces, List.mem_flatMap]
  constructor
  · rintro ⟨n, hn, ht⟩
    obtain ⟨hn, hadmits⟩ := List.mem_filter.1 hn
    obtain ⟨u, hu, rfl⟩ := List.mem_map.1 ht
    exact ⟨n, hn, of_decide_eq_true hadmits, u, hu, rfl⟩
  · rintro ⟨n, hn, hadmits, u, hu, rfl⟩
    exact ⟨n, List.mem_filter.2 ⟨hn, decide_eq_true hadmits⟩, List.mem_map_of_mem hu⟩

theorem mem_pathsTraces_cons {path : PathPattern} {paths : List PathPattern} :
    t ∈ pathsTraces R P g (path :: paths) ↔ ∃ u ∈ path.traces R P g, ∃ v ∈ pathsTraces R P g paths,
      t = (u.1 ++ v.1, u.2 ++ v.2) := by
  rw [pathsTraces, List.mem_flatMap]
  constructor
  · rintro ⟨u, hu, ht⟩
    obtain ⟨v, hv, rfl⟩ := List.mem_map.1 ht
    exact ⟨u, hu, v, hv, rfl⟩
  · rintro ⟨u, hu, v, hv, rfl⟩
    exact ⟨u, hu, List.mem_map_of_mem hv⟩

theorem mem_extend {c : Clause} {b b' : Bound} : b' ∈ c.extend R P g b ↔ ∃ u ∈ pathsTraces R P g c.paths,
    b' = b ++ u.1 ∧ Coherent (b ++ u.1) ∧ u.2.Nodup ∧ c.holds R P g (b ++ u.1) = true := by
  rw [Clause.extend, List.mem_filter, List.mem_map]
  constructor
  · rintro ⟨⟨u, hu, rfl⟩, hholds⟩
    obtain ⟨hu, htest⟩ := List.mem_filter.1 hu
    obtain ⟨hcoherent, hnodup⟩ := of_decide_eq_true htest
    exact ⟨u, hu, rfl, hcoherent, hnodup, hholds⟩
  · rintro ⟨u, hu, rfl, hcoherent, hnodup, hholds⟩
    exact ⟨⟨u, List.mem_filter.2 ⟨hu, decide_eq_true ⟨hcoherent, hnodup⟩⟩, rfl⟩, hholds⟩

variable (R P g) in
/-- A binding of patterns: everything they ask for is there, and nothing else is bound. -/
structure Binds (ps : List NodePattern) (rs : List RelPattern) (b : Bound) : Prop where
  node : ∀ p ∈ ps, ∃ n ∈ g.nodes, p.Admits R P n ∧ ∀ x ∈ p.var, (x, .node n) ∈ b
  rel : ∀ r ∈ rs, ∃ i, ∃ e ∈ g.rels, r.Admits R P e ∧ ∀ x ∈ r.var, (x, .rel i e) ∈ b
  entity : ∀ a ∈ b, (∃ n ∈ g.nodes, a.2 = .node n ∧ ∃ p ∈ ps, p.var = some a.1) ∨
    ∃ i, ∃ e ∈ g.rels, a.2 = .rel i e ∧ ∃ r ∈ rs, r.var = some a.1

namespace Binds

variable {ps ps' : List NodePattern} {rs rs' : List RelPattern} {b b' : Bound}

theorem nil : Binds R P g [] [] [] where
  node _ h := absurd h List.not_mem_nil
  rel _ h := absurd h List.not_mem_nil
  entity _ h := absurd h List.not_mem_nil

theorem append (h : Binds R P g ps rs b) (h' : Binds R P g ps' rs' b') :
    Binds R P g (ps ++ ps') (rs ++ rs') (b ++ b') where
  node p hp := by
    rcases List.mem_append.1 hp with hp | hp
    · obtain ⟨n, hn, hadmits, hx⟩ := h.node p hp
      exact ⟨n, hn, hadmits, fun x hvar => List.mem_append_left b' (hx x hvar)⟩
    · obtain ⟨n, hn, hadmits, hx⟩ := h'.node p hp
      exact ⟨n, hn, hadmits, fun x hvar => List.mem_append_right b (hx x hvar)⟩
  rel r hr := by
    rcases List.mem_append.1 hr with hr | hr
    · obtain ⟨i, e, he, hadmits, hx⟩ := h.rel r hr
      exact ⟨i, e, he, hadmits, fun x hvar => List.mem_append_left b' (hx x hvar)⟩
    · obtain ⟨i, e, he, hadmits, hx⟩ := h'.rel r hr
      exact ⟨i, e, he, hadmits, fun x hvar => List.mem_append_right b (hx x hvar)⟩
  entity a ha := by
    rcases List.mem_append.1 ha with ha | ha
    · rcases h.entity a ha with ⟨n, hn, heq, p, hp, hvar⟩ | ⟨i, e, he, heq, r, hr, hvar⟩
      · exact .inl ⟨n, hn, heq, p, List.mem_append_left ps' hp, hvar⟩
      · exact .inr ⟨i, e, he, heq, r, List.mem_append_left rs' hr, hvar⟩
    · rcases h'.entity a ha with ⟨n, hn, heq, p, hp, hvar⟩ | ⟨i, e, he, heq, r, hr, hvar⟩
      · exact .inl ⟨n, hn, heq, p, List.mem_append_right ps hp, hvar⟩
      · exact .inr ⟨i, e, he, heq, r, List.mem_append_right rs hr, hvar⟩

theorem singleNode (hn : n ∈ g.nodes) (hadmits : p.Admits R P n) :
    Binds R P g [p] [] (bind p.var (.node n)) where
  node q hq := by
    obtain rfl := List.mem_singleton.1 hq
    exact ⟨n, hn, hadmits, fun x hx => List.mem_map_of_mem (Option.mem_toList.2 hx)⟩
  rel _ h := absurd h List.not_mem_nil
  entity a ha := by
    obtain ⟨x, hx, rfl⟩ := List.mem_map.1 ha
    exact .inl ⟨n, hn, rfl, p, List.mem_singleton_self p, Option.mem_toList.1 hx⟩

theorem singleRel {i : Nat} {e : Rel} (he : e ∈ g.rels) (hadmits : r.Admits R P e) :
    Binds R P g [] [r] (bind r.var (.rel i e)) where
  node _ h := absurd h List.not_mem_nil
  rel q hq := by
    obtain rfl := List.mem_singleton.1 hq
    exact ⟨i, e, he, hadmits, fun x hx => List.mem_map_of_mem (Option.mem_toList.2 hx)⟩
  entity a ha := by
    obtain ⟨x, hx, rfl⟩ := List.mem_map.1 ha
    exact .inr ⟨i, e, he, rfl, r, List.mem_singleton_self r, Option.mem_toList.1 hx⟩

theorem of_trails (h : t ∈ trails R P g n hops) : Binds R P g (hops.map (·.2)) (hops.map (·.1)) t.1 := by
  induction hops generalizing n t with
  | nil =>
    obtain rfl := List.mem_singleton.1 h
    exact nil
  | cons hop hops ih =>
    obtain ⟨r, p⟩ := hop
    obtain ⟨e, i, m, u, he, hm, ⟨hr, -, hp⟩, hu, rfl⟩ := mem_trails_cons.1 h
    exact ((singleRel (List.mem_of_getElem? he) hr).append (singleNode hm hp)).append (ih hu)

theorem of_traces {path : PathPattern} (h : t ∈ path.traces R P g) : Binds R P g path.nodes path.rels t.1 := by
  obtain ⟨n, hn, hadmits, u, hu, rfl⟩ := mem_traces.1 h
  exact (singleNode hn hadmits).append (of_trails hu)

theorem of_pathsTraces {paths : List PathPattern} (h : t ∈ pathsTraces R P g paths) :
    Binds R P g (paths.flatMap (·.nodes)) (paths.flatMap (·.rels)) t.1 := by
  induction paths generalizing t with
  | nil =>
    obtain rfl := List.mem_singleton.1 h
    exact nil
  | cons path paths ih =>
    obtain ⟨u, hu, v, hv, rfl⟩ := mem_pathsTraces_cons.1 h
    exact (of_traces hu).append (ih hv)

/-- An answer goes on from the binding it began with, binds the patterns and stays coherent. -/
theorem of_answersFrom {cs : List Clause} (h : b' ∈ answersFrom R P g b cs) :
    ∃ b₁, b' = b ++ b₁ ∧ Binds R P g (nodesOf cs) (relsOf cs) b₁ ∧ (Coherent b → Coherent b') := by
  induction cs generalizing b with
  | nil =>
    obtain rfl := List.mem_singleton.1 h
    exact ⟨[], (List.append_nil b').symm, nil, id⟩
  | cons c cs ih =>
    obtain ⟨b₂, hb₂, h⟩ := List.mem_flatMap.1 h
    obtain ⟨u, hu, rfl, hcoherent, -⟩ := mem_extend.1 hb₂
    obtain ⟨b₁, rfl, hb₁, hb'⟩ := ih h
    exact ⟨u.1 ++ b₁, List.append_assoc b u.1 b₁, (of_pathsTraces hu).append hb₁, fun _ => hb' hcoherent⟩

end Binds

end Soundness

/-! ### The entity of a variable -/

namespace Entity

variable {e e' : Entity}

theorem Same.refl : e.Same e := by
  cases e <;> exact rfl

theorem Same.symm (h : e.Same e') : e'.Same e := by
  cases e <;> cases e' <;> first | exact Eq.symm h | exact h

end Entity

section Lookup

variable {R : Reading} {P : Params} {g : Graph} {ps : List NodePattern} {rs : List RelPattern} {b b₁ : Bound}
  {x : Text} {e e' : Entity}

theorem exists_lookup (h : (x, e) ∈ b) : ∃ e', b.lookup x = some e' :=
  Option.isSome_iff_exists.1 (List.lookup_isSome_iff.2 ⟨(x, e), h, beq_self_eq_true x⟩)

theorem lookup_append_of_some (h : b.lookup x = some e) : (b ++ b₁).lookup x = some e := by
  rw [List.lookup_append, h, Option.some_or]

theorem Coherent.same (h : Coherent b) (he : (x, e) ∈ b) (he' : (x, e') ∈ b) : e.Same e' := by
  have hall : ∀ p ∈ b, ∀ p' ∈ b, p.1 = p'.1 → p.2.Same p'.2 := by
    refine List.Pairwise.forall_of_forall_of_flip (fun p _ _ => Entity.Same.refl) h ?_
    refine List.Pairwise.imp (fun {p p'} hsame heq => ?_) h
    exact (hsame heq.symm).symm
  exact hall _ he _ he' rfl

/-- The node of a node variable admits every pattern of that variable. -/
theorem Binds.lookup_node (h : Binds R P g ps rs b) (hcoherent : Coherent b) (hids : (g.nodes.map (·.eid)).Nodup)
    (hx : x ∈ ps.filterMap (·.var)) (hrel : x ∉ rs.filterMap (·.var)) :
    ∃ n ∈ g.nodes, b.lookup x = some (.node n) ∧ ∀ p ∈ ps, p.var = some x → p.Admits R P n := by
  obtain ⟨q, hq, hqx⟩ := List.mem_filterMap.1 hx
  obtain ⟨_, -, -, hbound⟩ := h.node q hq
  obtain ⟨e, he⟩ := exists_lookup (hbound x hqx)
  have hmem := mem_of_lookup he
  rcases h.entity (x, e) hmem with ⟨n, hn, rfl, -⟩ | ⟨i, e', -, -, r, hr, hvar⟩
  · refine ⟨n, hn, he, fun p hp hpx => ?_⟩
    obtain ⟨m, hm, hadmits, hbound⟩ := h.node p hp
    have hsame : n.eid = m.eid := hcoherent.same hmem (hbound x hpx)
    rw [List.inj_on_of_nodup_map hids hn hm hsame]
    exact hadmits
  · exact absurd (List.mem_filterMap.2 ⟨r, hr, hvar⟩) hrel

theorem Binds.lookup_rel (h : Binds R P g ps rs b) (hx : x ∈ rs.filterMap (·.var))
    (hnode : x ∉ ps.filterMap (·.var)) : ∃ i, ∃ e ∈ g.rels, b.lookup x = some (.rel i e) := by
  obtain ⟨q, hq, hqx⟩ := List.mem_filterMap.1 hx
  obtain ⟨_, _, -, -, hbound⟩ := h.rel q hq
  obtain ⟨e, he⟩ := exists_lookup (hbound x hqx)
  rcases h.entity (x, e) (mem_of_lookup he) with ⟨n, -, -, p, hp, hvar⟩ | ⟨i, e', he', rfl, -⟩
  · exact absurd (List.mem_filterMap.2 ⟨p, hp, hvar⟩) hnode
  · exact ⟨i, e', he', he⟩

end Lookup

theorem exists_lookup_of_answersFrom {R : Reading} {P : Params} {g : Graph} {cs : List Clause} {b : Bound} {x : Text}
    (h : b ∈ answersFrom R P g [] cs) (hx : x ∈ vars cs) : ∃ e, b.lookup x = some e := by
  obtain ⟨b₁, rfl, hbinds, -⟩ := Binds.of_answersFrom h
  rcases List.mem_append.1 hx with hx | hx
  · obtain ⟨p, hp, hvar⟩ := List.mem_filterMap.1 hx
    obtain ⟨_, -, -, hbound⟩ := hbinds.node p hp
    exact exists_lookup (hbound x hvar)
  · obtain ⟨r, hr, hvar⟩ := List.mem_filterMap.1 hx
    obtain ⟨_, _, -, -, hbound⟩ := hbinds.rel r hr
    exact exists_lookup (hbound x hvar)

/-! ### A predicate in the middle -/

section Predicate

variable {R : Reading} {P : Params} {g : Graph} {b : Bound} {cs ds : List Clause} {paths : List PathPattern}
  {pred : List Token}

theorem answersFrom_append : answersFrom R P g b (cs ++ ds) =
    (answersFrom R P g b cs).flatMap fun b' => answersFrom R P g b' ds := by
  induction cs generalizing b with
  | nil => simp [answersFrom]
  | cons c cs ih => simp only [List.cons_append, answersFrom, ih, List.flatMap_assoc]

theorem extend_pred : Clause.extend R P g ⟨paths, some pred⟩ b = (Clause.extend R P g ⟨paths, none⟩ b).filter
    (Clause.holds R P g ⟨paths, some pred⟩) := by
  have hnone : Clause.holds R P g ⟨paths, none⟩ = fun _ => true := rfl
  rw [Clause.extend, Clause.extend, hnone, List.filter_true]

theorem flatMap_filter_of_keep {α β : Type*} {l : List α} {f : α → List β} {keep : α → Bool} {keep' : β → Bool}
    (h : ∀ a ∈ l, ∀ c ∈ f a, keep' c = keep a) : (l.filter keep).flatMap f = (l.flatMap f).filter keep' := by
  induction l with
  | nil => rfl
  | cons a l ih =>
    obtain ⟨ha, hl⟩ := List.forall_mem_cons.1 h
    rw [List.flatMap_cons, List.filter_append, ← ih hl, List.filter_cons]
    split_ifs with hkeep
    · have hall : (f a).filter keep' = f a := List.filter_eq_self.2 fun c hc => (ha c hc).trans hkeep
      rw [List.flatMap_cons, hall]
    · have hnone : (f a).filter keep' = [] := List.filter_eq_nil_iff.2 fun c hc => by rwa [ha c hc]
      rw [hnone, List.nil_append]

/-- A predicate on a clause keeps the answers it is true of, where later clauses do not change its value. -/
theorem answersFrom_pred {keep : Bound → Bool}
    (hpred : ∀ b' ∈ answersFrom R P g b (cs ++ [⟨paths, none⟩]),
      Clause.holds R P g ⟨paths, some pred⟩ b' = keep b')
    (hkeep : ∀ b' ∈ answersFrom R P g b (cs ++ [⟨paths, none⟩]), ∀ b₁, keep (b' ++ b₁) = keep b') :
    answersFrom R P g b (cs ++ ⟨paths, some pred⟩ :: ds) =
      (answersFrom R P g b (cs ++ ⟨paths, none⟩ :: ds)).filter keep := by
  have hone : answersFrom R P g b (cs ++ [⟨paths, some pred⟩]) =
      (answersFrom R P g b (cs ++ [⟨paths, none⟩])).filter keep := by
    rw [← List.filter_congr hpred, answersFrom_append, answersFrom_append, List.filter_flatMap]
    refine List.flatMap_congr fun b' _ => ?_
    simp only [answersFrom, List.flatMap_singleton', extend_pred]
  have hsplit : ∀ c : Clause, answersFrom R P g b (cs ++ c :: ds) =
      (answersFrom R P g b (cs ++ [c])).flatMap fun b' => answersFrom R P g b' ds := by
    intro c
    rw [← answersFrom_append, List.append_assoc, List.singleton_append]
  rw [hsplit, hsplit, hone]
  refine flatMap_filter_of_keep fun b' hb' c hc => ?_
  obtain ⟨b₁, rfl, -⟩ := Binds.of_answersFrom hc
  exact hkeep b' hb' b₁

end Predicate

/-! ### The scope of a predicate -/

section Scope

variable {R : Reading} {P : Params} {xs : List Text} {cs ds : List Clause} {paths : List PathPattern}
  {pred : List Token} {x : Text}

/-- The variables in scope behind a list of clauses. -/
def scopeAfter (xs : List Text) (cs : List Clause) : List Text := cs.foldl (fun xs c => xs ++ vars [c]) xs

theorem mem_vars_append : x ∈ vars (cs ++ ds) ↔ x ∈ vars cs ∨ x ∈ vars ds := by
  simp only [vars, nodeVars, relVars, nodesOf, relsOf, List.flatMap_append, List.filterMap_append, List.mem_append]
  constructor
  · rintro ((h | h) | (h | h))
    · exact .inl (.inl h)
    · exact .inr (.inl h)
    · exact .inl (.inr h)
    · exact .inr (.inr h)
  · rintro ((h | h) | (h | h))
    · exact .inl (.inl h)
    · exact .inr (.inl h)
    · exact .inl (.inr h)
    · exact .inr (.inr h)

theorem mem_scopeAfter : x ∈ scopeAfter xs cs ↔ x ∈ xs ∨ x ∈ vars cs := by
  induction cs generalizing xs with
  | nil => simp [scopeAfter, vars, nodeVars, relVars, nodesOf, relsOf]
  | cons c cs ih =>
    have hstep : scopeAfter xs (c :: cs) = scopeAfter (xs ++ vars [c]) cs := rfl
    have hcons : c :: cs = [c] ++ cs := rfl
    have hvars : x ∈ vars (c :: cs) ↔ x ∈ vars [c] ∨ x ∈ vars cs := by rw [hcons, mem_vars_append]
    rw [hstep, ih, List.mem_append, hvars, or_assoc]

theorem acceptsClauses_append : acceptsClauses R P xs (cs ++ ds) =
    (acceptsClauses R P xs cs && acceptsClauses R P (scopeAfter xs cs) ds) := by
  induction cs generalizing xs with
  | nil => rfl
  | cons c cs ih =>
    rw [List.cons_append, acceptsClauses, ih, acceptsClauses, Bool.and_assoc]
    rfl

theorem vars_pred : vars [⟨paths, some pred⟩] = vars [⟨paths, none⟩] := rfl

theorem acceptsClauses_pred : acceptsClauses R P xs (cs ++ ⟨paths, some pred⟩ :: ds) =
    (acceptsClauses R P xs (cs ++ ⟨paths, none⟩ :: ds) && (exprAtoms pred.length pred).all fun a =>
      acceptsAtom R P (scopeAfter xs (cs ++ [⟨paths, none⟩])) (parseAtom a)) := by
  have hscope : scopeAfter xs (cs ++ [⟨paths, none⟩]) = scopeAfter xs cs ++ vars [⟨paths, none⟩] := by
    rw [scopeAfter, List.foldl_append]
    rfl
  rw [acceptsClauses_append, acceptsClauses_append, acceptsClauses, acceptsClauses, hscope, vars_pred, Bool.and_assoc]
  simp only [Option.toList_some, Option.toList_none, List.flatMap_singleton, List.flatMap_nil, List.all_nil,
    Bool.true_and]
  rw [Bool.and_comm (List.all _ _)]

/-- A statement with one more predicate is accepted where the predicate is. -/
theorem accepted_pred {items : List Item} {limit : Option Nat} :
    Statement.accepted R P ⟨cs ++ ⟨paths, some pred⟩ :: ds, items, limit⟩ =
      (Statement.accepted R P ⟨cs ++ ⟨paths, none⟩ :: ds, items, limit⟩ && (exprAtoms pred.length pred).all fun a =>
        acceptsAtom R P (scopeAfter [] (cs ++ [⟨paths, none⟩])) (parseAtom a)) := by
  have hnodes : nodesOf (cs ++ ⟨paths, some pred⟩ :: ds) = nodesOf (cs ++ ⟨paths, none⟩ :: ds) := by
    simp [nodesOf]
  have hrels : relsOf (cs ++ ⟨paths, some pred⟩ :: ds) = relsOf (cs ++ ⟨paths, none⟩ :: ds) := by
    simp [relsOf]
  have hlast : ∀ a b c d m : Bool, (a && (b && m) && c && d) = (a && b && c && d && m) := by decide
  simp only [Statement.accepted, relVars, nodeVars, entriesOf, vars, hnodes, hrels, acceptsClauses_pred]
  exact hlast _ _ _ _ _

theorem lookup_records {b : Bound} : (b.map fun p => (p.1, p.2.record)).lookup x = (b.lookup x).map Entity.record := by
  induction b with
  | nil => rfl
  | cons p b ih =>
    rw [List.map_cons, List.lookup_cons, List.lookup_cons, ih]
    split <;> rfl

end Scope

end Cypher
