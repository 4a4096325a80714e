import Dgraphai.Lib.CypherQuery
import Mathlib.Data.List.Infix

/-!
# Running queries

`parseQuery` reads a text as a query, `Query.run` answers it over a graph: the matches of the pattern
for which the predicate is true, in the order of the graph. A query some atom of which the database does
not accept is refused.
-/

namespace Cypher

open PropertyGraph (Graph Node)

/-- What the database decides about expressions that are not read here. -/
structure Reading where
  /-- The value of an operand other than a string, a boolean or a parameter; `none` is no value. -/
  literal : List Token → Option Json
  /-- Comparisons other than those of strings and booleans. -/
  compare : Comparison → Json → Json → Truth
  /-- Whether an atom is an expression over these variables, and its value. -/
  accepts : List Token → List Text → Bool
  other : Graph → (Text → Option Json) → List (Text × Node) → List Token → Truth

abbrev Params := Text → Option Json

abbrev Binding := List (Text × Node)

theorem mem_of_lookup {α : Type} {b : List (Text × α)} {x : Text} {a : α} (h : b.lookup x = some a) : (x, a) ∈ b := by
  obtain ⟨l, l', rfl, -⟩ := List.lookup_eq_some_iff.1 h
  exact List.mem_append_right l List.mem_cons_self

section Eval

variable (R : Reading) (P : Params)

def compareValues : Comparison → Json → Json → Truth
  | _, .null, _ => none
  | _, _, .null => none
  | .eq, v, .str b => some (decide (v = .str b))
  | .ne, v, .str b => some (decide (v ≠ .str b))
  | .eq, v, .bool b => some (decide (v = .bool b))
  | .ne, v, .bool b => some (decide (v ≠ .bool b))
  | .contains, .str a, .str b => some (decide (b.toList <:+: a.toList))
  | .startsWith, .str a, .str b => some (decide (b.toList <+: a.toList))
  | .endsWith, .str a, .str b => some (decide (b.toList <:+ a.toList))
  | op, v, w => R.compare op v w

def Operand.value : Operand → Option Json
  | .str s => some (.str (String.ofList s))
  | .bool b => some (.bool b)
  | .param p => P p
  | .literal ts => R.literal ts

def evalAtom (g : Graph) (b : Binding) : Atom → Truth
  | .compare x key op rhs => do
    let n ← b.lookup x
    let v ← n.props (String.ofList key)
    let w ← rhs.value R P
    compareValues R op v w
  | .isNull x key negated => do
    let n ← b.lookup x
    some ((n.props (String.ofList key)).isSome == negated)
  | .inList x key items => do
    let n ← b.lookup x
    let v ← n.props (String.ofList key)
    some (items.any fun s => v = .str (String.ofList s))
  | .memberOf s x key => do
    let n ← b.lookup x
    match n.props (String.ofList key) with
    | some (.arr items) => some (items.contains (.str (String.ofList s)))
    | _ => none
  | .related x type label => do
    let n ← b.lookup x
    some (g.rels.any fun r => r.type = String.ofList type ∧ r.source = n.eid ∧
      g.nodes.any fun m => m.eid = r.target ∧ String.ofList label ∈ m.labels)
  | .other ts => R.other g P b ts

theorem evalAtom_memberOf {R : Reading} {P : Params} {g : Graph} (s x key : Text) (n : Node) :
    evalAtom R P g [(x, n)] (.memberOf s x key) = some true ↔
      .str (String.ofList s) ∈ n.props.items (String.ofList key) := by
  simp only [evalAtom, List.lookup_cons_self, Option.bind_eq_bind, Option.bind_some, PropertyGraph.Props.items]
  rcases n.props (String.ofList key) with _ | (_ | _ | _ | _ | _ | items | _) <;> simp

/-- Whether the database takes an atom over these variables. -/
def acceptsAtom (vars : List Text) : Atom → Bool
  | .compare x _ _ rhs => vars.contains x && (rhs.value R P).isSome
  | .isNull x _ _ | .inList x _ _ | .memberOf _ x _ | .related x _ _ => vars.contains x
  | .other ts => R.accepts ts vars

/-- The value of a predicate; brackets nest no deeper than there are tokens. -/
def evalPred (g : Graph) (b : Binding) (ts : List Token) : Truth :=
  evalExpr (fun a => evalAtom R P g b (parseAtom a)) ts.length ts

end Eval

/-! ### Queries -/

inductive Pattern where
  /-- `(x:label)`. -/
  | node (x label : Text)
  /-- `(x:label)-[:type]->(y:label')`. -/
  | path (x label type y label' : Text)
  deriving DecidableEq, Repr

structure Query where
  pattern : Pattern
  pred : Option (List Token)
  distinct : Bool
  /-- The variable returned, and the name of its column. -/
  var : Text
  column : Text
  skip : Option Text
  limit : Option Text
  deriving DecidableEq, Repr

/-- A keyword that begins a clause. -/
def Keyword.IsClause (k : Keyword) : Prop :=
  k ∈ [.match, .optional, .where, .return, .with, .unwind, .union, .call, .create, .merge, .set, .delete,
    .detach, .remove, .foreach, .load, .order, .skip, .limit]

instance (k : Keyword) : Decidable k.IsClause := inferInstanceAs (Decidable (_ ∈ _))

/-- No clause begins outside brackets; STARTS WITH and ENDS WITH are operators. -/
def clauseFree : Nat → List Token → Bool
  | _, [] => true
  | d, .kw .starts :: .kw .with :: ts => clauseFree d ts
  | d, .kw .ends :: .kw .with :: ts => clauseFree d ts
  | d, .kw k :: ts => !(d = 0 ∧ k.IsClause) && clauseFree d ts
  | d, t :: ts => clauseFree (t.depth d) ts

section Split

variable {k : Keyword} {ts : List Token} {d : Nat}

theorem splitFirst_of_clauseFree (hk : k.IsClause) (hwith : k ≠ .with) (h : clauseFree d ts = true) :
    splitFirst k d ts = none := by
  induction d, ts using clauseFree.induct with
  | case1 d => rfl
  | case2 d ts ih =>
    have hstarts : k ≠ .starts := by rintro rfl; exact absurd hk (by decide)
    rw [splitFirst, if_neg (by simp [hstarts.symm]), splitFirst, if_neg (by simp [hwith.symm])]
    show ((splitFirst k d ts).map _).map _ = none
    rw [ih h]
    rfl
  | case3 d ts ih =>
    have hends : k ≠ .ends := by rintro rfl; exact absurd hk (by decide)
    rw [splitFirst, if_neg (by simp [hends.symm]), splitFirst, if_neg (by simp [hwith.symm])]
    show ((splitFirst k d ts).map _).map _ = none
    rw [ih h]
    rfl
  | case4 d k' ts hstarts hends ih =>
    rw [clauseFree] at h
    · simp only [Bool.and_eq_true, Bool.not_eq_true', decide_eq_false_iff_not] at h
      have hhead : ¬ (d = 0 ∧ Token.kw k' = .kw k) := by
        rintro ⟨rfl, heq⟩
        cases heq
        exact h.1 ⟨rfl, hk⟩
      rw [splitFirst, if_neg hhead]
      show (splitFirst k d ts).map _ = none
      rw [ih h.2]
      rfl
    · exact hstarts
    · exact hends
  | case5 d t ts hstarts hends hkw ih =>
    have hhead : ¬ (d = 0 ∧ t = .kw k) := fun heq => hkw k heq.2
    rw [clauseFree] at h
    · rw [splitFirst, if_neg hhead, ih h]
      rfl
    · exact hstarts
    · exact hends
    · exact hkw

theorem splitFirst_of_not_mem (h : .kw k ∉ ts) : splitFirst k d ts = none := by
  induction ts generalizing d with
  | nil => rfl
  | cons t ts ih =>
    have ht : ¬ (d = 0 ∧ t = .kw k) := fun hk => h (hk.2 ▸ List.mem_cons_self)
    rw [splitFirst, if_neg ht, ih fun hmem => h (List.mem_cons_of_mem t hmem)]
    rfl

end Split

def parsePattern : List Token → Option Pattern
  | [.sym '(', .word x, .sym ':', .name label, .sym ')'] => some (.node x label)
  | [.sym '(', .word x, .sym ':', .name label, .sym ')', .sym '-', .sym '[', .sym ':', .name type, .sym ']',
     .sym '-', .sym '>', .sym '(', .word y, .sym ':', .name label', .sym ')'] =>
    some (.path x label type y label')
  | _ => none

def parsePage : List Token → Option (Option Text × Option Text)
  | [] => some (none, none)
  | [.kw .skip, .word s] => some (some s, none)
  | [.kw .limit, .word l] => some (none, some l)
  | [.kw .skip, .word s, .kw .limit, .word l] => some (some s, some l)
  | _ => none

/-- `x AS y` or `x`: the variable, the column and what follows. -/
def parseItem : List Token → Option (Text × Text × List Token)
  | .word x :: .kw .as :: .word y :: ts => some (x, y, ts)
  | .word x :: ts => some (x, x, ts)
  | _ => none

def parseReturn (pattern : Pattern) (pred : Option (List Token)) (ts : List Token) : Option Query := do
  let distinct := decide (ts.head? = some (.kw .distinct))
  let (var, column, rest) ← parseItem (if distinct then ts.tail else ts)
  let (skip, limit) ← parsePage rest
  pure ⟨pattern, pred, distinct, var, column, skip, limit⟩

/-- The pattern after MATCH. -/
def parseMatch : List Token → Option Pattern
  | .kw .match :: ts => parsePattern ts
  | _ => none

def parseQuery (ts : List Token) : Option Query := do
  let (head, ret) ← splitFirst .return 0 ts
  match splitFirst .where 0 head with
  | some (mat, pred) =>
    let pattern ← parseMatch mat
    if clauseFree 0 pred then parseReturn pattern (some pred) ret else none
  | none =>
    let pattern ← parseMatch head
    parseReturn pattern none ret

/-! ### Answers -/

namespace Pattern

def vars : Pattern → List Text
  | .node x _ => [x]
  | .path x _ _ y _ => [x, y]

def candidates (g : Graph) : Pattern → List Binding
  | .node x label => (g.labelled (String.ofList label)).map fun n => [(x, n)]
  | .path x label type y label' =>
    (g.rels.filter fun r => r.type = String.ofList type).flatMap fun r =>
      ((g.labelled (String.ofList label)).filter (·.eid = r.source)).flatMap fun n =>
        ((g.labelled (String.ofList label')).filter (·.eid = r.target)).map fun m => [(x, n), (y, m)]

end Pattern

/-- The first of each node. -/
def distinctNodes : List Node → List Node
  | [] => []
  | n :: ns => n :: (distinctNodes ns).filter (·.eid ≠ n.eid)

theorem mem_of_mem_distinctNodes {n : Node} {ns : List Node} (h : n ∈ distinctNodes ns) : n ∈ ns := by
  induction ns with
  | nil => cases h
  | cons m ns ih =>
    rcases List.mem_cons.1 h with rfl | h
    · exact List.mem_cons_self
    · exact List.mem_cons_of_mem m (ih (List.mem_filter.1 h).1)

namespace Query

variable (R : Reading) (P : Params) (g : Graph) (q : Query)

/-- The database takes every atom, and the returned variable is bound. -/
def accepted : Bool :=
  q.pattern.vars.contains q.var &&
    (q.pred.toList.flatMap fun ts => exprAtoms ts.length ts).all fun a =>
      acceptsAtom R P q.pattern.vars (parseAtom a)

def holds (b : Binding) : Bool := q.pred.all fun ts => evalPred R P g b ts = some true

/-- The bindings of the answer. -/
def answers : List Binding := (q.pattern.candidates g).filter (q.holds R P g)

/-- The page of a list of rows. -/
def page {α : Type} (rows : List α) : List α :=
  let rows := rows.drop ((q.skip.map fun s => Nat.ofDigitChars 10 s 0).getD 0)
  match q.limit with
  | some l => rows.take (Nat.ofDigitChars 10 l 0)
  | none => rows

def rows : List Node :=
  let ns := (q.answers R P g).filterMap (·.lookup q.var)
  q.page (if q.distinct then distinctNodes ns else ns)

def run : Option (List Node) := if q.accepted R P then some (q.rows R P g) else none

variable {R P g q}

theorem mem_of_mem_page {α : Type} {rows : List α} {a : α} (h : a ∈ q.page rows) : a ∈ rows := by
  unfold page at h
  cases hlimit : q.limit with
  | none =>
    rw [hlimit] at h
    exact List.mem_of_mem_drop h
  | some l =>
    rw [hlimit] at h
    exact List.mem_of_mem_drop (List.mem_of_mem_take h)

/-- Every row is bound by an answer. -/
theorem exists_answer {n : Node} (h : n ∈ q.rows R P g) :
    ∃ b ∈ q.answers R P g, b.lookup q.var = some n := by
  have hmem := mem_of_mem_page h
  have hns : n ∈ (q.answers R P g).filterMap (·.lookup q.var) := by
    split_ifs at hmem with hdistinct
    · exact mem_of_mem_distinctNodes hmem
    · exact hmem
  exact List.mem_filterMap.1 hns

end Query

end Cypher
