import Dgraphai.Lib.CypherUpdate

/-!
# Statements that set properties

`parseSet` reads `MATCH (x:label) WHERE x.k = v AND … SET x.k = v, …`; what the database does with other texts is a
parameter. Property names that are identifiers may be spliced into the items of SET (`parse_puts`).
-/

namespace PropertyGraph

/-- `WHERE n.k = v AND …`: nothing equals null. -/
def Node.Holds (n : Node) (label : String) (conds : Json.Fields) : Prop :=
  label ∈ n.labels ∧ ∀ kv ∈ conds, kv.2 ≠ .null ∧ n.props kv.1 = some kv.2

instance (n : Node) (label : String) (conds : Json.Fields) : Decidable (n.Holds label conds) :=
  inferInstanceAs (Decidable (label ∈ n.labels ∧ ∀ kv ∈ conds, kv.2 ≠ .null ∧ n.props kv.1 = some kv.2))

namespace Graph

def setNodes (g : Graph) (label : String) (conds : Json.Fields) (set : Props → Props) : Graph :=
  { g with nodes := g.nodes.map fun n => if n.Holds label conds then { n with props := set n.props } else n }

def node? (g : Graph) (eid : Nat) : Option Node := g.nodes.find? fun n => n.eid = eid

theorem node?_setNodes (g : Graph) (label : String) (conds : Json.Fields) (set : Props → Props) (eid : Nat) :
    (g.setNodes label conds set).node? eid =
      (g.node? eid).map fun n => if n.Holds label conds then { n with props := set n.props } else n := by
  unfold node? setNodes
  rw [List.find?_map]
  congr 2
  funext n
  rw [Function.comp_apply]
  split_ifs <;> rfl

end Graph
end PropertyGraph

namespace Cypher

open PropertyGraph (Graph Props)

structure SetStatement where
  label : Text
  conds : Entries
  sets : List Assignment
  deriving DecidableEq, Repr

/-! ### Reading -/

/-- `x.k = v`. -/
def parseCond (x : Text) (ts : List Token) : Option (Text × Operand) :=
  match parseAssignment x ts with
  | some (.put k v) => some (k, v)
  | _ => none

/-- A property name does not begin with a digit. -/
def Assignment.named : Assignment → Bool
  | .add _ => true
  | .put k _ => !isNumber k

/-- What stands after `WHERE`. -/
def parseSetClauses (x label : Text) (ts : List Token) : Option SetStatement := do
  let conds ← ((ts.takeWhile (· ≠ .kw .set)).splitOn (.kw .and)).mapM (parseCond x)
  let sets ← (((ts.dropWhile (· ≠ .kw .set)).drop 1).splitOn (.sym ',')).mapM (parseAssignment x)
  if sets.all Assignment.named then some ⟨label, conds, sets⟩ else none

def parseSet : List Token → Option SetStatement
  | .kw .match :: ts => do
    let (n, ts) ← parseNode ts
    let label ← asLabel n.labels
    match n.var, n.props, ts with
    | some x, [], .kw .where :: ts => parseSetClauses x label ts
    | _, _, _ => none
  | _ => none

def readSet (text : Text) : Option SetStatement := (lex text).bind parseSet

section Effect

variable (D : Database) (P : Params)

/-- The items one after another. -/
def setAll (sets : List (Props → Props)) (n : Props) : Props := sets.foldl (fun n f => f n) n

def SetStatement.effect (u : SetStatement) : Option (Graph → Graph) := do
  let conds ← fieldsOf D P u.conds
  let sets ← u.sets.mapM (Assignment.apply D P)
  some fun g => g.setNodes (String.ofList u.label) conds (setAll sets)

/-- `session.run` of a statement that sets properties. -/
def Database.execSet (text : Text) : Option (Graph → Graph) :=
  match readSet text with
  | some u => u.effect D P
  | none => D.run text P

end Effect

/-! ### Names spliced into the items -/

/-- `f"f.{k} = ${k}"`. -/
def putText (k : Text) : Text := 'f' :: '.' :: k ++ ' ' :: '=' :: ' ' :: '$' :: k

def putTokens (k : Text) : List Token := [.word ['f'], .sym '.', .name k, .sym '=', .sym '$', .name k]

variable {k : Text} {ks : List Text}

theorem scan_put (h : Identifier k) : scan .code (putText k ++ [',', ' ']) = (putTokens k ++ [.sym ','], .code) := by
  obtain ⟨hne, -, hw⟩ := h
  have hfirst : scan .code ['f', '.'] = ([.word ['f'], .sym '.'], .dot) := rfl
  have hmid : scan .code [' ', '=', ' ', '$'] = ([.sym '=', .sym '$'], .dot) := rfl
  have hlast : scan .dot (k ++ [',', ' ']) = ([.name k, .sym ','], .code) := by
    rw [scan_dot_name hne hw rfl]
    rfl
  have hrest : scan .code (' ' :: '=' :: ' ' :: '$' :: (k ++ [',', ' '])) =
      ([.sym '=', .sym '$', .name k, .sym ','], .code) := by
    have happ : ' ' :: '=' :: ' ' :: '$' :: (k ++ [',', ' ']) = [' ', '=', ' ', '$'] ++ (k ++ [',', ' ']) := rfl
    rw [happ, scan_append, hmid, hlast]
    rfl
  have htext : putText k ++ [',', ' '] = ['f', '.'] ++ (k ++ ' ' :: '=' :: ' ' :: '$' :: (k ++ [',', ' '])) := by
    simp [putText]
  rw [htext, scan_append, hfirst]
  dsimp only
  rw [scan_dot_name hne hw rfl, hrest]
  rfl

theorem scan_puts (h : ∀ k ∈ ks, Identifier k) :
    scan .code (ks.flatMap fun k => putText k ++ [',', ' ']) =
      ((ks.flatMap fun k => putTokens k ++ [Token.sym ',']), .code) := by
  induction ks with
  | nil => rfl
  | cons k ks ih =>
    rw [List.forall_mem_cons] at h
    rw [List.flatMap_cons, List.flatMap_cons, scan_append_of_code (scan_put h.1), ih h.2]

theorem lex_puts (h : ∀ k ∈ ks, Identifier k) {rest : Text} {last : List Token} (hrest : lex rest = some last) :
    lex ((ks.flatMap fun k => putText k ++ [',', ' ']) ++ rest) =
      some ((ks.flatMap fun k => putTokens k ++ [.sym ',']) ++ last) := by
  rw [lex_append_of_code (scan_puts h), hrest]
  rfl

theorem splitOn_puts (last : List Token) (hlast : Token.sym ',' ∉ last) :
    ((ks.flatMap fun k => putTokens k ++ [Token.sym ',']) ++ last).splitOn (Token.sym ',') = ks.map putTokens ++ [last] := by
  induction ks with
  | nil => exact List.splitOn_eq_singleton hlast
  | cons k ks ih =>
    have hk : Token.sym ',' ∉ putTokens k := by simp [putTokens]
    rw [List.flatMap_cons, List.append_assoc, List.append_assoc, List.singleton_append,
      List.splitOn_append_cons_self_of_not_mem hk, ih]
    rfl

/-- The items over the names and one item behind them. -/
theorem mapM_puts {last : List Token} {a : Assignment} (hlast : parseAssignment ['f'] last = some a) :
    (ks.map putTokens ++ [last]).mapM (parseAssignment ['f']) =
      some ((ks.map fun k => Assignment.put k (.param k)) ++ [a]) := by
  induction ks with
  | nil =>
    rw [List.map_nil, List.nil_append, List.mapM_cons, hlast]
    rfl
  | cons k ks ih =>
    have hput : parseAssignment ['f'] (putTokens k) = some (.put k (.param k)) := rfl
    rw [List.map_cons, List.cons_append, List.mapM_cons, hput, ih]
    rfl

theorem parse_puts {last : List Token} {a : Assignment} (hlast : parseAssignment ['f'] last = some a)
    (hcomma : Token.sym ',' ∉ last) :
    (((ks.flatMap fun k => putTokens k ++ [Token.sym ',']) ++ last).splitOn (.sym ',')).mapM (parseAssignment ['f']) =
      some ((ks.map fun k => Assignment.put k (.param k)) ++ [a]) := by
  rw [splitOn_puts last hcomma, mapM_puts hlast]

variable {D : Database} {P : Params} {value : Text → Json}

/-- Parameters that have a value may be set. -/
theorem mapM_apply_puts (hP : ∀ k ∈ ks, P k = some (value k)) {a : Assignment} {f : Props → Props}
    (ha : a.apply D P = some f) :
    ((ks.map fun k => Assignment.put k (.param k)) ++ [a]).mapM (Assignment.apply D P) =
      some ((ks.map fun k n => n.set (String.ofList k) (value k)) ++ [f]) := by
  induction ks with
  | nil =>
    rw [List.map_nil, List.nil_append, List.mapM_cons, ha]
    rfl
  | cons k ks ih =>
    rw [List.forall_mem_cons] at hP
    have hput : Assignment.apply D P (.put k (.param k)) = some fun n => n.set (String.ofList k) (value k) := by
      rw [Assignment.apply, Operand.value, hP.1, Option.map_some]
    rw [List.map_cons, List.cons_append, List.mapM_cons, hput, ih hP.2]
    rfl

theorem setAll_append (fs : List (Props → Props)) (f : Props → Props) (n : Props) :
    setAll (fs ++ [f]) n = f (setAll fs n) := by
  rw [setAll, List.foldl_append]
  rfl

end Cypher
