import Dgraphai.Lib.CypherWriting

/-!
# Statements over the nodes of one label

`MATCH (x:label) WHERE predicate RETURN x LIMIT n` and its rows: the first `n` of the nodes with the label at which the
predicate is true (`parse_scan`, `run_scan`).
-/

namespace Cypher

open PropertyGraph (Graph Node)

/-- The statement, with its predicate as tokens. -/
def scanStatement (x label : Text) (pred : List Token) (n : ℕ) : Statement :=
  ⟨[⟨[(Piece.node x label).path], some pred⟩], [⟨x, none, x⟩], some n⟩

/-- A row that shows one node. -/
def nodeRow (x : Text) (n : Node) : Row := [⟨x, .node n, none⟩]

variable {R : Reading} {P : Params} {g : Graph} {x label l : Text} {pred : List Token} {n : ℕ}

/-! ### The tokens -/

theorem parse_scan (hx : IsVar x) (hlabel : IsName label) (hpred : clauseFree 0 pred = true) (hdepth : endDepth 0 pred = 0)
    (hl : l.all Char.isDigit = true) :
    parseStatement (.kw .match :: (Piece.node x label).tokens ++ .kw .where :: pred ++ .kw .return ::
      [.word x, .kw .limit, .word l]) = some (scanStatement x label pred (Nat.ofDigitChars 10 l 0)) := by
  have hvalid : ∀ p ∈ [Piece.node x label], p.Valid := by
    intro p hp
    rw [List.mem_singleton.1 hp]
    exact ⟨hx, hlabel⟩
  have hpaths := parsePatterns_pieces (List.cons_ne_nil _ _) hvalid
  rw [List.map_singleton, List.intercalate_singleton] at hpaths
  have hitems : parseProjection (vars [⟨[(Piece.node x label).path], some pred⟩]) [.word x, .kw .limit, .word l] =
      some ([⟨x, none, x⟩], some (Nat.ofDigitChars 10 l 0)) := by
    have hcolumns : parseColumns (vars [⟨[(Piece.node x label).path], some pred⟩]) [.word x] = some [⟨x, none, x⟩] :=
      parseColumns_columnTokens (List.cons_ne_nil x []) (List.forall_mem_singleton.2 hx)
    have hsplit : splitFirst .limit 0 [.word x, .kw .limit, .word l] = some ([.word x], [.word l]) := rfl
    rw [parseProjection, hsplit]
    dsimp only
    rw [if_pos hl, hcolumns]
    rfl
  rw [parseStatement_written hpaths rfl hpred hdepth, List.map_singleton, hitems]
  rfl

/-! ### The rows -/

theorem accepted_scan : (scanStatement x label pred n).accepted R P =
    (predAtoms pred).all fun a => acceptsAtom R P [x] (parseAtom a) := by
  have hclauses : acceptsClauses R P [] (scanStatement x label pred n).clauses =
      (predAtoms pred).all fun a => acceptsAtom R P [x] (parseAtom a) := by
    simp [scanStatement, acceptsClauses, predAtoms, vars, nodeVars, relVars, nodesOf, relsOf, PathPattern.nodes,
      PathPattern.rels, Piece.path]
  rw [Statement.accepted, hclauses]
  simp [scanStatement, relVars, relsOf, PathPattern.rels, Piece.path, entriesOf, nodesOf, PathPattern.nodes, vars,
    nodeVars]

theorem pathsTraces_node : pathsTraces R P g [(Piece.node x label).path] =
    (g.nodes.filter fun m => String.ofList label ∈ m.labels).map fun m => ([(x, .node m)], []) := by
  have hadmits : ∀ m : Node, NodePattern.Admits R P (Piece.node x label).path.start m ↔ String.ofList label ∈ m.labels := by
    intro m
    simp [NodePattern.Admits, Piece.path]
  have htraces : (Piece.node x label).path.traces R P g =
      (g.nodes.filter fun m => String.ofList label ∈ m.labels).map fun m => ([(x, .node m)], []) := by
    rw [PathPattern.traces, List.filter_congr fun m _ => decide_eq_decide.2 (hadmits m), List.map_eq_flatMap]
    rfl
  rw [pathsTraces, htraces, List.flatMap_map, List.map_eq_flatMap]
  rfl

theorem answers_scan : (scanStatement x label pred n).answers R P g =
    (g.nodes.filter fun m => String.ofList label ∈ m.labels ∧ evalPred R P g [(x, m)] pred = some true).map
      fun m => [(x, .node m)] := by
  have hcoherent : ∀ m : Node, Coherent [(x, Entity.node m)] := fun m => List.pairwise_singleton _ _
  have hextend : Clause.extend R P g ⟨[(Piece.node x label).path], some pred⟩ [] =
      (g.nodes.filter fun m => String.ofList label ∈ m.labels ∧ evalPred R P g [(x, m)] pred = some true).map
        fun m => [(x, .node m)] := by
    rw [Clause.extend, pathsTraces_node]
    simp only [List.filter_map, List.map_map, List.filter_filter]
    refine congrArg₂ List.map rfl (List.filter_congr fun m _ => ?_)
    simp [Clause.holds, hcoherent, Entity.record, and_comm]
  rw [Statement.answers, scanStatement, answersFrom, hextend, List.flatMap_map]
  simp only [answersFrom]
  rw [List.map_eq_flatMap]

/-- The first nodes with the label at which the predicate is true. -/
theorem run_scan (order : List Row → List Row) : (scanStatement x label pred n).run R P g order =
    if (predAtoms pred).all (fun a => acceptsAtom R P [x] (parseAtom a)) = true then
      some ((order ((g.nodes.filter fun m => String.ofList label ∈ m.labels ∧
        evalPred R P g [(x, m)] pred = some true).map (nodeRow x))).take n)
    else none := by
  have hrow : (scanStatement x label pred n).row ∘ (fun m => [(x, Entity.node m)]) = nodeRow x := by
    funext m
    simp [Statement.row, scanStatement, nodeRow]
  rw [Statement.run, accepted_scan, answers_scan, List.map_map, hrow]
  rfl

end Cypher
