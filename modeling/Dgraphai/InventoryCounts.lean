import Dgraphai.InventorySelection
import Dgraphai.Lib.CypherCount

/-!
# Counts and pages in the inventory (`api/inventory.py`)

The query that counts the rows of another is got from its text (`countCypher`), and so are its pages
(`cypherWithPagination`); `listing` is what a request for a page is answered with. Of a text put in that is
`Untouched` by the substitutions, they change what follows it only (`countCypher_eq`).
-/

namespace Dgraphai.Inventory

open Cypher PyText PropertyGraph

/-! ### The query that counts -/

/-- `RETURN\s+DISTINCT\s+\w+\s+AS\s+f`. -/
def returnDistinctAs : List Step :=
  [.word "RETURN".toList, .spaces, .word "DISTINCT".toList, .spaces, .letters, .spaces, .word "AS".toList, .spaces,
    .word "F".toList]

/-- `RETURN\s+\w+\s+AS\s+f`. -/
def returnAs : List Step :=
  [.word "RETURN".toList, .spaces, .letters, .spaces, .word "AS".toList, .spaces, .word "F".toList]

/-- `RETURN\s+f\b`. -/
def returnNode : List Step := [.word "RETURN".toList, .spaces, .word "F".toList, .boundary]

/-- `UNWIND files AS f RETURN count\(f\) AS total`. -/
def unwindCount : List Step :=
  [.word "UNWIND".toList, .blank, .word "FILES".toList, .blank, .word "AS".toList, .blank, .word "F".toList, .blank,
    .word "RETURN".toList, .blank, .word "COUNT(F)".toList, .blank, .word "AS".toList, .blank, .word "TOTAL".toList]

def countReturn : Text := "RETURN count(f) AS total".toList

/-- `_count_cypher`. -/
def countCypher (U : Unicode) (cypher : Text) : Text :=
  let c := removeNumbered U "SKIP".toList cypher
  let c := removeNumbered U "LIMIT".toList c
  let c := substitute U returnDistinctAs "RETURN count(DISTINCT f) AS total".toList c
  let c := substitute U returnAs countReturn c
  let c := substitute U returnNode countReturn c
  substitute U unwindCount ("UNWIND files AS f ".toList ++ countReturn) c

/-! ### The pages of a query -/

/-- `rows[0].get("total", 0) if rows else 0`, and 0 after an error. -/
def total : Option (List Line) → Entry
  | some ((column, v) :: _) => if column = "total".toList then v else .int 0
  | _ => .int 0

structure Listing where
  nodes : List Line
  total : Entry
  hasMore : Bool

/-- `(skip + page_size) < total`; `none` where a node is compared. -/
def hasMore (p : Paging) : Entry → Option Bool
  | .int k => some (decide (p.page * p.pageSize + p.pageSize < k))
  | .node _ => none

/-- The nodes and the pagination of `get_filtered_nodes` for a query; `none` for an error nobody catches. -/
def listing (U : Unicode) (R : Reading) (g : Graph) (tid : String) (base : Text) (p : Paging) : Option Listing :=
  let nodes := readLines R (tidParams tid) g (cypherWithPagination U base (p.page * p.pageSize) p.pageSize)
  let total := total (readLines R (tidParams tid) g (countCypher U base))
  (hasMore p total).map fun more => ⟨nodes.getD [], total, more⟩

/-- The nodes of a page and the pages behind it while there are more; `none` where so many pages are too few. -/
def browse (U : Unicode) (R : Reading) (g : Graph) (tid : String) (base : Text) : Nat → Paging → Option (List Line)
  | 0, _ => none
  | fuel + 1, p =>
    (listing U R g tid base p).bind fun l =>
      if l.hasMore then (browse U R g tid base fuel { p with page := p.page + 1 }).map (l.nodes ++ ·)
      else some l.nodes

/-- The rows of a query without a page. -/
def allLines (R : Reading) (g : Graph) (tid : String) (base : Text) : List Line :=
  (readLines R (tidParams tid) g base).getD []

/-- The total is the number of the rows, and the pages from the first one on are the rows. -/
def Agrees (U : Unicode) (c : Category) (filters : List Filter) : Prop :=
  ∀ base, applyAttributeFilters U c.cypher.toList filters = some base → ∀ R g tid, g.Valid →
    total (readLines R (tidParams tid) g (countCypher U base)) = .int (allLines R g tid base).length ∧
      ∀ size (h : 1 ≤ size) (h' : size ≤ 200),
        ∃ fuel, browse U R g tid base fuel ⟨0, size, h, h'⟩ = some (allLines R g tid base)

/-- The rows are those of the query (`graphQuery`), with the name of their column. -/
theorem readLines_of_graphQuery {R : Reading} {g : Graph} {P : Params} {cypher : Text} {rows : List Node}
    (h : graphQuery R g cypher P = some rows) :
    ∃ column, readLines R P g cypher = some (rows.map fun n => (column, .node n)) := by
  obtain ⟨ts, hts, h⟩ := Option.bind_eq_some_iff.1 h
  obtain ⟨q, hq, h⟩ := Option.bind_eq_some_iff.1 h
  refine ⟨q.column, ?_⟩
  rw [readLines, hts, Option.bind_some, runLines_of_parseQuery hq, Query.lines, h, Option.map_some]

/-! ### The text put in -/

/-- No substitution finds a match in a text, nor in it and the RETURN of the query that counts. -/
structure Untouched (U : Unicode) (added : Text) : Prop where
  inside : ∀ pat ∈ [numberedSteps "SKIP".toList, numberedSteps "LIMIT".toList, returnDistinctAs, returnAs, returnNode,
    unwindCount], ∀ t ∈ added.tails, matchSteps U pat t = none
  before : ∀ t ∈ added.tails, t ≠ [] → matchSteps U unwindCount (t ++ countReturn) = none

variable {U : Unicode} {filters : List Filter} {s : Parts} {c : Category} {cypher added : Text} {pat : List Step}
  {new rest : Text}

/-! ### Substitutions in a query with a text put in -/

theorem space_of_insertion (hspace : s.before.getLast? = some ' ') (h : insertion U filters = some added) :
    ∃ t, s.before ++ added = t ++ [' '] := by
  rcases insertion_form h with rfl | ⟨t, rfl⟩
  · obtain ⟨t, ht⟩ := List.getLast?_eq_some_iff.1 hspace
    exact ⟨t, by rw [List.append_nil, ht]⟩
  · exact ⟨s.before ++ ("AND ".toList ++ ('f' :: t)), by simp⟩

/-- The removal of a numbered keyword leaves the query as it is. -/
theorem removeNumbered_insertion {k : Char} {w : Text}
    (hw : (k :: w).all (fun l => !ignoreCase l 'A' && !ignoreCase l 'R') = true)
    (hbefore : quiet k false s.before = true) (hrest : quiet k false ("RETURN ".toList ++ rest) = true)
    (h : insertion U filters = some added)
    (hadded : ∀ t ∈ added.tails, matchSteps U (numberedSteps (k :: w)) t = none) :
    removeNumbered U (k :: w) (s.before ++ added ++ ("RETURN ".toList ++ rest)) =
      s.before ++ added ++ ("RETURN ".toList ++ rest) := by
  have hfence : ∀ {d : Char} {b : Text}, d = 'A' ∨ d = 'R' → Fence U (k :: w) (d :: b) := by
    rintro d b hd e he
    obtain rfl := Option.some.inj he
    have hcases : isSpace d = false ∧ U.isDecimal d = false := by
      rcases hd with rfl | rfl <;> exact ⟨rfl, by simp [Unicode.isDecimal]⟩
    refine ⟨hcases.1, hcases.2, fun l hl => ?_⟩
    have hletter := List.all_eq_true.1 hw l hl
    simp only [Bool.and_eq_true, Bool.not_eq_true'] at hletter
    rcases hd with rfl | rfl
    · exact hletter.1
    · exact hletter.2
  have hinside : removeNumbered U (k :: w) added = added := by
    rw [← substitute_numberedSteps]
    exact substitute_of_none fun r hr => hadded r ((List.mem_tails r added).2 hr)
  have hfront : removeNumbered U (k :: w) (s.before ++ added) = s.before ++ added := by
    rcases insertion_form h with rfl | ⟨t, rfl⟩
    · rw [List.append_nil, removeNumbered_of_quiet hbefore]
    · have hand : "AND ".toList ++ ('f' :: (t ++ [' '])) = 'A' :: ("ND ".toList ++ ('f' :: (t ++ [' ']))) := rfl
      rw [hand] at hinside ⊢
      rw [removeNumbered_append (hfence (.inl rfl)), removeNumbered_of_quiet hbefore, hinside]
  have hreturn : "RETURN ".toList ++ rest = 'R' :: ("ETURN ".toList ++ rest) := rfl
  rw [hreturn] at hrest ⊢
  rw [removeNumbered_append (hfence (.inr rfl)), hfront, removeNumbered_of_quiet hrest]

/-- A substitution changes what follows the text put in only. -/
theorem substitute_insertion {w : Text} (hpat : pat.all Step.spaceless = true) (hword : pat.head? = some (.word w))
    (hclear : clear w s.before = true) (hrest : ∀ c ∈ rest.head?, isSpace c = false)
    (h : insertion U filters = some added)
    (hadded : ∀ t ∈ added.tails, matchSteps U pat t = none)
    (hlast : (pat.tails.tail.all fun last => last.isEmpty || (matchSteps U last rest).isNone) = true) :
    substitute U pat new (s.before ++ added ++ rest) = s.before ++ added ++ substitute U pat new rest := by
  obtain ⟨p, rfl⟩ : ∃ p, pat = .word w :: p := by
    cases pat with
    | nil => cases hword
    | cons t p => exact ⟨p, by rw [Option.some.inj hword]⟩
  have hspace : added = [] ∨ ∃ u, added = u ++ [' '] := by
    rcases insertion_form h with rfl | ⟨t, rfl⟩
    · exact .inl rfl
    · exact .inr ⟨"AND ".toList ++ ('f' :: t), by simp⟩
  rw [List.append_assoc, substitute_append_of_clear hclear,
    substitute_append_of_space hpat hrest hspace (fun r hr => hadded r ((List.mem_tails r added).2 hr)) hlast,
    List.append_assoc]

/-- The last steps of a pattern do not go on at the start of a text. -/
def dead (U : Unicode) (pat : List Step) (t : Text) : Bool :=
  pat.tails.tail.all fun last => last.isEmpty || (matchSteps U last t).isNone

/-- What the four substitutions of a RETURN make of one, and that they do not begin before it. -/
structure Counted (U : Unicode) (rest count : Text) : Prop where
  letter : rest.head? = some 'R' ∧ (substitute U returnAs countReturn rest).head? = some 'R' ∧ count.head? = some 'R'
  distinct : dead U returnDistinctAs rest = true ∧
    substitute U returnDistinctAs "RETURN count(DISTINCT f) AS total".toList rest = rest
  renamed : dead U returnAs rest = true ∧ dead U returnNode (substitute U returnAs countReturn rest) = true
  node : substitute U returnNode countReturn (substitute U returnAs countReturn rest) = count
  unwind : (dead U unwindCount count = true ∨ count = countReturn) ∧
    substitute U unwindCount ("UNWIND files AS f ".toList ++ countReturn) count = count

theorem counted_returnText {id x : Text} (hx : returned.contains x = true) :
    Counted U ("RETURN ".toList ++ returnText id x)
      (if id = "duplicates".toList then "RETURN ".toList ++ returnText id x else countReturn) := by
  rw [returnText]
  split_ifs with hrenamed hduplicates hduplicates
  · rw [hduplicates] at hrenamed
    exact absurd hrenamed (by decide)
  · simp only [returned, List.contains_cons, List.contains_nil, Bool.or_false, Bool.or_eq_true, beq_iff_eq] at hx
    rcases hx with rfl | rfl | rfl | rfl | rfl <;>
      exact ⟨⟨rfl, rfl, rfl⟩, ⟨rfl, rfl⟩, ⟨rfl, rfl⟩, rfl, .inr rfl, rfl⟩
  · exact ⟨⟨rfl, rfl, rfl⟩, ⟨rfl, rfl⟩, ⟨rfl, rfl⟩, rfl, .inl rfl, rfl⟩
  · exact ⟨⟨rfl, rfl, rfl⟩, ⟨rfl, rfl⟩, ⟨rfl, rfl⟩, rfl, .inr rfl, rfl⟩

theorem quiet_returnText {k : Char} {id x : Text} (hk : k = 'S' ∨ k = 'L')
    (hx : returned.contains x = true) :
    quiet k false ("RETURN ".toList ++ returnText id x) = true := by
  simp only [returned, List.contains_cons, List.contains_nil, Bool.or_false, Bool.or_eq_true, beq_iff_eq] at hx
  rw [returnText]
  split_ifs
  · rcases hk with rfl | rfl <;> rcases hx with rfl | rfl | rfl | rfl | rfl <;> rfl
  · rcases hk with rfl | rfl <;> rfl
  · rcases hk with rfl | rfl <;> rfl

/-- The query that counts has the count where the category's has its variable. -/
theorem Parts.Of.countCypher_eq {id : Text} (hof : s.Of cypher) (hshape : s.Shape id)
    (h : insertion U filters = some added) (hu : Untouched U added) :
    countCypher U (s.before ++ added ++ ("RETURN ".toList ++ s.after)) =
      s.before ++ added ++ if id = "duplicates".toList then "RETURN ".toList ++ s.after else countReturn := by
  have hcounted := @counted_returnText U id s.var hshape.var
  have hskip := @quiet_returnText 'S' id s.var (.inl rfl) hshape.var
  have hlimit := @quiet_returnText 'L' id s.var (.inr rfl) hshape.var
  rw [← hshape.after] at hcounted hskip hlimit
  have hspace : ∀ {b : Text}, b.head? = some 'R' → ∀ c ∈ b.head?, isSpace c = false := by
    intro b hb c hc
    obtain rfl := Option.some.inj (hb.symm.trans hc)
    rfl
  obtain ⟨hnoSkip, hinside⟩ := List.forall_mem_cons.1 hu.inside
  obtain ⟨hnoLimit, hinside⟩ := List.forall_mem_cons.1 hinside
  obtain ⟨hnoDistinct, hinside⟩ := List.forall_mem_cons.1 hinside
  obtain ⟨hnoAs, hinside⟩ := List.forall_mem_cons.1 hinside
  obtain ⟨hnoNode, hinside⟩ := List.forall_mem_cons.1 hinside
  have hnoUnwind := hinside unwindCount (List.mem_singleton_self _)
  have hfirst := @removeNumbered_insertion U filters s added s.after 'S' "KIP".toList rfl hshape.noSkip hskip h hnoSkip
  have hsecond := @removeNumbered_insertion U filters s added s.after 'L' "IMIT".toList rfl hof.before_quiet hlimit h
    hnoLimit
  show substitute U unwindCount _ (substitute U returnNode _ (substitute U returnAs _ (substitute U returnDistinctAs _
    (removeNumbered U ('L' :: "IMIT".toList) (removeNumbered U ('S' :: "KIP".toList) _))))) = _
  rw [hfirst, hsecond,
    substitute_insertion rfl rfl hshape.noReturn (hspace hcounted.letter.1) h hnoDistinct hcounted.distinct.1,
    hcounted.distinct.2,
    substitute_insertion rfl rfl hshape.noReturn (hspace hcounted.letter.1) h hnoAs hcounted.renamed.1,
    substitute_insertion rfl rfl hshape.noReturn (hspace hcounted.letter.2.1) h hnoNode hcounted.renamed.2,
    hcounted.node]
  rcases hcounted.unwind.1 with hdead | hcount
  · rw [substitute_insertion rfl rfl hshape.noUnwind (hspace hcounted.letter.2.2) h hnoUnwind hdead,
      hcounted.unwind.2]
  · have hfixed := hcounted.unwind.2
    rw [hcount] at hfixed ⊢
    have hclear := @substitute_append_of_clear U unwindCount.tail ("UNWIND files AS f ".toList ++ countReturn)
      s.before (added ++ countReturn) "UNWIND".toList hshape.noUnwind
    have hnone := @substitute_append_of_none U unwindCount ("UNWIND files AS f ".toList ++ countReturn) added
      countReturn fun r hr => hu.before r ((List.mem_tails r added).2 hr)
    rw [List.append_assoc]
    refine hclear.trans ?_
    show s.before ++ substitute U unwindCount _ _ = _
    rw [hnone, hfixed]

/-- A page is a page of the category's query. -/
theorem Parts.Of.pagination_eq {id : Text} (hof : s.Of cypher) (hshape : s.Shape id)
    (h : insertion U filters = some added) (hu : Untouched U added) (skip limit : Nat) :
    cypherWithPagination U (s.before ++ added ++ ("RETURN ".toList ++ s.after)) skip limit =
      s.before ++ added ++ ("RETURN ".toList ++ (s.after ++ pageText skip limit)) := by
  have hnoLimit := (List.forall_mem_cons.1 (List.forall_mem_cons.1 hu.inside).2).1
  have hlimit := @quiet_returnText 'L' id s.var (.inr rfl) hshape.var
  rw [← hshape.after] at hlimit
  have hsame := @removeNumbered_insertion U filters s added s.after 'L' "IMIT".toList rfl hof.before_quiet hlimit h
    hnoLimit
  show removeNumbered U ('L' :: "IMIT".toList) _ ++ _ = _
  rw [hsame]
  simp

end Dgraphai.Inventory
