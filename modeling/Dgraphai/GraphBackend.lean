import Dgraphai.Lib.CypherStatement
import Mathlib.Data.List.TakeWhile

/-!
# Queries of the graph backend

`Neo4jBackend.query` and the text it sends: `_inject_tenant_scope` puts a WHERE line behind the first line
that starts with MATCH.
-/

namespace Dgraphai.GraphBackend

open Cypher PropertyGraph

/-- `s.strip()`. -/
def strip (s : Text) : Text := ((s.dropWhile isSpace).reverse.dropWhile isSpace).reverse

/-- `line.strip().upper().startswith("MATCH")`: of the characters outside ASCII only ẖ, whose upper case is H
and a combining macron, begins with one of these letters and may end the word. -/
def startsMatch (line : Text) : Bool :=
  match strip line with
  | m :: a :: t :: c :: h :: _ =>
    decide ([m, a, t, c].map Char.toUpper = ['M', 'A', 'T', 'C'] ∧ (h.toUpper = 'H' ∨ h = 'ẖ'))
  | _ => false

def scopeLine : Text := "WHERE n.tenant_id = $__tid".toList

/-- The loop over the lines, with its flag. -/
def injectLines : Bool → List Text → List Text
  | _, [] => []
  | injected, line :: lines =>
    if startsMatch line && !injected then line :: scopeLine :: injectLines true lines
    else line :: injectLines injected lines

/-- `"\n".join(lines)`. -/
def unlines (lines : List Text) : Text := List.intercalate ['\n'] lines

/-- `cypher.strip().split("\n")`. -/
def linesOf (cypher : Text) : List Text := (strip cypher).splitOn '\n'

/-- `_inject_tenant_scope`. -/
def injectTenantScope (cypher : Text) : Text := unlines (injectLines false (linesOf cypher))

/-- The text names the tenant already. -/
def Mentions (cypher : Text) : Prop := "__tid".toList <:+: cypher ∨ "tenant_id".toList <:+: cypher

instance (cypher : Text) : Decidable (Mentions cypher) := inferInstanceAs (Decidable (_ ∨ _))

/-- `session.run(cypher, p)`: the rows, or `none` for an error of the database. -/
def sessionRun (R : Reading) (order : List Row → List Row) (g : Graph) (cypher : Text) (p : Params) :
    Option (List Row) := do
  let ts ← lex cypher
  let q ← parseStatement ts
  q.run R p g order

/-- `p["__tid"] = str(tenant_id)`. -/
def withTid (params : Params) (tid : String) : Params := Function.update params "__tid".toList (some (.str tid))

/-- `Neo4jBackend.query`. -/
def query (R : Reading) (order : List Row → List Row) (g : Graph) (cypher : Text) (params : Params)
    (tenantId : Option String) : Option (List Row) :=
  match tenantId with
  | some tid =>
    sessionRun R order g (if Mentions cypher then cypher else injectTenantScope cypher) (withTid params tid)
  | none => sessionRun R order g cypher params

/-! ### The line the WHERE stands behind -/

/-- The lines up to the first that starts with MATCH, and the lines behind it. -/
def breakLines : List Text → Option (List Text × List Text)
  | [] => none
  | line :: lines =>
    if startsMatch line then some ([line], lines) else (breakLines lines).map fun p => (line :: p.1, p.2)

variable {lines a b : List Text} {cypher : Text}

theorem injectLines_true : injectLines true lines = lines := by
  induction lines with
  | nil => rfl
  | cons line lines ih =>
    rw [injectLines, ih, Bool.not_true, Bool.and_false]
    rfl

theorem injectLines_of_none (h : breakLines lines = none) : injectLines false lines = lines := by
  induction lines with
  | nil => rfl
  | cons line lines ih =>
    rw [breakLines] at h
    split_ifs at h with hline
    rw [injectLines, ih (Option.map_eq_none_iff.1 h), eq_false_of_ne_true hline]
    rfl

theorem injectLines_of_some (h : breakLines lines = some (a, b)) :
    lines = a ++ b ∧ a ≠ [] ∧ injectLines false lines = a ++ scopeLine :: b := by
  induction lines generalizing a with
  | nil => cases h
  | cons line lines ih =>
    rw [breakLines] at h
    split_ifs at h with hline
    · obtain ⟨rfl, rfl⟩ := Prod.mk.inj (Option.some.inj h)
      refine ⟨rfl, List.cons_ne_nil line [], ?_⟩
      rw [injectLines, hline, injectLines_true]
      rfl
    · obtain ⟨⟨a', b'⟩, hbreak, heq⟩ := Option.map_eq_some_iff.1 h
      obtain ⟨rfl, rfl⟩ := Prod.mk.inj heq
      obtain ⟨rfl, -, hinject⟩ := ih hbreak
      refine ⟨rfl, List.cons_ne_nil line a', ?_⟩
      rw [injectLines, hinject, eq_false_of_ne_true hline]
      rfl

/-! ### The tokens sent -/

theorem exists_strip (s : Text) : ∃ pre post, s = pre ++ strip s ++ post ∧ (∀ c ∈ pre, isSpace c = true) ∧
    ∀ c ∈ post, isSpace c = true := by
  refine ⟨s.takeWhile isSpace, ((s.dropWhile isSpace).reverse.takeWhile isSpace).reverse, ?_, ?_, ?_⟩
  · rw [strip, List.append_assoc, ← List.reverse_append, List.takeWhile_append_dropWhile, List.reverse_reverse,
      List.takeWhile_append_dropWhile]
  · exact fun c hc => List.mem_takeWhile_imp hc
  · exact fun c hc => List.mem_takeWhile_imp (List.mem_reverse.1 hc)

theorem lex_strip (s : Text) : lex (strip s) = lex s := by
  obtain ⟨pre, post, hs, hpre, hpost⟩ := exists_strip s
  conv_rhs => rw [hs, List.append_assoc, lex_spaces_append hpre, lex_append_spaces hpost]

theorem unlines_linesOf : unlines (linesOf cypher) = strip cypher := List.intercalate_splitOn '\n'

theorem unlines_append (ha : a ≠ []) (hb : b ≠ []) : unlines (a ++ b) = unlines a ++ '\n' :: unlines b := by
  induction a with
  | nil => exact absurd rfl ha
  | cons line a ih =>
    cases a with
    | nil =>
      rw [List.singleton_append, unlines, List.intercalate_cons_of_ne_nil hb, unlines, List.intercalate_singleton]
      simp [unlines]
    | cons line' a =>
      have hne : line' :: a ++ b ≠ [] := by simp
      rw [List.cons_append, unlines, List.intercalate_cons_of_ne_nil hne, unlines,
        List.intercalate_cons_of_ne_nil (List.cons_ne_nil line' a)]
      have hih := ih (List.cons_ne_nil line' a)
      unfold unlines at hih
      rw [hih]
      simp [unlines]

theorem lex_unlines_append (ha : a ≠ []) : lex (unlines (a ++ b)) = lex (unlines a ++ '\n' :: unlines b) := by
  by_cases hb : b = []
  · subst hb
    rw [List.append_nil]
    exact (lex_snoc_space rfl).symm
  · rw [unlines_append ha hb]

theorem lex_of_breakLines (h : breakLines (linesOf cypher) = some (a, b)) :
    lex cypher = lex (unlines a ++ '\n' :: unlines b) := by
  obtain ⟨hlines, ha, -⟩ := injectLines_of_some h
  rw [← lex_unlines_append ha, ← hlines, unlines_linesOf, lex_strip]

theorem lex_injectTenantScope (h : breakLines (linesOf cypher) = some (a, b)) :
    lex (injectTenantScope cypher) = lex (unlines a ++ '\n' :: (scopeLine ++ '\n' :: unlines b)) := by
  obtain ⟨-, ha, hinject⟩ := injectLines_of_some h
  rw [injectTenantScope, hinject]
  by_cases hb : b = []
  · subst hb
    rw [unlines_append ha (List.cons_ne_nil _ _)]
    have hline : unlines [scopeLine] = scopeLine := List.intercalate_singleton
    have hnil : scopeLine ++ '\n' :: unlines [] = scopeLine ++ ['\n'] := rfl
    rw [hline, hnil, ← List.cons_append, ← List.append_assoc, lex_snoc_space rfl]
  · rw [unlines_append ha (List.cons_ne_nil _ _), unlines, unlines, List.intercalate_cons_of_ne_nil hb]
    simp [unlines]

theorem injectTenantScope_of_none (h : breakLines (linesOf cypher) = none) :
    injectTenantScope cypher = strip cypher := by
  rw [injectTenantScope, injectLines_of_none h, unlines_linesOf]

/-- `n.tenant_id = $__tid`. -/
def scopePred : List Token :=
  [.word ['n'], .sym '.', .name "tenant_id".toList, .sym '=', .sym '$', .name "__tid".toList]

theorem scan_scopeLine : scan .code (scopeLine ++ ['\n']) = (.kw .where :: scopePred, .code) := rfl

theorem scan_block_scopeLine : scan .block (scopeLine ++ ['\n']) = ([], .block) := rfl

/-- The tokens of a text whose MATCH line ends outside everything, and of the text sent for it. -/
theorem lex_of_code (h : breakLines (linesOf cypher) = some (a, b)) {ts : List Token}
    (hscan : scan .code (unlines a ++ ['\n']) = (ts, .code)) :
    lex cypher = (lex (unlines b)).map (ts ++ ·) ∧
      lex (injectTenantScope cypher) = (lex (unlines b)).map (ts ++ .kw .where :: scopePred ++ ·) := by
  rw [lex_of_breakLines h, lex_injectTenantScope h, List.append_cons, lex_append_of_code hscan]
  refine ⟨rfl, ?_⟩
  have hline : scan .code (unlines a ++ ['\n'] ++ (scopeLine ++ ['\n'])) = (ts ++ .kw .where :: scopePred, .code) := by
    rw [scan_append_of_code hscan, scan_scopeLine]
  have htext : unlines a ++ '\n' :: (scopeLine ++ '\n' :: unlines b) =
      unlines a ++ ['\n'] ++ (scopeLine ++ ['\n']) ++ unlines b := by simp
  rw [htext, lex_append_of_code hline]

/-- A line put into a comment is a part of it. -/
theorem lex_of_block (h : breakLines (linesOf cypher) = some (a, b)) {ts : List Token}
    (hscan : scan .code (unlines a ++ ['\n']) = (ts, .block)) : lex (injectTenantScope cypher) = lex cypher := by
  have htext : unlines a ++ '\n' :: (scopeLine ++ '\n' :: unlines b) =
      unlines a ++ ['\n'] ++ ((scopeLine ++ ['\n']) ++ unlines b) := by simp
  have hscans : scan .code (unlines a ++ ['\n'] ++ ((scopeLine ++ ['\n']) ++ unlines b)) =
      scan .code (unlines a ++ ['\n'] ++ unlines b) := by
    rw [scan_append, hscan, scan_append .code (unlines a ++ ['\n']), hscan, scan_append, scan_block_scopeLine]
    rfl
  have hcypher : unlines a ++ '\n' :: unlines b = unlines a ++ ['\n'] ++ unlines b := by simp
  rw [lex_of_breakLines h, lex_injectTenantScope h, htext, hcypher, lex, hscans, lex]

end Dgraphai.GraphBackend
