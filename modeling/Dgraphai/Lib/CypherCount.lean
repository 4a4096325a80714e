import Dgraphai.Lib.CypherSplice

/-!
# Counting queries

`MATCH … RETURN count(x) AS y` beside `MATCH … RETURN x`, and the rows of either with the name of their column. What
stands before a RETURN is read apart from what follows it (`runRows_cases`).
-/

namespace Cypher

open PropertyGraph (Graph Node)

/-! ### Reading -/

/-- The pattern and the predicate before a RETURN. -/
def parseHead (ts : List Token) : Option (Pattern × Option (List Token)) :=
  match splitFirst .where 0 ts with
  | some (mat, pred) => if clauseFree 0 pred then (parseMatch mat).map fun pattern => (pattern, some pred) else none
  | none => (parseMatch ts).map fun pattern => (pattern, none)

/-- `count(x) AS y` or `count(DISTINCT x) AS y`: whether it is distinct, the variable, the column and what follows. -/
def parseCountItem : List Token → Option (Bool × Text × Text × List Token)
  | .word w :: .sym '(' :: .word x :: .sym ')' :: .kw .as :: .word y :: ts =>
    if w.map Char.toLower = "count".toList then some (false, x, y, ts) else none
  | .word w :: .sym '(' :: .kw .distinct :: .word x :: .sym ')' :: .kw .as :: .word y :: ts =>
    if w.map Char.toLower = "count".toList then some (true, x, y, ts) else none
  | _ => none

/-- The query whose variable is counted, under the name and with the page of the one row. -/
def parseCount (pattern : Pattern) (pred : Option (List Token)) (ts : List Token) : Option Query := do
  let (distinct, var, column, rest) ← parseCountItem ts
  let (skip, limit) ← parsePage rest
  pure ⟨pattern, pred, distinct, var, column, skip, limit⟩

theorem parseQuery_eq_head (ts : List Token) :
    parseQuery ts = (splitFirst .return 0 ts).bind fun p =>
      (parseHead p.1).bind fun q => parseReturn q.1 q.2 p.2 := by
  unfold parseQuery
  rcases splitFirst .return 0 ts with _ | ⟨head, ret⟩
  · rfl
  simp only [Option.bind_eq_bind, Option.bind_some, parseHead]
  rcases splitFirst .where 0 head with _ | ⟨mat, pred⟩
  · rcases parseMatch head with _ | pattern <;> rfl
  · dsimp only
    split_ifs with hclause
    · rcases parseMatch mat with _ | pattern <;> rfl
    · rcases parseMatch mat with _ | pattern <;> rfl

/-! ### Rows -/

inductive Entry where
  | node (n : Node)
  | int (k : Nat)

/-- The name of the one column of a row, and what stands there. -/
abbrev Line := Text × Entry

namespace Query

variable (R : Reading) (P : Params) (g : Graph) (q : Query)

/-- The number of answers that bind the variable, or of the nodes it is bound to. -/
def count : Nat :=
  let ns := (q.answers R P g).filterMap (·.lookup q.var)
  if q.distinct then (distinctNodes ns).length else ns.length

def countLines : Option (List Line) :=
  if q.accepted R P then some (q.page [(q.column, .int (q.count R P g))]) else none

def lines : Option (List Line) := (q.run R P g).map fun ns => ns.map fun n => (q.column, .node n)

end Query

section Run

variable (R : Reading) (P : Params) (g : Graph)

/-- The rows of a query with these tokens behind its RETURN. -/
def runReturn (pattern : Pattern) (pred : Option (List Token)) (ts : List Token) : Option (List Line) :=
  match parseCount pattern pred ts with
  | some q => q.countLines R P g
  | none => (parseReturn pattern pred ts).bind fun q => q.lines R P g

def runLines (ts : List Token) : Option (List Line) :=
  (splitFirst .return 0 ts).bind fun p => (parseHead p.1).bind fun q => runReturn R P g q.1 q.2 p.2

end Run

variable {R : Reading} {P : Params} {g : Graph} {pattern : Pattern} {pred : Option (List Token)}
  {ts us item : List Token}

/-! ### What follows a RETURN -/

/-- A token that may follow a RETURN. -/
def Token.returned : Token → Bool
  | .word _ | .sym _ => true
  | .kw k => k = .as || k = .distinct || k = .skip || k = .limit
  | _ => false

theorem returned_of_parsePage {p : Option Text × Option Text} (h : parsePage ts = some p) :
    ts.all Token.returned = true := by
  unfold parsePage at h
  split at h
  all_goals first | rfl | cases h

theorem returned_of_parseItem {p : Text × Text × List Token} (h : parseItem ts = some p)
    (hp : p.2.2.all Token.returned = true) : ts.all Token.returned = true := by
  unfold parseItem at h
  split at h
  all_goals first | cases h; exact hp | cases h

theorem returned_of_parseCountItem {p : Bool × Text × Text × List Token} (h : parseCountItem ts = some p)
    (hp : p.2.2.2.all Token.returned = true) : ts.all Token.returned = true := by
  unfold parseCountItem at h
  split at h
  · split_ifs at h
    cases h
    exact hp
  · split_ifs at h
    cases h
    exact hp
  · cases h

theorem returned_of_parseReturn {q : Query} (h : parseReturn pattern pred ts = some q) :
    ts.all Token.returned = true := by
  obtain ⟨p, hitem, h⟩ := Option.bind_eq_some_iff.1 h
  obtain ⟨page, hpage, -⟩ := Option.bind_eq_some_iff.1 h
  have hrest := returned_of_parseItem hitem (returned_of_parsePage hpage)
  split_ifs at hrest with hdistinct
  · cases ts with
    | nil => rfl
    | cons t ts =>
      obtain rfl := Option.some.inj (of_decide_eq_true hdistinct)
      exact hrest
  · exact hrest

theorem returned_of_parseCount {q : Query} (h : parseCount pattern pred ts = some q) :
    ts.all Token.returned = true := by
  obtain ⟨p, hitem, h⟩ := Option.bind_eq_some_iff.1 h
  obtain ⟨page, hpage, -⟩ := Option.bind_eq_some_iff.1 h
  exact returned_of_parseCountItem hitem (returned_of_parsePage hpage)

/-- A query that is read is not one that counts. -/
theorem parseCount_of_parseReturn {q : Query} (h : parseReturn pattern pred ts = some q) :
    parseCount pattern pred ts = none := by
  have hparen : ∀ w us, parseReturn pattern pred (.word w :: .sym '(' :: us) = none := fun w us => rfl
  refine Option.eq_none_iff_forall_ne_some.2 fun c hc => ?_
  obtain ⟨p, hitem, -⟩ := Option.bind_eq_some_iff.1 hc
  unfold parseCountItem at hitem
  split at hitem
  · rw [hparen] at h
    cases h
  · rw [hparen] at h
    cases h
  · cases hitem

theorem runReturn_of_parseReturn {q : Query} (h : parseReturn pattern pred ts = some q) :
    runReturn R P g pattern pred ts = q.lines R P g := by
  rw [runReturn, parseCount_of_parseReturn h]
  show (parseReturn pattern pred ts).bind _ = _
  rw [h, Option.bind_some]

theorem runReturn_of_not_returned (h : ts.all Token.returned = false) : runReturn R P g pattern pred ts = none := by
  have hcount : parseCount pattern pred ts = none := Option.eq_none_iff_forall_ne_some.2 fun q hq => by
    rw [returned_of_parseCount hq] at h
    cases h
  have hreturn : parseReturn pattern pred ts = none := Option.eq_none_iff_forall_ne_some.2 fun q hq => by
    rw [returned_of_parseReturn hq] at h
    cases h
  rw [runReturn, hcount]
  show (parseReturn pattern pred ts).bind _ = _
  rw [hreturn, Option.bind_none]

theorem runLines_of_parseQuery {q : Query} (h : parseQuery ts = some q) : runLines R P g ts = q.lines R P g := by
  rw [parseQuery_eq_head] at h
  obtain ⟨p, hp, h⟩ := Option.bind_eq_some_iff.1 h
  obtain ⟨r, hr, h⟩ := Option.bind_eq_some_iff.1 h
  rw [runLines, hp, Option.bind_some, hr, Option.bind_some, runReturn_of_parseReturn h]

/-- Tokens are refused, or a query, or one that counts. -/
theorem runLines_eq (ts : List Token) :
    (∀ R P g, runLines R P g ts = none) ∨ ∃ q : Query, (∀ R P g, runLines R P g ts = q.lines R P g) ∨
      ∀ R P g, runLines R P g ts = q.countLines R P g := by
  simp only [runLines]
  rcases splitFirst .return 0 ts with _ | ⟨head, item⟩
  · exact .inl fun R P g => rfl
  simp only [Option.bind_some]
  rcases parseHead head with _ | ⟨pattern, pred⟩
  · exact .inl fun R P g => rfl
  simp only [Option.bind_some, runReturn]
  rcases parseCount pattern pred item with _ | q
  · rcases parseReturn pattern pred item with _ | q
    · exact .inl fun R P g => rfl
    · exact .inr ⟨q, .inl fun R P g => rfl⟩
  · exact .inr ⟨q, .inr fun R P g => rfl⟩

/-! ### What stands before it -/

/-- Tokens before a RETURN are the head of every query that ends in it, or of none. -/
theorem runLines_cases (us : List Token) :
    (∃ pattern pred, parseHead us = some (pattern, pred) ∧ ∀ R P g item, .kw .return ∉ item →
      runLines R P g (us ++ .kw .return :: item) = runReturn R P g pattern pred item) ∨
    ∀ R P g item, .kw .return ∉ item → runLines R P g (us ++ .kw .return :: item) = none := by
  have hclosed : ∀ p : List Token × List Token, splitFirst .return 0 us = some p →
      ∀ R P g item, runLines R P g (us ++ .kw .return :: item) = none := by
    intro p hp R P g item
    have hmem : (p.2 ++ .kw .return :: item).all Token.returned = false := by
      rw [List.all_append, List.all_cons]
      simp [Token.returned]
    rw [runLines, splitFirst_append_of_some hp, Option.bind_some]
    rcases parseHead p.1 with _ | q
    · rfl
    · rw [Option.bind_some, runReturn_of_not_returned hmem]
  rcases hsplit : splitFirst .return 0 us with _ | p
  · have hafter : ∀ item, .kw .return ∉ item → splitFirst .return 0 (us ++ .kw .return :: item) =
        if endDepth 0 us = 0 then some (us, item) else none := by
      intro item hitem
      rw [splitFirst_append_of_none hsplit, splitFirst]
      by_cases hdepth : endDepth 0 us = 0
      · rw [if_pos ⟨hdepth, rfl⟩, if_pos hdepth, Option.map_some, List.append_nil]
      · rw [if_neg fun hk => hdepth hk.1, if_neg hdepth, splitFirst_of_not_mem hitem]
        rfl
    by_cases hdepth : endDepth 0 us = 0
    · rcases hhead : parseHead us with _ | ⟨pattern, pred⟩
      · refine .inr fun R P g item hitem => ?_
        rw [runLines, hafter item hitem, if_pos hdepth, Option.bind_some, hhead]
        rfl
      · refine .inl ⟨pattern, pred, rfl, fun R P g item hitem => ?_⟩
        rw [runLines, hafter item hitem, if_pos hdepth, Option.bind_some, hhead]
        rfl
    · refine .inr fun R P g item hitem => ?_
      rw [runLines, hafter item hitem, if_neg hdepth]
      rfl
  · exact .inr fun R P g item _ => hclosed p hsplit R P g item

/-- A RETURN read as a name begins no clause. -/
theorem runLines_name (hitem : .kw .return ∉ item) (w : Text) : runLines R P g (us ++ .name w :: item) = none := by
  rcases hsplit : splitFirst .return 0 us with _ | p
  · have hnone : splitFirst .return 0 (us ++ .name w :: item) = none := by
      rw [splitFirst_append_of_none hsplit, splitFirst_of_not_mem (by simpa using hitem)]
      rfl
    rw [runLines, hnone]
    rfl
  · have hmem : (p.2 ++ .name w :: item).all Token.returned = false := by
      rw [List.all_append, List.all_cons]
      simp [Token.returned]
    rw [runLines, splitFirst_append_of_some hsplit, Option.bind_some]
    rcases parseHead p.1 with _ | q
    · rfl
    · rw [Option.bind_some, runReturn_of_not_returned hmem]

/-! ### Texts -/

section Text

variable (R P g) in
/-- The rows of a text; `none` for an error. -/
def readLines (t : Text) : Option (List Line) := (lex t).bind (runLines R P g)

variable {a b : Text} {rest : List Token}

/-- What may stand behind a RETURN, with its tokens. -/
structure Returns (b : Text) (item : List Token) : Prop where
  inline : ∀ c ∈ b, isInline c = true
  lex : lex b = some item
  free : .kw .return ∉ item

theorem Returns.return_inline (h : Returns b item) : ∀ c ∈ "RETURN ".toList ++ b, isInline c = true := by
  intro c hc
  rcases List.mem_append.1 hc with hc | hc
  · exact List.all_eq_true.1 (show "RETURN ".toList.all isInline = true by decide) c hc
  · exact h.inline c hc

/-- A RETURN behind a text that ends in a space: the text is in a comment to the end of the line, or it is the head
of every query read, or nothing is read. -/
theorem readLines_cases (t : Text) (ha : a = t ++ [' ']) :
    (scan .code a).2 = .line ∧ (∀ R P g b item, Returns b item →
        readLines R P g (a ++ ("RETURN ".toList ++ b)) = runLines R P g (scan .code a).1) ∨
      (scan .code a).2 ≠ .line ∧
        ((∃ pattern pred, parseHead (scan .code a).1 = some (pattern, pred) ∧ ∀ R P g b item, Returns b item →
            readLines R P g (a ++ ("RETURN ".toList ++ b)) = runReturn R P g pattern pred item) ∨
          ∀ R P g b item, Returns b item → readLines R P g (a ++ ("RETURN ".toList ++ b)) = none) := by
  have hcode : scan .code "RETURN ".toList = ([.kw .return], .code) := rfl
  have hdot : scan .dot "RETURN ".toList = ([.name "RETURN".toList], .code) := rfl
  have hmode : (scan .code a).2 = (step (scan .code t).2 ' ').2 := by
    rw [ha, scan_append]
    rfl
  have hquotes : (scan .code t).2.Quotes := Mode.Quotes.scan (m := .code) trivial t
  rcases hscan : scan .code a with ⟨us, m⟩
  rw [hscan] at hmode
  dsimp only at hmode ⊢
  rcases mode_step_space hquotes with hm | hm | hm | hm <;> rw [← hmode] at hm
  · refine .inr ⟨by rw [hm]; exact Mode.noConfusion, ?_⟩
    rw [hm] at hscan
    have hlex : ∀ b item, Returns b item →
        lex (a ++ ("RETURN ".toList ++ b)) = some (us ++ .kw .return :: item) := by
      intro b item hb
      rw [lex_append_of_code hscan, lex_append_of_code hcode, hb.lex]
      rfl
    rcases runLines_cases us with ⟨pattern, pred, hhead, hrun⟩ | hrun
    · refine .inl ⟨pattern, pred, hhead, fun R P g b item hb => ?_⟩
      rw [readLines, hlex b item hb, Option.bind_some, hrun R P g item hb.free]
    · refine .inr fun R P g b item hb => ?_
      rw [readLines, hlex b item hb, Option.bind_some, hrun R P g item hb.free]
  · -- RETURN is read as the name behind the point
    refine .inr ⟨by rw [hm]; exact Mode.noConfusion, .inr fun R P g b item hb => ?_⟩
    rw [hm] at hscan
    have hlex : lex (a ++ ("RETURN ".toList ++ b)) = some (us ++ .name "RETURN".toList :: item) := by
      obtain ⟨last, hlast, rfl⟩ := Option.map_eq_some_iff.1 hb.lex
      rw [lex, scan_append, hscan]
      dsimp only
      rw [scan_append_of_code hdot, hlast]
      simp
    rw [readLines, hlex, Option.bind_some, runLines_name hb.free]
  · refine .inl ⟨hm, fun R P g b item hb => ?_⟩
    rw [hm] at hscan
    have hlex : lex (a ++ ("RETURN ".toList ++ b)) = some us := by
      rw [lex, scan_append, hscan]
      dsimp only
      rw [scan_line hb.return_inline]
      simp [finish]
    rw [readLines, hlex, Option.bind_some]
  · refine .inr ⟨by rintro rfl; exact hm, .inr fun R P g b item hb => ?_⟩
    have hlex : lex (a ++ ("RETURN ".toList ++ b)) = none := by
      rw [lex, scan_append, hscan]
      dsimp only
      rw [(hm.scan hb.return_inline).finish]
      rfl
    rw [readLines, hlex, Option.bind_none]

end Text

/-! ### Pages -/

/-- The rows of a page. -/
theorem Query.lines_page {q : Query} (hskip : q.skip = none) (hlimit : q.limit = none) (skip limit : Nat) :
    Query.lines R P g { q with skip := some (Nat.toDigits 10 skip), limit := some (Nat.toDigits 10 limit) } =
      (q.lines R P g).map fun l => (l.drop skip).take limit := by
  have hvalue : ∀ k, Nat.ofDigitChars 10 (Nat.toDigits 10 k) 0 = k := fun _ => Nat.ofDigitChars_ten_toDigits
  rw [lines, lines, run, run]
  show ((if q.accepted R P = true then _ else none).map _) = _
  split_ifs
  · rw [Option.map_some, Option.map_some, Option.map_some, ← List.map_drop, ← List.map_take]
    simp only [rows, page, hskip, hlimit, Option.map_some, Option.map_none, Option.getD_some, Option.getD_none,
      List.drop_zero, hvalue]
    rfl
  · rfl

end Cypher
