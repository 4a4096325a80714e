import Dgraphai.Inventory
import Dgraphai.Lib.CypherPredicate
import Dgraphai.Lib.PySub
import Mathlib.Data.List.Forall2

/-!
# The text of an inventory query

Every category's query is `MATCH … WHERE … RETURN …` (`exists_parts`), and the query sent has the filters at
the end of its predicate as long as they are `Restrictive` (`exists_sent`).
-/

namespace Dgraphai.Inventory

open Cypher PyText PropertyGraph

/-! ### The queries of the taxonomy -/

/-- No character beyond ASCII is a letter or a digit. -/
def ascii : Unicode := ⟨fun _ => false, fun _ => false⟩

/-- A query cut at `RETURN `, and its clauses. -/
structure Parts where
  before : Text
  after : Text
  mat : List Token
  pred : List Token
  item : List Token
  pattern : Pattern
  var : Text

def parts (cypher : Text) : Option Parts := do
  let (before, _, after) ← search ascii "RETURN".toList [] cypher
  let (mat, pred) ← splitFirst .where 0 (scan .code before).1
  let pattern ← parseMatch mat
  let item := (scan .code (after.tail ++ [' '])).1
  let (var, _, _) ← parseItem (if item.head? = some (.kw .distinct) then item.tail else item)
  pure ⟨before, after.tail, mat, pred, item, pattern, var⟩

/-- The parts are those of a query that returns one of the variables of its pattern. -/
structure Parts.Of (cypher : Text) (s : Parts) : Prop where
  text : cypher = s.before ++ ("RETURN ".toList ++ s.after)
  chars : ∀ c ∈ cypher, c.toNat < 128
  search_return : search ascii "RETURN".toList [] cypher = some (s.before, "RETURN".toList, ' ' :: s.after)
  search_where : (search ascii "WHERE".toList [] cypher).isSome
  before_quiet : quiet 'L' false s.before = true
  after_quiet : quiet 'L' false ("RETURN ".toList ++ s.after) = true
  scan_before : scan .code s.before = (s.mat ++ .kw .where :: s.pred, .code)
  opening : Opening s.mat s.pred s.pattern
  scan_after : scan .code (s.after ++ [' ']) = (s.item, .code)
  item : s.item = [.word s.var] ∨ s.item = [.word s.var, .kw .as, .word ['f']] ∨ s.item = [.kw .distinct, .word s.var]
  wordy : Wordy s.after
  var : s.var ∈ s.pattern.vars

instance (mat pred : List Token) (pattern : Pattern) : Decidable (Opening mat pred pattern) :=
  decidable_of_iff (parseMatch mat = some pattern ∧ splitFirst .where 0 mat = none ∧ splitFirst .return 0 mat = none ∧
      endDepth 0 mat = 0 ∧ clauseFree 0 pred = true ∧ endDepth 0 pred = 0)
    ⟨fun h => ⟨h.1, h.2.1, h.2.2.1, h.2.2.2.1, h.2.2.2.2.1, h.2.2.2.2.2⟩,
      fun h => ⟨h.parse, h.noWhere, h.noReturn, h.matDepth, h.clause, h.predDepth⟩⟩

theorem all_ascii_iff (t : Text) : t.all (·.toNat < 128) = true ↔ ∀ c ∈ t, c.toNat < 128 := by simp

instance (cypher : Text) (s : Parts) : Decidable (s.Of cypher) :=
  decidable_of_iff ((cypher = s.before ++ ("RETURN ".toList ++ s.after) ∧ cypher.all (·.toNat < 128) = true) ∧
      (search ascii "RETURN".toList [] cypher = some (s.before, "RETURN".toList, ' ' :: s.after) ∧
        (search ascii "WHERE".toList [] cypher).isSome) ∧
      (quiet 'L' false s.before = true ∧ quiet 'L' false ("RETURN ".toList ++ s.after) = true) ∧
      (scan .code s.before = (s.mat ++ .kw .where :: s.pred, .code) ∧ Opening s.mat s.pred s.pattern) ∧
      (scan .code (s.after ++ [' ']) = (s.item, .code) ∧
        (s.item = [.word s.var] ∨ s.item = [.word s.var, .kw .as, .word ['f']] ∨
          s.item = [.kw .distinct, .word s.var])) ∧
      Wordy s.after ∧ s.pattern.vars.contains s.var = true)
    ⟨fun h => ⟨h.1.1, (all_ascii_iff cypher).1 h.1.2, h.2.1.1, h.2.1.2, h.2.2.1.1, h.2.2.1.2, h.2.2.2.1.1, h.2.2.2.1.2,
        h.2.2.2.2.1.1, h.2.2.2.2.1.2, h.2.2.2.2.2.1, List.contains_iff_mem.1 h.2.2.2.2.2.2⟩,
      fun h => ⟨⟨h.text, (all_ascii_iff cypher).2 h.chars⟩, ⟨h.search_return, h.search_where⟩,
        ⟨h.before_quiet, h.after_quiet⟩, ⟨h.scan_before, h.opening⟩, ⟨h.scan_after, h.item⟩, h.wordy,
        List.contains_iff_mem.2 h.var⟩⟩

/-- The conjunct that keeps a variable to the tenant. -/
def tenantAtom (x : Text) : List Token :=
  [.word x, .sym '.', .name "tenant_id".toList, .sym '=', .sym '$', .name "tid".toList]

/-- The predicate is a conjunction with the tenant among its parts. -/
structure Parts.Scoped (s : Parts) : Prop where
  or : splitAll .or 0 s.pred = [s.pred]
  xor : splitAll .xor 0 s.pred = [s.pred]
  tenant : tenantAtom s.var ∈ splitAll .and 0 s.pred
  letter : s.var.head?.any Char.isDigit = false

instance (s : Parts) : Decidable s.Scoped :=
  decidable_of_iff (splitAll .or 0 s.pred = [s.pred] ∧ splitAll .xor 0 s.pred = [s.pred] ∧
      tenantAtom s.var ∈ splitAll .and 0 s.pred ∧ s.var.head?.any Char.isDigit = false)
    ⟨fun h => ⟨h.1, h.2.1, h.2.2.1, h.2.2.2⟩, fun h => ⟨h.or, h.xor, h.tenant, h.letter⟩⟩

/-- `f.extension IN ['.key','.der']`. -/
def keyAtom : List Token :=
  [.word ['f'], .sym '.', .name "extension".toList, .kw .in, .sym '[', .str ".key".toList, .sym ',', .str ".der".toList,
    .sym ']']

/-- Files with the extension of a key are an alternative to the other conditions. -/
structure Parts.KeyFiles (s : Parts) : Prop where
  pattern : s.pattern = .node ['f'] "File".toList
  item : s.item = [.word ['f']]
  alternative : keyAtom ++ [.kw .or] <+: s.pred

instance (s : Parts) : Decidable s.KeyFiles :=
  decidable_of_iff (s.pattern = .node ['f'] "File".toList ∧ s.item = [.word ['f']] ∧ keyAtom ++ [.kw .or] <+: s.pred)
    ⟨fun h => ⟨h.1, h.2.1, h.2.2⟩, fun h => ⟨h.pattern, h.item, h.alternative⟩⟩

/-- The categories whose pattern has another variable, returned under the name `f`. -/
def renamedIds : List String := ["people", "people-identified", "people-unknown", "applications", "directories"]

/-- The variables of the taxonomy. -/
def returned : List Text := ["f".toList, "p".toList, "fc".toList, "a".toList, "d".toList]

/-- What follows RETURN: a variable under the name `f`, or `f` itself. -/
def returnText (id x : Text) : Text :=
  if (renamedIds.map String.toList).contains id then x ++ " AS f".toList
  else if id = "duplicates".toList then "DISTINCT f".toList
  else ['f']

/-- The database takes the predicate whatever it reads besides, and the pattern binds `f` unless renamed. -/
structure Parts.Shape (s : Parts) (id : Text) : Prop where
  settled : ∀ a ∈ predAtoms s.pred, (parseAtom a).settled ["tid".toList] s.pattern.vars = true
  own : (renamedIds.map String.toList).contains id = false → s.var = ['f']
  renamed : (renamedIds.map String.toList).contains id = true → s.pattern.vars.contains ['f'] = false
  keys : id = "certs-keys".toList → Single (s.pred.drop (keyAtom.length + 1))
  var : returned.contains s.var = true
  after : s.after = returnText id s.var
  space : s.before.getLast? = some ' '
  noSkip : quiet 'S' false s.before = true
  noReturn : clear "RETURN".toList s.before = true
  noUnwind : clear "UNWIND".toList s.before = true

instance (s : Parts) (id : Text) : Decidable (s.Shape id) :=
  decidable_of_iff ((∀ a ∈ predAtoms s.pred, (parseAtom a).settled ["tid".toList] s.pattern.vars = true) ∧
      ((renamedIds.map String.toList).contains id = false → s.var = ['f']) ∧
      ((renamedIds.map String.toList).contains id = true → s.pattern.vars.contains ['f'] = false) ∧
      (id = "certs-keys".toList → Single (s.pred.drop (keyAtom.length + 1))) ∧
      (returned.contains s.var = true ∧ s.after = returnText id s.var) ∧
      s.before.getLast? = some ' ' ∧ quiet 'S' false s.before = true ∧
      clear "RETURN".toList s.before = true ∧ clear "UNWIND".toList s.before = true)
    ⟨fun h => ⟨h.1, h.2.1, h.2.2.1, h.2.2.2.1, h.2.2.2.2.1.1, h.2.2.2.2.1.2, h.2.2.2.2.2.1, h.2.2.2.2.2.2.1,
        h.2.2.2.2.2.2.2.1, h.2.2.2.2.2.2.2.2⟩,
      fun h => ⟨h.settled, h.own, h.renamed, h.keys, ⟨h.var, h.after⟩, h.space, h.noSkip, h.noReturn, h.noUnwind⟩⟩

/-- The ids and the queries as lists of characters. -/
theorem exists_texts : ∃ texts : List (Text × Text),
    List.Forall₂ (fun c t => c.id = String.ofList t.1 ∧ c.cypher = String.ofList t.2) allCategories texts ∧
      ∀ t ∈ texts, ∃ s ∈ parts t.2, s.Of t.2 ∧ s.Shape t.1 ∧
        if t.1 = "certs-keys".toList then s.KeyFiles else s.Scoped := by
  apply Exists.intro
  apply And.intro
  case h.left =>
    simp only [allCategories, inventory, flatten, Category.flattened, video, audio, images, documents, emails, code,
      executables, archives, certificates, models3d, calendarContacts, people, applications, duplicates, directories,
      List.cons_append, List.nil_append, List.append_nil]
    repeat' first | exact List.Forall₂.nil | apply List.Forall₂.cons (b := (_, _)) ⟨rfl, rfl⟩
  case h.right => decide +kernel

theorem exists_parts {c : Category} (hc : c ∈ allCategories) :
    ∃ s : Parts, s.Of c.cypher.toList ∧ s.Shape c.id.toList ∧ (c.id = "certs-keys" → s.KeyFiles) ∧
      (c.id ≠ "certs-keys" → s.Scoped) := by
  obtain ⟨texts, hsame, hshapes⟩ := exists_texts
  obtain ⟨t, ht, hid, hcypher⟩ : ∃ t ∈ texts, c.id = String.ofList t.1 ∧ c.cypher = String.ofList t.2 := by
    obtain ⟨i, hi, rfl⟩ := List.mem_iff_getElem.1 hc
    have hi' : i < texts.length := hsame.length_eq ▸ hi
    exact ⟨texts.get ⟨i, hi'⟩, List.get_mem texts _, hsame.get hi hi'⟩
  have hkeys : c.id = "certs-keys" ↔ t.1 = "certs-keys".toList := by
    rw [hid, ← String.toList_inj, String.toList_ofList]
  obtain ⟨s, -, hof, hshape', hshape⟩ := hshapes t ht
  rw [hcypher, String.toList_ofList, ne_eq, hkeys, hid, String.toList_ofList]
  refine ⟨s, hof, hshape', fun heq => ?_, fun hne => ?_⟩
  · rwa [if_pos heq] at hshape
  · rwa [if_neg hne] at hshape

/-! ### Pages -/

theorem flush_toDigits (n : Nat) : flush false (Nat.toDigits 10 n).reverse = .word (Nat.toDigits 10 n) := by
  have hnone : Keyword.ofText? (Nat.toDigits 10 n) = none :=
    ofText?_digits Nat.toDigits_ne_nil fun c hc => Nat.isDigit_of_mem_toDigits (by decide) (by decide) hc
  rw [flush, if_neg (by simp), List.reverse_reverse, hnone]

theorem scan_toDigits (n : Nat) : scan .code (Nat.toDigits 10 n ++ [' ']) = ([.word (Nat.toDigits 10 n)], .code) := by
  rw [scan_code_word Nat.toDigits_ne_nil fun c hc =>
    isWordChar_of_isDigit (Nat.isDigit_of_mem_toDigits (by decide) (by decide) hc), flush_toDigits]

theorem wordy_return : Wordy "RETURN ".toList := by decide

theorem wordy_toDigits (n : Nat) : Wordy (Nat.toDigits 10 n) := fun _ hc =>
  .inl (isWordChar_of_isDigit (Nat.isDigit_of_mem_toDigits (by decide) (by decide) hc))

theorem wordy_pageText (skip limit : Nat) : Wordy (pageText skip limit) := by
  have hskip : Wordy " SKIP ".toList := by decide
  have hlimit : Wordy " LIMIT ".toList := by decide
  exact ((hskip.append (wordy_toDigits skip)).append hlimit).append (wordy_toDigits limit)

def pageTokens (skip limit : Nat) : List Token :=
  [.kw .skip, .word (Nat.toDigits 10 skip), .kw .limit, .word (Nat.toDigits 10 limit)]

variable {cypher : Text} {s : Parts} {skip limit : Nat}

/-- What follows the RETURN of a query with a page. -/
theorem Parts.Of.lex_after (h : s.Of cypher) :
    lex (s.after ++ pageText skip limit) = some (s.item ++ pageTokens skip limit) := by
  have htext : ∀ a b : Text, s.after ++ (" SKIP ".toList ++ a ++ " LIMIT ".toList ++ b) ++ [' '] =
      (s.after ++ [' ']) ++ (['S', 'K', 'I', 'P', ' '] ++ ((a ++ [' ']) ++
        (['L', 'I', 'M', 'I', 'T', ' '] ++ (b ++ [' '])))) := by
    intro a b
    simp
  have hskip : scan .code ['S', 'K', 'I', 'P', ' '] = ([.kw .skip], .code) := rfl
  have hlimit : scan .code ['L', 'I', 'M', 'I', 'T', ' '] = ([.kw .limit], .code) := rfl
  have hlast : lex (Nat.toDigits 10 limit ++ [' ']) = some [.word (Nat.toDigits 10 limit)] := by
    rw [lex, scan_toDigits]
    rfl
  calc lex (s.after ++ pageText skip limit)
    _ = lex (s.after ++ pageText skip limit ++ [' ']) := (lex_snoc_space rfl).symm
    _ = lex ((s.after ++ [' ']) ++ (['S', 'K', 'I', 'P', ' '] ++ ((Nat.toDigits 10 skip ++ [' ']) ++
          (['L', 'I', 'M', 'I', 'T', ' '] ++ (Nat.toDigits 10 limit ++ [' ']))))) := congrArg lex (htext _ _)
    _ = some (s.item ++ pageTokens skip limit) := by
      rw [lex_append_of_code h.scan_after, lex_append_of_code hskip, lex_append_of_code (scan_toDigits skip),
        lex_append_of_code hlimit, hlast]
      rfl

/-- The query that is read has the variable and the page of the text. -/
theorem Parts.Of.parseReturn (h : s.Of cypher) (pattern : Pattern) (pred : Option (List Token)) {q : Query}
    (hq : parseReturn pattern pred (s.item ++ pageTokens skip limit) = some q) :
    q.pattern = pattern ∧ q.pred = pred ∧ q.var = s.var ∧ q.distinct = decide (s.item.head? = some (.kw .distinct)) ∧
      q.skip = some (Nat.toDigits 10 skip) ∧ q.limit = some (Nat.toDigits 10 limit) := by
  obtain ⟨column, hsome⟩ : ∃ column, Cypher.parseReturn pattern pred (s.item ++ pageTokens skip limit) =
      some ⟨pattern, pred, decide (s.item.head? = some (.kw .distinct)), s.var, column, some (Nat.toDigits 10 skip),
        some (Nat.toDigits 10 limit)⟩ := by
    rcases h.item with hitem | hitem | hitem
    · exact ⟨s.var, by simp [hitem, Cypher.parseReturn, parseItem, parsePage, pageTokens]⟩
    · exact ⟨['f'], by simp [hitem, Cypher.parseReturn, parseItem, parsePage, pageTokens]⟩
    · exact ⟨s.var, by simp [hitem, Cypher.parseReturn, parseItem, parsePage, pageTokens]⟩
  obtain rfl := Option.some.inj (hsome.symm.trans hq)
  exact ⟨rfl, rfl, rfl, rfl, rfl, rfl⟩

theorem Parts.Of.not_mem_item (h : s.Of cypher) : .kw .return ∉ s.item ++ pageTokens skip limit := by
  rcases h.item with hitem | hitem | hitem <;> rw [hitem] <;> simp [pageTokens]

/-! ### The text put in -/

/-- What the filters put before the RETURN of a query; `none` where `re.sub` raises. -/
def insertion (U : Unicode) (filters : List Filter) : Option Text :=
  if clauses U filters = [] then some []
  else (Template.run ["RETURN".toList, "RETURN".toList] .text (extra U filters ++ [' '])).bind fun q =>
    if q.2 = .text then some ("AND ".toList ++ q.1) else none

/-- `insertion` in the query sent, which has lost every ` LIMIT n`. -/
def addition (U : Unicode) (filters : List Filter) : Option Text :=
  if clauses U filters = [] then some []
  else (Template.run ["RETURN".toList, "RETURN".toList] .text (extra U filters ++ [' '])).bind fun q =>
    if q.2 = .text then some ("AND ".toList ++ removeNumbered U "LIMIT".toList q.1) else none

variable {U : Unicode} {filters : List Filter} {c : Category} {p : Paging} {text added : Text}

theorem head_of_clause {f : Filter} {t : Text} (h : f.clause U = some t) : t.head? = some 'f' := by
  unfold Filter.clause at h
  dsimp only at h
  split_ifs at h <;> cases h <;> rfl

theorem exists_extra (h : clauses U filters ≠ []) : ∃ tail, extra U filters = 'f' :: tail := by
  obtain ⟨t, ts, hts⟩ := List.exists_cons_of_ne_nil h
  obtain ⟨f, -, hf⟩ := List.mem_filterMap.1 (show t ∈ clauses U filters from hts ▸ List.mem_cons_self)
  have ht := head_of_clause hf
  obtain ⟨t', rfl⟩ : ∃ t', t = 'f' :: t' := by
    cases t with
    | nil => cases ht
    | cons d t => exact ⟨t, by rw [Option.some.inj ht]⟩
  rw [extra, hts]
  cases ts with
  | nil => exact ⟨t', by simp⟩
  | cons u us =>
    rw [List.intercalate_cons_of_ne_nil (List.cons_ne_nil u us)]
    exact ⟨_, rfl⟩

theorem run_extra (h : clauses U filters ≠ []) : ∃ tail, ∀ groups,
    Template.run groups .text (extra U filters ++ [' ']) =
      (Template.run groups .text (tail ++ [' '])).map fun q => ('f' :: q.1, q.2) := by
  obtain ⟨tail, htail⟩ := exists_extra h
  refine ⟨tail, fun groups => ?_⟩
  rw [htail, List.cons_append]
  rfl

/-- A character that is no part of ` LIMIT n`. -/
def apart (c : Char) : Bool :=
  !isSpace c && !c.isDigit && decide (c.toNat < 128) && ['L', 'I', 'M', 'I', 'T'].all fun k => !ignoreCase k c

theorem fence_of_apart {d : Char} (h : apart d = true) (b : Text) : Fence U ['L', 'I', 'M', 'I', 'T'] (d :: b) := by
  simp only [apart, Bool.and_eq_true, Bool.not_eq_true', decide_eq_true_eq, List.all_eq_true] at h
  intro e he
  cases he
  refine ⟨h.1.1.1, ?_, h.2⟩
  simp [Unicode.isDecimal, h.1.1.2, Nat.not_le.2 h.1.2]

theorem removeLimit_append {d : Char} (h : apart d = true) (t b : Text) :
    removeNumbered U "LIMIT".toList (t ++ d :: b) =
      removeNumbered U "LIMIT".toList t ++ removeNumbered U "LIMIT".toList (d :: b) :=
  removeNumbered_append (fence_of_apart h b)

theorem removeLimit_of_quiet {t : Text} (h : quiet 'L' false t = true) : removeNumbered U "LIMIT".toList t = t :=
  removeNumbered_of_quiet h

theorem Parts.Of.search_eq (h : s.Of cypher) :
    search U "RETURN".toList [] cypher = some (s.before, "RETURN".toList, ' ' :: s.after) ∧
    (search U "WHERE".toList [] cypher).isSome = true := by
  have hcongr : ∀ w, search U w [] cypher = search ascii w [] cypher := fun w => search_congr fun c hc => h.chars c hc
  rw [hcongr, hcongr]
  exact ⟨h.search_return, h.search_where⟩

theorem removeLimit_addition {inside : Text} :
    removeNumbered U "LIMIT".toList ("AND ".toList ++ ('f' :: inside)) =
      "AND ".toList ++ removeNumbered U "LIMIT".toList ('f' :: inside) := by
  rw [removeLimit_append (by decide), removeLimit_of_quiet rfl]

theorem addition_of_insertion (h : insertion U filters = some added) :
    addition U filters = some (removeNumbered U "LIMIT".toList added) := by
  unfold insertion at h
  unfold addition
  split_ifs at h ⊢ with hnone
  · obtain rfl := Option.some.inj h
    rfl
  · obtain ⟨tail, hrun⟩ := run_extra hnone
    obtain ⟨q, hq, hsome⟩ := Option.bind_eq_some_iff.1 h
    split_ifs at hsome with hm
    obtain rfl := Option.some.inj hsome
    rw [hq, Option.bind_some, if_pos hm]
    rw [hrun] at hq
    obtain ⟨r, -, rfl⟩ := Option.map_eq_some_iff.1 hq
    rw [removeLimit_addition]

/-- A query without LIMIT keeps its text. -/
theorem Parts.Of.removeLimit_cypher (h : s.Of cypher) : removeNumbered U "LIMIT".toList cypher = cypher := by
  have hreturn : "RETURN ".toList = 'R' :: "ETURN ".toList := rfl
  have hafter := removeLimit_of_quiet (U := U) h.after_quiet
  rw [hreturn, List.cons_append] at hafter
  rw [h.text, hreturn, List.cons_append, removeLimit_append (by decide), hafter, removeLimit_of_quiet h.before_quiet]

/-- What is put into it loses its own. -/
theorem Parts.Of.removeLimit (h : s.Of cypher) (inside : Text) :
    removeNumbered U "LIMIT".toList
        (s.before ++ ("AND ".toList ++ ('f' :: inside)) ++ ("RETURN ".toList ++ s.after)) =
      s.before ++ removeNumbered U "LIMIT".toList ("AND ".toList ++ ('f' :: inside)) ++
        ("RETURN ".toList ++ s.after) := by
  have hand : "AND ".toList ++ ('f' :: inside) = 'A' :: ("ND ".toList ++ ('f' :: inside)) := rfl
  have hreturn : "RETURN ".toList = 'R' :: "ETURN ".toList := rfl
  have hafter := removeLimit_of_quiet (U := U) h.after_quiet
  rw [hreturn, List.cons_append] at hafter ⊢
  rw [hand, removeLimit_append (by decide), hafter, removeLimit_append (by decide),
    removeLimit_of_quiet h.before_quiet]

theorem Parts.Of.apply_eq_insertion (h : s.Of cypher) :
    applyAttributeFilters U cypher filters =
      (insertion U filters).map fun added => s.before ++ added ++ ("RETURN ".toList ++ s.after) := by
  unfold applyAttributeFilters insertion
  by_cases hnone : clauses U filters = []
  · rw [if_pos hnone, if_pos hnone, Option.map_some, List.append_nil, ← h.text]
  · rw [if_neg hnone, if_neg hnone, h.search_eq.1, if_pos h.search_eq.2]
    show (expandTemplate _ _).map _ = _
    rw [expandTemplate_append (by decide) rfl]
    rcases Template.run _ _ (extra U filters ++ [' ']) with _ | ⟨inside, m⟩
    · rfl
    · simp only [Option.bind_some]
      split_ifs
      · have hreturn : "RETURN ".toList = "RETURN".toList ++ [' '] := rfl
        rw [hreturn]
        simp
      · rfl

/-- The clauses begin with the variable, and a space stands behind them. -/
theorem insertion_form (h : insertion U filters = some added) :
    added = [] ∨ ∃ t, added = "AND ".toList ++ ('f' :: (t ++ [' '])) := by
  unfold insertion at h
  split_ifs at h with hnone
  · exact .inl (Option.some.inj h).symm
  · obtain ⟨⟨inside, m⟩, hrun, hsome⟩ := Option.bind_eq_some_iff.1 h
    split_ifs at hsome with hm
    obtain rfl := Option.some.inj hsome
    obtain ⟨tail, hextra⟩ := run_extra hnone
    rw [hextra] at hrun
    obtain ⟨r, hr, heq⟩ := Option.map_eq_some_iff.1 hrun
    cases heq
    rcases Template.run_snoc_space hr with ⟨t, ht, -⟩ | ⟨acc, hacc⟩
    · exact .inr ⟨t, by rw [ht]⟩
    · rw [hacc] at hm
      cases hm

/-- The query sent is the category's, with the addition before its RETURN and a page. -/
theorem Parts.Of.finalQuery_eq (h : s.Of c.cypher.toList) (hf : finalQuery U c filters p = some text) :
    ∃ added, addition U filters = some added ∧ (added = [] ∨ ∃ t, added = "AND ".toList ++ (t ++ [' '])) ∧
      text = s.before ++ added ++ ("RETURN ".toList ++ (s.after ++ pageText (p.page * p.pageSize) p.pageSize)) := by
  obtain ⟨base, hbase, rfl⟩ := Option.map_eq_some_iff.1 hf
  obtain ⟨inserted, hinserted, rfl⟩ := Option.map_eq_some_iff.1 (h.apply_eq_insertion.symm.trans hbase)
  have hadded := addition_of_insertion hinserted
  rcases insertion_form hinserted with rfl | ⟨t, rfl⟩
  · refine ⟨[], hadded, .inl rfl, ?_⟩
    rw [cypherWithPagination, List.append_nil, ← h.text, h.removeLimit_cypher, h.text]
    simp
  · have hlimit : ∀ k ∈ ['L', 'I', 'M', 'I', 'T'], ignoreCase k ' ' = false := by simp [ignoreCase]
    refine ⟨_, hadded, .inr ⟨removeNumbered U "LIMIT".toList ('f' :: t), ?_⟩, ?_⟩
    · rw [removeLimit_addition, ← List.cons_append]
      exact congrArg ("AND ".toList ++ ·) (removeNumbered_snoc_space hlimit)
    · rw [cypherWithPagination, h.removeLimit, removeLimit_addition]
      simp

/-! ### The query read from the text -/

variable (U filters) in
/-- The filters put no OR, XOR or clause keyword outside brackets and literals into the query. -/
def Restrictive : Prop := ∀ added ∈ addition U filters, Conjunctive (scan .code added).1

instance : Decidable (Restrictive U filters) := inferInstanceAs (Decidable (∀ _ ∈ _, _))

theorem behind_return {b : Text} {ts rest : List Token} {m : Mode} (hb : lex b = some ts) (hmem : .kw .return ∉ ts)
    (h : Behind ("RETURN ".toList ++ b) m rest) : rest = .kw .return :: ts ∨ .kw .return ∉ rest := by
  have hcode : scan .code "RETURN ".toList = ([.kw .return], .code) := rfl
  have hdot : scan .dot "RETURN ".toList = ([.name "RETURN".toList], .code) := rfl
  cases h with
  | code hlex =>
    rw [lex_append_of_code hcode, hb] at hlex
    exact .inl (Option.some.inj hlex).symm
  | dot hfinish =>
    rename_i last
    rw [scan_append_of_code hdot] at hfinish ⊢
    rw [lex, hfinish] at hb
    obtain rfl := Option.some.inj hb
    refine .inr ?_
    simpa using hmem
  | line => exact .inr List.not_mem_nil

/-- A query with tokens put at the end of a category's predicate. -/
structure Parts.Sent (s : Parts) (p : Paging) (us : List Token) (q : Query) : Prop where
  conjunctive : Conjunctive us
  and : us = [] ∨ us.head? = some (.kw .and)
  pattern : q.pattern = s.pattern
  pred : q.pred = some (s.pred ++ us)
  var : q.var = s.var
  distinct : q.distinct = decide (s.item.head? = some (.kw .distinct))
  skip : q.skip = some (Nat.toDigits 10 (p.page * p.pageSize))
  limit : q.limit = some (Nat.toDigits 10 p.pageSize)

theorem Parts.Of.exists_sent (h : s.Of c.cypher.toList) (hr : Restrictive U filters)
    (hf : finalQuery U c filters p = some text) {ts : List Token} {q : Query} (hlex : lex text = some ts)
    (hq : parseQuery ts = some q) : ∃ us, s.Sent p us q := by
  obtain ⟨added, hadded, hform, rfl⟩ := h.finalQuery_eq hf
  have hconj := hr added hadded
  have hafter : lex (s.after ++ pageText (p.page * p.pageSize) p.pageSize) =
      some (s.item ++ pageTokens (p.page * p.pageSize) p.pageSize) := h.lex_after
  obtain ⟨us, rest, hus, hand, hts, hrest⟩ : ∃ us rest, Conjunctive us ∧ (us = [] ∨ us.head? = some (.kw .and)) ∧
      ts = s.mat ++ .kw .where :: s.pred ++ us ++ rest ∧
      (rest = .kw .return :: (s.item ++ pageTokens (p.page * p.pageSize) p.pageSize) ∨ .kw .return ∉ rest) := by
    rcases hform with rfl | ⟨t, rfl⟩
    · have hcode : scan .code "RETURN ".toList = ([.kw .return], .code) := rfl
      rw [List.append_nil, lex_append_of_code h.scan_before, lex_append_of_code hcode, hafter] at hlex
      exact ⟨[], _, hconj, .inl rfl, by simpa using (Option.some.inj hlex).symm, .inl rfl⟩
    · have hwordy : Wordy ("RETURN ".toList ++ (s.after ++ pageText (p.page * p.pageSize) p.pageSize)) :=
        wordy_return.append (h.wordy.append (wordy_pageText _ _))
      have hspace : "AND ".toList ++ (t ++ [' ']) = ("AND ".toList ++ t) ++ [' '] := (List.append_assoc ..).symm
      rw [hspace] at hlex hconj
      obtain ⟨rest, hts, hbehind⟩ := lex_splice h.scan_before hwordy.inline hlex
      refine ⟨_, rest, hconj, .inr ?_, hts, behind_return hafter h.not_mem_item hbehind⟩
      have hscan : scan .code "AND ".toList = ([.kw .and], .code) := rfl
      rw [List.append_assoc, scan_append_of_code hscan]
      rfl
  rw [hts] at hq
  obtain ⟨-, -, hq⟩ := parseQuery_splice h.opening hus h.not_mem_item hrest hq
  obtain ⟨hpattern, hpred, hvar, hdistinct, hskip, hlimit⟩ := h.parseReturn s.pattern (some (s.pred ++ us)) hq
  exact ⟨us, hus, hand, hpattern, hpred, hvar, hdistinct, hskip, hlimit⟩

end Dgraphai.Inventory
