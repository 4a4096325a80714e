import Dgraphai.InventoryCounts

/-!
# Totals and rows

`agrees_iff` says for which categories the total of a query is the number of its rows and its pages are its rows, as
long as the substitutions find nothing in the text the filters put in: those that return `f` as it stands.
-/

namespace Dgraphai.Inventory

open Cypher PyText PropertyGraph

/-- The query ends in `RETURN f`. -/
def ReturnsNode (c : Category) : Prop := c.id ∉ "duplicates" :: renamedIds

instance (c : Category) : Decidable (ReturnsNode c) := inferInstanceAs (Decidable (_ ∉ _))

/-- The text put in begins a comment that goes on to the end of the query. -/
def Commented (U : Unicode) (filters : List Filter) : Prop :=
  ∃ added, insertion U filters = some added ∧ (scan .code added).2 = .line

/-- The query has no rows over any graph. -/
def Rowless (U : Unicode) (c : Category) (filters : List Filter) : Prop :=
  ∀ base, applyAttributeFilters U c.cypher.toList filters = some base →
    ∀ R g tid, g.Valid → allLines R g tid base = []

variable {U : Unicode} {R : Reading} {P : Params} {g : Graph} {tid : String} {c : Category} {filters : List Filter}
  {s : Parts} {cypher added base : Text} {lines : List Line} {p : Paging}

/-! ### Pages -/

theorem length_of_hasMore {k : Nat} (h : hasMore p (.int k) = some true) : p.page * p.pageSize + p.pageSize < k := by
  simpa [hasMore] using h

/-- One page more is enough for every page that is full. -/
theorem browse_of_windows (htotal : total (readLines R (tidParams tid) g (countCypher U base)) = .int lines.length)
    (hpages : ∀ skip limit, (readLines R (tidParams tid) g (cypherWithPagination U base skip limit)).getD [] =
      (lines.drop skip).take limit) (fuel : Nat) (hfuel : lines.length < (p.page + fuel) * p.pageSize + p.pageSize) :
    browse U R g tid base (fuel + 1) p = some (lines.drop (p.page * p.pageSize)) := by
  have hlisting : ∀ p : Paging, listing U R g tid base p =
      some ⟨(lines.drop (p.page * p.pageSize)).take p.pageSize, .int lines.length,
        decide (p.page * p.pageSize + p.pageSize < lines.length)⟩ := by
    intro p
    rw [listing, htotal, hpages, hasMore, Option.map_some]
  induction fuel generalizing p with
  | zero =>
    have hlast : ¬ p.page * p.pageSize + p.pageSize < lines.length := by
      rw [Nat.add_zero] at hfuel
      omega
    rw [browse, hlisting, Option.bind_some]
    dsimp only
    rw [decide_eq_false hlast, if_neg Bool.false_ne_true, List.take_of_length_le]
    rw [List.length_drop]
    omega
  | succ fuel ih =>
    rw [browse, hlisting, Option.bind_some]
    dsimp only
    by_cases hmore : p.page * p.pageSize + p.pageSize < lines.length
    · have hnext : (p.page + 1) * p.pageSize = p.page * p.pageSize + p.pageSize := Nat.succ_mul _ _
      have hrest := @ih { p with page := p.page + 1 } (by
        dsimp only
        rwa [Nat.add_assoc, Nat.add_comm 1 fuel])
      dsimp only at hrest
      rw [decide_eq_true hmore, if_pos rfl, hrest, Option.map_some, hnext, ← List.drop_drop, List.take_append_drop]
    · rw [decide_eq_false hmore, if_neg Bool.false_ne_true, List.take_of_length_le]
      rw [List.length_drop]
      omega

theorem exists_browse (htotal : total (readLines R (tidParams tid) g (countCypher U base)) = .int lines.length)
    (hpages : ∀ skip limit, (readLines R (tidParams tid) g (cypherWithPagination U base skip limit)).getD [] =
      (lines.drop skip).take limit) (size : Nat) (h : 1 ≤ size) (h' : size ≤ 200) :
    ∃ fuel, browse U R g tid base fuel ⟨0, size, h, h'⟩ = some lines := by
  refine ⟨lines.length + 1, ?_⟩
  have hfuel : lines.length < (0 + lines.length) * size + size := by
    have hle : lines.length ≤ lines.length * size := Nat.le_mul_of_pos_right _ h
    rw [Nat.zero_add]
    omega
  rw [@browse_of_windows U R g tid base lines ⟨0, size, h, h'⟩ htotal hpages lines.length hfuel, Nat.zero_mul,
    List.drop_zero]

/-! ### Totals -/

theorem answers_empty (q : Query) : q.answers R P empty = [] := by
  have hnone : q.pattern.candidates empty = [] := by
    rcases q.pattern with _ | _ <;> rfl
  rw [Query.answers, hnone]
  rfl

theorem page_singleton {α : Type} (q : Query) : (∀ a : α, q.page [a] = []) ∨ ∀ a : α, q.page [a] = [a] := by
  unfold Query.page
  rcases (q.skip.map fun s => Nat.ofDigitChars 10 s 0).getD 0 with _ | n
  · rcases q.limit with _ | l
    · exact .inr fun a => rfl
    · dsimp only
      rcases Nat.ofDigitChars 10 l 0 with _ | k
      · exact .inl fun a => rfl
      · exact .inr fun a => by simp
  · refine .inl fun a => ?_
    rcases q.limit with _ | l <;> simp

theorem total_lines {q : Query} (hcolumn : q.column ≠ "total".toList) : total (q.lines R P g) = .int 0 := by
  rw [Query.lines]
  rcases q.run R P g with _ | (_ | ⟨n, ns⟩)
  · rfl
  · rfl
  · exact if_neg hcolumn

theorem total_countLines {q : Query} (hskip : q.skip = none) (hlimit : q.limit = none) :
    total (Query.countLines R P g { q with column := "total".toList }) = .int ((q.lines R P g).getD []).length := by
  have hpage : ∀ {α : Type} (rows : List α), q.page rows = rows := by
    intro α rows
    rw [Query.page, hskip, hlimit]
    rfl
  rw [Query.countLines, Query.lines, Query.run]
  show total (if q.accepted R P = true then _ else none) = _
  split_ifs
  · rw [Option.map_some, Option.getD_some, List.length_map, Query.rows, hpage]
    show total (some (q.page [("total".toList, Entry.int (q.count R P g))])) = _
    rw [hpage, total, if_pos rfl, Query.count]
    split_ifs <;> rfl
  · rfl

/-- Only a query that counts shows a number, and over no nodes it shows none but zero. -/
theorem runLines_of_total {ts : List Token}
    (h : total (runLines R P g ts) = .int ((runLines R P g ts).getD []).length)
    (hempty : total (runLines R P empty ts) = .int ((runLines R P empty ts).getD []).length) :
    (runLines R P g ts).getD [] = [] := by
  rcases runLines_eq ts with hrun | ⟨q, hrun | hrun⟩ <;> rw [hrun] at h hempty ⊢
  · rfl
  · rw [Query.lines] at h ⊢
    rcases hrows : q.run R P g with _ | (_ | ⟨n, ns⟩)
    · rfl
    · rfl
    · exfalso
      rw [hrows, Option.map_some, List.map_cons, total] at h
      split_ifs at h
      all_goals cases h
  · rw [Query.countLines] at h hempty ⊢
    split_ifs at hempty ⊢
    · rcases page_singleton (α := Line) q with hnone | hone
      · rw [hnone]
        rfl
      · exfalso
        rw [hone, total, Query.count, answers_empty] at hempty
        split_ifs at hempty <;> cases hempty
    · rfl

/-! ### The texts that are read -/

def countItem : List Token :=
  [.word "count".toList, .sym '(', .word ['f'], .sym ')', .kw .as, .word "total".toList]

/-- What the query that counts returns, and its tokens. -/
def Parts.counted (s : Parts) (c : Category) : Text × List Token :=
  if c.id = "duplicates" then (s.after, s.item) else ("count(f) AS total".toList, countItem)

theorem Parts.Of.returns (hof : s.Of cypher) : Returns s.after s.item where
  inline := hof.wordy.inline
  lex := hof.lex_item
  free := by rcases hof.item with hitem | hitem | hitem <;> rw [hitem] <;> simp

theorem Parts.Of.returns_page (hof : s.Of cypher) (skip limit : Nat) :
    Returns (s.after ++ pageText skip limit) (s.item ++ pageTokens skip limit) :=
  ⟨(hof.wordy.append (wordy_pageText skip limit)).inline, hof.lex_after, hof.not_mem_item⟩

theorem Parts.Of.returns_counted (hof : s.Of c.cypher.toList) : Returns (s.counted c).1 (s.counted c).2 := by
  rw [Parts.counted]
  split_ifs
  · exact hof.returns
  · exact ⟨List.all_eq_true.1 (by decide), rfl, by decide⟩

theorem Parts.Of.countCypher_counted (hof : s.Of c.cypher.toList) (hshape : s.Shape c.id.toList)
    (h : insertion U filters = some added) (hu : Untouched U added) :
    countCypher U (s.before ++ added ++ ("RETURN ".toList ++ s.after)) =
      s.before ++ added ++ ("RETURN ".toList ++ (s.counted c).1) := by
  rw [hof.countCypher_eq hshape h hu, Parts.counted]
  by_cases hid : c.id = "duplicates"
  · rw [if_pos (String.toList_inj.2 hid), if_pos hid]
  · rw [if_neg fun heq => hid (String.toList_inj.1 heq), if_neg hid]
    rfl

/-- The parts of a category that returns `f` as it stands, and of one that does not. -/
theorem Parts.Shape.item_cases (hof : s.Of c.cypher.toList) (h : s.Shape c.id.toList) :
    (ReturnsNode c → s.item = [.word ['f']] ∧ s.var = ['f']) ∧
      (c.id ∈ renamedIds → s.pattern.vars.contains ['f'] = false) ∧ s.column ≠ "total".toList := by
  have hrenamed : (renamedIds.map String.toList).contains c.id.toList = true ↔ c.id ∈ renamedIds := by
    rw [List.contains_iff_mem, List.mem_map]
    constructor
    · rintro ⟨id, hid, heq⟩
      rwa [← String.toList_inj.1 heq]
    · exact fun hid => ⟨c.id, hid, rfl⟩
  refine ⟨fun hnode => ?_, fun hid => h.renamed (hrenamed.2 hid), ?_⟩
  · rw [ReturnsNode, List.mem_cons, not_or] at hnode
    have hno : (renamedIds.map String.toList).contains c.id.toList = false :=
      eq_false_of_ne_true fun hid => hnode.2 (hrenamed.1 hid)
    have hafter : s.after = ['f'] := by
      rw [h.after, returnText, hno, if_neg Bool.false_ne_true, if_neg fun hid => hnode.1 (String.toList_inj.1 hid)]
    have hitem := hof.lex_item
    rw [hafter] at hitem
    exact ⟨(Option.some.inj hitem).symm, h.own hno⟩
  · have hvar := h.var
    simp only [returned, List.contains_cons, List.contains_nil, Bool.or_false, Bool.or_eq_true, beq_iff_eq] at hvar
    rw [Parts.column]
    split_ifs
    · decide
    · rcases hvar with hvar | hvar | hvar | hvar | hvar <;> rw [hvar] <;> decide

/-- The query that is paged and counted. -/
def Parts.asked (s : Parts) (pred : Option (List Token)) : Query :=
  ⟨s.pattern, pred, decide (s.item.head? = some (.kw .distinct)), s.var, s.column, none, none⟩

theorem Parts.Of.parseReturn_page (hof : s.Of cypher) (pred : Option (List Token)) (skip limit : Nat) :
    Cypher.parseReturn s.pattern pred (s.item ++ pageTokens skip limit) =
      some { s.asked pred with skip := some (Nat.toDigits 10 skip), limit := some (Nat.toDigits 10 limit) } := by
  rcases hof.item with hitem | hitem | hitem <;>
    simp [hitem, asked, column, Cypher.parseReturn, parseItem, parsePage, pageTokens]

/-- The pattern before the RETURN is the category's. -/
theorem Parts.Of.parseHead_eq (hof : s.Of cypher) {pattern : Pattern} {pred : Option (List Token)}
    (h : parseHead (scan .code (s.before ++ added)).1 = some (pattern, pred)) : pattern = s.pattern := by
  have hsplit : splitFirst .where 0 (scan .code (s.before ++ added)).1 =
      some (s.mat, s.pred ++ (scan .code added).1) := by
    rw [scan_append_of_code hof.scan_before, List.append_assoc, splitFirst_append_of_none hof.opening.noWhere,
      hof.opening.matDepth, List.cons_append, splitFirst, if_pos ⟨rfl, rfl⟩, Option.map_some, List.append_nil]
  rw [parseHead, hsplit] at h
  dsimp only at h
  split_ifs at h
  rw [hof.opening.parse] at h
  exact (congrArg Prod.fst (Option.some.inj h)).symm

/-- The total of a query that is read. -/
theorem Parts.Of.total_of_head (hof : s.Of c.cypher.toList) (hshape : s.Shape c.id.toList)
    (pred : Option (List Token)) :
    (ReturnsNode c → total (runReturn R P g s.pattern pred (s.counted c).2) =
      .int (((s.asked pred).lines R P g).getD []).length) ∧
    (¬ ReturnsNode c → total (runReturn R P g s.pattern pred (s.counted c).2) = .int 0) := by
  obtain ⟨hnode, hunbound, hcolumn⟩ := hshape.item_cases hof
  have hcount : c.id ≠ "duplicates" → runReturn R P g s.pattern pred (s.counted c).2 =
      Query.countLines R P g ⟨s.pattern, pred, false, ['f'], "total".toList, none, none⟩ := by
    intro hid
    rw [Parts.counted, if_neg hid]
    rfl
  refine ⟨fun hplain => ?_, fun hplain => ?_⟩
  · obtain ⟨hitem, hvar⟩ := hnode hplain
    have hasked : s.asked pred = ⟨s.pattern, pred, false, ['f'], s.column, none, none⟩ := by
      rw [Parts.asked, hitem, hvar]
      rfl
    have hsame := @total_countLines R P g (s.asked pred) rfl rfl
    rw [hcount fun hid => hplain (hid ▸ List.mem_cons_self), ← hsame, hasked]
  · by_cases hid : c.id = "duplicates"
    · rw [Parts.counted, if_pos hid, runReturn_of_parseReturn (hof.parse_item s.pattern pred)]
      exact total_lines hcolumn
    · have hrenamed : c.id ∈ renamedIds := by
        by_contra hno
        exact hplain fun hmem => (List.mem_cons.1 hmem).elim hid hno
      rw [hcount hid, Query.countLines, if_neg]
      · rfl
      · rw [Query.accepted, hunbound hrenamed, Bool.false_and]
        exact Bool.false_ne_true

/-- The query read, its pages and its total, unless the text put in begins a comment. -/
theorem Parts.Of.readings (hof : s.Of c.cypher.toList) (hshape : s.Shape c.id.toList)
    (h : insertion U filters = some added) (hu : Untouched U added)
    (hbase : base = s.before ++ added ++ ("RETURN ".toList ++ s.after)) :
    ((scan .code added).2 = .line ∧ ∃ ts, ∀ R g tid,
      readLines R (tidParams tid) g base = runLines R (tidParams tid) g ts ∧
      readLines R (tidParams tid) g (countCypher U base) = runLines R (tidParams tid) g ts ∧
      ∀ skip limit, readLines R (tidParams tid) g (cypherWithPagination U base skip limit) =
        runLines R (tidParams tid) g ts) ∨
    ((scan .code added).2 ≠ .line ∧ ∀ R g tid, (∀ skip limit,
        (readLines R (tidParams tid) g (cypherWithPagination U base skip limit)).getD [] =
          ((allLines R g tid base).drop skip).take limit) ∧
      (ReturnsNode c →
        total (readLines R (tidParams tid) g (countCypher U base)) = .int (allLines R g tid base).length) ∧
      (¬ ReturnsNode c → total (readLines R (tidParams tid) g (countCypher U base)) = .int 0)) := by
  obtain ⟨t, ht⟩ := space_of_insertion hshape.space h
  have hmode : (scan .code (s.before ++ added)).2 = (scan .code added).2 := by
    rw [scan_append_of_code hof.scan_before]
  have hcount := hof.countCypher_counted hshape h hu
  have hpage := hof.pagination_eq hshape h hu
  rw [← hbase] at hcount hpage
  rcases readLines_cases t ht with ⟨hline, hread⟩ | ⟨hline, ⟨pattern, pred, hhead, hread⟩ | hread⟩
  · refine .inl ⟨hmode ▸ hline, (scan .code (s.before ++ added)).1, fun R g tid => ⟨?_, ?_, fun skip limit => ?_⟩⟩
    · rw [hbase, hread _ _ _ _ _ hof.returns]
    · rw [hcount, hread _ _ _ _ _ hof.returns_counted]
    · rw [hpage, hread _ _ _ _ _ (hof.returns_page skip limit)]
  · obtain rfl := hof.parseHead_eq hhead
    refine .inr ⟨hmode ▸ hline, fun R g tid => ?_⟩
    have hrows : readLines R (tidParams tid) g base = (s.asked pred).lines R (tidParams tid) g := by
      rw [hbase, hread _ _ _ _ _ hof.returns]
      exact runReturn_of_parseReturn (hof.parse_item s.pattern pred)
    rw [allLines, hrows, hcount, hread _ _ _ _ _ hof.returns_counted]
    refine ⟨fun skip limit => ?_, hof.total_of_head hshape pred⟩
    rw [hpage, hread _ _ _ _ _ (hof.returns_page skip limit),
      runReturn_of_parseReturn (hof.parseReturn_page pred skip limit), Query.lines_page rfl rfl]
    rcases (s.asked pred).lines R (tidParams tid) g with _ | lines
    · simp
    · rfl
  · refine .inr ⟨hmode ▸ hline, fun R g tid => ?_⟩
    rw [allLines, hbase, hread _ _ _ _ _ hof.returns, ← hbase, hcount, hread _ _ _ _ _ hof.returns_counted]
    refine ⟨fun skip limit => ?_, fun _ => rfl, fun _ => rfl⟩
    rw [hpage, hread _ _ _ _ _ (hof.returns_page skip limit)]
    simp

/-! ### Agreement -/

/-- A node of each label that is returned under another name, and a file with a duplicate. -/
def sample : Graph :=
  let props : Props := fun k =>
    if k = "tenant_id" then some (.str "a") else if k = "known" then some (.bool true) else none
  ⟨[⟨0, ["Person"], props⟩, ⟨1, ["FaceCluster"], props⟩, ⟨2, ["Application"], props⟩, ⟨3, ["Directory"], props⟩,
    ⟨4, ["File"], props⟩, ⟨5, ["File"], props⟩], [⟨"DUPLICATE_OF", 4, 5, props⟩], 6⟩

theorem sample_valid : sample.Valid := ⟨by decide, by decide⟩

/-- Every category that does not return `f` as it stands has rows. -/
theorem not_rowless (hc : c ∈ allCategories) (h : ¬ ReturnsNode c) : ¬ Rowless U c [] := by
  have hall : (allCategories.all fun c => !("duplicates" :: renamedIds).contains c.id ||
      !(allLines plainReading sample "a" c.cypher.toList).isEmpty) = true := by decide +kernel
  intro hno
  have hrows := List.all_eq_true.1 hall c hc
  rw [hno _ rfl plainReading sample "a" sample_valid, Bool.or_eq_true, Bool.not_eq_true', ← Bool.not_eq_true,
    List.contains_iff_mem] at hrows
  rcases hrows with hnode | hrows
  · exact h hnode
  · cases hrows

theorem agrees_of_rowless (hc : c ∈ allCategories)
    (hu : ∀ added, insertion U filters = some added → Untouched U added)
    (h : Rowless U c filters) : Agrees U c filters := by
  obtain ⟨s, hof, hshape, -, -⟩ := exists_parts hc
  intro base happly R g tid hg
  have hempty := h base happly R g tid hg
  rw [hof.apply_eq_insertion] at happly
  obtain ⟨added, hadded, hbase⟩ := Option.map_eq_some_iff.1 happly
  rw [hempty]
  rcases hof.readings hshape hadded (hu added hadded) hbase.symm with ⟨-, ts, hread⟩ | ⟨-, hread⟩
  · obtain ⟨hrows, hcount, hpages⟩ := hread R g tid
    rw [allLines, hrows] at hempty
    have htotal : total (readLines R (tidParams tid) g (countCypher U base)) = .int ([] : List Line).length := by
      rw [hcount]
      rcases hrun : runLines R (tidParams tid) g ts with _ | lines
      · rfl
      · rw [hrun, Option.getD_some] at hempty
        rw [hempty]
        rfl
    exact ⟨htotal, exists_browse htotal fun skip limit => by rw [hpages, hempty]; simp⟩
  · obtain ⟨hpages, hplain, hother⟩ := hread R g tid
    rw [hempty] at hpages hplain
    have htotal : total (readLines R (tidParams tid) g (countCypher U base)) = .int ([] : List Line).length := by
      by_cases hnode : ReturnsNode c
      · exact hplain hnode
      · exact hother hnode
    exact ⟨htotal, exists_browse htotal hpages⟩

/-- Where the substitutions find nothing in the text put in, the total and the pages agree with the rows exactly if
the category returns `f` as it stands and the text begins no comment, or there are no rows. Without filters there
are. -/
theorem agrees_iff (hc : c ∈ allCategories) (hu : ∀ added, insertion U filters = some added → Untouched U added) :
    (Agrees U c filters ↔ ReturnsNode c ∧ ¬ Commented U filters ∨ Rowless U c filters) ∧
      (filters = [] → (Agrees U c filters ↔ ReturnsNode c)) := by
  obtain ⟨s, hof, hshape, -, -⟩ := exists_parts hc
  have hiff : Agrees U c filters ↔ ReturnsNode c ∧ ¬ Commented U filters ∨ Rowless U c filters := by
    refine ⟨fun h => ?_, ?_⟩
    · by_cases hnode : ReturnsNode c ∧ ¬ Commented U filters
      · exact .inl hnode
      refine .inr fun base happly R g tid hg => ?_
      obtain ⟨added, hadded, hbase⟩ := Option.map_eq_some_iff.1 (hof.apply_eq_insertion.symm.trans happly)
      rcases hof.readings hshape hadded (hu added hadded) hbase.symm with ⟨-, ts, hread⟩ | ⟨hline, hread⟩
      · -- the same text is read three times, over the graph and over no nodes
        have hvalid : empty.Valid := ⟨List.nodup_nil, fun _ he => absurd he List.not_mem_nil⟩
        have htotal := (h base happly R g tid hg).1
        have hnone := (h base happly R empty tid hvalid).1
        rw [allLines, (hread R g tid).1, (hread R g tid).2.1] at htotal
        rw [allLines, (hread R empty tid).1, (hread R empty tid).2.1] at hnone
        rw [allLines, (hread R g tid).1]
        exact runLines_of_total htotal hnone
      · have hother : ¬ ReturnsNode c := by
          refine fun hplain => hnode ⟨hplain, ?_⟩
          rintro ⟨added', hadded', hcomment⟩
          obtain rfl := Option.some.inj (hadded.symm.trans hadded')
          exact hline hcomment
        have htotal := (h base happly R g tid hg).1
        rw [(hread R g tid).2.2 hother] at htotal
        exact List.length_eq_zero_iff.1 (Entry.int.inj htotal).symm
    · rintro (⟨hnode, hcomment⟩ | hrowless)
      · intro base happly R g tid _
        obtain ⟨added, hadded, hbase⟩ := Option.map_eq_some_iff.1 (hof.apply_eq_insertion.symm.trans happly)
        rcases hof.readings hshape hadded (hu added hadded) hbase.symm with ⟨hline, -⟩ | ⟨-, hread⟩
        · exact absurd ⟨added, hadded, hline⟩ hcomment
        · obtain ⟨hpages, hplain, -⟩ := hread R g tid
          exact ⟨hplain hnode, exists_browse (hplain hnode) hpages⟩
      · exact agrees_of_rowless hc hu hrowless
  refine ⟨hiff, ?_⟩
  rintro rfl
  rw [hiff]
  constructor
  · rintro (⟨hnode, -⟩ | hrowless)
    · exact hnode
    · by_contra hother
      exact not_rowless hc hother hrowless
  · refine fun hnode => .inl ⟨hnode, ?_⟩
    rintro ⟨added, hadded, hline⟩
    obtain rfl := Option.some.inj hadded
    cases hline

theorem mkv_agrees : Agrees ascii video [mkvFilter] := by
  have hmem : video ∈ allCategories := List.mem_append_left _ List.mem_cons_self
  have huntouched : ∀ added, insertion ascii [mkvFilter] = some added → Untouched ascii added := by
    intro added h
    obtain rfl := Option.some.inj (h.symm.trans (show _ = some "AND f.extension = '.mkv' ".toList by decide +kernel))
    exact ⟨by decide +kernel, by decide +kernel⟩
  refine ((agrees_iff hmem huntouched).1).2 (.inl ⟨by decide, ?_⟩)
  rintro ⟨added, h, hline⟩
  obtain rfl := Option.some.inj (h.symm.trans (show _ = some "AND f.extension = '.mkv' ".toList by decide +kernel))
  revert hline
  decide

/-- The applications are counted by `count(f)`, which their query does not bind: the total is 0. -/
theorem applications_not_agree : ¬ ∀ c ∈ allCategories, ∀ filters : List Filter, Agrees ascii c filters := by
  intro h
  have hmem : applications ∈ allCategories := List.mem_iff_getElem?.2 ⟨65, rfl⟩
  obtain ⟨htotal, -⟩ := h applications hmem [] _ rfl plainReading sample "a" sample_valid
  have hrefused : (readLines plainReading (tidParams "a") sample
      (countCypher ascii applications.cypher.toList)).isNone = true := by decide +kernel
  have hrow : (allLines plainReading sample "a" applications.cypher.toList).length = 1 := by decide +kernel
  rw [Option.isNone_iff_eq_none.1 hrefused, hrow] at htotal
  cases htotal

end Dgraphai.Inventory
