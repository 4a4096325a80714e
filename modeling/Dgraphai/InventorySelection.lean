import Dgraphai.InventoryClauses
import Dgraphai.InventoryIsolation

/-!
# What a filtered query selects

`Selects` says of a category and a list of filters that the query built is the category's, restricted to the rows
the filters admit. `selects_iff` says for which filters it is.
-/

namespace Dgraphai.Inventory

open Cypher PyText PropertyGraph

/-- The numbers among the values are numbers to the database. -/
def ReadsNumbers (U : Unicode) (R : Reading) (filters : List Filter) : Prop :=
  ∀ f ∈ filters, isNumeral U f.val = true → (R.literal (literalTokens f.val)).isSome = true

/-- The query is built, and over every graph its rows are those of the category's that pass the filters. -/
def Selects (U : Unicode) (c : Category) (filters : List Filter) : Prop :=
  ∃ text, applyAttributeFilters U c.cypher.toList filters = some text ∧
    ∀ R, ReadsNumbers U R filters → ∀ g tid, g.Valid →
      graphQuery R g text (tidParams tid) = (graphQuery R g c.cypher.toList (tidParams tid)).map
        fun rows => rows.filter fun n => filters.all fun f => f.admits U R n

/-! ### Filters that suit -/

/-- A file with the extension of a key. -/
def IsKeyFile (n : Node) : Prop :=
  n.props "extension" = some (.str ".key") ∨ n.props "extension" = some (.str ".der")

/-- A filter the category's query takes: it names a property of `f`, keeps its value, and admits what the category
of the key files finds by its first alternative. -/
structure Filter.Fits (U : Unicode) (c : Category) (f : Filter) : Prop where
  letter : (f.key U).head?.any Char.isDigit = false
  keeps : ∃ o ∈ f.operator?, o.Keeps U f.val
  named : c.id ∉ renamedIds
  keys : c.id = "certs-keys" → ∀ R, ReadsNumbers U R [f] → ∀ n, IsKeyFile n → f.admits U R n = true

def Filter.Suits (U : Unicode) (c : Category) (f : Filter) : Prop := f.key U = [] ∨ f.Fits U c

variable {U : Unicode} {R : Reading} {P : Params} {g : Graph} {c : Category} {s : Parts} {f : Filter} {o : Operator}
  {filters : List Filter} {us : List Token}

/-! ### The query that is sent -/

namespace Parts

/-- The column returned. -/
def column (s : Parts) : Text := if s.item = [.word s.var, .kw .as, .word ['f']] then ['f'] else s.var

/-- The query of a category with tokens at the end of its predicate. -/
def query (s : Parts) (us : List Token) : Query :=
  ⟨s.pattern, some (s.pred ++ us), decide (s.item.head? = some (.kw .distinct)), s.var, s.column, none, none⟩

variable {cypher added : Text}

theorem Of.parse_item (h : s.Of cypher) (pattern : Pattern) (pred : Option (List Token)) :
    Cypher.parseReturn pattern pred s.item =
      some ⟨pattern, pred, decide (s.item.head? = some (.kw .distinct)), s.var, s.column, none, none⟩ := by
  rcases h.item with hitem | hitem | hitem <;> simp [hitem, column, Cypher.parseReturn, parseItem, parsePage]

theorem Of.lex_item (h : s.Of cypher) : lex s.after = some s.item := by
  have hspace : lex (s.after ++ [' ']) = lex s.after := lex_snoc_space rfl
  rw [← hspace, lex, h.scan_after]
  simp [finish]

/-- A text put in whose tokens end no clause and no bracket. -/
theorem Of.graphQuery_eq (h : s.Of cypher) (hadded : scan .code added = (us, .code))
    (hclause : clauseFree 0 us = true)
    (hdepth : endDepth 0 us = 0) (hwith : us.head? ≠ some (.kw .with)) :
    graphQuery R g (s.before ++ added ++ ("RETURN ".toList ++ s.after)) P = (s.query us).run R P g := by
  have hcode : scan .code "RETURN ".toList = ([.kw .return], .code) := rfl
  have hlex : lex (s.before ++ added ++ ("RETURN ".toList ++ s.after)) =
      some (s.mat ++ .kw .where :: (s.pred ++ us) ++ .kw .return :: s.item) := by
    rw [List.append_assoc, lex_append_of_code h.scan_before, lex_append_of_code hadded,
      lex_append_of_code hcode, h.lex_item]
    simp
  simp only [graphQuery, hlex, Option.bind_eq_bind, Option.bind_some, parseQuery_eq h.opening hclause hdepth hwith,
    h.parse_item]
  rfl

theorem Of.graphQuery_base (h : s.Of cypher) : graphQuery R g cypher P = (s.query []).run R P g := by
  have hbase := @Of.graphQuery_eq R P g s [] cypher [] h rfl rfl rfl (by simp)
  rwa [List.append_nil, ← h.text] at hbase

end Parts

/-! ### The text put in -/

/-- The clauses with an AND before each. -/
def addedText (clauses : List Text) : Text := "AND ".toList ++ (List.intercalate " AND ".toList clauses ++ [' '])

theorem Parts.Of.apply_eq {cypher : Text} (h : s.Of cypher) (hne : clauses U filters ≠ [])
    (htame : Template.Tame (extra U filters ++ [' '])) : applyAttributeFilters U cypher filters =
      some (s.before ++ addedText (clauses U filters) ++ ("RETURN ".toList ++ s.after)) := by
  rw [h.apply_eq_insertion, insertion, if_neg hne, htame.run]
  rfl

/-- A clause and a space that `re.sub` leaves as they are, with these tokens. -/
def ReadsAs (t : Text) (u : List Token) : Prop := Template.Tame (t ++ [' ']) ∧ scan .code (t ++ [' ']) = (u, .code)

theorem readsAs_joined {texts : List Text} {atoms : List (List Token)} (h : List.Forall₂ ReadsAs texts atoms)
    (hne : texts ≠ []) : Template.Tame (List.intercalate " AND ".toList texts ++ [' ']) ∧
      scan .code (addedText texts) = (conjoined atoms, .code) := by
  have hand : scan .code "AND ".toList = ([.kw .and], .code) := rfl
  induction h with
  | nil => exact absurd rfl hne
  | @cons t u texts atoms ht hrest ih =>
    cases texts with
    | nil =>
      cases hrest
      rw [addedText, List.intercalate_singleton]
      refine ⟨ht.1, ?_⟩
      rw [scan_append_of_code hand, ht.2]
      simp [conjoined]
    | cons t' texts =>
      obtain ⟨htame, hscan⟩ := ih (List.cons_ne_nil t' texts)
      have htext : List.intercalate " AND ".toList (t :: t' :: texts) ++ [' '] =
          (t ++ [' ']) ++ addedText (t' :: texts) := by
        have hspace : " AND ".toList = ' ' :: "AND ".toList := rfl
        rw [List.intercalate_cons_of_ne_nil (List.cons_ne_nil t' texts), addedText, hspace]
        simp
      have hquiet : Template.Tame (addedText (t' :: texts)) := (Template.Tame.of_not_mem (by decide)).append htame
      rw [addedText, htext]
      refine ⟨ht.1.append hquiet, ?_⟩
      rw [scan_append_of_code hand, scan_append_of_code ht.2, hscan]
      rfl

/-- The tokens of a filter's clause. -/
def Filter.tokens? (U : Unicode) (f : Filter) : Option (List Token) :=
  if f.key U = [] then none else f.operator?.map fun o => o.clauseTokens U (f.key U) f.val

def clauseAtoms (U : Unicode) (filters : List Filter) : List (List Token) := filters.filterMap (·.tokens? U)

theorem Filter.Suits.readsAs (h : f.Suits U c) (hop : f.op.getD ['='] ∈ offeredOps) :
    f.clause U = none ∧ f.tokens? U = none ∨ ∃ t u, f.clause U = some t ∧ f.tokens? U = some u ∧ ReadsAs t u := by
  by_cases hkey : f.key U = []
  · exact .inl ⟨if_pos hkey, if_pos hkey⟩
  · obtain ⟨o, ho, hkeeps⟩ := (h.resolve_left hkey).keeps
    obtain ⟨o', ho', htext⟩ := exists_operator hop
    obtain rfl : o' = o := Option.some.inj (ho'.symm.trans ho)
    obtain ⟨t, m, hclause, htame, hscan, hm⟩ := clause_spec hkey htext hkeeps.quiet
    obtain rfl := hm.resolve_right fun hdot => hdot.2 hkeeps
    refine .inr ⟨t, _, hclause, ?_, htame, hscan⟩
    rw [Filter.tokens?, if_neg hkey, ho', Option.map_some]

theorem readsAs_clauses (h : ∀ f ∈ filters, f.Suits U c) (hops : ∀ f ∈ filters, f.op.getD ['='] ∈ offeredOps) :
    List.Forall₂ ReadsAs (clauses U filters) (clauseAtoms U filters) := by
  induction filters with
  | nil => exact .nil
  | cons f filters ih =>
    obtain ⟨hf, hrest⟩ := List.forall_mem_cons.1 h
    obtain ⟨hop, hops⟩ := List.forall_mem_cons.1 hops
    rcases hf.readsAs hop with ⟨hclause, htokens⟩ | ⟨t, u, hclause, htokens, hreads⟩
    · rw [clauses, clauseAtoms, List.filterMap_cons_none hclause, List.filterMap_cons_none htokens]
      exact ih hrest hops
    · rw [clauses, clauseAtoms, List.filterMap_cons_some hclause, List.filterMap_cons_some htokens]
      exact .cons hreads (ih hrest hops)

/-! ### The rows of the query that is sent -/

theorem mem_clauseAtoms {u : List Token} (h : u ∈ clauseAtoms U filters) : ∃ f ∈ filters, f.key U ≠ [] ∧
    ∃ o, f.operator? = some o ∧ u = o.clauseTokens U (f.key U) f.val := by
  obtain ⟨f, hf, hu⟩ := List.mem_filterMap.1 h
  rw [Filter.tokens?] at hu
  split_ifs at hu with hkey
  obtain ⟨o, ho, rfl⟩ := Option.map_eq_some_iff.1 hu
  exact ⟨f, hf, hkey, o, ho, rfl⟩

theorem isAtom_clauseAtoms : ∀ u ∈ clauseAtoms U filters, IsAtom u := by
  intro u hu
  obtain ⟨f, -, -, o, -, rfl⟩ := mem_clauseAtoms hu
  exact isAtom_clauseTokens

theorem mild_conjoined {atoms : List (List Token)} (h : ∀ u ∈ atoms, Mild u) : Mild (conjoined atoms) := by
  induction atoms with
  | nil => exact .nil
  | cons u atoms ih =>
    obtain ⟨hu, hrest⟩ := List.forall_mem_cons.1 h
    have hand : Mild [.kw .and] := mild_of_isMild rfl
    exact (hand.append hu).append (ih hrest)

/-- The clauses hold of a row exactly if its node passes the filters. -/
theorem forall_clauseAtoms_iff (h : ∀ f ∈ filters, f.Suits U c) {b : Binding} {n : Node}
    (hn : b.lookup ['f'] = some n) :
    (∀ u ∈ clauseAtoms U filters, evalAtom R P g b (parseAtom u) = some true) ↔
      (filters.all fun f => f.admits U R n) = true := by
  rw [List.all_eq_true]
  have hone : ∀ f ∈ filters,
      f.admits U R n = true ↔ ∀ u ∈ f.tokens? U, evalAtom R P g b (parseAtom u) = some true := by
    intro f hf
    rw [Filter.admits, Filter.tokens?]
    by_cases hkey : f.key U = []
    · simp [hkey]
    · obtain ⟨o, ho, hkeeps⟩ := ((h f hf).resolve_left hkey).keeps
      have ho : f.operator? = some o := ho
      have hvalue := evalAtom_clauseTokens (R := R) (P := P) (g := g) ((h f hf).resolve_left hkey).letter hkeeps hn
      rw [if_neg hkey, ho]
      simp [hkey, hvalue]
  constructor
  · exact fun hall f hf => (hone f hf).2 fun u hu => hall u (List.mem_filterMap.2 ⟨f, hf, hu⟩)
  · intro hall u hu
    obtain ⟨f, hf, hu⟩ := List.mem_filterMap.1 hu
    exact (hone f hf).1 (hall f hf) u hu

theorem accepted_query (hof : s.Of c.cypher.toList) : (s.query us).accepted R P =
    (predAtoms (s.pred ++ us)).all fun a => acceptsAtom R P s.pattern.vars (parseAtom a) := by
  have hvar : s.pattern.vars.contains s.var = true := List.contains_iff_mem.2 hof.var
  rw [Query.accepted, Parts.query]
  dsimp only
  rw [hvar, Bool.true_and]
  simp [predAtoms]

/-- The database takes the predicate of a category. -/
theorem Parts.Shape.accepts {id : Text} (h : s.Shape id) (tid : String) :
    ((predAtoms s.pred).all fun a => acceptsAtom R (tidParams tid) s.pattern.vars (parseAtom a)) = true := by
  refine List.all_eq_true.2 fun a ha => acceptsAtom_of_settled (h.settled a ha) fun p hp => ?_
  rw [List.mem_singleton.1 hp, tidParams_tid]
  rfl

/-- A conjunction, or the alternative of the key files before one. -/
def Parts.Joins (s : Parts) (c : Category) : Prop :=
  Single s.pred ∨ c.id = "certs-keys" ∧ ∃ second, s.pred = keyAtom ++ .kw .or :: second ∧ Single second

theorem Parts.joins_of_shape (hof : s.Of c.cypher.toList) (hshape : s.Shape c.id.toList)
    (hkeys : c.id = "certs-keys" → s.KeyFiles) (hscoped : c.id ≠ "certs-keys" → s.Scoped) : s.Joins c := by
  by_cases hid : c.id = "certs-keys"
  · obtain ⟨second, hsecond⟩ := (hkeys hid).alternative
    have hpred : s.pred = keyAtom ++ .kw .or :: second := by rw [← hsecond]; simp
    refine .inr ⟨hid, second, hpred, ?_⟩
    have hsingle := hshape.keys (congrArg String.toList hid)
    rwa [hpred] at hsingle
  · exact .inl ⟨(hscoped hid).or, (hscoped hid).xor, hof.opening.predDepth⟩

theorem predAtoms_conjoined {atoms : List (List Token)} (hatoms : ∀ u ∈ atoms, IsAtom u) (h : s.Joins c) :
    predAtoms (s.pred ++ conjoined atoms) = predAtoms s.pred ++ atoms := by
  rcases h with hsingle | ⟨-, second, hpred, hsingle⟩
  · exact (@Single.conjoined_spec _ plainReading (fun _ => none) empty [] _ hsingle hatoms).2.1
  · have hsecond := (@Single.conjoined_spec _ plainReading (fun _ => none) empty [] _ hsingle hatoms).2.1
    rw [hpred, List.append_assoc, List.cons_append, predAtoms_or rfl, predAtoms_or rfl, hsecond, List.append_assoc]

theorem isKeyFile_of_keyAtom {b : Binding} {n : Node} (hn : b.lookup ['f'] = some n)
    (h : evalAtom R P g b (parseAtom keyAtom) = some true) : IsKeyFile n := by
  have hparse : parseAtom keyAtom = .inList ['f'] "extension".toList [".key".toList, ".der".toList] := rfl
  rw [hparse] at h
  simp only [evalAtom, hn, Option.bind_eq_bind, Option.bind_some, String.ofList_toList] at h
  rcases hprop : n.props "extension" with _ | v
  · rw [hprop] at h
    cases h
  · rw [hprop] at h
    simpa [IsKeyFile, hprop] using h

theorem keyAtom_of_isKeyFile {b : Binding} {n : Node} (hn : b.lookup ['f'] = some n) (h : IsKeyFile n) :
    evalAtom R P g b (parseAtom keyAtom) = some true := by
  have hparse : parseAtom keyAtom = .inList ['f'] "extension".toList [".key".toList, ".der".toList] := rfl
  rw [hparse]
  simp only [evalAtom, hn, Option.bind_eq_bind, Option.bind_some, String.ofList_toList]
  rcases h with h | h <;> simp [h]

/-- The predicate with the clauses at its end holds of the rows that pass the filters. -/
theorem evalPred_conjoined (hpred : s.Joins c) (h : ∀ f ∈ filters, f.Suits U c)
    (hread : ReadsNumbers U R filters) {b : Binding} {n : Node} (hn : b.lookup ['f'] = some n) :
    evalPred R P g b (s.pred ++ conjoined (clauseAtoms U filters)) = some true ↔
      evalPred R P g b s.pred = some true ∧ (filters.all fun f => f.admits U R n) = true := by
  have hatoms := @isAtom_clauseAtoms U filters
  rw [← forall_clauseAtoms_iff h hn (R := R) (P := P) (g := g)]
  rcases hpred with hsingle | ⟨hid, second, hpred, hsingle⟩
  · exact (hsingle.conjoined_spec hatoms).2.2
  · have hkey : IsAtom keyAtom := isAtom_keyAtom
    rw [hpred, List.append_assoc, List.cons_append, evalPred_or rfl, evalPred_or rfl, hkey.evalPred,
      (hsingle.conjoined_spec hatoms).2.2]
    -- the first alternative finds key files, which the filters admit
    have hadmits : evalAtom R P g b (parseAtom keyAtom) = some true →
        ∀ u ∈ clauseAtoms U filters, evalAtom R P g b (parseAtom u) = some true := by
      intro hfirst
      refine (forall_clauseAtoms_iff h hn).2 (List.all_eq_true.2 fun f hf => ?_)
      rcases h f hf with hempty | hfits
      · simp [Filter.admits, hempty]
      · refine hfits.keys hid R (fun f' hf' => ?_) n (isKeyFile_of_keyAtom hn hfirst)
        rw [List.mem_singleton.1 hf']
        exact hread f hf
    tauto

theorem selects_of_suits (hc : c ∈ allCategories) (hops : ∀ f ∈ filters, f.op.getD ['='] ∈ offeredOps)
    (h : ∀ f ∈ filters, f.Suits U c) : Selects U c filters := by
  obtain ⟨s, hof, hshape, hkeys, hscoped⟩ := exists_parts hc
  have hpred := Parts.joins_of_shape hof hshape hkeys hscoped
  have hreads := readsAs_clauses h hops
  by_cases hnone : clauses U filters = []
  · -- no filter has a field
    have hempty : ∀ f ∈ filters, f.key U = [] := by
      intro f hf
      by_contra hkey
      rcases (h f hf).readsAs (hops f hf) with ⟨hclause, -⟩ | ⟨t, -, hclause, -⟩
      · obtain ⟨o, ho, hkeeps⟩ := ((h f hf).resolve_left hkey).keeps
        obtain ⟨o', ho', htext⟩ := exists_operator (hops f hf)
        obtain rfl : o' = o := Option.some.inj (ho'.symm.trans ho)
        obtain ⟨t, -, hsome, -⟩ := clause_spec hkey htext hkeeps.quiet
        rw [hsome] at hclause
        cases hclause
      · have hmem : t ∈ clauses U filters := List.mem_filterMap.2 ⟨f, hf, hclause⟩
        rw [hnone] at hmem
        cases hmem
    have hall : ∀ R n, (filters.all fun f => f.admits U R n) = true := fun R n =>
      List.all_eq_true.2 fun f hf => by simp [Filter.admits, hempty f hf]
    refine ⟨c.cypher.toList, if_pos hnone, fun R _ g tid _ => ?_⟩
    simp [hall]
  · obtain ⟨htame, hscan⟩ := readsAs_joined hreads hnone
    have hmild : Mild (conjoined (clauseAtoms U filters)) := by
      refine mild_conjoined fun u hu => ?_
      obtain ⟨f, -, -, o, -, rfl⟩ := mem_clauseAtoms hu
      exact mild_clauseTokens.1
    have hvar : s.var = ['f'] := by
      obtain ⟨t, ht⟩ := List.exists_mem_of_ne_nil _ hnone
      obtain ⟨f, hf, hclause⟩ := List.mem_filterMap.1 ht
      have hkey : f.key U ≠ [] := fun hkey => by
        have hno : f.clause U = none := if_pos hkey
        rw [hno] at hclause
        cases hclause
      refine hshape.own (eq_false_of_ne_true fun hmem => ((h f hf).resolve_left hkey).named ?_)
      obtain ⟨id, hid, heq⟩ := List.mem_map.1 (List.contains_iff_mem.1 hmem)
      rwa [← String.toList_inj.1 heq]
    refine ⟨_, hof.apply_eq hnone htame, fun R hread g tid hg => ?_⟩
    have hwith : (conjoined (clauseAtoms U filters)).head? ≠ some (.kw .with) := by
      cases clauseAtoms U filters <;> simp [conjoined]
    rw [hof.graphQuery_eq hscan hmild.clauseFree (endDepth_of_plain fun t ht => (hmild.plain t ht).1) hwith,
      hof.graphQuery_base]
    have hbase : (s.query []).accepted R (tidParams tid) = true := by
      rw [accepted_query hof, List.append_nil]
      exact hshape.accepts tid
    have haccepted : (s.query (conjoined (clauseAtoms U filters))).accepted R (tidParams tid) = true := by
      rw [accepted_query hof, predAtoms_conjoined isAtom_clauseAtoms hpred, List.all_append, Bool.and_eq_true]
      refine ⟨hshape.accepts tid, List.all_eq_true.2 fun u hu => ?_⟩
      obtain ⟨f, hf, hkey, o, ho, rfl⟩ := mem_clauseAtoms hu
      have hfits := (h f hf).resolve_left hkey
      obtain ⟨o', ho', hkeeps⟩ := hfits.keeps
      obtain rfl : o' = o := Option.some.inj (ho'.symm.trans ho)
      have hbound : s.pattern.vars.contains ['f'] = true := List.contains_iff_mem.2 (hvar ▸ hof.var)
      exact acceptsAtom_clauseTokens hbound hfits.letter hkeeps (hread f hf)
    rw [Query.run, Query.run, if_pos hbase, if_pos haccepted, Option.map_some]
    refine congrArg some (Query.rows_filter hg.eids rfl rfl rfl ⟨rfl, rfl⟩ ⟨rfl, rfl⟩ fun b hb => ?_)
    obtain ⟨n, hn⟩ := exists_lookup_of_mem_candidates hb hof.var
    have hf : b.lookup ['f'] = some n := by rw [← hvar]; exact hn
    have hiff := evalPred_conjoined hpred h hread (P := tidParams tid) (g := g) hf
    have hlookup : b.lookup (s.query []).var = some n := hn
    rw [hlookup, Option.all_some, Bool.eq_iff_iff, Bool.and_eq_true]
    simpa [Query.holds, Parts.query] using hiff

/-! ### Filters that do not suit -/

/-- A database that takes no expression but numbers, and nothing behind a boolean. -/
def strictReading : Reading where
  literal ts := if ts.head? = some (.kw .true) ∨ ts.head? = some (.kw .false) then none else some (.num 0)
  compare _ _ _ := none
  accepts _ _ := false
  other _ _ _ _ := none

theorem readsNumbers_strictReading : ReadsNumbers U strictReading filters := by
  intro f _ hnumeral
  have hfloat : isFloat U f.val = true := (Bool.and_eq_true_iff.1 (Bool.and_eq_true_iff.1 hnumeral).1).1
  have hhead : ∀ k, (literalTokens f.val).head? = some (.kw k) → k = .in := fun k hk =>
    number_literalTokens hfloat _ (List.mem_of_mem_head? hk)
  show (if _ then _ else _ : Option Json).isSome = true
  rw [if_neg]
  · rfl
  · rintro (htrue | hfalse)
    · cases hhead _ htrue
    · cases hhead _ hfalse

/-- The query of one filter: not read, or the category's with the clause at its end. -/
theorem graphQuery_single (hof : s.Of c.cypher.toList) (hkey : f.key U ≠ []) (ho : f.op.getD ['='] = o.text)
    (hval : '\\' ∉ f.val) : ∃ text, applyAttributeFilters U c.cypher.toList [f] = some text ∧
      ((∀ R g P, graphQuery R g text P = none) ∧ ¬ o.Keeps U f.val ∨
        ∀ R g P, graphQuery R g text P = (s.query (conjoined [o.clauseTokens U (f.key U) f.val])).run R P g) := by
  obtain ⟨t, m, hclause, htame, hscan, hm⟩ := clause_spec hkey ho (.inr hval)
  have hone : clauses U [f] = [t] := by rw [clauses, List.filterMap_cons_some hclause, List.filterMap_nil]
  have hne : clauses U [f] ≠ [] := by rw [hone]; exact List.cons_ne_nil t []
  have hextra : extra U [f] = t := by rw [extra, hone, List.intercalate_singleton]
  have hadded : addedText (clauses U [f]) = "AND ".toList ++ (t ++ [' ']) := by
    rw [addedText, hone, List.intercalate_singleton]
  have hand : scan .code "AND ".toList = ([.kw .and], .code) := rfl
  have hmild : Mild (conjoined [o.clauseTokens U (f.key U) f.val]) :=
    mild_conjoined (List.forall_mem_singleton.2 mild_clauseTokens.1)
  have htokens : conjoined [o.clauseTokens U (f.key U) f.val] = .kw .and :: o.clauseTokens U (f.key U) f.val := by
    simp [conjoined]
  refine ⟨_, hof.apply_eq hne (by rw [hextra]; exact htame), ?_⟩
  rw [hadded]
  rcases hm with rfl | ⟨rfl, hkeeps⟩
  · refine .inr fun R g P => ?_
    have hcode : scan .code ("AND ".toList ++ (t ++ [' '])) =
        (conjoined [o.clauseTokens U (f.key U) f.val], .code) := by
      rw [scan_append_of_code hand, hscan, htokens]
      rfl
    exact hof.graphQuery_eq hcode hmild.clauseFree (endDepth_of_plain fun t ht => (hmild.plain t ht).1)
      (by simp [htokens])
  · -- RETURN is read as the name behind the point
    refine .inl ⟨fun R g P => ?_, hkeeps⟩
    have hname : scan .dot "RETURN ".toList = ([.name "RETURN".toList], .code) := rfl
    have hdot : scan .code ("AND ".toList ++ (t ++ [' ']) ++ "RETURN ".toList) =
        (conjoined [o.clauseTokens U (f.key U) f.val] ++ [.name "RETURN".toList], .code) := by
      rw [List.append_assoc, scan_append_of_code hand, scan_append, hscan, htokens]
      dsimp only
      rw [hname]
      rfl
    have hlex : lex (s.before ++ ("AND ".toList ++ (t ++ [' '])) ++ ("RETURN ".toList ++ s.after)) =
        some (s.mat ++ .kw .where :: s.pred ++ conjoined [o.clauseTokens U (f.key U) f.val] ++
          .name "RETURN".toList :: s.item) := by
      have htext : s.before ++ ("AND ".toList ++ (t ++ [' '])) ++ ("RETURN ".toList ++ s.after) =
          s.before ++ (("AND ".toList ++ (t ++ [' ']) ++ "RETURN ".toList) ++ s.after) := by simp
      rw [htext, lex_append_of_code hof.scan_before, lex_append_of_code hdot, hof.lex_item]
      simp
    have hitem : .kw .return ∉ s.item := by
      rcases hof.item with hitem | hitem | hitem <;> rw [hitem] <;> simp
    have hparse : parseQuery (s.mat ++ .kw .where :: s.pred ++ conjoined [o.clauseTokens U (f.key U) f.val] ++
        .name "RETURN".toList :: s.item) = none := by
      refine Option.eq_none_iff_forall_ne_some.2 fun q hq => ?_
      obtain ⟨hrest, -, -⟩ := parseQuery_splice hof.opening hmild.conjunctive hitem (.inr (by simpa using hitem)) hq
      cases hrest
    simp only [graphQuery, hlex, Option.bind_eq_bind, Option.bind_some, hparse]
    rfl

/-- A key file is found whatever stands behind the second alternative. -/
theorem Parts.KeyFiles.rows_eq (h : s.KeyFiles) (hof : s.Of c.cypher.toList) {n : Node}
    (hlabel : n.labels = ["File"]) (hn : IsKeyFile n) : (s.query us).rows R P ⟨[n], [], 1⟩ = [n] := by
  obtain ⟨second, hsecond⟩ := h.alternative
  have hvar : s.var = ['f'] := by
    have hmem := hof.var
    rw [h.pattern] at hmem
    exact List.mem_singleton.1 hmem
  have hpred : s.pred ++ us = keyAtom ++ .kw .or :: (second ++ us) := by
    rw [← hsecond]
    simp
  have hlabelled : (⟨[n], [], 1⟩ : Graph).labelled (String.ofList "File".toList) = [n] := by
    refine List.filter_eq_self.2 fun m hm => ?_
    rw [List.mem_singleton.1 hm, hlabel]
    decide
  have hholds : (s.query us).holds R P ⟨[n], [], 1⟩ [(['f'], n)] = true := by
    rw [Query.holds, Parts.query, Option.all_some, hpred]
    refine decide_eq_true ((evalPred_or rfl).2 (.inl ?_))
    rw [isAtom_keyAtom.evalPred]
    exact keyAtom_of_isKeyFile rfl hn
  have hanswers : (s.query us).answers R P ⟨[n], [], 1⟩ = [[(['f'], n)]] := by
    have hcandidates : s.pattern.candidates ⟨[n], [], 1⟩ = [[(['f'], n)]] := by
      rw [h.pattern, Pattern.candidates, hlabelled]
      rfl
    rw [Query.answers]
    show (s.pattern.candidates _).filter _ = _
    rw [hcandidates, List.filter_singleton, hholds]
    rfl
  rw [Query.rows, hanswers, Parts.query, h.item, hvar]
  rfl

/-- A key that starts with a digit makes no condition that every reading takes. -/
theorem letter_of_accepts {P : Params} {vars : List Text} {o : Operator} {key val : Text}
    (h : acceptsAtom strictReading P vars (parseAtom (o.clauseTokens U key val)) = true) :
    key.head?.any Char.isDigit = false := by
  refine eq_false_of_ne_true fun hdigit => ?_
  have hother : parseAtom (o.clauseTokens U key val) = .other (o.clauseTokens U key val) := by
    show (if (['f'] : Text).head?.any Char.isDigit || key.head?.any Char.isDigit then _ else _) = _
    rw [hdigit]
    rfl
  rw [hother] at h
  cases h

/-- A value in a condition that every reading of the numbers takes is one the operator keeps. -/
theorem keeps_of_accepts {P : Params} {vars : List Text} {o : Operator}
    (hletter : (f.key U).head?.any Char.isDigit = false) (hval : '\\' ∉ f.val)
    (h : ∀ R, ReadsNumbers U R [f] →
      acceptsAtom R P vars (parseAtom (o.clauseTokens U (f.key U) f.val)) = true) : o.Keeps U f.val := by
  cases o with
  | isNull b => trivial
  | isBool b =>
    have hstrict := h strictReading readsNumbers_strictReading
    rw [parseAtom_clauseTokens hletter] at hstrict
    cases b <;> simp [acceptsAtom, Operand.value, strictReading] at hstrict
  | compare op =>
    by_contra hno
    rw [Operator.Keeps] at hno
    split_ifs at hno with htakes hbool hfloat
    · exact hno hval
    · exact hno trivial
    · -- a number only to `float`
      have hvacuous : ReadsNumbers U plainReading [f] := by
        intro f' hf' hnumeral
        rw [List.mem_singleton.1 hf'] at hnumeral
        exact absurd hnumeral hno
      have hrefused := h plainReading hvacuous
      have hvalue : (Operator.compare op).valueTokens U f.val = literalTokens f.val := by
        rw [Operator.valueTokens, if_neg htakes, plainTokens, if_neg (not_or.1 hbool).1, if_neg (not_or.1 hbool).2,
          if_pos hfloat]
      rw [parseAtom_clauseTokens hletter] at hrefused
      simp only [hvalue, operand_of_number (number_literalTokens hfloat), acceptsAtom, Operand.value, plainReading,
        Option.isSome_none, Bool.and_false] at hrefused
      cases hrefused
    · exact hno hval

theorem suits_of_selects (hc : c ∈ allCategories) (hop : f.op.getD ['='] ∈ offeredOps) (hval : '\\' ∉ f.val)
    (h : Selects U c [f]) : f.Suits U c := by
  obtain ⟨s, hof, hshape, hkeys, hscoped⟩ := exists_parts hc
  by_cases hkey : f.key U = []
  · exact .inl hkey
  obtain ⟨o, ho, htext⟩ := exists_operator hop
  obtain ⟨text, happly, hquery⟩ := graphQuery_single hof hkey htext hval
  obtain ⟨text', happly', hrows⟩ := h
  obtain rfl : text = text' := Option.some.inj (happly.symm.trans happly')
  have hbase : ∀ R tid, (s.query []).accepted R (tidParams tid) = true := by
    intro R tid
    rw [accepted_query hof, List.append_nil]
    exact hshape.accepts tid
  have hvalid : empty.Valid := ⟨List.nodup_nil, fun _ he => absurd he List.not_mem_nil⟩
  have hanswered : ∀ R, ReadsNumbers U R [f] → graphQuery R empty text (tidParams "") ≠ none := by
    intro R hread hnone
    have hsome := hrows R hread empty "" hvalid
    rw [hnone, hof.graphQuery_base, Query.run, if_pos (hbase R "")] at hsome
    cases hsome
  have hquery := hquery.resolve_left fun hno => hanswered strictReading readsNumbers_strictReading (hno.1 _ _ _)
  have haccepted : ∀ R, ReadsNumbers U R [f] →
      acceptsAtom R (tidParams "") s.pattern.vars (parseAtom (o.clauseTokens U (f.key U) f.val)) = true := by
    intro R hread
    by_contra hno
    refine hanswered R hread ?_
    rw [hquery, Query.run, if_neg]
    rw [accepted_query hof, predAtoms_conjoined (List.forall_mem_singleton.2 isAtom_clauseTokens)
      (Parts.joins_of_shape hof hshape hkeys hscoped), List.all_append, Bool.and_eq_true]
    rintro ⟨-, hall⟩
    exact hno (List.all_eq_true.1 hall _ (List.mem_singleton_self _))
  have hstrict := haccepted strictReading readsNumbers_strictReading
  have hletter := letter_of_accepts hstrict
  have hbound : s.pattern.vars.contains ['f'] = true := by
    by_contra hno
    rw [refuses_clauseTokens (eq_false_of_ne_true hno) hletter] at hstrict
    cases hstrict
  have hkeeps := keeps_of_accepts hletter hval haccepted
  have hnamed : c.id ∉ renamedIds := by
    intro hmem
    have hno := hshape.renamed (List.contains_iff_mem.2 (List.mem_map.2 ⟨_, hmem, rfl⟩))
    rw [hno] at hbound
    cases hbound
  refine .inr ⟨hletter, ⟨o, ho, hkeeps⟩, hnamed, fun hid R hread n hn => ?_⟩
  -- a key file that does not pass would be shown
  have hkeyFile : IsKeyFile ⟨0, ["File"], n.props⟩ := hn
  have hgraph : Graph.Valid ⟨[⟨0, ["File"], n.props⟩], [], 1⟩ :=
    ⟨List.nodup_singleton _, fun _ he => absurd he List.not_mem_nil⟩
  have hsame := hrows R hread _ "" hgraph
  rw [hquery, hof.graphQuery_base, Query.run, Query.run, if_pos (hbase R ""), (hkeys hid).rows_eq hof rfl hkeyFile,
    (hkeys hid).rows_eq hof rfl hkeyFile] at hsame
  split_ifs at hsame
  · have hrow : _ = List.filter _ [_] := Option.some.inj hsame
    rw [List.filter_singleton, List.all_cons, List.all_nil, Bool.and_true] at hrow
    have hadmits : f.admits U R ⟨0, ["File"], n.props⟩ = true := by
      by_contra hno
      rw [eq_false_of_ne_true hno] at hrow
      cases hrow
    exact hadmits
  · cases hsame

/-- Filters that suit select what they say; and of one filter whose value has no backslash the converse holds. -/
theorem selects_iff (hc : c ∈ allCategories) (hops : ∀ f ∈ filters, f.op.getD ['='] ∈ offeredOps) :
    ((∀ f ∈ filters, f.Suits U c) → Selects U c filters) ∧
      ∀ f, filters = [f] → '\\' ∉ f.val → (Selects U c filters ↔ f.Suits U c) := by
  refine ⟨selects_of_suits hc hops, ?_⟩
  rintro f rfl hval
  exact ⟨suits_of_selects hc (hops f (List.mem_singleton_self f)) hval,
    fun h => selects_of_suits hc hops (List.forall_mem_singleton.2 h)⟩

theorem mkv_selects : Selects ascii video [mkvFilter] := by
  have hmem : video ∈ allCategories := List.mem_append_left _ List.mem_cons_self
  have hkeeps : (Operator.compare .eq).Keeps ascii mkvFilter.val := by
    rw [Operator.Keeps, if_neg (by decide), if_neg (by decide), if_neg (by decide)]
    decide
  have hfits : mkvFilter.Fits ascii video :=
    ⟨by decide, ⟨.compare .eq, by decide, hkeeps⟩, by decide, fun h => absurd h (by decide)⟩
  exact (selects_iff hmem (by decide)).1 (List.forall_mem_singleton.2 (.inr hfits))

/-- A path with a backslash before a letter makes the substitution raise. -/
def pathFilter : Filter := ⟨some "path".toList, some ['='], some "C:\\data".toList⟩

theorem path_not_selects : ¬ ∀ c ∈ allCategories, ∀ filters : List Filter,
    (∀ f ∈ filters, f.op.getD ['='] ∈ offeredOps) → Selects ascii c filters := by
  intro h
  have hmem : video ∈ allCategories := List.mem_append_left _ List.mem_cons_self
  obtain ⟨text, htext, -⟩ := h video hmem [pathFilter] (by decide)
  have hraised : applyAttributeFilters ascii video.cypher.toList [pathFilter] = none := by decide +kernel
  rw [hraised] at htext
  cases htext

end Dgraphai.Inventory
