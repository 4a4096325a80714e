import Dgraphai.Lib.CypherRun

/-!
# A text put into a query

What the tokens of a text are when another one is put between its words (`lex_splice`), and what a query
with tokens put at the end of its predicate is read as (`parseQuery_splice`). Tokens without OR, XOR and
clause keywords outside brackets only restrict a conjunction (`splitAll_and_splice`).
-/

namespace Cypher

/-! ### Words behind a text -/

/-- Words and the spaces between them. -/
def Wordy (b : Text) : Prop := ∀ c ∈ b, isWordChar c = true ∨ c = ' '

instance (b : Text) : Decidable (Wordy b) := List.decidableBAll _ b

theorem Wordy.append {a b : Text} (ha : Wordy a) (hb : Wordy b) : Wordy (a ++ b) := by
  intro c hc
  rcases List.mem_append.1 hc with hc | hc
  · exact ha c hc
  · exact hb c hc

/-- A character that neither ends nor escapes inside a literal, a name in backticks or a comment. -/
def isInline (c : Char) : Bool := !(['\'', '"', '\\', '\x60', '*', '\n', '\r'].contains c)

theorem Wordy.inline {b : Text} (h : Wordy b) : ∀ c ∈ b, isInline c = true := by
  intro c hc
  simp only [isInline, List.contains_iff_mem, Bool.not_eq_true', ← Bool.not_eq_true]
  intro hmem
  rcases h c hc with hword | rfl
  · have hall : ['\'', '"', '\\', '\x60', '*', '\n', '\r'].all (fun c => isWordChar c = false) = true := by decide
    have hno := of_decide_eq_true (List.all_eq_true.1 hall c hmem)
    rw [hword] at hno
    cases hno
  · revert hmem
    decide

/-- Inside a literal, a name in backticks or a comment of several lines, or after a bad escape. -/
def Mode.Stuck : Mode → Prop
  | .quoted q _ => q = '\'' ∨ q = '"'
  | .tick _ | .block | .bad => True
  | _ => False

variable {a b t : Text} {m : Mode} {c : Char}

theorem ne_of_inline {k : Char} (h : isInline c = true) (hk : isInline k = false) : c ≠ k := by
  rintro rfl
  rw [hk] at h
  cases h

theorem Mode.Stuck.step (h : m.Stuck) (hc : isInline c = true) : (step m c).2.Stuck := by
  cases m with
  | quoted q acc =>
    have hq : c ≠ q := by
      rcases h with rfl | rfl <;> exact ne_of_inline hc (by decide)
    rw [Cypher.step, if_neg hq, if_neg (ne_of_inline hc (by decide))]
    exact h
  | tick acc =>
    rw [Cypher.step, if_neg (ne_of_inline hc (by decide))]
    trivial
  | block =>
    rw [Cypher.step, if_neg (ne_of_inline hc (by decide))]
    trivial
  | bad => trivial
  | _ => cases h

theorem Mode.Stuck.scan (h : m.Stuck) (hb : ∀ c ∈ b, isInline c = true) : (scan m b).2.Stuck := by
  induction b generalizing m with
  | nil => exact h
  | cons c b ih =>
    obtain ⟨hc, hb⟩ := List.forall_mem_cons.1 hb
    exact ih (h.step hc) hb

theorem Mode.Stuck.finish (h : m.Stuck) : finish m = none := by
  cases m with
  | quoted q acc | tick acc | block | bad => rfl
  | _ => cases h

theorem scan_line (hb : ∀ c ∈ b, isInline c = true) : scan .line b = ([], .line) := by
  induction b with
  | nil => rfl
  | cons c b ih =>
    obtain ⟨hc, hb⟩ := List.forall_mem_cons.1 hb
    have hstep : step .line c = ([], .line) := by
      rw [step, if_neg]
      rintro (rfl | rfl) <;> exact ne_of_inline hc (by decide) rfl
    rw [scan, hstep, ih hb]
    rfl

/-- What a space leaves a text in. -/
theorem mode_step_space (h : m.Quotes) :
    (step m ' ').2 = .code ∨ (step m ' ').2 = .dot ∨ (step m ' ').2 = .line ∨ (step m ' ').2.Stuck := by
  cases m with
  | code | word isName acc | slash => exact .inl rfl
  | dot => exact .inr (.inl rfl)
  | line => exact .inr (.inr (.inl rfl))
  | quoted q acc =>
    have hq : ' ' ≠ q := by rcases h with rfl | rfl <;> decide
    rw [step, if_neg hq]
    exact .inr (.inr (.inr h))
  | escape q acc | unicode q acc left value | tick acc | block | star | bad => exact .inr (.inr (.inr trivial))

/-- How the words behind a text are read. -/
inductive Behind (b : Text) : Mode → List Token → Prop
  | code {ts : List Token} (h : lex b = some ts) : Behind b .code ts
  | dot {ts : List Token} (h : finish (scan .dot b).2 = some ts) : Behind b .dot ((scan .dot b).1 ++ ts)
  | line : Behind b .line []

/-- A text that ends in a space, between a text that ends outside everything and words. -/
theorem lex_splice {us ts : List Token} (ha : scan .code a = (us, .code)) (hb : ∀ c ∈ b, isInline c = true)
    (h : lex (a ++ (t ++ [' ']) ++ b) = some ts) :
    ∃ rest, ts = us ++ (scan .code (t ++ [' '])).1 ++ rest ∧ Behind b (scan .code (t ++ [' '])).2 rest := by
  rw [List.append_assoc, lex_append_of_code ha] at h
  obtain ⟨vs, hvs, rfl⟩ := Option.map_eq_some_iff.1 h
  rw [lex, scan_append] at hvs
  obtain ⟨last, hlast, rfl⟩ := Option.map_eq_some_iff.1 hvs
  have hmode : (scan .code (t ++ [' '])).2 = (step (scan .code t).2 ' ').2 := by
    rw [scan_append]
    rfl
  have hquotes : (scan .code t).2.Quotes := Mode.Quotes.scan (m := .code) trivial t
  rcases mode_step_space hquotes with hm | hm | hm | hm <;> rw [← hmode] at hm
  · rw [hm] at hlast ⊢
    refine ⟨(scan .code b).1 ++ last, by simp, .code ?_⟩
    rw [lex, hlast]
    rfl
  · rw [hm] at hlast ⊢
    exact ⟨(scan .dot b).1 ++ last, by simp, .dot hlast⟩
  · rw [hm, scan_line hb] at hlast ⊢
    cases hlast
    exact ⟨[], by simp, .line⟩
  · rw [(hm.scan hb).finish] at hlast
    cases hlast

/-! ### Tokens behind a conjunction -/

/-- No OR, no XOR and no clause keyword outside brackets. -/
structure Conjunctive (ts : List Token) : Prop where
  or : splitAll .or 0 ts = [ts]
  xor : splitAll .xor 0 ts = [ts]
  clause : clauseFree 0 ts = true

instance (ts : List Token) : Decidable (Conjunctive ts) :=
  decidable_of_iff (splitAll .or 0 ts = [ts] ∧ splitAll .xor 0 ts = [ts] ∧ clauseFree 0 ts = true)
    ⟨fun h => ⟨h.1, h.2.1, h.2.2⟩, fun h => ⟨h.or, h.xor, h.clause⟩⟩

variable {k : Keyword} {ts us : List Token} {d : Nat}

/-- Tokens without brackets, OR, XOR and clause keywords; STARTS WITH and ENDS WITH are operators. -/
inductive Mild : List Token → Prop
  | nil : Mild []
  | cons (t : Token) (ts : List Token) (hplain : t.Plain)
      (hk : ∀ k, t = .kw k → k ≠ .or ∧ k ≠ .xor ∧ ¬ k.IsClause) (h : Mild ts) : Mild (t :: ts)
  | starts (ts : List Token) (h : Mild ts) : Mild (.kw .starts :: .kw .with :: ts)
  | ends (ts : List Token) (h : Mild ts) : Mild (.kw .ends :: .kw .with :: ts)

namespace Mild

theorem append (hts : Mild ts) (hus : Mild us) : Mild (ts ++ us) := by
  induction hts with
  | nil => exact hus
  | cons t ts hplain hk _ ih => exact .cons t _ hplain hk ih
  | starts ts _ ih => exact .starts _ ih
  | ends ts _ ih => exact .ends _ ih

theorem plain (h : Mild ts) : ∀ t ∈ ts, t.Plain ∧ t ≠ .kw .or ∧ t ≠ .kw .xor := by
  induction h with
  | nil => simp
  | cons t ts hplain hk _ ih =>
    exact List.forall_mem_cons.2 ⟨⟨hplain, fun ht => (hk .or ht).1 rfl, fun ht => (hk .xor ht).2.1 rfl⟩, ih⟩
  | starts ts _ ih | ends ts _ ih =>
    have hkw : ∀ k, Token.Plain (.kw k) := fun _ _ => rfl
    exact List.forall_mem_cons.2 ⟨⟨hkw _, by simp, by simp⟩, List.forall_mem_cons.2 ⟨⟨hkw _, by simp, by simp⟩, ih⟩⟩

theorem clauseFree (h : Mild ts) : clauseFree 0 ts = true := by
  induction h with
  | nil => rfl
  | cons t ts hplain hk _ ih =>
    rw [Cypher.clauseFree.eq_def]
    split
    · rfl
    · rename_i heq
      obtain ⟨-, rfl⟩ := List.cons.inj heq
      exact absurd ih (by simp [Cypher.clauseFree, Keyword.IsClause])
    · rename_i heq
      obtain ⟨-, rfl⟩ := List.cons.inj heq
      exact absurd ih (by simp [Cypher.clauseFree, Keyword.IsClause])
    · rename_i k ts' _ _ heq
      obtain ⟨rfl, rfl⟩ := List.cons.inj heq
      rw [ih, Bool.and_true, Bool.not_eq_true']
      exact decide_eq_false fun hclause => (hk k rfl).2.2 hclause.2
    · rename_i t' ts' _ _ _ heq
      obtain ⟨rfl, rfl⟩ := List.cons.inj heq
      rw [hplain 0, ih]
  | starts ts _ ih | ends ts _ ih => exact ih

theorem conjunctive (h : Mild ts) : Conjunctive ts where
  or := splitAll_of_plain fun t ht => ⟨(h.plain t ht).1, (h.plain t ht).2.1⟩
  xor := splitAll_of_plain fun t ht => ⟨(h.plain t ht).1, (h.plain t ht).2.2⟩
  clause := h.clauseFree

end Mild

def isMild : List Token → Bool
  | [] => true
  | .kw .starts :: .kw .with :: ts => isMild ts
  | .kw .ends :: .kw .with :: ts => isMild ts
  | .kw k :: ts => k ≠ .or && k ≠ .xor && !decide k.IsClause && isMild ts
  | .sym c :: ts => c ∉ ['(', '[', '\x7b', ')', ']', '\x7d'] && isMild ts
  | _ :: ts => isMild ts

theorem mild_of_isMild (h : isMild ts = true) : Mild ts := by
  fun_induction isMild ts with
  | case1 => exact .nil
  | case2 ts ih => exact .starts ts (ih h)
  | case3 ts ih => exact .ends ts (ih h)
  | case4 k ts _ _ ih =>
    simp only [Bool.and_eq_true, decide_eq_true_eq, Bool.not_eq_true', decide_eq_false_iff_not] at h
    refine .cons _ ts (fun _ => rfl) (fun k' hk' => ?_) (ih h.2)
    cases hk'
    exact ⟨h.1.1.1, h.1.1.2, h.1.2⟩
  | case5 c ts ih =>
    simp only [Bool.and_eq_true, decide_eq_true_eq, List.mem_cons, List.not_mem_nil, or_false, not_or] at h
    refine .cons _ ts (fun d => ?_) nofun (ih h.2)
    rw [Token.depth, if_neg, if_neg]
    · tauto
    · tauto
  | case6 t ts _ _ hkw hsym ih =>
    refine .cons t ts (fun d => ?_) (fun k hk => absurd hk (hkw k)) (ih h)
    cases t with
    | sym c => exact absurd rfl (hsym c)
    | _ => rfl

/-- A text of such tokens, in code and after a dot. -/
def Gentle (t : Text) : Prop :=
  ∀ named : Bool, Mild (scan (if named then .dot else .code) t).1 ∧
    ((scan (if named then .dot else .code) t).2 = .code ∨ (scan (if named then .dot else .code) t).2 = .dot)

theorem Gentle.append {a b : Text} (ha : Gentle a) (hb : Gentle b) : Gentle (a ++ b) := by
  intro named
  obtain ⟨hmild, hmode⟩ := ha named
  rw [scan_append]
  rcases hmode with hm | hm <;> rw [hm]
  · obtain ⟨hmild', hmode'⟩ := hb false
    exact ⟨hmild.append hmild', hmode'⟩
  · obtain ⟨hmild', hmode'⟩ := hb true
    exact ⟨hmild.append hmild', hmode'⟩

/-! ### Queries -/

/-- The tokens of `MATCH pattern WHERE predicate`. -/
structure Opening (mat pred : List Token) (pattern : Pattern) : Prop where
  parse : parseMatch mat = some pattern
  noWhere : splitFirst .where 0 mat = none
  noReturn : splitFirst .return 0 mat = none
  matDepth : endDepth 0 mat = 0
  clause : clauseFree 0 pred = true
  predDepth : endDepth 0 pred = 0

variable {mat pred item rest : List Token} {pattern : Pattern} {q : Query}

theorem Opening.endDepth_eq (h : Opening mat pred pattern) : endDepth 0 (mat ++ .kw .where :: pred) = 0 := by
  rw [endDepth_append, h.matDepth]
  exact h.predDepth

theorem Opening.splitFirst_return (h : Opening mat pred pattern) :
    splitFirst .return 0 (mat ++ .kw .where :: pred) = none := by
  have hpred : splitFirst .return 0 pred = none := splitFirst_of_clauseFree (by decide) (by decide) h.clause
  have hwhere : splitFirst .return 0 (.kw .where :: pred) =
      (splitFirst .return 0 pred).map fun p => (.kw .where :: p.1, p.2) := rfl
  rw [splitFirst_append_of_none h.noReturn, h.matDepth, hwhere, hpred]
  rfl

/-- The tokens put in close their brackets, and stand at the end of the predicate. -/
theorem parseQuery_splice (h : Opening mat pred pattern) (hus : Conjunctive us) (hitem : .kw .return ∉ item)
    (hrest : rest = .kw .return :: item ∨ .kw .return ∉ rest)
    (hq : parseQuery (mat ++ .kw .where :: pred ++ us ++ rest) = some q) :
    rest = .kw .return :: item ∧ endDepth 0 us = 0 ∧ parseReturn pattern (some (pred ++ us)) item = some q := by
  have hnone : splitFirst .return 0 (mat ++ .kw .where :: pred ++ us) = none := by
    rw [splitFirst_append_of_none h.splitFirst_return, h.endDepth_eq,
      splitFirst_of_clauseFree (by decide) (by decide) hus.clause]
    rfl
  have hdepth : endDepth 0 (mat ++ .kw .where :: pred ++ us) = endDepth 0 us := by
    rw [endDepth_append, h.endDepth_eq]
  have hsplit : splitFirst .return 0 (mat ++ .kw .where :: pred ++ us ++ rest) =
      (splitFirst .return (endDepth 0 us) rest).map fun p => (mat ++ .kw .where :: pred ++ us ++ p.1, p.2) := by
    rw [splitFirst_append_of_none hnone, hdepth]
  have hfound : splitFirst .return (endDepth 0 us) rest ≠ none := by
    intro hno
    rw [parseQuery, hsplit, hno] at hq
    cases hq
  have hmem : rest = .kw .return :: item := hrest.resolve_right fun hno => hfound (splitFirst_of_not_mem hno)
  have hclosed : endDepth 0 us = 0 := by
    by_contra hopen
    refine hfound ?_
    rw [hmem, splitFirst, if_neg fun hk => hopen hk.1, splitFirst_of_not_mem hitem]
    rfl
  have hreturn : splitFirst .return 0 (mat ++ .kw .where :: pred ++ us ++ rest) =
      some (mat ++ .kw .where :: (pred ++ us), item) := by
    rw [hsplit, hclosed, hmem, splitFirst, if_pos ⟨rfl, rfl⟩, Option.map_some, List.append_nil, List.append_assoc]
    rfl
  have hwhere : splitFirst .where 0 (mat ++ .kw .where :: (pred ++ us)) = some (mat, pred ++ us) := by
    rw [splitFirst_append_of_none h.noWhere, h.matDepth, splitFirst, if_pos ⟨rfl, rfl⟩, Option.map_some,
      List.append_nil]
  refine ⟨hmem, hclosed, ?_⟩
  rw [parseQuery, hreturn] at hq
  simp only [Option.bind_eq_bind, Option.bind_some, hwhere, h.parse] at hq
  split_ifs at hq
  exact hq

/-! ### Predicates -/

section Eval

variable {R : Reading} {P : Params} {g : PropertyGraph.Graph} {b : Binding} {atom : List Token}

/-- A part of a conjunction with tokens put behind it. -/
theorem evalAtom_of_splice (hne : pred ≠ []) (hor : splitAll .or 0 pred = [pred]) (hxor : splitAll .xor 0 pred = [pred])
    (hdepth : endDepth 0 pred = 0) (hmem : atom ∈ splitAll .and 0 pred) (hatom : IsAtom atom)
    (hus : Conjunctive us) (hand : us = [] ∨ us.head? = some (.kw .and))
    (h : evalPred R P g b (pred ++ us) = some true) : evalAtom R P g b (parseAtom atom) = some true := by
  have hor' : splitAll .or 0 (pred ++ us) = [pred ++ us] :=
    splitAll_append_of_one hor (by rw [hdepth]; exact hus.or)
  have hxor' : splitAll .xor 0 (pred ++ us) = [pred ++ us] :=
    splitAll_append_of_one hxor (by rw [hdepth]; exact hus.xor)
  have hand' : atom ∈ splitAll .and 0 (pred ++ us) := by
    rcases hand with rfl | hand
    · rwa [List.append_nil]
    · obtain ⟨vs, rfl⟩ : ∃ vs, us = .kw .and :: vs := by
        cases us with
        | nil => cases hand
        | cons t vs => exact ⟨vs, by rw [Option.some.inj hand]⟩
      rw [splitAll_append hdepth]
      exact List.mem_append_left _ hmem
  obtain ⟨n, hn⟩ : ∃ n, (pred ++ us).length = n + 1 := by
    cases pred with
    | nil => exact absurd rfl hne
    | cons t pred => exact ⟨_, rfl⟩
  rw [evalPred, hn, evalExpr, hor', List.map_singleton, any3_singleton, hxor', List.map_singleton, one3_singleton,
    all3_eq_true] at h
  have hvalue := h _ (List.mem_map_of_mem hand')
  rwa [hatom.factor] at hvalue

/-- A true alternative makes a predicate true. -/
theorem evalPred_of_alternative (hmem : atom ∈ splitAll .or 0 pred) (hatom : IsAtom atom) (hne : pred ≠ [])
    (h : evalAtom R P g b (parseAtom atom) = some true) : evalPred R P g b pred = some true := by
  obtain ⟨n, hn⟩ : ∃ n, pred.length = n + 1 := by
    cases pred with
    | nil => exact absurd rfl hne
    | cons t pred => exact ⟨_, rfl⟩
  rw [evalPred, hn, evalExpr, any3_eq_true]
  refine List.mem_map.2 ⟨atom, hmem, ?_⟩
  have hall : all3 [evalAtom R P g b (parseAtom atom)] = evalAtom R P g b (parseAtom atom) := by
    rw [h]
    rfl
  rw [splitAll_of_not_mem hatom.xor, List.map_singleton, one3_singleton, splitAll_of_not_mem hatom.and,
    List.map_singleton, hatom.factor, hall, h]

end Eval

end Cypher
