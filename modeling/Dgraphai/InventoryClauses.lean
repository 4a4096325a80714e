import Dgraphai.InventoryFilters

/-!
# The clauses of the inventory filters

What a filter means (`Filter.admits`), and the tokens its clause is read as. Where its value is kept
(`Operator.Keeps`) the clause says what the filter means (`evalAtom_clauseTokens`).
-/

namespace Dgraphai.Inventory

open Cypher PyText PropertyGraph

/-! ### What a filter means -/

inductive Operator where
  | compare (op : Comparison)
  | isNull (negated : Bool)
  | isBool (b : Bool)
  deriving DecidableEq, Repr

namespace Operator

def text : Operator → Text
  | .compare .eq => "=".toList
  | .compare .ne => "<>".toList
  | .compare .lt => "<".toList
  | .compare .le => "<=".toList
  | .compare .gt => ">".toList
  | .compare .ge => ">=".toList
  | .compare .contains => "CONTAINS".toList
  | .compare .startsWith => "STARTS WITH".toList
  | .compare .endsWith => "ENDS WITH".toList
  | .isNull false => "IS NULL".toList
  | .isNull true => "IS NOT NULL".toList
  | .isBool true => "= true".toList
  | .isBool false => "= false".toList

def all : List Operator :=
  [.compare .eq, .compare .ne, .compare .lt, .compare .le, .compare .gt, .compare .ge, .compare .contains,
    .compare .startsWith, .compare .endsWith, .isNull false, .isNull true, .isBool true, .isBool false]

def ofText? (t : Text) : Option Operator := all.find? fun o => o.text = t

end Operator

/-- The operators that compare texts. -/
def takesText : Comparison → Bool
  | .contains | .startsWith | .endsWith => true
  | _ => false

/-- Every point stands before a digit. -/
def pointed : Text → Bool
  | [] => true
  | c :: t => (c != '.' || t.head?.any Char.isDigit) && pointed t

/-- What `float` reads as a number and the query language as well: digits, signs, points before digits and an
exponent, with white space around. -/
def isNumeral (U : Unicode) (val : Text) : Bool :=
  isFloat U val && pointed val && val.all fun c => isSpace c || c.isDigit || ['+', '-', '.', 'e', 'E'].contains c

/-- The tokens of a number. -/
def literalTokens (val : Text) : List Token := (scan .code (val ++ [' '])).1

/-- What a value stands for: a boolean, a number, or its text. -/
def operandOf (U : Unicode) (op : Comparison) (val : Text) : Operand :=
  if takesText op then .str val
  else if lower val = "true".toList then .bool true
  else if lower val = "false".toList then .bool false
  else if isNumeral U val then .literal (literalTokens val)
  else .str val

/-- Whether the value of a property passes; null does not pass a comparison. -/
def Operator.admits (U : Unicode) (R : Reading) (val : Text) (v : Option Json) : Operator → Bool
  | .compare op =>
    (v.bind fun v => ((operandOf U op val).value R fun _ => none).bind (compareValues R op v)) = some true
  | .isNull negated => v.isSome == negated
  | .isBool b => v = some (.bool b)

namespace Filter

/-- The property a filter names. -/
def key (U : Unicode) (f : Filter) : Text := (f.field.getD []).filter U.isWord

def val (f : Filter) : Text := f.value.getD []

def operator? (f : Filter) : Option Operator := Operator.ofText? (f.op.getD ['='])

/-- Whether a node passes; a filter without a field says nothing. -/
def admits (U : Unicode) (R : Reading) (f : Filter) (n : Node) : Bool :=
  f.key U = [] || f.operator?.any (·.admits U R f.val (n.props (String.ofList (f.key U))))

end Filter

/-- The value put in is read as what it stands for: text without a backslash, a boolean or a number. The operators
`= true` and `= false` put in a value they do not take. -/
def Operator.Keeps (U : Unicode) (val : Text) : Operator → Prop
  | .compare op =>
    if takesText op then '\\' ∉ val
    else if lower val = "true".toList ∨ lower val = "false".toList then True
    else if isFloat U val then isNumeral U val = true
    else '\\' ∉ val
  | .isNull _ => True
  | .isBool _ => False

variable {U : Unicode} {R : Reading} {P : Params} {g : Graph} {f : Filter} {o : Operator} {val key : Text}
  {ts : List Token}

theorem ofText?_text (o : Operator) : Operator.ofText? o.text = some o := by
  cases o with
  | compare op => cases op <;> decide
  | isNull b | isBool b => cases b <;> decide

theorem exists_operator (h : f.op.getD ['='] ∈ offeredOps) :
    ∃ o, f.operator? = some o ∧ f.op.getD ['='] = o.text := by
  have hall : ∀ op ∈ offeredOps, ∃ o ∈ Operator.all, o.text = op := by decide
  obtain ⟨o, -, ho⟩ := hall _ h
  refine ⟨o, ?_, ho.symm⟩
  rw [Filter.operator?, ← ho, ofText?_text]

/-! ### The tokens of a clause -/

/-- The tokens of a value that is no text. -/
def plainTokens (U : Unicode) (val : Text) : List Token :=
  if lower val = "true".toList then [.kw .true]
  else if lower val = "false".toList then [.kw .false]
  else if isFloat U val then literalTokens val
  else [.str val]

namespace Operator

def tokens : Operator → List Token
  | .compare .eq => [.sym '=']
  | .compare .ne => [.sym '<', .sym '>']
  | .compare .lt => [.sym '<']
  | .compare .le => [.sym '<', .sym '=']
  | .compare .gt => [.sym '>']
  | .compare .ge => [.sym '>', .sym '=']
  | .compare .contains => [.kw .contains]
  | .compare .startsWith => [.kw .starts, .kw .with]
  | .compare .endsWith => [.kw .ends, .kw .with]
  | .isNull false => [.kw .is, .kw .null]
  | .isNull true => [.kw .is, .kw .not, .kw .null]
  | .isBool true => [.sym '=', .kw .true]
  | .isBool false => [.sym '=', .kw .false]

def valueTokens (U : Unicode) (val : Text) : Operator → List Token
  | .compare op => if takesText op then [.str val] else plainTokens U val
  | .isNull _ => []
  | .isBool _ => plainTokens U val

/-- The tokens of a clause. -/
def clauseTokens (U : Unicode) (key val : Text) (o : Operator) : List Token :=
  .word ['f'] :: .sym '.' :: .name key :: (o.tokens ++ o.valueTokens U val)

theorem scan_text (o : Operator) : scan .code (o.text ++ [' ']) = (o.tokens, .code) := by
  cases o with
  | compare op => cases op <;> decide
  | isNull b | isBool b => cases b <;> decide

end Operator

/-- A text without a backslash between its quotes stands for itself. -/
theorem scan_quoted (h : '\\' ∉ val) : scan .code (quoted val ++ [' ']) = ([.str val], .code) := by
  have hinside : ∀ {val : Text}, '\\' ∉ val → ∀ acc : Text,
      scan (.quoted '\'' acc) (escapeQuotes val ++ ['\'', ' ']) = ([.str (acc.reverse ++ val)], .code) := by
    intro val hval
    induction val with
    | nil =>
      intro acc
      rw [List.append_nil]
      rfl
    | cons d val ih =>
      intro acc
      obtain ⟨hd, hrest⟩ := List.ne_and_not_mem_of_not_mem_cons hval
      have hmore : acc.reverse ++ d :: val = (d :: acc).reverse ++ val := by simp
      rw [hmore, escapeQuotes]
      split_ifs with hquote
      · rw [hquote]
        show ([] ++ ([] ++ (scan (.quoted '\'' ('\'' :: acc)) (escapeQuotes val ++ ['\'', ' '])).1),
          (scan (.quoted '\'' ('\'' :: acc)) (escapeQuotes val ++ ['\'', ' '])).2) = _
        rw [ih hrest]
        rfl
      · rw [List.cons_append, scan, step, if_neg hquote, if_neg hd.symm, ih hrest]
        rfl
  have htext : quoted val ++ [' '] = '\'' :: (escapeQuotes val ++ ['\'', ' ']) := by simp [quoted]
  have hopen : step .code '\'' = ([], .quoted '\'' []) := rfl
  rw [htext, scan, hopen, hinside h]
  rfl

theorem number_literalTokens (h : isFloat U val = true) : ∀ t ∈ literalTokens val, NumberToken U t :=
  (@number_scan_space U false val (isNumberChar_of_isFloat h)).1

/-- After a number with all points before digits a space ends the last word. -/
theorem scan_pointed {t : Text} {m : Mode} (hchars : ∀ d ∈ t, isNumberChar U d = true) (hpointed : pointed t = true)
    (hm : m = .code ∨ (∃ isName acc, m = .word isName acc) ∨ m = .dot ∧ t.head?.any Char.isDigit = true) :
    (scan m t).2 = .code ∨ ∃ isName acc, (scan m t).2 = .word isName acc := by
  induction t generalizing m with
  | nil =>
    rcases hm with rfl | ⟨isName, acc, rfl⟩ | ⟨-, hno⟩
    · exact .inl rfl
    · exact .inr ⟨isName, acc, rfl⟩
    · cases hno
  | cons d t ih =>
    obtain ⟨hd, ht⟩ := List.forall_mem_cons.1 hchars
    rw [pointed, Bool.and_eq_true] at hpointed
    have hnext : ∀ named, (codeStep named d).2 = .code ∨ (∃ isName acc, (codeStep named d).2 = .word isName acc) ∨
        (codeStep named d).2 = .dot ∧ (named = true ∧ isSpace d = true ∨ d = '.') := by
      intro named
      have hother : d ≠ '$' ∧ d ≠ ':' := by
        have hno : ∀ e ∈ ['$', ':'], isNumberChar U e = false := by
          simp [isNumberChar, Unicode.isDecimal, isSpace, numberLetters]
        refine ⟨?_, ?_⟩ <;> rintro rfl <;> rw [hno _ (by simp)] at hd <;> cases hd
      have hmode := (@number_codeStep U named d hd).2
      unfold codeStep at hmode ⊢
      split_ifs at hmode ⊢ with hspace hnamed hword hquote htick hslash hdot
      · exact .inr (.inr ⟨rfl, .inl ⟨hnamed, hspace⟩⟩)
      · exact .inl rfl
      · exact .inr (.inl ⟨_, _, rfl⟩)
      · cases hmode
      · cases hmode
      · cases hmode
      · exact .inr (.inr ⟨rfl, .inr (by tauto)⟩)
      · exact .inl rfl
    have hafter : ∀ m', (m' = .code ∨ (∃ isName acc, m' = .word isName acc) ∨ m' = .dot ∧ d = '.') →
        (scan m' t).2 = .code ∨ ∃ isName acc, (scan m' t).2 = .word isName acc := by
      rintro m' (rfl | hword | ⟨rfl, rfl⟩)
      · exact ih ht hpointed.2 (.inl rfl)
      · exact ih ht hpointed.2 (.inr (.inl hword))
      · refine ih ht hpointed.2 (.inr (.inr ⟨rfl, ?_⟩))
        simpa using hpointed.1
    rcases hm with rfl | ⟨isName, acc, rfl⟩ | ⟨rfl, hdigit⟩
    · refine hafter _ ?_
      rcases hnext false with h | h | ⟨h, hno | hdot⟩
      · exact .inl h
      · exact .inr (.inl h)
      · cases hno.1
      · exact .inr (.inr ⟨h, hdot⟩)
    · refine hafter _ ?_
      rw [step]
      split_ifs
      · exact .inr (.inl ⟨_, _, rfl⟩)
      · rcases hnext false with h | h | ⟨h, hno | hdot⟩
        · exact .inl h
        · exact .inr (.inl h)
        · cases hno.1
        · exact .inr (.inr ⟨h, hdot⟩)
    · have hword : isWordChar d = true := isWordChar_of_isDigit hdigit
      refine hafter _ (.inr (.inl ⟨true, [d], ?_⟩))
      rw [step, codeStep, isSpace_of_isWordChar hword, hword]
      rfl

theorem scan_numeral (h : isNumeral U val = true) : scan .code (val ++ [' ']) = (literalTokens val, .code) := by
  rw [isNumeral, Bool.and_eq_true, Bool.and_eq_true] at h
  refine Prod.ext rfl ?_
  rw [scan_append]
  rcases scan_pointed (isNumberChar_of_isFloat h.1.1) h.1.2 (.inl rfl) with hm | ⟨isName, acc, hm⟩
  · rw [hm]
    rfl
  · rw [hm]
    rfl

/-- The text of a value other than of a text operator. -/
def plainText (U : Unicode) (val : Text) : Text :=
  if lower val = "true".toList ∨ lower val = "false".toList then lower val
  else if isFloat U val then val
  else quoted val

theorem scan_plain (h : '\\' ∉ val) : ∃ m, scan .code (plainText U val ++ [' ']) = (plainTokens U val, m) ∧
    (m = .code ∨ m = .dot ∧ isFloat U val = true ∧ isNumeral U val = false ∧
      ¬ (lower val = "true".toList ∨ lower val = "false".toList)) := by
  unfold plainText plainTokens
  by_cases htrue : lower val = "true".toList
  · rw [if_pos (.inl htrue), if_pos htrue, htrue]
    exact ⟨.code, by decide, .inl rfl⟩
  by_cases hfalse : lower val = "false".toList
  · rw [if_pos (.inr hfalse), if_neg htrue, if_pos hfalse, hfalse]
    exact ⟨.code, by decide, .inl rfl⟩
  have hbool : ¬ (lower val = "true".toList ∨ lower val = "false".toList) := not_or.2 ⟨htrue, hfalse⟩
  rw [if_neg hbool, if_neg htrue, if_neg hfalse]
  split_ifs with hfloat
  · rcases hnumeral : isNumeral U val with _ | _
    · refine ⟨_, rfl, ?_⟩
      rcases (@number_scan_space U false val (isNumberChar_of_isFloat hfloat)).2 with hm | hm
      · exact .inl hm
      · exact .inr ⟨hm, hfloat, rfl, hbool⟩
    · exact ⟨.code, scan_numeral hnumeral, .inl rfl⟩
  · exact ⟨.code, scan_quoted h, .inl rfl⟩

theorem operandText_compare (op : Comparison) (val : Text) :
    operandText U (Operator.compare op).text val = if takesText op then quoted val else plainText U val := by
  cases op <;> rfl

theorem operandText_isBool (b : Bool) (val : Text) :
    operandText U (Operator.isBool b).text val = plainText U val := by
  cases b <;> rfl

theorem tame_plainText (h : '\\' ∉ val) : Template.Tame (plainText U val ++ [' ']) := by
  unfold plainText
  split_ifs with hbool
  · exact .of_not_mem (by rcases hbool with h | h <;> rw [h] <;> decide)
  · exact .of_not_mem (by simpa using h)
  · exact tame_quoted h

namespace Operator

/-- The value of an operator that takes one is read, its points aside. -/
theorem scan_value (hnull : ∀ b, o ≠ .isNull b) (h : '\\' ∉ val) :
    Template.Tame (operandText U o.text val ++ [' ']) ∧
      ∃ m, scan .code (operandText U o.text val ++ [' ']) = (o.valueTokens U val, m) ∧
        (m = .code ∨ m = .dot ∧ ¬ o.Keeps U val) := by
  cases o with
  | compare op =>
    rw [operandText_compare, valueTokens, Keeps]
    split_ifs with htext hbool hfloat
    · exact ⟨tame_quoted h, .code, scan_quoted h, .inl rfl⟩
    all_goals
      obtain ⟨m, hscan, hm⟩ := scan_plain (U := U) h
      refine ⟨tame_plainText h, m, hscan, hm.imp_right fun hdot => ⟨hdot.1, ?_⟩⟩
    · exact absurd hbool hdot.2.2.2
    · simp [hdot.2.2.1]
    · exact absurd hdot.2.1 hfloat
  | isNull b => exact absurd rfl (hnull b)
  | isBool b =>
    obtain ⟨m, hscan, hm⟩ := scan_plain (U := U) h
    rw [operandText_isBool]
    exact ⟨tame_plainText h, m, hscan, hm.imp_right fun hdot => ⟨hdot.1, id⟩⟩

theorem isNull_text (o : Operator) :
    (o.text = "IS NULL".toList ∨ o.text = "IS NOT NULL".toList) ↔ ∃ b, o = .isNull b := by
  cases o with
  | compare op => exact iff_of_false (by cases op <;> decide) (by simp)
  | isNull b => exact iff_of_true (by cases b <;> decide) ⟨b, rfl⟩
  | isBool b => exact iff_of_false (by cases b <;> decide) (by simp)

/-- A value that is kept has no backslash, or is not put in. -/
theorem Keeps.quiet (h : o.Keeps U val) : (∃ b, o = .isNull b) ∨ '\\' ∉ val := by
  cases o with
  | compare op =>
    refine .inr fun hmem => ?_
    rw [Keeps] at h
    split_ifs at h with htext hbool hfloat
    · exact h hmem
    · have hlower : '\\' ∈ lower val := List.mem_map.2 ⟨'\\', hmem, rfl⟩
      rcases hbool with hbool | hbool <;> rw [hbool] at hlower <;> revert hlower <;> decide
    · have hchar := isNumberChar_of_isFloat hfloat _ hmem
      revert hchar
      simp [isNumberChar, Unicode.isDecimal, isSpace, numberLetters]
    · exact h hmem
  | isNull b => exact .inl ⟨b, rfl⟩
  | isBool b => cases h

end Operator

theorem clause_spec (hne : f.key U ≠ []) (ho : f.op.getD ['='] = o.text)
    (hval : (∃ b, o = .isNull b) ∨ '\\' ∉ f.val) :
    ∃ t m, f.clause U = some t ∧ Template.Tame (t ++ [' ']) ∧
      scan .code (t ++ [' ']) = (o.clauseTokens U (f.key U) f.val, m) ∧
        (m = .code ∨ m = .dot ∧ ¬ o.Keeps U f.val) := by
  have hfield : ∀ d ∈ f.key U, U.isWord d = true := fun d hd => (List.mem_filter.1 hd).2
  have hop : o.text ∈ offeredOps := by
    cases o with
    | compare op => cases op <;> decide
    | isNull b | isBool b => cases b <;> decide
  have hclause : f.clause U = if o.text = "IS NULL".toList ∨ o.text = "IS NOT NULL".toList then
      some ('f' :: '.' :: f.key U ++ ' ' :: o.text)
      else some ('f' :: '.' :: f.key U ++ ' ' :: o.text ++ ' ' :: operandText U o.text f.val) := by
    rw [← ho]
    exact if_neg hne
  have hhead : ∀ rest, scan .code (fieldText (f.key U) ++ ((o.text ++ [' ']) ++ rest)) =
      ([.word ['f'], .sym '.', .name (f.key U)] ++ (o.tokens ++ (scan .code rest).1), (scan .code rest).2) := by
    intro rest
    rw [scan_append_of_code (scan_fieldText hne hfield), scan_append_of_code o.scan_text]
  by_cases hnull : ∃ b, o = .isNull b
  · refine ⟨_, .code, hclause.trans (if_pos (o.isNull_text.2 hnull)), ?_, ?_, .inl rfl⟩
    all_goals
      have htext : 'f' :: '.' :: f.key U ++ ' ' :: o.text ++ [' '] =
          fieldText (f.key U) ++ ((o.text ++ [' ']) ++ []) := by
        simp [fieldText]
      rw [htext]
    · exact tame_clause hfield hop .nil
    · obtain ⟨b, rfl⟩ := hnull
      rw [hhead]
      rfl
  · obtain ⟨htame, m, hscan, hm⟩ :=
      Operator.scan_value (U := U) (fun b hb => hnull ⟨b, hb⟩) (hval.resolve_left hnull)
    refine ⟨_, m, hclause.trans (if_neg fun h => hnull (o.isNull_text.1 h)), ?_, ?_, hm⟩
    all_goals
      have htext : 'f' :: '.' :: f.key U ++ ' ' :: o.text ++ ' ' :: operandText U o.text f.val ++ [' '] =
          fieldText (f.key U) ++ ((o.text ++ [' ']) ++ (operandText U o.text f.val ++ [' '])) := by
        simp [fieldText]
      rw [htext]
    · exact tame_clause hfield hop htame
    · rw [hhead, hscan]
      rfl

/-! ### The atom of a clause -/

theorem operand_of_number (h : ∀ t ∈ ts, NumberToken U t) : operand ts = .literal ts := by
  unfold operand
  split
  · exact (h _ List.mem_cons_self).elim
  · exact absurd (h _ List.mem_cons_self) (by simp [NumberToken])
  · exact absurd (h _ List.mem_cons_self) (by simp [NumberToken])
  · have hdollar : isNumberChar U '$' = true := h _ List.mem_cons_self
    simp [isNumberChar, Unicode.isDecimal, isSpace, numberLetters] at hdollar
  · rfl

/-- A token that is no part of an operator. -/
def Apart (t : Token) : Prop := t ≠ .sym '=' ∧ t ≠ .sym '<' ∧ t ≠ .sym '>' ∧ t ≠ .sym '~'

theorem apart_of_number {t : Token} (h : NumberToken U t) : Apart t := by
  have hno : ∀ e ∈ ['=', '<', '>', '~'], ¬ NumberToken U (.sym e) := by
    simp [NumberToken, isNumberChar, Unicode.isDecimal, isSpace, numberLetters]
  refine ⟨?_, ?_, ?_, ?_⟩ <;> rintro rfl <;> exact hno _ (by simp) h

theorem apart_plainTokens : ∀ t ∈ (plainTokens U val).head?, Apart t := by
  intro t ht
  unfold plainTokens at ht
  split_ifs at ht with htrue hfalse hfloat
  · cases ht
    simp [Apart]
  · cases ht
    simp [Apart]
  · exact apart_of_number (number_literalTokens hfloat t (List.mem_of_mem_head? ht))
  · cases ht
    simp [Apart]

theorem apart_valueTokens : ∀ t ∈ (o.valueTokens U val).head?, Apart t := by
  cases o with
  | compare op =>
    rw [Operator.valueTokens]
    split_ifs
    · intro t ht
      cases ht
      simp [Apart]
    · exact apart_plainTokens
  | isNull b =>
    intro t ht
    cases ht
  | isBool b => exact apart_plainTokens

theorem comparison_tokens {op : Comparison} (h : ∀ t ∈ ts.head?, Apart t) :
    comparison ((Operator.compare op).tokens ++ ts) = some (op, ts) := by
  cases ts with
  | nil => cases op <;> rfl
  | cons t ts =>
    obtain ⟨heq, hlt, hgt, htilde⟩ := h t rfl
    cases op with
    | contains | startsWith | endsWith | ne | le | ge => rfl
    | eq =>
      show comparison (.sym '=' :: t :: ts) = _
      rw [comparison]
      rintro ts' ⟨⟩
      exact htilde rfl
    | lt =>
      show comparison (.sym '<' :: t :: ts) = _
      rw [comparison]
      all_goals
        rintro ts' ⟨⟩
        first
          | exact hgt rfl
          | exact heq rfl
    | gt =>
      show comparison (.sym '>' :: t :: ts) = _
      rw [comparison]
      rintro ts' ⟨⟩
      exact heq rfl

/-- A text that has no tokens is white space. -/
theorem isSpace_of_scan_nil {t : Text} (h : (scan .code (t ++ [' '])).1 = [])
    (hchars : ∀ d ∈ t, isNumberChar U d = true) :
    ∀ d ∈ t, isSpace d = true := by
  have hword : ∀ {t acc : Text} {isName : Bool}, (scan (.word isName acc) (t ++ [' '])).1 ≠ [] := by
    intro t
    induction t with
    | nil =>
      intro acc isName
      exact List.cons_ne_nil _ _
    | cons d t ih =>
      intro acc isName
      rw [List.cons_append, scan, step]
      split_ifs
      · exact ih
      · exact List.cons_ne_nil _ _
  induction t with
  | nil => simp
  | cons d t ih =>
    obtain ⟨hd, ht⟩ := List.forall_mem_cons.1 hchars
    have hstep := (@number_codeStep U false d hd).2
    rw [List.cons_append, scan, step] at h
    unfold codeStep at h hstep
    split_ifs at h hstep with hspace hcode hisWord hquote htick hslash hdot
    · cases hcode
    · exact List.forall_mem_cons.2 ⟨hspace, ih h ht⟩
    · exact absurd h hword
    · cases hstep
    · cases hstep
    · cases hstep
    · cases h
    · cases h

theorem plainTokens_ne_nil : plainTokens U val ≠ [] := by
  unfold plainTokens
  split_ifs with htrue hfalse hfloat
  · simp
  · simp
  · intro hnil
    obtain ⟨d, hd, hspace⟩ := exists_not_space_of_isFloat hfloat
    rw [isSpace_of_scan_nil hnil (isNumberChar_of_isFloat hfloat) d hd] at hspace
    cases hspace
  · simp

/-- The atom of a clause over a property whose name begins with no digit. -/
theorem parseAtom_clauseTokens (hkey : key.head?.any Char.isDigit = false) :
    parseAtom (o.clauseTokens U key val) = match o with
      | .compare op => .compare ['f'] key op (operand (o.valueTokens U val))
      | .isNull negated => .isNull ['f'] key negated
      | .isBool b =>
        .compare ['f'] key .eq (.literal (.kw (if b then .true else .false) :: plainTokens U val)) := by
  have hproperty : parseAtom (o.clauseTokens U key val) =
      propertyAtom ['f'] key (o.tokens ++ o.valueTokens U val) := by
    show (if (['f'] : Text).head?.any Char.isDigit || key.head?.any Char.isDigit then _ else _) = _
    rw [hkey]
    rfl
  rw [hproperty]
  cases o with
  | compare op => simp only [propertyAtom, comparison_tokens apart_valueTokens]
  | isNull b => cases b <;> rfl
  | isBool b =>
    obtain ⟨t, ts, hts⟩ := List.exists_cons_of_ne_nil (@plainTokens_ne_nil U val)
    rw [Operator.valueTokens, hts]
    cases b <;> rfl

theorem mild_plainTokens : Mild (plainTokens U val) ∧ .kw .and ∉ plainTokens U val := by
  unfold plainTokens
  split_ifs with htrue hfalse hfloat
  · exact ⟨mild_of_isMild rfl, by simp⟩
  · exact ⟨mild_of_isMild rfl, by simp⟩
  · refine ⟨mild_of_number (number_literalTokens hfloat), fun hmem => ?_⟩
    have hin : Keyword.and = .in := number_literalTokens hfloat _ hmem
    cases hin
  · exact ⟨mild_of_isMild rfl, by simp⟩

theorem mild_clauseTokens : Mild (o.clauseTokens U key val) ∧ .kw .and ∉ o.clauseTokens U key val := by
  have hvalue : Mild (o.valueTokens U val) ∧ .kw .and ∉ o.valueTokens U val := by
    cases o with
    | compare op =>
      rw [Operator.valueTokens]
      split_ifs
      · exact ⟨mild_of_isMild rfl, by simp⟩
      · exact mild_plainTokens
    | isNull b => exact ⟨.nil, List.not_mem_nil⟩
    | isBool b => exact mild_plainTokens
  have hop : isMild o.tokens = true ∧ .kw .and ∉ o.tokens := by
    cases o with
    | compare op => cases op <;> decide
    | isNull b | isBool b => cases b <;> decide
  have hhead : Mild [.word ['f'], .sym '.', .name key] := mild_of_isMild rfl
  refine ⟨hhead.append ((mild_of_isMild hop.1).append hvalue.1), ?_⟩
  simp [Operator.clauseTokens, hop.2, hvalue.2]

theorem isAtom_clauseTokens : IsAtom (o.clauseTokens U key val) where
  depth := endDepth_of_plain fun t ht => (mild_clauseTokens.1.plain t ht).1
  or hmem := (mild_clauseTokens.1.plain _ hmem).2.1 rfl
  xor hmem := (mild_clauseTokens.1.plain _ hmem).2.2 rfl
  and := mild_clauseTokens.2
  not := by simp [Operator.clauseTokens]
  bracket := by simp [Operator.clauseTokens]

theorem operand_valueTokens {op : Comparison} (h : (Operator.compare op).Keeps U val) :
    operand ((Operator.compare op).valueTokens U val) = operandOf U op val := by
  rw [Operator.Keeps] at h
  rw [Operator.valueTokens, operandOf, plainTokens]
  by_cases htext : takesText op = true
  · rw [if_pos htext, if_pos htext]
    rfl
  rw [if_neg htext] at h ⊢
  rw [if_neg htext]
  by_cases htrue : lower val = "true".toList
  · rw [if_pos htrue, if_pos htrue]
    rfl
  by_cases hfalse : lower val = "false".toList
  · rw [if_neg htrue, if_pos hfalse, if_neg htrue, if_pos hfalse]
    rfl
  rw [if_neg (not_or.2 ⟨htrue, hfalse⟩)] at h
  rw [if_neg htrue, if_neg hfalse, if_neg htrue, if_neg hfalse]
  by_cases hfloat : isFloat U val = true
  · rw [if_pos hfloat] at h
    rw [if_pos hfloat, if_pos h, operand_of_number (number_literalTokens hfloat)]
  · have hnumeral : ¬ isNumeral U val = true := fun hno =>
      hfloat (Bool.and_eq_true_iff.1 (Bool.and_eq_true_iff.1 hno).1).1
    rw [if_neg hfloat, if_neg hnumeral]
    rfl

/-! ### What a clause says -/

theorem value_operandOf {op : Comparison} :
    (operandOf U op val).value R P = (operandOf U op val).value R fun _ => none := by
  unfold operandOf
  split_ifs <;> rfl

/-- A clause whose value is kept says what its filter means. -/
theorem evalAtom_clauseTokens (hkey : key.head?.any Char.isDigit = false)
    (hkeeps : o.Keeps U val) {b : Binding} {n : Node}
    (hn : b.lookup ['f'] = some n) :
    evalAtom R P g b (parseAtom (o.clauseTokens U key val)) = some true ↔
      o.admits U R val (n.props (String.ofList key)) = true := by
  rw [parseAtom_clauseTokens hkey]
  cases o with
  | compare op =>
    simp only [evalAtom, hn, Option.bind_eq_bind, Option.bind_some,
      operand_valueTokens hkeeps, @value_operandOf U R P val,
      Operator.admits, decide_eq_true_eq]
  | isNull negated =>
    simp only [evalAtom, hn, Option.bind_eq_bind, Option.bind_some, Operator.admits, Option.some.injEq]
  | isBool b => cases hkeeps

theorem acceptsAtom_clauseTokens {vars : List Text} (hvars : vars.contains ['f'] = true)
    (hkey : key.head?.any Char.isDigit = false) (hkeeps : o.Keeps U val)
    (hread : isNumeral U val = true → (R.literal (literalTokens val)).isSome = true) :
    acceptsAtom R P vars (parseAtom (o.clauseTokens U key val)) = true := by
  rw [parseAtom_clauseTokens hkey]
  cases o with
  | compare op =>
    have hvalue : ((operandOf U op val).value R P).isSome = true := by
      unfold operandOf
      split_ifs with _ _ _ hnumeral
      · rfl
      · rfl
      · rfl
      · exact hread hnumeral
      · rfl
    simp only [acceptsAtom, hvars, operand_valueTokens hkeeps, hvalue, Bool.and_self]
  | isNull negated => exact hvars
  | isBool b => cases hkeeps

/-- Nothing is known of other variables. -/
theorem refuses_clauseTokens {vars : List Text} (hvars : vars.contains ['f'] = false)
    (hkey : key.head?.any Char.isDigit = false) :
    acceptsAtom R P vars (parseAtom (o.clauseTokens U key val)) = false := by
  rw [parseAtom_clauseTokens hkey]
  cases o with
  | compare op | isBool b => simp only [acceptsAtom, hvars, Bool.false_and]
  | isNull negated => exact hvars

end Dgraphai.Inventory
