import Dgraphai.GraphBackend
import Dgraphai.Lib.CypherLiteral
import Dgraphai.Lib.CypherWriting
import Dgraphai.QueryBuilder

/-!
# What a built query asks for (`web/src/pages/QueryBuilder.tsx`)

`buildCypher` names one tenant, for the first node, and puts the values of the filters into the text as they are.
`asksFor_iff` says for which states the text is read as the state means it: all nodes go by one name, no value between
quotes has a quote or a backslash, every value without quotes is a boolean or a number of the query language, and the
limit is a number of rows.
-/

namespace Dgraphai.QueryBuilder

open Cypher

/-! ### Numbers of the query language -/

def isDigits (w : Text) : Bool := w ≠ [] && w.all Char.isDigit

/-- Digits that begin with no 0, or `0x` or `0o` and digits of that base. -/
def isInteger : Text → Bool
  | ['0'] => true
  | '0' :: 'x' :: w => w ≠ [] && w.all fun c => (hexValue c).isSome
  | '0' :: 'o' :: w => w ≠ [] && w.all fun c => decide ('0' ≤ c ∧ c ≤ '7')
  | w => isDigits w && w.head? ≠ some '0'

/-- Digits and the letter of an exponent. -/
def opensExponent (w : Text) : Bool :=
  isDigits w.dropLast && (w.getLast? = some 'e' || w.getLast? = some 'E')

/-- Digits, with an exponent or without. -/
def isScientific (w : Text) : Bool :=
  let digits := w.takeWhile Char.isDigit
  isDigits digits && match w.dropWhile Char.isDigit with
    | [] => true
    | c :: exponent => (c = 'e' || c = 'E') && isDigits exponent

def isSign (c : Char) : Bool := c = '+' || c = '-'

/-- The tokens of a number; the digits of a signed exponent are a word of their own. -/
def isUnsigned : List Token → Bool
  | [.word w] => isInteger w || (isScientific w && !isDigits w)
  | [.word w, .sym c, .word d] => opensExponent w && isSign c && isDigits d
  | [.word w, .sym '.', .name f] => isDigits w && isScientific f
  | [.word w, .sym '.', .name f, .sym c, .word d] => isDigits w && opensExponent f && isSign c && isDigits d
  | [.sym '.', .name f] => isScientific f
  | [.sym '.', .name f, .sym c, .word d] => opensExponent f && isSign c && isDigits d
  | _ => false

def isNumeral : List Token → Bool
  | .sym c :: ts => if isSign c then isUnsigned ts else isUnsigned (.sym c :: ts)
  | ts => isUnsigned ts

/-- The tokens of a text that is a number. -/
def numeral (v : Text) : Option (List Token) := (tokensOf v).filter isNumeral

example : ["12", "-0.5", ".5e-3", "1e5", "0x1F"].map (fun v => (numeral v.toList).isSome) = [true, true, true, true, true] ∧
    ["", "5.", "0b1", "Infinity", "007"].map (fun v => (numeral v.toList).isSome) = [false, false, false, false, false] := by
  decide

/-! ### What a state means -/

inductive Operator where
  | compare (op : Comparison)
  | isNull (negated : Bool)
  deriving DecidableEq

/-- `FILTER_OPS`, with what they say. -/
def filterOps : List (String × Operator) :=
  [("=", .compare .eq), ("<>", .compare .ne), (">", .compare .gt), ("<", .compare .lt), (">=", .compare .ge),
    ("<=", .compare .le), ("CONTAINS", .compare .contains), ("STARTS WITH", .compare .startsWith),
    ("IS NULL", .isNull false), ("IS NOT NULL", .isNull true)]

def FilterClause.operator? (f : FilterClause) : Option Operator := filterOps.lookup f.op

namespace FilterClause

/-- What the value stands for: a boolean, a number, or the string entered. -/
def operand (f : FilterClause) (op : Comparison) : Option Operand :=
  if op = .contains ∨ op = .startsWith then some (.str f.value.toList)
  else if f.value = "true" then some (.bool true)
  else if f.value = "false" then some (.bool false)
  else if isNumeric f.value.toList then (numeral f.value.toList).map .literal
  else some (.str f.value.toList)

/-- What a filter says of the node of this name; `none` where its number is none of the query language. -/
def meaning (name : String) (f : FilterClause) : Option Atom :=
  f.operator?.bind fun
    | .isNull negated => some (.isNull name.toList f.field.toList negated)
    | .compare op => (f.operand op).map (.compare name.toList f.field.toList op)

end FilterClause

/-- The filters with a field, each with the name of its node. -/
def BuilderState.filters (s : BuilderState) : List (String × FilterClause) :=
  s.nodes.flatMap fun n => (n.filters.filter (·.field ≠ "")).map (n.name, ·)

/-- `x.tenant_id = $tid`. -/
def scopeAtom (x : Text) : Atom := .compare x "tenant_id".toList .eq (.param "tid".toList)

def isScope : Atom → Bool
  | .compare _ key .eq (.param p) => key = "tenant_id".toList && p = "tid".toList
  | _ => false

/-- The text is one MATCH whose WHERE clause is a conjunction: the tenant of everything returned, and the filters. -/
def AsksFor (s : BuilderState) (cypher : Text) : Prop :=
  ∃ q paths pred atoms, (lex cypher).bind parseStatement = some q ∧ q.clauses = [⟨paths, some pred⟩] ∧
    Conjoins pred atoms ∧ (∀ it ∈ q.items, scopeAtom it.var ∈ atoms) ∧
    s.filters.mapM (fun p => p.2.meaning p.1) = some (atoms.filter fun a => !isScope a)

/-- Names, types and fields are identifiers, and operators those of the page. -/
structure BuilderState.WellNamed (s : BuilderState) : Prop where
  nodes : ∀ n ∈ s.nodes, IsVar n.name.toList ∧ IsName n.type.toList
  filters : ∀ p ∈ s.filters, IsName p.2.field.toList ∧ p.2.op ∈ filterOps.map (·.1)
  relationships : ∀ r ∈ s.relationships, IsVar r.source.toList ∧ IsName r.type.toList ∧ IsVar r.target.toList

/-- The value is kept by the way it is put into the text. -/
def FilterClause.Kept (f : FilterClause) : Prop :=
  if f.op = "IS NULL" ∨ f.op = "IS NOT NULL" then True
  else if f.op = "CONTAINS" ∨ f.op = "STARTS WITH" then Unquoted f.value.toList
  else if f.value = "true" ∨ f.value = "false" then True
  else if isNumeric f.value.toList then (numeral f.value.toList).isSome = true
  else Unquoted f.value.toList

instance (f : FilterClause) : Decidable f.Kept := inferInstanceAs (Decidable (ite _ _ _))

/-- A number of rows. -/
def Number.IsCount : Number → Prop
  | .int n => 0 ≤ n
  | .real _ _ => False

structure BuilderState.Expressible (s : BuilderState) : Prop where
  name : ∀ n ∈ s.nodes, ∀ m ∈ s.nodes, n.name = m.name
  kept : ∀ p ∈ s.filters, p.2.Kept
  limit : s.limit.IsCount

variable {name : String} {f : FilterClause} {o : Operator} {op : Comparison} {ts us : List Token} {v : Text}

/-! ### Tokens of numbers -/

theorem numeral_eq_some : numeral v = some ts ↔ Reads v ts ∧ isNumeral ts = true := by
  rw [numeral, Option.filter_eq_some_iff]
  rfl

/-- Words, names and the symbols of numbers. -/
def NumberSymbol (t : Token) : Prop := (∃ w, t = .word w) ∨ (∃ w, t = .name w) ∨ ∃ c, t = .sym c ∧ (c = '+' ∨ c = '-' ∨ c = '.')

theorem isSign_iff {c : Char} : isSign c = true ↔ c = '+' ∨ c = '-' := by
  simp [isSign]

theorem numberSymbol_of_isUnsigned (h : isUnsigned ts = true) : ts ≠ [] ∧ ∀ t ∈ ts, NumberSymbol t := by
  unfold isUnsigned at h
  split at h <;> simp_all [NumberSymbol, isSign_iff] <;> tauto

theorem numberSymbol_of_isNumeral (h : isNumeral ts = true) : ts ≠ [] ∧ ∀ t ∈ ts, NumberSymbol t := by
  unfold isNumeral at h
  split at h
  · rename_i c ts
    split_ifs at h with hc
    · refine ⟨List.cons_ne_nil _ _, List.forall_mem_cons.2 ⟨.inr (.inr ⟨c, rfl, ?_⟩), (numberSymbol_of_isUnsigned h).2⟩⟩
      rcases isSign_iff.1 hc with hc | hc
      · exact .inl hc
      · exact .inr (.inl hc)
    · exact numberSymbol_of_isUnsigned h
  · exact numberSymbol_of_isUnsigned h

theorem NumberSymbol.plain {t : Token} (h : NumberSymbol t) : t.Plain ∧ ∀ k, t ≠ .kw k := by
  rcases h with ⟨w, rfl⟩ | ⟨w, rfl⟩ | ⟨c, rfl, rfl | rfl | rfl⟩
  all_goals exact ⟨fun _ => rfl, nofun⟩

theorem NumberSymbol.beginsValue {t : Token} (h : NumberSymbol t) : BeginsValue t := by
  intro c hc
  rcases h with ⟨w, rfl⟩ | ⟨w, rfl⟩ | ⟨d, rfl, rfl | rfl | rfl⟩
  · nofun
  · nofun
  all_goals
    rintro heq
    cases heq
    exact absurd hc (by decide)

theorem operand_of_isNumeral (h : isNumeral ts = true) : operand ts = .literal ts := by
  obtain ⟨-, hts⟩ := numberSymbol_of_isNumeral h
  unfold operand
  split
  · exact absurd (hts _ List.mem_cons_self) (by simp [NumberSymbol])
  · exact absurd (hts _ List.mem_cons_self) (by simp [NumberSymbol])
  · exact absurd (hts _ List.mem_cons_self) (by simp [NumberSymbol])
  · exact absurd (hts _ List.mem_cons_self) (by simp [NumberSymbol])
  · rfl

theorem operand_literal {t : Token} (h : isNumeral (t :: ts) = true) :
    BeginsValue t ∧ (∀ u ∈ t :: ts, OfValue u) ∧ operand (t :: ts) = .literal (t :: ts) := by
  have hsymbols := (numberSymbol_of_isNumeral h).2
  refine ⟨(hsymbols t List.mem_cons_self).beginsValue, fun u hu => ?_, operand_of_isNumeral h⟩
  obtain ⟨hplain, hkw⟩ := (hsymbols u hu).plain
  exact ⟨hplain, fun k hk => absurd hk (hkw k)⟩

theorem isScope_compare {x key : Text} {rhs : Operand} (h : ∀ p, rhs ≠ .param p) :
    isScope (.compare x key op rhs) = false := by
  cases op with
  | eq =>
    cases rhs with
    | param p => exact absurd rfl (h p)
    | _ => rfl
  | _ => rfl

/-! ### Texts of filters -/

theorem filterOps_spec : ∀ p ∈ filterOps, filterOps.lookup p.1 = some p.2 ∧
    ((p.1 = "IS NULL" ∨ p.1 = "IS NOT NULL") ↔ (p.2 = .isNull false ∨ p.2 = .isNull true)) ∧
    ((p.1 = "CONTAINS" ∨ p.1 = "STARTS WITH") ↔ (p.2 = .compare .contains ∨ p.2 = .compare .startsWith)) := by
  decide

namespace FilterClause

/-- The text of a clause up to its value. -/
def left (name : String) (f : FilterClause) : Text :=
  name.toList ++ '.' :: f.field.toList ++ ' ' :: f.op.toList

/-- A clause ends behind its operator, has its value between quotes, or has it as a boolean or a number. -/
theorem clause_cases (hfield : f.field ≠ "") (hop : f.op ∈ filterOps.map (·.1)) :
    (∃ negated, f.operator? = some (.isNull negated) ∧ f.Kept ∧ ∀ name, f.clause name = some (f.left name)) ∨
    ∃ op, f.operator? = some (.compare op) ∧
      ((f.operand op = some (.str f.value.toList) ∧ (f.Kept ↔ Unquoted f.value.toList) ∧
        ∀ name, f.clause name = some (f.left name ++ ' ' :: '\'' :: (f.value.toList ++ ['\'']))) ∨
      ((∀ name, f.clause name = some (f.left name ++ ' ' :: f.value.toList)) ∧
        ((f.Kept ∧ (f.value = "true" ∧ f.operand op = some (.bool true) ∨
          f.value = "false" ∧ f.operand op = some (.bool false))) ∨
        (f.Kept ↔ (numeral f.value.toList).isSome) ∧ isNumeric f.value.toList = true ∧
          f.operand op = (numeral f.value.toList).map .literal))) := by
  obtain ⟨⟨w, o⟩, hmem, hw⟩ := List.mem_map.1 hop
  obtain ⟨hlookup, hnull, htext⟩ := filterOps_spec _ hmem
  obtain rfl : w = f.op := hw
  have hclause : ∀ name, f.clause name = _ := fun name => by rw [clause, if_neg hfield]
  have hKept : f.Kept ↔ ite _ _ _ := Iff.rfl
  cases o with
  | isNull negated =>
    have hop' : f.op = "IS NULL" ∨ f.op = "IS NOT NULL" := hnull.2 (by cases negated <;> simp)
    refine .inl ⟨negated, hlookup, hKept.2 (by rw [if_pos hop']; trivial), fun name => ?_⟩
    rw [hclause, if_pos hop']
    rfl
  | compare op =>
    have hop' : ¬ (f.op = "IS NULL" ∨ f.op = "IS NOT NULL") := fun h => by simpa using hnull.1 h
    rw [if_neg hop'] at hKept
    refine .inr ⟨op, hlookup, ?_⟩
    by_cases hcontains : f.op = "CONTAINS" ∨ f.op = "STARTS WITH"
    · have hcomp : op = .contains ∨ op = .startsWith := by simpa using htext.1 hcontains
      rw [if_pos hcontains] at hKept
      refine .inl ⟨if_pos hcomp, hKept, fun name => ?_⟩
      rw [hclause, if_neg hop', if_pos hcontains, List.append_assoc _ f.value.toList, List.append_assoc]
      rfl
    have hcomp : ¬ (op = .contains ∨ op = .startsWith) := fun h => hcontains (htext.2 (by simpa using h))
    rw [if_neg hcontains] at hKept
    have hoperand : f.operand op = ite _ _ _ := if_neg hcomp
    by_cases hbool : f.value = "true" ∨ f.value = "false"
    · rw [if_pos hbool] at hKept
      refine .inr ⟨fun name => ?_, .inl ⟨hKept.2 trivial, ?_⟩⟩
      · rw [hclause, if_neg hop', if_neg hcontains, if_pos (hbool.elim .inl fun h => .inr (.inl h))]
        rfl
      · rcases hbool with hv | hv
        · exact .inl ⟨hv, by rw [hoperand, if_pos hv]⟩
        · exact .inr ⟨hv, by rw [hoperand, if_neg (by rw [hv]; decide), if_pos hv]⟩
    have htrue : f.value ≠ "true" := fun h => hbool (.inl h)
    have hfalse : f.value ≠ "false" := fun h => hbool (.inr h)
    rw [if_neg hbool] at hKept
    rw [if_neg htrue, if_neg hfalse] at hoperand
    by_cases hnumeric : isNumeric f.value.toList = true
    · rw [if_pos hnumeric] at hKept hoperand
      refine .inr ⟨fun name => ?_, .inr ⟨hKept, hnumeric, hoperand⟩⟩
      rw [hclause, if_neg hop', if_neg hcontains, if_pos (.inr (.inr hnumeric))]
      rfl
    · have hplain : ¬ (f.value = "true" ∨ f.value = "false" ∨ isNumeric f.value.toList = true) := fun h =>
        h.elim htrue fun h => h.elim hfalse hnumeric
      rw [if_neg hnumeric] at hKept hoperand
      refine .inl ⟨hoperand, hKept, fun name => ?_⟩
      rw [hclause, if_neg hop', if_neg hcontains, if_neg hplain, List.append_assoc _ f.value.toList,
        List.append_assoc]
      rfl

end FilterClause

/-! ### Tokens of filters -/

def Operator.tokens : Operator → List Token
  | .compare op => op.tokens
  | .isNull false => [.kw .is, .kw .null]
  | .isNull true => [.kw .is, .kw .not, .kw .null]

theorem reads_op : ∀ p ∈ filterOps, Reads p.1.toList p.2.tokens := by decide

namespace FilterClause

theorem meaning_isNull {negated : Bool} (ho : f.operator? = some (.isNull negated)) :
    f.meaning name = some (.isNull name.toList f.field.toList negated) := by
  rw [meaning, ho]
  rfl

theorem meaning_compare {rhs : Operand} (ho : f.operator? = some (.compare op)) (h : f.operand op = some rhs) :
    f.meaning name = some (.compare name.toList f.field.toList op rhs) := by
  rw [meaning, ho]
  exact congrArg (Option.map _) h

section Tokens

variable (hname : IsVar name.toList) (hfield : IsName f.field.toList)
include hname hfield

theorem reads_left (ho : f.operator? = some o) (hop : f.op ∈ filterOps.map (·.1)) :
    Reads (f.left name) (.word name.toList :: .sym '.' :: .name f.field.toList :: o.tokens) := by
  have hspace : Reads (' ' :: f.op.toList) o.tokens := by
    obtain ⟨⟨w, o'⟩, hmem, hw⟩ := List.mem_map.1 hop
    obtain rfl : w = f.op := hw
    obtain rfl : o' = o := Option.some.inj ((filterOps_spec _ hmem).1.symm.trans ho)
    exact (reads_op _ hmem).after_code (a := [' ']) rfl
  have hrest := (reads_name (c := '.') rfl hfield).trans rfl hspace
  have hall := (reads_var hname).trans rfl hrest
  rw [left, List.append_assoc]
  exact hall

theorem conjunct_isNull {negated : Bool} (ho : f.operator? = some (.isNull negated)) (hop : f.op ∈ filterOps.map (·.1)) :
    Conjunct (f.left name) (.word name.toList :: .sym '.' :: .name f.field.toList :: (Operator.isNull negated).tokens)
      (.isNull name.toList f.field.toList negated) where
  reads := reads_left hname hfield ho hop
  isAtom := .of_quiet (by cases negated <;> simp [Operator.tokens, Token.Plain, Token.depth])
  free := by cases negated <;> rfl
  head := by simp
  parse := by
    rw [parseAtom_property hname.number hfield.number]
    cases negated <;> rfl

/-- A clause whose value is kept says what its filter means. -/
theorem exists_conjunct (hop : f.op ∈ filterOps.map (·.1)) (hkept : f.Kept) :
    ∃ t ts a, f.clause name = some t ∧ Conjunct t ts a ∧ f.meaning name = some a ∧ isScope a = false := by
  have hne : f.field ≠ "" := fun h => hfield.ne (by rw [h]; rfl)
  have hstr : ∀ s, OfValue (.str s) := fun s => ⟨fun _ => rfl, nofun⟩
  have hbool : ∀ b : Bool, OfValue (.kw (if b then .true else .false)) := fun b => by
    cases b <;> exact ⟨fun _ => rfl, by simp⟩
  rcases clause_cases hne hop with ⟨negated, ho, -, hclause⟩ | ⟨op, ho, ⟨hoperand, hiff, hclause⟩ | ⟨hclause, hvalue⟩⟩
  · exact ⟨_, _, _, hclause name, conjunct_isNull hname hfield ho hop, meaning_isNull ho, rfl⟩
  · have hv : Reads ('\'' :: (f.value.toList ++ ['\''])) [.str f.value.toList] :=
      reads_of_code (scan_plain_literal (.inl rfl) (hiff.1 hkept).forall)
    have hconjunct := conjunct_compare hname.number hfield.number (reads_left hname hfield ho hop) hv nofun
      (List.forall_mem_singleton.2 (hstr _))
    exact ⟨_, _, _, hclause name, hconjunct, meaning_compare ho hoperand, isScope_compare nofun⟩
  · rcases hvalue with ⟨-, ⟨hv, hoperand⟩ | ⟨hv, hoperand⟩⟩ | ⟨hiff, -, hoperand⟩
    · have hreads : Reads f.value.toList [.kw .true] := by rw [hv]; decide
      have hconjunct := conjunct_compare hname.number hfield.number (reads_left hname hfield ho hop) hreads nofun
        (List.forall_mem_singleton.2 (hbool true))
      exact ⟨_, _, _, hclause name, hconjunct, meaning_compare ho hoperand, isScope_compare nofun⟩
    · have hreads : Reads f.value.toList [.kw .false] := by rw [hv]; decide
      have hconjunct := conjunct_compare hname.number hfield.number (reads_left hname hfield ho hop) hreads nofun
        (List.forall_mem_singleton.2 (hbool false))
      exact ⟨_, _, _, hclause name, hconjunct, meaning_compare ho hoperand, isScope_compare nofun⟩
    · obtain ⟨ts, hts⟩ := Option.isSome_iff_exists.1 (hiff.1 hkept)
      obtain ⟨hreads, hnumeral⟩ := numeral_eq_some.1 hts
      obtain ⟨t, ts, rfl⟩ := List.exists_cons_of_ne_nil (numberSymbol_of_isNumeral hnumeral).1
      obtain ⟨hbegin, hvalues, hliteral⟩ := operand_literal hnumeral
      have hconjunct := conjunct_compare hname.number hfield.number (reads_left hname hfield ho hop) hreads hbegin hvalues
      rw [hliteral] at hconjunct
      rw [hts] at hoperand
      exact ⟨_, _, _, hclause name, hconjunct, meaning_compare ho hoperand, isScope_compare nofun⟩

end Tokens

end FilterClause

/-! ### Characters of numbers -/

theorem unquoted_trim {v : Text} (h : Unquoted (trim v)) : Unquoted v := by
  have hsplit : ∀ t : Text, Unquoted (t.dropWhile isBlank) → Unquoted t := fun t ht => by
    have hblank : Unquoted (t.takeWhile isBlank) := unquoted_of_all List.all_takeWhile (by decide) (by decide)
    rw [← List.takeWhile_append_dropWhile (p := isBlank) (l := t)]
    exact unquoted_append.2 ⟨hblank, ht⟩
  have hreverse : ∀ t : Text, Unquoted t.reverse → Unquoted t := fun t ht => by
    simpa [Unquoted] using ht
  exact hsplit v (hreverse _ (hsplit _ (hreverse _ h)))

theorem unquoted_isDigits {w : Text} (h : w.all Char.isDigit = true) : Unquoted w := unquoted_of_all h rfl rfl

theorem unquoted_isMantissa {v : Text} (h : isMantissa v = true) : Unquoted v := by
  have hdigits : Unquoted (v.takeWhile Char.isDigit) := unquoted_isDigits List.all_takeWhile
  rw [← List.takeWhile_append_dropWhile (p := Char.isDigit) (l := v)]
  refine unquoted_append.2 ⟨hdigits, ?_⟩
  unfold isMantissa at h
  dsimp only at h
  split at h
  · rename_i heq
    rw [heq]
    exact .nil
  · rename_i fraction heq
    rw [heq]
    rw [Bool.and_eq_true] at h
    exact unquoted_cons.2 ⟨by decide, unquoted_isDigits h.1⟩
  · cases h

theorem unquoted_unsigned {v : Text} (h : Unquoted (unsigned v)) : Unquoted v := by
  unfold unsigned at h
  split at h
  · exact unquoted_cons.2 ⟨by decide, h⟩
  · exact unquoted_cons.2 ⟨by decide, h⟩
  · exact h

theorem unquoted_isDecimal {v : Text} (h : isDecimal v = true) : Unquoted v := by
  unfold isDecimal at h
  rw [Bool.or_eq_true] at h
  rcases h with h | h
  · rw [of_decide_eq_true h]
    decide
  · have hsplit := List.takeWhile_append_dropWhile (p := fun c => c ≠ 'e' && c ≠ 'E') (l := v)
    split at h
    · exact unquoted_isMantissa h
    · rename_i c exponent heq
      simp only [Bool.and_eq_true] at h
      have hc : c = 'e' ∨ c = 'E' := by
        have hhead := List.head?_dropWhile_not (fun c => c ≠ 'e' && c ≠ 'E') v
        rw [heq] at hhead
        simpa [or_iff_not_imp_left] using hhead
      rw [← hsplit, heq]
      refine unquoted_append.2 ⟨unquoted_isMantissa h.1.1, unquoted_cons.2 ⟨?_, unquoted_unsigned (unquoted_isDigits h.2)⟩⟩
      rcases hc with rfl | rfl <;> decide

theorem unquoted_isNonDecimal {v : Text} (h : isNonDecimal v = true) : Unquoted v := by
  unfold isNonDecimal at h
  split at h
  · rename_i base digits
    rw [Bool.and_eq_true] at h
    have hbase : Unquoted digits ∧ base ≠ '\'' ∧ base ≠ '\\' := by
      obtain ⟨-, h⟩ := h
      split_ifs at h with hx ho hb
      · exact ⟨unquoted_of_all h rfl rfl, by rcases hx with rfl | rfl <;> decide⟩
      · exact ⟨unquoted_of_all h (by decide) (by decide), by rcases ho with rfl | rfl <;> decide⟩
      · exact ⟨unquoted_of_all h (by decide) (by decide), by rcases hb with rfl | rfl <;> decide⟩
    exact unquoted_cons.2 ⟨by decide, unquoted_cons.2 ⟨hbase.2, hbase.1⟩⟩
  · cases h

/-- A number of the page holds no quote. -/
theorem unquoted_isNumeric {v : Text} (h : isNumeric v = true) : Unquoted v := by
  refine unquoted_trim ?_
  simp only [isNumeric, Bool.or_eq_true, decide_eq_true_eq] at h
  rcases h with (h | h) | h
  · rw [h]
    exact .nil
  · exact unquoted_isNonDecimal h
  · exact unquoted_unsigned (unquoted_isDecimal h)

/-! ### The limit -/

theorem lex_limit (t : Text) : lex ("\nLIMIT ".toList ++ t) = (lex t).map (.kw .limit :: ·) := by
  have hlimit : scan .code "\nLIMIT ".toList = ([.kw .limit], .code) := by decide
  exact lex_append_of_code hlimit

theorem isDigit_iff {c : Char} : JsonText.isDigit c = true ↔ c.isDigit = true := by
  simp only [JsonText.isDigit, Char.isDigit, Bool.and_eq_true, decide_eq_true_iff]
  rfl

theorem not_digits_of_minus {t l : Text} : lex ('-' :: t) ≠ some [.word l] := by
  intro h
  have hminus : lex ('-' :: t) = (lex t).map (.sym '-' :: ·) := lex_append_of_code (a := ['-']) rfl
  rw [hminus] at h
  obtain ⟨us, -, heq⟩ := Option.map_eq_some_iff.1 h
  cases (List.cons.inj heq).1

theorem digits_of_intPart {s ds rest : Text} (h : JsonText.intPart s = some (ds, rest)) :
    ds ≠ [] ∧ ∀ c ∈ ds, c.isDigit = true := by
  cases s with
  | nil => cases h
  | cons d s =>
    rw [JsonText.intPart] at h
    split_ifs at h with hzero hdigit <;> cases h
    · rw [hzero]
      exact ⟨List.cons_ne_nil _ _, List.forall_mem_singleton.2 rfl⟩
    · refine ⟨List.cons_ne_nil _ _, List.forall_mem_cons.2 ⟨isDigit_iff.1 hdigit, fun c hc => ?_⟩⟩
      exact isDigit_iff.1 (List.mem_takeWhile_imp hc)

theorem signPart_minus (s : Text) : (JsonText.signPart ['-'] s).1 = [] ∨ (JsonText.signPart ['-'] s).1 = ['-'] := by
  cases s with
  | nil => exact .inl rfl
  | cons d s =>
    rw [JsonText.signPart]
    split_ifs with hd
    · exact .inr (congrArg (fun c => [c]) (List.mem_singleton.1 hd))
    · exact .inl rfl

theorem fracPart_point (s : Text) : (JsonText.fracPart s).1 = [] ∨ ∃ t, (JsonText.fracPart s).1 = '.' :: t := by
  cases s with
  | nil => exact .inl rfl
  | cons d s =>
    rw [JsonText.fracPart]
    split_ifs with hd
    · exact .inr ⟨_, by rw [hd.1]⟩
    · exact .inl rfl

theorem expPart_letter (s : Text) :
    (JsonText.expPart s).1 = [] ∨ ∃ c t, (c = 'e' ∨ c = 'E') ∧ (JsonText.expPart s).1 = c :: t := by
  cases s with
  | nil => exact .inl rfl
  | cons d s =>
    simp only [JsonText.expPart]
    split_ifs with hd
    · exact .inr ⟨d, _, hd.1, rfl⟩
    · exact .inl rfl

/-- A fraction or an exponent is no number of rows. -/
theorem not_digits_of_real {text : String} (h : JsonText.number text.toList = some (.real text, [])) {l : Text}
    (hlex : lex text.toList = some [.word l]) : ∃ d ∈ l, d.isDigit = false := by
  simp only [JsonText.number] at h
  obtain ⟨⟨ds, s⟩, hint, h⟩ := Option.map_eq_some_iff.1 h
  dsimp only at h
  by_cases hplain : (JsonText.fracPart s).1 = [] ∧ (JsonText.expPart (JsonText.fracPart s).2).1 = []
  · rw [if_pos hplain] at h
    cases h
  rw [if_neg hplain] at h
  have htext := congrArg String.toList (Json.real.inj (Prod.mk.inj h).1)
  rw [String.toList_ofList] at htext
  obtain ⟨hne, hdigits⟩ := digits_of_intPart hint
  have hletter : ∀ c, c = 'e' ∨ c = 'E' → isWordChar c = true ∧ c.isDigit = false := by
    rintro c (rfl | rfl) <;> exact ⟨rfl, rfl⟩
  rcases signPart_minus text.toList with hsign | hsign <;> rw [hsign] at htext
  · rw [List.nil_append] at htext
    rcases fracPart_point s with hfrac | ⟨t, hfrac⟩
    · rcases expPart_letter (JsonText.fracPart s).2 with hexp | ⟨c, t, hc, hexp⟩
      · exact absurd ⟨hfrac, hexp⟩ hplain
      · rw [hfrac, hexp, List.append_nil] at htext
        rw [← htext] at hlex
        exact lex_digits_append hne hdigits (.inr (hletter c hc).1) (hletter c hc).2 hlex
    · rw [hfrac, List.append_assoc, List.cons_append] at htext
      rw [← htext] at hlex
      exact lex_digits_append hne hdigits (.inl rfl) rfl hlex
  · rw [← htext] at hlex
    exact absurd hlex not_digits_of_minus

theorem limitText_int (n : ℤ) :
    (Number.int n).limitText = if n = 0 then [] else "\nLIMIT ".toList ++ JsonText.intText n := rfl

theorem limitText_real {text : String} (number : JsonText.number text.toList = some (.real text, [])) :
    (Number.real text number).limitText = "\nLIMIT ".toList ++ text.toList := rfl

theorem limit_iff (n : Number) : (∃ ls, lex n.limitText = some ls ∧ IsLimit ls) ↔ n.IsCount := by
  cases n with
  | int n =>
    rw [limitText_int, Number.IsCount]
    split_ifs with hn
    · exact iff_of_true ⟨[], rfl, .inl rfl⟩ hn.ge
    rw [lex_limit, JsonText.intText]
    constructor
    · rintro ⟨ls, hls, hlimit⟩
      by_contra hneg
      rw [if_pos (not_le.1 hneg)] at hls
      obtain ⟨us, hus, rfl⟩ := Option.map_eq_some_iff.1 hls
      rcases hlimit with hlimit | ⟨l, hl, -⟩
      · cases hlimit
      · rw [(List.cons.inj hl).2] at hus
        exact not_digits_of_minus hus
    · intro hpos
      have hdigits : ∀ c ∈ Nat.toDigits 10 n.natAbs, c.isDigit = true := fun c hc =>
        Nat.isDigit_of_mem_toDigits (by decide) (by decide) hc
      rw [if_neg (not_lt.2 hpos), List.nil_append, (reads_digits Nat.toDigits_ne_nil hdigits).lex]
      exact ⟨_, rfl, .inr ⟨_, rfl, List.all_eq_true.2 hdigits⟩⟩
  | real text number =>
    refine iff_of_false ?_ id
    rintro ⟨ls, hls, hlimit⟩
    rw [limitText_real, lex_limit] at hls
    obtain ⟨us, hus, rfl⟩ := Option.map_eq_some_iff.1 hls
    rcases hlimit with hlimit | ⟨l, hl, hall⟩
    · cases hlimit
    · rw [(List.cons.inj hl).2] at hus
      obtain ⟨d, hd, hdigit⟩ := not_digits_of_real number hus
      rw [List.all_eq_true.1 hall d hd] at hdigit
      cases hdigit

/-! ### The parts of the text -/

namespace FilterClause

/-- The text of the clause of a filter with a field. -/
def text (p : String × FilterClause) : Text := (p.2.clause p.1).getD []

def tokens (p : String × FilterClause) : List Token := (tokensOf (text p)).getD []

/-- The filter stands on a node with a name, has a field and an operator of the page. -/
structure WellNamed (p : String × FilterClause) : Prop where
  name : IsVar p.1.toList
  field : IsName p.2.field.toList
  op : p.2.op ∈ filterOps.map (·.1)

theorem kept_conjunct {p : String × FilterClause} (h : WellNamed p) (hkept : p.2.Kept) :
    ∃ a, p.2.meaning p.1 = some a ∧ Conjunct (text p) (tokens p) a ∧ isScope a = false := by
  obtain ⟨t, ts, a, ht, hconjunct, ha, hscope⟩ := exists_conjunct h.name h.field h.op hkept
  have htext : text p = t := by rw [text, ht]; rfl
  have htokens : tokens p = ts := by
    rw [tokens, htext, reads_iff.1 hconjunct.reads]
    rfl
  exact ⟨a, ha, by rwa [htext, htokens], hscope⟩

end FilterClause

namespace BuilderState

variable {s : BuilderState}

def pieces (s : BuilderState) : List Piece :=
  s.nodes.map (fun n => .node n.name.toList n.type.toList) ++
    s.relationships.map fun r => .link r.source.toList r.type.toList r.directed r.target.toList

/-- The text that names the tenant, and the clauses of the filters, with their tokens. -/
def conjuncts (first : NodeClause) (filters : List (String × FilterClause)) : List (Text × List Token) :=
  (first.name.toList ++ ".tenant_id = $tid".toList,
    [.word first.name.toList, .sym '.', .name "tenant_id".toList, .sym '=', .sym '$', .name "tid".toList]) ::
  filters.map fun p => (FilterClause.text p, FilterClause.tokens p)

theorem clauses_eq (n : NodeClause) :
    n.clauses = (n.filters.filter (·.field ≠ "")).map fun f => FilterClause.text (n.name, f) := by
  rw [NodeClause.clauses]
  induction n.filters with
  | nil => rfl
  | cons f fs ih =>
    rw [List.filterMap_cons, List.filter_cons]
    by_cases hf : f.field = ""
    · have hnone : f.clause n.name = none := if_pos hf
      rw [hnone, if_neg (by simpa using hf), ih]
    · obtain ⟨t, ht⟩ : ∃ t, f.clause n.name = some t := by
        rw [FilterClause.clause, if_neg hf]
        split_ifs <;> exact ⟨_, rfl⟩
      rw [ht, if_pos (by simpa using hf), List.map_cons, ih, FilterClause.text, ht]
      rfl

theorem clauses_flatMap (s : BuilderState) : s.nodes.flatMap (·.clauses) = s.filters.map FilterClause.text := by
  rw [filters, List.map_flatMap]
  refine List.flatMap_congr fun n _ => ?_
  rw [clauses_eq, List.map_map]
  rfl

theorem patterns_eq (s : BuilderState) :
    s.nodes.map (·.pattern) ++ s.relationships.map (·.pattern) = s.pieces.map Piece.text := by
  rw [pieces, List.map_append, List.map_map, List.map_map]
  congr 1
  · refine List.map_congr_left fun n _ => ?_
    simp [NodeClause.pattern, Piece.text]
  · refine List.map_congr_left fun r _ => ?_
    rw [RelationshipClause.pattern, RelationshipClause.arrow, Function.comp_apply, Piece.text]
    cases r.directed <;> simp

/-- The text behind the WHERE clause. -/
def ending (s : BuilderState) : Text :=
  "\nRETURN ".toList ++ List.intercalate ", ".toList (s.nodes.map (·.name.toList)) ++ s.limit.limitText

theorem buildCypher_eq {first : NodeClause} {rest : List NodeClause} (h : s.nodes = first :: rest) :
    buildCypher s = "MATCH ".toList ++ List.intercalate ", ".toList (s.pieces.map Piece.text) ++ "\nWHERE ".toList ++
      List.intercalate "\n  AND ".toList ((conjuncts first s.filters).map (·.1)) ++ s.ending := by
  have hdef : buildCypher s = "MATCH ".toList ++ List.intercalate ", ".toList
      (s.nodes.map (·.pattern) ++ s.relationships.map (·.pattern)) ++ "\nWHERE ".toList ++
      List.intercalate "\n  AND ".toList
        ((first.name.toList ++ ".tenant_id = $tid".toList) :: s.nodes.flatMap (·.clauses)) ++ "\nRETURN ".toList ++
      List.intercalate ", ".toList (s.nodes.map (·.name.toList)) ++ s.limit.limitText := by
    unfold buildCypher
    rw [h]
  have hconjuncts : (conjuncts first s.filters).map (·.1) =
      (first.name.toList ++ ".tenant_id = $tid".toList) :: s.filters.map FilterClause.text := by
    rw [conjuncts, List.map_cons, List.map_map]
    rfl
  have hending : s.ending = "\nRETURN ".toList ++
      (List.intercalate ", ".toList (s.nodes.map (·.name.toList)) ++ s.limit.limitText) :=
    List.append_assoc ..
  rw [hdef, clauses_flatMap, patterns_eq, hconjuncts, hending]
  simp only [List.append_assoc]

/-! ### The tokens of the text -/

variable {first : NodeClause} {rest : List NodeClause} {filters : List (String × FilterClause)} {p : String × FilterClause}

theorem WellNamed.filter (h : s.WellNamed) (hp : p ∈ s.filters) : FilterClause.WellNamed p := by
  obtain ⟨hfield, hop⟩ := h.filters p hp
  obtain ⟨n, hn, hp⟩ := List.mem_flatMap.1 hp
  obtain ⟨f, -, rfl⟩ := List.mem_map.1 hp
  exact ⟨(h.nodes n hn).1, hfield, hop⟩

theorem WellNamed.pieces (h : s.WellNamed) : ∀ p ∈ s.pieces, p.Valid := by
  intro p hp
  rcases List.mem_append.1 hp with hp | hp
  · obtain ⟨n, hn, rfl⟩ := List.mem_map.1 hp
    exact h.nodes n hn
  · obtain ⟨r, hr, rfl⟩ := List.mem_map.1 hp
    exact h.relationships r hr

def patternTokens (s : BuilderState) : List Token := List.intercalate [.sym ','] (s.pieces.map Piece.tokens)

/-- The variables that are returned. -/
def returned (s : BuilderState) : List Text := s.nodes.map (·.name.toList)

theorem scan_head (h : s.WellNamed) :
    scan .code ("MATCH ".toList ++ List.intercalate ", ".toList (s.pieces.map Piece.text) ++ "\nWHERE ".toList) =
      (.kw .match :: s.patternTokens ++ [.kw .where], .code) := by
  have hmatch : scan .code "MATCH ".toList = ([.kw .match], .code) := by decide
  have hpieces : Reads (List.intercalate ", ".toList (s.pieces.map Piece.text)) s.patternTokens :=
    reads_intercalate _ _ ',' [' '] rfl rfl fun p hp => reads_piece (h.pieces p hp)
  have hwhere : scan .code ('\n' :: "WHERE ".toList) = ([.kw .where], .code) := by decide
  have htext : "\nWHERE ".toList = '\n' :: "WHERE ".toList := by decide
  rw [List.append_assoc, scan_append_of_code hmatch, htext, hpieces.append rfl, hwhere]
  rfl

theorem reads_tenant (hfirst : IsVar first.name.toList) : Conjunct (first.name.toList ++ ".tenant_id = $tid".toList)
    [.word first.name.toList, .sym '.', .name "tenant_id".toList, .sym '=', .sym '$', .name "tid".toList]
    (scopeAtom first.name.toList) where
  reads := (reads_var hfirst).trans (c := '.') (b := "tenant_id = $tid".toList) rfl (by decide)
  isAtom := .of_quiet (by simp [Token.Plain, Token.depth])
  free := rfl
  head := by simp
  parse := by
    rw [parseAtom_property hfirst.number (by decide)]
    rfl

/-- The clauses of filters whose values are kept, behind the text that names the tenant. -/
theorem conjuncts_spec (hfirst : IsVar first.name.toList) (h : ∀ p ∈ filters, FilterClause.WellNamed p ∧ p.2.Kept) :
    (∀ c ∈ conjuncts first filters, ∃ a, Conjunct c.1 c.2 a) ∧
      ∃ atoms, ((conjuncts first filters).map (·.2)).map parseAtom = scopeAtom first.name.toList :: atoms ∧
        filters.mapM (fun p => p.2.meaning p.1) = some atoms ∧ ∀ a ∈ atoms, isScope a = false := by
  have htenant := reads_tenant hfirst
  refine ⟨?_, filters.map fun p => parseAtom (FilterClause.tokens p), ?_, ?_, ?_⟩
  · refine List.forall_mem_cons.2 ⟨⟨_, htenant⟩, fun c hc => ?_⟩
    obtain ⟨p, hp, rfl⟩ := List.mem_map.1 hc
    obtain ⟨a, -, hconjunct, -⟩ := FilterClause.kept_conjunct (h p hp).1 (h p hp).2
    exact ⟨a, hconjunct⟩
  · rw [conjuncts, List.map_cons, List.map_cons, htenant.parse, List.map_map, List.map_map]
    rfl
  · induction filters with
    | nil => rfl
    | cons p filters ih =>
      obtain ⟨hp, hfilters⟩ := List.forall_mem_cons.1 h
      obtain ⟨a, ha, hconjunct, -⟩ := FilterClause.kept_conjunct hp.1 hp.2
      rw [List.mapM_cons, ha, ih hfilters, List.map_cons, hconjunct.parse]
      rfl
  · intro a ha
    obtain ⟨p, hp, rfl⟩ := List.mem_map.1 ha
    obtain ⟨a, -, hconjunct, hscope⟩ := FilterClause.kept_conjunct (h p hp).1 (h p hp).2
    rwa [hconjunct.parse]

theorem limitText_begins (n : Number) : ∀ c ∈ n.limitText.head?, isWordChar c = false := by
  have hbegins : ∀ t : Text, ∀ c ∈ ("\nLIMIT ".toList ++ t).head?, isWordChar c = false := by
    intro t c hc
    obtain rfl := Option.some.inj (show some '\n' = some c from hc)
    decide
  cases n with
  | int n =>
    rw [limitText_int]
    split_ifs with hn
    · nofun
    · exact hbegins _
  | real text number => exact hbegins _

theorem WellNamed.returned (h : s.WellNamed) : ∀ x ∈ s.returned, IsVar x := by
  intro x hx
  obtain ⟨n, hn, rfl⟩ := List.mem_map.1 hx
  exact (h.nodes n hn).1

theorem reads_returned (h : s.WellNamed) :
    Reads (List.intercalate ", ".toList (s.nodes.map (·.name.toList))) (columnTokens s.returned) := by
  have hreads := reads_intercalate id (fun x => [Token.word x]) ',' [' '] rfl rfl fun x hx => reads_var (h.returned x hx)
  rwa [List.map_id] at hreads

def predTokens (first : NodeClause) (filters : List (String × FilterClause)) : List Token :=
  List.intercalate [.kw .and] ((conjuncts first filters).map (·.2))

/-- The text of a state whose values are kept. -/
theorem lex_buildCypher (h : s.WellNamed) (hnodes : s.nodes = first :: rest) (hkept : ∀ p ∈ s.filters, p.2.Kept) :
    lex (buildCypher s) = (lex s.limit.limitText).map fun ls =>
      .kw .match :: s.patternTokens ++ .kw .where :: predTokens first s.filters ++ .kw .return :: (columnTokens s.returned ++ ls) := by
  have hfirst : IsVar first.name.toList := (h.nodes first (by rw [hnodes]; exact List.mem_cons_self)).1
  obtain ⟨hconjuncts, -⟩ := conjuncts_spec hfirst fun p hp => ⟨h.filter hp, hkept p hp⟩
  have hpred : Reads (List.intercalate "\n  AND ".toList ((conjuncts first s.filters).map (·.1)))
      (predTokens first s.filters) :=
    reads_intercalate _ _ '\n' "  AND ".toList rfl (by decide) fun c hc => (hconjuncts c hc).choose_spec.reads
  have hreturn : scan .code ('\n' :: "RETURN ".toList) = ([.kw .return], .code) := by decide
  have htext : "\nRETURN ".toList = '\n' :: "RETURN ".toList := by decide
  have hbody : scan .code (List.intercalate "\n  AND ".toList ((conjuncts first s.filters).map (·.1)) ++
      "\nRETURN ".toList) = (predTokens first s.filters ++ [.kw .return], .code) := by
    rw [htext, hpred.append rfl, hreturn]
  have hending : s.ending = "\nRETURN ".toList ++
      (List.intercalate ", ".toList (s.nodes.map (·.name.toList)) ++ s.limit.limitText) := List.append_assoc ..
  rw [buildCypher_eq hnodes, List.append_assoc, lex_append_of_code (scan_head h), hending, ← List.append_assoc,
    lex_append_of_code hbody, lex_append_of_reads (reads_returned h) (limitText_begins s.limit), Option.map_map,
    Option.map_map]
  congr 1
  funext ls
  simp

/-! ### Kept values -/

theorem limit_tokens {n : Number} {ls : List Token} (h : lex n.limitText = some ls) :
    ls = [] ∨ ∃ ts, ls = .kw .limit :: ts := by
  have hlimit : ∀ t, lex ("\nLIMIT ".toList ++ t) = some ls → ∃ ts, ls = .kw .limit :: ts := fun t ht => by
    rw [lex_limit] at ht
    obtain ⟨ts, -, rfl⟩ := Option.map_eq_some_iff.1 ht
    exact ⟨ts, rfl⟩
  cases n with
  | int n =>
    rw [limitText_int] at h
    split_ifs at h with hn
    · exact .inl (Option.some.inj h).symm
    · exact .inr (hlimit _ h)
  | real text number => exact .inr (hlimit _ h)

theorem pieces_ne_nil (hnodes : s.nodes = first :: rest) : s.pieces ≠ [] := by
  rw [pieces, hnodes]
  simp

theorem endDepth_patternTokens (s : BuilderState) : endDepth 0 s.patternTokens = 0 := by
  refine endDepth_intercalate rfl fun a ha => ?_
  obtain ⟨p, -, rfl⟩ := List.mem_map.1 ha
  exact endDepth_piece p

theorem isScope_scopeAtom (x : Text) : isScope (scopeAtom x) = true := by
  simp [isScope, scopeAtom]

section Kept

variable (h : s.WellNamed) (hnodes : s.nodes = first :: rest)
include h hnodes

theorem isVar_first : IsVar first.name.toList := (h.nodes first (by rw [hnodes]; exact List.mem_cons_self)).1

theorem parse_patternTokens : parsePatterns s.patternTokens = some (s.pieces.map Piece.path) :=
  parsePatterns_pieces (pieces_ne_nil hnodes) h.pieces

theorem isAtom_conjuncts {filters : List (String × FilterClause)}
    (hkept : ∀ p ∈ filters, FilterClause.WellNamed p ∧ p.2.Kept) :
    ∀ a ∈ (conjuncts first filters).map (·.2), Cypher.IsAtom a ∧ clauseFree 0 a = true ∧ a.head? ≠ some (.kw .with) := by
  obtain ⟨hconjuncts, -⟩ := conjuncts_spec (isVar_first h hnodes) hkept
  intro a ha
  obtain ⟨c, hc, rfl⟩ := List.mem_map.1 ha
  obtain ⟨_, hconjunct⟩ := hconjuncts c hc
  exact ⟨hconjunct.isAtom, hconjunct.free, hconjunct.head⟩

/-- Where the values are kept the text is what the state means, for one tenant name and a number of rows. -/
theorem asksFor_of_kept (hkept : ∀ p ∈ s.filters, p.2.Kept) :
    AsksFor s (buildCypher s) ↔ (∀ n ∈ s.nodes, n.name = first.name) ∧ s.limit.IsCount := by
  have hfilters : ∀ p ∈ s.filters, FilterClause.WellNamed p ∧ p.2.Kept := fun p hp => ⟨h.filter hp, hkept p hp⟩
  obtain ⟨-, fatoms, hatoms, hdenotes, hscope⟩ := conjuncts_spec (isVar_first h hnodes) hfilters
  have hparts := isAtom_conjuncts h hnodes hfilters
  have hconjoins : Conjoins (predTokens first s.filters) (scopeAtom first.name.toList :: fatoms) := by
    rw [← hatoms]
    exact .intercalate (by simp [conjuncts]) fun a ha => (hparts a ha).1
  have hpred : clauseFree 0 (predTokens first s.filters) = true :=
    clauseFree_intercalate (fun a ha => ⟨(hparts a ha).1.depth, (hparts a ha).2.1⟩) fun a ha => (hparts a ha).2.2
  have hdepth : endDepth 0 (predTokens first s.filters) = 0 :=
    endDepth_intercalate rfl fun a ha => (hparts a ha).1.depth
  have hparse : ∀ ls, parseStatement (.kw .match :: s.patternTokens ++ .kw .where :: predTokens first s.filters ++
      .kw .return :: (columnTokens s.returned ++ ls)) = Option.map _ _ := fun ls =>
    parseStatement_written (parse_patternTokens h hnodes) (endDepth_patternTokens s) hpred hdepth
  have hreturned : s.returned ≠ [] := by
    rw [returned, hnodes]
    simp
  constructor
  · rintro ⟨q, paths, pred, atoms, hq, hclauses, hconj, hscoped, hfilter⟩
    rw [lex_buildCypher h hnodes hkept] at hq
    obtain ⟨ts, hts, hq⟩ := Option.bind_eq_some_iff.1 hq
    obtain ⟨ls, hls, rfl⟩ := Option.map_eq_some_iff.1 hts
    rw [hparse] at hq
    obtain ⟨p, hp, rfl⟩ := Option.map_eq_some_iff.1 hq
    have hlimit : IsLimit ls := by
      rcases limit_tokens hls with rfl | ⟨ts, rfl⟩
      · exact .inl rfl
      · exact isLimit_of_parseProjection hp
    refine ⟨fun n hn => ?_, (limit_iff _).1 ⟨ls, hls, hlimit⟩⟩
    obtain ⟨limit, hitems⟩ := parseProjection_columnTokens hreturned h.returned hlimit
    rw [hitems] at hp
    obtain rfl := Option.some.inj hp
    cases hclauses
    obtain rfl : atoms = _ := hconj.parts.symm.trans hconjoins.parts
    have hmem := hscoped ⟨n.name.toList, none, n.name.toList⟩
      (List.mem_map.2 ⟨n.name.toList, List.mem_map.2 ⟨n, hn, rfl⟩, rfl⟩)
    rcases List.mem_cons.1 hmem with heq | hmem
    · exact String.toList_inj.1 (Atom.compare.inj heq).1
    · cases hscope _ hmem
  · rintro ⟨hname, hlimit⟩
    obtain ⟨ls, hls, hlimit⟩ := (limit_iff _).2 hlimit
    obtain ⟨limit, hitems⟩ : ∃ limit, parseProjection
        (vars [⟨s.pieces.map Piece.path, some (predTokens first s.filters)⟩]) (columnTokens s.returned ++ ls) =
          some (s.returned.map fun x => ⟨x, none, x⟩, limit) :=
      parseProjection_columnTokens hreturned h.returned hlimit
    refine ⟨⟨[⟨s.pieces.map Piece.path, some (predTokens first s.filters)⟩], s.returned.map fun x => ⟨x, none, x⟩, limit⟩,
      _, _, _, ?_, rfl, hconjoins, ?_, ?_⟩
    · rw [lex_buildCypher h hnodes hkept, hls, Option.map_some, Option.bind_some, hparse, hitems]
      rfl
    · intro it hit
      obtain ⟨x, hx, rfl⟩ := List.mem_map.1 hit
      obtain ⟨n, hn, rfl⟩ := List.mem_map.1 hx
      rw [hname n hn]
      exact List.mem_cons_self
    · have hall : fatoms.filter (fun a => !isScope a) = fatoms :=
        List.filter_eq_self.2 fun a ha => by rw [hscope a ha]; rfl
      rw [hdenotes, List.filter_cons, isScope_scopeAtom, hall]
      rfl

end Kept

/-! ### A value that is not kept -/

theorem unquoted_name {w : Text} (hw : IsName w) : Unquoted w := unquoted_of_all hw.chars (by decide) (by decide)

theorem unquoted_left (hp : FilterClause.WellNamed p) : Unquoted (p.2.left p.1) := by
  have hops : ∀ o ∈ filterOps, Unquoted o.1.toList := by decide
  obtain ⟨o, ho, heq⟩ := List.mem_map.1 hp.op
  have hop : Unquoted p.2.op.toList := heq ▸ hops o ho
  have hname := unquoted_name hp.name.toIsName
  have hfield := unquoted_name hp.field
  refine unquoted_append.2 ⟨unquoted_append.2 ⟨hname, unquoted_cons.2 ⟨by decide, hfield⟩⟩, ?_⟩
  exact unquoted_cons.2 ⟨by decide, hop⟩

/-- Before a quote in the text of a filter stands a blank. -/
theorem trailing_text (hp : FilterClause.WellNamed p) {t : Text} (ht : Trailing t) :
    Trailing (FilterClause.text p ++ t) := by
  have hne : p.2.field ≠ "" := fun h => hp.field.ne (by rw [h]; rfl)
  have hleft := unquoted_left hp
  rcases FilterClause.clause_cases hne hp.op with
    ⟨negated, -, -, hclause⟩ | ⟨op, -, ⟨-, -, hclause⟩ | ⟨hclause, hvalue⟩⟩
  · rw [FilterClause.text, hclause]
    exact hleft.trailing_append ht
  · refine .inr ⟨p.2.left p.1, p.2.value.toList ++ ['\''] ++ t, hleft, ?_⟩
    rw [FilterClause.text, hclause, Option.getD_some]
    simp
  · have hv : Unquoted p.2.value.toList := by
      rcases hvalue with ⟨-, ⟨hv, -⟩ | ⟨hv, -⟩⟩ | ⟨-, hnumeric, -⟩
      · rw [hv]
        decide
      · rw [hv]
        decide
      · exact unquoted_isNumeric hnumeric
    rw [FilterClause.text, hclause]
    exact (unquoted_append.2 ⟨hleft, unquoted_cons.2 ⟨by decide, hv⟩⟩).trailing_append ht

theorem unquoted_limitText (n : Number) : Unquoted n.limitText := by
  have hlimit : Unquoted "\nLIMIT ".toList := by decide
  cases n with
  | int n =>
    have hminus : Unquoted (if n < 0 then ['-'] else []) := by split_ifs <;> decide
    have hdigits : Unquoted (Nat.toDigits 10 n.natAbs) := unquoted_isDigits <| List.all_eq_true.2 fun c hc =>
      Nat.isDigit_of_mem_toDigits (by decide) (by decide) hc
    rw [limitText_int]
    split_ifs
    · exact .nil
    · exact unquoted_append.2 ⟨hlimit, unquoted_append.2 ⟨hminus, hdigits⟩⟩
  | real text number =>
    have hnumber : text.toList.all JsonText.inNumber = true := List.all_eq_true.2 (JsonText.inNumber_of_number number)
    rw [limitText_real]
    exact unquoted_append.2 ⟨hlimit, unquoted_of_all hnumber (by decide) (by decide)⟩

theorem unquoted_ending (h : s.WellNamed) : Unquoted s.ending := by
  have hcomma : Unquoted ", ".toList := by decide
  have hreturn : Unquoted "\nRETURN ".toList := by decide
  have hnames : Unquoted (List.intercalate ", ".toList (s.nodes.map (·.name.toList))) := by
    refine unquoted_of_forall (forall_mem_intercalate hcomma.forall fun a ha => ?_)
    exact (unquoted_name (h.returned a ha).toIsName).forall
  exact unquoted_append.2 ⟨unquoted_append.2 ⟨hreturn, hnames⟩, unquoted_limitText _⟩

theorem trailing_rest (h : s.WellNamed) (hfilters : ∀ p ∈ filters, FilterClause.WellNamed p) :
    Trailing (filters.flatMap (fun p => "\n  AND ".toList ++ FilterClause.text p) ++ s.ending) := by
  have hand : Unquoted "\n  AND ".toList := by decide
  induction filters with
  | nil => exact .inl (unquoted_ending h)
  | cons p filters ih =>
    obtain ⟨hp, hfilters⟩ := List.forall_mem_cons.1 hfilters
    rw [List.flatMap_cons, List.append_assoc, List.append_assoc]
    exact hand.trailing_append (trailing_text hp (ih hfilters))

/-- The clauses up to a value between quotes, and the quote. -/
theorem scan_before (h : s.WellNamed) (hnodes : s.nodes = first :: rest) {pre : List (String × FilterClause)}
    (hpre : ∀ x ∈ pre, FilterClause.WellNamed x ∧ x.2.Kept) (hp : FilterClause.WellNamed p)
    (ho : p.2.operator? = some (.compare op)) :
    scan .code ("MATCH ".toList ++ List.intercalate ", ".toList (s.pieces.map Piece.text) ++ "\nWHERE ".toList ++
      ((conjuncts first pre).flatMap (fun c => c.1 ++ "\n  AND ".toList) ++ (p.2.left p.1 ++ [' ']))) =
    (.kw .match :: s.patternTokens ++ [.kw .where] ++ ((conjuncts first pre).flatMap (fun c => c.2 ++ [.kw .and]) ++
      .word p.1.toList :: .sym '.' :: .name p.2.field.toList :: op.tokens), .code) := by
  obtain ⟨hconjuncts, -⟩ := conjuncts_spec (isVar_first h hnodes) hpre
  have hconj : scan .code ((conjuncts first pre).flatMap fun c => c.1 ++ "\n  AND ".toList) =
      ((conjuncts first pre).flatMap fun c => c.2 ++ [.kw .and], .code) :=
    scan_flatMap (x := '\n') rfl (by decide) fun c hc => (hconjuncts c hc).choose_spec.reads
  have hleft : scan .code (p.2.left p.1 ++ [' ']) =
      (.word p.1.toList :: .sym '.' :: .name p.2.field.toList :: op.tokens, .code) := by
    rw [(FilterClause.reads_left hp.name hp.field ho hp.op).append rfl]
    simp [scan, step, codeStep, isSpace, Operator.tokens]
  rw [scan_append_of_code (scan_head h), scan_append_of_code hconj, hleft]

theorem buildCypher_split {pre post : List (String × FilterClause)} (hnodes : s.nodes = first :: rest)
    (hfilters : s.filters = pre ++ p :: post)
    (hclause : p.2.clause p.1 = some (p.2.left p.1 ++ ' ' :: '\'' :: (p.2.value.toList ++ ['\'']))) :
    buildCypher s = ("MATCH ".toList ++ List.intercalate ", ".toList (s.pieces.map Piece.text) ++ "\nWHERE ".toList ++
      ((conjuncts first pre).flatMap (fun c => c.1 ++ "\n  AND ".toList) ++ (p.2.left p.1 ++ [' ']))) ++
        '\'' :: (p.2.value.toList ++ '\'' ::
          (post.flatMap (fun x => "\n  AND ".toList ++ FilterClause.text x) ++ s.ending)) := by
  have hconjuncts : conjuncts first s.filters = conjuncts first pre ++ (FilterClause.text p, FilterClause.tokens p) ::
      post.map fun x => (FilterClause.text x, FilterClause.tokens x) := by
    rw [hfilters, conjuncts, conjuncts, List.map_append, List.map_cons, List.cons_append]
  have htext : FilterClause.text p = p.2.left p.1 ++ ' ' :: '\'' :: (p.2.value.toList ++ ['\'']) := by
    rw [FilterClause.text, hclause]
    rfl
  rw [buildCypher_eq hnodes, hconjuncts, intercalate_append_cons, htext, List.flatMap_map]
  simp only [List.append_assoc, List.cons_append, List.nil_append]

/-- The atoms of a predicate that has been read up to a literal. -/
theorem atoms_of_literal (h : s.WellNamed) (hnodes : s.nodes = first :: rest) {pre : List (String × FilterClause)}
    (hpre : ∀ x ∈ pre, FilterClause.WellNamed x ∧ x.2.Kept) {x key w : Text} {vs pred : List Token} {q : Statement}
    {paths : List PathPattern} {atoms : List Atom}
    (hq : parseStatement (.kw .match :: s.patternTokens ++ [.kw .where] ++
      ((conjuncts first pre).flatMap (fun c => c.2 ++ [.kw .and]) ++ .word x :: .sym '.' :: .name key :: op.tokens) ++
        .str w :: vs) = some q)
    (hclauses : q.clauses = [⟨paths, some pred⟩]) (hconj : Conjoins pred atoms) :
    ∃ fatoms us more, pre.mapM (fun p => p.2.meaning p.1) = some fatoms ∧ (∀ a ∈ fatoms, isScope a = false) ∧
      atoms = scopeAtom first.name.toList :: fatoms ++ parseAtom (.word x :: .sym '.' :: .name key :: (op.tokens ++ .str w :: us)) :: more := by
  obtain ⟨-, fatoms, hatoms, hdenotes, hscope⟩ := conjuncts_spec (isVar_first h hnodes) hpre
  have hvalues : ∀ u ∈ [Token.str w], OfValue u := List.forall_mem_singleton.2 ⟨fun _ => rfl, nofun⟩
  obtain ⟨b, hb⟩ : ∃ b, b = Token.word x :: .sym '.' :: .name key :: (op.tokens ++ [.str w]) := ⟨_, rfl⟩
  have hatom : Cypher.IsAtom b := hb ▸ isAtom_compare hvalues
  have hfree : clauseFree 0 b = true := hb ▸ clauseFree_compare hvalues
  have hhead : b.head? ≠ some (.kw .with) := by rw [hb]; simp
  have hparts := isAtom_conjuncts h hnodes hpre
  have hall := List.forall_mem_append.2 ⟨hparts, List.forall_mem_singleton.2 ⟨hatom, hfree, hhead⟩⟩
  obtain ⟨us, hus⟩ : ∃ us, us = List.intercalate [.kw .and] ((conjuncts first pre).map (·.2) ++ [b]) := ⟨_, rfl⟩
  have husFree : clauseFree 0 us = true :=
    hus ▸ clauseFree_intercalate (fun c hc => ⟨(hall c hc).1.depth, (hall c hc).2.1⟩) fun c hc => (hall c hc).2.2
  have husDepth : endDepth 0 us = 0 := hus ▸ endDepth_intercalate rfl fun c hc => (hall c hc).1.depth
  have htext := intercalate_append_cons (fun c : Text × List Token => c.2) [.kw .and] (conjuncts first pre) [] ([], b)
  rw [List.map_append, List.map_singleton, List.flatMap_nil, List.append_nil, ← hus] at htext
  have htokens : parseStatement (.kw .match :: s.patternTokens ++ .kw .where :: us ++ vs) = some q := by
    rw [← hq, htext, hb]
    simp
  obtain ⟨vs', rfl⟩ := pred_of_parseStatement (parsePatterns_kw (parse_patternTokens h hnodes)) (endDepth_patternTokens s)
    husFree husDepth htokens hclauses
  rw [hus] at hconj
  obtain ⟨ws, more, rfl⟩ := hconj.of_append (fun c hc => (hparts c hc).1) hatom.depth hatom.and
  refine ⟨fatoms, ws, more, hdenotes, hscope, ?_⟩
  rw [hatoms, hb]
  simp

theorem intercalate_conjuncts (first : NodeClause) (filters : List (String × FilterClause)) :
    List.intercalate "\n  AND ".toList ((conjuncts first filters).map (·.1)) =
      first.name.toList ++ ".tenant_id = $tid".toList ++
        filters.flatMap fun x => "\n  AND ".toList ++ FilterClause.text x := by
  have hall := intercalate_append_cons (fun c : Text × List Token => c.1) "\n  AND ".toList []
    (filters.map fun p => (FilterClause.text p, FilterClause.tokens p))
    (first.name.toList ++ ".tenant_id = $tid".toList,
      [.word first.name.toList, .sym '.', .name "tenant_id".toList, .sym '=', .sym '$', .name "tid".toList])
  rw [List.nil_append, List.flatMap_nil, List.nil_append, List.flatMap_map] at hall
  exact hall

theorem exists_first {α : Type} {P : α → Prop} {l : List α} (h : ¬ ∀ a ∈ l, P a) :
    ∃ pre a post, l = pre ++ a :: post ∧ (∀ x ∈ pre, P x) ∧ ¬ P a := by
  induction l with
  | nil => exact absurd (List.forall_mem_nil P) h
  | cons b l ih =>
    by_cases hb : P b
    · obtain ⟨pre, a, post, rfl, hpre, ha⟩ := ih fun hl => h (List.forall_mem_cons.2 ⟨hb, hl⟩)
      exact ⟨b :: pre, a, post, rfl, List.forall_mem_cons.2 ⟨hb, hpre⟩, ha⟩
    · exact ⟨[], b, l, rfl, List.forall_mem_nil P, hb⟩

/-- What the text asks for has every value as it was entered. -/
theorem kept_of_asksFor (h : s.WellNamed) (hnodes : s.nodes = first :: rest) (hasks : AsksFor s (buildCypher s)) :
    ∀ p ∈ s.filters, p.2.Kept := by
  by_contra hnot
  obtain ⟨pre, p, post, hfilters, hpre, hp⟩ := exists_first hnot
  have hmem : ∀ x ∈ pre ++ p :: post, FilterClause.WellNamed x := fun x hx => h.filter (hfilters ▸ hx)
  obtain ⟨hwpre, hwp, hwpost⟩ : (∀ x ∈ pre, FilterClause.WellNamed x) ∧ FilterClause.WellNamed p ∧
      ∀ x ∈ post, FilterClause.WellNamed x := by
    rw [List.forall_mem_append, List.forall_mem_cons] at hmem
    exact hmem
  have hspec : ∀ x ∈ pre, FilterClause.WellNamed x ∧ x.2.Kept := fun x hx => ⟨hwpre x hx, hpre x hx⟩
  obtain ⟨q, paths, pred, atoms, hq, hclauses, hconj, -, hdenotes⟩ := hasks
  rw [hfilters] at hdenotes
  obtain ⟨l₁, a, l₂, hl₁, ha, -, heq⟩ := mapM_append_cons_eq_some.1 hdenotes
  have hne : p.2.field ≠ "" := fun h => hwp.field.ne (by rw [h]; rfl)
  rcases FilterClause.clause_cases hne hwp.op with
    ⟨negated, -, hkept, -⟩ | ⟨op, ho, ⟨hoperand, hiff, hclause⟩ | ⟨-, ⟨hkept, -⟩ | ⟨hiff, -, hoperand⟩⟩⟩
  · exact hp hkept
  -- between quotes
  · have hvalue : ¬ Unquoted p.2.value.toList := fun hv => hp (hiff.2 hv)
    obtain rfl := Option.some.inj (ha.symm.trans (FilterClause.meaning_compare ho hoperand))
    obtain ⟨ts, hts, hq⟩ := Option.bind_eq_some_iff.1 hq
    rw [buildCypher_split hnodes hfilters (hclause _)] at hts
    obtain ⟨w, vs, rfl, hw⟩ := lex_misread (scan_before h hnodes hspec hwp ho) hvalue (trailing_rest h hwpost) hts
    obtain ⟨fatoms, us, more, hfatoms, hscope, rfl⟩ := atoms_of_literal h hnodes hspec hq hclauses hconj
    obtain rfl := Option.some.inj (hl₁.symm.trans hfatoms)
    have hall : l₁.filter (fun a => !isScope a) = l₁ := List.filter_eq_self.2 fun a ha => by rw [hscope a ha]; rfl
    have hcompare : isScope (.compare p.1.toList p.2.field.toList op (operand (.str w :: us))) = false :=
      isScope_compare (operand_str_cons us).2
    have hbegins : BeginsValue (.str w) := fun c _ => nofun
    rw [parseAtom_property hwp.name.number hwp.field.number, propertyAtom_compare hbegins] at heq
    rw [List.cons_append, List.filter_cons, isScope_scopeAtom, Bool.not_true, if_neg Bool.false_ne_true, List.filter_append,
      hall, List.filter_cons, hcompare, Bool.not_false, if_pos rfl] at heq
    have hoperand' := (Atom.compare.inj (List.cons.inj (List.append_cancel_left heq)).1).2.2.2
    exact hw ((operand_str_cons us).1 _ hoperand')
  · exact hp hkept
  -- a number
  · have hnone : ¬ (numeral p.2.value.toList).isSome := fun hv => hp (hiff.2 hv)
    rw [Option.not_isSome_iff_eq_none] at hnone
    rw [hnone] at hoperand
    rw [FilterClause.meaning, ho, Option.bind_some] at ha
    simp [hoperand] at ha

theorem asksFor_buildCypher (h : s.WellNamed) (hnodes : s.nodes = first :: rest) :
    AsksFor s (buildCypher s) ↔ s.Expressible := by
  have hfirst : first ∈ s.nodes := by rw [hnodes]; exact List.mem_cons_self
  constructor
  · intro hasks
    have hkept := kept_of_asksFor h hnodes hasks
    obtain ⟨hname, hlimit⟩ := (asksFor_of_kept h hnodes hkept).1 hasks
    exact ⟨fun n hn m hm => (hname n hn).trans (hname m hm).symm, hkept, hlimit⟩
  · rintro ⟨hname, hkept, hlimit⟩
    exact (asksFor_of_kept h hnodes hkept).2 ⟨fun n hn => hname n hn first hfirst, hlimit⟩

theorem buildCypher_eq_nil_iff (s : BuilderState) : buildCypher s = [] ↔ s.nodes = [] := by
  rcases hnodes : s.nodes with _ | ⟨first, rest⟩
  · rw [buildCypher, hnodes]
    exact iff_of_true rfl rfl
  · rw [buildCypher_eq hnodes]
    exact iff_of_false nofun (List.cons_ne_nil first rest)

end BuilderState

theorem asksFor_iff (s : BuilderState) (h : s.WellNamed) :
    (buildCypher s = [] ∨ AsksFor s (buildCypher s)) ↔ s.nodes = [] ∨ s.Expressible := by
  rw [s.buildCypher_eq_nil_iff]
  rcases hnodes : s.nodes with _ | ⟨first, rest⟩
  · exact iff_of_true (.inl rfl) (.inl rfl)
  · rw [BuilderState.asksFor_buildCypher h hnodes]

/-- A file with two filters. -/
def report : BuilderState :=
  ⟨[⟨"n0", "File", "f1", [⟨"f0", "name", "CONTAINS", "Q3 report"⟩, ⟨"f1", "size", ">", "1024"⟩]⟩], [], true, .int 50⟩

theorem wellNamed_report : report.WellNamed := ⟨by decide, by decide, by decide⟩

theorem asksFor_report : buildCypher report = [] ∨ AsksFor report (buildCypher report) :=
  (asksFor_iff report wellNamed_report).2 (.inr ⟨by decide, by decide, show (0 : ℤ) ≤ 50 by decide⟩)

/-- Two nodes without a relationship. -/
def pair : BuilderState := ⟨[⟨"n0", "File", "f1", []⟩, ⟨"n1", "Person", "p2", []⟩], [], true, .int 50⟩

/-- A file whose name has a quote. -/
def quoted : BuilderState := ⟨[⟨"n0", "File", "f1", [⟨"f0", "name", "=", "it's"⟩]⟩], [], true, .int 50⟩

theorem not_asksFor : (pair.WellNamed ∧ ¬ (buildCypher pair = [] ∨ AsksFor pair (buildCypher pair))) ∧
    quoted.WellNamed ∧ ¬ (buildCypher quoted = [] ∨ AsksFor quoted (buildCypher quoted)) := by
  have hpair : pair.WellNamed := ⟨by decide, by decide, by decide⟩
  have hquoted : quoted.WellNamed := ⟨by decide, by decide, by decide⟩
  refine ⟨⟨hpair, ?_⟩, hquoted, ?_⟩
  · rw [BuilderState.buildCypher_eq_nil_iff, BuilderState.asksFor_buildCypher hpair rfl]
    rintro (hnil | hexpressible)
    · cases hnil
    · exact absurd (hexpressible.name _ (List.mem_cons_self) _ (List.mem_cons_of_mem _ List.mem_cons_self)) (by decide)
  · rw [BuilderState.buildCypher_eq_nil_iff, BuilderState.asksFor_buildCypher hquoted rfl]
    rintro (hnil | hexpressible)
    · cases hnil
    · exact absurd hexpressible.kept (by decide)

/-! ### The rows -/

section Rows

open PropertyGraph (Graph)

variable {s : BuilderState} {cypher : Text} {R : Reading} {P : Params} {g : Graph} {order : List Row → List Row}
  {rows : List Row} {tid : String}

/-- The rows of a text that asks for what the state means show one tenant only. -/
theorem AsksFor.scoped_rows (h : AsksFor s cypher) (hP : P "tid".toList = some (.str tid)) (horder : ∀ l, ∀ row ∈ order l, row ∈ l)
    (hrows : GraphBackend.sessionRun R order g cypher P = some rows) :
    ∀ row ∈ rows, ∀ cell ∈ row, cell.entity.record.props "tenant_id" = some (.str tid) := by
  obtain ⟨q, paths, pred, atoms, hq, hclauses, hconj, hscoped, -⟩ := h
  obtain ⟨ts, hts, hparse⟩ := Option.bind_eq_some_iff.1 hq
  rw [GraphBackend.sessionRun, hts] at hrows
  simp only [Option.bind_eq_bind, Option.bind_some, hparse, Statement.run] at hrows
  split_ifs at hrows
  obtain rfl := Option.some.inj hrows
  intro row hrow cell hcell
  have hmem : row ∈ (q.answers R P g).map q.row := by
    refine horder _ row ?_
    unfold Statement.page at hrow
    split at hrow
    · exact List.mem_of_mem_take hrow
    · exact hrow
  obtain ⟨b, hb, rfl⟩ := List.mem_map.1 hmem
  obtain ⟨it, hit, hcell⟩ := List.mem_filterMap.1 hcell
  obtain ⟨e, he, rfl⟩ := Option.map_eq_some_iff.1 hcell
  rw [Statement.answers, hclauses, answersFrom, List.mem_flatMap] at hb
  obtain ⟨b', hb', hb⟩ := hb
  obtain rfl := List.mem_singleton.1 hb
  obtain ⟨u, -, rfl, -, -, hholds⟩ := mem_extend.1 hb'
  have htrue := hconj.evalPred.1 (of_decide_eq_true hholds) _ (hscoped it hit)
  rw [scopeAtom, evalAtom, lookup_records, he] at htrue
  simp only [Option.map_some, Option.bind_eq_bind, Option.bind_some, Operand.value, hP] at htrue
  obtain ⟨v, hv, htrue⟩ := Option.bind_eq_some_iff.1 htrue
  rw [String.ofList_toList] at hv
  rw [hv]
  cases v <;> simp_all [compareValues]

/-- The backend runs the text as it is. -/
theorem query_buildCypher (params : Params) (hnodes : s.nodes ≠ []) :
    GraphBackend.query R order g (buildCypher s) params (some tid) =
      GraphBackend.sessionRun R order g (buildCypher s) (GraphBackend.withTid params tid) := by
  have hmentions : GraphBackend.Mentions (buildCypher s) := by
    obtain ⟨first, rest, hnodes⟩ := List.exists_cons_of_ne_nil hnodes
    have htenant : ".tenant_id = $tid".toList = ['.'] ++ "tenant_id".toList ++ " = $tid".toList := by decide
    have hclause : "tenant_id".toList <:+: first.name.toList ++ ".tenant_id = $tid".toList := by
      rw [htenant]
      exact (List.infix_append _ _ _).trans (List.suffix_append _ _).isInfix
    rw [BuilderState.buildCypher_eq hnodes, BuilderState.intercalate_conjuncts]
    refine .inr (hclause.trans ⟨"MATCH ".toList ++ List.intercalate ", ".toList (s.pieces.map Piece.text) ++
      "\nWHERE ".toList, s.filters.flatMap (fun x => "\n  AND ".toList ++ FilterClause.text x) ++ s.ending, ?_⟩)
    simp only [List.append_assoc]
  rw [GraphBackend.query, if_pos hmentions]

end Rows

end Dgraphai.QueryBuilder
