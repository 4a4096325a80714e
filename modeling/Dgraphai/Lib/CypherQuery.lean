import Dgraphai.Lib.CypherText
import Dgraphai.Lib.PropertyGraph

/-!
# Reading queries

The queries `MATCH pattern [WHERE predicate] RETURN [DISTINCT] x [AS y] [SKIP n] [LIMIT n]` whose pattern
is a labelled node or a typed relationship between two. A predicate is split at the operators outside
brackets, from the loosest to the tightest: OR, XOR, AND, NOT. Comparisons of a property are read here;
what else stands between the operators is left to a `Reading`. Truth values are three: `none` is null.
-/

namespace Cypher

open PropertyGraph (Graph Node)

/-! ### Splitting outside brackets -/

/-- The bracket depth after a token. -/
def Token.depth : Token → Nat → Nat
  | .sym c, d =>
    if c = '(' ∨ c = '[' ∨ c = '\x7b' then d + 1
    else if c = ')' ∨ c = ']' ∨ c = '\x7d' then d - 1
    else d
  | _, d => d

def endDepth : Nat → List Token → Nat
  | d, [] => d
  | d, t :: ts => endDepth (t.depth d) ts

def consHead (t : Token) : List (List Token) → List (List Token)
  | [] => [[t]]
  | g :: gs => (t :: g) :: gs

/-- The parts between the occurrences of a keyword outside brackets. -/
def splitAll (k : Keyword) : Nat → List Token → List (List Token)
  | _, [] => [[]]
  | d, t :: ts =>
    if d = 0 ∧ t = .kw k then [] :: splitAll k 0 ts else consHead t (splitAll k (t.depth d) ts)

/-- What stands before and after the first occurrence of a keyword outside brackets. -/
def splitFirst (k : Keyword) : Nat → List Token → Option (List Token × List Token)
  | _, [] => none
  | d, t :: ts =>
    if d = 0 ∧ t = .kw k then some ([], ts)
    else (splitFirst k (t.depth d) ts).map fun p => (t :: p.1, p.2)

/-- A token that neither opens nor closes a bracket. -/
def Token.Plain (t : Token) : Prop := ∀ d, t.depth d = d

variable {k : Keyword} {a b ts : List Token} {d : Nat}

theorem endDepth_append : endDepth d (a ++ b) = endDepth (endDepth d a) b := by
  induction a generalizing d with
  | nil => rfl
  | cons t a ih => exact ih

theorem endDepth_of_plain (h : ∀ t ∈ ts, t.Plain) : endDepth d ts = d := by
  induction ts generalizing d with
  | nil => rfl
  | cons t ts ih =>
    rw [endDepth, h t List.mem_cons_self]
    exact ih fun u hu => h u (List.mem_cons_of_mem t hu)

theorem splitAll_ne_nil : splitAll k d ts ≠ [] := by
  cases ts with
  | nil => simp [splitAll]
  | cons t ts =>
    unfold splitAll
    split_ifs
    · simp
    · cases splitAll k (t.depth d) ts <;> simp [consHead]

theorem consHead_append {t : Token} {l m : List (List Token)} (h : l ≠ []) :
    consHead t (l ++ m) = consHead t l ++ m := by
  cases l with
  | nil => exact absurd rfl h
  | cons g gs => rfl

theorem splitAll_append (h : endDepth d a = 0) :
    splitAll k d (a ++ .kw k :: b) = splitAll k d a ++ splitAll k 0 b := by
  induction a generalizing d with
  | nil =>
    have hd : d = 0 := h
    show splitAll k d (.kw k :: b) = [] :: splitAll k 0 b
    exact if_pos ⟨hd, rfl⟩
  | cons t a ih =>
    rw [List.cons_append, splitAll, splitAll]
    split_ifs with hk
    · have hdepth : endDepth 0 a = 0 := by
        have hstep : endDepth (t.depth d) a = 0 := h
        rw [hk.1, hk.2] at hstep
        exact hstep
      rw [ih hdepth]
      rfl
    · rw [ih h, consHead_append splitAll_ne_nil]

theorem splitAll_of_plain (h : ∀ t ∈ ts, t.Plain ∧ t ≠ .kw k) : splitAll k d ts = [ts] := by
  induction ts generalizing d with
  | nil => rfl
  | cons t ts ih =>
    have ht := h t List.mem_cons_self
    rw [splitAll, if_neg fun hk => ht.2 hk.2, ih fun u hu => h u (List.mem_cons_of_mem t hu)]
    rfl

/-- The last part goes on in what follows. -/
theorem splitAll_append_of_snoc {init rest : List (List Token)} {last c : List Token}
    (ha : splitAll k d a = init ++ [last]) (hb : splitAll k (endDepth d a) b = c :: rest) :
    splitAll k d (a ++ b) = init ++ (last ++ c) :: rest := by
  induction a generalizing d init last with
  | nil =>
    have hparts : init ++ [last] = [[]] := ha.symm
    obtain ⟨rfl, hlast⟩ := List.append_eq_singleton_iff.1 hparts |>.resolve_right (by simp)
    cases hlast
    exact hb
  | cons t a ih =>
    rw [List.cons_append, splitAll]
    rw [splitAll] at ha
    split_ifs at ha ⊢ with hk
    · obtain ⟨init', rfl⟩ : ∃ init', init = [] :: init' := by
        cases init with
        | nil =>
          have hnil : splitAll k 0 a = [] := (List.cons.inj ha).2
          exact absurd hnil splitAll_ne_nil
        | cons g gs => exact ⟨gs, by rw [(List.cons.inj ha).1]⟩
      have hdepth : t.depth d = 0 := by
        rw [hk.1, hk.2]
        rfl
      have hb' : splitAll k (endDepth 0 a) b = c :: rest := by
        rw [← hdepth]
        exact hb
      rw [ih (List.cons.inj ha).2 hb']
      rfl
    · rcases hsplit : splitAll k (t.depth d) a with _ | ⟨g, gs⟩
      · exact absurd hsplit splitAll_ne_nil
      · rw [hsplit, consHead] at ha
        cases init with
        | nil =>
          obtain ⟨rfl, rfl⟩ := List.cons.inj ha
          have hrest : splitAll k (t.depth d) (a ++ b) = [] ++ (g ++ c) :: rest := ih hsplit hb
          rw [hrest]
          rfl
        | cons i init =>
          obtain ⟨rfl, rfl⟩ := List.cons.inj ha
          have hrest : splitAll k (t.depth d) (a ++ b) = (g :: init) ++ (last ++ c) :: rest := ih hsplit hb
          rw [hrest]
          rfl

theorem splitAll_append_of_one (ha : splitAll k d a = [a]) (hb : splitAll k (endDepth d a) b = [b]) :
    splitAll k d (a ++ b) = [a ++ b] := by
  show _ = [] ++ [a ++ b]
  exact splitAll_append_of_snoc ha hb

theorem splitFirst_eq_some {p : List Token × List Token} (h : splitFirst k d ts = some p) :
    ts = p.1 ++ .kw k :: p.2 ∧ splitFirst k d p.1 = none ∧ endDepth d p.1 = 0 := by
  induction ts generalizing d p with
  | nil => cases h
  | cons t ts ih =>
    unfold splitFirst at h
    split_ifs at h with hk
    · cases h
      exact ⟨by rw [hk.2]; rfl, rfl, hk.1⟩
    · obtain ⟨q, hq, rfl⟩ := Option.map_eq_some_iff.1 h
      obtain ⟨hts, hnone, hdepth⟩ := ih hq
      refine ⟨by rw [hts]; rfl, ?_, hdepth⟩
      show (if d = 0 ∧ t = .kw k then _ else _) = none
      rw [if_neg hk, hnone]
      rfl

theorem splitFirst_append_of_none (h : splitFirst k d a = none) :
    splitFirst k d (a ++ b) = (splitFirst k (endDepth d a) b).map fun p => (a ++ p.1, p.2) := by
  induction a generalizing d with
  | nil =>
    show splitFirst k d b = (splitFirst k d b).map fun p => (p.1, p.2)
    rcases splitFirst k d b with _ | p <;> rfl
  | cons t a ih =>
    unfold splitFirst at h
    split_ifs at h with hk
    have hrest : splitFirst k (t.depth d) a = none := Option.map_eq_none_iff.1 h
    rw [List.cons_append, splitFirst, if_neg hk, ih hrest, Option.map_map]
    rfl

theorem splitFirst_append_of_some {p : List Token × List Token} (h : splitFirst k d a = some p) :
    splitFirst k d (a ++ b) = some (p.1, p.2 ++ b) := by
  obtain ⟨hts, hnone, hdepth⟩ := splitFirst_eq_some h
  rw [hts, List.append_assoc, splitFirst_append_of_none hnone, hdepth, List.cons_append, splitFirst,
    if_pos ⟨rfl, rfl⟩, Option.map_some, List.append_nil]

theorem splitFirst_of_plain (h : ∀ t ∈ ts, t.Plain ∧ t ≠ .kw k) : splitFirst k d ts = none := by
  induction ts generalizing d with
  | nil => rfl
  | cons t ts ih =>
    rw [splitFirst, if_neg fun hk => (h t List.mem_cons_self).2 hk.2,
      ih fun u hu => h u (List.mem_cons_of_mem t hu)]
    rfl

/-! ### Atoms -/

inductive Comparison where
  | eq | ne | lt | le | gt | ge | contains | startsWith | endsWith
  deriving DecidableEq, Repr

inductive Operand where
  | str (s : Text)
  | bool (b : Bool)
  | param (p : Text)
  | literal (ts : List Token)
  deriving DecidableEq, Repr

inductive Atom where
  | compare (x key : Text) (op : Comparison) (rhs : Operand)
  /-- `x.key IS NULL`, or `IS NOT NULL`. -/
  | isNull (x key : Text) (negated : Bool)
  | inList (x key : Text) (items : List Text)
  /-- `'s' IN x.key`. -/
  | memberOf (s x key : Text)
  /-- `(x)-[:type]->(:label)`. -/
  | related (x type label : Text)
  | other (ts : List Token)
  deriving DecidableEq, Repr

def operand : List Token → Operand
  | [.str s] => .str s
  | [.kw .true] => .bool true
  | [.kw .false] => .bool false
  | [.sym '$', .name p] => .param p
  | ts => .literal ts

/-- The strings of a list after its opening bracket. -/
def stringItems : List Token → Option (List Text)
  | [.str s, .sym ']'] => some [s]
  | .str s :: .sym ',' :: ts => (stringItems ts).map (s :: ·)
  | _ => none

/-- A comparison operator, and what follows it. -/
def comparison : List Token → Option (Comparison × List Token)
  | .sym '=' :: .sym '~' :: _ => none
  | .sym '=' :: ts => some (.eq, ts)
  | .sym '<' :: .sym '>' :: ts => some (.ne, ts)
  | .sym '<' :: .sym '=' :: ts => some (.le, ts)
  | .sym '>' :: .sym '=' :: ts => some (.ge, ts)
  | .sym '<' :: ts => some (.lt, ts)
  | .sym '>' :: ts => some (.gt, ts)
  | .kw .contains :: ts => some (.contains, ts)
  | .kw .starts :: .kw .with :: ts => some (.startsWith, ts)
  | .kw .ends :: .kw .with :: ts => some (.endsWith, ts)
  | _ => none

/-- What is said of `x.key`. -/
def propertyAtom (x key : Text) (ts : List Token) : Atom :=
  let whole := .word x :: .sym '.' :: .name key :: ts
  match comparison ts with
  | some (op, rhs) => .compare x key op (operand rhs)
  | none =>
    match ts with
    | [.kw .is, .kw .null] => .isNull x key false
    | [.kw .is, .kw .not, .kw .null] => .isNull x key true
    | [.kw .in, .sym '[', .sym ']'] => .inList x key []
    | .kw .in :: .sym '[' :: items =>
      match stringItems items with
      | some items => .inList x key items
      | none => .other whole
    | _ => .other whole

def parseAtom : List Token → Atom
  | .word x :: .sym '.' :: .name key :: ts =>
    if x.head?.any Char.isDigit || key.head?.any Char.isDigit then .other (.word x :: .sym '.' :: .name key :: ts)
    else propertyAtom x key ts
  | [.sym '(', .word x, .sym ')', .sym '-', .sym '[', .sym ':', .name type, .sym ']', .sym '-', .sym '>',
     .sym '(', .sym ':', .name label, .sym ')'] => .related x type label
  | [.str s, .kw .in, .word x, .sym '.', .name key] =>
    if x.head?.any Char.isDigit || key.head?.any Char.isDigit then
      .other [.str s, .kw .in, .word x, .sym '.', .name key]
    else .memberOf s x key
  | ts => .other ts

theorem propertyAtom_inList {x key s : Text} {ts : List Token} {items : List Text}
    (h : stringItems (.str s :: ts) = some items) :
    propertyAtom x key (.kw .in :: .sym '[' :: .str s :: ts) = .inList x key items := by
  have hcomp : comparison (.kw .in :: .sym '[' :: .str s :: ts) = none := rfl
  simp only [propertyAtom, hcomp, h]

/-! ### Truth values -/

abbrev Truth := Option Bool

def not3 : Truth → Truth
  | some b => some !b
  | none => none

def and3 : Truth → Truth → Truth
  | some false, _ | _, some false => some false
  | some true, some true => some true
  | _, _ => none

def or3 : Truth → Truth → Truth
  | some true, _ | _, some true => some true
  | some false, some false => some false
  | _, _ => none

def xor3 : Truth → Truth → Truth
  | some a, some b => some (a != b)
  | _, _ => none

def all3 (l : List Truth) : Truth := l.foldr and3 (some true)

def any3 (l : List Truth) : Truth := l.foldr or3 (some false)

def one3 (l : List Truth) : Truth := l.foldr xor3 (some false)

theorem and3_eq_true {p q : Truth} : and3 p q = some true ↔ p = some true ∧ q = some true := by
  rcases p with _ | _ | _ <;> rcases q with _ | _ | _ <;> simp [and3]

theorem or3_eq_true {p q : Truth} : or3 p q = some true ↔ p = some true ∨ q = some true := by
  rcases p with _ | _ | _ <;> rcases q with _ | _ | _ <;> simp [or3]

theorem all3_eq_true {l : List Truth} : all3 l = some true ↔ ∀ p ∈ l, p = some true := by
  induction l with
  | nil => simp [all3]
  | cons p l ih =>
    show and3 p (all3 l) = some true ↔ _
    rw [and3_eq_true, ih, List.forall_mem_cons]

theorem any3_eq_true {l : List Truth} : any3 l = some true ↔ some true ∈ l := by
  induction l with
  | nil => simp [any3]
  | cons p l ih =>
    show or3 p (any3 l) = some true ↔ _
    rw [or3_eq_true, ih, List.mem_cons, eq_comm]

theorem any3_singleton (p : Truth) : any3 [p] = p := by
  rcases p with _ | _ | _ <;> rfl

theorem one3_singleton (p : Truth) : one3 [p] = p := by
  rcases p with _ | _ | _ <;> rfl

/-! ### Predicates -/

/-- What stands before the bracket that closes depth one, and after it. -/
def closing : Nat → List Token → Option (List Token × List Token)
  | _, [] => none
  | d, t :: ts =>
    if t.depth d = 0 then some ([], ts) else (closing (t.depth d) ts).map fun p => (t :: p.1, p.2)

/-- The inside of a token list that is one bracketed expression. -/
def enclosed : List Token → Option (List Token)
  | .sym '(' :: ts =>
    match closing 1 ts with
    | some (inner, []) => some inner
    | _ => none
  | _ => none

section Eval

variable (atom : List Token → Truth)

/-- A part between ANDs: negations, then an expression in brackets or an atom. -/
def evalFactor (sub : List Token → Truth) : List Token → Truth
  | .kw .not :: ts => not3 (evalFactor sub ts)
  | ts =>
    match enclosed ts with
    | some inner => sub inner
    | none => atom ts

/-- An expression with at most so many levels of brackets. -/
def evalExpr : Nat → List Token → Truth
  | 0, ts => atom ts
  | n + 1, ts =>
    any3 ((splitAll .or 0 ts).map fun t =>
      one3 ((splitAll .xor 0 t).map fun u =>
        all3 ((splitAll .and 0 u).map (evalFactor atom (evalExpr n)))))

def factorAtoms (sub : List Token → List (List Token)) : List Token → List (List Token)
  | .kw .not :: ts => factorAtoms sub ts
  | ts =>
    match enclosed ts with
    | some inner => sub inner
    | none => [ts]

/-- The atoms of an expression. -/
def exprAtoms : Nat → List Token → List (List Token)
  | 0, ts => [ts]
  | n + 1, ts =>
    (splitAll .or 0 ts).flatMap fun t =>
      (splitAll .xor 0 t).flatMap fun u => (splitAll .and 0 u).flatMap (factorAtoms (exprAtoms n))

variable {atom} {atom' : List Token → Truth}

theorem evalFactor_congr {sub sub' : List Token → Truth} {subAtoms : List Token → List (List Token)}
    {ts : List Token} (hsub : ∀ us, (∀ a ∈ subAtoms us, atom a = atom' a) → sub us = sub' us)
    (h : ∀ a ∈ factorAtoms subAtoms ts, atom a = atom' a) :
    evalFactor atom sub ts = evalFactor atom' sub' ts := by
  induction ts using factorAtoms.induct with
  | case1 ts ih =>
    have hrest := ih h
    show not3 _ = not3 _
    rw [hrest]
  | case2 ts hnot inner henclosed =>
    rw [factorAtoms, henclosed] at h
    rw [evalFactor, evalFactor, henclosed]
    · exact hsub inner h
    all_goals exact hnot
  | case3 ts hnot henclosed =>
    rw [factorAtoms, henclosed] at h
    rw [evalFactor, evalFactor, henclosed]
    · exact h ts (List.mem_singleton_self ts)
    all_goals exact hnot

/-- The value of an expression depends on its atoms only. -/
theorem evalExpr_congr {n : Nat} {ts : List Token} (h : ∀ a ∈ exprAtoms n ts, atom a = atom' a) :
    evalExpr atom n ts = evalExpr atom' n ts := by
  induction n generalizing ts with
  | zero => exact h ts (List.mem_singleton_self ts)
  | succ n ih =>
    unfold evalExpr
    congr 1
    refine List.map_congr_left fun t ht => ?_
    congr 1
    refine List.map_congr_left fun u hu => ?_
    congr 1
    refine List.map_congr_left fun v hv => ?_
    refine evalFactor_congr (fun us hus => ih hus) fun a ha => h a ?_
    exact List.mem_flatMap.2 ⟨t, ht, List.mem_flatMap.2 ⟨u, hu, List.mem_flatMap.2 ⟨v, hv, ha⟩⟩⟩

/-! ### Expressions put together from parts -/

/-- Tokens that close only the brackets they open, read inside brackets. -/
structure Nested (ts : List Token) : Prop where
  split : ∀ k d, splitAll k (d + 1) ts = [ts]
  depth : ∀ d, endDepth (d + 1) ts = d + 1
  closing : ∀ d rest, closing (d + 1) (ts ++ rest) = (closing (d + 1) rest).map fun p => (ts ++ p.1, p.2)

theorem Nested.nil : Nested [] where
  split _ _ := rfl
  depth _ := rfl
  closing d rest := by
    rw [List.nil_append]
    rcases Cypher.closing (d + 1) rest with _ | p <;> rfl

theorem Nested.plain {t : Token} (h : t.Plain) : Nested [t] where
  split k d := by rw [splitAll, if_neg (by simp)]; rfl
  depth d := h (d + 1)
  closing d rest := by
    show Cypher.closing (d + 1) (t :: rest) = _
    rw [Cypher.closing, h (d + 1), if_neg (Nat.succ_ne_zero d)]
    rfl

theorem Nested.append {a b : List Token} (ha : Nested a) (hb : Nested b) : Nested (a ++ b) where
  split k d := by
    refine splitAll_append_of_one (ha.split k d) ?_
    rw [ha.depth]
    exact hb.split k d
  depth d := by rw [endDepth_append, ha.depth, hb.depth]
  closing d rest := by
    rw [List.append_assoc, ha.closing, hb.closing, Option.map_map]
    simp only [Function.comp_def, List.append_assoc]

theorem Nested.of_plain {ts : List Token} (h : ∀ t ∈ ts, t.Plain) : Nested ts := by
  induction ts with
  | nil => exact .nil
  | cons t ts ih =>
    obtain ⟨ht, hts⟩ := List.forall_mem_cons.1 h
    exact (Nested.plain ht).append (ih hts)

theorem Nested.bracket {a : List Token} {c c' : Char} (hopen : ∀ d, (Token.sym c).depth d = d + 1)
    (hclose : ∀ d, (Token.sym c').depth (d + 1) = d) (ha : Nested a) : Nested (.sym c :: a ++ [.sym c']) where
  split k d := by
    have hrest : splitAll k (d + 2) (a ++ [.sym c']) = [a ++ [.sym c']] := by
      refine splitAll_append_of_one (ha.split k (d + 1)) ?_
      rw [ha.depth, splitAll, if_neg (by simp)]
      rfl
    rw [List.cons_append, splitAll, if_neg (by simp), hopen, hrest]
    rfl
  depth d := by
    rw [List.cons_append, endDepth, hopen, endDepth_append, ha.depth]
    exact hclose (d + 1)
  closing d rest := by
    rw [List.cons_append, List.cons_append, Cypher.closing, hopen, if_neg (by omega), List.append_assoc,
      ha.closing, List.singleton_append, Cypher.closing, hclose, if_neg (by omega), Option.map_map, Option.map_map]
    simp [Function.comp_def]

theorem Nested.intercalate {sep : List Token} {l : List (List Token)} (hsep : Nested sep)
    (h : ∀ a ∈ l, Nested a) : Nested (List.intercalate sep l) := by
  induction l with
  | nil => exact .nil
  | cons a l ih =>
    obtain ⟨ha, hl⟩ := List.forall_mem_cons.1 h
    cases l with
    | nil => simpa using ha
    | cons b l =>
      rw [List.intercalate_cons_of_ne_nil (List.cons_ne_nil b l)]
      exact (ha.append hsep).append (ih hl)

theorem splitAll_of_not_mem {k : Keyword} {d : Nat} {ts : List Token} (h : .kw k ∉ ts) :
    splitAll k d ts = [ts] := by
  induction ts generalizing d with
  | nil => rfl
  | cons t ts ih =>
    have ht : ¬ (d = 0 ∧ t = .kw k) := fun hk => h (hk.2 ▸ List.mem_cons_self)
    rw [splitAll, if_neg ht, ih fun hmem => h (List.mem_cons_of_mem t hmem)]
    rfl

/-- An expression in brackets. -/
theorem evalExpr_brackets {n : Nat} {inner : List Token} (h : Nested inner) :
    evalExpr atom (n + 1) (.sym '(' :: inner ++ [.sym ')']) = evalExpr atom n inner := by
  have hsplit : ∀ k, splitAll k 0 (.sym '(' :: inner ++ [.sym ')']) = [.sym '(' :: inner ++ [.sym ')']] := by
    intro k
    have hrest : splitAll k 1 (inner ++ [.sym ')']) = [inner ++ [.sym ')']] := by
      refine splitAll_append_of_one (h.split k 0) ?_
      rw [h.depth, splitAll, if_neg (by simp)]
      rfl
    rw [List.cons_append, splitAll, if_neg (by simp)]
    exact congrArg (consHead (.sym '(')) hrest
  have hclosing : closing 1 (inner ++ [.sym ')']) = some (inner, []) := by
    have hlast : closing 1 [.sym ')'] = some ([], []) := rfl
    rw [h.closing, hlast, Option.map_some, List.append_nil]
  have hfactor : evalFactor atom (evalExpr atom n) (.sym '(' :: inner ++ [.sym ')']) = evalExpr atom n inner := by
    rw [List.cons_append, evalFactor, enclosed, hclosing]
    simp
  have hall : all3 [evalExpr atom n inner] = evalExpr atom n inner := by
    rcases evalExpr atom n inner with _ | _ | _ <;> rfl
  rw [evalExpr, hsplit, List.map_singleton, hsplit, List.map_singleton, hsplit, List.map_singleton, hfactor,
    any3_singleton, one3_singleton, hall]

/-- A part of a predicate that is one atom. -/
structure IsAtom (ts : List Token) : Prop where
  depth : endDepth 0 ts = 0
  or : .kw .or ∉ ts
  xor : .kw .xor ∉ ts
  and : .kw .and ∉ ts
  not : ts.head? ≠ some (.kw .not)
  bracket : ts.head? ≠ some (.sym '(')

theorem IsAtom.factor {sub : List Token → Truth} {ts : List Token} (h : IsAtom ts) :
    evalFactor atom sub ts = atom ts := by
  cases ts with
  | nil => rfl
  | cons t ts =>
    have hnot : t ≠ .kw .not := fun ht => h.not (by rw [ht]; rfl)
    have hbracket : t ≠ .sym '(' := fun ht => h.bracket (by rw [ht]; rfl)
    have henclosed : enclosed (t :: ts) = none := by
      unfold enclosed
      split
      · rename_i heq
        exact absurd (List.cons.inj heq).1 hbracket
      · rfl
    rw [evalFactor, henclosed]
    intro us hus
    exact hnot (List.cons.inj hus).1

/-- Tokens without a keyword, and without a bracket at their head, are one atom. -/
theorem exprAtoms_of_not_mem {n : Nat} {ts : List Token} (h : ∀ k, .kw k ∉ ts) (hb : ts.head? ≠ some (.sym '(')) :
    exprAtoms (n + 1) ts = [ts] := by
  have hfactor : factorAtoms (exprAtoms n) ts = [ts] := by
    cases ts with
    | nil => rfl
    | cons t ts =>
      have henclosed : enclosed (t :: ts) = none := by
        unfold enclosed
        split
        · rename_i heq
          exact absurd (congrArg some (List.cons.inj heq).1) hb
        · rfl
      rw [factorAtoms, henclosed]
      intro us hus
      exact h .not ((List.cons.inj hus).1 ▸ List.mem_cons_self)
  simp only [exprAtoms, splitAll_of_not_mem (h _), List.flatMap_singleton, hfactor]

theorem splitAll_or_intercalate {l : List (List Token)} (hne : l ≠ []) (h : ∀ a ∈ l, IsAtom a) :
    splitAll .or 0 (List.intercalate [.kw .or] l) = l := by
  induction l with
  | nil => exact absurd rfl hne
  | cons a l ih =>
    obtain ⟨ha, hl⟩ := List.forall_mem_cons.1 h
    cases l with
    | nil => simpa using splitAll_of_not_mem ha.or
    | cons b l =>
      rw [List.intercalate_cons_of_ne_nil (List.cons_ne_nil b l), List.append_assoc, List.singleton_append,
        splitAll_append ha.depth, splitAll_of_not_mem ha.or, ih (List.cons_ne_nil b l) hl]
      rfl

/-- Atoms with OR between them. -/
theorem evalExpr_or {n : Nat} {l : List (List Token)} (hne : l ≠ []) (h : ∀ a ∈ l, IsAtom a) :
    evalExpr atom (n + 1) (List.intercalate [.kw .or] l) = any3 (l.map atom) := by
  rw [evalExpr, splitAll_or_intercalate hne h]
  congr 1
  refine List.map_congr_left fun a ha => ?_
  have hatom := h a ha
  have hall : all3 [atom a] = atom a := by
    rcases atom a with _ | _ | _ <;> rfl
  rw [splitAll_of_not_mem hatom.xor, List.map_singleton, splitAll_of_not_mem hatom.and, List.map_singleton,
    hatom.factor, one3_singleton, hall]

end Eval

end Cypher
