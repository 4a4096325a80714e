import Mathlib.Data.List.Basic

/-!
# The tokens of a Cypher text

The lexer is a state machine over the characters (`Mode`), so the tokens of a concatenation are those of
its parts, the second read from the mode the first ends in (`scan_append`). A character outside ASCII
that is no white space is read as part of a word.
-/

namespace Cypher

abbrev Text := List Char

/-- Unicode white space. -/
def isSpace (c : Char) : Bool :=
  let n := c.toNat
  n = 32 || (9 ≤ n && n ≤ 13) || (28 ≤ n && n ≤ 31) || n = 133 || n = 160 || n = 5760 ||
    (8192 ≤ n && n ≤ 8202) || n = 8232 || n = 8233 || n = 8239 || n = 8287 || n = 12288

def isWordChar (c : Char) : Bool :=
  c.isAlphanum || c = '_' || (128 ≤ c.toNat && !isSpace c)

inductive Keyword where
  | match | optional | where | return | with | unwind | union | call | create | merge | set | delete
  | detach | remove | foreach | load | order | by | skip | limit | distinct | as | and | or | xor | not
  | in | is | null | contains | starts | ends | true | false
  deriving DecidableEq, Repr

namespace Keyword

/-- A keyword in capitals. -/
def text : Keyword → Text
  | .match => ['M', 'A', 'T', 'C', 'H']
  | .optional => ['O', 'P', 'T', 'I', 'O', 'N', 'A', 'L']
  | .where => ['W', 'H', 'E', 'R', 'E']
  | .return => ['R', 'E', 'T', 'U', 'R', 'N']
  | .with => ['W', 'I', 'T', 'H']
  | .unwind => ['U', 'N', 'W', 'I', 'N', 'D']
  | .union => ['U', 'N', 'I', 'O', 'N']
  | .call => ['C', 'A', 'L', 'L']
  | .create => ['C', 'R', 'E', 'A', 'T', 'E']
  | .merge => ['M', 'E', 'R', 'G', 'E']
  | .set => ['S', 'E', 'T']
  | .delete => ['D', 'E', 'L', 'E', 'T', 'E']
  | .detach => ['D', 'E', 'T', 'A', 'C', 'H']
  | .remove => ['R', 'E', 'M', 'O', 'V', 'E']
  | .foreach => ['F', 'O', 'R', 'E', 'A', 'C', 'H']
  | .load => ['L', 'O', 'A', 'D']
  | .order => ['O', 'R', 'D', 'E', 'R']
  | .by => ['B', 'Y']
  | .skip => ['S', 'K', 'I', 'P']
  | .limit => ['L', 'I', 'M', 'I', 'T']
  | .distinct => ['D', 'I', 'S', 'T', 'I', 'N', 'C', 'T']
  | .as => ['A', 'S']
  | .and => ['A', 'N', 'D']
  | .or => ['O', 'R']
  | .xor => ['X', 'O', 'R']
  | .not => ['N', 'O', 'T']
  | .in => ['I', 'N']
  | .is => ['I', 'S']
  | .null => ['N', 'U', 'L', 'L']
  | .contains => ['C', 'O', 'N', 'T', 'A', 'I', 'N', 'S']
  | .starts => ['S', 'T', 'A', 'R', 'T', 'S']
  | .ends => ['E', 'N', 'D', 'S']
  | .true => ['T', 'R', 'U', 'E']
  | .false => ['F', 'A', 'L', 'S', 'E']

def all : List Keyword :=
  [.match, .optional, .where, .return, .with, .unwind, .union, .call, .create, .merge, .set, .delete,
   .detach, .remove, .foreach, .load, .order, .by, .skip, .limit, .distinct, .as, .and, .or, .xor, .not,
   .in, .is, .null, .contains, .starts, .ends, .true, .false]

def ofText? (t : Text) : Option Keyword := all.find? fun k => k.text = t.map Char.toUpper

theorem text_of_ofText? {t : Text} {k : Keyword} (h : ofText? t = some k) :
    k.text = t.map Char.toUpper := by
  unfold ofText? at h
  have hfound := List.find?_some h
  exact of_decide_eq_true hfound

end Keyword

theorem text_ne_digit (k : Keyword) : ∀ c ∈ k.text, c.isDigit = false := by
  have hall : k.text.all (fun c => c.isDigit = false) = true := by cases k <;> decide
  simpa using hall

theorem toUpper_of_isDigit {c : Char} (h : c.isDigit = true) : c.toUpper = c := by
  have hlower : ¬ (c.val ≥ 'a'.val ∧ c.val ≤ 'z'.val) := by
    simp only [Char.isDigit, Bool.and_eq_true, decide_eq_true_eq] at h
    rintro ⟨hlow, -⟩
    have h1 : c.val.toNat ≤ 57 := h.2
    have h2 : 97 ≤ c.val.toNat := hlow
    omega
  exact dif_neg hlower

/-- A number is no keyword. -/
theorem ofText?_digits {w : Text} (hne : w ≠ []) (h : ∀ c ∈ w, c.isDigit = true) : Keyword.ofText? w = none := by
  refine Option.eq_none_iff_forall_ne_some.2 fun k hk => ?_
  have htext := Keyword.text_of_ofText? hk
  obtain ⟨c, w, rfl⟩ := List.exists_cons_of_ne_nil hne
  have hdigit : c.isDigit = true := h c List.mem_cons_self
  have hmem : c ∈ k.text := by
    rw [htext, List.map_cons, toUpper_of_isDigit hdigit]
    exact List.mem_cons_self
  rw [text_ne_digit k c hmem] at hdigit
  cases hdigit

inductive Token where
  | kw (k : Keyword)
  /-- A bare word that is no keyword: a variable or a number. -/
  | word (w : Text)
  /-- A word after a dot, a dollar or a colon, or in backticks. -/
  | name (w : Text)
  | str (s : Text)
  | sym (c : Char)
  deriving DecidableEq, Repr

inductive Mode where
  | code
  /-- After a dot, a dollar or a colon. -/
  | dot
  | word (isName : Bool) (acc : Text)
  | quoted (q : Char) (acc : Text)
  | escape (q : Char) (acc : Text)
  | unicode (q : Char) (acc : Text) (left value : Nat)
  | tick (acc : Text)
  | slash | line | block | star
  /-- After an escape that is none. -/
  | bad
  deriving DecidableEq, Repr

/-- The token of a word that ended. -/
def flush (isName : Bool) (acc : Text) : Token :=
  if isName then .name acc.reverse
  else match Keyword.ofText? acc.reverse with
    | some k => .kw k
    | none => .word acc.reverse

/-- A character outside words, literals and comments. -/
def codeStep (named : Bool) (c : Char) : List Token × Mode :=
  if isSpace c then ([], if named then .dot else .code)
  else if isWordChar c then ([], .word named [c])
  else if c = '\'' ∨ c = '"' then ([], .quoted c [])
  else if c = '\x60' then ([], .tick [])
  else if c = '/' then ([], .slash)
  else if c = '.' ∨ c = '$' ∨ c = ':' then ([.sym c], .dot)
  else ([.sym c], .code)

/-- The character an escape stands for. -/
def unescape (c : Char) : Option Char :=
  if c = '\\' ∨ c = '\'' ∨ c = '"' then some c
  else if c = 'n' then some '\n'
  else if c = 't' then some '\t'
  else if c = 'r' then some '\r'
  else if c = 'b' then some (Char.ofNat 8)
  else if c = 'f' then some (Char.ofNat 12)
  else none

def hexValue (c : Char) : Option Nat :=
  if c.isDigit then some (c.toNat - 48)
  else if 'a' ≤ c ∧ c ≤ 'f' then some (c.toNat - 87)
  else if 'A' ≤ c ∧ c ≤ 'F' then some (c.toNat - 55)
  else none

def step : Mode → Char → List Token × Mode
  | .code, c => codeStep false c
  | .dot, c => codeStep true c
  | .word isName acc, c =>
    if isWordChar c then ([], .word isName (c :: acc))
    else (flush isName acc :: (codeStep false c).1, (codeStep false c).2)
  | .quoted q acc, c =>
    if c = q then ([.str acc.reverse], .code)
    else if c = '\\' then ([], .escape q acc)
    else ([], .quoted q (c :: acc))
  | .escape q acc, c =>
    if c = 'u' then ([], .unicode q acc 4 0)
    else match unescape c with
      | some c' => ([], .quoted q (c' :: acc))
      | none => ([], .bad)
  | .unicode q acc left value, c =>
    match hexValue c with
    | some d =>
      if left ≤ 1 then ([], .quoted q (Char.ofNat (value * 16 + d) :: acc))
      else ([], .unicode q acc (left - 1) (value * 16 + d))
    | none => ([], .bad)
  | .tick acc, c => if c = '\x60' then ([.name acc.reverse], .code) else ([], .tick (c :: acc))
  | .slash, c =>
    if c = '/' then ([], .line)
    else if c = '*' then ([], .block)
    else (.sym '/' :: (codeStep false c).1, (codeStep false c).2)
  | .line, c => if c = '\n' ∨ c = '\r' then ([], .code) else ([], .line)
  | .block, c => if c = '*' then ([], .star) else ([], .block)
  | .star, c => if c = '/' then ([], .code) else if c = '*' then ([], .star) else ([], .block)
  | .bad, _ => ([], .bad)

/-- The tokens that end in a text, and the mode after it. -/
def scan : Mode → Text → List Token × Mode
  | m, [] => ([], m)
  | m, c :: cs => ((step m c).1 ++ (scan (step m c).2 cs).1, (scan (step m c).2 cs).2)

/-- The tokens left at the end of a text; `none` inside a literal or a block comment. -/
def finish : Mode → Option (List Token)
  | .code | .dot | .line => some []
  | .word isName acc => some [flush isName acc]
  | .slash => some [.sym '/']
  | _ => none

def lex (cs : Text) : Option (List Token) := (finish (scan .code cs).2).map ((scan .code cs).1 ++ ·)

/-! ### Concatenation -/

theorem scan_append (m : Mode) (a b : Text) :
    scan m (a ++ b) = ((scan m a).1 ++ (scan (scan m a).2 b).1, (scan (scan m a).2 b).2) := by
  induction a generalizing m with
  | nil => rfl
  | cons c cs ih =>
    rw [List.cons_append, scan, ih]
    simp only [scan, List.append_assoc]

/-- Two texts, the first of which ends outside everything. -/
theorem scan_append_of_code {m : Mode} {a b : Text} {ts : List Token} (h : scan m a = (ts, .code)) :
    scan m (a ++ b) = (ts ++ (scan .code b).1, (scan .code b).2) := by
  rw [scan_append, h]

theorem lex_append_of_code {a b : Text} {ts : List Token} (h : scan .code a = (ts, .code)) :
    lex (a ++ b) = (lex b).map (ts ++ ·) := by
  rw [lex, scan_append_of_code h, lex]
  rcases finish (scan .code b).2 with _ | us
  · rfl
  · simp only [Option.map_some, List.append_assoc]

/-! ### Words and string literals -/

theorem isSpace_of_isWordChar {c : Char} (h : isWordChar c = true) : isSpace c = false := by
  by_contra hs
  have hspace : isSpace c = true := eq_true_of_ne_false hs
  unfold isWordChar at h
  rw [hspace] at h
  have hword : c.isAlphanum = true ∨ c = '_' := by simpa using h
  simp only [isSpace, Bool.or_eq_true, Bool.and_eq_true, decide_eq_true_eq] at hspace
  rcases hword with hword | rfl
  · have hrange : (decide (c.val ≥ 'A'.val ∧ c.val ≤ 'Z'.val) || decide (c.val ≥ 'a'.val) && decide (c.val ≤ 'z'.val) ||
        decide (c.val ≥ '0'.val) && decide (c.val ≤ '9'.val)) = true := hword
    simp only [Bool.or_eq_true, Bool.and_eq_true, decide_eq_true_eq, ge_iff_le,
      UInt32.le_iff_toNat_le] at hrange
    have hval : c.toNat = c.val.toNat := rfl
    rw [hval] at hspace
    simp at hrange
    omega
  · revert hspace
    decide

theorem isWordChar_of_isDigit {c : Char} (h : c.isDigit = true) : isWordChar c = true := by
  simp [isWordChar, Char.isAlphanum, h]

theorem scan_word {isName : Bool} {acc w : Text} (h : ∀ c ∈ w, isWordChar c = true) :
    scan (.word isName acc) w = ([], .word isName (w.reverse ++ acc)) := by
  induction w generalizing acc with
  | nil => rfl
  | cons c w ih =>
    have hc : isWordChar c = true := h c List.mem_cons_self
    have hw : ∀ c ∈ w, isWordChar c = true := fun d hd => h d (List.mem_cons_of_mem c hd)
    rw [scan, step, if_pos hc, ih hw]
    simp

/-- A word between a mode that reads code and a space. -/
theorem scan_code_word {w : Text} (hne : w ≠ []) (h : ∀ c ∈ w, isWordChar c = true) :
    scan .code (w ++ [' ']) = ([flush false w.reverse], .code) := by
  rcases w with _ | ⟨c, w⟩
  · exact absurd rfl hne
  · have hc : isWordChar c = true := h c List.mem_cons_self
    have hfirst : step .code c = ([], .word false [c]) := by
      rw [step, codeStep, isSpace_of_isWordChar hc, hc]
      rfl
    rw [List.cons_append, scan, hfirst, scan_append,
      scan_word fun d hd => h d (List.mem_cons_of_mem c hd)]
    rw [List.reverse_cons]
    rfl

theorem scan_dot_word {w : Text} (hne : w ≠ []) (h : ∀ c ∈ w, isWordChar c = true) :
    scan .dot (w ++ [' ']) = ([.name w], .code) := by
  rcases w with _ | ⟨c, w⟩
  · exact absurd rfl hne
  · have hc : isWordChar c = true := h c List.mem_cons_self
    have hfirst : step .dot c = ([], .word true [c]) := by
      rw [step, codeStep, isSpace_of_isWordChar hc, hc]
      rfl
    rw [List.cons_append, scan, hfirst, scan_append,
      scan_word fun d hd => h d (List.mem_cons_of_mem c hd)]
    show ([] ++ (flush true (w.reverse ++ [c]) :: []), Mode.code) = _
    rw [flush, if_pos rfl]
    simp

/-- A text that stays inside a literal in single quotes: its quotes are escaped and it has no other
escape. -/
inductive Escaped : Text → Prop
  | nil : Escaped []
  | plain (c : Char) (cs : Text) (hq : c ≠ '\'') (hb : c ≠ '\\') (h : Escaped cs) : Escaped (c :: cs)
  | quote (cs : Text) (h : Escaped cs) : Escaped ('\\' :: '\'' :: cs)

/-- `s.replace("'", "\\'")`. -/
def escapeQuotes : Text → Text
  | [] => []
  | c :: cs => if c = '\'' then '\\' :: '\'' :: escapeQuotes cs else c :: escapeQuotes cs

theorem escaped_escapeQuotes {s : Text} (h : '\\' ∉ s) : Escaped (escapeQuotes s) := by
  induction s with
  | nil => exact .nil
  | cons c s ih =>
    have hs : '\\' ∉ s := fun hmem => h (List.mem_cons_of_mem c hmem)
    have hc : c ≠ '\\' := fun hc => h (hc ▸ List.mem_cons_self)
    unfold escapeQuotes
    split_ifs with hq
    · exact .quote _ (ih hs)
    · exact .plain c _ hq hc (ih hs)

theorem scan_escaped {w : Text} (h : Escaped w) (acc : Text) :
    ∃ acc', scan (.quoted '\'' acc) w = ([], .quoted '\'' acc') := by
  induction h generalizing acc with
  | nil => exact ⟨acc, rfl⟩
  | plain c cs hq hb _ ih =>
    obtain ⟨acc', hscan⟩ := ih (c :: acc)
    refine ⟨acc', ?_⟩
    rw [scan, step, if_neg hq, if_neg hb, hscan]
    rfl
  | quote cs _ ih =>
    obtain ⟨acc', hscan⟩ := ih ('\'' :: acc)
    refine ⟨acc', ?_⟩
    show ([] ++ ([] ++ (scan (.quoted '\'' ('\'' :: acc)) cs).1), (scan (.quoted '\'' ('\'' :: acc)) cs).2) = _
    rw [hscan]
    rfl

/-- A literal in single quotes. -/
theorem scan_literal {w : Text} (h : Escaped w) :
    ∃ s, scan .code ('\'' :: w ++ ['\'', ' ']) = ([.str s], .code) := by
  obtain ⟨acc, hscan⟩ := scan_escaped h []
  refine ⟨acc.reverse, ?_⟩
  show ([] ++ (scan (.quoted '\'' []) (w ++ ['\'', ' '])).1, (scan (.quoted '\'' []) (w ++ ['\'', ' '])).2) = _
  rw [scan_append, hscan]
  rfl

/-- A literal without its quote and without a backslash stands for its text. -/
theorem scan_plain_literal {q : Char} (hq : q = '\'' ∨ q = '"') {w : Text} (h : ∀ c ∈ w, c ≠ q ∧ c ≠ '\\') :
    scan .code (q :: w ++ [q]) = ([.str w], .code) := by
  have hinside : ∀ acc, scan (.quoted q acc) (w ++ [q]) = ([.str (acc.reverse ++ w)], .code) := by
    induction w with
    | nil =>
      intro acc
      rw [List.append_nil, List.nil_append, scan, step, if_pos rfl]
      rfl
    | cons c w ih =>
      intro acc
      obtain ⟨hc, hb⟩ := h c List.mem_cons_self
      rw [List.cons_append, scan, step, if_neg hc, if_neg hb, ih fun d hd => h d (List.mem_cons_of_mem c hd)]
      simp
  have hopen : step .code q = ([], .quoted q []) := by
    rcases hq with rfl | rfl <;> rfl
  rw [List.cons_append, scan, hopen, hinside]
  rfl

/-! ### Texts between separators -/

/-- The tokens a mode still owes when a character outside words follows. -/
def pending : Mode → Option (List Token)
  | .code => some []
  | .word isName acc => some [flush isName acc]
  | _ => none

/-- A text has these tokens wherever a character outside words follows it. -/
def Reads (c : Text) (ts : List Token) : Prop :=
  (pending (scan .code c).2).map ((scan .code c).1 ++ ·) = some ts

variable {c : Text} {ts : List Token}

theorem reads_of_code (h : scan .code c = (ts, .code)) : Reads c ts := by
  rw [Reads, h]
  simp [pending]

theorem Reads.append {x : Char} {sep : Text} (h : Reads c ts) (hx : isWordChar x = false) :
    scan .code (c ++ x :: sep) = (ts ++ (scan .code (x :: sep)).1, (scan .code (x :: sep)).2) := by
  unfold Reads at h
  rw [scan_append]
  rcases hscan : scan .code c with ⟨us, m⟩
  rw [hscan] at h
  obtain ⟨owed, hm, rfl⟩ := Option.map_eq_some_iff.1 h
  cases m with
  | code =>
    obtain rfl := Option.some.inj hm
    rw [List.append_nil]
  | word isName acc =>
    obtain rfl := Option.some.inj hm
    have hstep : step (.word isName acc) x = (flush isName acc :: (codeStep false x).1, (codeStep false x).2) :=
      if_neg (by simp [hx])
    rw [scan, scan, hstep, step]
    simp
  | _ => cases hm

theorem Reads.between {x : Char} {sep c' : Text} {us ts' : List Token} (h : Reads c ts)
    (hx : isWordChar x = false) (hsep : scan .code (x :: sep) = (us, .code)) (h' : Reads c' ts') :
    Reads (c ++ x :: sep ++ c') (ts ++ us ++ ts') := by
  have hscan : scan .code (c ++ x :: sep) = (ts ++ us, .code) := by
    rw [h.append hx, hsep]
  unfold Reads at h' ⊢
  obtain ⟨owed, howed, rfl⟩ := Option.map_eq_some_iff.1 h'
  rw [scan_append_of_code hscan, howed, Option.map_some, List.append_assoc]

/-- Parts with a separator between them. -/
theorem reads_intercalate {α : Type*} (text : α → Text) (tokens : α → List Token) (x : Char) (sep : Text)
    {us : List Token} (hx : isWordChar x = false) (hsep : scan .code (x :: sep) = (us, .code)) {l : List α}
    (h : ∀ a ∈ l, Reads (text a) (tokens a)) :
    Reads (List.intercalate (x :: sep) (l.map text)) (List.intercalate us (l.map tokens)) := by
  induction l with
  | nil => rfl
  | cons a l ih =>
    cases l with
    | nil => simpa using h a List.mem_cons_self
    | cons b l =>
      have hrest := ih fun d hd => h d (List.mem_cons_of_mem a hd)
      simp only [List.map_cons, List.intercalate_cons_cons] at hrest ⊢
      exact (h a List.mem_cons_self).between hx hsep hrest

/-! ### White space around a text -/

theorem ne_of_isSpace {c k : Char} (hc : isSpace c = true) (hk : isSpace k = false) : c ≠ k := by
  rintro rfl
  rw [hc] at hk
  cases hk

theorem isWordChar_of_isSpace {c : Char} (h : isSpace c = true) : isWordChar c = false := by
  by_contra hword
  rw [isSpace_of_isWordChar (eq_true_of_ne_false hword)] at h
  cases h

/-- White space is no quote. -/
def Mode.SpaceFree : Mode → Prop
  | .quoted q _ | .escape q _ | .unicode q _ _ _ => isSpace q = false
  | _ => True

/-- A literal is in single or double quotes. -/
def Mode.Quotes : Mode → Prop
  | .quoted q _ | .escape q _ | .unicode q _ _ _ => q = '\'' ∨ q = '"'
  | _ => True

theorem Mode.Quotes.spaceFree {m : Mode} (h : m.Quotes) : m.SpaceFree := by
  cases m with
  | quoted q | escape q | unicode q => rcases h with rfl | rfl <;> rfl
  | _ => trivial

theorem quotes_codeStep (named : Bool) (c : Char) : (codeStep named c).2.Quotes := by
  unfold codeStep
  split_ifs with _ _ _ hquote
  · trivial
  · trivial
  · trivial
  · exact hquote
  all_goals trivial

theorem Mode.Quotes.step {m : Mode} (h : m.Quotes) (c : Char) : (step m c).2.Quotes := by
  cases m with
  | code => exact quotes_codeStep false c
  | dot => exact quotes_codeStep true c
  | word isName acc =>
    rw [Cypher.step]
    split_ifs
    · trivial
    · exact quotes_codeStep false c
  | quoted q acc =>
    rw [Cypher.step]
    split_ifs
    · trivial
    all_goals exact h
  | escape q acc =>
    rw [Cypher.step]
    split_ifs
    · exact h
    · rcases unescape c with _ | c'
      · trivial
      · exact h
  | unicode q acc left value =>
    rw [Cypher.step]
    rcases hexValue c with _ | d
    · trivial
    · dsimp only
      split_ifs <;> exact h
  | slash =>
    rw [Cypher.step]
    split_ifs
    · trivial
    · trivial
    · exact quotes_codeStep false c
  | tick acc | line | block | star =>
    rw [Cypher.step]
    split_ifs <;> trivial
  | bad => trivial

theorem Mode.Quotes.scan {m : Mode} (h : m.Quotes) (cs : Text) : (scan m cs).2.Quotes := by
  induction cs generalizing m with
  | nil => exact h
  | cons c cs ih => exact ih (h.step c)

theorem codeStep_space {c : Char} (hc : isSpace c = true) (named : Bool) :
    codeStep named c = ([], if named then .dot else .code) := if_pos hc

theorem finish_step_space {m : Mode} {c : Char} (hm : m.SpaceFree) (hc : isSpace c = true) :
    (finish (step m c).2).map ((step m c).1 ++ ·) = finish m := by
  cases m with
  | code | dot =>
    rw [step, codeStep_space hc]
    rfl
  | word isName acc =>
    have hword : ¬ isWordChar c = true := by simp [isWordChar_of_isSpace hc]
    rw [step, if_neg hword, codeStep_space hc]
    rfl
  | quoted q acc =>
    have hq : c ≠ q := ne_of_isSpace hc hm
    rw [step, if_neg hq]
    split_ifs <;> rfl
  | escape q acc =>
    rw [step]
    split_ifs
    · rfl
    · rcases unescape c <;> rfl
  | unicode q acc left value =>
    rw [step]
    rcases hexValue c with _ | d
    · rfl
    · dsimp only
      split_ifs <;> rfl
  | tick acc =>
    rw [step, if_neg (ne_of_isSpace hc rfl)]
    rfl
  | slash =>
    rw [step, if_neg (ne_of_isSpace hc rfl), if_neg (ne_of_isSpace hc rfl), codeStep_space hc]
    rfl
  | line =>
    rw [step]
    split_ifs <;> rfl
  | block =>
    rw [step]
    split_ifs <;> rfl
  | star =>
    rw [step, if_neg (ne_of_isSpace hc rfl)]
    split_ifs <;> rfl
  | bad => rfl

theorem lex_snoc_space {cs : Text} {c : Char} (hc : isSpace c = true) : lex (cs ++ [c]) = lex cs := by
  have hm : (scan .code cs).2.SpaceFree := (Mode.Quotes.scan (m := .code) trivial cs).spaceFree
  rw [lex, scan_append, lex, ← finish_step_space hm hc, scan, scan, Option.map_map]
  simp only [List.append_nil, Function.comp_def, List.append_assoc]

theorem lex_append_spaces {cs us : Text} (h : ∀ c ∈ us, isSpace c = true) : lex (cs ++ us) = lex cs := by
  induction us generalizing cs with
  | nil => rw [List.append_nil]
  | cons c us ih =>
    obtain ⟨hc, hus⟩ := List.forall_mem_cons.1 h
    rw [List.append_cons, ih hus, lex_snoc_space hc]

theorem lex_spaces_append {cs us : Text} (h : ∀ c ∈ us, isSpace c = true) : lex (us ++ cs) = lex cs := by
  induction us with
  | nil => rfl
  | cons c us ih =>
    obtain ⟨hc, hus⟩ := List.forall_mem_cons.1 h
    have hstep : step .code c = ([], .code) := codeStep_space hc false
    rw [← ih hus, List.cons_append, lex, scan, hstep]
    rfl

/-! ### Words stand in the text -/

/-- The part of a word that has been read. -/
def Mode.held : Mode → Text
  | .word _ acc | .tick acc => acc.reverse
  | _ => []

theorem held_codeStep (named : Bool) (c : Char) :
    (codeStep named c).2.held = [] ∨ (codeStep named c).2.held = [c] := by
  unfold codeStep
  split_ifs
  · exact .inl rfl
  · exact .inl rfl
  · exact .inr rfl
  all_goals exact .inl rfl

theorem held_step (m : Mode) (c : Char) : (step m c).2.held <:+ m.held ++ [c] := by
  have hcode : ∀ named l, (codeStep named c).2.held <:+ l ++ [c] := by
    intro named l
    rcases held_codeStep named c with h | h <;> rw [h]
    · exact List.nil_suffix
    · exact List.suffix_append l [c]
  cases m with
  | code => exact hcode false []
  | dot => exact hcode true []
  | word isName acc =>
    rw [step]
    split_ifs
    · rw [Mode.held, List.reverse_cons]
      exact List.suffix_rfl
    · exact hcode false _
  | tick acc =>
    rw [step]
    split_ifs
    · exact List.nil_suffix
    · rw [Mode.held, List.reverse_cons]
      exact List.suffix_rfl
  | slash =>
    rw [step]
    split_ifs
    · exact List.nil_suffix
    · exact List.nil_suffix
    · exact hcode false []
  | escape q acc =>
    rw [step]
    split_ifs
    · exact List.nil_suffix
    · rcases unescape c <;> exact List.nil_suffix
  | unicode q acc left value =>
    rw [step]
    rcases hexValue c with _ | d
    · exact List.nil_suffix
    · dsimp only
      split_ifs <;> exact List.nil_suffix
  | quoted q acc | line | block | star =>
    rw [step]
    split_ifs <;> exact List.nil_suffix
  | bad => exact List.nil_suffix

def Token.IsWord (w : Text) (t : Token) : Prop := t = .word w ∨ t = .name w

theorem isWord_flush {w acc : Text} {isName : Bool} (h : (flush isName acc).IsWord w) : w = acc.reverse := by
  cases isName with
  | true =>
    rcases h with h | h
    · cases h
    · cases h
      rfl
  | false =>
    rcases hk : Keyword.ofText? acc.reverse with _ | k
    · have hflush : flush false acc = .word acc.reverse := by simp [flush, hk]
      rw [hflush] at h
      rcases h with h | h <;> cases h
      rfl
    · have hflush : flush false acc = .kw k := by simp [flush, hk]
      rw [hflush] at h
      rcases h with h | h <;> cases h

theorem tokens_codeStep (named : Bool) (c : Char) : (codeStep named c).1 = [] ∨ (codeStep named c).1 = [.sym c] := by
  unfold codeStep
  split_ifs <;> simp

theorem not_isWord_codeStep {w : Text} {t : Token} {named : Bool} {c : Char} (h : t ∈ (codeStep named c).1) :
    ¬ t.IsWord w := by
  rcases tokens_codeStep named c with hts | hts <;> rw [hts] at h
  · cases h
  · obtain rfl := List.mem_singleton.1 h
    rintro (h | h) <;> cases h

/-- A word ends in a mode that reads one. -/
theorem mode_of_isWord_step {w : Text} {t : Token} {m : Mode} {c : Char} (ht : t ∈ (step m c).1) (hw : t.IsWord w) :
    (∃ isName acc, m = .word isName acc) ∨ ∃ acc, m = .tick acc := by
  cases m with
  | word isName acc => exact .inl ⟨isName, acc, rfl⟩
  | tick acc => exact .inr ⟨acc, rfl⟩
  | code | dot => exact absurd hw (not_isWord_codeStep ht)
  | quoted q acc =>
    rw [step] at ht
    split_ifs at ht
    · obtain rfl := List.mem_singleton.1 ht
      rcases hw with hw | hw <;> cases hw
    all_goals cases ht
  | slash =>
    rw [step] at ht
    split_ifs at ht
    · cases ht
    · cases ht
    · rcases List.mem_cons.1 ht with rfl | ht
      · rcases hw with hw | hw <;> cases hw
      · exact absurd hw (not_isWord_codeStep ht)
  | escape q acc =>
    rw [step] at ht
    split_ifs at ht
    · cases ht
    · rcases hc : unescape c <;> rw [hc] at ht <;> cases ht
  | unicode q acc left value =>
    rw [step] at ht
    rcases hd : hexValue c with _ | d <;> rw [hd] at ht
    · cases ht
    · dsimp only at ht
      split_ifs at ht <;> cases ht
  | line | block | star =>
    rw [step] at ht
    split_ifs at ht <;> cases ht
  | bad => cases ht

theorem isWord_step {w : Text} {t : Token} {m : Mode} {c : Char} (ht : t ∈ (step m c).1) (hw : t.IsWord w) :
    w = m.held := by
  rcases mode_of_isWord_step ht hw with ⟨isName, acc, rfl⟩ | ⟨acc, rfl⟩
  · rw [step] at ht
    split_ifs at ht
    · cases ht
    · rcases List.mem_cons.1 ht with rfl | ht
      · exact isWord_flush hw
      · exact absurd hw (not_isWord_codeStep ht)
  · rw [step] at ht
    split_ifs at ht
    · obtain rfl := List.mem_singleton.1 ht
      rcases hw with hw | hw <;> cases hw
      rfl
    · cases ht

theorem infix_of_mem_scan {w : Text} {t : Token} {m : Mode} {cs : Text} {us : List Token}
    (hfinish : finish (scan m cs).2 = some us) (ht : t ∈ (scan m cs).1 ++ us) (hw : t.IsWord w) :
    w <:+: m.held ++ cs := by
  induction cs generalizing m with
  | nil =>
    have ht : t ∈ us := ht
    have hfinish : finish m = some us := hfinish
    cases m with
    | word isName acc =>
      obtain rfl := Option.some.inj hfinish
      obtain rfl := List.mem_singleton.1 ht
      rw [isWord_flush hw, List.append_nil]
      exact List.infix_rfl
    | slash =>
      obtain rfl := Option.some.inj hfinish
      obtain rfl := List.mem_singleton.1 ht
      rcases hw with hw | hw <;> cases hw
    | code | dot | line =>
      obtain rfl := Option.some.inj hfinish
      cases ht
    | _ => cases hfinish
  | cons c cs ih =>
    rw [scan, List.append_assoc] at ht
    rcases List.mem_append.1 ht with ht | ht
    · rw [isWord_step ht hw]
      exact (List.prefix_append _ _).isInfix
    · refine (ih hfinish ht).trans ?_
      obtain ⟨l, hl⟩ := held_step m c
      refine ⟨l, [], ?_⟩
      rw [List.append_nil, ← List.append_assoc, hl, List.append_assoc]
      rfl

/-- A word of a text stands in it. -/
theorem infix_of_mem_lex {w cs : Text} {ts : List Token} (h : lex cs = some ts) (hw : .word w ∈ ts ∨ .name w ∈ ts) :
    w <:+: cs := by
  obtain ⟨us, hfinish, rfl⟩ := Option.map_eq_some_iff.1 h
  rcases hw with hw | hw
  · exact infix_of_mem_scan hfinish hw (.inl rfl)
  · exact infix_of_mem_scan hfinish hw (.inr rfl)

end Cypher
