import Dgraphai.Lib.CypherText
import Mathlib.Data.List.Infix
import Mathlib.Data.List.TakeWhile

/-!
# Texts in Python

UTF-8, `re.search` and `re.sub` of a word, the templates of `re.sub`, the removal of `\s+LIMIT\s+\d+`, and what
`float` reads. Of the characters beyond ASCII a `Unicode` says which are alphanumeric and which are decimal
digits.
-/

namespace PyText

open Cypher (Text isSpace)

structure Unicode where
  alnum : Char → Bool
  decimal : Char → Bool

namespace Unicode

variable (U : Unicode)

/-- `\w`. -/
def isWord (c : Char) : Bool := c.isAlphanum || c = '_' || (128 ≤ c.toNat && !isSpace c && U.alnum c)

/-- `\d`. -/
def isDecimal (c : Char) : Bool := c.isDigit || (128 ≤ c.toNat && !isSpace c && U.decimal c)

end Unicode

/-! ### Bytes -/

/-- `t.encode()`. -/
def encode (t : Text) : List UInt8 := (String.ofList t).toUTF8.data.toList

/-- `b.decode()`. -/
def decode? (b : List UInt8) : Option Text := (ByteArray.mk b.toArray).utf8Decode?.map Array.toList

theorem decode?_encode (t : Text) : decode? (encode t) = some t := by
  have hbytes : ByteArray.mk (String.ofList t).toUTF8.data.toList.toArray = t.utf8Encode := rfl
  rw [decode?, encode, hbytes, List.utf8Decode?_utf8Encode]
  rfl

theorem encode_eq_flatMap (t : Text) : encode t = t.flatMap String.utf8EncodeChar := by
  show t.utf8Encode.data.toList = _
  rw [List.utf8Encode, List.toList_data_toByteArray]

/-- A byte below 128 is a character of its own. -/
theorem toNat_of_mem_utf8EncodeChar {c : Char} {b : UInt8} (h : b ∈ String.utf8EncodeChar c) (hb : b.toNat < 128) :
    c.toNat = b.toNat := by
  have hor : ∀ x y : UInt8, 128 ≤ y.toNat → b ≠ x ||| y := by
    rintro x y hy rfl
    rw [UInt8.toNat_or] at hb
    exact absurd (Nat.le_trans hy Nat.right_le_or) (Nat.not_le.2 hb)
  have hsizes : c.utf8Size = 1 ∨ c.utf8Size = 2 ∨ c.utf8Size = 3 ∨ c.utf8Size = 4 := by
    have hpos := c.utf8Size_pos
    have hle := c.utf8Size_le_four
    omega
  rcases hsizes with hsize | hsize | hsize | hsize
  · have hsmall : c.toNat ≤ 127 := Char.utf8Size_eq_one_iff.1 hsize
    rw [String.utf8EncodeChar_eq_singleton hsize, List.mem_singleton] at h
    rw [h, UInt32.toNat_toUInt8]
    show c.toNat = c.toNat % 256
    omega
  · rw [String.utf8EncodeChar_eq_cons_cons hsize] at h
    simp only [List.mem_cons, List.not_mem_nil, or_false] at h
    rcases h with h | h <;> exact absurd h (hor _ _ (by decide))
  · rw [String.utf8EncodeChar_eq_cons_cons_cons hsize] at h
    simp only [List.mem_cons, List.not_mem_nil, or_false] at h
    rcases h with h | h | h <;> exact absurd h (hor _ _ (by decide))
  · rw [String.utf8EncodeChar_eq_cons_cons_cons_cons hsize] at h
    simp only [List.mem_cons, List.not_mem_nil, or_false] at h
    rcases h with h | h | h | h <;> exact absurd h (hor _ _ (by decide))

/-! ### Words -/

/-- Whether a character is a letter in capitals under `re.IGNORECASE`. -/
def ignoreCase (k c : Char) : Bool :=
  c.toUpper = k || (k = 'I' && (c = '\u0131' || c = '\u0130')) || (k = 'S' && c = '\u017f') ||
    (k = 'K' && c = '\u212a')

/-- A word at the start of a text, as it stands there, and what follows. -/
def word? : Text → Text → Option (Text × Text)
  | [], t => some ([], t)
  | _ :: _, [] => none
  | k :: w, c :: t => if ignoreCase k c then (word? w t).map fun p => (c :: p.1, p.2) else none

/-- The first `\bw\b` in a text: what stands before it, the word and what follows. -/
def search (U : Unicode) (w : Text) : Text → Text → Option (Text × Text × Text)
  | _, [] => none
  | before, c :: t =>
    match word? w (c :: t) with
    | some (found, rest) =>
      if !(before.head?.any U.isWord) && !(rest.head?.any U.isWord) then some (before.reverse, found, rest)
      else search U w (c :: before) t
    | none => search U w (c :: before) t

theorem suffix_of_word? {w t : Text} {p : Text × Text} (h : word? w t = some p) : p.2 <:+ t := by
  induction w generalizing t p with
  | nil =>
    cases h
    exact List.suffix_refl t
  | cons k w ih =>
    cases t with
    | nil => cases h
    | cons c t =>
      unfold word? at h
      split_ifs at h
      obtain ⟨q, hq, rfl⟩ := Option.map_eq_some_iff.1 h
      exact (ih hq).trans (List.suffix_cons c t)

theorem search_congr {U V : Unicode} {w before t : Text} (h : ∀ c ∈ before ++ t, c.toNat < 128) :
    search U w before t = search V w before t := by
  have hword : ∀ c : Char, c.toNat < 128 → U.isWord c = V.isWord c := by
    intro c hc
    simp [Unicode.isWord, Nat.not_le.2 hc]
  induction t generalizing before with
  | nil => rfl
  | cons c t ih =>
    have hnext : search U w (c :: before) t = search V w (c :: before) t := by
      refine ih fun d hd => h d ?_
      simp only [List.mem_append, List.mem_cons] at hd ⊢
      tauto
    unfold search
    rcases hw : word? w (c :: t) with _ | ⟨found, rest⟩
    · exact hnext
    · have hbefore : before.head?.any U.isWord = before.head?.any V.isWord := by
        cases before with
        | nil => rfl
        | cons d _ => exact hword d (h d (by simp))
      have hafter : rest.head?.any U.isWord = rest.head?.any V.isWord := by
        cases rest with
        | nil => rfl
        | cons d rest =>
          exact hword d (h d (List.mem_append_right before ((suffix_of_word? hw).subset List.mem_cons_self)))
      simp only [hbefore, hafter, hnext]

/-! ### Templates of `re.sub` -/

namespace Template

inductive Mode where
  | text
  | escape
  /-- After `\g`, and after `\g<`. -/
  | ref
  | name (acc : Text)
  /-- After `\0`: how many digits may follow, and the value so far. -/
  | octal (left value : Nat)
  /-- After one digit of a group, and after two. -/
  | digit (d : Char)
  | digits (d e : Char)
  deriving DecidableEq, Repr

def isOctal (c : Char) : Bool := '0' ≤ c && c ≤ '7'

def digitValue (c : Char) : Nat := c.toNat - '0'.toNat

def escaped (c : Char) : Option Char :=
  if c = 'a' then some (Char.ofNat 7)
  else if c = 'b' then some (Char.ofNat 8)
  else if c = 'f' then some (Char.ofNat 12)
  else if c = 'n' then some '\n'
  else if c = 'r' then some '\r'
  else if c = 't' then some '\t'
  else if c = 'v' then some (Char.ofNat 11)
  else if c = '\\' then some '\\'
  else none

/-- The group of a name in digits; no group has another name. -/
def named (groups : List Text) (name : Text) : Option Text :=
  if name ≠ [] ∧ name.all Char.isDigit then groups[Nat.ofDigitChars 10 name 0]? else none

def textStep (c : Char) : Text × Mode := if c = '\\' then ([], .escape) else ([c], .text)

/-- The text of a reference that ends before a character. -/
def ended (groups : List Text) : Mode → Option Text
  | .octal _ value => some [Char.ofNat value]
  | .digit d => groups[digitValue d]?
  | .digits d e => groups[10 * digitValue d + digitValue e]?
  | _ => none

/-- `none` where `re` raises. -/
def step (groups : List Text) : Mode → Char → Option (Text × Mode)
  | .text, c => some (textStep c)
  | .escape, c =>
    if c = 'g' then some ([], .ref)
    else if c = '0' then some ([], .octal 2 0)
    else if c.isDigit then some ([], .digit c)
    else match escaped c with
      | some e => some ([e], .text)
      | none => if c.isAlpha then none else some (['\\', c], .text)
  | .ref, c => if c = '<' then some ([], .name []) else none
  | .name acc, c =>
    if c = '>' then (named groups acc.reverse).map fun t => (t, .text) else some ([], .name (c :: acc))
  | .octal left value, c =>
    if left ≠ 0 ∧ isOctal c then some ([], .octal (left - 1) (value * 8 + digitValue c))
    else some (Char.ofNat value :: (textStep c).1, (textStep c).2)
  | .digit d, c =>
    if c.isDigit then some ([], .digits d c)
    else (ended groups (.digit d)).map fun t => (t ++ (textStep c).1, (textStep c).2)
  | .digits d e, c =>
    if isOctal d ∧ isOctal e ∧ isOctal c then
      let value := (digitValue d * 8 + digitValue e) * 8 + digitValue c
      if value ≤ 255 then some ([Char.ofNat value], .text) else none
    else (ended groups (.digits d e)).map fun t => (t ++ (textStep c).1, (textStep c).2)

def run (groups : List Text) : Mode → Text → Option (Text × Mode)
  | m, [] => some ([], m)
  | m, c :: cs => (step groups m c).bind fun p => (run groups p.2 cs).map fun q => (p.1 ++ q.1, q.2)

def finish (groups : List Text) : Mode → Option Text
  | .text => some []
  | m => ended groups m

end Template

/-- A template with the groups of a match put in. -/
def expandTemplate (groups : List Text) (template : Text) : Option Text :=
  (Template.run groups .text template).bind fun p => (Template.finish groups p.2).map (p.1 ++ ·)

namespace Template

variable {groups : List Text} {m : Mode} {a b : Text}

theorem run_append :
    run groups m (a ++ b) =
      (run groups m a).bind fun p => (run groups p.2 b).map fun q => (p.1 ++ q.1, q.2) := by
  induction a generalizing m with
  | nil =>
    show run groups m b = (run groups m b).map fun q => ([] ++ q.1, q.2)
    rcases run groups m b with _ | q <;> rfl
  | cons c a ih =>
    rw [List.cons_append, run, run]
    rcases step groups m c with _ | p
    · rfl
    · simp only [Option.bind_some, ih]
      rcases run groups p.2 a with _ | q
      · rfl
      · simp only [Option.bind_some, Option.map_some]
        rcases run groups q.2 b with _ | r
        · rfl
        · simp only [Option.map_some, List.append_assoc]

/-- A space ends every reference but a name. -/
theorem step_space {p : Text × Mode} (h : step groups m ' ' = some p) :
    (∃ t, p = (t ++ [' '], .text)) ∨ ∃ acc, p = ([], .name acc) := by
  cases m with
  | text =>
    cases h
    exact .inl ⟨[], rfl⟩
  | escape =>
    cases h
    exact .inl ⟨['\\'], rfl⟩
  | ref => cases h
  | name acc =>
    cases h
    exact .inr ⟨' ' :: acc, rfl⟩
  | octal left value =>
    have hspace : ¬ (left ≠ 0 ∧ isOctal ' ' = true) := fun hs => absurd hs.2 (by decide)
    rw [step, if_neg hspace] at h
    cases h
    exact .inl ⟨[Char.ofNat value], rfl⟩
  | digit d =>
    have hspace : ¬ ' '.isDigit = true := by decide
    rw [step, if_neg hspace] at h
    obtain ⟨t, -, rfl⟩ := Option.map_eq_some_iff.1 h
    exact .inl ⟨t, rfl⟩
  | digits d e =>
    have hspace : ¬ (isOctal d = true ∧ isOctal e = true ∧ isOctal ' ' = true) := fun hs => absurd hs.2.2 (by decide)
    rw [step, if_neg hspace] at h
    obtain ⟨t, -, rfl⟩ := Option.map_eq_some_iff.1 h
    exact .inl ⟨t, rfl⟩

theorem run_append_eq_some {t : Text} {m' : Mode} :
    run groups m (a ++ b) = some (t, m') ↔
      ∃ s m₁ u, run groups m a = some (s, m₁) ∧ run groups m₁ b = some (u, m') ∧ t = s ++ u := by
  rw [run_append, Option.bind_eq_some_iff]
  constructor
  · rintro ⟨p, ha, h⟩
    obtain ⟨q, hb, heq⟩ := Option.map_eq_some_iff.1 h
    cases heq
    exact ⟨p.1, p.2, q.1, ha, hb, rfl⟩
  · rintro ⟨s, m₁, u, ha, hb, rfl⟩
    exact ⟨(s, m₁), ha, by rw [hb]; rfl⟩

/-- A text that ends in a space does not end inside a reference but inside a name. -/
theorem run_snoc_space {t : Text} {m' : Mode} (h : run groups m (a ++ [' ']) = some (t, m')) :
    (∃ s, t = s ++ [' '] ∧ m' = .text) ∨ ∃ acc, m' = .name acc := by
  obtain ⟨s, m₁, u, -, hspace, rfl⟩ := run_append_eq_some.1 h
  obtain ⟨p, hp, hrest⟩ := Option.bind_eq_some_iff.1 hspace
  rw [run, Option.map_some, List.append_nil] at hrest
  cases hrest
  rcases step_space hp with ⟨w, rfl⟩ | ⟨acc, rfl⟩
  · exact .inl ⟨s ++ w, (List.append_assoc s w [' ']).symm, rfl⟩
  · exact .inr ⟨acc, rfl⟩

/-- A text whose backslashes stand before quotes is its own expansion. -/
inductive Tame : Text → Prop
  | nil : Tame []
  | plain (c : Char) (cs : Text) (hc : c ≠ '\\') (h : Tame cs) : Tame (c :: cs)
  | quote (cs : Text) (h : Tame cs) : Tame ('\\' :: '\'' :: cs)

theorem Tame.run (h : Tame a) : run groups .text a = some (a, .text) := by
  induction h with
  | nil => rfl
  | plain c cs hc _ ih =>
    have hstep : step groups .text c = some ([c], .text) := by
      rw [step, textStep, if_neg hc]
    rw [Template.run, hstep, Option.bind_some, ih]
    rfl
  | quote cs _ ih =>
    have hfirst : step groups .text '\\' = some ([], .escape) := rfl
    have hsecond : step groups .escape '\'' = some (['\\', '\''], .text) := rfl
    rw [Template.run, hfirst, Option.bind_some, Template.run, hsecond, Option.bind_some, ih]
    rfl

theorem Tame.append (ha : Tame a) (hb : Tame b) : Tame (a ++ b) := by
  induction ha with
  | nil => exact hb
  | plain c cs hc _ ih => exact .plain c _ hc ih
  | quote cs _ ih => exact .quote _ ih

theorem Tame.of_not_mem (h : '\\' ∉ a) : Tame a := by
  induction a with
  | nil => exact .nil
  | cons c a ih =>
    exact .plain c a (fun hc => h (hc ▸ List.mem_cons_self)) (ih fun hmem => h (List.mem_cons_of_mem c hmem))

end Template

/-- A template `head extra \1`, the head without a backslash. -/
theorem expandTemplate_append {groups : List Text} {head extra ret : Text} (hhead : '\\' ∉ head)
    (hret : groups[1]? = some ret) :
    expandTemplate groups (head ++ extra ++ " \\1".toList) =
      (Template.run groups .text (extra ++ [' '])).bind fun q =>
        if q.2 = .text then some (head ++ q.1 ++ ret) else none := by
  have htext : head ++ extra ++ " \\1".toList = head ++ ((extra ++ [' ']) ++ ['\\', '1']) := by
    have htail : " \\1".toList = [' ', '\\', '1'] := rfl
    rw [htail, List.append_assoc, List.append_assoc]
    rfl
  rw [expandTemplate, htext, Template.run_append, (Template.Tame.of_not_mem hhead).run, Option.bind_some,
    Template.run_append]
  rcases hrun : Template.run groups .text (extra ++ [' ']) with _ | ⟨inside, m⟩
  · rfl
  rcases Template.run_snoc_space hrun with ⟨t, rfl, rfl⟩ | ⟨acc, rfl⟩
  · have hone : Template.run groups .text ['\\', '1'] = some ([], .digit '1') := rfl
    have hfinish : Template.finish groups (.digit '1') = some ret := hret
    simp only [Option.bind_some, hone, Option.map_some, hfinish]
    rw [if_pos trivial, List.append_nil]
  · have hname : Template.run groups (.name acc) ['\\', '1'] = some ([], .name ('1' :: '\\' :: acc)) := rfl
    simp only [Option.bind_some, hname, Option.map_some]
    rfl

/-! ### Removing `\s+w\s+\d+` -/

/-- What follows one or more characters of a kind. -/
def many (p : Char → Bool) : Text → Option Text
  | [] => none
  | c :: t => if p c then some (t.dropWhile p) else none

/-- What follows `\s+w\s+\d+` at the start of a text. -/
def numbered? (U : Unicode) (w t : Text) : Option Text :=
  (many isSpace t).bind fun t => (word? w t).bind fun p => (many isSpace p.2).bind (many U.isDecimal)

theorem suffix_of_many {p : Char → Bool} {c : Char} {t rest : Text} (h : many p (c :: t) = some rest) :
    rest <:+ t := by
  rw [many] at h
  split_ifs at h
  cases h
  exact List.dropWhile_suffix p

theorem suffix_of_numbered? {U : Unicode} {w t rest : Text} {c : Char} (h : numbered? U w (c :: t) = some rest) :
    rest <:+ t := by
  have hmany : ∀ {p : Char → Bool} {t rest : Text}, many p t = some rest → rest <:+ t := by
    intro p t rest hm
    cases t with
    | nil => cases hm
    | cons c t => exact (suffix_of_many hm).trans (List.suffix_cons c t)
  obtain ⟨a, ha, h⟩ := Option.bind_eq_some_iff.1 h
  obtain ⟨q, hq, h⟩ := Option.bind_eq_some_iff.1 h
  obtain ⟨b, hb, h⟩ := Option.bind_eq_some_iff.1 h
  exact (((hmany h).trans (hmany hb)).trans (suffix_of_word? hq)).trans (suffix_of_many ha)

/-- The removal, where so many characters are still part of the last match. -/
def removeFrom (U : Unicode) (w : Text) : Nat → Text → Text
  | _, [] => []
  | skip + 1, _ :: t => removeFrom U w skip t
  | 0, c :: t =>
    (numbered? U w (c :: t)).elim (c :: removeFrom U w 0 t) fun rest =>
      removeFrom U w (t.length - rest.length) t

/-- `re.sub(r'\s+w\s+\d+', '', t, flags=re.IGNORECASE)`. -/
def removeNumbered (U : Unicode) (w t : Text) : Text := removeFrom U w 0 t

theorem removeNumbered_nil {U : Unicode} {w : Text} : removeNumbered U w [] = [] := rfl

section Remove

variable {U : Unicode} {k : Char} {w t b : Text}

theorem removeFrom_eq_drop {skip : Nat} : removeFrom U w skip t = removeNumbered U w (t.drop skip) := by
  induction skip generalizing t with
  | zero => rfl
  | succ skip ih =>
    cases t with
    | nil => rfl
    | cons c t => exact ih

theorem removeNumbered_of_some {c : Char} {rest : Text} (h : numbered? U w (c :: t) = some rest) :
    removeNumbered U w (c :: t) = removeNumbered U w rest := by
  rw [removeNumbered, removeFrom, h]
  show removeFrom U w (t.length - rest.length) t = _
  rw [removeFrom_eq_drop, ← List.suffix_iff_eq_drop.1 (suffix_of_numbered? h)]

theorem removeNumbered_of_none {c : Char} (h : numbered? U w (c :: t) = none) :
    removeNumbered U w (c :: t) = c :: removeNumbered U w t := by
  rw [removeNumbered, removeFrom, h]
  rfl

/-- A text whose first character neither belongs to `\s+w\s+\d+` nor ends it early. -/
def Fence (U : Unicode) (w b : Text) : Prop :=
  ∀ c ∈ b.head?, isSpace c = false ∧ U.isDecimal c = false ∧ ∀ k ∈ w, ignoreCase k c = false

theorem many_append {p : Char → Bool} (h : ∀ c ∈ b.head?, p c = false) :
    many p (t ++ b) = (many p t).map (· ++ b) := by
  have hdrop : ∀ t : Text, (t ++ b).dropWhile p = t.dropWhile p ++ b := by
    intro t
    induction t with
    | nil =>
      cases b with
      | nil => rfl
      | cons c b => simp [List.dropWhile, h c rfl]
    | cons c t ih =>
      rw [List.cons_append, List.dropWhile_cons, List.dropWhile_cons, ih]
      split_ifs <;> rfl
  cases t with
  | nil =>
    cases b with
    | nil => rfl
    | cons c b => simp [many, h c rfl]
  | cons c t =>
    rw [List.cons_append, many, many, hdrop]
    split_ifs <;> rfl

theorem word?_append (h : ∀ c ∈ b.head?, ∀ k ∈ w, ignoreCase k c = false) :
    word? w (t ++ b) = (word? w t).map fun q => (q.1, q.2 ++ b) := by
  induction w generalizing t with
  | nil => rfl
  | cons k w ih =>
    cases t with
    | nil =>
      cases b with
      | nil => rfl
      | cons c b => simp [word?, h c rfl k List.mem_cons_self]
    | cons c t =>
      rw [List.cons_append, word?, word?, ih fun d hd l hl => h d hd l (List.mem_cons_of_mem k hl)]
      split_ifs
      · rw [Option.map_map, Option.map_map]
        rfl
      · rfl

theorem numbered?_append (h : Fence U w b) : numbered? U w (t ++ b) = (numbered? U w t).map (· ++ b) := by
  have hspace : ∀ c ∈ b.head?, isSpace c = false := fun c hc => (h c hc).1
  have hdecimal : ∀ c ∈ b.head?, U.isDecimal c = false := fun c hc => (h c hc).2.1
  unfold numbered?
  rw [many_append hspace]
  rcases many isSpace t with _ | a
  · rfl
  rw [Option.map_some, Option.bind_some, Option.bind_some, word?_append fun c hc => (h c hc).2.2]
  rcases word? w a with _ | q
  · rfl
  rw [Option.map_some, Option.bind_some, Option.bind_some, many_append hspace]
  rcases many isSpace q.2 with _ | d
  · rfl
  exact many_append hdecimal

theorem removeNumbered_append (h : Fence U w b) :
    removeNumbered U w (t ++ b) = removeNumbered U w t ++ removeNumbered U w b := by
  induction hn : t.length using Nat.strongRecOn generalizing t with
  | _ n ih =>
    cases t with
    | nil => rw [removeNumbered_nil, List.nil_append, List.nil_append]
    | cons c t =>
      rcases hnum : numbered? U w (c :: t) with _ | rest
      · have hnone : numbered? U w (c :: (t ++ b)) = none := by
          rw [← List.cons_append, numbered?_append h, hnum]
          rfl
        rw [List.cons_append, removeNumbered_of_none hnone, removeNumbered_of_none hnum,
          ih t.length (by rw [← hn]; exact Nat.lt_succ_self _) rfl]
        rfl
      · have hsome : numbered? U w (c :: (t ++ b)) = some (rest ++ b) := by
          rw [← List.cons_append, numbered?_append h, hnum]
          rfl
        rw [List.cons_append, removeNumbered_of_some hsome, removeNumbered_of_some hnum,
          ih rest.length (by rw [← hn]; exact Nat.lt_succ_of_le (suffix_of_numbered? hnum).length_le) rfl]

theorem word?_snoc_space (hw : ∀ k ∈ w, ignoreCase k ' ' = false) :
    word? w (t ++ [' ']) = (word? w t).map fun q => (q.1, q.2 ++ [' ']) :=
  word?_append fun c hc k hk => by
    cases hc
    exact hw k hk

theorem many_space_snoc :
    many isSpace (t ++ [' ']) = (many isSpace t).map (· ++ [' ']) ∨
      many isSpace (t ++ [' ']) = some [] ∧ (many isSpace t = some [] ∨ many isSpace t = none) := by
  cases t with
  | nil => exact .inr ⟨rfl, .inr rfl⟩
  | cons c t =>
    rw [List.cons_append, many, many]
    split_ifs
    · rw [List.dropWhile_append]
      rcases hdrop : t.dropWhile isSpace with _ | ⟨d, rest⟩
      · exact .inr ⟨rfl, .inl rfl⟩
      · exact .inl rfl
    · exact .inl rfl

/-- A space at the end is not removed. -/
theorem numbered?_snoc_space (hw : ∀ l ∈ k :: w, ignoreCase l ' ' = false) :
    numbered? U (k :: w) (t ++ [' ']) = (numbered? U (k :: w) t).map (· ++ [' ']) := by
  have hdecimal : ∀ c ∈ [' '].head?, U.isDecimal c = false := by
    intro c hc
    cases hc
    simp [Unicode.isDecimal]
  unfold numbered?
  rcases many_space_snoc (t := t) with hmany | ⟨hmany, hsome | hnone⟩
  · rw [hmany]
    rcases many isSpace t with _ | a
    · rfl
    rw [Option.map_some, Option.bind_some, Option.bind_some, word?_snoc_space hw]
    rcases word? (k :: w) a with _ | q
    · rfl
    rw [Option.map_some, Option.bind_some, Option.bind_some]
    rcases many_space_snoc (t := q.2) with hrest | ⟨hrest, hsome | hnone⟩
    · rw [hrest]
      rcases many isSpace q.2 with _ | d
      · rfl
      exact many_append hdecimal
    · rw [hrest, hsome]
      rfl
    · rw [hrest, hnone]
      rfl
  · rw [hmany, hsome]
    rfl
  · rw [hmany, hnone]
    rfl

theorem removeNumbered_snoc_space (hw : ∀ l ∈ k :: w, ignoreCase l ' ' = false) :
    removeNumbered U (k :: w) (t ++ [' ']) = removeNumbered U (k :: w) t ++ [' '] := by
  induction hn : t.length using Nat.strongRecOn generalizing t with
  | _ n ih =>
    cases t with
    | nil =>
      have hnone : numbered? U (k :: w) [' '] = none := rfl
      rw [List.nil_append, removeNumbered_of_none hnone, removeNumbered_nil]
      rfl
    | cons c t =>
      rcases hnum : numbered? U (k :: w) (c :: t) with _ | rest
      · have hnone : numbered? U (k :: w) (c :: (t ++ [' '])) = none := by
          rw [← List.cons_append, numbered?_snoc_space hw, hnum]
          rfl
        rw [List.cons_append, removeNumbered_of_none hnone, removeNumbered_of_none hnum,
          ih t.length (by rw [← hn]; exact Nat.lt_succ_self _) rfl]
        rfl
      · have hsome : numbered? U (k :: w) (c :: (t ++ [' '])) = some (rest ++ [' ']) := by
          rw [← List.cons_append, numbered?_snoc_space hw, hnum]
          rfl
        rw [List.cons_append, removeNumbered_of_some hsome, removeNumbered_of_some hnum,
          ih rest.length (by rw [← hn]; exact Nat.lt_succ_of_le (suffix_of_numbered? hnum).length_le) rfl]

/-- No white space stands before a letter; `after` says whether white space stands before the text. -/
def quiet (k : Char) : Bool → Text → Bool
  | _, [] => true
  | after, c :: t => if isSpace c then quiet k true t else !(after && ignoreCase k c) && quiet k false t

theorem removeNumbered_of_quiet {after : Bool} (h : quiet k after t = true) :
    removeNumbered U (k :: w) t = t := by
  have hword : ∀ t : Text, quiet k true t = true → word? (k :: w) (t.dropWhile isSpace) = none := by
    intro t ht
    induction t with
    | nil => rfl
    | cons c t ih =>
      unfold quiet at ht
      rw [List.dropWhile_cons]
      split_ifs at ht ⊢ with hc
      · exact ih ht
      · rw [Bool.and_eq_true, Bool.true_and, Bool.not_eq_true'] at ht
        rw [word?, ht.1]
        rfl
  induction t generalizing after with
  | nil => rfl
  | cons c t ih =>
    unfold quiet at h
    have hnone : numbered? U (k :: w) (c :: t) = none := by
      rw [numbered?, many]
      split_ifs at h ⊢ with hc
      · rw [Option.bind_some, hword t h]
        rfl
      · rfl
    rw [removeNumbered_of_none hnone]
    split_ifs at h
    · rw [ih h]
    · rw [Bool.and_eq_true] at h
      rw [ih h.2]

end Remove

/-! ### The numbers of `float` -/

def lower (t : Text) : Text := t.map Char.toLower

/-- A character beyond ASCII is read as a space or a digit if it is one. -/
def floatChar (U : Unicode) (c : Char) : Char :=
  if c.toNat < 128 then c else if isSpace c then ' ' else if U.isDecimal c then '0' else '?'

def isAsciiSpace (c : Char) : Bool := c = ' ' || (9 ≤ c.toNat && c.toNat ≤ 13)

def strip (t : Text) : Text := ((t.dropWhile isAsciiSpace).reverse.dropWhile isAsciiSpace).reverse

/-- Underscores stand between digits; `prev` is the character before the text. -/
def underscores : Char → Text → Bool
  | prev, [] => prev != '_'
  | prev, c :: t => (if c = '_' then prev.isDigit else prev != '_' || c.isDigit) && underscores c t

def unsigned : Text → Text
  | c :: t => if c = '+' ∨ c = '-' then t else c :: t
  | [] => []

def fraction : Text → Text
  | c :: t => if c = '.' then t else []
  | [] => []

def afterFraction : Text → Text
  | c :: t => if c = '.' then t.dropWhile Char.isDigit else c :: t
  | [] => []

def exponent : Text → Bool
  | [] => true
  | c :: t => (c = 'e' || c = 'E') && unsigned t ≠ [] && (unsigned t).all Char.isDigit

def decimalNumber (t : Text) : Bool :=
  let rest := t.dropWhile Char.isDigit
  (t.takeWhile Char.isDigit ≠ [] || (fraction rest).takeWhile Char.isDigit ≠ []) && exponent (afterFraction rest)

def number (t : Text) : Bool :=
  lower t = ['i', 'n', 'f'] || lower t = ['i', 'n', 'f', 'i', 'n', 'i', 't', 'y'] || lower t = ['n', 'a', 'n'] ||
    decimalNumber t

/-- Whether `float` reads a text. -/
def isFloat (U : Unicode) (t : Text) : Bool :=
  let t := strip (t.map (floatChar U))
  underscores '\x00' t && number (unsigned (t.filter (· ≠ '_')))

/-- The letters of a number. -/
def numberLetters : Text := ['a', 'e', 'f', 'i', 'n', 't', 'y']

def isNumberChar (U : Unicode) (c : Char) : Bool :=
  isSpace c || U.isDecimal c || c = '.' || c = '+' || c = '-' || c = '_' || c.toLower ∈ numberLetters

section Float

variable {U : Unicode} {t : Text} {c : Char}

theorem isNumberChar_of_isDigit (h : c.isDigit = true) : isNumberChar U c = true := by
  simp [isNumberChar, Unicode.isDecimal, h]

theorem isNumberChar_of_mem_unsigned (h : ∀ c ∈ unsigned t, isNumberChar U c = true) :
    ∀ c ∈ t, isNumberChar U c = true := by
  cases t with
  | nil => exact h
  | cons d t =>
    rw [unsigned] at h
    split_ifs at h with hsign
    · refine List.forall_mem_cons.2 ⟨?_, h⟩
      rcases hsign with rfl | rfl <;> simp [isNumberChar]
    · exact h

theorem isNumberChar_of_exponent (h : exponent t = true) : ∀ c ∈ t, isNumberChar U c = true := by
  cases t with
  | nil => simp
  | cons d t =>
    simp only [exponent, Bool.and_eq_true, Bool.or_eq_true, decide_eq_true_eq] at h
    obtain ⟨⟨he, -⟩, hdigits⟩ := h
    refine List.forall_mem_cons.2 ⟨?_, isNumberChar_of_mem_unsigned fun c hc => ?_⟩
    · rcases he with rfl | rfl <;> simp [isNumberChar, numberLetters]
    · exact isNumberChar_of_isDigit (List.all_eq_true.1 hdigits c hc)

theorem isNumberChar_of_dropWhile (h : ∀ c ∈ t.dropWhile Char.isDigit, isNumberChar U c = true) :
    ∀ c ∈ t, isNumberChar U c = true := by
  intro c hc
  rw [← List.takeWhile_append_dropWhile (p := Char.isDigit) (l := t)] at hc
  rcases List.mem_append.1 hc with hc | hc
  · exact isNumberChar_of_isDigit (List.mem_takeWhile_imp hc)
  · exact h c hc

theorem isNumberChar_of_afterFraction (h : ∀ c ∈ afterFraction t, isNumberChar U c = true) :
    ∀ c ∈ t, isNumberChar U c = true := by
  cases t with
  | nil => exact h
  | cons d t =>
    rw [afterFraction] at h
    split_ifs at h with hdot
    · refine List.forall_mem_cons.2 ⟨?_, isNumberChar_of_dropWhile h⟩
      rw [hdot]
      simp [isNumberChar]
    · exact h

theorem isNumberChar_of_number (h : number t = true) : ∀ c ∈ t, isNumberChar U c = true := by
  have hletters : ∀ w : Text, w ⊆ numberLetters → lower t = w → ∀ c ∈ t, isNumberChar U c = true := by
    intro w hw hlower c hc
    have hmem : c.toLower ∈ w := hlower ▸ List.mem_map_of_mem hc
    simp [isNumberChar, hw hmem]
  simp only [number, Bool.or_eq_true, decide_eq_true_eq] at h
  rcases h with ((h | h) | h) | h
  · exact hletters _ (by decide) h
  · exact hletters _ (by decide) h
  · exact hletters _ (by decide) h
  · rw [decimalNumber, Bool.and_eq_true] at h
    exact isNumberChar_of_dropWhile (isNumberChar_of_afterFraction (isNumberChar_of_exponent h.2))

theorem mem_strip (h : c ∈ t) : isAsciiSpace c = true ∨ c ∈ strip t := by
  have hdrop : ∀ t : Text, c ∈ t → isAsciiSpace c = true ∨ c ∈ t.dropWhile isAsciiSpace := by
    intro t ht
    rw [← List.takeWhile_append_dropWhile (p := isAsciiSpace) (l := t)] at ht
    rcases List.mem_append.1 ht with ht | ht
    · exact .inl (List.mem_takeWhile_imp ht)
    · exact .inr ht
  rcases hdrop t h with h | h
  · exact .inl h
  · rcases hdrop _ (List.mem_reverse.2 h) with h | h
    · exact .inl h
    · exact .inr (List.mem_reverse.2 h)

theorem isSpace_of_isAsciiSpace (h : isAsciiSpace c = true) : isSpace c = true := by
  simp only [isAsciiSpace, Bool.or_eq_true, Bool.and_eq_true, decide_eq_true_eq] at h
  rcases h with rfl | h
  · decide
  · simp only [isSpace, Bool.or_eq_true, Bool.and_eq_true, decide_eq_true_eq]
    omega

theorem isNumberChar_of_floatChar (h : isNumberChar U (floatChar U c) = true) : isNumberChar U c = true := by
  unfold floatChar at h
  split_ifs at h with hascii hspace hdecimal
  · exact h
  · simp [isNumberChar, hspace]
  · simp [isNumberChar, hdecimal]
  · have hspace : isSpace '?' = false := by decide
    simp [isNumberChar, Unicode.isDecimal, numberLetters, hspace] at h

/-- What `float` reads is made of digits, signs, dots, underscores, white space and a few letters. -/
theorem isNumberChar_of_isFloat (h : isFloat U t = true) : ∀ c ∈ t, isNumberChar U c = true := by
  intro c hc
  rw [isFloat, Bool.and_eq_true] at h
  rcases mem_strip (List.mem_map_of_mem (f := floatChar U) hc) with hspace | hmem
  · refine isNumberChar_of_floatChar ?_
    simp [isNumberChar, isSpace_of_isAsciiSpace hspace]
  · refine isNumberChar_of_floatChar ?_
    by_cases hunder : floatChar U c = '_'
    · rw [hunder]
      simp [isNumberChar]
    · refine isNumberChar_of_mem_unsigned (isNumberChar_of_number h.2) _ (List.mem_filter.2 ⟨hmem, ?_⟩)
      exact decide_eq_true hunder

theorem isSpace_eq_false_of_isAlphanum (h : c.isAlphanum = true) : isSpace c = false :=
  Cypher.isSpace_of_isWordChar (by simp [Cypher.isWordChar, h])

theorem mem_of_mem_dropWhile {p : Char → Bool} (h : c ∈ t.dropWhile p) : c ∈ t :=
  (List.dropWhile_suffix p).subset h

theorem exists_digit_of_takeWhile (h : t.takeWhile Char.isDigit ≠ []) : ∃ c ∈ t, c.isDigit = true := by
  obtain ⟨c, hc⟩ := List.exists_mem_of_ne_nil _ h
  exact ⟨c, (List.takeWhile_prefix _).subset hc, List.mem_takeWhile_imp hc⟩

/-- A number has a digit or a letter. -/
theorem exists_alphanum_of_number (h : number t = true) : ∃ c ∈ t, c.isAlphanum = true := by
  have hletters : ∀ w : Text, w ≠ [] → w.all Char.isLower = true → lower t = w → ∃ c ∈ t, c.isAlphanum = true := by
    intro w hw hlower heq
    obtain ⟨d, hd⟩ := List.exists_mem_of_ne_nil _ hw
    rw [← heq] at hd
    obtain ⟨c, hc, rfl⟩ := List.mem_map.1 hd
    refine ⟨c, hc, ?_⟩
    have hd := List.all_eq_true.1 hlower c.toLower (heq ▸ List.mem_map_of_mem hc)
    show ((c.isUpper || c.isLower) || c.isDigit) = true
    by_cases hupper : c.isUpper = true
    · rw [hupper]
      rfl
    · have hsame : c.toLower = c := by
        unfold Char.toLower
        rw [dif_neg]
        exact fun hrange => hupper (decide_eq_true hrange)
      rw [hsame] at hd
      rw [hd, Bool.or_true, Bool.true_or]
  simp only [number, Bool.or_eq_true, decide_eq_true_eq] at h
  rcases h with ((h | h) | h) | h
  · exact hletters _ (by simp) rfl h
  · exact hletters _ (by simp) rfl h
  · exact hletters _ (by simp) rfl h
  · rw [decimalNumber, Bool.and_eq_true, Bool.or_eq_true, decide_eq_true_eq, decide_eq_true_eq] at h
    obtain ⟨c, hc, hdigit⟩ : ∃ c ∈ t, c.isDigit = true := by
      rcases h.1 with hint | hfrac
      · exact exists_digit_of_takeWhile hint
      · obtain ⟨c, hc, hdigit⟩ := exists_digit_of_takeWhile hfrac
        refine ⟨c, mem_of_mem_dropWhile (p := Char.isDigit) ?_, hdigit⟩
        cases hrest : t.dropWhile Char.isDigit with
        | nil =>
          rw [hrest] at hc
          cases hc
        | cons d rest =>
          rw [hrest, fraction] at hc
          split_ifs at hc
          · exact List.mem_cons_of_mem d hc
          · cases hc
    exact ⟨c, hc, by simp [Char.isAlphanum, hdigit]⟩

theorem exists_not_space_of_isFloat (h : isFloat U t = true) : ∃ c ∈ t, isSpace c = false := by
  rw [isFloat, Bool.and_eq_true] at h
  obtain ⟨c, hc, halphanum⟩ := exists_alphanum_of_number h.2
  have hunsigned : ∀ {t : Text}, c ∈ unsigned t → c ∈ t := by
    intro t ht
    cases t with
    | nil => exact ht
    | cons d t =>
      rw [unsigned] at ht
      split_ifs at ht
      · exact List.mem_cons_of_mem d ht
      · exact ht
  have hstrip : c ∈ strip (t.map (floatChar U)) := (List.mem_filter.1 (hunsigned hc)).1
  have hmap : c ∈ t.map (floatChar U) :=
    mem_of_mem_dropWhile (List.mem_reverse.1 (mem_of_mem_dropWhile (List.mem_reverse.1 hstrip)))
  obtain ⟨d, hd, rfl⟩ := List.mem_map.1 hmap
  refine ⟨d, hd, eq_false_of_ne_true fun hspace => ?_⟩
  have hnot := isSpace_eq_false_of_isAlphanum halphanum
  unfold floatChar at hnot
  rw [if_pos hspace] at hnot
  split_ifs at hnot
  · rw [hspace] at hnot
    cases hnot
  · revert hnot
    decide

end Float

end PyText
