import Dgraphai.Lib.JsonSort
import Mathlib.Data.List.TakeWhile

/-!
# JSON texts

`dumps` writes a value with the characters outside ASCII escaped, `loads` reads one. A text that was written is read
as the value written (`loads_dumps`), for values whose `real`s are numbers (`Representable`).
-/

namespace JsonText

/-! ### Digits and numbers -/

def isDigit (c : Char) : Bool := decide ('0' ≤ c ∧ c ≤ '9')

/-- The characters that go on with a number. -/
def inNumber (c : Char) : Bool := isDigit c || c = '.' || c = 'e' || c = 'E' || c = '+' || c = '-'

/-- No number goes on in `r`. -/
def Ends (r : List Char) : Prop := ∀ c ∈ r.head?, inNumber c = false

/-- The digits at the head, and what follows. -/
def digits (s : List Char) : List Char × List Char := (s.takeWhile isDigit, s.dropWhile isDigit)

/-- `0|[1-9]\d*`. -/
def intPart : List Char → Option (List Char × List Char)
  | [] => none
  | c :: s =>
    if c = '0' then some ([c], s) else if isDigit c then some (c :: (digits s).1, (digits s).2) else none

/-- `(\.\d+)?`. -/
def fracPart : List Char → List Char × List Char
  | [] => ([], [])
  | c :: s => if c = '.' ∧ (digits s).1 ≠ [] then (c :: (digits s).1, (digits s).2) else ([], c :: s)

/-- An optional sign out of those given. -/
def signPart (signs : List Char) : List Char → List Char × List Char
  | [] => ([], [])
  | c :: s => if c ∈ signs then ([c], s) else ([], c :: s)

/-- `([eE][-+]?\d+)?`. -/
def expPart : List Char → List Char × List Char
  | [] => ([], [])
  | c :: s =>
    let (sign, s') := signPart ['+', '-'] s
    if (c = 'e' ∨ c = 'E') ∧ (digits s').1 ≠ [] then (c :: sign ++ (digits s').1, (digits s').2) else ([], c :: s)

def number (s : List Char) : Option (Json × List Char) :=
  let (sign, s) := signPart ['-'] s
  (intPart s).map fun (ds, s) =>
    let (frac, s) := fracPart s
    let (exp, s) := expPart s
    if frac = [] ∧ exp = [] then
      (.num (if sign = [] then Nat.ofDigitChars 10 ds 0 else -Nat.ofDigitChars 10 ds 0), s)
    else (.real (String.ofList (sign ++ ds ++ frac ++ exp)), s)

variable {r s s' t ds : List Char}

theorem Ends.not_digit (h : Ends r) : ∀ c ∈ r.head?, isDigit c = false := by
  intro c hc
  have hin := h c hc
  simp only [inNumber, Bool.or_eq_false_iff] at hin
  exact hin.1.1.1.1.1

theorem digits_append (h : Ends r) (s : List Char) : digits (s ++ r) = ((digits s).1, (digits s).2 ++ r) := by
  induction s with
  | nil =>
    cases r with
    | nil => rfl
    | cons c r =>
      have hc := h.not_digit c rfl
      simp [digits, hc]
  | cons c s ih =>
    simp only [digits, Prod.mk.injEq] at ih ⊢
    by_cases hc : isDigit c = true
    · rw [List.cons_append, List.takeWhile_cons_of_pos hc, List.takeWhile_cons_of_pos hc, ih.1,
        List.dropWhile_cons_of_pos hc, List.dropWhile_cons_of_pos hc, ih.2]
      exact ⟨rfl, rfl⟩
    · rw [List.cons_append, List.takeWhile_cons_of_neg hc, List.takeWhile_cons_of_neg hc,
        List.dropWhile_cons_of_neg hc, List.dropWhile_cons_of_neg hc]
      exact ⟨rfl, rfl⟩

theorem Ends.head_ne (h : Ends r) {c : Char} (hc : inNumber c = true) (s : List Char) : r ≠ c :: s := by
  rintro rfl
  rw [h c rfl] at hc
  cases hc

theorem intPart_append (h : Ends r) (hs : intPart s = some (ds, s')) : intPart (s ++ r) = some (ds, s' ++ r) := by
  cases s with
  | nil => cases hs
  | cons c s =>
    rw [List.cons_append]
    simp only [intPart, digits_append h] at hs ⊢
    split_ifs at hs ⊢ <;> cases hs <;> rfl

theorem fracPart_append (h : Ends r) (s : List Char) : fracPart (s ++ r) = ((fracPart s).1, (fracPart s).2 ++ r) := by
  cases s with
  | nil =>
    cases r with
    | nil => rfl
    | cons c r =>
      have hc : c ≠ '.' := fun hc => h.head_ne (c := c) (by rw [hc]; rfl) r rfl
      simp [fracPart, hc]
  | cons c s =>
    rw [List.cons_append]
    simp only [fracPart, digits_append h]
    split_ifs <;> rfl

theorem signPart_append (h : Ends r) {signs : List Char} (hsigns : ∀ c ∈ signs, inNumber c = true) (s : List Char) :
    signPart signs (s ++ r) = ((signPart signs s).1, (signPart signs s).2 ++ r) := by
  cases s with
  | nil =>
    cases r with
    | nil => rfl
    | cons c r =>
      have hc : c ∉ signs := fun hc => h.head_ne (hsigns c hc) r rfl
      simp [signPart, hc]
  | cons c s =>
    rw [List.cons_append]
    simp only [signPart]
    split_ifs <;> rfl

theorem expPart_append (h : Ends r) (s : List Char) : expPart (s ++ r) = ((expPart s).1, (expPart s).2 ++ r) := by
  cases s with
  | nil =>
    cases r with
    | nil => rfl
    | cons c r =>
      have hc : ¬ (c = 'e' ∨ c = 'E') := by
        rintro (hc | hc) <;> exact h.head_ne (c := c) (by rw [hc]; rfl) r rfl
      simp [expPart, hc]
  | cons c s =>
    have hsigns : ∀ c ∈ ['+', '-'], inNumber c = true :=
      List.forall_mem_cons.2 ⟨rfl, List.forall_mem_singleton.2 rfl⟩
    rw [List.cons_append]
    simp only [expPart, signPart_append h hsigns, digits_append h]
    split_ifs <;> rfl

/-- What follows a number does not change it. -/
theorem number_append {j : Json} (h : Ends r) (hs : number s = some (j, s')) : number (s ++ r) = some (j, s' ++ r) := by
  have hsigns : ∀ c ∈ ['-'], inNumber c = true := List.forall_mem_singleton.2 rfl
  rw [number, signPart_append h hsigns]
  rw [number] at hs
  simp only at hs ⊢
  obtain ⟨⟨ds, s''⟩, hint, heq⟩ := Option.map_eq_some_iff.1 hs
  rw [intPart_append h hint, Option.map_some, fracPart_append h]
  simp only [expPart_append h] at heq ⊢
  split_ifs at heq ⊢ <;> cases heq <;> rfl

/-! ### Integers -/

/-- `int.__repr__`. -/
def intText (n : ℤ) : List Char := (if n < 0 then ['-'] else []) ++ Nat.toDigits 10 n.natAbs

theorem isDigit_of_mem_toDigits {n : ℕ} {c : Char} (h : c ∈ Nat.toDigits 10 n) : isDigit c = true := by
  have hc := Nat.isDigit_of_mem_toDigits (by decide) (by decide) h
  simp only [Char.isDigit, Bool.and_eq_true, decide_eq_true_iff] at hc
  exact decide_eq_true ⟨hc.1, hc.2⟩

theorem head_toDigits {n : ℕ} (h : 0 < n) : ∀ c ∈ (Nat.toDigits 10 n).head?, c ≠ '0' := by
  induction n using Nat.strong_induction_on with
  | _ n ih =>
    by_cases hn : n < 10
    · rw [Nat.toDigits_of_lt_base hn]
      rintro c ⟨⟩
      have hall : ∀ k < 10, 0 < k → Nat.digitChar k ≠ '0' := by decide
      exact hall n hn h
    · have hdiv := ih (n / 10) (by omega) (by omega)
      obtain ⟨d, ds, hds⟩ := List.exists_cons_of_ne_nil (Nat.toDigits_ne_nil (n := n / 10) (b := 10))
      rw [Nat.toDigits_of_base_le (by decide) (by omega), hds]
      rw [hds] at hdiv
      exact hdiv

theorem intPart_toDigits (n : ℕ) : intPart (Nat.toDigits 10 n) = some (Nat.toDigits 10 n, []) := by
  rcases Nat.eq_zero_or_pos n with rfl | hn
  · rfl
  · have hhead := head_toDigits hn
    have hall : ∀ c ∈ Nat.toDigits 10 n, isDigit c = true := fun c hc => isDigit_of_mem_toDigits hc
    cases hds : Nat.toDigits 10 n with
    | nil => exact absurd hds Nat.toDigits_ne_nil
    | cons c ds =>
      rw [hds] at hhead hall
      rw [List.forall_mem_cons] at hall
      rw [intPart, if_neg (hhead c rfl), if_pos hall.1, digits, List.takeWhile_eq_self_iff.2 hall.2,
        List.dropWhile_eq_nil_iff.2 hall.2]

theorem number_intText (n : ℤ) : number (intText n) = some (.num n, []) := by
  have hsign : signPart ['-'] (intText n) = (if n < 0 then ['-'] else [], Nat.toDigits 10 n.natAbs) := by
    rw [intText]
    split_ifs with hn
    · rfl
    · have hall : ∀ c ∈ Nat.toDigits 10 n.natAbs, isDigit c = true := fun c hc => isDigit_of_mem_toDigits hc
      cases hds : Nat.toDigits 10 n.natAbs with
      | nil => rfl
      | cons c ds =>
        have hc : c ≠ '-' := by
          rintro rfl
          exact absurd (hall '-' (hds ▸ List.mem_cons_self)) (by decide)
        simp [signPart, hc]
  rw [number, hsign]
  simp only [intPart_toDigits, Option.map_some, fracPart, expPart, and_self, if_true, Nat.ofDigitChars_ten_toDigits]
  have hvalue : (if (if n < 0 then ['-'] else []) = [] then (n.natAbs : ℤ) else -(n.natAbs : ℤ)) = n := by
    by_cases hn : n < 0
    · rw [if_pos hn, if_neg (List.cons_ne_nil _ _)]
      omega
    · rw [if_neg hn, if_pos rfl]
      omega
  rw [hvalue]

/-! ### Strings -/

/-- A character of a string, or the number of an escape `\uXXXX`. -/
inductive Piece where
  | char (c : Char)
  | code (n : ℕ)
  deriving DecidableEq, Repr

def hexValue (c : Char) : Option ℕ :=
  if isDigit c then some (c.toNat - '0'.toNat)
  else if 'a' ≤ c ∧ c ≤ 'f' then some (c.toNat - 'a'.toNat + 10)
  else if 'A' ≤ c ∧ c ≤ 'F' then some (c.toNat - 'A'.toNat + 10)
  else none

/-- `{0:04x}`. -/
def hex4Text (n : ℕ) : List Char :=
  [Nat.digitChar (n / 4096 % 16), Nat.digitChar (n / 256 % 16), Nat.digitChar (n / 16 % 16), Nat.digitChar (n % 16)]

/-- The letters of the short escapes, with what they stand for. -/
def shortEscapes : List (Char × Char) :=
  [('"', '"'), ('\\', '\\'), ('/', '/'), ('b', '\x08'), ('f', '\x0c'), ('n', '\n'), ('r', '\r'), ('t', '\t')]

/-- The letter of a character's short escape; `/` stands for itself. -/
def shortEscape? (c : Char) : Option Char :=
  if c = '/' then none else (shortEscapes.find? fun e => e.2 = c).map (·.1)

/-- Inside a string: behind a backslash, or behind `\u` and some digits with `left + 1` to come. -/
inductive Mode where
  | plain
  | escape
  | hex (value left : ℕ)

/-- The pieces up to the closing quote, and what follows it. -/
def pieces : Mode → List Char → Option (List Piece × List Char)
  | _, [] => none
  | .plain, c :: s =>
    if c = '"' then some ([], s)
    else if c = '\\' then pieces .escape s
    else if c < ' ' then none
    else (pieces .plain s).map fun p => (.char c :: p.1, p.2)
  | .escape, c :: s =>
    if c = 'u' then pieces (.hex 0 3) s
    else (shortEscapes.lookup c).bind fun x => (pieces .plain s).map fun p => (.char x :: p.1, p.2)
  | .hex n 0, c :: s => (hexValue c).bind fun v => (pieces .plain s).map fun p => (.code (n * 16 + v) :: p.1, p.2)
  | .hex n (left + 1), c :: s => (hexValue c).bind fun v => pieces (.hex (n * 16 + v) left) s

/-- The characters of the pieces, behind the first half of a surrogate pair if there is one; a lone surrogate is no
character. -/
def join : Option ℕ → List Piece → Option (List Char)
  | none, [] => some []
  | none, .char c :: ps => (join none ps).map (c :: ·)
  | none, .code n :: ps =>
    if n < 0xd800 ∨ 0xdfff < n then (join none ps).map (Char.ofNat n :: ·)
    else if n ≤ 0xdbff then join (some n) ps
    else none
  | some n, .code m :: ps =>
    if 0xdc00 ≤ m ∧ m ≤ 0xdfff then
      (join none ps).map (Char.ofNat (0x10000 + (n - 0xd800) * 1024 + (m - 0xdc00)) :: ·)
    else none
  | some _, _ => none

/-- The rest of a string behind its opening quote. -/
def string (s : List Char) : Option (String × List Char) :=
  (pieces .plain s).bind fun p => (join none p.1).map fun cs => (String.ofList cs, p.2)

def codeText (n : ℕ) : List Char := '\\' :: 'u' :: hex4Text n

/-- The escape of a character (`ensure_ascii`). -/
def escape (c : Char) : List Char :=
  match shortEscape? c with
  | some e => ['\\', e]
  | none =>
    if ' ' ≤ c ∧ c ≤ '~' then [c]
    else if c.toNat < 0x10000 then codeText c.toNat
    else codeText (0xd800 + (c.toNat - 0x10000) / 1024) ++ codeText (0xdc00 + (c.toNat - 0x10000) % 1024)

/-- The escape of a character without `ensure_ascii`. -/
def escapeRaw (c : Char) : List Char :=
  match shortEscape? c with
  | some e => ['\\', e]
  | none => if ' ' ≤ c then [c] else codeText c.toNat

/-- How the escape of a character reads. -/
def codes (c : Char) : List Piece :=
  if (shortEscape? c).isSome ∨ ' ' ≤ c ∧ c ≤ '~' then [.char c]
  else if c.toNat < 0x10000 then [.code c.toNat]
  else [.code (0xd800 + (c.toNat - 0x10000) / 1024), .code (0xdc00 + (c.toNat - 0x10000) % 1024)]

def stringText (x : String) : List Char := '"' :: (x.toList.flatMap escape ++ ['"'])

theorem toNat_valid (c : Char) : (c.toNat < 0xd800 ∨ 0xdfff < c.toNat) ∧ c.toNat < 0x110000 := by
  have h : c.toNat < 0xd800 ∨ 0xdfff < c.toNat ∧ c.toNat < 0x110000 := c.valid
  omega

theorem pieces_codeText {n : ℕ} (h : n < 0x10000) (s : List Char) :
    pieces .plain (codeText n ++ s) = (pieces .plain s).map fun p => (.code n :: p.1, p.2) := by
  have hvalue : ∀ k < 16, hexValue (Nat.digitChar k) = some k := by decide
  have hdigit : ∀ m, hexValue (Nat.digitChar (m % 16)) = some (m % 16) := fun m => hvalue _ (Nat.mod_lt m (by decide))
  have hn : (((0 * 16 + n / 4096 % 16) * 16 + n / 256 % 16) * 16 + n / 16 % 16) * 16 + n % 16 = n := by omega
  simp only [codeText, hex4Text, List.cons_append, List.nil_append, pieces, hdigit, Option.bind_some, hn]
  rfl

theorem shortEscape?_eq_some {c e : Char} (h : shortEscape? c = some e) :
    shortEscapes.lookup e = some c ∧ e ≠ 'u' := by
  rw [shortEscape?] at h
  split_ifs at h with hslash
  obtain ⟨p, hp, rfl⟩ := Option.map_eq_some_iff.1 h
  have hc := List.find?_some hp
  rw [decide_eq_true_iff] at hc
  subst hc
  have hall : ∀ p ∈ shortEscapes, shortEscapes.lookup p.1 = some p.2 ∧ p.1 ≠ 'u' := by decide
  exact hall p (List.mem_of_find?_eq_some hp)

theorem pieces_escape (c : Char) (s : List Char) :
    pieces .plain (escape c ++ s) = (pieces .plain s).map fun p => (codes c ++ p.1, p.2) := by
  rw [escape, codes]
  cases he : shortEscape? c with
  | some e =>
    obtain ⟨hlookup, hu⟩ := shortEscape?_eq_some he
    simp only [List.cons_append, List.nil_append, pieces, if_neg hu, hlookup, Option.isSome_some, true_or, if_true]
    rfl
  | none =>
    by_cases hprint : ' ' ≤ c ∧ c ≤ '~'
    · have hquote : c ≠ '"' := by rintro rfl; cases he
      have hslash : c ≠ '\\' := by rintro rfl; cases he
      have hc : ¬ c < ' ' := Char.not_lt.2 hprint.1
      simp only [hprint, and_self, or_true, if_true, List.singleton_append, pieces, if_neg hquote, if_neg hslash,
        if_neg hc]
    · have hvalid := toNat_valid c
      simp only [hprint, if_false, Option.isSome_none, Bool.false_eq_true, false_or]
      split_ifs with hsmall
      · rw [pieces_codeText hsmall]
        rfl
      · rw [List.append_assoc, pieces_codeText (by omega), pieces_codeText (by omega), Option.map_map]
        rfl

theorem join_codes (c : Char) (ps : List Piece) : join none (codes c ++ ps) = (join none ps).map (c :: ·) := by
  have hvalid := toNat_valid c
  rw [codes]
  split_ifs with hshort hsmall
  · rfl
  · rw [List.singleton_append, join, if_pos hvalid.1, Char.ofNat_toNat]
  · have hhigh : ¬ (0xd800 + (c.toNat - 0x10000) / 1024 < 0xd800 ∨ 0xdfff < 0xd800 + (c.toNat - 0x10000) / 1024) := by
      omega
    have hfirst : 0xd800 + (c.toNat - 0x10000) / 1024 ≤ 0xdbff := by omega
    have hsecond : 0xdc00 ≤ 0xdc00 + (c.toNat - 0x10000) % 1024 ∧
        0xdc00 + (c.toNat - 0x10000) % 1024 ≤ 0xdfff := by omega
    have hnat : 0x10000 + (0xd800 + (c.toNat - 0x10000) / 1024 - 0xd800) * 1024 +
        (0xdc00 + (c.toNat - 0x10000) % 1024 - 0xdc00) = c.toNat := by omega
    rw [List.cons_append, List.singleton_append, join, if_neg hhigh, if_pos hfirst, join, if_pos hsecond, hnat,
      Char.ofNat_toNat]

/-- Escapes that read back, each as some pieces. -/
def Escapes (esc : Char → List Char) : Prop := ∀ c, ∃ ps,
  (∀ s, pieces .plain (esc c ++ s) = (pieces .plain s).map fun p => (ps ++ p.1, p.2)) ∧
    ∀ qs, join none (ps ++ qs) = (join none qs).map (c :: ·)

theorem escapes_escape : Escapes escape := fun c => ⟨codes c, pieces_escape c, join_codes c⟩

theorem escapes_escapeRaw : Escapes escapeRaw := by
  intro c
  by_cases hraw : shortEscape? c = none ∧ ' ' ≤ c
  · obtain ⟨he, hc⟩ := hraw
    have hquote : c ≠ '"' := by rintro rfl; cases he
    have hslash : c ≠ '\\' := by rintro rfl; cases he
    refine ⟨[.char c], fun s => ?_, fun qs => rfl⟩
    simp only [escapeRaw, he, if_pos hc, List.singleton_append, pieces, if_neg hquote, if_neg hslash,
      if_neg (Char.not_lt.2 hc)]
  · have heq : escapeRaw c = escape c := by
      unfold escapeRaw escape
      cases he : shortEscape? c with
      | some e => rfl
      | none =>
        have hc : ¬ ' ' ≤ c := fun hc => hraw ⟨he, hc⟩
        have hlt : c.toNat < 0x10000 := Nat.lt_trans (show c.toNat < ' '.toNat from Char.not_le.1 hc) (by decide)
        simp only [if_neg hc, if_neg fun h : ' ' ≤ c ∧ c ≤ '~' => hc h.1, if_pos hlt]
    rw [heq]
    exact escapes_escape c

/-- A string that was written is read to its closing quote. -/
theorem Escapes.string {esc : Char → List Char} (h : Escapes esc) (x : String) (r : List Char) :
    string (x.toList.flatMap esc ++ '"' :: r) = some (x, r) := by
  choose ps hps hjoin using h
  have hpieces : ∀ cs : List Char, pieces .plain (cs.flatMap esc ++ '"' :: r) = some (cs.flatMap ps, r) := by
    intro cs
    induction cs with
    | nil => rfl
    | cons c cs ih =>
      rw [List.flatMap_cons, List.append_assoc, hps, ih]
      rfl
  have hjoined : ∀ cs : List Char, join none (cs.flatMap ps) = some cs := by
    intro cs
    induction cs with
    | nil => rfl
    | cons c cs ih =>
      rw [List.flatMap_cons, hjoin, ih]
      rfl
  rw [JsonText.string, hpieces, Option.bind_some, hjoined, Option.map_some, String.ofList_toList]

/-! ### Values -/

/-- `separators=(",", ":")`, or a blank behind each. -/
inductive Style where
  | compact | spaced
  deriving DecidableEq, Repr

def Style.gap : Style → List Char
  | .compact => []
  | .spaced => [' ']

mutual

/-- `json.dumps`. -/
def dumps (style : Style) : Json → List Char
  | .null => ['n', 'u', 'l', 'l']
  | .bool true => ['t', 'r', 'u', 'e']
  | .bool false => ['f', 'a', 'l', 's', 'e']
  | .num n => intText n
  | .real text => text.toList
  | .str x => stringText x
  | .arr [] => ['[', ']']
  | .arr (x :: xs) => '[' :: (dumps style x ++ itemsText style xs)
  | .obj [] => ['{', '}']
  | .obj ((k, v) :: fs) => '{' :: (stringText k ++ ':' :: (style.gap ++ (dumps style v ++ fieldsText style fs)))

/-- The items behind the first, and the closing bracket. -/
def itemsText (style : Style) : List Json → List Char
  | [] => [']']
  | x :: xs => ',' :: (style.gap ++ (dumps style x ++ itemsText style xs))

def fieldsText (style : Style) : List (String × Json) → List Char
  | [] => ['}']
  | (k, v) :: fs =>
    ',' :: (style.gap ++ (stringText k ++ ':' :: (style.gap ++ (dumps style v ++ fieldsText style fs))))

end

mutual

/-- `json.dumps` with the characters of its strings written by `esc`. -/
def dumpsWith (esc : Char → List Char) (style : Style) : Json → List Char
  | .null => ['n', 'u', 'l', 'l']
  | .bool true => ['t', 'r', 'u', 'e']
  | .bool false => ['f', 'a', 'l', 's', 'e']
  | .num n => intText n
  | .real text => text.toList
  | .str x => '"' :: (x.toList.flatMap esc ++ ['"'])
  | .arr [] => ['[', ']']
  | .arr (x :: xs) => '[' :: (dumpsWith esc style x ++ itemsWith esc style xs)
  | .obj [] => ['{', '}']
  | .obj ((k, v) :: fs) =>
    '{' :: ('"' :: (k.toList.flatMap esc ++ '"' :: ':' :: (style.gap ++ (dumpsWith esc style v ++ fieldsWith esc style fs))))

def itemsWith (esc : Char → List Char) (style : Style) : List Json → List Char
  | [] => [']']
  | x :: xs => ',' :: (style.gap ++ (dumpsWith esc style x ++ itemsWith esc style xs))

def fieldsWith (esc : Char → List Char) (style : Style) : List (String × Json) → List Char
  | [] => ['}']
  | (k, v) :: fs =>
    ',' :: (style.gap ++ ('"' :: (k.toList.flatMap esc ++
      '"' :: ':' :: (style.gap ++ (dumpsWith esc style v ++ fieldsWith esc style fs)))))

end

mutual

theorem dumpsWith_escape (style : Style) : ∀ j : Json, dumpsWith escape style j = dumps style j
  | .null | .bool true | .bool false | .num _ | .real _ | .str _ | .arr [] | .obj [] => by rw [dumpsWith, dumps]; try rfl
  | .arr (x :: xs) => by rw [dumpsWith, dumps, dumpsWith_escape style x, itemsWith_escape style xs]
  | .obj ((k, v) :: fs) => by
    rw [dumpsWith, dumps, dumpsWith_escape style v, fieldsWith_escape style fs, stringText]
    simp only [List.cons_append, List.append_assoc, List.nil_append]

theorem itemsWith_escape (style : Style) : ∀ xs : List Json, itemsWith escape style xs = itemsText style xs
  | [] => by rw [itemsWith, itemsText]
  | x :: xs => by rw [itemsWith, itemsText, dumpsWith_escape style x, itemsWith_escape style xs]

theorem fieldsWith_escape (style : Style) : ∀ fs : List (String × Json), fieldsWith escape style fs = fieldsText style fs
  | [] => by rw [fieldsWith, fieldsText]
  | (k, v) :: fs => by
    rw [fieldsWith, fieldsText, dumpsWith_escape style v, fieldsWith_escape style fs, stringText]
    simp only [List.cons_append, List.append_assoc, List.nil_append]

end

def isBlank (c : Char) : Bool := decide (c = ' ' ∨ c = '\t' ∨ c = '\n' ∨ c = '\r')

def skip (s : List Char) : List Char := s.dropWhile isBlank

/-- The rest of a word, and what follows. -/
def word (rest : List Char) (j : Json) (s : List Char) : Option (Json × List Char) :=
  if s.take rest.length = rest then some (j, s.drop rest.length) else none

/-- A key and its colon. -/
def key : List Char → Option (String × List Char)
  | [] => none
  | c :: s =>
    if c = '"' then (string s).bind fun p => if (skip p.2).head? = some ':' then some (p.1, skip (skip p.2).tail) else none
    else none

mutual

/-- A value; `fuel` bounds the nesting and the number of its items. -/
def value : ℕ → List Char → Option (Json × List Char)
  | 0, _ | _, [] => none
  | fuel + 1, c :: s =>
    if c = '"' then (string s).map fun p => (.str p.1, p.2)
    else if c = '[' then
      if (skip s).head? = some ']' then some (.arr [], (skip s).tail)
      else (value fuel (skip s)).bind fun p => (items fuel (skip p.2)).map fun q => (.arr (p.1 :: q.1), q.2)
    else if c = '{' then
      if (skip s).head? = some '}' then some (.obj [], (skip s).tail)
      else (key (skip s)).bind fun k => (value fuel k.2).bind fun p =>
        (fields fuel (skip p.2)).map fun q => (.obj ((k.1, p.1) :: q.1), q.2)
    else if c = 'n' then word ['u', 'l', 'l'] .null s
    else if c = 't' then word ['r', 'u', 'e'] (.bool true) s
    else if c = 'f' then word ['a', 'l', 's', 'e'] (.bool false) s
    else number (c :: s)

/-- The items behind one, to the closing bracket. -/
def items : ℕ → List Char → Option (List Json × List Char)
  | 0, _ | _, [] => none
  | fuel + 1, c :: s =>
    if c = ']' then some ([], s)
    else if c = ',' then
      (value fuel (skip s)).bind fun p => (items fuel (skip p.2)).map fun q => (p.1 :: q.1, q.2)
    else none

def fields : ℕ → List Char → Option (List (String × Json) × List Char)
  | 0, _ | _, [] => none
  | fuel + 1, c :: s =>
    if c = '}' then some ([], s)
    else if c = ',' then
      (key (skip s)).bind fun k => (value fuel k.2).bind fun p =>
        (fields fuel (skip p.2)).map fun q => ((k.1, p.1) :: q.1, q.2)
    else none

end

/-- `json.loads`. -/
def loads (s : List Char) : Option Json :=
  (value (s.length + 1) (skip s)).bind fun p => if skip p.2 = [] then some p.1 else none

mutual

/-- The texts of the floats are those of numbers. -/
def Representable : Json → Prop
  | .real text => number text.toList = some (.real text, [])
  | .arr xs => RepresentableItems xs
  | .obj fs => RepresentableFields fs
  | .null | .bool _ | .num _ | .str _ => True

def RepresentableItems : List Json → Prop
  | [] => True
  | x :: xs => Representable x ∧ RepresentableItems xs

def RepresentableFields : List (String × Json) → Prop
  | [] => True
  | (_, v) :: fs => Representable v ∧ RepresentableFields fs

end

theorem representable_obj {fs : List (String × Json)} : Representable (.obj fs) ↔ ∀ p ∈ fs, Representable p.2 := by
  rw [Representable]
  induction fs with
  | nil => exact iff_of_true trivial fun p hp => absurd hp List.not_mem_nil
  | cons p fs ih =>
    obtain ⟨k, x⟩ := p
    rw [RepresentableFields, ih, List.forall_mem_cons]

/-! ### What was written is read -/

/-- The first character of a value. -/
def Begins (c : Char) : Prop := isBlank c = false ∧ c ≠ ']' ∧ c ≠ '}'

instance (c : Char) : Decidable (Begins c) := inferInstanceAs (Decidable (_ ∧ _))

theorem begins_of_digit {c : Char} (h : isDigit c = true) : Begins c := by
  refine ⟨?_, ?_, ?_⟩
  · rw [isBlank, decide_eq_false_iff_not]
    rintro (rfl | rfl | rfl | rfl) <;> exact absurd h (by decide)
  all_goals
    rintro rfl
    exact absurd h (by decide)

/-- A number begins with a digit or a minus. -/
theorem head_of_number {j : Json} (h : number s = some (j, s')) : ∃ c t, s = c :: t ∧ (c = '-' ∨ isDigit c = true) := by
  cases s with
  | nil => cases h
  | cons c t =>
    refine ⟨c, t, rfl, ?_⟩
    by_cases hc : c = '-'
    · exact .inl hc
    right
    rw [number, signPart, if_neg (by simpa using hc)] at h
    obtain ⟨⟨ds, s''⟩, hint, -⟩ := Option.map_eq_some_iff.1 h
    rw [intPart] at hint
    split_ifs at hint with hzero hdigit
    · rw [hzero]
      rfl
    · exact hdigit

theorem skip_cons {c : Char} (h : isBlank c = false) (s : List Char) : skip (c :: s) = c :: s :=
  List.dropWhile_cons_of_neg (by rw [h]; exact Bool.false_ne_true)

variable {style : Style} {fuel : ℕ}

theorem skip_gap (style : Style) (s : List Char) : skip (style.gap ++ s) = skip s := by
  cases style <;> rfl

theorem value_number {j : Json} (h : number s = some (j, [])) (hr : Ends r) :
    value (fuel + 1) (s ++ r) = some (j, r) := by
  obtain ⟨c, t, rfl, hc⟩ := head_of_number h
  have hne : ∀ d, d = '"' ∨ d = '[' ∨ d = '{' ∨ d = 'n' ∨ d = 't' ∨ d = 'f' → c ≠ d := by
    rintro d hd rfl
    rcases hc with rfl | hc
    · revert hd
      decide
    · rcases hd with rfl | rfl | rfl | rfl | rfl | rfl <;> exact absurd hc (by decide)
  have happ := number_append hr h
  rw [List.nil_append, List.cons_append] at happ
  rw [List.cons_append, value, if_neg (hne _ (by simp)), if_neg (hne _ (by simp)), if_neg (hne _ (by simp)),
    if_neg (hne _ (by simp)), if_neg (hne _ (by simp)), if_neg (hne _ (by simp)), happ]

variable {esc : Char → List Char}

/-- What `dumpsWith` writes begins with a character that no blank, bracket or brace can be taken for. -/
theorem head_dumpsWith (style : Style) {j : Json} (h : Representable j) :
    ∃ c t, dumpsWith esc style j = c :: t ∧ Begins c := by
  have hnumber : ∀ {s : List Char} {j : Json}, number s = some (j, []) → ∃ c t, s = c :: t ∧ Begins c := by
    intro s j hs
    obtain ⟨c, t, hct, hc⟩ := head_of_number hs
    refine ⟨c, t, hct, ?_⟩
    rcases hc with rfl | hc
    · decide
    · exact begins_of_digit hc
  cases j with
  | null => exact ⟨'n', _, by rw [dumpsWith], by decide⟩
  | bool b => cases b <;> exact ⟨_, _, by rw [dumpsWith], by decide⟩
  | num n =>
    rw [dumpsWith]
    exact hnumber (number_intText n)
  | real text =>
    rw [dumpsWith]
    exact hnumber h
  | str x => exact ⟨'"', _, by rw [dumpsWith], by decide⟩
  | arr xs => cases xs <;> exact ⟨'[', _, by rw [dumpsWith], by decide⟩
  | obj fs => cases fs <;> exact ⟨'{', _, by rw [dumpsWith], by decide⟩

theorem skip_dumpsWith {j : Json} (h : Representable j) (s : List Char) :
    skip (dumpsWith esc style j ++ s) = dumpsWith esc style j ++ s := by
  obtain ⟨c, t, hct, hc⟩ := head_dumpsWith style h
  rw [hct]
  exact skip_cons hc.1 _

theorem Escapes.key (hesc : Escapes esc) (k : String) (s : List Char) :
    key ('"' :: (k.toList.flatMap esc ++ '"' :: ':' :: s)) = some (k, skip s) := by
  rw [JsonText.key, if_pos rfl, hesc.string, Option.bind_some, skip_cons (by decide)]
  rfl

theorem ends_itemsWith (xs : List Json) (s : List Char) : Ends (itemsWith esc style xs ++ s) := by
  cases xs <;> rintro c ⟨⟩ <;> rfl

theorem ends_fieldsWith (fs : List (String × Json)) (s : List Char) : Ends (fieldsWith esc style fs ++ s) := by
  obtain _ | ⟨⟨k, v⟩, fs⟩ := fs <;> rintro c ⟨⟩ <;> rfl

theorem skip_itemsWith (xs : List Json) (s : List Char) :
    skip (itemsWith esc style xs ++ s) = itemsWith esc style xs ++ s := by
  cases xs <;> exact skip_cons (by decide) _

theorem skip_fieldsWith (fs : List (String × Json)) (s : List Char) :
    skip (fieldsWith esc style fs ++ s) = fieldsWith esc style fs ++ s := by
  obtain _ | ⟨⟨k, v⟩, fs⟩ := fs <;> exact skip_cons (by decide) _

theorem exists_fuel (hfuel : s.length ≤ fuel) (hs : s ≠ []) : ∃ k, fuel = k + 1 ∧ s.length ≤ k + 1 := by
  cases fuel with
  | zero => exact absurd (List.length_eq_zero_iff.1 (Nat.le_zero.1 hfuel)) hs
  | succ k => exact ⟨k, rfl, hfuel⟩

mutual

theorem value_dumpsWith (hesc : Escapes esc) : ∀ (j : Json) (fuel : ℕ) (r : List Char), Representable j → (dumpsWith esc style j).length ≤ fuel →
    Ends r → value fuel (dumpsWith esc style j ++ r) = some (j, r)
  | .null, fuel, r, _, hfuel, _ => by
    rw [dumpsWith] at hfuel ⊢
    obtain ⟨fuel, rfl, -⟩ := exists_fuel hfuel (List.cons_ne_nil _ _)
    rfl
  | .bool true, fuel, r, _, hfuel, _ => by
    rw [dumpsWith] at hfuel ⊢
    obtain ⟨fuel, rfl, -⟩ := exists_fuel hfuel (List.cons_ne_nil _ _)
    rfl
  | .bool false, fuel, r, _, hfuel, _ => by
    rw [dumpsWith] at hfuel ⊢
    obtain ⟨fuel, rfl, -⟩ := exists_fuel hfuel (List.cons_ne_nil _ _)
    rfl
  | .num n, fuel, r, _, hfuel, hr => by
    rw [dumpsWith] at hfuel ⊢
    obtain ⟨fuel, rfl, -⟩ := exists_fuel hfuel (List.append_ne_nil_of_right_ne_nil _ Nat.toDigits_ne_nil)
    exact value_number (number_intText n) hr
  | .real text, fuel, r, h, hfuel, hr => by
    rw [dumpsWith] at hfuel ⊢
    rw [Representable] at h
    obtain ⟨c, t, hct, -⟩ := head_of_number h
    obtain ⟨fuel, rfl, -⟩ := exists_fuel hfuel (by rw [hct]; exact List.cons_ne_nil _ _)
    exact value_number h hr
  | .str x, fuel, r, _, hfuel, _ => by
    rw [dumpsWith] at hfuel ⊢
    obtain ⟨fuel, rfl, -⟩ := exists_fuel hfuel (List.cons_ne_nil _ _)
    rw [List.cons_append, value, if_pos rfl, List.append_assoc, List.singleton_append, hesc.string]
    rfl
  | .arr [], fuel, r, _, hfuel, _ => by
    rw [dumpsWith] at hfuel ⊢
    obtain ⟨fuel, rfl, -⟩ := exists_fuel hfuel (List.cons_ne_nil _ _)
    rfl
  | .arr (x :: xs), fuel, r, h, hfuel, hr => by
    rw [dumpsWith] at hfuel ⊢
    rw [Representable, RepresentableItems] at h
    obtain ⟨fuel, rfl, hlen⟩ := exists_fuel hfuel (List.cons_ne_nil _ _)
    simp only [List.length_cons, List.length_append] at hlen
    have hx := value_dumpsWith hesc x fuel (itemsWith esc style xs ++ r) h.1 (by omega) (ends_itemsWith xs r)
    have hxs := items_itemsWith hesc xs fuel r h.2 (by omega)
    obtain ⟨c, t, hct, hc⟩ := head_dumpsWith style h.1
    have hhead : (dumpsWith esc style x ++ (itemsWith esc style xs ++ r)).head? ≠ some ']' := by
      rw [hct]
      exact fun he => hc.2.1 (Option.some.inj he)
    rw [List.cons_append, List.append_assoc, value, if_neg (by decide), if_pos rfl, skip_dumpsWith h.1,
      if_neg hhead, hx, Option.bind_some, skip_itemsWith, hxs]
    rfl
  | .obj [], fuel, r, _, hfuel, _ => by
    rw [dumpsWith] at hfuel ⊢
    obtain ⟨fuel, rfl, -⟩ := exists_fuel hfuel (List.cons_ne_nil _ _)
    rfl
  | .obj ((k, v) :: fs), fuel, r, h, hfuel, hr => by
    rw [dumpsWith] at hfuel ⊢
    rw [Representable, RepresentableFields] at h
    obtain ⟨fuel, rfl, hlen⟩ := exists_fuel hfuel (List.cons_ne_nil _ _)
    simp only [List.length_cons, List.length_append] at hlen
    have hv := value_dumpsWith hesc v fuel (fieldsWith esc style fs ++ r) h.1 (by omega) (ends_fieldsWith fs r)
    have hfs := fields_fieldsWith hesc fs fuel r h.2 (by omega)
    have hskip (t : List Char) : skip ('"' :: t) = '"' :: t := skip_cons (by decide) _
    have hhead (t : List Char) : ('"' :: t).head? ≠ some '}' := fun he => absurd (Option.some.inj he) (by decide)
    simp only [List.cons_append, List.append_assoc]
    rw [value, if_neg (by decide), if_neg (by decide), if_pos rfl, hskip, if_neg (hhead _), hesc.key, Option.bind_some]
    simp only [skip_gap, skip_dumpsWith h.1, hv, Option.bind_some, skip_fieldsWith, hfs, Option.map_some]

theorem items_itemsWith (hesc : Escapes esc) : ∀ (xs : List Json) (fuel : ℕ) (r : List Char), RepresentableItems xs →
    (itemsWith esc style xs).length ≤ fuel → items fuel (itemsWith esc style xs ++ r) = some (xs, r)
  | [], fuel, r, _, hfuel => by
    rw [itemsWith] at hfuel ⊢
    obtain ⟨fuel, rfl, -⟩ := exists_fuel hfuel (List.cons_ne_nil _ _)
    rfl
  | x :: xs, fuel, r, h, hfuel => by
    rw [itemsWith] at hfuel ⊢
    rw [RepresentableItems] at h
    obtain ⟨fuel, rfl, hlen⟩ := exists_fuel hfuel (List.cons_ne_nil _ _)
    simp only [List.length_cons, List.length_append] at hlen
    have hx := value_dumpsWith hesc x fuel (itemsWith esc style xs ++ r) h.1 (by omega) (ends_itemsWith xs r)
    have hxs := items_itemsWith hesc xs fuel r h.2 (by omega)
    simp only [List.cons_append, List.append_assoc]
    rw [items, if_neg (by decide), if_pos rfl, skip_gap, skip_dumpsWith h.1, hx, Option.bind_some, skip_itemsWith, hxs]
    rfl

theorem fields_fieldsWith (hesc : Escapes esc) : ∀ (fs : List (String × Json)) (fuel : ℕ) (r : List Char), RepresentableFields fs →
    (fieldsWith esc style fs).length ≤ fuel → fields fuel (fieldsWith esc style fs ++ r) = some (fs, r)
  | [], fuel, r, _, hfuel => by
    rw [fieldsWith] at hfuel ⊢
    obtain ⟨fuel, rfl, -⟩ := exists_fuel hfuel (List.cons_ne_nil _ _)
    rfl
  | (k, v) :: fs, fuel, r, h, hfuel => by
    rw [fieldsWith] at hfuel ⊢
    rw [RepresentableFields] at h
    obtain ⟨fuel, rfl, hlen⟩ := exists_fuel hfuel (List.cons_ne_nil _ _)
    simp only [List.length_cons, List.length_append] at hlen
    have hv := value_dumpsWith hesc v fuel (fieldsWith esc style fs ++ r) h.1 (by omega) (ends_fieldsWith fs r)
    have hfs := fields_fieldsWith hesc fs fuel r h.2 (by omega)
    have hskip (t : List Char) : skip ('"' :: t) = '"' :: t := skip_cons (by decide) _
    simp only [List.cons_append, List.append_assoc]
    rw [fields, if_neg (by decide), if_pos rfl, skip_gap, hskip, hesc.key, Option.bind_some]
    simp only [skip_gap, skip_dumpsWith h.1, hv, Option.bind_some, skip_fieldsWith, hfs, Option.map_some]

end

theorem loads_dumpsWith (hesc : Escapes esc) {j : Json} (h : Representable j) :
    loads (dumpsWith esc style j) = some j := by
  have hskip : skip (dumpsWith esc style j ++ []) = dumpsWith esc style j ++ [] := skip_dumpsWith h []
  have hvalue : value ((dumpsWith esc style j).length + 1) (dumpsWith esc style j ++ []) = some (j, []) :=
    value_dumpsWith hesc j _ [] h (Nat.le_succ _) fun c hc => by cases hc
  rw [List.append_nil] at hskip hvalue
  rw [loads, hskip, hvalue]
  rfl

theorem loads_dumps {j : Json} (h : Representable j) : loads (dumps style j) = some j := by
  rw [← dumpsWith_escape]
  exact loads_dumpsWith escapes_escape h

/-! ### Sorted values -/

mutual

theorem representable_sorted : ∀ j : Json, Representable j → Representable j.sorted
  | .arr xs, h => by
    rw [Json.sorted, Representable]
    rw [Representable] at h
    exact representableItems_sorted xs h
  | .obj fs, h => by
    rw [Json.sorted, representable_obj]
    intro p hp
    rw [List.mem_insertionSort] at hp
    rw [Representable] at h
    exact representableFields_sorted fs h p hp
  | .real text, h => by
    rw [Json.sorted]
    exact h
  | .null, h | .bool _, h | .num _, h | .str _, h => by
    rw [Json.sorted]
    exact h

theorem representableItems_sorted : ∀ xs : List Json, RepresentableItems xs → RepresentableItems (Json.sortedItems xs)
  | [], h => h
  | x :: xs, h => by
    rw [RepresentableItems] at h
    rw [Json.sortedItems, RepresentableItems]
    exact ⟨representable_sorted x h.1, representableItems_sorted xs h.2⟩

theorem representableFields_sorted : ∀ fs : List (String × Json), RepresentableFields fs →
    ∀ p ∈ Json.sortedFields fs, Representable p.2
  | [], _ => fun p hp => absurd hp List.not_mem_nil
  | (k, x) :: fs, h => by
    rw [RepresentableFields] at h
    rw [Json.sortedFields, List.forall_mem_cons]
    exact ⟨representable_sorted x h.1, representableFields_sorted fs h.2⟩

end

/-- `json.loads` of a text with sorted keys. -/
theorem loads_dumps_sorted {j : Json} (h : Representable j) : loads (dumps style j.sorted) = some j.sorted :=
  loads_dumps (representable_sorted j h)

end JsonText
