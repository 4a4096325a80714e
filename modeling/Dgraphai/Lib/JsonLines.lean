import Dgraphai.Lib.JsonChars
import Dgraphai.Lib.Separated
import Dgraphai.Lib.PyText

/-!
# JSON lines

A line for each value. No text of a value holds a control character (`printed_dumpsWith`), so the lines are the texts
of the values (`splitOn_text`), and where the text breaks off in the middle of a line, the lines before it read back as their
values (`wholeLines_append`).
-/

namespace JsonLines

open JsonText

variable {esc : Char → List Char} {style : Style}

/-- A character that is no control character. -/
def Printed (c : Char) : Prop := 32 ≤ c.toNat

instance (c : Char) : Decidable (Printed c) := Nat.decLe _ _

theorem printed_of_all {l : List Char} (h : (l.all fun c => decide (Printed c)) = true) : ∀ c ∈ l, Printed c :=
  fun c hc => of_decide_eq_true (List.all_eq_true.1 h c hc)

/-! ### Characters of a value -/

theorem printed_of_isDigit {c : Char} (h : isDigit c = true) : Printed c :=
  Nat.le_trans (show 32 ≤ '0'.toNat by decide) (of_decide_eq_true h).1

theorem printed_of_inNumber {c : Char} (h : inNumber c = true) : Printed c := by
  simp only [inNumber, Bool.or_eq_true, decide_eq_true_eq] at h
  rcases h with ((((h | rfl) | rfl) | rfl) | rfl) | rfl
  · exact printed_of_isDigit h
  all_goals decide

theorem printed_intText (n : ℤ) : ∀ c ∈ intText n, Printed c := by
  intro c hc
  rcases List.mem_append.1 hc with hc | hc
  · split_ifs at hc
    · rw [List.mem_singleton.1 hc]
      decide
    · exact absurd hc List.not_mem_nil
  · exact printed_of_isDigit (isDigit_of_mem_toDigits hc)

theorem printed_codeText (n : ℕ) : ∀ c ∈ codeText n, Printed c := by
  have hdigit : ∀ k < 16, Printed (Nat.digitChar k) := by decide
  simp only [codeText, hex4Text, List.forall_mem_cons]
  exact ⟨by decide, by decide, hdigit _ (Nat.mod_lt _ (by decide)), hdigit _ (Nat.mod_lt _ (by decide)),
    hdigit _ (Nat.mod_lt _ (by decide)), hdigit _ (Nat.mod_lt _ (by decide)), List.forall_mem_nil _⟩

theorem printed_shortEscape {c e : Char} (h : shortEscape? c = some e) : ∀ d ∈ ['\\', e], Printed d := by
  have hletters : (shortEscapes.all fun p => decide (Printed p.1)) = true := by decide
  rw [shortEscape?] at h
  split_ifs at h with hslash
  obtain ⟨p, hp, rfl⟩ := Option.map_eq_some_iff.1 h
  have hletter : Printed p.1 := of_decide_eq_true (List.all_eq_true.1 hletters p (List.mem_of_find?_eq_some hp))
  exact List.forall_mem_cons.2 ⟨by decide, List.forall_mem_singleton.2 hletter⟩

theorem printed_escape (c : Char) : ∀ d ∈ escape c, Printed d := by
  unfold escape
  cases hshort : shortEscape? c with
  | some e => exact printed_shortEscape hshort
  | none =>
    dsimp only
    split_ifs with hplain hsmall
    · exact List.forall_mem_singleton.2 hplain.1
    · exact printed_codeText c.toNat
    · exact List.forall_mem_append.2 ⟨printed_codeText _, printed_codeText _⟩

theorem printed_escapeRaw (c : Char) : ∀ d ∈ escapeRaw c, Printed d := by
  unfold escapeRaw
  cases hshort : shortEscape? c with
  | some e => exact printed_shortEscape hshort
  | none =>
    dsimp only
    split_ifs with hplain
    · exact List.forall_mem_singleton.2 hplain
    · exact printed_codeText c.toNat

theorem printed_gap : ∀ c ∈ style.gap, Printed c := by
  cases style <;> exact printed_of_all (by decide)

theorem printed_colon {rest : List Char} (hrest : ∀ c ∈ rest, Printed c) : ∀ c ∈ ':' :: (style.gap ++ rest), Printed c :=
  List.forall_mem_cons.2 ⟨by decide, List.forall_mem_append.2 ⟨printed_gap, hrest⟩⟩

set_option linter.unusedSectionVars false

section
variable (hesc : ∀ c, ∀ d ∈ esc c, Printed d)
include hesc

theorem printed_key (k : List Char) {rest : List Char} (hrest : ∀ c ∈ rest, Printed c) :
    ∀ c ∈ '"' :: (k.flatMap esc ++ '"' :: rest), Printed c := by
  have hk : ∀ c ∈ k.flatMap esc, Printed c := fun c hc => by
    obtain ⟨d, -, hcd⟩ := List.mem_flatMap.1 hc
    exact hesc d c hcd
  have hquote : Printed '"' := by decide
  exact List.forall_mem_cons.2 ⟨hquote, List.forall_mem_append.2 ⟨hk, List.forall_mem_cons.2 ⟨hquote, hrest⟩⟩⟩

mutual

theorem printed_dumpsWith : ∀ j : Json, Representable j → ∀ c ∈ dumpsWith esc style j, Printed c
  | .null, _ | .bool true, _ | .bool false, _ | .arr [], _ | .obj [], _ => by
    rw [dumpsWith]
    exact printed_of_all (by decide)
  | .num n, _ => by
    rw [dumpsWith]
    exact printed_intText n
  | .real text, h => by
    rw [dumpsWith]
    exact fun c hc => printed_of_inNumber (inNumber_of_number h c hc)
  | .str x, _ => by
    rw [dumpsWith]
    exact printed_key hesc x.toList (List.forall_mem_nil _)
  | .arr (x :: xs), h => by
    rw [Representable, RepresentableItems] at h
    rw [dumpsWith]
    exact List.forall_mem_cons.2 ⟨by decide,
      List.forall_mem_append.2 ⟨printed_dumpsWith x h.1, printed_itemsWith xs h.2⟩⟩
  | .obj ((k, v) :: fs), h => by
    rw [Representable, RepresentableFields] at h
    rw [dumpsWith]
    have hrest : ∀ c ∈ ':' :: (style.gap ++ _), Printed c := printed_colon
      (List.forall_mem_append.2 ⟨printed_dumpsWith v h.1, printed_fieldsWith fs h.2⟩)
    exact List.forall_mem_cons.2 ⟨by decide, printed_key hesc k.toList hrest⟩

theorem printed_itemsWith : ∀ xs : List Json, RepresentableItems xs → ∀ c ∈ itemsWith esc style xs, Printed c
  | [], _ => by
    rw [itemsWith]
    exact printed_of_all (by decide)
  | x :: xs, h => by
    rw [RepresentableItems] at h
    rw [itemsWith]
    exact List.forall_mem_cons.2 ⟨by decide, List.forall_mem_append.2 ⟨printed_gap,
      List.forall_mem_append.2 ⟨printed_dumpsWith x h.1, printed_itemsWith xs h.2⟩⟩⟩

theorem printed_fieldsWith : ∀ fs : List (String × Json), RepresentableFields fs →
    ∀ c ∈ fieldsWith esc style fs, Printed c
  | [], _ => by
    rw [fieldsWith]
    exact printed_of_all (by decide)
  | (k, v) :: fs, h => by
    rw [RepresentableFields] at h
    rw [fieldsWith]
    have hrest : ∀ c ∈ ':' :: (style.gap ++ _), Printed c := printed_colon
      (List.forall_mem_append.2 ⟨printed_dumpsWith v h.1, printed_fieldsWith fs h.2⟩)
    exact List.forall_mem_cons.2 ⟨by decide, List.forall_mem_append.2 ⟨printed_gap, printed_key hesc k.toList hrest⟩⟩

end

/-! ### Lines -/

variable (esc style) in
/-- The text of a value, on a line. -/
def line (j : Json) : List Char := dumpsWith esc style j ++ ['\n']

variable (esc style) in
def text (js : List Json) : List Char := js.flatMap (line esc style)

theorem newline_not_mem_dumpsWith {j : Json} (hj : Representable j) : '\n' ∉ dumpsWith esc style j :=
  fun h => absurd (printed_dumpsWith hesc j hj '\n' h) (by decide)

/-- The lines of a text, and of what follows it. -/
theorem splitOn_text {js : List Json} (hjs : ∀ j ∈ js, Representable j) (rest : List Char) :
    (text esc style js ++ rest).splitOn '\n' = js.map (dumpsWith esc style) ++ rest.splitOn '\n' :=
  Separated.splitOn_flatMap (fun j hj => newline_not_mem_dumpsWith hesc (hjs j hj)) rest

end

theorem exists_fieldsWith (fs : List (String × Json)) : ∃ m, fieldsWith esc style fs = m ++ ['}'] := by
  induction fs with
  | nil => exact ⟨[], by rw [fieldsWith, List.nil_append]⟩
  | cons p fs ih =>
    obtain ⟨m, hm⟩ := ih
    rw [fieldsWith, hm]
    refine ⟨',' :: (style.gap ++ '"' :: (p.1.toList.flatMap esc ++ '"' :: ':' ::
      (style.gap ++ (dumpsWith esc style p.2 ++ m)))), ?_⟩
    simp only [List.cons_append, List.append_assoc]

/-- The text of an object stands in braces. -/
theorem exists_object (fs : List (String × Json)) : ∃ m, dumpsWith esc style (.obj fs) = '{' :: (m ++ ['}']) := by
  cases fs with
  | nil => exact ⟨[], by rw [dumpsWith, List.nil_append]⟩
  | cons p fs =>
    obtain ⟨m, hm⟩ : ∃ m, fieldsWith esc style fs = m ++ ['}'] := exists_fieldsWith fs
    rw [dumpsWith, hm]
    refine ⟨'"' :: (p.1.toList.flatMap esc ++ '"' :: ':' :: (style.gap ++ (dumpsWith esc style p.2 ++ m))), ?_⟩
    simp only [List.cons_append, List.append_assoc]

/-! ### Bytes -/

theorem newline_not_mem_encode {t : List Char} (ht : '\n' ∉ t) : 10 ∉ PyText.encode t := by
  rw [PyText.encode_eq_flatMap]
  intro h
  obtain ⟨c, hc, hmem⟩ := List.mem_flatMap.1 h
  have hcode : c.toNat = '\n'.toNat := PyText.toNat_of_mem_utf8EncodeChar hmem (by decide)
  exact ht (Char.toNat_inj.1 hcode ▸ hc)

theorem encode_line (j : Json) :
    PyText.encode (line esc style j) = PyText.encode (dumpsWith esc style j) ++ [10] := by
  rw [line, PyText.encode_eq_flatMap, List.flatMap_append, ← PyText.encode_eq_flatMap]
  rfl

/-- `json.loads` of each line that came whole. -/
def wholeLines (bytes : List UInt8) : List (Option Json) :=
  (bytes.splitOn 10).dropLast.map fun l => (PyText.decode? l).bind loads

/-- What has come of a further line is left out. -/
theorem wholeLines_append (hescapes : Escapes esc) (hesc : ∀ c, ∀ d ∈ esc c, Printed d) {js : List Json}
    (hjs : ∀ j ∈ js, Representable j) {part : List UInt8} (hpart : 10 ∉ part) :
    wholeLines ((js.flatMap fun j => PyText.encode (line esc style j)) ++ part) = js.map some := by
  simp only [encode_line]
  have hlines : ∀ j ∈ js, 10 ∉ PyText.encode (dumpsWith esc style j) := fun j hj =>
    newline_not_mem_encode (newline_not_mem_dumpsWith hesc (hjs j hj))
  rw [wholeLines, Separated.splitOn_flatMap hlines, List.splitOn_eq_singleton hpart, List.dropLast_concat, List.map_map]
  refine List.map_congr_left fun j hj => ?_
  show (PyText.decode? (PyText.encode (dumpsWith esc style j))).bind loads = _
  rw [PyText.decode?_encode, Option.bind_some, loads_dumpsWith hescapes (hjs j hj)]

end JsonLines
