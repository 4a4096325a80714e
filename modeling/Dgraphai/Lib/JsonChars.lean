import Dgraphai.Lib.JsonText

/-!
# The characters of a JSON text

What holds of the ASCII characters holds of all characters of a text that was written exactly if it holds of the
characters of its strings (`forall_mem_dumpsWith`).
-/

namespace Json

mutual

/-- All strings of a value and all keys of its objects. -/
def Strings (P : String → Prop) : Json → Prop
  | .str x => P x
  | .arr xs => StringsItems P xs
  | .obj fs => StringsFields P fs
  | .null | .bool _ | .num _ | .real _ => True

def StringsItems (P : String → Prop) : List Json → Prop
  | [] => True
  | x :: xs => x.Strings P ∧ StringsItems P xs

def StringsFields (P : String → Prop) : List (String × Json) → Prop
  | [] => True
  | (k, v) :: fs => P k ∧ v.Strings P ∧ StringsFields P fs

end

theorem stringsItems_iff {P : String → Prop} {xs : List Json} : StringsItems P xs ↔ ∀ x ∈ xs, x.Strings P := by
  induction xs with
  | nil => exact iff_of_true trivial (List.forall_mem_nil _)
  | cons x xs ih => rw [StringsItems, ih, List.forall_mem_cons]

end Json

namespace JsonText

variable {Q : Char → Prop} {s s' t ds : List Char}

def Ascii (c : Char) : Prop := c.toNat < 128

instance (c : Char) : Decidable (Ascii c) := Nat.decLt _ _

theorem ascii_of_all {l : List Char} (h : (l.all fun c => decide (Ascii c)) = true) : ∀ c ∈ l, Ascii c :=
  fun c hc => of_decide_eq_true (List.all_eq_true.1 h c hc)

theorem ascii_of_isDigit {c : Char} (h : isDigit c = true) : Ascii c := by
  have hle : c ≤ '9' := (of_decide_eq_true h).2
  exact Nat.lt_of_le_of_lt (show c.toNat ≤ '9'.toNat from hle) (by decide)

theorem ascii_of_inNumber {c : Char} (h : inNumber c = true) : Ascii c := by
  simp only [inNumber, Bool.or_eq_true, decide_eq_true_eq] at h
  rcases h with ((((h | rfl) | rfl) | rfl) | rfl) | rfl
  · exact ascii_of_isDigit h
  all_goals decide

/-! ### Numbers -/

theorem inNumber_of_digits : ∀ c ∈ (digits s).1, inNumber c = true := fun c hc => by
  simp [inNumber, List.mem_takeWhile_imp hc]

theorem inNumber_signPart {signs : List Char} (hsigns : ∀ c ∈ signs, inNumber c = true) :
    ∀ c ∈ (signPart signs s).1, inNumber c = true := by
  cases s with
  | nil => exact List.forall_mem_nil _
  | cons d s =>
    rw [signPart]
    split_ifs with hd
    · exact List.forall_mem_singleton.2 (hsigns d hd)
    · exact List.forall_mem_nil _

theorem inNumber_intPart (h : intPart s = some (ds, s')) : ∀ c ∈ ds, inNumber c = true := by
  cases s with
  | nil => cases h
  | cons d s =>
    rw [intPart] at h
    split_ifs at h with hzero hdigit <;> cases h
    · rw [hzero]
      exact List.forall_mem_singleton.2 rfl
    · exact List.forall_mem_cons.2 ⟨by simp [inNumber, hdigit], inNumber_of_digits⟩

theorem inNumber_fracPart : ∀ c ∈ (fracPart s).1, inNumber c = true := by
  cases s with
  | nil => exact List.forall_mem_nil _
  | cons d s =>
    rw [fracPart]
    split_ifs with hdot
    · rw [hdot.1]
      exact List.forall_mem_cons.2 ⟨rfl, inNumber_of_digits⟩
    · exact List.forall_mem_nil _

theorem inNumber_expPart : ∀ c ∈ (expPart s).1, inNumber c = true := by
  cases s with
  | nil => exact List.forall_mem_nil _
  | cons d s =>
    have hsigns : ∀ c ∈ ['+', '-'], inNumber c = true :=
      List.forall_mem_cons.2 ⟨rfl, List.forall_mem_singleton.2 rfl⟩
    simp only [expPart]
    split_ifs with hexp
    · intro c hc
      rcases List.mem_append.1 hc with hc | hc
      · rcases List.mem_cons.1 hc with rfl | hc
        · rcases hexp.1 with rfl | rfl <;> rfl
        · exact inNumber_signPart hsigns c hc
      · exact inNumber_of_digits c hc
    · exact List.forall_mem_nil _

theorem inNumber_of_number {text : String} (h : number s = some (.real text, s')) :
    ∀ c ∈ text.toList, inNumber c = true := by
  simp only [number] at h
  obtain ⟨⟨ds, rest⟩, hint, h⟩ := Option.map_eq_some_iff.1 h
  dsimp only at h
  by_cases hplain : (fracPart rest).1 = [] ∧ (expPart (fracPart rest).2).1 = []
  · rw [if_pos hplain] at h
    cases h
  rw [if_neg hplain] at h
  cases h
  intro c hc
  rw [String.toList_ofList] at hc
  simp only [List.mem_append] at hc
  rcases hc with ((hc | hc) | hc) | hc
  · exact inNumber_signPart (List.forall_mem_singleton.2 rfl) c hc
  · exact inNumber_intPart hint c hc
  · exact inNumber_fracPart c hc
  · exact inNumber_expPart c hc

theorem ascii_intText (n : ℤ) : ∀ c ∈ intText n, Ascii c := by
  intro c hc
  rcases List.mem_append.1 hc with hc | hc
  · split_ifs at hc
    · rw [List.mem_singleton.1 hc]
      decide
    · cases hc
  · exact ascii_of_isDigit (isDigit_of_mem_toDigits hc)

/-! ### Strings -/

theorem ascii_codeText (n : ℕ) : ∀ c ∈ codeText n, Ascii c := by
  have hdigit : ∀ k < 16, Ascii (Nat.digitChar k) := by decide
  simp only [codeText, hex4Text, List.forall_mem_cons]
  exact ⟨by decide, by decide, hdigit _ (Nat.mod_lt _ (by decide)), hdigit _ (Nat.mod_lt _ (by decide)),
    hdigit _ (Nat.mod_lt _ (by decide)), hdigit _ (Nat.mod_lt _ (by decide)), List.forall_mem_nil _⟩

theorem forall_mem_escapeRaw (hascii : ∀ c, Ascii c → Q c) (c : Char) : (∀ d ∈ escapeRaw c, Q d) ↔ Q c := by
  have hshorts : (shortEscapes.all fun p => decide (Ascii p.1 ∧ Ascii p.2)) = true := by decide
  rw [escapeRaw]
  cases he : shortEscape? c with
  | some e =>
    rw [shortEscape?] at he
    split_ifs at he with hslash
    obtain ⟨p, hp, rfl⟩ := Option.map_eq_some_iff.1 he
    have hc := List.find?_some hp
    rw [decide_eq_true_iff] at hc
    obtain ⟨hletter, hchar⟩ := of_decide_eq_true (List.all_eq_true.1 hshorts p (List.mem_of_find?_eq_some hp))
    refine iff_of_true ?_ (hascii c (hc ▸ hchar))
    simp only [List.forall_mem_cons]
    exact ⟨hascii _ (by decide), hascii _ hletter, List.forall_mem_nil _⟩
  | none =>
    dsimp only
    split_ifs with hprint
    · exact List.forall_mem_singleton
    · have hlt : c.toNat < ' '.toNat := Char.not_le.1 hprint
      exact iff_of_true (fun d hd => hascii d (ascii_codeText _ d hd)) (hascii c (Nat.lt_trans hlt (by decide)))

theorem ascii_gap {style : Style} : ∀ c ∈ style.gap, Ascii c := by
  cases style <;> exact ascii_of_all (by decide)

set_option linter.unusedSectionVars false

section
variable {esc : Char → List Char} {style : Style} (hascii : ∀ c, Ascii c → Q c) (hesc : ∀ c, (∀ d ∈ esc c, Q d) ↔ Q c)
include hesc

theorem forall_mem_flatMap (x : List Char) : (∀ c ∈ x.flatMap esc, Q c) ↔ ∀ c ∈ x, Q c := by
  simp only [List.mem_flatMap, forall_exists_index, and_imp]
  exact ⟨fun h c hc => (hesc c).1 fun d hd => h d c hc hd, fun h d c hc hd => (hesc c).2 (h c hc) d hd⟩

include hascii

mutual

theorem forall_mem_dumpsWith : ∀ j : Json, Representable j →
    ((∀ c ∈ dumpsWith esc style j, Q c) ↔ j.Strings fun x => ∀ c ∈ x.toList, Q c)
  | .null, _ | .bool true, _ | .bool false, _ | .arr [], _ | .obj [], _ => by
    rw [dumpsWith]
    exact iff_of_true (fun c hc => hascii c (ascii_of_all (by decide) c hc)) trivial
  | .num n, _ => by
    rw [dumpsWith, Json.Strings]
    exact iff_of_true (fun c hc => hascii c (ascii_intText n c hc)) trivial
  | .real text, h => by
    rw [dumpsWith, Json.Strings]
    exact iff_of_true (fun c hc => hascii c (ascii_of_inNumber (inNumber_of_number h c hc))) trivial
  | .str x, _ => by
    rw [dumpsWith, Json.Strings, List.forall_mem_cons, List.forall_mem_append, forall_mem_flatMap hesc,
      List.forall_mem_singleton]
    exact ⟨fun h => h.2.1, fun h => ⟨hascii _ (by decide), h, hascii _ (by decide)⟩⟩
  | .arr (x :: xs), h => by
    rw [Representable, RepresentableItems] at h
    rw [dumpsWith, Json.Strings, Json.StringsItems, List.forall_mem_cons, List.forall_mem_append,
      forall_mem_dumpsWith x h.1, forall_mem_itemsWith xs h.2]
    exact and_iff_right (hascii _ (by decide))
  | .obj ((k, v) :: fs), h => by
    rw [Representable, RepresentableFields] at h
    rw [dumpsWith, Json.Strings, Json.StringsFields]
    simp only [List.forall_mem_cons, List.forall_mem_append, forall_mem_flatMap hesc, forall_mem_dumpsWith v h.1,
      forall_mem_fieldsWith fs h.2]
    have hgap : ∀ c ∈ style.gap, Q c := fun c hc => hascii c (ascii_gap c hc)
    have hquote := hascii '"' (by decide)
    exact ⟨fun h => ⟨h.2.2.1, h.2.2.2.2.2.2.1, h.2.2.2.2.2.2.2⟩,
      fun h => ⟨hascii _ (by decide), hquote, h.1, hquote, hascii _ (by decide), hgap, h.2⟩⟩

theorem forall_mem_itemsWith : ∀ xs : List Json, RepresentableItems xs →
    ((∀ c ∈ itemsWith esc style xs, Q c) ↔ Json.StringsItems (fun x => ∀ c ∈ x.toList, Q c) xs)
  | [], _ => by
    rw [itemsWith, Json.StringsItems, List.forall_mem_singleton]
    exact iff_of_true (hascii _ (by decide)) trivial
  | x :: xs, h => by
    rw [RepresentableItems] at h
    rw [itemsWith, Json.StringsItems]
    simp only [List.forall_mem_cons, List.forall_mem_append, forall_mem_dumpsWith x h.1, forall_mem_itemsWith xs h.2]
    have hgap : ∀ c ∈ style.gap, Q c := fun c hc => hascii c (ascii_gap c hc)
    exact ⟨fun h => h.2.2, fun h => ⟨hascii _ (by decide), hgap, h⟩⟩

theorem forall_mem_fieldsWith : ∀ fs : List (String × Json), RepresentableFields fs →
    ((∀ c ∈ fieldsWith esc style fs, Q c) ↔ Json.StringsFields (fun x => ∀ c ∈ x.toList, Q c) fs)
  | [], _ => by
    rw [fieldsWith, Json.StringsFields, List.forall_mem_singleton]
    exact iff_of_true (hascii _ (by decide)) trivial
  | (k, v) :: fs, h => by
    rw [RepresentableFields] at h
    rw [fieldsWith, Json.StringsFields]
    simp only [List.forall_mem_cons, List.forall_mem_append, forall_mem_flatMap hesc, forall_mem_dumpsWith v h.1,
      forall_mem_fieldsWith fs h.2]
    have hgap : ∀ c ∈ style.gap, Q c := fun c hc => hascii c (ascii_gap c hc)
    have hquote := hascii '"' (by decide)
    exact ⟨fun h => ⟨h.2.2.2.1, h.2.2.2.2.2.2.2.1, h.2.2.2.2.2.2.2.2⟩,
      fun h => ⟨hascii _ (by decide), hgap, hquote, h.1, hquote, hascii _ (by decide), hgap, h.2⟩⟩

end

end

end JsonText
