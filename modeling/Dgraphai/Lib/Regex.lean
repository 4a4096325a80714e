import Mathlib.Algebra.Order.Ring.Nat
import Mathlib.Logic.Relation

/-!
# Regular expressions with word boundaries

A cursor is a place in a text. An expression runs from one cursor to another; a text matches if some run starts
somewhere in it (`MatchString` of RE2 engines). Runs look at the text behind them only through the word boundary, so
what is appended to a text neither makes nor breaks a match that ends before it, as long as it does not begin with a
word character (`run_extend`). `ends` computes the cursors a run can end at (`mem_ends_iff`).
-/

/-- An expression over characters `α`. A class is a test of one character. -/
inductive Regex (α : Type*) where
  | empty
  | cls (p : α → Bool)
  | seq (r s : Regex α)
  | alt (r s : Regex α)
  | star (r : Regex α)
  | boundary

namespace Regex

variable {α : Type*}

/-- `r` exactly `n` times. -/
def times : ℕ → Regex α → Regex α
  | 0, _ => .empty
  | 1, r => r
  | n + 2, r => .seq r (times (n + 1) r)

/-- `r` at most `n` times. -/
def upTo : ℕ → Regex α → Regex α
  | 0, _ => .empty
  | n + 1, r => .alt (.seq r (upTo n r)) .empty

/-- `r{m,n}`. -/
def between (m n : ℕ) (r : Regex α) : Regex α := .seq (upTo (n - m) r) (times m r)

/-- `r{m,}`. -/
def atLeast (m : ℕ) (r : Regex α) : Regex α := .seq (.star r) (times m r)

/-- `r?`. -/
def opt (r : Regex α) : Regex α := upTo 1 r

def seqs : List (Regex α) → Regex α
  | [] => .empty
  | [r] => r
  | r :: s :: rs => .seq r (seqs (s :: rs))

def alts : List (Regex α) → Regex α
  | [] => .cls fun _ => false
  | [r] => r
  | r :: s :: rs => .alt r (alts (s :: rs))

/-- A place in a text: what stands before it, nearest first, and what stands behind it. -/
@[ext]
structure Cursor (α : Type*) where
  left : List α
  right : List α
  deriving DecidableEq

variable (word : α → Bool)

/-- Whether the character nearest to a place is part of a word. -/
def wordAt (s : List α) : Bool := s.head?.any word

/-- `r` runs from `c` to `c'`. -/
def Run : Regex α → Cursor α → Cursor α → Prop
  | .empty, c, c' => c' = c
  | .cls p, c, c' => ∃ x, p x = true ∧ c.right = x :: c'.right ∧ c'.left = x :: c.left
  | .seq r s, c, c' => ∃ m, r.Run c m ∧ s.Run m c'
  | .alt r s, c, c' => r.Run c c' ∨ s.Run c c'
  | .star r, c, c' => Relation.ReflTransGen r.Run c c'
  | .boundary, c, c' => c' = c ∧ wordAt word c.left ≠ wordAt word c.right

def MatchString (r : Regex α) (text : List α) : Prop :=
  ∃ left right, text = left.reverse ++ right ∧ ∃ c, r.Run word ⟨left, right⟩ c

variable {word} {r : Regex α} {c c' : Cursor α}

/-! ### What a run does to its cursor -/

/-- `c'` stands behind `c` in one text. -/
def Cursor.Before (c c' : Cursor α) : Prop := ∃ mid, c.right = mid ++ c'.right ∧ c'.left = mid.reverse ++ c.left

theorem Cursor.Before.refl (c : Cursor α) : c.Before c := ⟨[], rfl, rfl⟩

theorem Cursor.Before.trans {a b : Cursor α} (h : a.Before b) (h' : b.Before c) : a.Before c := by
  obtain ⟨mid, hright, hleft⟩ := h
  obtain ⟨mid', hright', hleft'⟩ := h'
  exact ⟨mid ++ mid', by rw [hright, hright', List.append_assoc],
    by rw [hleft', hleft, List.reverse_append, List.append_assoc]⟩

theorem before_of_run (h : r.Run word c c') : c.Before c' := by
  induction r generalizing c c' with
  | empty => exact h ▸ .refl c
  | cls p =>
    obtain ⟨x, -, hright, hleft⟩ := h
    exact ⟨[x], hright, hleft⟩
  | seq r s ihr ihs =>
    obtain ⟨m, hr, hs⟩ := h
    exact (ihr hr).trans (ihs hs)
  | alt r s ihr ihs => exact h.elim ihr ihs
  | star r ih =>
    induction h with
    | refl => exact .refl c
    | tail _ hstep hc => exact hc.trans (ih hstep)
  | boundary => exact h.1 ▸ .refl c

/-! ### Text behind a run -/

def Cursor.extend (c : Cursor α) (t : List α) : Cursor α := ⟨c.left, c.right ++ t⟩

theorem Cursor.extend_inj {t : List α} (h : c.extend t = c'.extend t) : c = c' := by
  obtain ⟨hleft, hright⟩ := Cursor.mk.inj h
  exact Cursor.ext hleft (List.append_cancel_right hright)

theorem Cursor.Before.of_extend {m : Cursor α} {t : List α} (h : m.Before (c'.extend t)) :
    ∃ m₀ : Cursor α, m = m₀.extend t := by
  obtain ⟨mid, hright, -⟩ := h
  exact ⟨⟨m.left, mid ++ c'.right⟩, Cursor.ext rfl (hright.trans (List.append_assoc ..).symm)⟩

theorem wordAt_append {t : List α} (ht : wordAt word t = false) (s : List α) : wordAt word (s ++ t) = wordAt word s := by
  cases s with
  | nil => exact ht
  | cons x s => rfl

theorem run_extend {t : List α} (ht : wordAt word t = false) (h : r.Run word c c') :
    r.Run word (c.extend t) (c'.extend t) := by
  induction r generalizing c c' with
  | empty => exact congrArg (Cursor.extend · t) h
  | cls p =>
    obtain ⟨x, hx, hright, hleft⟩ := h
    exact ⟨x, hx, congrArg (· ++ t) hright, hleft⟩
  | seq r s ihr ihs =>
    obtain ⟨m, hr, hs⟩ := h
    exact ⟨m.extend t, ihr hr, ihs hs⟩
  | alt r s ihr ihs => exact h.imp ihr ihs
  | star r ih => exact h.lift (Cursor.extend · t) fun _ _ => ih
  | boundary =>
    obtain ⟨rfl, hword⟩ := h
    exact ⟨rfl, by rw [Cursor.extend, wordAt_append ht]; exact hword⟩

theorem run_of_extend {t : List α} (ht : wordAt word t = false) (h : r.Run word (c.extend t) (c'.extend t)) :
    r.Run word c c' := by
  induction r generalizing c c' with
  | empty => exact Cursor.extend_inj h
  | cls p =>
    obtain ⟨x, hx, hright, hleft⟩ := h
    exact ⟨x, hx, List.append_cancel_right hright, hleft⟩
  | seq r s ihr ihs =>
    obtain ⟨m, hr, hs⟩ := h
    obtain ⟨m, rfl⟩ := (before_of_run hs).of_extend
    exact ⟨m, ihr hr, ihs hs⟩
  | alt r s ihr ihs => exact h.imp ihr ihs
  | star r ih =>
    have hlift : ∀ a, Relation.ReflTransGen (r.Run word) a (c'.extend t) →
        ∀ c, a = c.extend t → Relation.ReflTransGen (r.Run word) c c' := by
      intro a ha
      induction ha using Relation.ReflTransGen.head_induction_on with
      | refl => exact fun c hc => Cursor.extend_inj hc ▸ .refl
      | head hstep hrest ihrest =>
        rintro c rfl
        obtain ⟨m, rfl⟩ := (before_of_run (show (Regex.star r).Run word _ _ from hrest)).of_extend
        exact .head (ih hstep) (ihrest m rfl)
    exact hlift _ h c rfl
  | boundary =>
    obtain ⟨heq, hword⟩ := h
    refine ⟨Cursor.extend_inj heq, ?_⟩
    rw [Cursor.extend, wordAt_append ht] at hword
    exact hword

theorem matchString_append {s t : List α} (ht : wordAt word t = false) (h : r.MatchString word s) :
    r.MatchString word (s ++ t) := by
  obtain ⟨left, right, rfl, c, hrun⟩ := h
  exact ⟨left, right ++ t, List.append_assoc .., c.extend t, run_extend ht hrun⟩

/-! ### The end of a run -/

/-- No run of `r` that consumes anything ends with `x`. -/
def neverEndsIn (x : α) : Regex α → Bool
  | .empty => true
  | .cls p => !p x
  | .seq r s => r.neverEndsIn x && s.neverEndsIn x
  | .alt r s => r.neverEndsIn x && s.neverEndsIn x
  | .star r => r.neverEndsIn x
  | .boundary => true

/-- Every run of `r` consumes something, and ends with another character than `x`. -/
def endsOff (x : α) : Regex α → Bool
  | .cls p => !p x
  | .seq r s => s.endsOff x || s.neverEndsIn x && r.endsOff x
  | .alt r s => r.endsOff x && s.endsOff x
  | _ => false

/-- The run from `c` to `c'` has consumed something, and not `x` last. -/
def LastNot (x : α) (c c' : Cursor α) : Prop :=
  ∃ y left, c'.left = y :: left ∧ y ≠ x ∧ c.left.length ≤ left.length

theorem length_le_of_run (hrun : r.Run word c c') : c.left.length ≤ c'.left.length := by
  obtain ⟨mid, -, hleft⟩ := before_of_run hrun
  rw [hleft, List.length_append]
  omega

theorem LastNot.of_le {x : α} {m : Cursor α} (h : LastNot x m c') (hle : c.left.length ≤ m.left.length) :
    LastNot x c c' := by
  obtain ⟨y, left, hleft, hne, hlength⟩ := h
  exact ⟨y, left, hleft, hne, hle.trans hlength⟩

theorem lastNot_of_cls {x : α} {p : α → Bool} (h : (!p x) = true) (hrun : (cls p).Run word c c') : LastNot x c c' := by
  obtain ⟨y, hy, -, hleft⟩ := hrun
  refine ⟨y, c.left, hleft, ?_, le_rfl⟩
  rintro rfl
  rw [hy] at h
  cases h

theorem lastNot_of_neverEndsIn {x : α} (h : r.neverEndsIn x = true) (hrun : r.Run word c c') :
    c' = c ∨ LastNot x c c' := by
  induction r generalizing c c' with
  | empty => exact .inl hrun
  | cls p => exact .inr (lastNot_of_cls h hrun)
  | seq r s ihr ihs =>
    obtain ⟨hr, hs⟩ := Bool.and_eq_true_iff.1 h
    obtain ⟨m, hrunr, hruns⟩ := hrun
    rcases ihs hs hruns with rfl | hlast
    · exact ihr hr hrunr
    · exact .inr (hlast.of_le (length_le_of_run hrunr))
  | alt r s ihr ihs =>
    obtain ⟨hr, hs⟩ := Bool.and_eq_true_iff.1 h
    exact hrun.elim (ihr hr) (ihs hs)
  | star r ih =>
    induction hrun with
    | refl => exact .inl rfl
    | tail hrest hstep hlast =>
      rcases ih h hstep with rfl | hstep
      · exact hlast
      · exact .inr (hstep.of_le (length_le_of_run (show (star r).Run word c _ from hrest)))
  | boundary => exact .inl hrun.1

theorem lastNot_of_endsOff {x : α} (h : r.endsOff x = true) (hrun : r.Run word c c') : LastNot x c c' := by
  induction r generalizing c c' with
  | cls p => exact lastNot_of_cls h hrun
  | seq r s ihr ihs =>
    obtain ⟨m, hrunr, hruns⟩ := hrun
    rcases Bool.or_eq_true_iff.1 h with hs | hboth
    · exact (ihs hs hruns).of_le (length_le_of_run hrunr)
    · obtain ⟨hs, hr⟩ := Bool.and_eq_true_iff.1 hboth
      rcases lastNot_of_neverEndsIn hs hruns with rfl | hlast
      · exact ihr hr hrunr
      · exact hlast.of_le (length_le_of_run hrunr)
  | alt r s ihr ihs =>
    obtain ⟨hr, hs⟩ := Bool.and_eq_true_iff.1 h
    exact hrun.elim (ihr hr) (ihs hs)
  | empty => cases h
  | star r => cases h
  | boundary => cases h

theorem not_matchString_nil {x : α} (h : r.endsOff x = true) : ¬ r.MatchString word [] := by
  rintro ⟨left, right, htext, c', hrun⟩
  obtain ⟨hleft, rfl⟩ := List.append_eq_nil_iff.1 htext.symm
  obtain ⟨mid, hright, hleft'⟩ := before_of_run hrun
  obtain ⟨y, left', hlast, -, hlength⟩ := lastNot_of_endsOff h hrun
  obtain ⟨rfl, -⟩ := List.append_eq_nil_iff.1 hright.symm
  have := congrArg List.length (hlast.symm.trans hleft')
  simp at this hlength
  omega

/-- A last character that no match ends with, and that is no part of a word, can be left out. -/
theorem matchString_concat_iff {x : α} (hword : word x = false) (h : r.endsOff x = true) (s : List α) :
    r.MatchString word (s ++ [x]) ↔ r.MatchString word s := by
  have ht : wordAt word [x] = false := hword
  refine ⟨?_, matchString_append ht⟩
  rintro ⟨left, right, htext, c', hrun⟩
  obtain ⟨mid, hright, hleft⟩ := before_of_run hrun
  obtain ⟨y, left', hlast, hne, hlength⟩ := lastNot_of_endsOff h hrun
  dsimp only at hright hleft hlength
  rcases List.eq_nil_or_concat c'.right with hnil | ⟨rest, z, hrest⟩
  · -- the run goes up to the end of the text, so its last character is `x`
    exfalso
    rw [hnil, List.append_nil] at hright
    obtain rfl := hright
    rcases List.eq_nil_or_concat right with rfl | ⟨init, z, rfl⟩
    · rw [List.reverse_nil, List.nil_append, hlast] at hleft
      rw [← hleft, List.length_cons] at hlength
      omega
    · rw [List.concat_eq_append] at htext hleft
      rw [← List.append_assoc] at htext
      obtain ⟨-, hz⟩ := List.append_inj' htext rfl
      rw [hlast, List.reverse_append, List.reverse_singleton, List.singleton_append] at hleft
      exact hne ((List.cons.inj hleft).1.trans (List.singleton_inj.1 hz).symm)
  · rw [List.concat_eq_append] at hrest
    rw [hright, hrest, ← List.append_assoc, ← List.append_assoc] at htext
    obtain ⟨hs, hz⟩ := List.append_inj' htext rfl
    obtain rfl := List.singleton_inj.1 hz
    refine ⟨left, mid ++ rest, by rw [hs, List.append_assoc], ⟨c'.left, rest⟩, run_of_extend ht ?_⟩
    have hstart : (⟨left, mid ++ rest⟩ : Cursor α).extend [x] = ⟨left, right⟩ := by
      rw [hright, hrest, ← List.append_assoc]
      rfl
    have hend : (⟨c'.left, rest⟩ : Cursor α).extend [x] = c' := Cursor.ext rfl hrest.symm
    rw [hstart, hend]
    exact hrun

/-! ### Running an expression -/

/-- The cursors that steps of `f` lead to, none of which stands still. -/
def closure (f : Cursor α → List (Cursor α)) : ℕ → Cursor α → List (Cursor α)
  | 0, c => [c]
  | n + 1, c => c :: ((f c).filter fun m => m.right.length < c.right.length).flatMap (closure f n)

variable (word) in
/-- The cursors a run of `r` can end at. -/
def ends : Regex α → Cursor α → List (Cursor α)
  | .empty, c => [c]
  | .cls p, ⟨left, right⟩ =>
    match right with
    | [] => []
    | x :: rest => if p x then [⟨x :: left, rest⟩] else []
  | .seq r s, c => (r.ends c).flatMap s.ends
  | .alt r s, c => r.ends c ++ s.ends c
  | .star r, c => closure r.ends c.right.length c
  | .boundary, c => if wordAt word c.left ≠ wordAt word c.right then [c] else []

/-- The cursors of a text from a place on. -/
def cursors : List α → List α → List (Cursor α)
  | left, [] => [⟨left, []⟩]
  | left, x :: right => ⟨left, x :: right⟩ :: cursors (x :: left) right

theorem mem_closure_iff {f : Cursor α → List (Cursor α)} (hf : ∀ a b, b ∈ f a → a.Before b) {n : ℕ}
    (hn : c.right.length ≤ n) : c' ∈ closure f n c ↔ Relation.ReflTransGen (fun a b => b ∈ f a) c c' := by
  constructor
  · intro h
    induction n generalizing c with
    | zero =>
      rw [List.mem_singleton.1 h]
    | succ n ih =>
      rcases List.mem_cons.1 h with rfl | h
      · exact .refl
      · obtain ⟨m, hm, hc'⟩ := List.mem_flatMap.1 h
        obtain ⟨hstep, hshort⟩ := List.mem_filter.1 hm
        have hlt := of_decide_eq_true hshort
        exact .head hstep (ih (by omega) hc')
  · intro h
    induction h using Relation.ReflTransGen.head_induction_on generalizing n with
    | refl => cases n <;> exact List.mem_cons_self
    | @head a m hstep hrest ih =>
      obtain ⟨mid, hright, hleft⟩ := hf a m hstep
      have hlength := congrArg List.length hright
      rw [List.length_append] at hlength
      obtain _ | ⟨x, mid⟩ := mid
      · have hstill : m = a := Cursor.ext hleft hright.symm
        rw [hstill] at ih
        exact ih hn
      · rw [List.length_cons] at hlength
        obtain ⟨k, rfl⟩ : ∃ k, n = k + 1 := ⟨n - 1, by omega⟩
        have hshort : m.right.length < a.right.length := by omega
        exact List.mem_cons_of_mem _
          (List.mem_flatMap.2 ⟨m, List.mem_filter.2 ⟨hstep, decide_eq_true hshort⟩, ih (by omega)⟩)

theorem mem_ends_iff : c' ∈ r.ends word c ↔ r.Run word c c' := by
  induction r generalizing c c' with
  | empty => exact List.mem_singleton
  | cls p =>
    obtain ⟨left, right⟩ := c
    cases right with
    | nil => simp [ends, Run]
    | cons x rest =>
      by_cases hp : p x = true
      · rw [ends, if_pos hp, List.mem_singleton]
        constructor
        · rintro rfl
          exact ⟨x, hp, rfl, rfl⟩
        · rintro ⟨y, -, hright, hleft⟩
          obtain ⟨rfl, hrest⟩ := List.cons.inj hright
          exact Cursor.ext hleft hrest.symm
      · rw [ends, if_neg hp]
        refine iff_of_false List.not_mem_nil ?_
        rintro ⟨y, hy, hright, -⟩
        exact hp ((List.cons.inj hright).1 ▸ hy)
  | seq r s ihr ihs =>
    rw [ends, List.mem_flatMap]
    simp only [ihr, ihs]
    rfl
  | alt r s ihr ihs =>
    rw [ends, List.mem_append, ihr, ihs]
    rfl
  | star r ih =>
    rw [ends, mem_closure_iff (fun a b hb => before_of_run (ih.1 hb)) le_rfl]
    simp only [ih]
    rfl
  | boundary =>
    rw [ends, Run]
    split_ifs with h
    · simp [h]
    · simp [h]

theorem mem_cursors {left right : List α} : c ∈ cursors left right ↔ Cursor.Before ⟨left, right⟩ c := by
  induction right generalizing left with
  | nil =>
    rw [cursors, List.mem_singleton]
    constructor
    · rintro rfl
      exact .refl _
    · rintro ⟨mid, hright, hleft⟩
      obtain ⟨rfl, hnil⟩ := List.append_eq_nil_iff.1 hright.symm
      exact Cursor.ext hleft hnil
  | cons x right ih =>
    rw [cursors, List.mem_cons, ih]
    constructor
    · rintro (rfl | ⟨mid, hright, hleft⟩)
      · exact .refl _
      · exact ⟨x :: mid, congrArg (x :: ·) hright, by rw [hleft]; simp⟩
    · rintro ⟨mid, hright, hleft⟩
      obtain _ | ⟨y, mid⟩ := mid
      · exact .inl (Cursor.ext hleft hright.symm)
      · obtain ⟨rfl, hrest⟩ := List.cons.inj hright
        exact .inr ⟨mid, hrest, by rw [hleft]; simp⟩

theorem matchString_iff (r : Regex α) (text : List α) :
    (∃ c ∈ cursors [] text, r.ends word c ≠ []) ↔ r.MatchString word text := by
  constructor
  · rintro ⟨c, hc, hends⟩
    obtain ⟨mid, hright, hleft⟩ := mem_cursors.1 hc
    obtain ⟨c', hc'⟩ := List.exists_mem_of_ne_nil _ hends
    refine ⟨c.left, c.right, ?_, c', mem_ends_iff.1 hc'⟩
    rw [hleft, List.append_nil, List.reverse_reverse]
    exact hright
  · rintro ⟨left, right, rfl, c', hrun⟩
    refine ⟨⟨left, right⟩, mem_cursors.2 ⟨left.reverse, rfl, ?_⟩, List.ne_nil_of_mem (mem_ends_iff.2 hrun)⟩
    rw [List.reverse_reverse, List.append_nil]

instance (r : Regex α) (text : List α) : Decidable (r.MatchString word text) :=
  decidable_of_iff _ (matchString_iff r text)

/-! ### The syntax of patterns -/

def text (s : String) : Regex Char := seqs (s.toList.map fun x => cls (· = x))

/-- What the flag `i` makes of a class of ASCII characters: a letter stands for its other case as well, and `s` and
`k` for the long s and the Kelvin sign. -/
def fold (p : Char → Bool) (x : Char) : Bool :=
  p x || p x.toLower || p x.toUpper || x = 'ſ' && (p 's' || p 'S') || x = '\u212a' && (p 'k' || p 'K')

/-- A text under the flag `i`. -/
def foldedText (s : String) : Regex Char := seqs (s.toList.map fun x => cls (fold (· = x)))

def oneOf (s : String) (x : Char) : Bool := s.toList.contains x

/-- `\w`. -/
def isWordChar (x : Char) : Bool := x.isAlphanum || x = '_'

/-- `\s`. -/
def isSpaceChar (x : Char) : Bool := x = ' ' || x = '\t' || x = '\n' || x = '\r' || x = '\x0c'

end Regex
