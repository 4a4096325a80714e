import Mathlib.Algebra.BigOperators.Group.Finset.Piecewise
import Mathlib.Data.Fintype.Basic

/-!
# Counting by class

A list whose elements are put into classes, some of them into none. The classes' counts add up to the number of
elements that have one (`sum_tally`). Where one classification refines another at a class, they have the same count
there only if they agree (`tally_eq_iff`).
-/

namespace Tally

variable {α β : Type*} [DecidableEq β] {f g : α → Option β} {l : List α} {b : β}

/-- The number of elements of the class. -/
def tally (f : α → Option β) (l : List α) (b : β) : ℕ := l.countP fun a => f a = some b

theorem tally_congr (h : ∀ a ∈ l, f a = g a) : tally f l b = tally g l b :=
  List.countP_congr fun a ha => by rw [h a ha]

theorem tally_cons (a : α) : tally f (a :: l) b = tally f l b + if f a = some b then 1 else 0 := by
  simp only [tally, List.countP_cons, decide_eq_true_iff]

theorem sum_tally [Fintype β] : ∑ b, tally f l b = l.countP fun a => (f a).isSome := by
  induction l with
  | nil => exact Finset.sum_eq_zero fun b _ => rfl
  | cons a l ih =>
    have hone : ∑ b, (if f a = some b then 1 else 0) = if (f a).isSome then 1 else 0 := by
      cases hfa : f a with
      | none => exact Finset.sum_eq_zero fun b _ => rfl
      | some c => simp only [Option.some.injEq, Finset.sum_ite_eq, Finset.mem_univ, if_true, Option.isSome_some]
    simp only [tally_cons, Finset.sum_add_distrib, ih, hone, List.countP_cons]

/-- Every element has a class exactly if the counts add up to the length. -/
theorem sum_tally_eq_length_iff [Fintype β] : ∑ b, tally f l b = l.length ↔ ∀ a ∈ l, (f a).isSome = true := by
  rw [sum_tally, List.countP_eq_length]

theorem countP_add {p q : α → Bool} (h : ∀ a ∈ l, p a = true → q a = false) :
    l.countP p + l.countP q = l.countP fun a => p a || q a := by
  induction l with
  | nil => rfl
  | cons a l ih =>
    rw [List.forall_mem_cons] at h
    rw [List.countP_cons, List.countP_cons, List.countP_cons, ← ih h.2]
    cases hp : p a with
    | true =>
      rw [h.1 hp]
      exact Nat.add_right_comm ..
    | false => simp only [Bool.false_or, Bool.false_eq_true, if_false, Nat.add_zero, Nat.add_assoc]

theorem countP_eq_iff {p q : α → Bool} (h : ∀ a ∈ l, p a = true → q a = true) :
    l.countP p = l.countP q ↔ ∀ a ∈ l, q a = true → p a = true := by
  induction l with
  | nil => exact iff_of_true rfl fun a ha => absurd ha List.not_mem_nil
  | cons a l ih =>
    rw [List.forall_mem_cons] at h ⊢
    rw [← ih h.2, List.countP_cons, List.countP_cons]
    have hle : l.countP p ≤ l.countP q := List.countP_mono_left h.2
    cases hp : p a <;> cases hq : q a
    · simp
    · simp
      omega
    · exact absurd (h.1 hp) (hq ▸ Bool.false_ne_true)
    · simp

theorem tally_eq_iff (h : ∀ a ∈ l, f a = some b → g a = some b) :
    tally f l b = tally g l b ↔ ∀ a ∈ l, g a = some b → f a = some b := by
  rw [tally, tally, countP_eq_iff fun a ha => by simpa only [decide_eq_true_iff] using h a ha]
  simp only [decide_eq_true_iff]

end Tally
