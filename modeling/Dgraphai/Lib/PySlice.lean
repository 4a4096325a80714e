import Mathlib.Algebra.Order.Ring.Int
import Mathlib.Data.List.Nodup

/-!
# Slices of Python lists

`slice l a b` is `l[a:b]`: a negative index counts from the end, and one out of range is the nearest in range. Among
different items a slice is another part of the list exactly if it is empty like it or has the same bounds
(`take_drop_inj`).
-/

namespace PySlice

variable {α : Type*} {l : List α} {n i i' j j' : ℕ} {a b : ℤ}

/-- The position that an index stands for, among `n` items. -/
def clamp (n : ℕ) (a : ℤ) : ℕ := if a < 0 then (a + n).toNat else min a.toNat n

def slice (l : List α) (a b : ℤ) : List α :=
  (l.drop (clamp l.length a)).take (clamp l.length b - clamp l.length a)

theorem clamp_le : clamp n a ≤ n := by
  rw [clamp]
  split_ifs <;> omega

theorem clamp_of_nonneg (h : 0 ≤ a) : clamp n a = min a.toNat n := if_neg (Int.not_lt.2 h)

theorem take_drop_min (l : List α) (i j : ℕ) :
    (l.drop i).take j = (l.drop (min i l.length)).take (min j (l.length - min i l.length)) := by
  rcases Nat.le_total i l.length with hi | hi
  · rw [Nat.min_eq_left hi, ← List.length_drop, List.take_eq_take_min]
  · rw [Nat.min_eq_right hi, List.drop_eq_nil_of_le hi, List.drop_length, List.take_nil, List.take_nil]

/-- A slice from the front on is what `drop` and `take` leave. -/
theorem slice_of_nonneg (ha : 0 ≤ a) (hb : 0 ≤ b) : slice l a (a + b) = (l.drop a.toNat).take b.toNat := by
  rw [take_drop_min, slice, clamp_of_nonneg ha, clamp_of_nonneg (Int.add_nonneg ha hb)]
  congr 1
  omega

theorem clamp_of_neg (h : a < 0) : clamp n a = (a + n).toNat := if_pos h

theorem slice_eq_nil_iff : slice l a b = [] ↔ clamp l.length b ≤ clamp l.length a := by
  have hb : clamp l.length b ≤ l.length := clamp_le
  rw [slice, List.take_eq_nil_iff, List.drop_eq_nil_iff]
  omega

theorem take_drop_inj (hl : l.Nodup) (hj : i + j ≤ l.length) (hj' : i' + j' ≤ l.length) :
    (l.drop i).take j = (l.drop i').take j' ↔ j = j' ∧ (j = 0 ∨ i = i') := by
  constructor
  · intro h
    have hlength : j = j' := by
      have hlengths := congrArg List.length h
      rw [List.length_take, List.length_take, List.length_drop, List.length_drop] at hlengths
      omega
    refine ⟨hlength, or_iff_not_imp_left.2 fun hpos => ?_⟩
    have hi : i < l.length := by omega
    have hi' : i' < l.length := by omega
    have hhead : ((l.drop i).take j)[0]? = ((l.drop i').take j')[0]? := by rw [h]
    rw [List.getElem?_take_of_lt (by omega), List.getElem?_take_of_lt (by omega), List.getElem?_drop,
      List.getElem?_drop, Nat.add_zero, Nat.add_zero, List.getElem?_eq_getElem hi, List.getElem?_eq_getElem hi'] at hhead
    exact (hl.getElem_inj_iff).1 (Option.some.inj hhead)
  · rintro ⟨rfl, rfl | rfl⟩
    · rw [List.take_zero, List.take_zero]
    · rfl

end PySlice
