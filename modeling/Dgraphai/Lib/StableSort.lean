import Mathlib.Data.List.Basic
import Mathlib.Order.Lattice

/-!
# Stable sorts

A stable sort and a filter may change places (`filter_mergeSort`): elements that are passed over do not touch the order
of the others, ties included.
-/

namespace StableSort

variable {α : Type*} {p : α → Bool} {a₁ a₂ b₁ b₂ : List α}

/-- A list has one division into a part that satisfies `p` and a part behind it that does not. -/
theorem append_inj_of_forall (h : a₁ ++ a₂ = b₁ ++ b₂) (ha₁ : ∀ x ∈ a₁, p x = true) (ha₂ : ∀ x ∈ a₂, p x = false)
    (hb₁ : ∀ x ∈ b₁, p x = true) (hb₂ : ∀ x ∈ b₂, p x = false) : a₁ = b₁ ∧ a₂ = b₂ := by
  have hfirst : a₁ = b₁ := by
    have hfilter := congrArg (List.filter p) h
    rwa [List.filter_append, List.filter_append, List.filter_eq_self.2 ha₁, List.filter_eq_self.2 hb₁,
      List.filter_eq_nil_iff.2 (by simpa using ha₂), List.filter_eq_nil_iff.2 (by simpa using hb₂), List.append_nil,
      List.append_nil] at hfilter
  subst hfirst
  exact ⟨rfl, List.append_cancel_left h⟩

section
variable {le : α → α → Bool}

theorem filter_mergeSort (trans : ∀ a b c, le a b → le b c → le a c) (total : ∀ a b, le a b || le b a) (p : α → Bool)
    (l : List α) : (l.mergeSort le).filter p = (l.filter p).mergeSort le := by
  induction l with
  | nil => simp
  | cons a l ih =>
    obtain ⟨l₁, l₂, hcons, hrest, hl₁⟩ := List.mergeSort_cons trans total a l
    rw [hrest, List.filter_append] at ih
    rw [hcons, List.filter_append, List.filter_cons, List.filter_cons]
    split_ifs with hp
    · obtain ⟨m₁, m₂, hcons', hrest', hm₁⟩ := List.mergeSort_cons trans total a (l.filter p)
      -- `a` goes in front of the first element that it is not greater than
      have hl₂ : ∀ b ∈ l₂, le a b = true := by
        have hsorted := List.pairwise_mergeSort trans total (a :: l)
        rw [hcons, List.pairwise_append, List.pairwise_cons] at hsorted
        exact hsorted.2.1.1
      have hm₂ : ∀ b ∈ m₂, le a b = true := by
        have hsorted := List.pairwise_mergeSort trans total (a :: l.filter p)
        rw [hcons', List.pairwise_append, List.pairwise_cons] at hsorted
        exact hsorted.2.1.1
      obtain ⟨rfl, rfl⟩ := append_inj_of_forall (p := fun b => !le a b) (ih.trans hrest')
        (fun b hb => hl₁ b (List.mem_of_mem_filter hb)) (fun b hb => by simp [hl₂ b (List.mem_of_mem_filter hb)]) hm₁
        (fun b hb => by simp [hm₂ b hb])
      rw [hcons']
    · exact ih

end

/-! ### Sorting by a key -/

variable {κ : Type*} [LinearOrder κ] {key : α → κ}

theorem filter_sortBy (p : α → Bool) (l : List α) :
    (l.mergeSort fun a b => key a ≤ key b).filter p = (l.filter p).mergeSort fun a b => key a ≤ key b := by
  refine filter_mergeSort (fun a b c hab hbc => ?_) (fun a b => ?_) p l
  · simp only [decide_eq_true_eq] at hab hbc ⊢
    exact le_trans hab hbc
  · rw [Bool.or_eq_true, decide_eq_true_iff, decide_eq_true_iff]
    exact le_total (key a) (key b)

/-- Only the order of the elements of the list matters. -/
theorem mergeSort_congr {le le' : α → α → Bool} {l : List α} (h : ∀ a ∈ l, ∀ b ∈ l, le a b = le' a b) :
    l.mergeSort le = l.mergeSort le' := by
  have hmap := List.map_mergeSort (f := id) h
  rwa [List.map_id, List.map_id] at hmap

end StableSort
