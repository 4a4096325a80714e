import Mathlib.Data.List.Basic

/-!
# Distinct elements

`eraseDupsBy` keeps the first element of each kind. Over a test that decides equality the result is the list without
repetitions, and where the rest of a list holds one other element only, it is that pair (`eraseDupsBy_pair`).
-/

namespace Distinct

variable {α : Type*} {r : α → α → Bool} {a b x : α} {l : List α}

/-- The rest of a list goes on without what equals its head. -/
theorem induction (r : α → α → Bool) {motive : List α → Prop} (nil : motive [])
    (cons : ∀ a l, motive (l.filter fun b => r b a = false) → motive (a :: l)) : ∀ l, motive l
  | [] => nil
  | a :: l => cons a l (induction r nil cons _)
termination_by l => l.length
decreasing_by exact Nat.lt_succ_of_le (List.length_filter_le _ _)

theorem mem_of_mem_eraseDupsBy (h : x ∈ l.eraseDupsBy r) : x ∈ l := by
  induction l using induction r with
  | nil => exact h
  | cons a l ih =>
    rw [List.eraseDupsBy_cons] at h
    rcases List.mem_cons.1 h with rfl | h
    · exact List.mem_cons_self
    · exact List.mem_cons_of_mem _ (List.mem_of_mem_filter (ih h))

/-- Each element has one of its kind that stays. -/
theorem exists_mem_eraseDupsBy (hrefl : ∀ x, r x x = true) (h : x ∈ l) : ∃ y ∈ l.eraseDupsBy r, r x y = true := by
  induction l using induction r with
  | nil => exact absurd h List.not_mem_nil
  | cons a l ih =>
    rw [List.eraseDupsBy_cons]
    cases hxa : r x a with
    | true => exact ⟨a, List.mem_cons_self, hxa⟩
    | false =>
      rcases List.mem_cons.1 h with rfl | h
      · rw [hrefl] at hxa
        cases hxa
      · obtain ⟨y, hy, hxy⟩ := ih (List.mem_filter.2 ⟨h, decide_eq_true hxa⟩)
        exact ⟨y, List.mem_cons_of_mem _ hy, hxy⟩

theorem pairwise_eraseDupsBy (r : α → α → Bool) (l : List α) : (l.eraseDupsBy r).Pairwise fun a b => r b a = false := by
  induction l using induction r with
  | nil => exact .nil
  | cons a l ih =>
    rw [List.eraseDupsBy_cons]
    refine List.pairwise_cons.2 ⟨fun b hb => ?_, ih⟩
    exact of_decide_eq_true (List.mem_filter.1 (mem_of_mem_eraseDupsBy hb)).2

/-! ### Tests that decide equality -/

variable (hr : ∀ a b, r a b = true ↔ a = b)
include hr

theorem mem_eraseDupsBy_iff : x ∈ l.eraseDupsBy r ↔ x ∈ l := by
  refine ⟨mem_of_mem_eraseDupsBy, fun h => ?_⟩
  obtain ⟨y, hy, hxy⟩ := exists_mem_eraseDupsBy (fun x => (hr x x).2 rfl) h
  obtain rfl := (hr x y).1 hxy
  exact hy

theorem nodup_eraseDupsBy (l : List α) : (l.eraseDupsBy r).Nodup := by
  refine (pairwise_eraseDupsBy r l).imp fun hne heq => ?_
  rw [(hr _ _).2 heq.symm] at hne
  cases hne

theorem eraseDupsBy_const (hl : ∀ x ∈ l, x = b) (hne : l ≠ []) : l.eraseDupsBy r = [b] := by
  obtain ⟨c, l, rfl⟩ := List.exists_cons_of_ne_nil hne
  obtain ⟨rfl, hl⟩ := List.forall_mem_cons.1 hl
  have hnil : (l.filter fun b => r b c = false) = [] := by
    refine List.filter_eq_nil_iff.2 fun x hx => ?_
    rw [hl x hx, (hr c c).2 rfl]
    simp
  rw [List.eraseDupsBy_cons, hnil, List.eraseDupsBy_nil]

theorem eraseDupsBy_pair (hl : ∀ x ∈ l, x = a ∨ x = b) (hb : b ∈ a :: l) :
    (a :: l).eraseDupsBy r = [a, b].eraseDupsBy r := by
  rw [List.eraseDupsBy_cons, List.eraseDupsBy_cons]
  congr 1
  have hothers : ∀ x ∈ l.filter fun x => r x a = false, x = b := by
    intro x hx
    obtain ⟨hx, hne⟩ := List.mem_filter.1 hx
    refine (hl x hx).resolve_left fun heq => ?_
    rw [(hr x a).2 heq] at hne
    simp at hne
  by_cases hab : r b a = true
  · obtain rfl := (hr b a).1 hab
    have hnil : ∀ {l : List α}, (∀ x ∈ l, x = b ∨ x = b) → (l.filter fun x => r x b = false) = [] := by
      intro l hl
      refine List.filter_eq_nil_iff.2 fun x hx => ?_
      obtain rfl := or_self_iff.1 (hl x hx)
      simp [hab]
    rw [hnil hl, hnil (by simp)]
  · have hne : b ≠ a := fun heq => hab ((hr b a).2 heq)
    have hmem : b ∈ l := (List.mem_cons.1 hb).resolve_left hne
    rw [Bool.not_eq_true] at hab
    have hsingle : ([b].filter fun x => r x a = false) = [b] := by simp [hab]
    rw [eraseDupsBy_const hr hothers (List.ne_nil_of_mem (List.mem_filter.2 ⟨hmem, decide_eq_true hab⟩)), hsingle,
      eraseDupsBy_const hr (b := b) (by simp) (by simp)]

end Distinct
