import Mathlib.Algebra.Order.BigOperators.Group.List
import Mathlib.Algebra.Order.Ring.Nat
import Mathlib.Algebra.Order.Monoid.NatCast
import Mathlib.Data.Nat.Find

/-!
# Rounds of a bounded batch

A loop takes the first `B` items of a list into each of its rounds, and an item leaves the list at
the end of the `need`-th round it was in. `schedule` computes from the list alone how many rounds
each item waits for its first one; `take_live` and `drop_live` say which items a round takes, and
`pairwise_leaving_iff` in which order the items leave.
-/

namespace BatchRounds

variable {α : Type*} (B : ℕ) [NeZero B] (need : α → ℕ)

theorem exists_wait (fs : List ℕ) : ∃ p, fs.countP (p < ·) < B := by
  refine ⟨fs.sum, ?_⟩
  have hzero : fs.countP (fs.sum < ·) = 0 := by
    rw [List.countP_eq_zero]
    intro f hf
    simpa using List.le_sum_of_mem hf
  rw [hzero]
  exact Nat.pos_of_neZero B

/-- The rounds an item waits behind items that are in the list for `fs` rounds: as long as `B` of
these are still there. -/
def wait (fs : List ℕ) : ℕ := Nat.find (exists_wait B fs)

/-- The items of a list with the rounds each one waits; `fs` is for the items before them. -/
def schedule : List ℕ → List α → List (α × ℕ)
  | _, [] => []
  | fs, a :: l => (a, wait B fs) :: schedule ((wait B fs + need a) :: fs) l

/-- The number of rounds an item is in the list for. -/
def finish (e : α × ℕ) : ℕ := e.2 + need e.1

/-- The items still there after `p` rounds. -/
def live (p : ℕ) (l : List (α × ℕ)) : List (α × ℕ) := l.filter (fun e => p < finish need e)

/-- The items that take part in the round after `p` rounds. -/
def batch (p : ℕ) (l : List (α × ℕ)) : List (α × ℕ) :=
  l.filter (fun e => e.2 ≤ p ∧ p < finish need e)

variable {B need}

theorem wait_le_iff {fs : List ℕ} {p : ℕ} : wait B fs ≤ p ↔ fs.countP (p < ·) < B := by
  rw [wait, Nat.find_le_iff]
  constructor
  · rintro ⟨q, hq, hlt⟩
    refine lt_of_le_of_lt (List.countP_mono_left fun f _ hf => ?_) hlt
    simp only [decide_eq_true_eq] at hf ⊢
    omega
  · intro h
    exact ⟨p, le_rfl, h⟩

theorem wait_eq_zero {fs : List ℕ} (h : fs.length < B) : wait B fs = 0 := by
  have := wait_le_iff.2 (lt_of_le_of_lt (List.countP_le_length (p := fun f => decide (0 < f))) h)
  omega

theorem schedule_map_fst (fs : List ℕ) (l : List α) : (schedule B need fs l).map Prod.fst = l := by
  induction l generalizing fs with
  | nil => rfl
  | cons a l ih => rw [schedule, List.map_cons, ih]

/-- In a list that fits into one batch nothing waits. -/
theorem schedule_of_length_le {fs : List ℕ} {l : List α} (h : fs.length + l.length ≤ B) :
    schedule B need fs l = l.map fun a => (a, 0) := by
  induction l generalizing fs with
  | nil => rfl
  | cons a l ih =>
    rw [List.length_cons] at h
    rw [schedule, wait_eq_zero (by omega), ih (by rw [List.length_cons]; omega), List.map_cons]

theorem mem_of_mem_schedule {fs : List ℕ} {l : List α} {e : α × ℕ} (h : e ∈ schedule B need fs l) :
    e.1 ∈ l := by
  have hmap : (schedule B need fs l).map Prod.fst = l := schedule_map_fst fs l
  rw [← hmap]
  exact List.mem_map_of_mem h

theorem exists_mem_schedule {fs : List ℕ} {l : List α} {a : α} (h : a ∈ l) :
    ∃ n, (a, n) ∈ schedule B need fs l := by
  have hmap : (schedule B need fs l).map Prod.fst = l := schedule_map_fst fs l
  rw [← hmap] at h
  obtain ⟨⟨b, n⟩, hb, rfl⟩ := List.mem_map.1 h
  exact ⟨n, hb⟩

/-- An item is in the batch exactly if fewer than `B` older ones are left. -/
theorem take_drop_live (p : ℕ) (fs : List ℕ) (l : List α) :
    (live need p (schedule B need fs l)).take (B - fs.countP (p < ·)) =
        batch need p (schedule B need fs l) ∧
      (live need p (schedule B need fs l)).drop (B - fs.countP (p < ·)) =
        (schedule B need fs l).filter (fun e => p < e.2) := by
  induction l generalizing fs with
  | nil => simp [schedule, live, batch]
  | cons a l ih =>
    have hw : wait B fs ≤ p ↔ fs.countP (p < ·) < B := wait_le_iff
    have hfin : finish need (a, wait B fs) = wait B fs + need a := rfl
    obtain ⟨ih1, ih2⟩ := ih (finish need (a, wait B fs) :: fs)
    rw [List.countP_cons] at ih1 ih2
    simp only [schedule, live, batch, ← hfin] at ih1 ih2 ⊢
    by_cases hlive : p < finish need (a, wait B fs)
    · rw [if_pos (by simpa using hlive)] at ih1 ih2
      rw [List.filter_cons_of_pos (by simpa using hlive)]
      by_cases hin : fs.countP (p < ·) < B
      · -- `a` takes one of the places left
        obtain ⟨m, hm⟩ : ∃ m, B - fs.countP (p < ·) = m + 1 := ⟨B - fs.countP (p < ·) - 1, by omega⟩
        rw [show B - (fs.countP (p < ·) + 1) = m by omega] at ih1 ih2
        rw [List.filter_cons_of_pos (by simpa [hlive] using hw.2 hin),
          List.filter_cons_of_neg (by simpa using hw.2 hin), hm, List.take_succ_cons,
          List.drop_succ_cons, ih1]
        exact ⟨rfl, ih2⟩
      · -- the batch is full, for `a` and for every item after it
        have hnot : ¬ wait B fs ≤ p := fun h => hin (hw.1 h)
        rw [show B - (fs.countP (p < ·) + 1) = 0 by omega] at ih1 ih2
        rw [List.filter_cons_of_neg (by simp [hnot]), List.filter_cons_of_pos (by simpa using hnot),
          show B - fs.countP (p < ·) = 0 by omega]
        rw [List.take_zero] at ih1 ⊢
        rw [List.drop_zero] at ih2 ⊢
        exact ⟨ih1, congrArg _ ih2⟩
    · have hle : ¬ p < wait B fs := by omega
      rw [if_neg (by simpa using hlive), Nat.add_zero] at ih1 ih2
      rw [List.filter_cons_of_neg (by simpa using hlive), List.filter_cons_of_neg (by simp [hlive]),
        List.filter_cons_of_neg (by simpa using hle)]
      exact ⟨ih1, ih2⟩

section
variable {l : List α} {p : ℕ}

theorem take_live (p : ℕ) (l : List α) :
    (live need p (schedule B need [] l)).take B = batch need p (schedule B need [] l) := by
  simpa using (take_drop_live p [] l).1

theorem drop_live (p : ℕ) (l : List α) :
    (live need p (schedule B need [] l)).drop B =
      (schedule B need [] l).filter (fun e => p < e.2) := by
  simpa using (take_drop_live p [] l).2

theorem live_zero (fs : List ℕ) (hneed : ∀ a ∈ l, 0 < need a) :
    live need 0 (schedule B need fs l) = schedule B need fs l := by
  refine List.filter_eq_self.2 fun e he => ?_
  have := hneed _ (mem_of_mem_schedule he)
  have : 0 < finish need e := by rw [finish]; omega
  simpa using this

/-- What a round leaves: the items of its batch that need another one, and the rest of the list. -/
theorem live_succ (p : ℕ) (hneed : ∀ a ∈ l, 0 < need a) :
    live need (p + 1) (schedule B need [] l) =
      (batch need p (schedule B need [] l)).filter (fun e => p + 1 < finish need e) ++
        (schedule B need [] l).filter (fun e => p < e.2) := by
  have hfilter : live need (p + 1) (schedule B need [] l) =
      (live need p (schedule B need [] l)).filter (fun e => p + 1 < finish need e) := by
    rw [live, live, List.filter_filter]
    refine List.filter_congr fun e _ => ?_
    rw [← Bool.decide_and, decide_eq_decide]
    omega
  rw [hfilter, ← List.take_append_drop B (live need p _), take_live, drop_live, List.filter_append]
  congr 1
  refine List.filter_eq_self.2 fun e he => ?_
  obtain ⟨hmem, hlt⟩ := List.mem_filter.1 he
  have := hneed _ (mem_of_mem_schedule hmem)
  have hlt : p < e.2 := by simpa using hlt
  have : p + 1 < finish need e := by rw [finish]; omega
  simpa using this

end

/-! ### The order in which items leave -/

/-- The items for which `P` holds leave in the order of the list exactly if none of them needs more
rounds than a later one. -/
theorem pairwise_leaving_iff {key : α → ℕ} {l : List (α × ℕ)} (hl : l.Pairwise (fun a b => key a.1 < key b.1))
    (hpos : ∀ e ∈ l, 0 < finish need e) (P : α × ℕ → Bool) (n : ℕ) :
    ((List.range n).flatMap fun q => l.filter (fun e => finish need e = q + 1 ∧ P e)).Pairwise
        (fun a b => key a.1 < key b.1) ↔
      (l.filter fun e => finish need e ≤ n ∧ P e).Pairwise
        (fun a b => finish need a ≤ finish need b) := by
  rw [List.pairwise_flatMap]
  constructor
  · rintro ⟨-, hrounds⟩
    rw [List.pairwise_filter]
    refine hl.imp_of_mem fun {a b} ha hb hab hPa hPb => ?_
    by_contra hlt
    -- `b` leaves in an earlier round than `a`, which stands before it
    simp only [Bool.decide_and, Bool.and_eq_true, decide_eq_true_eq] at hPa hPb
    have hround : ∀ e ∈ l, P e = true → e ∈ l.filter fun e' => finish need e' = finish need e - 1 + 1 ∧ P e' := by
      intro e he hP
      have := hpos e he
      rw [List.mem_filter]
      exact ⟨he, by simp [hP]; omega⟩
    have hlt' : finish need b - 1 < finish need a - 1 := by
      have := hpos b hb
      omega
    have hkey := (List.pairwise_iff_getElem.1 hrounds) (finish need b - 1) (finish need a - 1)
      (by simp; omega) (by have := hpos a ha; simp; omega) hlt' b (by simpa using hround b hb hPb.2)
      a (by simpa using hround a ha hPa.2)
    omega
  · intro hfin
    refine ⟨fun q _ => (hl.filter _), ?_⟩
    rw [List.pairwise_filter] at hfin
    have hall := List.pairwise_iff_getElem.1 (hl.and hfin)
    refine List.pairwise_lt_range.imp_of_mem fun {q q'} hq hq' hlt x hx y hy => ?_
    simp only [List.mem_filter, Bool.decide_and, Bool.and_eq_true, decide_eq_true_eq] at hx hy
    obtain ⟨hx, hxq, hPx⟩ := hx
    obtain ⟨hy, hyq, hPy⟩ := hy
    obtain ⟨i, hi, rfl⟩ := List.mem_iff_getElem.1 hx
    obtain ⟨j, hj, rfl⟩ := List.mem_iff_getElem.1 hy
    have hq : q + 1 ≤ n := List.mem_range.1 hq
    have hq' : q' + 1 ≤ n := List.mem_range.1 hq'
    rcases Nat.lt_trichotomy i j with hij | rfl | hij
    · exact (hall i j hi hj hij).1
    · omega
    · -- the later of the two would have left first
      have hle := (hall j i hj hi hij).2
        (by simpa [hPy, hyq] using hq') (by simpa [hPx, hxq] using hq)
      omega

end BatchRounds
