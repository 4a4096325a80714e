import Dgraphai.Lib.Runs
import Mathlib.Algebra.BigOperators.Group.List.Basic
import Mathlib.Algebra.Order.Ring.Int

/-!
# Reading a counter and writing it back

Workers read a counter and write later what they read plus an amount of their own. A write undoes what was written
since its worker read: back from the last write to the read of its worker, and so on, the writes met are kept and the
others are overtaken. The counter grows by the kept amounts (`run_value`), so by all of them exactly if every overtaken
one is zero (`value_eq_iff`).
-/

namespace ReadModifyWrite

variable {ω : Type*} [DecidableEq ω]

inductive Event (ω : Type*)
  | read (w : ω)
  | write (w : ω) (amount : ℕ)
  deriving DecidableEq

structure State (ω : Type*) where
  value : ℤ
  reads : ω → Option ℤ

def step (s : State ω) : Event ω → Option (State ω)
  | .read w => some { s with reads := Function.update s.reads w (some s.value) }
  | .write w amount => (s.reads w).map fun v => { s with value := v + amount }

/-- The amounts that are still there, the latest event first; behind a write of `w` those before its read are. -/
def kept : Option ω → List (Event ω) → List ℕ
  | _, [] => []
  | none, .read _ :: past => kept none past
  | none, .write w amount :: past => amount :: kept (some w) past
  | some w, .read w' :: past => kept (if w' = w then none else some w) past
  | some w, .write _ _ :: past => kept (some w) past

/-- The amounts that are gone. -/
def overtaken : Option ω → List (Event ω) → List ℕ
  | _, [] => []
  | none, .read _ :: past => overtaken none past
  | none, .write w _ :: past => overtaken (some w) past
  | some w, .read w' :: past => overtaken (if w' = w then none else some w) past
  | some w, .write _ amount :: past => amount :: overtaken (some w) past

def Event.amount : Event ω → ℕ
  | .read _ => 0
  | .write _ amount => amount

/-- The sum of what is written. -/
def total (events : List (Event ω)) : ℕ := (events.map Event.amount).sum

theorem kept_add_overtaken (behind : Option ω) (past : List (Event ω)) :
    (kept behind past).sum + (overtaken behind past).sum = total past := by
  induction past generalizing behind with
  | nil => cases behind <;> rfl
  | cons e past ih =>
    have htotal : total (e :: past) = e.amount + total past := List.sum_cons
    rw [htotal]
    cases behind with
    | none =>
      cases e with
      | read w => rw [kept, overtaken, ih, Event.amount, Nat.zero_add]
      | write w amount => rw [kept, overtaken, List.sum_cons, Nat.add_assoc, ih, Event.amount]
    | some w =>
      cases e with
      | read w' => rw [kept, overtaken, ih, Event.amount, Nat.zero_add]
      | write w' amount => rw [kept, overtaken, List.sum_cons, Nat.add_left_comm, ih, Event.amount]

/-- The value is that before the run and what is kept; what a worker has read is what was kept at its read. -/
structure Explained (value : ℤ) (past : List (Event ω)) (s : State ω) : Prop where
  value_eq : s.value = value + (kept none past).sum
  read_eq : ∀ w v, s.reads w = some v → v = value + (kept (some w) past).sum

theorem Explained.step {value : ℤ} {past : List (Event ω)} {s s' : State ω} {e : Event ω}
    (h : Explained value past s) (hstep : step s e = some s') : Explained value (e :: past) s' := by
  cases e with
  | read w =>
    obtain rfl := Option.some.inj hstep
    refine ⟨h.value_eq, fun w' v hv => ?_⟩
    by_cases hw : w' = w
    · subst hw
      obtain rfl := Option.some.inj ((Function.update_self w' _ _).symm.trans hv)
      rw [kept, if_pos rfl]
      exact h.value_eq
    · rw [kept, if_neg fun heq => hw heq.symm]
      exact h.read_eq w' v ((Function.update_of_ne hw _ _).symm.trans hv)
  | write w amount =>
    obtain ⟨v, hv, rfl⟩ := Option.map_eq_some_iff.1 hstep
    refine ⟨?_, h.read_eq⟩
    rw [kept, List.sum_cons, h.read_eq w v hv]
    dsimp only
    omega

theorem Explained.run {value : ℤ} {past events : List (Event ω)} {s t : State ω} (h : Explained value past s)
    (hrun : Runs.run ReadModifyWrite.step s events = some t) : Explained value (events.reverse ++ past) t := by
  induction events generalizing s past with
  | nil => cases hrun; exact h
  | cons e events ih =>
    obtain ⟨s', hs', ht⟩ := Runs.run_cons.1 hrun
    rw [List.reverse_cons, List.append_assoc]
    exact ih (h.step hs') ht

variable {s t : State ω} {events : List (Event ω)}

theorem run_value (hidle : ∀ w, s.reads w = none) (h : Runs.run step s events = some t) :
    t.value = s.value + (kept none events.reverse).sum := by
  have hstart : Explained s.value [] s := by
    refine ⟨(Int.add_zero _).symm, fun w v hv => ?_⟩
    rw [hidle w] at hv
    nomatch hv
  have hend := (hstart.run h).value_eq
  rwa [List.append_nil] at hend

omit [DecidableEq ω] in
theorem total_reverse : total events.reverse = total events := by
  rw [total, List.map_reverse, List.sum_reverse, total]

/-- The counter has grown by all that was written exactly if nothing is lost. -/
theorem value_eq_iff (hidle : ∀ w, s.reads w = none) (h : Runs.run step s events = some t) :
    t.value = s.value + total events ↔ ∀ amount ∈ overtaken none events.reverse, amount = 0 := by
  have hsum := kept_add_overtaken none events.reverse
  rw [total_reverse] at hsum
  rw [run_value hidle h, ← List.sum_eq_zero_iff_forall_eq_nat]
  omega

end ReadModifyWrite
