import Dgraphai.QueueRounds

/-!
# The order of deliveries in `Flush`

An entry whose call failed is not waited for: `Flush` goes on with the rest of its batch and comes
back in the next round. So an entry can be delivered after a younger one. The order is kept exactly if
no entry is delivered in a later round than a younger one (`flushed_inOrder_iff`), which for a queue
of one batch says that it took no more calls (`ordered_iff_of_length_le`).
-/

namespace Dgraphai.Agent

open BatchRounds

/-- The entries whose call succeeded, in the order of these calls. -/
def delivered (calls : List (ℕ × Option String)) : List ℕ := (calls.filter (·.2 = none)).map (·.1)

/-- What was delivered was delivered in the order of the queue. -/
def InOrder (calls : List (ℕ × Option String)) : Prop := (delivered calls).Pairwise (· < ·)

instance (calls : List (ℕ × Option String)) : Decidable (InOrder calls) :=
  inferInstanceAs (Decidable (List.Pairwise _ _))

/-- Round `n` is run before the context is done. -/
def runs (ctx : Option ℕ) (n : ℕ) : Bool :=
  match ctx with
  | none => true
  | some k => n ≤ k

/-- No entry that is delivered before the context is done needs more rounds than a younger one. -/
def Pattern.Ordered (out : Pattern) (ctx : Option ℕ) (rows : List DeltaRecord) : Prop :=
  ((out.rounds rows).filter fun e => runs ctx (finish out.sends e) ∧ out.delivers e.1).Pairwise
    fun a b => finish out.sends a ≤ finish out.sends b

/-- For a queue of one batch: no entry that is delivered needs more calls than a younger one. -/
theorem ordered_iff_of_length_le {out : Pattern} {rows : List DeltaRecord}
    (h : rows.length ≤ flushBatchSize) :
    out.Ordered none rows ↔ (rows.filter out.delivers).Pairwise fun a b => out.sends a ≤ out.sends b := by
  have hrounds : out.rounds rows = rows.map fun r => (r, 0) := schedule_of_length_le (by simpa using h)
  rw [Pattern.Ordered, hrounds, List.filter_map, List.pairwise_map]
  simp [finish, runs, Function.comp_def]

section
variable {σ : Type} {send : Send σ} {out : Pattern} {t : PendingDeltas}

theorem delivered_roundCalls (p : ℕ) :
    delivered (out.roundCalls (out.rounds t.rows) p) =
      ((out.rounds t.rows).filter fun e => finish out.sends e = p + 1 ∧ out.delivers e.1).map (·.1.id) := by
  rw [delivered, Pattern.roundCalls, List.filter_map, List.map_map, batch, List.filter_filter]
  congr 1
  refine List.filter_congr fun e he => ?_
  have hfin : finish out.sends e = e.2 + out.sends e.1 := rfl
  rw [Function.comp_apply, ← Bool.decide_and, decide_eq_decide]
  constructor
  · rintro ⟨hok, hle, hlt⟩
    have hlast : p - e.2 + 1 = out.sends e.1 := by
      by_contra hne
      exact Pattern.ne_none_of_lt_sends (by omega) hok
    exact ⟨by omega, (Pattern.eq_none_iff hlast).1 hok⟩
  · rintro ⟨hp, hdel⟩
    have hpos : 0 < out.sends e.1 := Pattern.sends_pos (t.attempts_lt _ (mem_of_mem_schedule he))
    exact ⟨(Pattern.eq_none_iff (by omega)).2 hdel, by omega, by omega⟩

theorem AtRound.inOrder_iff {n : ℕ} {st : FlushState σ} (h : AtRound out t n st) :
    InOrder st.calls ↔ ((out.rounds t.rows).filter fun e => finish out.sends e ≤ n ∧ out.delivers e.1).Pairwise
      fun a b => finish out.sends a ≤ finish out.sends b := by
  have hpos : ∀ e ∈ out.rounds t.rows, 0 < finish out.sends e := fun e he => by
    have hsends : 0 < out.sends e.1 := Pattern.sends_pos (t.attempts_lt _ (mem_of_mem_schedule he))
    rw [finish]
    omega
  have hcalls : delivered st.calls = ((List.range n).flatMap fun q => (out.rounds t.rows).filter
      fun e => finish out.sends e = q + 1 ∧ out.delivers e.1).map (·.1.id) := by
    rw [h.calls, delivered, List.filter_flatMap, List.map_flatMap, List.map_flatMap]
    exact List.flatMap_congr fun q _ => delivered_roundCalls q
  rw [InOrder, hcalls, List.pairwise_map]
  exact pairwise_leaving_iff (out.rounds_sorted t) hpos (fun e => out.delivers e.1) n

/-- `Flush` delivers in the order of the queue exactly if, with the answers `out` of `send`, no entry
is delivered in a later round than a younger one. -/
theorem flushed_inOrder_iff (send : Send σ) (ctx : Option ℕ) (t : PendingDeltas) (w : σ) (out : Pattern)
    (hout : Follows out (flushed send ctx t w).2.calls) :
    InOrder (flushed send ctx t w).2.calls ↔ out.Ordered ctx t.rows := by
  obtain ⟨n, hround, hle, hend⟩ := flushed_atRound hout
  have hruns : ∀ e ∈ out.rounds t.rows,
      runs ctx (finish out.sends e) = decide (finish out.sends e ≤ n) := by
    intro e he
    rcases hend with hrows | rfl
    · have hfin := hround.finish_le hrows he
      cases ctx with
      | none => simpa [runs] using hfin
      | some k =>
        have := hle k rfl
        simp only [runs, hfin, decide_true, decide_eq_true_eq]
        omega
    · rfl
  rw [hround.inOrder_iff, Pattern.Ordered]
  refine iff_of_eq (congrArg _ (List.filter_congr fun e he => ?_))
  rw [hruns e he]
  simp

end

/-! ### A failed call -/

/-- The first call fails, every later one succeeds. -/
def failsFirst : Send ℕ := fun n _ => (if n = 0 then some "connection refused" else none, n + 1)

/-- Two entries that were queued while the cloud could not be reached. -/
def twoEntries : PendingDeltas :=
  (PendingDeltas.empty.insert "s" "c" "a" "t" [1]).insert "s" "c" "a" "t" [2]

theorem twoEntries_not_ordered :
    ¬ (patternOf (flushed failsFirst none twoEntries 0).2.calls).Ordered none twoEntries.rows := by
  intro h
  have hin := (flushed_inOrder_iff failsFirst none twoEntries 0 _ (follows_patternOf _)).2 h
  exact absurd hin (by decide)

theorem not_flushed_inOrder :
    ¬ ∀ (t : PendingDeltas) (send : Send ℕ) (w : ℕ), InOrder (flushed send none t w).2.calls := by
  intro h
  exact absurd (h twoEntries failsFirst 0) (by decide)

end Dgraphai.Agent
