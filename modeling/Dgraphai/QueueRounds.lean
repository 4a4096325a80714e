import Dgraphai.Lib.BatchRounds
import Dgraphai.QueueOutage

/-!
# The rounds of `Flush`

Which entries a round of `Flush` sends depends on what became of the entries before them in all
earlier rounds. `Pattern` fixes what `send` answers to each entry, time after time; `rounds` computes
from it and the queue alone in which rounds each entry is sent, and `AtRound` says what queue and
call log are after so many rounds (`AtRound.pass`, `flushLoop_atRound`). What becomes of every entry
(`flush_accounts`) is read off the last round.
-/

namespace Dgraphai.Agent

open BatchRounds

instance : NeZero flushBatchSize := ⟨by decide⟩

/-- `out id k` is what the call of `send` after `k` calls for the entry `id` returns. -/
abbrev Pattern := ℕ → ℕ → Option String

/-- What the calls for entry `id` returned, oldest first. -/
def answers (id : ℕ) (calls : List (ℕ × Option String)) : List (Option String) :=
  (calls.filter (·.1 = id)).map (·.2)

/-- The calls were answered as `out` says. -/
def Follows (out : Pattern) (calls : List (ℕ × Option String)) : Prop :=
  ∀ id k o, (answers id calls)[k]? = some o → o = out id k

/-- The calls of `send` a record has left. -/
def DeltaRecord.left (r : DeltaRecord) : ℕ := maxAttempts - r.attempts

namespace Pattern

/-- The calls that fail before `r` is delivered, if it is. -/
def failures (out : Pattern) (r : DeltaRecord) : Option ℕ :=
  (List.range r.left).find? fun k => out r.id k = none

def delivers (out : Pattern) (r : DeltaRecord) : Bool := (out.failures r).isSome

/-- The number of calls for `r`: up to the first that succeeds, or all it has left. -/
def sends (out : Pattern) (r : DeltaRecord) : ℕ :=
  match out.failures r with
  | some k => k + 1
  | none => r.left

/-- The row of `r` after `k` failed calls. -/
def row (out : Pattern) (r : DeltaRecord) : ℕ → DeltaRecord
  | 0 => r
  | k + 1 => { r with attempts := r.attempts + (k + 1), lastError := out r.id k }

/-- Each entry with the number of rounds it waits for its first call. -/
def rounds (out : Pattern) (rows : List DeltaRecord) : List (DeltaRecord × ℕ) :=
  schedule flushBatchSize out.sends [] rows

variable {out : Pattern} {r : DeltaRecord} {k : ℕ}

@[simp] theorem row_id : (out.row r k).id = r.id := by cases k <;> rfl

theorem row_attempts : (out.row r k).attempts = r.attempts + k := by cases k <;> rfl

theorem sends_of_failures (h : out.failures r = some k) :
    out.sends r = k + 1 ∧ k < r.left ∧ out r.id k = none ∧ ∀ j < k, out r.id j ≠ none := by
  refine ⟨by rw [sends, h], ?_⟩
  rw [failures, List.find?_range_eq_some] at h
  simpa [List.mem_range, and_left_comm] using h

theorem sends_of_not_delivers (h : out.failures r = none) :
    out.sends r = r.left ∧ ∀ j < r.left, out r.id j ≠ none := by
  refine ⟨by rw [sends, h], ?_⟩
  rw [failures, List.find?_range_eq_none] at h
  simpa using h

theorem sends_pos (h : r.attempts < maxAttempts) : 0 < out.sends r := by
  have hleft : 0 < r.left := by rw [DeltaRecord.left]; omega
  cases hf : out.failures r with
  | some k => have := (sends_of_failures hf).1; omega
  | none => have := (sends_of_not_delivers hf).1; omega

/-- A call that is not the last one fails. -/
theorem ne_none_of_lt_sends (h : k + 1 < out.sends r) : out r.id k ≠ none := by
  cases hf : out.failures r with
  | some n => obtain ⟨hs, -, -, hfail⟩ := sends_of_failures hf; exact hfail k (by omega)
  | none => obtain ⟨hs, hfail⟩ := sends_of_not_delivers hf; exact hfail k (by omega)

/-- The last call succeeds exactly if the entry is delivered. -/
theorem eq_none_iff (h : k + 1 = out.sends r) : out r.id k = none ↔ out.delivers r = true := by
  rw [delivers]
  cases hf : out.failures r with
  | some n =>
    obtain ⟨hs, -, hok, -⟩ := sends_of_failures hf
    obtain rfl : k = n := by omega
    simpa using hok
  | none =>
    obtain ⟨hs, hfail⟩ := sends_of_not_delivers hf
    simpa using hfail k (by omega)

/-- What a call leaves of the row: it stays as long as the entry has further calls. -/
theorem settleOne_row (h : k < out.sends r) (hr : r.attempts < maxAttempts) :
    settleOne (out r.id k) (out.row r k) = if k + 1 < out.sends r then [out.row r (k + 1)] else [] := by
  have hle : out.sends r ≤ r.left := by
    cases hf : out.failures r with
    | some n => obtain ⟨hs, hlt, -⟩ := sends_of_failures hf; omega
    | none => obtain ⟨hs, -⟩ := sends_of_not_delivers hf; omega
  rw [DeltaRecord.left] at hle
  split_ifs with hlt
  · obtain ⟨e, he⟩ := Option.ne_none_iff_exists'.1 (ne_none_of_lt_sends hlt)
    have hnot : ¬ maxAttempts ≤ (out.row r k).attempts + 1 := by rw [row_attempts]; omega
    have hone : settleOne (some e) (out.row r k) =
        [{ out.row r k with attempts := (out.row r k).attempts + 1, lastError := some e }] := if_neg hnot
    rw [he, hone, row_attempts, row, he]
    cases k <;> simp [row, Nat.add_assoc]
  · have hlast : k + 1 = out.sends r := by omega
    cases ho : out r.id k with
    | none => rfl
    | some e =>
      -- the entry is not delivered, so this was its last attempt
      have hnot : out.failures r = none := by
        have := (eq_none_iff hlast).not.1 (by simp [ho])
        simpa [delivers] using this
      have hs := (sends_of_not_delivers hnot).1
      rw [DeltaRecord.left] at hs
      exact if_pos (by rw [row_attempts]; omega)

/-- The calls of the round after `p` rounds. -/
def roundCalls (out : Pattern) (es : List (DeltaRecord × ℕ)) (p : ℕ) : List (ℕ × Option String) :=
  (batch out.sends p es).map fun e => (e.1.id, out e.1.id (p - e.2))

theorem rounds_sorted (out : Pattern) (t : PendingDeltas) :
    (out.rounds t.rows).Pairwise fun a b => a.1.id < b.1.id := by
  have hmap : (out.rounds t.rows).map Prod.fst = t.rows := schedule_map_fst [] t.rows
  have h := t.sorted
  rwa [← hmap, List.pairwise_map] at h

end Pattern

/-! ### The calls for one entry -/

theorem answers_append (id : ℕ) (a b : List (ℕ × Option String)) :
    answers id (a ++ b) = answers id a ++ answers id b := by
  simp [answers]

theorem Follows.of_append {out : Pattern} {a b : List (ℕ × Option String)} (h : Follows out (a ++ b)) :
    Follows out a := by
  intro id k o hk
  refine h id k o ?_
  rw [answers_append, List.getElem?_append_left (List.getElem?_eq_some_iff.1 hk).1, hk]

theorem filter_key_eq {α : Type*} {key : α → ℕ} {l : List α} (hl : l.Pairwise fun a b => key a < key b)
    {e : α} (he : e ∈ l) : l.filter (fun a => key a = key e) = [e] := by
  obtain ⟨pre, post, rfl⟩ := List.append_of_mem he
  obtain ⟨-, hpost, hpre⟩ := List.pairwise_append.1 hl
  have h1 : pre.filter (fun a => key a = key e) = [] := by
    rw [List.filter_eq_nil_iff]
    intro a ha
    have := hpre a ha e (by simp)
    simp only [decide_eq_true_eq]
    omega
  have h2 : post.filter (fun a => key a = key e) = [] := by
    rw [List.filter_eq_nil_iff]
    intro a ha
    have := (List.pairwise_cons.1 hpost).1 a ha
    simp only [decide_eq_true_eq]
    omega
  rw [List.filter_append, List.filter_cons_of_pos (by simp), h1, h2, List.nil_append]

section
variable {out : Pattern} {t : PendingDeltas} {p : ℕ} {e : DeltaRecord × ℕ}

/-- An entry is called in the rounds it takes part in, once in each. -/
theorem answers_roundCalls (he : e ∈ out.rounds t.rows) :
    answers e.1.id (out.roundCalls (out.rounds t.rows) p) =
      if e.2 ≤ p ∧ p < finish out.sends e then [out e.1.id (p - e.2)] else [] := by
  have hcomm : (batch out.sends p (out.rounds t.rows)).filter (fun a => a.1.id = e.1.id) =
      [e].filter (fun a => a.2 ≤ p ∧ p < finish out.sends a) := by
    rw [← filter_key_eq (out.rounds_sorted t) he, batch, List.filter_filter, List.filter_filter]
    exact List.filter_congr fun a _ => Bool.and_comm _ _
  rw [answers, Pattern.roundCalls, List.filter_map]
  have hcomp : ((fun c : ℕ × Option String => decide (c.1 = e.1.id)) ∘
      fun a : DeltaRecord × ℕ => (a.1.id, out a.1.id (p - a.2))) = fun a => decide (a.1.id = e.1.id) := rfl
  rw [hcomp, hcomm]
  split_ifs with h
  · rw [List.filter_cons_of_pos (by simpa using h)]; rfl
  · rw [List.filter_cons_of_neg (by simpa using h)]; rfl

theorem answers_rounds (he : e ∈ out.rounds t.rows) (p : ℕ) :
    answers e.1.id ((List.range p).flatMap (out.roundCalls (out.rounds t.rows))) =
      (List.range (min p (finish out.sends e) - e.2)).map (out e.1.id) := by
  induction p with
  | zero => simp [answers]
  | succ p ih =>
    have hfin : finish out.sends e = e.2 + out.sends e.1 := rfl
    rw [List.range_succ, List.flatMap_append, answers_append, ih, List.flatMap_singleton,
      answers_roundCalls he]
    split_ifs with h
    · rw [show min (p + 1) (finish out.sends e) - e.2 = (p - e.2) + 1 by omega,
        show min p (finish out.sends e) - e.2 = p - e.2 by omega, List.range_succ, List.map_append]
      rfl
    · rw [show min (p + 1) (finish out.sends e) - e.2 = min p (finish out.sends e) - e.2 by omega,
        List.append_nil]

end

/-! ### One round -/

section
variable {σ : Type} {send : Send σ} {out : Pattern} {t : PendingDeltas}

/-- Queue and call log of a `Flush` on `t` after `p` rounds. -/
structure AtRound (out : Pattern) (t : PendingDeltas) (p : ℕ) (st : FlushState σ) : Prop where
  rows : st.table.rows = (live out.sends p (out.rounds t.rows)).map fun e => out.row e.1 (p - e.2)
  calls : st.calls = (List.range p).flatMap (out.roundCalls (out.rounds t.rows))

theorem callLog_map_fst (rs : List DeltaRecord) (w : σ) :
    (callLog send w rs).map Prod.fst = rs.map (·.id) := by
  induction rs generalizing w with
  | nil => rfl
  | cons r rs ih => rw [callLog, List.map_cons, ih, List.map_cons]

/-- Calls and remaining rows of a batch `l.map f` whose calls are answered by `g`. -/
theorem callLog_map {β : Type} (f : β → DeltaRecord) (g : β → Option String) (l : List β) (w : σ)
    (h : ∀ b ∈ l, ∀ o, ((f b).id, o) ∈ callLog send w (l.map f) → o = g b) :
    callLog send w (l.map f) = l.map (fun b => ((f b).id, g b)) ∧
      settle send w (l.map f) = l.flatMap fun b => settleOne (g b) (f b) := by
  induction l generalizing w with
  | nil => exact ⟨rfl, rfl⟩
  | cons b l ih =>
    have hb : (send w (f b).payload).1 = g b := h b (by simp) _ (by simp [callLog])
    obtain ⟨ih1, ih2⟩ := ih (send w (f b).payload).2 fun c hc o ho =>
      h c (by simp [hc]) o (by simp [callLog, ho])
    rw [List.map_cons, callLog, settle, ih1, ih2, hb]
    exact ⟨rfl, rfl⟩

theorem flatMap_ite {α β : Type*} (l : List α) (P : α → Prop) [DecidablePred P] (f : α → β) :
    (l.flatMap fun a => if P a then [f a] else []) = (l.filter P).map f := by
  induction l with
  | nil => rfl
  | cons a l ih =>
    rw [List.flatMap_cons, ih]
    by_cases h : P a
    · rw [if_pos h, List.filter_cons_of_pos (by simpa using h)]; rfl
    · rw [if_neg h, List.filter_cons_of_neg (by simpa using h)]; rfl

theorem AtRound.records {p : ℕ} {st : FlushState σ} (h : AtRound out t p st) :
    st.records = (batch out.sends p (out.rounds t.rows)).map fun e => out.row e.1 (p - e.2) := by
  rw [FlushState.records, h.rows, ← List.map_take, Pattern.rounds, take_live]

/-- Each entry of the batch is answered as the pattern says for its next call. -/
theorem AtRound.answered {p : ℕ} {st : FlushState σ} (h : AtRound out t p st)
    (hout : Follows out (st.calls ++ callLog send st.world st.records)) {e : DeltaRecord × ℕ}
    (he : e ∈ batch out.sends p (out.rounds t.rows)) {o : Option String}
    (ho : (e.1.id, o) ∈ callLog send st.world st.records) : o = out e.1.id (p - e.2) := by
  obtain ⟨hmem, hin⟩ := List.mem_filter.1 he
  have hin : e.2 ≤ p ∧ p < finish out.sends e := by simpa using hin
  have hlen : (answers e.1.id st.calls).length = p - e.2 := by
    rw [h.calls, answers_rounds hmem, List.length_map, List.length_range]
    omega
  have hone : answers e.1.id (callLog send st.world st.records) = [o] := by
    have hsorted : (callLog send st.world st.records).Pairwise fun a b => a.1 < b.1 := by
      rw [← List.pairwise_map (f := Prod.fst) (R := (· < ·)), callLog_map_fst, List.pairwise_map]
      exact st.table.sorted.sublist (List.take_sublist _ _)
    have hfilter : ((callLog send st.world st.records).filter fun c => c.1 = e.1.id) = [(e.1.id, o)] :=
      filter_key_eq hsorted ho
    rw [answers, hfilter]
    rfl
  refine hout e.1.id (p - e.2) o ?_
  rw [answers_append, hone, ← hlen, List.getElem?_concat_length]

theorem AtRound.pass {p : ℕ} {st : FlushState σ} (h : AtRound out t p st)
    (hout : Follows out (Agent.pass send st).calls) : AtRound out t (p + 1) (Agent.pass send st) := by
  have hneed : ∀ r ∈ t.rows, 0 < out.sends r := fun r hr => Pattern.sends_pos (t.attempts_lt r hr)
  have hcalls : (Agent.pass send st).calls = st.calls ++ callLog send st.world st.records :=
    foldl_deliver_calls _ _
  rw [hcalls] at hout
  obtain ⟨hlog, hsettle⟩ := callLog_map (fun e : DeltaRecord × ℕ => out.row e.1 (p - e.2))
    (fun e => out e.1.id (p - e.2)) (batch out.sends p (out.rounds t.rows)) st.world
    (fun e he o ho => h.answered hout he (by rw [h.records]; simpa using ho))
  refine ⟨?_, ?_⟩
  · rw [pass_rows, h.records, hsettle, h.rows, ← List.map_drop, Pattern.rounds, drop_live,
      live_succ p hneed, List.map_append]
    congr 1
    · rw [← flatMap_ite]
      refine List.flatMap_congr fun e he => ?_
      obtain ⟨hmem, hin⟩ := List.mem_filter.1 he
      have hin : e.2 ≤ p ∧ p < finish out.sends e := by simpa using hin
      have hfin : finish out.sends e = e.2 + out.sends e.1 := rfl
      rw [Pattern.settleOne_row (by omega) (t.attempts_lt _ (mem_of_mem_schedule hmem))]
      by_cases hlt : p + 1 < finish out.sends e
      · rw [if_pos hlt, if_pos (by omega), show p - e.2 + 1 = p + 1 - e.2 by omega]
      · rw [if_neg hlt, if_neg (by omega)]
    · refine List.map_congr_left fun e he => ?_
      have hlt : p < e.2 := by simpa using (List.mem_filter.1 he).2
      rw [show p - e.2 = 0 by omega, show p + 1 - e.2 = 0 by omega]
  · rw [hcalls, h.records, hlog, h.calls, List.range_succ, List.flatMap_append, List.flatMap_singleton,
      Pattern.roundCalls]
    simp only [Pattern.row_id]

/-! ### The whole loop -/

theorem AtRound.start (out : Pattern) (t : PendingDeltas) (w : σ) : AtRound out t 0 ⟨t, w, []⟩ where
  rows := by
    have hneed : ∀ r ∈ t.rows, 0 < out.sends r := fun r hr => Pattern.sends_pos (t.attempts_lt r hr)
    have hrow : ∀ e : DeltaRecord × ℕ, out.row e.1 (0 - e.2) = e.1 := fun e => by
      rw [Nat.zero_sub, Pattern.row]
    rw [Pattern.rounds, live_zero [] hneed, List.map_congr_left fun e _ => hrow e, schedule_map_fst]
  calls := rfl

/-- The loop runs for `n` rounds: until the queue is empty or the context is done. -/
theorem flushLoop_atRound {fuel : ℕ} {ctx : Option ℕ} {st st' : FlushState σ} {e : Option String}
    (h : flushLoop send fuel ctx st = some (e, st')) (hout : Follows out st'.calls) {p : ℕ}
    (hst : AtRound out t p st) :
    ∃ n, p ≤ n ∧ AtRound out t n st' ∧ (∀ k, ctx = some k → n ≤ p + k) ∧
      (st'.table.rows = [] ∨ ctx = some (n - p)) := by
  induction fuel generalizing ctx st p with
  | zero => simp [flushLoop] at h
  | succ fuel ih =>
    rw [flushLoop] at h
    split_ifs at h with hctx hnil
    · obtain ⟨-, rfl⟩ := by simpa using h
      exact ⟨p, le_rfl, hst, fun k _ => Nat.le_add_right p k, .inr (by rw [hctx, Nat.sub_self])⟩
    · obtain ⟨-, rfl⟩ := by simpa using h
      exact ⟨p, le_rfl, hst, fun k _ => Nat.le_add_right p k,
        .inl (by simpa [FlushState.records, flushBatchSize] using hnil)⟩
    · obtain ⟨l, hl⟩ := flushLoop_calls h
      have hpass : AtRound out t (p + 1) (pass send st) := hst.pass (Follows.of_append (hl ▸ hout))
      obtain ⟨n, hn, hround, hle, hend⟩ := ih h hpass
      refine ⟨n, by omega, hround, ?_, ?_⟩
      · rintro k rfl
        have := hle (k - 1) rfl
        have : k ≠ 0 := fun h0 => hctx (congrArg some h0)
        omega
      · rcases hend with hend | hend
        · exact .inl hend
        · obtain ⟨k, rfl, hk⟩ := Option.map_eq_some_iff.1 hend
          have : k ≠ 0 := fun h0 => hctx (congrArg some h0)
          exact .inr (congrArg some (by omega))

/-- What `Flush(ctx, send)` returns on table `t` in world `w`, and the state it leaves. -/
def flushed (send : Send σ) (ctx : Option ℕ) (t : PendingDeltas) (w : σ) : Option String × FlushState σ :=
  (flush send ctx t w).get (flush_isSome send ctx t w)

theorem flush_eq_flushed (send : Send σ) (ctx : Option ℕ) (t : PendingDeltas) (w : σ) :
    flush send ctx t w = some (flushed send ctx t w) :=
  (Option.some_get _).symm

theorem flushed_atRound {ctx : Option ℕ} {w : σ} (hout : Follows out (flushed send ctx t w).2.calls) :
    ∃ n, AtRound out t n (flushed send ctx t w).2 ∧ (∀ k, ctx = some k → n ≤ k) ∧
      ((flushed send ctx t w).2.table.rows = [] ∨ ctx = some n) := by
  have h := flush_eq_flushed send ctx t w
  rw [flush] at h
  obtain ⟨n, -, hround, hle, hend⟩ := flushLoop_atRound h hout (AtRound.start out t w)
  rw [Nat.sub_zero] at hend
  exact ⟨n, hround, by simpa using hle, hend⟩

/-- Every entry of an emptied queue has had all its calls. -/
theorem AtRound.finish_le {n : ℕ} {st : FlushState σ} (h : AtRound out t n st) (hrows : st.table.rows = [])
    {e : DeltaRecord × ℕ} (he : e ∈ out.rounds t.rows) : finish out.sends e ≤ n := by
  have hnil := h.rows
  rw [hrows, eq_comm, List.map_eq_nil_iff, live, List.filter_eq_nil_iff] at hnil
  simpa using hnil e he

/-! ### What becomes of each entry -/

/-- The pattern of a call log. -/
def patternOf (calls : List (ℕ × Option String)) : Pattern := fun id k => ((answers id calls)[k]?).getD none

theorem follows_patternOf (calls : List (ℕ × Option String)) : Follows (patternOf calls) calls := by
  intro id k o h
  rw [patternOf, h, Option.getD_some]

/-- The answers to the calls for `r`: errors and at last a success, or an error for every attempt it had
left. -/
def Accounted (r : DeltaRecord) (as : List (Option String)) : Prop :=
  (∃ errs : List String, errs.length < maxAttempts - r.attempts ∧ as = errs.map some ++ [none]) ∨
    ∃ errs : List String, errs.length = maxAttempts - r.attempts ∧ as = errs.map some

theorem exists_errors {f : ℕ → Option String} {n : ℕ} (h : ∀ k < n, f k ≠ none) :
    ∃ errs : List String, errs.length = n ∧ (List.range n).map f = errs.map some := by
  refine ⟨(List.range n).map fun k => (f k).getD "", by simp, ?_⟩
  rw [List.map_map]
  refine List.map_congr_left fun k hk => ?_
  obtain ⟨e, he⟩ := Option.ne_none_iff_exists'.1 (h k (List.mem_range.1 hk))
  rw [Function.comp_apply, he, Option.getD_some]

theorem Pattern.accounted (out : Pattern) (r : DeltaRecord) :
    Accounted r ((List.range (out.sends r)).map (out r.id)) := by
  cases hf : out.failures r with
  | some k =>
    obtain ⟨hs, hlt, hok, hfail⟩ := Pattern.sends_of_failures hf
    obtain ⟨errs, hlen, herrs⟩ := exists_errors hfail
    refine .inl ⟨errs, hlen ▸ hlt, ?_⟩
    rw [hs, List.range_succ, List.map_append, herrs, List.map_singleton, hok]
  | none =>
    obtain ⟨hs, hfail⟩ := Pattern.sends_of_not_delivers hf
    obtain ⟨errs, hlen, herrs⟩ := exists_errors hfail
    exact .inr ⟨errs, hlen, by rw [hs, herrs]⟩

/-- `Flush` with a context that is never cancelled empties the queue; every entry was delivered by one
call, or dropped after its last attempt failed, and nothing else was sent. -/
theorem flush_accounts (send : Send σ) (t : PendingDeltas) (w : σ) :
    ∃ st, flush send none t w = some (none, st) ∧ st.table.rows = [] ∧
      (∀ r ∈ t.rows, Accounted r (answers r.id st.calls)) ∧ ∀ c ∈ st.calls, ∃ r ∈ t.rows, c.1 = r.id := by
  have hrun := flush_eq_flushed send none t w
  obtain ⟨herr, hrows⟩ : (flushed send none t w).1 = none ∧ (flushed send none t w).2.table.rows = [] :=
    flushLoop_none_rows hrun
  obtain ⟨n, hround, -⟩ := flushed_atRound (follows_patternOf (flushed send none t w).2.calls)
  refine ⟨(flushed send none t w).2, by rw [hrun, ← herr], hrows, ?_, ?_⟩
  · intro r hr
    obtain ⟨k, hk⟩ : ∃ k, (r, k) ∈ (patternOf (flushed send none t w).2.calls).rounds t.rows :=
      exists_mem_schedule hr
    have hle := hround.finish_le hrows hk
    rw [hround.calls, answers_rounds hk, Nat.min_eq_right hle, finish, Nat.add_sub_cancel_left]
    exact Pattern.accounted _ r
  · intro c hc
    rw [hround.calls] at hc
    obtain ⟨p, -, hp⟩ := List.mem_flatMap.1 hc
    obtain ⟨e, he, rfl⟩ := List.mem_map.1 hp
    exact ⟨e.1, mem_of_mem_schedule (List.mem_of_mem_filter he), rfl⟩

end

end Dgraphai.Agent
