import Mathlib.Data.List.Basic
import Mathlib.Tactic.SplitIfs

/-!
# The agent's offline queue (`agent-go/internal/queue/sqlite.go`)

`PendingDeltas` is the table, `flush` the loop of `Flush` around an arbitrary stateful send function.
One pass reads the first `batchSize` rows and walks that snapshot; `pass_rows` is its effect on the
table, computed on the list alone. Every pass over a non-empty table uses up part of `budget`, the
number of attempts left in the table, so `flush` returns (`flushLoop_isSome`).
-/

namespace Dgraphai.Agent

abbrev Payload := List UInt8

/-- `queue.DeltaRecord`: one row of `pending_deltas`. -/
structure DeltaRecord where
  id : Nat
  scanID : String
  connectorID : String
  agentID : String
  tenantID : String
  payload : Payload
  attempts : Nat
  lastError : Option String
  deriving DecidableEq, Repr

def maxAttempts : Nat := 5

/-- `const batchSize` of `Flush`. -/
def flushBatchSize : Nat := 100

/-- The table `pending_deltas` in `id` order. A row that has used up its attempts is deleted, never
stored, and `AUTOINCREMENT` hands out ids above every id used so far. -/
structure PendingDeltas where
  rows : List DeltaRecord
  nextId : Nat
  sorted : rows.Pairwise (fun a b => a.id < b.id)
  id_lt : ∀ r ∈ rows, r.id < nextId
  attempts_lt : ∀ r ∈ rows, r.attempts < maxAttempts

namespace PendingDeltas

def empty : PendingDeltas := ⟨[], 1, .nil, by simp, by simp⟩

/-- `INSERT INTO pending_deltas (scan_id, connector_id, agent_id, tenant_id, payload)`. -/
def insert (t : PendingDeltas) (scanID connectorID agentID tenantID : String) (payload : Payload) :
    PendingDeltas where
  rows := t.rows ++ [⟨t.nextId, scanID, connectorID, agentID, tenantID, payload, 0, none⟩]
  nextId := t.nextId + 1
  sorted := List.pairwise_append.2 ⟨t.sorted, by simp, fun a ha b hb => by
    rw [List.mem_singleton.1 hb]; exact t.id_lt a ha⟩
  id_lt := fun r hr => by
    rcases List.mem_append.1 hr with hr | hr
    · exact Nat.lt_succ_of_lt (t.id_lt r hr)
    · rw [List.mem_singleton.1 hr]; exact Nat.lt_succ_self _
  attempts_lt := fun r hr => by
    rcases List.mem_append.1 hr with hr | hr
    · exact t.attempts_lt r hr
    · rw [List.mem_singleton.1 hr]; exact Nat.succ_pos 4

/-- `DELETE FROM pending_deltas WHERE id = ?`. -/
def delete (t : PendingDeltas) (id : Nat) : PendingDeltas where
  rows := t.rows.filter (fun r => r.id ≠ id)
  nextId := t.nextId
  sorted := t.sorted.filter _
  id_lt := fun r hr => t.id_lt r (List.mem_of_mem_filter hr)
  attempts_lt := fun r hr => t.attempts_lt r (List.mem_of_mem_filter hr)

/-- `UPDATE pending_deltas SET attempts = ?, last_error = ? WHERE id = ?`. -/
def update (t : PendingDeltas) (id n : Nat) (err : String) (h : n < maxAttempts) : PendingDeltas where
  rows := t.rows.map fun r => if r.id = id then { r with attempts := n, lastError := some err } else r
  nextId := t.nextId
  sorted := List.pairwise_map.2 (t.sorted.imp fun {a b} hab => by split_ifs <;> exact hab)
  id_lt := fun r hr => by
    obtain ⟨a, ha, rfl⟩ := List.mem_map.1 hr
    split_ifs <;> exact t.id_lt a ha
  attempts_lt := fun r hr => by
    obtain ⟨a, ha, rfl⟩ := List.mem_map.1 hr
    split_ifs
    · exact h
    · exact t.attempts_lt a ha

variable {t : PendingDeltas} {r : DeltaRecord} {pre post : List DeltaRecord}

theorem id_ne_of_split (h : t.rows = pre ++ r :: post) :
    (∀ a ∈ pre, a.id ≠ r.id) ∧ ∀ b ∈ post, b.id ≠ r.id := by
  have hs := t.sorted
  rw [h, List.pairwise_append] at hs
  exact ⟨fun a ha => Nat.ne_of_lt (hs.2.2 a ha r (by simp)),
    fun b hb => Nat.ne_of_gt ((List.pairwise_cons.1 hs.2.1).1 b hb)⟩

theorem delete_rows (h : t.rows = pre ++ r :: post) : (t.delete r.id).rows = pre ++ post := by
  obtain ⟨hpre, hpost⟩ := id_ne_of_split h
  have e1 : pre.filter (fun a => a.id ≠ r.id) = pre := by simpa using hpre
  have e2 : post.filter (fun b => b.id ≠ r.id) = post := by simpa using hpost
  simp only [delete, h, List.filter_append, e1]
  rw [List.filter_cons_of_neg (by simp), e2]

theorem update_rows (h : t.rows = pre ++ r :: post) {n : Nat} {err : String} (hn : n < maxAttempts) :
    (t.update r.id n err hn).rows =
      pre ++ { r with attempts := n, lastError := some err } :: post := by
  obtain ⟨hpre, hpost⟩ := id_ne_of_split h
  have keep : ∀ l : List DeltaRecord, (∀ a ∈ l, a.id ≠ r.id) →
      l.map (fun a => if a.id = r.id then { a with attempts := n, lastError := some err } else a) = l :=
    fun l hl => (List.map_congr_left fun a ha => if_neg (hl a ha)).trans (List.map_id l)
  simp only [update, h, List.map_append, List.map_cons, if_pos]
  rw [keep pre hpre, keep post hpost]

end PendingDeltas

section
variable {σ : Type}

/-- A send function over a world `σ`: the error it returns (`none` is `nil`) and the world after. -/
abbrev Send (σ : Type) := σ → Payload → Option String × σ

/-- The table and the world during a `Flush`, and the calls of `send` so far, oldest first. -/
structure FlushState (σ : Type) where
  table : PendingDeltas
  world : σ
  calls : List (Nat × Option String)

/-- What `Flush` does to the table after a delivery of `record` returned `err`. -/
def PendingDeltas.settle (t : PendingDeltas) (record : DeltaRecord) : Option String → PendingDeltas
  | some err =>
    if h : maxAttempts ≤ record.attempts + 1 then t.delete record.id
    else t.update record.id (record.attempts + 1) err (Nat.lt_of_not_le h)
  | none => t.delete record.id

/-- The body of `for _, record := range records`. -/
def deliver (send : Send σ) (st : FlushState σ) (record : DeltaRecord) : FlushState σ :=
  let (err, world) := send st.world record.payload
  ⟨st.table.settle record err, world, st.calls ++ [(record.id, err)]⟩

/-- `SELECT … ORDER BY id LIMIT batchSize`. -/
def FlushState.records (st : FlushState σ) : List DeltaRecord :=
  st.table.rows.take flushBatchSize

/-- One round of the outer loop of `Flush` over a non-empty batch. -/
def pass (send : Send σ) (st : FlushState σ) : FlushState σ :=
  st.records.foldl (deliver send) st

/-- The outer loop of `Flush`. `ctx` is the number of rounds after which the context is seen to be
done, if ever; the result is the error returned and the final state. -/
def flushLoop (send : Send σ) : Nat → Option Nat → FlushState σ → Option (Option String × FlushState σ)
  | 0, _, _ => none
  | fuel + 1, ctx, st =>
    if ctx = some 0 then some (some "context canceled", st)
    else if st.records = [] then some (none, st)
    else flushLoop send fuel (ctx.map (· - 1)) (pass send st)

/-- The attempts left in a list of rows. -/
def budget : List DeltaRecord → Nat
  | [] => 0
  | r :: rows => (maxAttempts - r.attempts) + budget rows

/-- `Flush(ctx, send)` on table `t` in world `w`. -/
def flush (send : Send σ) (ctx : Option Nat) (t : PendingDeltas) (w : σ) :
    Option (Option String × FlushState σ) :=
  flushLoop send (budget t.rows + 1) ctx ⟨t, w, []⟩

/-! ### One pass -/

/-- What is left of a record after its delivery returned `err`. -/
def settleOne (err : Option String) (r : DeltaRecord) : List DeltaRecord :=
  match err with
  | some e =>
    if maxAttempts ≤ r.attempts + 1 then [] else [{ r with attempts := r.attempts + 1, lastError := some e }]
  | none => []

/-- What is left of a batch after its deliveries, in world `w`. -/
def settle (send : Send σ) : σ → List DeltaRecord → List DeltaRecord
  | _, [] => []
  | w, r :: rs => settleOne (send w r.payload).1 r ++ settle send (send w r.payload).2 rs

variable {send : Send σ}

theorem PendingDeltas.settle_rows {t : PendingDeltas} {r : DeltaRecord} {pre post : List DeltaRecord}
    (h : t.rows = pre ++ r :: post) (err : Option String) :
    (t.settle r err).rows = pre ++ settleOne err r ++ post := by
  cases err with
  | none => simpa [settle, settleOne] using delete_rows h
  | some e =>
    by_cases hmax : maxAttempts ≤ r.attempts + 1
    · simpa [settle, settleOne, hmax] using delete_rows h
    · simpa [settle, settleOne, hmax] using update_rows h (Nat.lt_of_not_le hmax)

theorem foldl_deliver_rows (rs post : List DeltaRecord) :
    ∀ (pre : List DeltaRecord) (st : FlushState σ), st.table.rows = pre ++ rs ++ post →
      (rs.foldl (deliver send) st).table.rows = pre ++ settle send st.world rs ++ post := by
  induction rs with
  | nil => intro pre st h; simpa [settle] using h
  | cons r rs ih =>
    intro pre st h
    have h1 : (deliver send st r).table.rows =
        pre ++ settleOne (send st.world r.payload).1 r ++ rs ++ post := by
      have h0 : st.table.rows = pre ++ r :: (rs ++ post) := by simpa using h
      rw [deliver, PendingDeltas.settle_rows h0, List.append_assoc _ rs post]
    rw [List.foldl_cons, ih _ _ h1, settle]
    simp [deliver]

theorem pass_rows (st : FlushState σ) :
    (pass send st).table.rows =
      settle send st.world st.records ++ st.table.rows.drop flushBatchSize := by
  have h : st.table.rows = [] ++ st.records ++ st.table.rows.drop flushBatchSize := by
    simp [FlushState.records]
  rw [pass, foldl_deliver_rows _ _ [] st h, List.nil_append]

/-! ### Termination -/

theorem budget_settleOne_lt (err : Option String) {r : DeltaRecord} (h : r.attempts < maxAttempts) :
    budget (settleOne err r) < maxAttempts - r.attempts := by
  unfold settleOne
  cases err with
  | none => simp [budget]; omega
  | some e =>
    dsimp only
    split_ifs with hmax
    · simp [budget]; omega
    · simp [budget]; omega

theorem budget_append (a b : List DeltaRecord) : budget (a ++ b) = budget a + budget b := by
  induction a with
  | nil => simp [budget]
  | cons r a ih => rw [List.cons_append, budget, budget, ih, Nat.add_assoc]

theorem budget_settle_le (send : Send σ) (rs : List DeltaRecord) (w : σ)
    (h : ∀ r ∈ rs, r.attempts < maxAttempts) :
    budget (settle send w rs) + rs.length ≤ budget rs := by
  induction rs generalizing w with
  | nil => simp [settle, budget]
  | cons r rs ih =>
    have h1 := budget_settleOne_lt (send w r.payload).1 (h r (by simp))
    have h2 := ih (send w r.payload).2 fun r hr => h r (by simp [hr])
    rw [settle, budget_append]
    simp only [budget, List.length_cons] at h1 h2 ⊢
    omega

theorem budget_pass_lt (send : Send σ) (st : FlushState σ) (h : st.records ≠ []) :
    budget (pass send st).table.rows < budget st.table.rows := by
  have hle := budget_settle_le send st.records st.world fun r hr =>
    st.table.attempts_lt r (List.mem_of_mem_take hr)
  have hlen := List.length_pos_of_ne_nil h
  have hsplit : budget st.table.rows = budget st.records + budget (st.table.rows.drop flushBatchSize) := by
    rw [← budget_append, FlushState.records, List.take_append_drop]
  rw [pass_rows, budget_append, hsplit]
  omega

theorem flushLoop_isSome (fuel : Nat) (ctx : Option Nat) (st : FlushState σ)
    (h : budget st.table.rows < fuel) : (flushLoop send fuel ctx st).isSome := by
  induction fuel generalizing ctx st with
  | zero => omega
  | succ fuel ih =>
    rw [flushLoop]
    split_ifs with hctx hnil
    · rfl
    · rfl
    · have := budget_pass_lt send st hnil
      exact ih _ _ (by omega)

/-- Without a cancelled context the loop only ends on an empty table. -/
theorem flushLoop_none_rows {fuel : Nat} {st st' : FlushState σ} {e : Option String}
    (h : flushLoop send fuel none st = some (e, st')) : e = none ∧ st'.table.rows = [] := by
  induction fuel generalizing st with
  | zero => simp [flushLoop] at h
  | succ fuel ih =>
    rw [flushLoop, if_neg (by simp)] at h
    split_ifs at h with hnil
    · obtain ⟨rfl, rfl⟩ := by simpa using h
      exact ⟨rfl, by simpa [FlushState.records, flushBatchSize] using hnil⟩
    · exact ih h

/-- `Flush` returns, whatever the send function does. -/
theorem flush_isSome (send : Send σ) (ctx : Option Nat) (t : PendingDeltas) (w : σ) :
    (flush send ctx t w).isSome :=
  flushLoop_isSome _ ctx _ (Nat.lt_succ_self _)

end

end Dgraphai.Agent
