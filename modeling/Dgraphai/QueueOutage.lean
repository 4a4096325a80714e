import Dgraphai.OfflineQueue
import Mathlib.Data.List.Nodup

/-!
# A `Flush` during an outage

When every call of `send` fails, a round of `Flush` adds one attempt to each of the first
`flushBatchSize` rows, and the next round starts at once on the same rows. So the call itself uses up
the attempts unless its context ends first: `flush_keeps_iff`.
-/

namespace Dgraphai.Agent

/-- A record without its delivery bookkeeping. -/
def DeltaRecord.core (r : DeltaRecord) : DeltaRecord := { r with attempts := 0, lastError := none }

/-- Every entry of `before` is still queued in `after`, with its payload and metadata. -/
def Keeps (before after : PendingDeltas) : Prop :=
  ∀ r ∈ before.rows, ∃ r' ∈ after.rows, r'.core = r.core

theorem DeltaRecord.id_eq_of_core {a b : DeltaRecord} (h : a.core = b.core) : a.id = b.id := by
  simp only [core, mk.injEq] at h; exact h.1

section
variable {σ : Type} {send : Send σ}

/-- The calls a pass makes on `rs` in world `w`. -/
def callLog (send : Send σ) : σ → List DeltaRecord → List (Nat × Option String)
  | _, [] => []
  | w, r :: rs => (r.id, (send w r.payload).1) :: callLog send (send w r.payload).2 rs

theorem foldl_deliver_calls (rs : List DeltaRecord) (st : FlushState σ) :
    (rs.foldl (deliver send) st).calls = st.calls ++ callLog send st.world rs := by
  induction rs generalizing st with
  | nil => simp [callLog]
  | cons r rs ih => rw [List.foldl_cons, ih]; simp [deliver, callLog]

/-- The calls of a `Flush` are only ever added to. -/
theorem flushLoop_calls {fuel : Nat} {ctx : Option Nat} {st st' : FlushState σ} {e : Option String}
    (h : flushLoop send fuel ctx st = some (e, st')) : ∃ l, st'.calls = st.calls ++ l := by
  induction fuel generalizing ctx st with
  | zero => simp [flushLoop] at h
  | succ fuel ih =>
    rw [flushLoop] at h
    split_ifs at h with hctx hnil
    · obtain ⟨-, rfl⟩ := by simpa using h
      exact ⟨[], by simp⟩
    · obtain ⟨-, rfl⟩ := by simpa using h
      exact ⟨[], by simp⟩
    · obtain ⟨l, hl⟩ := ih h
      exact ⟨callLog send st.world st.records ++ l, by
        rw [hl, pass, foldl_deliver_calls, List.append_assoc]⟩

/-! ### Rows only disappear -/

/-- A row that survives a delivery has failed once more and has an attempt left. -/
theorem mem_settle {w : σ} {rs : List DeltaRecord} {r' : DeltaRecord} (h : r' ∈ settle send w rs) :
    ∃ r ∈ rs, r'.core = r.core ∧ r.attempts + 1 < maxAttempts := by
  induction rs generalizing w with
  | nil => simp [settle] at h
  | cons r rs ih =>
    rcases List.mem_append.1 h with h | h
    · refine ⟨r, by simp, ?_⟩
      unfold settleOne at h
      cases herr : (send w r.payload).1 with
      | none => simp [herr] at h
      | some e =>
        simp only [herr] at h
        split_ifs at h with hmax
        · simp at h
        · rw [List.mem_singleton.1 h]
          exact ⟨rfl, Nat.lt_of_not_le hmax⟩
    · obtain ⟨a, ha, hcore⟩ := ih h
      exact ⟨a, by simp [ha], hcore⟩

theorem mem_pass {st : FlushState σ} {r' : DeltaRecord} (h : r' ∈ (pass send st).table.rows) :
    ∃ r ∈ st.table.rows, r'.core = r.core := by
  rw [pass_rows] at h
  rcases List.mem_append.1 h with h | h
  · obtain ⟨r, hr, hcore, -⟩ := mem_settle h
    exact ⟨r, List.mem_of_mem_take hr, hcore⟩
  · exact ⟨r', List.mem_of_mem_drop h, rfl⟩

theorem mem_flushLoop {fuel : Nat} {ctx : Option Nat} {st st' : FlushState σ} {e : Option String}
    (h : flushLoop send fuel ctx st = some (e, st')) {r' : DeltaRecord} (hr : r' ∈ st'.table.rows) :
    ∃ r ∈ st.table.rows, r'.core = r.core := by
  induction fuel generalizing ctx st with
  | zero => simp [flushLoop] at h
  | succ fuel ih =>
    rw [flushLoop] at h
    split_ifs at h with hctx hnil
    · obtain ⟨-, rfl⟩ := by simpa using h
      exact ⟨r', hr, rfl⟩
    · obtain ⟨-, rfl⟩ := by simpa using h
      exact ⟨r', hr, rfl⟩
    · obtain ⟨a, ha, hcore⟩ := ih h
      obtain ⟨b, hb, hcore'⟩ := mem_pass ha
      exact ⟨b, hb, hcore.trans hcore'⟩

theorem PendingDeltas.eq_of_id_eq (t : PendingDeltas) {a b : DeltaRecord} (ha : a ∈ t.rows)
    (hb : b ∈ t.rows) (h : a.id = b.id) : a = b := by
  have hnodup : (t.rows.map (·.id)).Nodup :=
    List.pairwise_map.2 (t.sorted.imp fun h => Nat.ne_of_lt h)
  exact List.inj_on_of_nodup_map hnodup ha hb h

/-- A row of the batch without an attempt left is gone after the pass. -/
theorem not_mem_pass {st : FlushState σ} {r : DeltaRecord} (hr : r ∈ st.records)
    (hmax : maxAttempts ≤ r.attempts + 1) : ∀ r' ∈ (pass send st).table.rows, r'.core ≠ r.core := by
  intro r' hr' hcore
  have hrow := List.mem_of_mem_take hr
  rw [pass_rows] at hr'
  rcases List.mem_append.1 hr' with h | h
  · obtain ⟨a, ha, hcore', hlt⟩ := mem_settle h
    have hid := DeltaRecord.id_eq_of_core (hcore'.symm.trans hcore)
    rw [st.table.eq_of_id_eq (List.mem_of_mem_take ha) hrow hid] at hlt
    omega
  · have hdisj := st.table.sorted
    rw [← List.take_append_drop flushBatchSize st.table.rows, List.pairwise_append] at hdisj
    exact absurd (DeltaRecord.id_eq_of_core hcore) (Nat.ne_of_gt (hdisj.2.2 r hr r' h))

/-! ### A pass in which every call fails -/

theorem settle_of_fail {w : σ} {rs : List DeltaRecord} (hfail : ∀ c ∈ callLog send w rs, c.2 ≠ none)
    (hmax : ∀ r ∈ rs, r.attempts + 1 < maxAttempts) :
    (settle send w rs).map (·.core) = rs.map (·.core) ∧
      (settle send w rs).map (·.attempts) = rs.map (·.attempts + 1) := by
  induction rs generalizing w with
  | nil => simp [settle]
  | cons r rs ih =>
    obtain ⟨h1, h2⟩ := List.forall_mem_cons.1 hfail
    obtain ⟨ih1, ih2⟩ := ih h2 fun a ha => hmax a (by simp [ha])
    obtain ⟨e, he⟩ : ∃ e, (send w r.payload).1 = some e := Option.ne_none_iff_exists'.1 h1
    have hone : settleOne (send w r.payload).1 r =
        [{ r with attempts := r.attempts + 1, lastError := some e }] := by
      rw [he]
      exact if_neg (Nat.not_le.2 (hmax r (by simp)))
    rw [settle, hone]
    simp only [List.map_append, ih1, ih2]
    exact ⟨rfl, rfl⟩

/-- The pass keeps every row and adds one attempt to each row of the batch. -/
theorem pass_of_fail {st : FlushState σ}
    (hfail : ∀ c ∈ callLog send st.world st.records, c.2 ≠ none)
    (hmax : ∀ r ∈ st.records, r.attempts + 1 < maxAttempts) :
    (pass send st).table.rows.map (·.core) = st.table.rows.map (·.core) ∧
      (pass send st).records.map (·.attempts) = st.records.map (·.attempts + 1) := by
  obtain ⟨h1, h2⟩ := settle_of_fail hfail hmax
  have hlen : (settle send st.world st.records).length = st.records.length := by
    simpa using congrArg List.length h1
  constructor
  · rw [pass_rows, List.map_append, h1, ← List.map_append, FlushState.records, List.take_append_drop]
  · have hrec : (pass send st).records = settle send st.world st.records := by
      rw [FlushState.records, pass_rows]
      by_cases hfull : st.records.length = flushBatchSize
      · exact List.take_left' (hlen.trans hfull)
      · have hdrop : st.table.rows.drop flushBatchSize = [] := by
          apply List.drop_eq_nil_of_le
          simp only [FlushState.records, List.length_take] at hfull
          omega
        rw [hdrop, List.append_nil]
        exact List.take_of_length_le (by rw [hlen, FlushState.records, List.length_take]; omega)
    rw [hrec, h2]

theorem Keeps.congr_left {a b after : PendingDeltas} (h : a.rows.map (·.core) = b.rows.map (·.core)) :
    Keeps a after ↔ Keeps b after := by
  have key : ∀ t : PendingDeltas, Keeps t after ↔
      ∀ c ∈ t.rows.map (·.core), ∃ r' ∈ after.rows, r'.core = c := fun t => by simp [Keeps]
  rw [key, key, h]

theorem flushLoop_keeps_iff {fuel : Nat} {ctx : Option Nat} {st st' : FlushState σ}
    {e : Option String} (h : flushLoop send fuel ctx st = some (e, st'))
    (hfail : ∀ c ∈ st'.calls, c.2 ≠ none) :
    Keeps st.table st'.table ↔
      st.table.rows = [] ∨ ∃ k, ctx = some k ∧ ∀ r ∈ st.records, r.attempts + k < maxAttempts := by
  induction fuel generalizing ctx st with
  | zero => simp [flushLoop] at h
  | succ fuel ih =>
    rw [flushLoop] at h
    split_ifs at h with hctx hnil
    · obtain ⟨-, rfl⟩ := by simpa using h
      exact iff_of_true (fun r hr => ⟨r, hr, rfl⟩)
        (.inr ⟨0, hctx, fun r hr => st.table.attempts_lt r (List.mem_of_mem_take hr)⟩)
    · obtain ⟨-, rfl⟩ := by simpa using h
      have hrows : st.table.rows = [] := by simpa [FlushState.records, flushBatchSize] using hnil
      exact iff_of_true (fun r hr => ⟨r, hr, rfl⟩) (.inl hrows)
    · have hrows : st.table.rows ≠ [] := fun hr => hnil (by simp [FlushState.records, hr])
      by_cases hmax : ∃ r ∈ st.records, maxAttempts ≤ r.attempts + 1
      · -- a row of the batch uses its last attempt in this round
        obtain ⟨r, hr, hle⟩ := hmax
        refine iff_of_false (fun hk => ?_) ?_
        · obtain ⟨r', hr', hcore⟩ := hk r (List.mem_of_mem_take hr)
          obtain ⟨a, ha, hcore'⟩ := mem_flushLoop h hr'
          exact not_mem_pass hr hle a ha (hcore'.symm.trans hcore)
        · rintro (h0 | ⟨k, rfl, hk⟩)
          · exact hrows h0
          · have := hk r hr
            have : k ≠ 0 := fun h0 => hctx (congrArg some h0)
            omega
      · -- the batch survives this round; the rest of the loop starts one attempt further
        have hlt : ∀ r ∈ st.records, r.attempts + 1 < maxAttempts := fun r hr =>
          Nat.lt_of_not_le fun hle => hmax ⟨r, hr, hle⟩
        obtain ⟨l, hl⟩ := flushLoop_calls h
        have hlog : ∀ c ∈ callLog send st.world st.records, c.2 ≠ none := fun c hc =>
          hfail c (by rw [hl, pass, foldl_deliver_calls]; simp [hc])
        obtain ⟨hcore, hatt⟩ := pass_of_fail hlog hlt
        have hrows' : (pass send st).table.rows ≠ [] := by
          intro h0; rw [h0] at hcore; exact hrows (by simpa using hcore.symm)
        rw [← Keeps.congr_left hcore, ih h, or_iff_right hrows, or_iff_right hrows']
        have hbatch : ∀ k, (∀ r ∈ (pass send st).records, r.attempts + k < maxAttempts) ↔
            ∀ r ∈ st.records, r.attempts + (k + 1) < maxAttempts := fun k => by
          have := congrArg (fun l : List Nat => ∀ n ∈ l, n + k < maxAttempts) hatt
          simpa [Nat.add_assoc, Nat.add_comm 1 k] using this
        simp only [hbatch]
        cases ctx with
        | none => simp
        | some n =>
          obtain ⟨n, rfl⟩ := Nat.exists_eq_succ_of_ne_zero fun h0 => hctx (congrArg some h0)
          simp

/-- An outage that outlasts the call costs the queue nothing exactly when the queue was empty, or the
context ended the call before a row of the first batch ran out of attempts. -/
theorem flush_keeps_iff {ctx : Option Nat} {t : PendingDeltas} {w : σ} {e : Option String}
    {st' : FlushState σ} (h : flush send ctx t w = some (e, st'))
    (hfail : ∀ c ∈ st'.calls, c.2 ≠ none) :
    Keeps t st'.table ↔
      t.rows = [] ∨
        ∃ k, ctx = some k ∧ ∀ r ∈ t.rows.take flushBatchSize, r.attempts + k < maxAttempts :=
  flushLoop_keeps_iff h hfail

end

/-- A send function during an outage. -/
def refused : Send Unit := fun w _ => (some "connection refused", w)

/-- A queue with one delta. -/
def oneDelta : PendingDeltas := .insert .empty "nas-1" "nas" "agent" "tenant" [123, 125]

/-- Five refused calls of one `Flush`, and the delta is gone. -/
theorem flush_drops_in_outage :
    ∃ e st', flush refused none oneDelta () = some (e, st') ∧ (∀ c ∈ st'.calls, c.2 ≠ none) ∧
      ¬ Keeps oneDelta st'.table := by
  refine ⟨_, _, rfl, by decide, fun hk => ?_⟩
  obtain ⟨r', hr', -⟩ := hk _ (List.mem_singleton_self _)
  exact absurd hr' List.not_mem_nil

/-- A context that ends after four rounds leaves the delta queued. -/
theorem flush_keeps_when_cancelled :
    ∃ e st', flush refused (some 4) oneDelta () = some (e, st') ∧ Keeps oneDelta st'.table := by
  obtain ⟨⟨e, st'⟩, h⟩ := Option.isSome_iff_exists.1 (flush_isSome refused (some 4) oneDelta ())
  refine ⟨e, st', h, (flush_keeps_iff h ?_).2 (.inr ⟨4, rfl, by decide⟩)⟩
  obtain rfl := congrArg Prod.snd (Option.some.inj h)
  decide

end Dgraphai.Agent
