import Dgraphai.ProxyStore
import Mathlib.Data.List.Nodup

/-!
# The delta log against the store

The cloud folds the deltas in `seq` order, the store holds the effects in commit order. `Store.Inv` ties
the queue, the acknowledged deltas and the open transactions to the commit history; with it one commit
keeps log and store together exactly if it is not `overtaken` (`agrees_step_iff`), and a run keeps
them together exactly if no commit of it is (`agrees_always_iff`).
-/

namespace Dgraphai.Proxy

open Replay

variable {s s' : Store}

/-- All queued and acknowledged deltas in increasing `seq` order. -/
def Store.deltas (s : Store) : List DeltaRecord := byStamp (·.seq) (s.pending ++ s.acked)

/-- Folding the deltas over an empty graph gives the node and edge tables. -/
def Store.Agrees (s : Store) : Prop :=
  replay (fun _ => none) (s.deltas.map (·.change)) = s.graph

/-- A delta queued or acknowledged under a later `seq` than `seq`, the newest of its node or edge,
says something else about it than `d`. -/
def Store.Overtaken (s : Store) (d : DeltaRecord) : Prop :=
  ∃ m ∈ s.history, (∀ d' ∈ s.history, d'.change.key = m.change.key → d'.seq ≤ m.seq) ∧
    m.change.key = d.change.key ∧ d.seq < m.seq ∧ m.change.value ≠ d.change.value

/-- The commits under which the log stays in step with the store; every other action may be taken. -/
def Store.InOrder (s : Store) : Action → Prop
  | .commit g => ∀ t seq, s.txns g = some t → t.seq = some seq → ¬ s.Overtaken (t.delta s.tenantID seq)
  | _ => True

/-- The numbers drawn by the open transactions: below `bound`, not in the history, all different. -/
structure Drawn (txns : Nat → Option Txn) (bound : Nat) (history : List DeltaRecord) : Prop where
  fresh : ∀ g t n, txns g = some t → t.seq = some n → n < bound ∧ ∀ d ∈ history, d.seq ≠ n
  inj : ∀ g g' t t' n, txns g = some t → txns g' = some t' → t.seq = some n → t'.seq = some n → g = g'

structure Store.Inv (s : Store) : Prop where
  seq_lt : ∀ d ∈ s.history, d.seq < s.nextSeq
  seq_nodup : (s.history.map (·.seq)).Nodup
  drawn : Drawn s.txns s.nextSeq s.history
  queued : ∀ n d, s.kv[deltaKey s.tenantID n]? = some (.delta d) ↔
    d ∈ s.history ∧ d ∉ s.acked ∧ d.seq = n
  delta_key : ∀ k d, s.kv[k]? = some (.delta d) → k = deltaKey s.tenantID d.seq
  acked_mem : ∀ d ∈ s.acked, d ∈ s.history
  acked_nodup : s.acked.Nodup

@[simp] theorem KV.getElem?_put (kv : KV) (k k' : String) (v : Option Value) :
    (kv.put k v)[k']? = if k = k' then v else kv[k']? := by
  cases v <;> simp [put, Std.TreeMap.getElem?_insert, Std.TreeMap.getElem?_erase]

@[simp] theorem Txn.delta_seq (t : Txn) (tenantID : String) (n : Nat) : (t.delta tenantID n).seq = n :=
  rfl

/-- The delta of a writer describes the write it is queued with. -/
theorem Txn.delta_change (t : Txn) (tenantID : String) (n : Nat) :
    (t.delta tenantID n).change =
      ⟨(t.call.update tenantID t.now).key, (t.call.update tenantID t.now).value⟩ := by
  obtain ⟨c, now, seq⟩ := t
  cases c <;> rfl

/-! ### The queue -/

namespace Store

theorem Inv.mem_pending (h : s.Inv) (d : DeltaRecord) :
    d ∈ s.pending ↔ d ∈ s.history ∧ d ∉ s.acked := by
  simp only [pending, List.mem_filterMap, Prod.exists, Std.TreeMap.mem_toList_iff_getElem?_eq_some]
  constructor
  · rintro ⟨k, v, hkv, hd⟩
    obtain rfl := scanDelta_eq_some hd
    rw [h.delta_key k d hkv] at hkv
    obtain ⟨h1, h2, -⟩ := (h.queued _ _).1 hkv
    exact ⟨h1, h2⟩
  · rintro ⟨hmem, hack⟩
    exact ⟨_, _, (h.queued d.seq d).2 ⟨hmem, hack, rfl⟩, scanDelta_deltaKey _ _ _⟩

theorem Inv.pending_nodup (h : s.Inv) : s.pending.Nodup := by
  have hkeys : s.kv.toList.Pairwise fun a b => a.1 ≠ b.1 :=
    s.kv.distinct_keys_toList.imp fun hab e => hab (by simp [e])
  refine List.Pairwise.filterMap _ ?_ (List.Pairwise.and_mem.1 hkeys)
  rintro ⟨k, v⟩ ⟨k', v'⟩ ⟨hm, hm', hne⟩ d hd d' hd' rfl
  obtain rfl := scanDelta_eq_some hd
  obtain rfl := scanDelta_eq_some hd'
  rw [Std.TreeMap.mem_toList_iff_getElem?_eq_some] at hm hm'
  exact hne ((h.delta_key k d hm).trans (h.delta_key k' d hm').symm)

theorem Inv.perm_history (h : s.Inv) : (s.pending ++ s.acked).Perm s.history := by
  refine (List.perm_ext_iff_of_nodup ?_ h.seq_nodup.of_map).2 fun d => ?_
  · refine List.nodup_append.2 ⟨h.pending_nodup, h.acked_nodup, ?_⟩
    rintro a ha b hb rfl
    exact ((h.mem_pending a).1 ha).2 hb
  · rw [List.mem_append, h.mem_pending]
    by_cases hd : d ∈ s.acked
    · simp [hd, h.acked_mem d hd]
    · simp [hd]

theorem Inv.deltas_eq (h : s.Inv) : s.deltas = byStamp (·.seq) s.history :=
  byStamp_eq_of_perm h.perm_history h.seq_nodup

/-! ### The steps -/

theorem inv_open (tenantID : String) : (Store.open tenantID).Inv where
  seq_lt := by simp [Store.open]
  seq_nodup := by simp [Store.open]
  drawn := ⟨by simp [Store.open], by simp [Store.open]⟩
  queued := by simp [Store.open]
  delta_key := by simp [Store.open]
  acked_mem := by simp [Store.open]
  acked_nodup := by simp [Store.open]

end Store

namespace Drawn
variable {txns : Nat → Option Txn} {bound : Nat} {history : List DeltaRecord}

/-- Entering a writer, or leaving it. -/
theorem setUndrawn (h : Drawn txns bound history) (g : Nat) {x : Option Txn}
    (hx : ∀ t, x = some t → t.seq = none) : Drawn (Function.update txns g x) bound history := by
  have hold : ∀ g' t n, Function.update txns g x g' = some t → t.seq = some n → txns g' = some t := by
    intro g' t n hg' ht
    rcases eq_or_ne g' g with rfl | hne
    · rw [Function.update_self] at hg'
      simp [hx t hg'] at ht
    · rwa [Function.update_of_ne hne] at hg'
  exact ⟨fun g' t n hg' ht => h.fresh g' t n (hold g' t n hg' ht) ht,
    fun g' g'' t t' n hg' hg'' ht ht' =>
      h.inj g' g'' t t' n (hold g' t n hg' ht) (hold g'' t' n hg'' ht') ht ht'⟩

theorem next (h : Drawn txns bound history) (hb : ∀ d ∈ history, d.seq < bound) (g : Nat) (c : Call)
    (now : Time) : Drawn (Function.update txns g (some ⟨c, now, some bound⟩)) (bound + 1) history := by
  -- the new number is above every number drawn before
  have hcases : ∀ g' t n, Function.update txns g (some ⟨c, now, some bound⟩) g' = some t →
      t.seq = some n → g' = g ∧ n = bound ∨ n < bound ∧ txns g' = some t := by
    intro g' t n hg' ht
    rcases eq_or_ne g' g with rfl | hne
    · rw [Function.update_self] at hg'
      cases hg'
      cases ht
      exact .inl ⟨rfl, rfl⟩
    · rw [Function.update_of_ne hne] at hg'
      exact .inr ⟨(h.fresh g' t n hg' ht).1, hg'⟩
  constructor
  · intro g' t n hg' ht
    rcases hcases g' t n hg' ht with ⟨rfl, rfl⟩ | ⟨hlt, hg'⟩
    · exact ⟨Nat.lt_succ_self _, fun d hd => Nat.ne_of_lt (hb d hd)⟩
    · exact ⟨Nat.lt_succ_of_lt hlt, (h.fresh g' t n hg' ht).2⟩
  · intro g' g'' t t' n hg' hg'' ht ht'
    rcases hcases g' t n hg' ht with ⟨rfl, rfl⟩ | ⟨hlt, hg'⟩ <;>
      rcases hcases g'' t' n hg'' ht' with ⟨rfl, hn⟩ | ⟨hlt', hg''⟩
    · rfl
    · exact absurd hlt' (Nat.lt_irrefl _)
    · exact absurd hlt (hn ▸ Nat.lt_irrefl _)
    · exact h.inj g' g'' t t' n hg' hg'' ht ht'

/-- The number of a transaction that commits goes from the open transactions to the history. -/
theorem commit (h : Drawn txns bound history) {g : Nat} {t : Txn} {d : DeltaRecord}
    (hg : txns g = some t) (ht : t.seq = some d.seq) :
    Drawn (Function.update txns g none) bound (history ++ [d]) := by
  have h' := h.setUndrawn g (x := none) (by simp)
  refine ⟨fun g' t' n hg' ht' => ⟨(h'.fresh g' t' n hg' ht').1, fun d' hd' => ?_⟩, h'.inj⟩
  rcases List.mem_append.1 hd' with hd' | hd'
  · exact (h'.fresh g' t' n hg' ht').2 d' hd'
  · rw [List.mem_singleton.1 hd']
    rintro rfl
    have hne : g' ≠ g := by rintro rfl; simp at hg'
    rw [Function.update_of_ne hne] at hg'
    exact hne (h.inj g' g t' t _ hg' hg ht' ht)

end Drawn

namespace Store

/-- The store after the commit of `t`, which has drawn `n`. -/
def committed (s : Store) (g : Nat) (t : Txn) (n : Nat) : Store :=
  { s with
    kv := s.write t n
    txns := Function.update s.txns g none
    history := s.history ++ [t.delta s.tenantID n] }

theorem getElem?_write (s : Store) (t : Txn) (n : Nat) (k : String) :
    (s.write t n)[k]? =
      if deltaKey s.tenantID n = k then some (.delta (t.delta s.tenantID n))
      else if (t.call.update s.tenantID t.now).key.encode s.tenantID = k then
        (t.call.update s.tenantID t.now).value.map .data
      else s.kv[k]? := by
  simp [write]

theorem write_delta (s : Store) (t : Txn) (n : Nat) {k : String} {d : DeltaRecord} :
    (s.write t n)[k]? = some (.delta d) ↔
      k = deltaKey s.tenantID n ∧ t.delta s.tenantID n = d ∨
      k ≠ deltaKey s.tenantID n ∧
        k ≠ (t.call.update s.tenantID t.now).key.encode s.tenantID ∧ s.kv[k]? = some (.delta d) := by
  rw [getElem?_write]
  by_cases hk : deltaKey s.tenantID n = k
  · simp [hk]
  · by_cases hk' : (t.call.update s.tenantID t.now).key.encode s.tenantID = k
    · simp [hk, hk', Ne.symm hk]
    · simp [hk, hk', Ne.symm hk, Ne.symm hk']

theorem Inv.commit (h : s.Inv) {g : Nat} {t : Txn} {n : Nat} (hg : s.txns g = some t)
    (ht : t.seq = some n) : (s.committed g t n).Inv := by
  obtain ⟨hlt, hfresh⟩ := h.drawn.fresh g t n hg ht
  have hack : t.delta s.tenantID n ∉ s.acked := fun hd => hfresh _ (h.acked_mem _ hd) rfl
  refine
    { seq_lt := fun d hd => ?_, seq_nodup := ?_, drawn := h.drawn.commit hg ht,
      queued := fun n' d => ?_, delta_key := fun k d hk => ?_,
      acked_mem := fun d hd => List.mem_append_left _ (h.acked_mem d hd),
      acked_nodup := h.acked_nodup }
  · rcases List.mem_append.1 hd with hd | hd
    · exact h.seq_lt d hd
    · rw [List.mem_singleton.1 hd]; exact hlt
  · simp only [committed, List.map_append, List.nodup_append, h.seq_nodup]
    simpa using hfresh
  · simp only [committed, write_delta, h.queued, List.mem_append, List.mem_singleton]
    constructor
    · rintro (⟨hn, rfl⟩ | ⟨-, -, hd, hd', rfl⟩)
      · exact ⟨.inr rfl, hack, (deltaKey_inj hn).symm⟩
      · exact ⟨.inl hd, hd', rfl⟩
    · rintro ⟨hd | rfl, hd', rfl⟩
      · exact .inr ⟨fun e => hfresh d hd (deltaKey_inj e), (GraphKey.encode_ne_deltaKey _ _ _).symm,
          hd, hd', rfl⟩
      · exact .inl ⟨rfl, rfl⟩
  · rcases (write_delta s t n).1 hk with ⟨rfl, rfl⟩ | ⟨-, -, hk⟩
    · rfl
    · exact h.delta_key k d hk

theorem Inv.mem_acked_ackOne (h : s.Inv) (n : Nat) (d : DeltaRecord) :
    d ∈ (s.ackOne n).acked ↔ d ∈ s.acked ∨ d ∈ s.history ∧ d.seq = n := by
  rw [Store.ackOne]
  constructor
  · intro hd
    rcases List.mem_append.1 hd with hd | hd
    · exact .inl hd
    · split at hd
      next d' hkv =>
        rw [List.mem_singleton.1 hd]
        obtain ⟨hmem, -, hn⟩ := (h.queued n d').1 hkv
        exact .inr ⟨hmem, hn⟩
      next => simp at hd
  · rintro (hd | ⟨hd, hn⟩)
    · exact List.mem_append_left _ hd
    · by_cases hd' : d ∈ s.acked
      · exact List.mem_append_left _ hd'
      · simp [(h.queued n d).2 ⟨hd, hd', hn⟩]

theorem Inv.ackOne (h : s.Inv) (n : Nat) : (s.ackOne n).Inv := by
  have hacked := h.mem_acked_ackOne n
  have hkv : ∀ k, (s.ackOne n).kv[k]? = if deltaKey s.tenantID n = k then none else s.kv[k]? :=
    fun k => by simp [Store.ackOne]
  refine
    { h with
      queued := fun n' d => ?_, delta_key := fun k d hk => ?_, acked_mem := fun d hd => ?_,
      acked_nodup := ?_ }
  · rw [hkv, hacked]
    change (if deltaKey s.tenantID n = deltaKey s.tenantID n' then none else _) = _ ↔ d ∈ s.history ∧ _
    rcases eq_or_ne n n' with rfl | hne
    · simp only [if_pos]
      refine iff_of_false (by simp) ?_
      rintro ⟨hd, hd', rfl⟩
      exact hd' (.inr ⟨hd, rfl⟩)
    · rw [if_neg fun e => hne (deltaKey_inj e)]
      refine (h.queued n' d).trans ?_
      constructor
      · rintro ⟨hd, hd', rfl⟩
        exact ⟨hd, by rintro (h1 | ⟨-, rfl⟩); exacts [hd' h1, hne rfl], rfl⟩
      · rintro ⟨hd, hd', rfl⟩
        exact ⟨hd, fun h1 => hd' (.inl h1), rfl⟩
  · rw [hkv] at hk
    split_ifs at hk
    exact h.delta_key k d hk
  · rcases (hacked d).1 hd with hd | ⟨hd, -⟩
    · exact h.acked_mem d hd
    · exact hd
  · rw [Store.ackOne]
    refine List.nodup_append.2 ⟨h.acked_nodup, by split <;> simp, fun a ha b hb hab => ?_⟩
    subst hab
    split at hb
    next d' hkv' =>
      rw [List.mem_singleton.1 hb] at ha
      exact ((h.queued n d').1 hkv').2.1 ha
    next => simp at hb

theorem graph_ackOne (s : Store) (n : Nat) : (s.ackOne n).graph = s.graph := by
  funext k
  have : deltaKey s.tenantID n ≠ k.encode s.tenantID := (GraphKey.encode_ne_deltaKey _ _ _).symm
  simp [graph, ackOne, this]

theorem graph_committed (s : Store) (g : Nat) (t : Txn) (n : Nat) :
    (s.committed g t n).graph = Function.update s.graph (t.delta s.tenantID n).change.key
      (t.delta s.tenantID n).change.value := by
  funext k
  have hd : deltaKey s.tenantID n ≠ k.encode s.tenantID := (GraphKey.encode_ne_deltaKey _ _ _).symm
  rw [Txn.delta_change]
  simp only [graph, committed, getElem?_write, if_neg hd]
  rcases eq_or_ne k (t.call.update s.tenantID t.now).key with rfl | hne
  · rw [if_pos rfl, Function.update_self]
    cases (t.call.update s.tenantID t.now).value <;> rfl
  · rw [if_neg fun e => hne (GraphKey.encode_inj e).symm, Function.update_of_ne hne]
    rfl

theorem Inv.ackDeltas (h : s.Inv) (seqs : List Nat) : (seqs.foldl Store.ackOne s).Inv := by
  induction seqs generalizing s with
  | nil => exact h
  | cons n seqs ih => exact ih (h.ackOne n)

theorem Inv.mem_acked_ackDeltas (h : s.Inv) (seqs : List Nat) (d : DeltaRecord) :
    d ∈ (seqs.foldl Store.ackOne s).acked ↔ d ∈ s.acked ∨ d ∈ s.history ∧ d.seq ∈ seqs := by
  induction seqs generalizing s with
  | nil => simp
  | cons n seqs ih =>
    have hhist : (s.ackOne n).history = s.history := rfl
    rw [List.foldl_cons, ih (h.ackOne n), h.mem_acked_ackOne, hhist, List.mem_cons]
    tauto

theorem ackDeltas_frame (s : Store) (seqs : List Nat) :
    (seqs.foldl Store.ackOne s).history = s.history ∧ (seqs.foldl Store.ackOne s).graph = s.graph := by
  induction seqs generalizing s with
  | nil => exact ⟨rfl, rfl⟩
  | cons n seqs ih =>
    obtain ⟨h1, h2⟩ := ih (s.ackOne n)
    exact ⟨h1, h2.trans (graph_ackOne s n)⟩

theorem ackDeltas_txns (s : Store) (seqs : List Nat) : (seqs.foldl ackOne s).txns = s.txns := by
  induction seqs generalizing s with
  | nil => rfl
  | cons n seqs ih => exact ih (s.ackOne n)

/-- Only a commit touches the history and the tables. -/
theorem step_cases {a : Action} (h : s.step a = some s') :
    (∃ g t n, a = .commit g ∧ s.txns g = some t ∧ t.seq = some n ∧ s' = s.committed g t n) ∨
      (∀ g, a ≠ .commit g) ∧ s'.history = s.history ∧ s'.graph = s.graph := by
  cases a with
  | call g c now =>
    simp only [step] at h
    split at h
    · cases h; exact .inr ⟨by simp, rfl, rfl⟩
    · cases h
  | next g =>
    simp only [step] at h
    split at h
    · cases h; exact .inr ⟨by simp, rfl, rfl⟩
    · cases h
  | commit g =>
    simp only [step] at h
    split at h
    next c now n hg => cases h; exact .inl ⟨g, _, n, rfl, hg, rfl, rfl⟩
    next => cases h
  | fail g =>
    simp only [step] at h
    split at h
    · cases h; exact .inr ⟨by simp, rfl, rfl⟩
    · cases h
  | ackDeltas seqs => cases h; exact .inr ⟨by simp, ackDeltas_frame s seqs⟩
  | reopen lost => cases h; exact .inr ⟨by simp, rfl, rfl⟩

theorem inv_step (h : s.Inv) {a : Action} (hstep : s.step a = some s') : s'.Inv := by
  cases a with
  | call g c now =>
    simp only [step] at hstep
    split at hstep
    · cases hstep
      exact { h with drawn := h.drawn.setUndrawn g fun t ht => by cases ht; rfl }
    · cases hstep
  | next g =>
    simp only [step] at hstep
    split at hstep
    next c now hg =>
      cases hstep
      exact { h with
        seq_lt := fun d hd => Nat.lt_succ_of_lt (h.seq_lt d hd), drawn := h.drawn.next h.seq_lt g c now }
    next => cases hstep
  | commit g =>
    simp only [step] at hstep
    split at hstep
    next c now n hg => cases hstep; exact h.commit hg rfl
    next => cases hstep
  | fail g =>
    simp only [step] at hstep
    split at hstep
    · cases hstep
      exact { h with drawn := h.drawn.setUndrawn g (by simp) }
    · cases hstep
  | ackDeltas seqs => cases hstep; exact h.ackDeltas seqs
  | reopen lost =>
    cases hstep
    exact { h with
      seq_lt := fun d hd => Nat.lt_add_right _ (h.seq_lt d hd), drawn := ⟨by simp, by simp⟩ }

/-- A commit keeps the log in step with the store exactly if the delta is not overtaken. -/
theorem agrees_step_iff (h : s.Inv) (hagree : s.Agrees) {a : Action} (hstep : s.step a = some s') :
    s'.Agrees ↔ s.InOrder a := by
  have h' := inv_step h hstep
  rw [Agrees, h.deltas_eq] at hagree
  rw [Agrees, h'.deltas_eq]
  rcases step_cases hstep with ⟨g, t, n, rfl, hg, hn, rfl⟩ | ⟨hne, hhist, hgraph⟩
  · have hnodup : ((s.history ++ [t.delta s.tenantID n]).map (·.seq)).Nodup := h'.seq_nodup
    rw [graph_committed, ← hagree]
    refine (replay_byStamp_concat_iff _ hnodup).trans ?_
    constructor
    · intro hlast t' n' hg' hn'
      obtain rfl : t = t' := Option.some.inj (hg.symm.trans hg')
      obtain rfl : n = n' := Option.some.inj (hn.symm.trans hn')
      rintro ⟨m, hm, hmax, hkey, hlt, hval⟩
      exact hval (hlast m ⟨hm, hmax⟩ hkey hlt)
    · intro hord m hm hkey hlt
      by_contra hval
      exact hord t n hg hn ⟨m, hm.1, hm.2, hkey, hlt, hval⟩
  · rw [hhist, hgraph]
    refine iff_of_true hagree ?_
    cases a with
    | commit g => exact absurd rfl (hne g)
    | _ => trivial

/-- Two concurrent upserts of the same node: the one that drew its number first commits last. -/
def swappedCommits : List Action :=
  let node name := NodeRecord.mk "n1" "" ["File"] [("name", .str name)] 0 0 none ""
  [.call 1 (.upsertNode (node "old") "") 1, .call 2 (.upsertNode (node "new") "") 1, .next 1, .next 2,
    .commit 2, .commit 1]

end Store

end Dgraphai.Proxy
