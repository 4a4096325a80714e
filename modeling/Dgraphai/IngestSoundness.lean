import Dgraphai.IngestBatcher

/-!
# What a `nil` from `Submit` promises

The reply channel keeps the result of the first batch that held one of the call's records. A call that
fits into the open batch has no other (`sound_of_fits`); a call that does not fit is answered by its
first batch while a later one may fail (`exists_unsound_of_not_fits`).
-/

namespace Dgraphai.Ingest

/-- The batch holds a record of `Submit` call `c`. -/
def Batch.Has (x : Batch) (c : Nat) : Prop := ∃ item ∈ x.items, item.respCh = c

/-- A call that returned `nil` has all its flushed records in batches written without error. -/
def Batcher.Sound (b : Batcher) : Prop :=
  ∀ c st, b.calls c = some st → st.result = some none → ∀ x ∈ b.batches, x.Has c → x.err = none

/-- The records of a `Submit` go into one batch: the open one has room for all of them. -/
def Batcher.Fits (b : Batcher) : Action → Prop
  | .submit _ _ _ records _ => b.pending.length + records.length ≤ batchSize
  | _ => True

instance (b : Batcher) (a : Action) : Decidable (b.Fits a) := by
  cases a <;> unfold Batcher.Fits <;> infer_instance

/-- Nothing of call `c` has been flushed, or everything has, in batches with one result. -/
def Batcher.CallInv (b : Batcher) (c : Nat) (st : SubmitCall) : Prop :=
  (∀ x ∈ b.batches, ¬ x.Has c) ∧ st = ⟨none, none⟩ ∨
    (∀ item ∈ b.pending, item.respCh ≠ c) ∧
      ∃ e, (∀ x ∈ b.batches, x.Has c → x.err = e) ∧ (st.result = some e ∨ st = ⟨some e, none⟩)

structure Batcher.Inv (b : Batcher) : Prop where
  fresh : ∀ c, b.calls c = none → (∀ item ∈ b.pending, item.respCh ≠ c) ∧ ∀ x ∈ b.batches, ¬ x.Has c
  call : ∀ c st, b.calls c = some st → b.CallInv c st

variable {b b' : Batcher} {c : Nat}

/-! ### The replies of one flush -/

theorem SubmitCall.offer_offer (err : Option String) (st : SubmitCall) :
    (st.offer err).offer err = st.offer err := by
  obtain ⟨respCh, result⟩ := st
  cases respCh <;> rfl

theorem offerAll_apply (err : Option String) (calls : Nat → Option SubmitCall)
    (items : List IngestItem) (c : Nat) :
    offerAll err calls items c =
      if ∃ item ∈ items, item.respCh = c then (calls c).map (·.offer err) else calls c := by
  induction items generalizing calls with
  | nil => simp [offerAll]
  | cons item items ih =>
    rw [offerAll, List.foldl_cons]
    change offerAll err _ items c = _
    rw [ih]
    rcases eq_or_ne item.respCh c with rfl | hne
    · rw [Function.update_self]
      rw [if_pos (⟨item, by simp, rfl⟩ : ∃ i ∈ item :: items, i.respCh = item.respCh)]
      split_ifs
      · cases calls item.respCh with
        | none => rfl
        | some st => simp [SubmitCall.offer_offer]
      · rfl
    · rw [Function.update_of_ne (Ne.symm hne)]
      simp [hne]

theorem Batcher.flush_cases {w : Writes} (h : b.flush w = some b') :
    b.pending = [] ∧ b' = b ∨
      b.pending ≠ [] ∧ b'.pending = [] ∧ b'.done = b.done ∧
        b'.batches = b.batches ++ [Batch.mk b.pending w] ∧
        ∀ c, b'.calls c =
          if ∃ item ∈ b.pending, item.respCh = c then (b.calls c).map (·.offer (writeErr w))
          else b.calls c := by
  unfold Batcher.flush at h
  split_ifs at h with hw hnil
  · cases h; exact .inl ⟨hnil, rfl⟩
  · cases h; exact .inr ⟨hnil, rfl, rfl, rfl, offerAll_apply _ _ _⟩

/-! ### The loop of `Submit` -/

@[simp] theorem Batcher.length_push (b : Batcher) (item : IngestItem) :
    (b.push item).pending.length = b.pending.length + 1 := by
  simp [push]

variable {tenantID scanID : String} {r : FileRecord} {records : List FileRecord} {w : Writes}
  {ws : List Writes}

theorem Batcher.submitLoop_nil : b.submitLoop c tenantID scanID [] ws = some b' ↔ ws = [] ∧ b' = b := by
  unfold Batcher.submitLoop
  split_ifs with h <;> simp [h, eq_comm]

theorem Batcher.submitLoop_full (h : batchSize ≤ b.pending.length + 1) :
    b.submitLoop c tenantID scanID (r :: records) (w :: ws) =
      ((b.push ⟨tenantID, r, scanID, c⟩).flush w).bind fun b =>
        b.submitLoop c tenantID scanID records ws := by
  rw [Batcher.submitLoop, if_pos (by simpa using h)]

theorem Batcher.submitLoop_short (h : ¬ batchSize ≤ b.pending.length + 1) :
    b.submitLoop c tenantID scanID (r :: records) ws =
      (b.push ⟨tenantID, r, scanID, c⟩).submitLoop c tenantID scanID records ws := by
  rw [Batcher.submitLoop.eq_def]
  exact if_neg (by simpa using h)

/-! ### A call that fits -/

theorem Batcher.Inv.flush (h : b.Inv) {w : Writes} (hf : b.flush w = some b') : b'.Inv := by
  rcases Batcher.flush_cases hf with ⟨-, rfl⟩ | ⟨-, hpend', -, hbatches', hcalls'⟩
  · exact h
  have hbatch : ∀ x ∈ b'.batches, ∀ c, x.Has c →
      x ∈ b.batches ∨ x.err = writeErr w ∧ ∃ item ∈ b.pending, item.respCh = c := by
    intro x hx c hc
    rw [hbatches'] at hx
    rcases List.mem_append.1 hx with hx | hx
    · exact .inl hx
    · rw [List.mem_singleton.1 hx] at hc ⊢
      exact .inr ⟨rfl, hc⟩
  constructor
  · intro c hc
    refine ⟨by simp [hpend'], fun x hx hxc => ?_⟩
    have hold : b.calls c = none := by
      rw [hcalls'] at hc
      split_ifs at hc
      · exact Option.map_eq_none_iff.1 hc
      · exact hc
    obtain ⟨hpend, hbatches⟩ := h.fresh c hold
    rcases hbatch x hx c hxc with hx | ⟨-, item, hitem, hic⟩
    · exact hbatches x hx hxc
    · exact hpend item hitem hic
  · intro c st hst
    rw [hcalls'] at hst
    split_ifs at hst with hc
    · -- the batch answers the call
      obtain ⟨st', hst', rfl⟩ := Option.map_eq_some_iff.1 hst
      obtain ⟨item, hitem, hic⟩ := hc
      rcases h.call c st' hst' with ⟨hnone, rfl⟩ | ⟨hpend, -⟩
      · refine .inr ⟨by simp [hpend'], writeErr w, fun x hx hxc => ?_, .inr rfl⟩
        rcases hbatch x hx c hxc with hx | ⟨herr, -⟩
        · exact absurd hxc (hnone x hx)
        · exact herr
      · exact absurd hic (hpend item hitem)
    · -- the call has nothing in the batch
      rcases h.call c st hst with ⟨hnone, rfl⟩ | ⟨-, e, he, hres⟩
      · refine .inl ⟨fun x hx hxc => ?_, rfl⟩
        rcases hbatch x hx c hxc with hx | ⟨-, hpend⟩
        · exact hnone x hx hxc
        · exact hc hpend
      · refine .inr ⟨by simp [hpend'], e, fun x hx hxc => ?_, hres⟩
        rcases hbatch x hx c hxc with hx | ⟨-, hpend⟩
        · exact he x hx hxc
        · exact absurd hpend hc

/-- A record of a call without a flushed record joins the open batch. -/
theorem Batcher.Inv.append (h : b.Inv) (item : IngestItem)
    (hc : b.calls item.respCh = some ⟨none, none⟩) (hnone : ∀ x ∈ b.batches, ¬ x.Has item.respCh) :
    (b.push item).Inv := by
  have hpend : ∀ c, c ≠ item.respCh → (∀ i ∈ b.pending, i.respCh ≠ c) →
      ∀ i ∈ b.pending ++ [item], i.respCh ≠ c := by
    intro c hne hold i hi
    rcases List.mem_append.1 hi with hi | hi
    · exact hold i hi
    · rw [List.mem_singleton.1 hi]; exact hne.symm
  constructor
  · intro c hcnone
    obtain ⟨h1, h2⟩ := h.fresh c hcnone
    have hne : c ≠ item.respCh := by
      rintro rfl
      rw [show b.calls item.respCh = none from hcnone] at hc
      cases hc
    exact ⟨hpend c hne h1, h2⟩
  · intro c st hst
    rcases eq_or_ne c item.respCh with rfl | hne
    · obtain rfl : st = ⟨none, none⟩ := Option.some.inj (hst.symm.trans hc)
      exact .inl ⟨hnone, rfl⟩
    · rcases h.call c st hst with h1 | ⟨h1, h2⟩
      · exact .inl h1
      · exact .inr ⟨hpend c hne h1, h2⟩

theorem Batcher.Inv.submitLoop (h : b.Inv) (hc : b.calls c = some ⟨none, none⟩)
    (hnone : ∀ x ∈ b.batches, ¬ x.Has c) (hfit : b.pending.length + records.length ≤ batchSize)
    (hs : b.submitLoop c tenantID scanID records ws = some b') : b'.Inv := by
  induction records generalizing b with
  | nil =>
    obtain ⟨-, rfl⟩ := Batcher.submitLoop_nil.1 hs
    exact h
  | cons r records ih =>
    have h1 := Batcher.Inv.append h ⟨tenantID, r, scanID, c⟩ hc hnone
    rw [List.length_cons] at hfit
    by_cases hfull : batchSize ≤ b.pending.length + 1
    · -- the batch is full, so this was the last record
      obtain rfl : records = [] := List.eq_nil_of_length_eq_zero (by omega)
      cases ws with
      | nil => rw [Batcher.submitLoop, if_pos (by simpa using hfull)] at hs; cases hs
      | cons w ws =>
        rw [Batcher.submitLoop_full hfull] at hs
        obtain ⟨b₂, hb₂, hs⟩ := Option.bind_eq_some_iff.1 hs
        obtain ⟨-, rfl⟩ := Batcher.submitLoop_nil.1 hs
        exact h1.flush hb₂
    · rw [Batcher.submitLoop_short hfull] at hs
      refine ih h1 hc hnone ?_ hs
      rw [Batcher.length_push]
      omega

theorem Batcher.Inv.step (h : b.Inv) {a : Action} (hfit : b.Fits a) (hs : b.step a = some b') :
    b'.Inv := by
  cases a with
  | submit c tenantID scanID records ws =>
    simp only [Batcher.step] at hs
    split at hs
    · cases hs
    next hc =>
      obtain ⟨hpend, hnone⟩ := h.fresh c hc
      refine Batcher.Inv.submitLoop
        (b := { b with calls := Function.update b.calls c (some ⟨none, none⟩) }) ?_
        (Function.update_self ..) hnone hfit hs
      constructor
      · intro c' hc'
        have hne : c' ≠ c := by rintro rfl; simp at hc'
        exact h.fresh c' (by simpa [hne] using hc')
      · intro c' st hst
        rcases eq_or_ne c' c with rfl | hne
        · obtain rfl : (⟨none, none⟩ : SubmitCall) = st := by simpa using hst
          exact .inl ⟨hnone, rfl⟩
        · exact h.call c' st (by simpa [hne] using hst)
  | recv c =>
    simp only [Batcher.step] at hs
    split at hs
    next err hc =>
      cases hs
      constructor
      · intro c' hc'
        have hne : c' ≠ c := by rintro rfl; simp at hc'
        exact h.fresh c' (by simpa [hne] using hc')
      · intro c' st hst
        rcases eq_or_ne c' c with rfl | hne
        · obtain rfl : (⟨none, some err⟩ : SubmitCall) = st := by simpa using hst
          rcases h.call c' _ hc with ⟨-, h1⟩ | ⟨hpend, e, he, h1 | h1⟩
          · cases h1
          · cases h1
          · cases h1
            exact .inr ⟨hpend, err, he, .inl rfl⟩
        · exact h.call c' st (by simpa [hne] using hst)
    · cases hs
  | tick w =>
    simp only [Batcher.step] at hs
    split_ifs at hs
    exact h.flush hs
  | stop w =>
    simp only [Batcher.step] at hs
    split_ifs at hs
    obtain ⟨b₁, hb₁, rfl⟩ := Option.map_eq_some_iff.1 hs
    exact ⟨(h.flush hb₁).fresh, (h.flush hb₁).call⟩

theorem Batcher.inv_new : Batcher.new.Inv :=
  ⟨fun c _ => ⟨by simp [Batcher.new], by simp [Batcher.new]⟩, fun c st h => by cases h⟩

theorem Batcher.Inv.sound (h : b.Inv) : b.Sound := by
  intro c st hst hres x hx hxc
  rcases h.call c st hst with ⟨hnone, -⟩ | ⟨-, e, he, h1 | rfl⟩
  · exact absurd hxc (hnone x hx)
  · rw [he x hx hxc]
    exact Option.some.inj (h1.symm.trans hres)
  · cases hres

/-- In every run whose `Submit` calls each fit into the open batch, a `nil` reply means that every
batch with a record of the call was written without error. -/
theorem Batcher.sound_of_fits {as : List Action} (h : Runs.Along step Fits new as) :
    Runs.Always step Sound new as :=
  Runs.always_of_along (fun _ _ _ hi hfit hs => Batcher.Inv.step hi hfit hs)
    (fun _ hi => Batcher.Inv.sound hi) inv_new h

/-! ### A call that does not fit -/

/-- Writes that all end the same way. -/
def uniform (r : Option String) (items : List IngestItem) : Writes :=
  (tenants items).map fun t => (t, r)

theorem writeErr_uniform (r : Option String) {items : List IngestItem} (h : items ≠ []) :
    writeErr (uniform r items) = r := by
  have hall : ∀ (l : List String) (e : Option String),
      (l.map fun t => (t, r)).foldl (fun (err : Option String) r => r.2.or err) e =
        if l = [] then e else r.or e := by
    intro l
    induction l with
    | nil => simp
    | cons t l ih =>
      intro e
      rw [List.map_cons, List.foldl_cons, ih]
      cases r <;> simp
  have hne : tenants items ≠ [] := by
    obtain ⟨item, hitem⟩ := List.exists_mem_of_ne_nil items h
    exact List.ne_nil_of_mem (List.mem_dedup.2 (List.mem_map_of_mem hitem))
  rw [writeErr, uniform, hall, if_neg hne, Option.or_none]

theorem Batcher.flush_uniform_isSome (b : Batcher) (r : Option String) :
    ∃ b', b.flush (uniform r b.pending) = some b' := by
  have hperm : ((uniform r b.pending).map (·.1)).Perm (tenants b.pending) := by
    simp [uniform, Function.comp_def]
  unfold Batcher.flush
  rw [if_pos hperm]
  split_ifs
  · exact ⟨_, rfl⟩
  · exact ⟨_, rfl⟩

/-- A record of call `c` waits in the open batch, or is in a batch that was not written. -/
def Batcher.AtRisk (b : Batcher) (c : Nat) : Prop :=
  (∃ item ∈ b.pending, item.respCh = c) ∨ ∃ x ∈ b.batches, x.Has c ∧ x.err ≠ none

/-- A flush whose writes fail leaves the record at risk in a failed batch, and takes back no reply. -/
theorem Batcher.AtRisk.flush (h : b.AtRisk c) :
    ∃ b', b.flush (uniform (some "write failed") b.pending) = some b' ∧ b'.done = b.done ∧
      (∀ st, b.calls c = some st → ∃ st', b'.calls c = some st' ∧ st'.result = st.result ∧
        ∀ r, st.respCh = some r → st'.respCh = some r) ∧
      ∃ x ∈ b'.batches, x.Has c ∧ x.err ≠ none := by
  obtain ⟨b', hb'⟩ := b.flush_uniform_isSome (some "write failed")
  refine ⟨b', hb', ?_⟩
  rcases Batcher.flush_cases hb' with ⟨hnil, rfl⟩ | ⟨hne, -, hdone, hbatches, hcalls⟩
  · refine ⟨rfl, fun st hst => ⟨st, hst, rfl, fun r hr => hr⟩, ?_⟩
    rcases h with ⟨item, hitem, -⟩ | h
    · rw [hnil] at hitem; cases hitem
    · exact h
  · refine ⟨hdone, fun st hst => ?_, ?_⟩
    · rw [hcalls, hst]
      split_ifs
      · exact ⟨_, rfl, rfl, fun r hr => by simp [SubmitCall.offer, hr]⟩
      · exact ⟨st, rfl, rfl, fun r hr => hr⟩
    · rw [hbatches]
      rcases h with h | ⟨x, hx, hxc⟩
      · refine ⟨_, List.mem_append_right _ (List.mem_singleton_self _), h, ?_⟩
        rw [Batch.err, writeErr_uniform _ hne]
        simp
      · exact ⟨x, List.mem_append_left _ hx, hxc⟩

theorem Batcher.push_atRisk (b : Batcher) (tenantID scanID : String) (r : FileRecord) (c : Nat) :
    (b.push ⟨tenantID, r, scanID, c⟩).AtRisk c :=
  .inl ⟨_, List.mem_append_right _ (List.mem_singleton_self _), rfl⟩

/-- Once the channel holds `nil`, the rest of the loop can only put the remaining records at risk. -/
theorem Batcher.submitLoop_atRisk (tenantID scanID : String) (records : List FileRecord)
    (hc : b.calls c = some ⟨some none, none⟩) (h : records ≠ [] ∨ b.AtRisk c) :
    ∃ ws b', b.submitLoop c tenantID scanID records ws = some b' ∧ b'.done = b.done ∧
      b'.calls c = some ⟨some none, none⟩ ∧ b'.AtRisk c := by
  induction records generalizing b with
  | nil => exact ⟨[], b, submitLoop_nil.2 ⟨rfl, rfl⟩, rfl, hc, h.resolve_left (by simp)⟩
  | cons r records ih =>
    have hrisk := b.push_atRisk tenantID scanID r c
    by_cases hfull : batchSize ≤ b.pending.length + 1
    · obtain ⟨b₁, hb₁, hdone, hcall, hx⟩ := hrisk.flush
      obtain ⟨⟨respCh, result⟩, hst, hres, hresp⟩ := hcall _ hc
      obtain rfl : result = none := hres
      obtain rfl : respCh = some none := hresp none rfl
      obtain ⟨ws, b', hb', hdone', hc', hrisk'⟩ := ih hst (.inr (.inr hx))
      exact ⟨_ :: ws, b', by rw [submitLoop_full hfull, hb₁]; exact hb', hdone'.trans hdone, hc', hrisk'⟩
    · obtain ⟨ws, b', hb', hrest⟩ := ih (b := b.push ⟨tenantID, r, scanID, c⟩) hc (.inr hrisk)
      exact ⟨ws, b', by rw [submitLoop_short hfull]; exact hb', hrest⟩

/-- A call that does not fit gets `nil` from its first batch and leaves a record at risk. -/
theorem Batcher.submitLoop_of_not_fits (tenantID scanID : String) (records : List FileRecord)
    (hshort : b.pending.length < batchSize) (hfit : batchSize < b.pending.length + records.length)
    (hc : b.calls c = some ⟨none, none⟩) :
    ∃ ws b', b.submitLoop c tenantID scanID records ws = some b' ∧ b'.done = b.done ∧
      b'.calls c = some ⟨some none, none⟩ ∧ b'.AtRisk c := by
  induction records generalizing b with
  | nil => rw [List.length_nil] at hfit; omega
  | cons r records ih =>
    rw [List.length_cons] at hfit
    by_cases hfull : batchSize ≤ b.pending.length + 1
    · -- the first batch is written, and there are records left
      obtain ⟨b₁, hb₁⟩ := (b.push ⟨tenantID, r, scanID, c⟩).flush_uniform_isSome none
      rcases flush_cases hb₁ with ⟨hnil, -⟩ | ⟨hne, -, hdone, -, hcalls⟩
      · simp [push] at hnil
      have hc₁ : b₁.calls c = some ⟨some none, none⟩ := by
        rw [hcalls, if_pos ⟨_, List.mem_append_right _ (List.mem_singleton_self _), rfl⟩]
        show (b.calls c).map _ = _
        rw [hc, writeErr_uniform _ hne]
        rfl
      have hrest : records ≠ [] := by
        rintro rfl
        rw [List.length_nil] at hfit
        omega
      obtain ⟨ws, b', hb', hdone', hrest'⟩ :=
        submitLoop_atRisk tenantID scanID records hc₁ (.inl hrest)
      exact ⟨_ :: ws, b', by rw [submitLoop_full hfull, hb₁]; exact hb', hdone'.trans hdone, hrest'⟩
    · obtain ⟨ws, b', hb', hrest⟩ := ih (b := b.push ⟨tenantID, r, scanID, c⟩)
        (by rw [length_push]; omega) (by rw [length_push]; omega) hc
      exact ⟨ws, b', by rw [submitLoop_short hfull]; exact hb', hrest⟩

/-- A call that does not fit can be answered `nil` although a batch with one of its records fails. -/
theorem Batcher.exists_unsound_of_not_fits (hdone : b.done = false) (hshort : b.pending.length < batchSize) (hc : b.calls c = none)
    (hfit : batchSize < b.pending.length + records.length) :
    ∃ ws w b', Runs.run step b [.submit c tenantID scanID records ws, .recv c, .tick w] = some b' ∧
      ¬ b'.Sound := by
  obtain ⟨ws, b₁, hb₁, hdone₁, hc₁, hrisk₁⟩ := Batcher.submitLoop_of_not_fits
    (b := { b with calls := Function.update b.calls c (some ⟨none, none⟩) }) (c := c)
    tenantID scanID records hshort hfit (Function.update_self ..)
  have hrisk₂ : AtRisk { b₁ with calls := Function.update b₁.calls c (some ⟨none, some none⟩) } c :=
    hrisk₁
  obtain ⟨b₂, hb₂, -, hcall₂, x, hx, hxc, herr⟩ := hrisk₂.flush
  obtain ⟨st, hst, hres, -⟩ := hcall₂ _ (Function.update_self ..)
  refine ⟨ws, uniform (some "write failed") b₁.pending, b₂, ?_, fun hsound =>
    herr (hsound c st hst hres x hx hxc)⟩
  have h1 : step b (.submit c tenantID scanID records ws) = some b₁ := by
    simp only [step, hc]
    exact hb₁
  have h2 : step b₁ (.recv c) =
      some { b₁ with calls := Function.update b₁.calls c (some ⟨none, some none⟩) } := by
    simp only [step, hc₁]
  have h3 : step { b₁ with calls := Function.update b₁.calls c (some ⟨none, some none⟩) }
      (.tick (uniform (some "write failed") b₁.pending)) = some b₂ := by
    show (if b₁.done then none else _) = _
    rw [if_neg (by rw [hdone₁, hdone]; decide)]
    exact hb₂
  exact Runs.run_cons.2 ⟨_, h1, Runs.run_cons.2 ⟨_, h2, Runs.run_cons.2 ⟨_, h3, rfl⟩⟩⟩

def aFile : FileRecord := ⟨"/data/a.txt", "document", false⟩

/-- One agent posts 501 files: the batch of 500 is written and the call answered, then the write of the
last file fails. -/
theorem large_submit_unsound :
    ∃ ws w b', Runs.run Batcher.step Batcher.new
        [.submit 0 "acme" "scan-1" (List.replicate 501 aFile) ws, .recv 0, .tick w] = some b' ∧
      ¬ b'.Sound :=
  Batcher.exists_unsound_of_not_fits rfl (by decide) rfl
    (by rw [List.length_replicate]; decide)

/-- Two calls in one batch, written and answered. -/
theorem small_submits_sound :
    Runs.Always Batcher.step Batcher.Sound Batcher.new
      [.submit 0 "acme" "scan-1" [aFile, aFile] [], .submit 1 "initech" "scan-7" [aFile] [],
        .tick [("acme", none), ("initech", none)], .recv 0, .recv 1] := by
  exact Batcher.sound_of_fits (by decide)

end Dgraphai.Ingest
