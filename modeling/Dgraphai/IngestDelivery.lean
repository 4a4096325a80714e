import Dgraphai.IngestSoundness

/-!
# What the batcher passes on

Every record that was appended is in one flushed batch or still pending, in the order of the appends
(`logged_run`), and a flush passes the records of a batch tenant by tenant. `Replies` says what is in the
channel of a call: nothing while no batch holds one of its records, then the result of the first that does.
So a call with records is answered by the flush after its last append (`delivered`). After `Stop` there is no
such flush: a record appended then waits until others fill the batch.
-/

namespace Dgraphai.Ingest

/-- The calls of `UpsertFiles` that the flush of a batch makes: tenant and records. -/
def Batch.upserts (x : Batch) : List (String × List FileRecord) :=
  x.writes.map fun w => (w.1, (x.items.filter (·.tenantID = w.1)).map (·.record))

/-- The items a step appends. -/
def Action.items : Action → List IngestItem
  | .submit call tenantID scanID records _ => records.map fun r => ⟨tenantID, r, scanID, call⟩
  | _ => []

/-- The records submitted for a tenant. -/
def submitted (as : List Action) (tenantID : String) : List FileRecord :=
  ((as.flatMap (·.items)).filter (·.tenantID = tenantID)).map (·.record)

instance (x : Batch) (c : Nat) : Decidable (x.Has c) := inferInstanceAs (Decidable (∃ item ∈ _, _))

namespace Batcher

/-- The records passed to `UpsertFiles` under a tenant. -/
def passed (b : Batcher) (tenantID : String) : List FileRecord :=
  ((b.batches.flatMap (·.upserts)).filter (·.1 = tenantID)).flatMap (·.2)

/-- The records of a tenant that wait for a flush. -/
def waiting (b : Batcher) (tenantID : String) : List FileRecord :=
  (b.pending.filter (·.tenantID = tenantID)).map (·.record)

/-- The items appended so far. -/
def logged (b : Batcher) : List IngestItem := b.batches.flatMap (·.items) ++ b.pending

/-- The batch that answers a call: the first with one of its records. -/
def answering (b : Batcher) (c : Nat) : Option Batch := b.batches.find? (·.Has c)

/-- `<-respCh` has something to receive, or has received it. -/
def Replied (b : Batcher) (c : Nat) : Prop :=
  ∃ st, b.calls c = some st ∧ (st.respCh ≠ none ∨ st.result ≠ none)

/-- The writes of each batch are one for each of its tenants. -/
def Keyed (b : Batcher) : Prop := ∀ x ∈ b.batches, (x.writes.map (·.1)).Perm (tenants x.items)

structure Replies (b : Batcher) : Prop where
  fresh : ∀ c, b.calls c = none → ∀ item ∈ b.logged, item.respCh ≠ c
  unanswered : ∀ c st, b.calls c = some st → b.answering c = none → st = ⟨none, none⟩
  answered : ∀ c st x, b.calls c = some st → b.answering c = some x →
    st.result = some x.err ∨ st = ⟨some x.err, none⟩

variable {b b' : Batcher} {c : Nat} {tenantID scanID : String} {records : List FileRecord} {w : Writes}
  {ws : List Writes} {a : Action}

/-! ### Invariants of the loop of `Submit` -/

/-- What an append and a flush keep, the loop of `Submit` keeps. -/
theorem inv_submitLoop (P : Batcher → Prop) (hpush : ∀ b r, P b → P (b.push ⟨tenantID, r, scanID, c⟩))
    (hflush : ∀ b b' w, P b → b.flush w = some b' → P b') (hb : P b)
    (h : b.submitLoop c tenantID scanID records ws = some b') : P b' := by
  induction records generalizing b ws with
  | nil =>
    obtain ⟨-, rfl⟩ := submitLoop_nil.1 h
    exact hb
  | cons r records ih =>
    have hr := hpush b r hb
    by_cases hfull : batchSize ≤ b.pending.length + 1
    · cases ws with
      | nil =>
        rw [submitLoop, if_pos (by simpa using hfull)] at h
        cases h
      | cons w ws =>
        rw [submitLoop_full hfull] at h
        obtain ⟨b₁, hb₁, h⟩ := Option.bind_eq_some_iff.1 h
        exact ih (hflush _ b₁ w hr hb₁) h
    · rw [submitLoop_short hfull] at h
      exact ih hr h

/-! ### The log -/

theorem logged_flush (h : b.flush w = some b') : b'.logged = b.logged := by
  rcases flush_cases h with ⟨-, rfl⟩ | ⟨-, hpending, -, hbatches, -⟩
  · rfl
  · rw [logged, hpending, hbatches, List.flatMap_append, List.flatMap_singleton, List.append_nil]
    rfl

theorem logged_push (b : Batcher) (item : IngestItem) : (b.push item).logged = b.logged ++ [item] :=
  (List.append_assoc _ _ _).symm

theorem logged_submitLoop (h : b.submitLoop c tenantID scanID records ws = some b') :
    b'.logged = b.logged ++ records.map fun r => ⟨tenantID, r, scanID, c⟩ := by
  induction records generalizing b ws with
  | nil =>
    obtain ⟨-, rfl⟩ := submitLoop_nil.1 h
    exact (List.append_nil _).symm
  | cons r records ih =>
    have hsplit : b.logged ++ (r :: records).map (fun r => (⟨tenantID, r, scanID, c⟩ : IngestItem)) =
        (b.push ⟨tenantID, r, scanID, c⟩).logged ++ records.map fun r => ⟨tenantID, r, scanID, c⟩ := by
      rw [logged_push, List.map_cons, List.append_assoc, List.singleton_append]
    rw [hsplit]
    by_cases hfull : batchSize ≤ b.pending.length + 1
    · cases ws with
      | nil =>
        rw [submitLoop, if_pos (by simpa using hfull)] at h
        cases h
      | cons w ws =>
        rw [submitLoop_full hfull] at h
        obtain ⟨b₁, hb₁, h⟩ := Option.bind_eq_some_iff.1 h
        rw [ih h, logged_flush hb₁]
    · rw [submitLoop_short hfull] at h
      exact ih h

/-- What a step can do. -/
theorem step_cases (h : b.step a = some b') :
    (∃ c tenantID scanID records ws, a = .submit c tenantID scanID records ws ∧ b.calls c = none ∧
      submitLoop { b with calls := Function.update b.calls c (some ⟨none, none⟩) } c tenantID scanID records ws =
        some b') ∨
    (∃ c err, a = .recv c ∧ b.calls c = some ⟨some err, none⟩ ∧
      b' = { b with calls := Function.update b.calls c (some ⟨none, some err⟩) }) ∨
    (∃ w, a = .tick w ∧ b.flush w = some b') ∨
    ∃ w b₁, a = .stop w ∧ b.flush w = some b₁ ∧ b' = { b₁ with done := true } := by
  cases a with
  | submit c tenantID scanID records ws =>
    simp only [step] at h
    split at h
    · cases h
    next hc => exact .inl ⟨c, tenantID, scanID, records, ws, rfl, hc, h⟩
  | recv c =>
    simp only [step] at h
    split at h
    next err hc => exact .inr (.inl ⟨c, err, rfl, hc, (Option.some.inj h).symm⟩)
    · cases h
  | tick w =>
    simp only [step] at h
    split_ifs at h
    exact .inr (.inr (.inl ⟨w, rfl, h⟩))
  | stop w =>
    simp only [step] at h
    split_ifs at h
    obtain ⟨b₁, hb₁, rfl⟩ := Option.map_eq_some_iff.1 h
    exact .inr (.inr (.inr ⟨w, b₁, rfl, hb₁, rfl⟩))

theorem logged_step (h : b.step a = some b') : b'.logged = b.logged ++ a.items := by
  rcases step_cases h with ⟨c, tenantID, scanID, records, ws, rfl, -, hloop⟩ | ⟨c, err, rfl, -, rfl⟩ |
    ⟨w, rfl, hflush⟩ | ⟨w, b₁, rfl, hflush, rfl⟩
  · exact (logged_submitLoop hloop :)
  · exact (List.append_nil _).symm
  · exact (logged_flush hflush).trans (List.append_nil _).symm
  · exact (logged_flush hflush).trans (List.append_nil _).symm

theorem logged_run {as : List Action} (h : Runs.run step b as = some b') :
    b'.logged = b.logged ++ as.flatMap (·.items) := by
  induction as generalizing b with
  | nil =>
    obtain rfl := Option.some.inj h
    exact (List.append_nil _).symm
  | cons a as ih =>
    obtain ⟨b₁, hb₁, h⟩ := Runs.run_cons.1 h
    rw [ih h, logged_step hb₁, List.flatMap_cons, List.append_assoc]

/-! ### Replies -/

theorem Keyed.flush (hk : b.Keyed) (h : b.flush w = some b') : b'.Keyed := by
  have hw : (w.map (·.1)).Perm (tenants b.pending) := by
    unfold Batcher.flush at h
    split_ifs at h with hw
    · exact hw
    · exact hw
  rcases flush_cases h with ⟨-, rfl⟩ | ⟨-, -, -, hbatches, -⟩
  · exact hk
  · intro x hx
    rw [hbatches] at hx
    rcases List.mem_append.1 hx with hx | hx
    · exact hk x hx
    · rw [List.mem_singleton.1 hx]
      exact hw

theorem Replies.flush (hr : b.Replies) (h : b.flush w = some b') : b'.Replies := by
  have hlogged := logged_flush h
  rcases flush_cases h with ⟨-, rfl⟩ | ⟨-, -, -, hbatches, hcalls⟩
  · exact hr
  have hcalls : ∀ c, b'.calls c =
      if (Batch.mk b.pending w).Has c then (b.calls c).map (·.offer (writeErr w)) else b.calls c := hcalls
  have hanswering : ∀ c, b'.answering c =
      (b.answering c).or (if (Batch.mk b.pending w).Has c then some ⟨b.pending, w⟩ else none) := by
    intro c
    rw [answering, hbatches, List.find?_append]
    congr 1
    simp only [List.find?_singleton, decide_eq_true_eq]
  have hcall : ∀ c st, b'.calls c = some st → ∃ st₀, b.calls c = some st₀ ∧
      st = if (Batch.mk b.pending w).Has c then st₀.offer (writeErr w) else st₀ := by
    intro c st hst
    rw [hcalls] at hst
    by_cases hhas : (Batch.mk b.pending w).Has c
    · rw [if_pos hhas] at hst
      obtain ⟨st₀, hst₀, rfl⟩ := Option.map_eq_some_iff.1 hst
      exact ⟨st₀, hst₀, (if_pos hhas).symm⟩
    · rw [if_neg hhas] at hst
      exact ⟨st, hst, (if_neg hhas).symm⟩
  refine ⟨fun c hc => ?_, fun c st hst hnone => ?_, fun c st x hst hx => ?_⟩
  · rw [hlogged]
    refine hr.fresh c ?_
    rw [hcalls] at hc
    split_ifs at hc
    · exact Option.map_eq_none_iff.1 hc
    · exact hc
  · obtain ⟨st₀, hst₀, rfl⟩ := hcall c st hst
    rw [hanswering, Option.or_eq_none_iff] at hnone
    by_cases hhas : (Batch.mk b.pending w).Has c
    · rw [if_pos hhas] at hnone
      cases hnone.2
    · rw [if_neg hhas]
      exact hr.unanswered c st₀ hst₀ hnone.1
  · obtain ⟨st₀, hst₀, rfl⟩ := hcall c st hst
    rw [hanswering] at hx
    rcases hold : b.answering c with _ | y
    · -- the first batch with a record of the call
      rw [hold, Option.none_or] at hx
      by_cases hhas : (Batch.mk b.pending w).Has c
      · rw [if_pos hhas] at hx
        obtain rfl := Option.some.inj hx
        rw [hr.unanswered c st₀ hst₀ hold, if_pos hhas]
        exact .inr rfl
      · rw [if_neg hhas] at hx
        cases hx
    · -- the call has been answered before
      rw [hold, Option.some_or] at hx
      obtain rfl := Option.some.inj hx
      rcases hr.answered c st₀ y hst₀ hold with hres | rfl
      · left
        split_ifs <;> exact hres
      · right
        split_ifs <;> rfl

theorem Replies.push (hr : b.Replies) {item : IngestItem} (hcall : b.calls item.respCh ≠ none) :
    (b.push item).Replies where
  fresh c hc i hi := by
    rw [logged_push] at hi
    rcases List.mem_append.1 hi with hi | hi
    · exact hr.fresh c hc i hi
    · rw [List.mem_singleton.1 hi]
      rintro rfl
      exact hcall hc
  unanswered := hr.unanswered
  answered := hr.answered

/-- A flush takes no call away. -/
theorem calls_flush (h : b.flush w = some b') (hc : b.calls c ≠ none) : b'.calls c ≠ none := by
  rcases flush_cases h with ⟨-, rfl⟩ | ⟨-, -, -, -, hcalls⟩
  · exact hc
  · rw [hcalls]
    split_ifs
    · exact fun hnone => hc (Option.map_eq_none_iff.1 hnone)
    · exact hc

/-- A new entry for one call. -/
theorem Replies.set (hr : b.Replies) {st : SubmitCall} (hnone : b.answering c = none → st = ⟨none, none⟩)
    (hsome : ∀ x, b.answering c = some x → st.result = some x.err ∨ st = ⟨some x.err, none⟩) :
    Replies { b with calls := Function.update b.calls c (some st) } := by
  have hcases : ∀ {c' : Nat} {o : Option SubmitCall}, Function.update b.calls c (some st) c' = o →
      c' = c ∧ o = some st ∨ b.calls c' = o := by
    intro c' o ho
    rcases eq_or_ne c' c with rfl | hne
    · rw [Function.update_self] at ho
      exact .inl ⟨rfl, ho.symm⟩
    · rw [Function.update_of_ne hne] at ho
      exact .inr ho
  refine ⟨fun c' hc' => ?_, fun c' st' hst hc' => ?_, fun c' st' x hst hx => ?_⟩
  · rcases hcases hc' with ⟨-, heq⟩ | hold
    · cases heq
    · exact hr.fresh c' hold
  · rcases hcases hst with ⟨rfl, heq⟩ | hold
    · obtain rfl := Option.some.inj heq
      exact hnone hc'
    · exact hr.unanswered c' st' hold hc'
  · rcases hcases hst with ⟨rfl, heq⟩ | hold
    · obtain rfl := Option.some.inj heq
      exact hsome x hx
    · exact hr.answered c' st' x hold hx

/-- A new call: no batch has a record of it. -/
theorem Replies.open (hr : b.Replies) (hc : b.calls c = none) :
    Replies { b with calls := Function.update b.calls c (some ⟨none, none⟩) } := by
  have hnone : b.answering c = none := by
    refine List.find?_eq_none.2 fun x hx hhas => ?_
    obtain ⟨item, hitem, hic⟩ := of_decide_eq_true hhas
    have hlogged : item ∈ b.logged := List.mem_append_left _ (List.mem_flatMap.2 ⟨x, hx, hitem⟩)
    exact hr.fresh c hc item hlogged hic
  refine hr.set (fun _ => rfl) fun x hx => ?_
  rw [hnone] at hx
  cases hx

theorem Replies.recv (hr : b.Replies) {err : Option String} (hc : b.calls c = some ⟨some err, none⟩) :
    Replies { b with calls := Function.update b.calls c (some ⟨none, some err⟩) } := by
  refine hr.set (fun hnone => ?_) fun x hx => ?_
  · cases hr.unanswered c _ hc hnone
  · rcases hr.answered c _ x hc hx with hres | heq
    · cases hres
    · cases heq
      exact .inl rfl

theorem Replies.step (hr : b.Replies) (hk : b.Keyed) (h : b.step a = some b') : b'.Replies ∧ b'.Keyed := by
  rcases step_cases h with ⟨c, tenantID, scanID, records, ws, rfl, hc, hloop⟩ | ⟨c, err, rfl, hc, rfl⟩ |
    ⟨w, rfl, hflush⟩ | ⟨w, b₁, rfl, hflush, rfl⟩
  · obtain ⟨-, hreplies, hkeyed⟩ := inv_submitLoop (fun b => b.calls c ≠ none ∧ b.Replies ∧ b.Keyed)
      (fun b r h => ⟨h.1, h.2.1.push h.1, h.2.2⟩)
      (fun b b' w h hflush => ⟨calls_flush hflush h.1, h.2.1.flush hflush, h.2.2.flush hflush⟩)
      ⟨by simp, hr.open hc, hk⟩ hloop
    exact ⟨hreplies, hkeyed⟩
  · exact ⟨hr.recv hc, hk⟩
  · exact ⟨hr.flush hflush, hk.flush hflush⟩
  · obtain ⟨hfresh, hunanswered, hanswered⟩ := hr.flush hflush
    exact ⟨⟨hfresh, hunanswered, hanswered⟩, (hk.flush hflush :)⟩

theorem replies_new : new.Replies where
  fresh _ _ item hitem := absurd hitem List.not_mem_nil
  unanswered c st h := by cases h
  answered c st _ h := by cases h

theorem replies_run {as : List Action} (h : Runs.run step new as = some b) : b.Replies ∧ b.Keyed :=
  Runs.inv_run (fun _ _ _ hb h => Replies.step hb.1 hb.2 h) h
    ⟨replies_new, fun _ hx => absurd hx List.not_mem_nil⟩

/-! ### Every record once -/

/-- A batch passes the records of a tenant in one call of `UpsertFiles`. -/
theorem upserts_of_keyed {x : Batch} (h : (x.writes.map (·.1)).Perm (tenants x.items)) (tenantID : String) :
    (x.upserts.filter (·.1 = tenantID)).flatMap (·.2) =
      (x.items.filter (·.tenantID = tenantID)).map (·.record) := by
  have hnodup : (x.writes.map (·.1)).Nodup := h.nodup_iff.2 (List.nodup_dedup _)
  have hmem : tenantID ∈ x.writes.map (·.1) ↔ ∃ item ∈ x.items, item.tenantID = tenantID := by
    rw [h.mem_iff, tenants, List.mem_dedup, List.mem_map]
  rw [Batch.upserts, List.filter_map, List.flatMap_map]
  have hkey : ((fun u : String × List FileRecord => decide (u.1 = tenantID)) ∘ fun w : String × Option String =>
      (w.1, (x.items.filter (·.tenantID = w.1)).map (·.record))) = fun w => decide (w.1 = tenantID) := rfl
  rw [hkey]
  by_cases hin : tenantID ∈ x.writes.map (·.1)
  · obtain ⟨⟨t, o⟩, hw, rfl⟩ := List.mem_map.1 hin
    obtain ⟨pre, post, hsplit⟩ := List.append_of_mem hw
    rw [hsplit, List.map_append, List.map_cons, List.nodup_append, List.nodup_cons] at hnodup
    obtain ⟨-, ⟨hpost, -⟩, hpre⟩ := hnodup
    have hone : x.writes.filter (fun w => decide (w.1 = t)) = [(t, o)] := by
      have h1 : pre.filter (fun w => decide (w.1 = t)) = [] := by
        refine List.filter_eq_nil_iff.2 fun w hw heq => ?_
        exact hpre w.1 (List.mem_map_of_mem hw) t List.mem_cons_self (of_decide_eq_true heq)
      have h2 : post.filter (fun w => decide (w.1 = t)) = [] :=
        List.filter_eq_nil_iff.2 fun w hw heq => hpost (List.mem_map.2 ⟨w, hw, of_decide_eq_true heq⟩)
      rw [hsplit, List.filter_append, h1, List.filter_cons_of_pos (by simp), h2, List.nil_append]
    rw [hone, List.flatMap_singleton]
  · have hnone : x.writes.filter (fun w => decide (w.1 = tenantID)) = [] :=
      List.filter_eq_nil_iff.2 fun w hw heq => hin (of_decide_eq_true heq ▸ List.mem_map_of_mem hw)
    have hitems : x.items.filter (fun item => decide (item.tenantID = tenantID)) = [] :=
      List.filter_eq_nil_iff.2 fun item hitem heq => hin (hmem.2 ⟨item, hitem, of_decide_eq_true heq⟩)
    rw [hnone, hitems]
    rfl

theorem Keyed.passed_eq (hk : b.Keyed) (tenantID : String) :
    b.passed tenantID = ((b.batches.flatMap (·.items)).filter (·.tenantID = tenantID)).map (·.record) := by
  rw [passed, List.filter_flatMap, List.flatMap_assoc, List.filter_flatMap, List.map_flatMap]
  exact List.flatMap_congr fun x hx => upserts_of_keyed (hk x hx) tenantID

/-- A call with records and nothing pending has its reply. -/
theorem Replies.replied (hr : b.Replies) {item : IngestItem} (hitem : item ∈ b.logged)
    (hpending : ∀ i ∈ b.pending, i.respCh ≠ item.respCh) : b.Replied item.respCh := by
  obtain ⟨st, hst⟩ := Option.ne_none_iff_exists'.1 fun hnone => hr.fresh item.respCh hnone item hitem rfl
  have hbatch : b.answering item.respCh ≠ none := by
    intro hnone
    rcases List.mem_append.1 hitem with hmem | hmem
    · obtain ⟨x, hx, hix⟩ := List.mem_flatMap.1 hmem
      exact List.find?_eq_none.1 hnone x hx (decide_eq_true ⟨item, hix, rfl⟩)
    · exact hpending item hmem rfl
  obtain ⟨x, hx⟩ := Option.ne_none_iff_exists'.1 hbatch
  refine ⟨st, hst, ?_⟩
  rcases hr.answered item.respCh st x hst hx with hres | rfl
  · exact .inr (by rw [hres]; exact Option.some_ne_none _)
  · exact .inl (Option.some_ne_none _)

theorem pending_flush (h : b.flush w = some b') : b'.pending = [] := by
  rcases flush_cases h with ⟨hnil, rfl⟩ | ⟨-, hnil, -⟩
  · exact hnil
  · exact hnil

/-- After the loop of `Submit` there is room in the open batch. -/
theorem room_submitLoop (hroom : b.pending.length < batchSize)
    (h : b.submitLoop c tenantID scanID records ws = some b') : b'.pending.length < batchSize := by
  induction records generalizing b ws with
  | nil =>
    obtain ⟨-, rfl⟩ := submitLoop_nil.1 h
    exact hroom
  | cons r records ih =>
    by_cases hfull : batchSize ≤ b.pending.length + 1
    · cases ws with
      | nil =>
        rw [submitLoop, if_pos (by simpa using hfull)] at h
        cases h
      | cons w ws =>
        rw [submitLoop_full hfull] at h
        obtain ⟨b₁, hb₁, h⟩ := Option.bind_eq_some_iff.1 h
        refine ih ?_ h
        rw [pending_flush hb₁]
        exact Nat.succ_pos _
    · rw [submitLoop_short hfull] at h
      refine ih ?_ h
      rw [length_push]
      omega

theorem room_step (hroom : b.pending.length < batchSize) (h : b.step a = some b') :
    b'.pending.length < batchSize := by
  rcases step_cases h with ⟨c, tenantID, scanID, records, ws, rfl, -, hloop⟩ | ⟨c, err, rfl, -, rfl⟩ |
    ⟨w, rfl, hflush⟩ | ⟨w, b₁, rfl, hflush, rfl⟩
  · exact room_submitLoop (b := { b with calls := Function.update b.calls c (some ⟨none, none⟩) }) hroom hloop
  · exact hroom
  · rw [pending_flush hflush]
    exact Nat.succ_pos _
  · show b₁.pending.length < batchSize
    rw [pending_flush hflush]
    exact Nat.succ_pos _

/-- For each tenant, the records passed to `UpsertFiles` and then those that wait are the records of its own
`Submit` calls in the order of their appends. Nothing waits after a flush of the loop, and never as many as
fill a batch; a call with records of which none waits has its reply. -/
theorem delivered {as : List Action} (h : Runs.run step new as = some b) :
    (∀ tenantID, b.passed tenantID ++ b.waiting tenantID = submitted as tenantID) ∧
      b.pending.length < batchSize ∧
      (∀ a b', (∃ w, a = .tick w ∨ a = .stop w) → b.step a = some b' → b'.pending = []) ∧
      ∀ c tenantID scanID records ws, .submit c tenantID scanID records ws ∈ as → records ≠ [] →
        (∀ item ∈ b.pending, item.respCh ≠ c) → b.Replied c := by
  obtain ⟨hreplies, hkeyed⟩ := replies_run h
  have hlogged : b.logged = as.flatMap (·.items) := logged_run h
  refine ⟨fun tenantID => ?_, ?_, ?_, ?_⟩
  · rw [hkeyed.passed_eq, waiting, submitted, ← hlogged, logged, List.filter_append, List.map_append]
  · exact Runs.inv_run (fun _ _ _ hroom h => room_step hroom h) h (Nat.succ_pos _)
  · rintro a b' ⟨w, rfl | rfl⟩ hstep
    · simp only [step] at hstep
      split_ifs at hstep
      exact pending_flush hstep
    · simp only [step] at hstep
      split_ifs at hstep
      obtain ⟨b₁, hb₁, rfl⟩ := Option.map_eq_some_iff.1 hstep
      exact (pending_flush hb₁ :)
  · intro c tenantID scanID records ws hmem hne hpending
    obtain ⟨r, hr⟩ := List.exists_mem_of_ne_nil records hne
    have hitem : (⟨tenantID, r, scanID, c⟩ : IngestItem) ∈ b.logged := by
      rw [hlogged]
      exact List.mem_flatMap.2 ⟨_, hmem, List.mem_map_of_mem hr⟩
    exact hreplies.replied hitem hpending

/-- Two tenants in one batch. -/
def twoTenants : List Action :=
  [.submit 0 "acme" "scan-1" [aFile, aFile] [], .submit 1 "initech" "scan-7" [aFile] [],
    .tick [("initech", none), ("acme", none)]]

theorem twoTenants_delivered : ∃ b, Runs.run step new twoTenants = some b ∧
    b.passed "acme" ++ b.waiting "acme" = submitted twoTenants "acme" := by
  obtain ⟨b, hb⟩ : ∃ b, Runs.run step new twoTenants = some b := Option.isSome_iff_exists.1 (by decide)
  exact ⟨b, hb, (delivered hb).1 "acme"⟩

/-- A record submitted after the last flush is not passed on. -/
theorem late_submit_waits : ¬ ∀ as b, Runs.run step new as = some b → b.done = true →
    ∀ tenantID, b.passed tenantID = submitted as tenantID := by
  intro h
  have hlate : (Runs.run step new [.stop [], .submit 0 "acme" "scan-1" [aFile] []]).any (fun b =>
      b.done = true ∧ b.passed "acme" ≠ submitted [.stop [], .submit 0 "acme" "scan-1" [aFile] []] "acme") = true := by
    decide
  obtain ⟨b, hb, hno⟩ := (Option.any_eq_true _ _).1 hlate
  obtain ⟨hdone, hne⟩ := of_decide_eq_true hno
  exact hne (h _ b hb hdone "acme")

end Batcher
end Dgraphai.Ingest
