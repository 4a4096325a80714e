import Dgraphai.AgentDelivery

/-!
# The fallback of `sendDelta`

With a queue that takes every chunk, `sendDelta` leaves a chunk nowhere in one case: it returns from the wait
before an attempt because the context is done, while no POST so far was accepted (`caught_iff`). A context
that ends during the last POST is no such case.
-/

namespace Dgraphai.AgentSync

open Dedup (Env Scanner Delivery syncDelta)

variable (E : Env) (scanner : Scanner) (client : Client)

/-- `sync_delta` accepts the delivery, whatever the databases hold. -/
def Accepted (d : Delivery) : Prop := ∀ s, ∃ r, (syncDelta E d.scanner d.chunk d.outcome s).1 = .ok r

/-- `sendDelta` got the chunk accepted or queued. -/
def Caught (delta : GraphDelta) (x : Exchange) (w : World) : Prop :=
  (∃ d ∈ (sendDelta E scanner client delta x w).2.2, Accepted E d) ∨
    ∃ queue, w.queue = some queue ∧ (sendDelta E scanner client delta x w).2.1.queue = some (queue ++ [delta])

/-- `sync_delta` accepts the POST; its answer may be lost. -/
def Post.Accepts (delta : GraphDelta) : Post → Prop
  | .lost => False
  | .delivered O _ => scanner.tenantID = delta.tenantID ∧ O.tenantFound = true ∧ O.backendKnown = true ∧
      O.connects = true

/-- The context is done in the wait before an attempt, and no POST before was accepted. -/
def CutOff (delta : GraphDelta) (x : Exchange) : Prop :=
  ∃ n, 0 < n ∧ n < maxRetries ∧ x.cancelled n = true ∧ ∀ m < n, ¬ (x.post m).Accepts scanner delta

variable {E scanner client} {delta : GraphDelta} {x : Exchange}

theorem Post.accepts_of_answers {p : Post} (h : p.Answers scanner delta) : p.Accepts scanner delta := by
  cases p with
  | lost => exact h
  | delivered O answered => exact h.2

variable (E client) in
theorem Post.accepts_iff (p : Post) :
    p.Accepts scanner delta ↔ ∃ d ∈ p.delivery? scanner (toDeltaChunk client delta false), Accepted E d := by
  cases p with
  | lost => simp [Post.Accepts, Post.delivery?]
  | delivered O answered =>
    have hok := syncDelta_isOk_iff E scanner (toDeltaChunk client delta false)
      (splitNodes_fileNodes delta.tenantID delta.files) O
    constructor
    · intro h
      exact ⟨_, rfl, fun s => (hok s).2 h⟩
    · rintro ⟨d, hd, h⟩
      obtain rfl := Option.some.inj hd
      exact (hok Dedup.emptyState).1 (h Dedup.emptyState)

variable (E scanner client delta) in
/-- `caught_iff` from attempt `attempt` on. -/
theorem attempts_caught_iff (henqueued : x.enqueued = true) (queue : List GraphDelta) (left attempt : Nat)
    (server : Dedup.State) :
    let r := attempts E scanner client delta x left attempt ⟨server, some queue⟩
    ((∃ d ∈ r.2.2, Accepted E d) ∨ r.2.1.queue = some (queue ++ [delta])) ↔
      ¬ ∃ n, 0 < n ∧ attempt ≤ n ∧ n < attempt + left ∧ x.cancelled n = true ∧
        ∀ m, attempt ≤ m → m < n → ¬ (x.post m).Accepts scanner delta := by
  induction left generalizing attempt server with
  | zero =>
    have hr : attempts E scanner client delta x 0 attempt ⟨server, some queue⟩ =
        (none, ⟨server, some (queue ++ [delta])⟩, []) := if_pos henqueued
    rw [hr]
    refine iff_of_true (.inr rfl) ?_
    rintro ⟨n, -, hle, hlt, -⟩
    omega
  | succ left ih =>
    by_cases hctx : 0 < attempt ∧ x.cancelled attempt = true
    · -- the wait before the attempt ends the call
      rw [attempts, if_pos hctx]
      refine iff_of_false ?_ (not_not.2 ⟨attempt, hctx.1, le_rfl, by omega, hctx.2, by omega⟩)
      rintro (⟨d, hd, -⟩ | hqueue)
      · exact absurd hd List.not_mem_nil
      · have hlength := congrArg List.length (Option.some.inj hqueue)
        rw [List.length_append, List.length_singleton] at hlength
        omega
    · have hwait : ∀ n, 0 < n → attempt ≤ n → x.cancelled n = true → attempt + 1 ≤ n := by
        intro n hpos hle hcancelled
        rcases Nat.eq_or_lt_of_le hle with rfl | hlt
        · exact absurd ⟨hpos, hcancelled⟩ hctx
        · exact hlt
      rw [attempts, if_neg hctx, postJSON_eq]
      by_cases hanswers : (x.post attempt).Answers scanner delta
      · have haccepts := Post.accepts_of_answers hanswers
        rw [if_pos hanswers]
        refine iff_of_true (.inl ?_) ?_
        · obtain ⟨d, hd, haccepted⟩ := (Post.accepts_iff E client _).1 haccepts
          exact ⟨d, Option.mem_toList.2 hd, haccepted⟩
        · rintro ⟨n, hpos, hle, -, hcancelled, hnone⟩
          exact hnone attempt le_rfl (hwait n hpos hle hcancelled) haccepts
      · rw [if_neg hanswers]
        have hrest := ih (attempt + 1) (afterDeliveries E server
          ((x.post attempt).delivery? scanner (toDeltaChunk client delta false)).toList)
        dsimp only at hrest ⊢
        generalize attempts E scanner client delta x left (attempt + 1) ⟨afterDeliveries E server
          ((x.post attempt).delivery? scanner (toDeltaChunk client delta false)).toList, some queue⟩ = rest at hrest ⊢
        have hsplit : (∃ d ∈ ((x.post attempt).delivery? scanner (toDeltaChunk client delta false)).toList ++ rest.2.2,
            Accepted E d) ↔ (x.post attempt).Accepts scanner delta ∨ ∃ d ∈ rest.2.2, Accepted E d := by
          rw [Post.accepts_iff E client]
          simp only [List.mem_append, Option.mem_toList, Option.mem_def, or_and_right, exists_or]
        rw [hsplit, or_assoc, hrest]
        by_cases haccepts : (x.post attempt).Accepts scanner delta
        · refine iff_of_true (.inl haccepts) ?_
          rintro ⟨n, hpos, hle, -, hcancelled, hnone⟩
          exact hnone attempt le_rfl (hwait n hpos hle hcancelled) haccepts
        · rw [or_iff_right haccepts]
          refine not_congr ⟨?_, ?_⟩
          · rintro ⟨n, hpos, hle, hlt, hcancelled, hnone⟩
            refine ⟨n, hpos, by omega, by omega, hcancelled, fun m hm hmn => ?_⟩
            rcases Nat.eq_or_lt_of_le hm with rfl | hm
            · exact haccepts
            · exact hnone m hm hmn
          · rintro ⟨n, hpos, hle, hlt, hcancelled, hnone⟩
            exact ⟨n, hpos, hwait n hpos hle hcancelled, by omega, hcancelled,
              fun m hm hmn => hnone m (by omega) hmn⟩

/-- With a queue that takes the chunk, `sendDelta` gets it accepted or queued exactly if the context does not
end a wait before some POST was accepted. -/
theorem caught_iff (E : Env) (scanner : Scanner) (client : Client) (delta : GraphDelta) (x : Exchange)
    (server : Dedup.State) (queue : List GraphDelta) (henqueued : x.enqueued = true) :
    Caught E scanner client delta x ⟨server, some queue⟩ ↔ ¬ CutOff scanner delta x := by
  have hcaught := attempts_caught_iff E scanner client delta henqueued queue maxRetries 0 server
  simpa [Caught, sendDelta, CutOff] using hcaught

/-- Nothing is reached, and the context is done after the first attempt if `shutdown`. -/
def outage (shutdown : Bool) : Exchange := ⟨fun _ => .lost, fun _ => shutdown, true⟩

def oneDelta : GraphDelta := ⟨"agent", "tenant", "nas", "nas-1", 0, [oneFile], "2024-01-01T00:00:00Z"⟩

/-- A chunk that is sent during an outage is queued. -/
theorem outage_caught : Caught Dedup.plainEnv ⟨"agent", "tenant"⟩ ⟨"tenant", "agent"⟩ oneDelta (outage false)
    ⟨Dedup.emptyState, some []⟩ := by
  refine (caught_iff Dedup.plainEnv _ _ oneDelta (outage false) Dedup.emptyState [] rfl).2 ?_
  rintro ⟨n, -, -, hcancelled, -⟩
  exact Bool.false_ne_true hcancelled

/-- An agent that is shut down during an outage drops the chunk. -/
theorem shutdown_not_caught : ¬ Caught Dedup.plainEnv ⟨"agent", "tenant"⟩ ⟨"tenant", "agent"⟩ oneDelta
    (outage true) ⟨Dedup.emptyState, some []⟩ := by
  rintro (⟨d, hd, -⟩ | ⟨queue, hqueue, hqueued⟩)
  · have hnone : (sendDelta Dedup.plainEnv ⟨"agent", "tenant"⟩ ⟨"tenant", "agent"⟩ oneDelta (outage true)
        ⟨Dedup.emptyState, some []⟩).2.2 = [] := rfl
    rw [hnone] at hd
    exact absurd hd List.not_mem_nil
  · have hsame : (sendDelta Dedup.plainEnv ⟨"agent", "tenant"⟩ ⟨"tenant", "agent"⟩ oneDelta (outage true)
        ⟨Dedup.emptyState, some []⟩).2.1.queue = some [] := rfl
    rw [hsame] at hqueued
    exact absurd (Option.some.inj hqueued) (by simp)

end Dgraphai.AgentSync
