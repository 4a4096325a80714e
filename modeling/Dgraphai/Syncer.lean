import Dgraphai.ProxyReplay
import Mathlib.Algebra.Order.Ring.Nat

/-!
# The sync loop of dgraph-proxy (`dgraph-proxy/internal/sync/syncer.go`)

The `Run` loop and every `ForceSync` request are goroutines inside the same `sync`: drain, post, decode
and acknowledge are separate steps, between which the writers, the network, the cloud and the other
goroutines move. `SyncState.Inv` ties every batch and every answer to the deltas it came from; with it no
delta leaves the queue unless a decoded answer to a batch with it acknowledged it (`sync_keeps`).
-/

namespace Dgraphai.Proxy

/-- The batch of one `sync` call; `id` numbers the calls. -/
structure Batch where
  id : Nat
  deltas : List DeltaRecord
  deriving DecidableEq, Repr

/-- The answer to the batch `id`. -/
structure Answer where
  id : Nat
  ackedSeqs : List Nat
  deriving DecidableEq, Repr

/-- Where a goroutine stands in `sync`. -/
inductive Stage where
  /-- `DrainDeltas` has returned. -/
  | drained
  /-- `postBatch` has sent the request. -/
  | posted
  /-- `postBatch` has returned the decoded response. -/
  | decoded (ackedSeqs : List Nat)
  deriving DecidableEq, Repr

structure Session where
  batch : Batch
  stage : Stage
  deriving DecidableEq, Repr

/-- The proxy, the network and what the cloud has received. `posted` and `decoded` are all requests
sent and all responses decoded so far. -/
structure SyncState where
  store : Store
  sessions : Nat → Option Session
  nextBatch : Nat
  requests : List Batch
  responses : List Answer
  received : List DeltaRecord
  posted : List Batch
  decoded : List Answer

inductive SyncAction where
  /-- A step of a writer of the local API. -/
  | store (a : Action)
  /-- Goroutine `g` enters `sync` and drains. -/
  | drain (g : Nat)
  | post (g : Nat)
  /-- The request with batch `id` reaches the cloud, which acknowledges `acked`. -/
  | deliver (id : Nat) (acked : List Nat)
  /-- The request with batch `id` is lost. -/
  | lose (id : Nat)
  | decode (g : Nat)
  /-- `AckDeltas(resp.AckedSeqs)`, the end of a `sync`. -/
  | ack (g : Nat)
  /-- `sync` returns early: no connection, a lost response, an HTTP error, a body that does not decode,
  or an error of `AckDeltas`. -/
  | abort (g : Nat)
  /-- The process dies and opens the store again. -/
  | restart (lost : Nat)
  deriving Repr

/-- The steps of the writers; `seq` is a `uint64`. -/
def Store.writerStep (s : Store) : Action → Option Store
  | .ackDeltas _ => none
  | .reopen _ => none
  | .next g => if s.nextSeq < 2 ^ 64 then s.step (.next g) else none
  | a => s.step a

namespace SyncState

def start (tenantID : String) : SyncState :=
  ⟨Store.open tenantID, fun _ => none, 0, [], [], [], [], []⟩

/-- `DrainDeltas(batchSize)`. -/
def drainDeltas (s : SyncState) (batchSize : Nat) : List DeltaRecord := s.store.pending.take batchSize

def setSession (s : SyncState) (g : Nat) (x : Option Session) : SyncState :=
  { s with sessions := Function.update s.sessions g x }

def step (batchSize : Nat) (s : SyncState) : SyncAction → Option SyncState
  | .store a => (s.store.writerStep a).map fun store => { s with store := store }
  | .drain g =>
    match s.sessions g with
    | some _ => none
    | none =>
      -- an empty queue only sends a heartbeat
      if s.drainDeltas batchSize = [] then some s
      else some { s.setSession g (some ⟨⟨s.nextBatch, s.drainDeltas batchSize⟩, .drained⟩) with
        nextBatch := s.nextBatch + 1 }
  | .post g =>
    match s.sessions g with
    | some ⟨b, .drained⟩ => some { s.setSession g (some ⟨b, .posted⟩) with
        requests := s.requests ++ [b], posted := s.posted ++ [b] }
    | _ => none
  | .deliver id acked =>
    match s.requests.find? (·.id = id) with
    | some b =>
      if ∀ n ∈ acked, n ∈ b.deltas.map (·.seq) then some { s with
        requests := s.requests.filter (·.id ≠ id)
        responses := s.responses ++ [⟨id, acked⟩]
        received := s.received ++ b.deltas }
      else none
    | none => none
  | .lose id => some { s with requests := s.requests.filter (·.id ≠ id) }
  | .decode g =>
    match s.sessions g with
    | some ⟨b, .posted⟩ =>
      (s.responses.find? (·.id = b.id)).map fun r =>
        { s.setSession g (some ⟨b, .decoded r.ackedSeqs⟩) with decoded := s.decoded ++ [r] }
    | _ => none
  | .ack g =>
    match s.sessions g with
    | some ⟨_, .decoded seqs⟩ => some { s.setSession g none with store := seqs.foldl Store.ackOne s.store }
    | _ => none
  | .abort g => (s.sessions g).map fun _ => s.setSession g none
  | .restart lost =>
    if s.store.nextSeq + lost ≤ 2 ^ 64 then
      (s.store.step (.reopen lost)).map fun store => { s with store := store, sessions := fun _ => none }
    else none

end SyncState

/-! ### The writers -/

namespace Store
variable {s s' : Store}

theorem step_of_writerStep {a : Action} (h : s.writerStep a = some s') :
    s.step a = some s' ∧ (∀ seqs, a ≠ .ackDeltas seqs) ∧ ∀ lost, a ≠ .reopen lost := by
  cases a with
  | ackDeltas seqs => cases h
  | reopen lost => cases h
  | next g =>
    rw [writerStep] at h
    split_ifs at h
    exact ⟨h, by simp, by simp⟩
  | call g c now => exact ⟨h, by simp, by simp⟩
  | commit g => exact ⟨h, by simp, by simp⟩
  | fail g => exact ⟨h, by simp, by simp⟩

/-- Only `AckDeltas` removes deltas from the queue. -/
theorem step_frame {a : Action} (h : s.step a = some s') (ha : ∀ seqs, a ≠ .ackDeltas seqs) :
    s'.acked = s.acked ∧ ∀ d ∈ s.history, d ∈ s'.history := by
  cases a with
  | ackDeltas seqs => exact absurd rfl (ha seqs)
  | reopen lost => cases h; exact ⟨rfl, fun d hd => hd⟩
  | call g c now | next g | fail g =>
    simp only [step] at h
    split at h
    · cases h; exact ⟨rfl, fun d hd => hd⟩
    · cases h
  | commit g =>
    simp only [step] at h
    split at h
    · cases h; exact ⟨rfl, fun d hd => List.mem_append_left _ hd⟩
    · cases h

end Store

/-! ### Nothing is lost -/

namespace SyncState
variable {batchSize : Nat} {s s' : SyncState}

/-- An answer to a posted batch that holds `d` acknowledged `d`. -/
def Acknowledged (s : SyncState) (d : DeltaRecord) : Prop :=
  ∃ b ∈ s.posted, d ∈ b.deltas ∧ ∃ r ∈ s.decoded, r.id = b.id ∧ d.seq ∈ r.ackedSeqs

/-- Every delta ever written is in the queue as it was written, unless it was acknowledged. -/
def Keeps (s : SyncState) : Prop :=
  ∀ d ∈ s.store.history, d ∉ s.store.pending → s.Acknowledged d

/-- What is known of a goroutine inside `sync`. -/
structure SessionInv (s : SyncState) (x : Session) : Prop where
  id_lt : x.batch.id < s.nextBatch
  mem : ∀ d ∈ x.batch.deltas, d ∈ s.store.history
  fresh : x.stage = .drained → ∀ b ∈ s.posted, b.id ≠ x.batch.id
  posted : x.stage ≠ .drained → x.batch ∈ s.posted
  decoded : ∀ seqs, x.stage = .decoded seqs →
    (∃ r ∈ s.decoded, r.id = x.batch.id ∧ r.ackedSeqs = seqs) ∧ ∀ n ∈ seqs, n ∈ x.batch.deltas.map (·.seq)

/-- Batches and answers come from the deltas of the store, and belong together by their numbers. -/
structure Inv (s : SyncState) : Prop where
  store : s.store.Inv
  sessions : ∀ g x, s.sessions g = some x → s.SessionInv x
  inj : ∀ g g' x x', s.sessions g = some x → s.sessions g' = some x' → x.batch.id = x'.batch.id → g = g'
  posted_lt : ∀ b ∈ s.posted, b.id < s.nextBatch
  posted_mem : ∀ b ∈ s.posted, ∀ d ∈ b.deltas, d ∈ s.store.history
  posted_inj : ∀ b ∈ s.posted, ∀ b' ∈ s.posted, b.id = b'.id → b = b'
  requests : ∀ b ∈ s.requests, b ∈ s.posted
  responses : ∀ r ∈ s.responses, ∃ b ∈ s.posted, b.id = r.id ∧ ∀ n ∈ r.ackedSeqs, n ∈ b.deltas.map (·.seq)
  acked : ∀ d ∈ s.store.acked, s.Acknowledged d

theorem Inv.keeps (h : s.Inv) : s.Keeps := by
  intro d hd hnot
  refine h.acked d ?_
  by_contra hack
  exact hnot ((h.store.mem_pending d).2 ⟨hd, hack⟩)

theorem inv_start (tenantID : String) : (start tenantID).Inv where
  store := Store.inv_open tenantID
  sessions := by simp [start]
  inj := by simp [start]
  posted_lt := by simp [start]
  posted_mem := by simp [start]
  posted_inj := by simp [start]
  requests := by simp [start]
  responses := by simp [start]
  acked := by simp [start, Store.open]

/-- The session of `g` after `setSession`, and those of the others. -/
theorem setSession_sessions {s : SyncState} {g g' : Nat} {v : Option Session} {x : Session}
    (h : (s.setSession g v).sessions g' = some x) : g' = g ∧ v = some x ∨ g' ≠ g ∧ s.sessions g' = some x := by
  rcases eq_or_ne g' g with rfl | hne
  · exact .inl ⟨rfl, by simpa [setSession] using h⟩
  · exact .inr ⟨hne, by simpa [setSession, hne] using h⟩

/-- The logs only grow, and no batch posted meanwhile has the number of `x`. -/
theorem SessionInv.mono {x : Session} (h : s.SessionInv x) (hnext : s.nextBatch ≤ s'.nextBatch)
    (hhist : ∀ d ∈ s.store.history, d ∈ s'.store.history) (hposted : ∀ b ∈ s.posted, b ∈ s'.posted)
    (hnew : ∀ b ∈ s'.posted, b ∈ s.posted ∨ b.id ≠ x.batch.id) (hdec : ∀ r ∈ s.decoded, r ∈ s'.decoded) :
    s'.SessionInv x where
  id_lt := Nat.lt_of_lt_of_le h.id_lt hnext
  mem d hd := hhist d (h.mem d hd)
  fresh hx b hb := (hnew b hb).elim (h.fresh hx b) id
  posted hx := hposted _ (h.posted hx)
  decoded seqs hx := by
    obtain ⟨⟨r, hr, hid, hseqs⟩, hmem⟩ := h.decoded seqs hx
    exact ⟨⟨r, hdec r hr, hid, hseqs⟩, hmem⟩

theorem Acknowledged.mono {d : DeltaRecord} (h : s.Acknowledged d) (hposted : ∀ b ∈ s.posted, b ∈ s'.posted)
    (hdec : ∀ r ∈ s.decoded, r ∈ s'.decoded) : s'.Acknowledged d := by
  obtain ⟨b, hb, hd, r, hr, hid, hseq⟩ := h
  exact ⟨b, hposted b hb, hd, r, hdec r hr, hid, hseq⟩

/-- A step of the writers, or a restart of the store. -/
theorem Inv.setStore (h : s.Inv) {a : Action} {store : Store} (hstep : s.store.step a = some store)
    (ha : ∀ seqs, a ≠ .ackDeltas seqs) : ({ s with store := store } : SyncState).Inv := by
  obtain ⟨hack, hhist⟩ := Store.step_frame hstep ha
  exact
    { h with
      store := Store.inv_step h.store hstep
      sessions := fun g x hx => (h.sessions g x hx).mono le_rfl hhist (fun _ hb => hb)
        (fun _ hb => .inl hb) fun _ hr => hr
      posted_mem := fun b hb d hd => hhist d (h.posted_mem b hb d hd)
      acked := fun d hd => (h.acked d (hack ▸ hd)).mono (fun _ hb => hb) fun _ hr => hr }

/-- Goroutine `g` leaves `sync`. -/
theorem Inv.endSession (h : s.Inv) (g : Nat) : (s.setSession g none).Inv :=
  { h with
    sessions := fun g' x hx => by
      rcases setSession_sessions hx with ⟨-, hx⟩ | ⟨-, hx⟩
      · cases hx
      · exact (h.sessions g' x hx).mono le_rfl (fun _ hd => hd) (fun _ hb => hb) (fun _ hb => .inl hb)
          fun _ hr => hr
    inj := fun g₁ g₂ x₁ x₂ h₁ h₂ hid => by
      rcases setSession_sessions h₁ with ⟨-, h₁⟩ | ⟨-, h₁⟩
      · cases h₁
      · rcases setSession_sessions h₂ with ⟨-, h₂⟩ | ⟨-, h₂⟩
        · cases h₂
        · exact h.inj g₁ g₂ x₁ x₂ h₁ h₂ hid
    acked := fun d hd => (h.acked d hd).mono (fun _ hb => hb) fun _ hr => hr }

theorem Inv.drain (h : s.Inv) {g : Nat} (hg : s.sessions g = none) :
    ({ s.setSession g (some ⟨⟨s.nextBatch, s.drainDeltas batchSize⟩, .drained⟩) with
      nextBatch := s.nextBatch + 1 } : SyncState).Inv :=
  { h with
    sessions := fun g' x hx => by
      rcases setSession_sessions hx with ⟨-, hx⟩ | ⟨-, hx⟩
      · obtain rfl := Option.some.inj hx
        exact
          { id_lt := Nat.lt_succ_self _
            mem := fun d hd => ((h.store.mem_pending d).1 (List.mem_of_mem_take hd)).1
            fresh := fun _ b hb => Nat.ne_of_lt (h.posted_lt b hb)
            posted := fun hx => absurd rfl hx
            decoded := fun seqs hx => by cases hx }
      · exact (h.sessions g' x hx).mono (Nat.le_succ _) (fun _ hd => hd) (fun _ hb => hb) (fun _ hb => .inl hb)
          fun _ hr => hr
    inj := fun g₁ g₂ x₁ x₂ h₁ h₂ hid => by
      rcases setSession_sessions h₁ with ⟨rfl, hx₁⟩ | ⟨-, hx₁⟩ <;>
        rcases setSession_sessions h₂ with ⟨rfl, hx₂⟩ | ⟨-, hx₂⟩
      · rfl
      · obtain rfl := Option.some.inj hx₁
        exact absurd hid.symm (Nat.ne_of_lt (h.sessions g₂ x₂ hx₂).id_lt)
      · obtain rfl := Option.some.inj hx₂
        exact absurd hid (Nat.ne_of_lt (h.sessions g₁ x₁ hx₁).id_lt)
      · exact h.inj g₁ g₂ x₁ x₂ hx₁ hx₂ hid
    posted_lt := fun b hb => Nat.lt_succ_of_lt (h.posted_lt b hb)
    acked := fun d hd => (h.acked d hd).mono (fun _ hb => hb) fun _ hr => hr }

/-- Goroutine `g` keeps its batch and goes to another stage. -/
theorem Inv.advance (h : s.Inv) {g : Nat} {b : Batch} {stage : Stage} (hg : s.sessions g = some ⟨b, stage⟩)
    (stage' : Stage) (posted requests : List Batch) (decoded : List Answer) (hposted : ∀ b' ∈ s.posted, b' ∈ posted)
    (hnew : ∀ b' ∈ posted, b' ∈ s.posted ∨ b' = b ∧ stage = .drained) (hdec : ∀ r ∈ s.decoded, r ∈ decoded)
    (hreq : ∀ b' ∈ requests, b' ∈ posted)
    (hx : ({ s with posted := posted, decoded := decoded } : SyncState).SessionInv ⟨b, stage'⟩) :
    ({ s.setSession g (some ⟨b, stage'⟩) with
      posted := posted, requests := requests, decoded := decoded } : SyncState).Inv where
  store := h.store
  sessions := fun g' x hx' => by
    rcases setSession_sessions hx' with ⟨-, hself⟩ | ⟨hne, hother⟩
    · obtain rfl := Option.some.inj hself
      exact hx.mono le_rfl (fun _ hd => hd) (fun _ hb => hb) (fun _ hb => .inl hb) fun _ hr => hr
    · refine (h.sessions g' x hother).mono le_rfl (fun _ hd => hd) hposted (fun b' hb' => ?_) hdec
      rcases hnew b' hb' with hold | ⟨rfl, -⟩
      · exact .inl hold
      · exact .inr fun hid => hne (h.inj g' g x _ hother hg hid.symm)
  inj := fun g₁ g₂ x₁ x₂ h₁ h₂ hid => by
    rcases setSession_sessions h₁ with ⟨rfl, hx₁⟩ | ⟨-, hx₁⟩ <;>
      rcases setSession_sessions h₂ with ⟨rfl, hx₂⟩ | ⟨-, hx₂⟩
    · rfl
    · obtain rfl := Option.some.inj hx₁
      exact h.inj g₁ g₂ _ x₂ hg hx₂ hid
    · obtain rfl := Option.some.inj hx₂
      exact h.inj g₁ g₂ x₁ _ hx₁ hg hid
    · exact h.inj g₁ g₂ x₁ x₂ hx₁ hx₂ hid
  posted_lt := fun b' hb' => by
    rcases hnew b' hb' with hb' | ⟨rfl, -⟩
    · exact h.posted_lt b' hb'
    · exact (h.sessions g _ hg).id_lt
  posted_mem := fun b' hb' => by
    rcases hnew b' hb' with hb' | ⟨rfl, -⟩
    · exact h.posted_mem b' hb'
    · exact (h.sessions g _ hg).mem
  posted_inj := fun b₁ h₁ b₂ h₂ hid => by
    rcases hnew b₁ h₁ with hb₁ | ⟨rfl, hst⟩ <;> rcases hnew b₂ h₂ with hb₂ | ⟨rfl, hst'⟩
    · exact h.posted_inj b₁ hb₁ b₂ hb₂ hid
    · exact absurd hid ((h.sessions g _ hg).fresh hst' b₁ hb₁)
    · exact absurd hid.symm ((h.sessions g _ hg).fresh hst b₂ hb₂)
    · rfl
  requests := hreq
  responses := fun r hr => by
    obtain ⟨b', hb', hid, hseqs⟩ := h.responses r hr
    exact ⟨b', hposted b' hb', hid, hseqs⟩
  acked := fun d hd => (h.acked d hd).mono hposted hdec

theorem Inv.post (h : s.Inv) {g : Nat} {b : Batch} (hg : s.sessions g = some ⟨b, .drained⟩) :
    ({ s.setSession g (some ⟨b, .posted⟩) with
      requests := s.requests ++ [b], posted := s.posted ++ [b] } : SyncState).Inv := by
  have hx := h.sessions g _ hg
  refine h.advance hg .posted (s.posted ++ [b]) (s.requests ++ [b]) s.decoded
    (fun b' hb' => List.mem_append_left _ hb') (fun b' hb' => ?_) (fun _ hr => hr) (fun b' hb' => ?_) ?_
  · rcases List.mem_append.1 hb' with hb' | hb'
    · exact .inl hb'
    · exact .inr ⟨List.mem_singleton.1 hb', rfl⟩
  · rcases List.mem_append.1 hb' with hb' | hb'
    · exact List.mem_append_left _ (h.requests b' hb')
    · exact List.mem_append_right _ hb'
  · exact
      { id_lt := hx.id_lt
        mem := hx.mem
        fresh := fun hst => by cases hst
        posted := fun _ => List.mem_append_right _ (List.mem_singleton.2 rfl)
        decoded := fun seqs hst => by cases hst }

theorem Inv.decode (h : s.Inv) {g : Nat} {b : Batch} {r : Answer} (hg : s.sessions g = some ⟨b, .posted⟩)
    (hr : r ∈ s.responses) (hid : r.id = b.id) :
    ({ s.setSession g (some ⟨b, .decoded r.ackedSeqs⟩) with decoded := s.decoded ++ [r] } : SyncState).Inv := by
  have hx := h.sessions g _ hg
  have hb : b ∈ s.posted := hx.posted (by simp)
  refine h.advance hg (.decoded r.ackedSeqs) s.posted s.requests (s.decoded ++ [r]) (fun _ hb' => hb')
    (fun _ hb' => .inl hb') (fun _ hr' => List.mem_append_left _ hr') h.requests ?_
  obtain ⟨b', hb', hid', hseqs⟩ := h.responses r hr
  obtain rfl : b' = b := h.posted_inj b' hb' b hb (hid'.trans hid)
  exact
    { id_lt := hx.id_lt
      mem := hx.mem
      fresh := fun hst => by cases hst
      posted := fun _ => hb
      decoded := fun seqs hst => by
        cases hst
        exact ⟨⟨r, by simp, hid, rfl⟩, hseqs⟩ }

theorem Inv.deliver (h : s.Inv) {b : Batch} {acked : List Nat} (hb : b ∈ s.requests)
    (hacked : ∀ n ∈ acked, n ∈ b.deltas.map (·.seq)) :
    ({ s with
      requests := s.requests.filter (·.id ≠ b.id)
      responses := s.responses ++ [⟨b.id, acked⟩]
      received := s.received ++ b.deltas } : SyncState).Inv :=
  { h with
    sessions := fun g x hx => (h.sessions g x hx).mono le_rfl (fun _ hd => hd) (fun _ hb' => hb')
      (fun _ hb' => .inl hb') fun _ hr => hr
    requests := fun b' hb' => h.requests b' (List.mem_of_mem_filter hb')
    responses := fun r hr => by
      rcases List.mem_append.1 hr with hr | hr
      · exact h.responses r hr
      · obtain rfl := List.mem_singleton.1 hr
        exact ⟨b, h.requests b hb, rfl, hacked⟩
    acked := fun d hd => (h.acked d hd).mono (fun _ hb' => hb') fun _ hr => hr }

theorem Inv.lose (h : s.Inv) (id : Nat) :
    ({ s with requests := s.requests.filter (·.id ≠ id) } : SyncState).Inv :=
  { h with
    sessions := fun g x hx => (h.sessions g x hx).mono le_rfl (fun _ hd => hd) (fun _ hb => hb)
      (fun _ hb => .inl hb) fun _ hr => hr
    requests := fun b hb => h.requests b (List.mem_of_mem_filter hb)
    acked := fun d hd => (h.acked d hd).mono (fun _ hb => hb) fun _ hr => hr }

/-- The deltas `AckDeltas` removes are those of the batch that the answer acknowledged. -/
theorem Inv.ack (h : s.Inv) {g : Nat} {b : Batch} {seqs : List Nat}
    (hg : s.sessions g = some ⟨b, .decoded seqs⟩) :
    ({ s with store := seqs.foldl Store.ackOne s.store } : SyncState).Inv := by
  have hx := h.sessions g _ hg
  obtain ⟨⟨r, hr, hid, rfl⟩, hseqs⟩ := hx.decoded seqs rfl
  have hhist := (Store.ackDeltas_frame s.store r.ackedSeqs).1
  refine
    { h with
      store := h.store.ackDeltas _
      sessions := fun g' x hx' => (h.sessions g' x hx').mono le_rfl (fun d hd => by rwa [hhist])
        (fun _ hb => hb) (fun _ hb => .inl hb) fun _ hr => hr
      posted_mem := fun b' hb' d hd => by
        rw [hhist]
        exact h.posted_mem b' hb' d hd
      acked := fun d hd => ?_ }
  rcases (h.store.mem_acked_ackDeltas _ d).1 hd with hd | ⟨hd, hseq⟩
  · exact (h.acked d hd).mono (fun _ hb => hb) fun _ hr => hr
  · obtain ⟨d', hd', hseq'⟩ := List.mem_map.1 (hseqs _ hseq)
    obtain rfl : d' = d := List.inj_on_of_nodup_map h.store.seq_nodup (hx.mem d' hd') hd hseq'
    exact ⟨b, hx.posted (by simp), hd', r, hr, hid, hseq⟩

theorem inv_step (h : s.Inv) {a : SyncAction} (hstep : s.step batchSize a = some s') : s'.Inv := by
  cases a with
  | store a =>
    obtain ⟨store, hstore, rfl⟩ := Option.map_eq_some_iff.1 hstep
    obtain ⟨hstore, ha, -⟩ := Store.step_of_writerStep hstore
    exact h.setStore hstore ha
  | drain g =>
    simp only [step] at hstep
    split at hstep
    · cases hstep
    next hg =>
      split_ifs at hstep
      · cases hstep; exact h
      · cases hstep; exact h.drain hg
  | post g =>
    simp only [step] at hstep
    split at hstep
    next b hg => cases hstep; exact h.post hg
    next => cases hstep
  | deliver id acked =>
    simp only [step] at hstep
    split at hstep
    next b hb =>
      split_ifs at hstep with hacked
      cases hstep
      obtain rfl : b.id = id := by simpa using List.find?_some hb
      exact h.deliver (List.mem_of_find?_eq_some hb) hacked
    next => cases hstep
  | lose id => cases hstep; exact h.lose id
  | decode g =>
    simp only [step] at hstep
    split at hstep
    next b hg =>
      obtain ⟨r, hr, rfl⟩ := Option.map_eq_some_iff.1 hstep
      exact h.decode hg (List.mem_of_find?_eq_some hr) (by simpa using List.find?_some hr)
    next => cases hstep
  | ack g =>
    simp only [step] at hstep
    split at hstep
    next b seqs hg => cases hstep; exact (h.ack hg).endSession g
    next => cases hstep
  | abort g =>
    obtain ⟨x, -, rfl⟩ := Option.map_eq_some_iff.1 hstep
    exact h.endSession g
  | restart lost =>
    simp only [step] at hstep
    split_ifs at hstep
    obtain ⟨store, hstore, rfl⟩ := Option.map_eq_some_iff.1 hstep
    have hinv := h.setStore hstore (by simp)
    exact
      { hinv with
        sessions := by simp
        inj := by simp
        acked := fun d hd => (hinv.acked d hd).mono (fun _ hb => hb) fun _ hr => hr }

/-- In every run of the writers, the sync goroutines, the network and the cloud, from an empty store, a
delta is in the queue as it was written until an answer to a batch with it acknowledged it. -/
theorem sync_keeps (batchSize : Nat) (tenantID : String) (as : List SyncAction) :
    Runs.Always (step batchSize) Keeps (start tenantID) as := by
  intro bs t _ ht
  have hinv : t.Inv := Runs.inv_run (fun _ _ _ hi hs => inv_step hi hs) ht (inv_start tenantID)
  exact hinv.keeps

end SyncState

end Dgraphai.Proxy
