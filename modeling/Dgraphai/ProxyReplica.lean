import Dgraphai.ProxyCalls
import Dgraphai.SyncOverlap

/-!
# The cloud as a replica of the store

An answer can be lost after its batch has arrived, so the cloud receives deltas more than once. Where the
goroutines in `sync` take turns, each node and edge is committed in the order of its numbers, and an answer
acknowledges no delta before an older one of its node or edge, what the cloud has received followed by what is queued
replays to the tables of the store in every state (`replicated`), and undisturbed rounds of `sync` leave nothing
queued (`replicated_after_rounds`).
-/

namespace Dgraphai.Proxy

open Replay

/-- Two deltas of one node or edge. -/
def DeltaRecord.SameKey (d d' : DeltaRecord) : Prop := d'.change.key = d.change.key

instance (d d' : DeltaRecord) : Decidable (d.SameKey d') := inferInstanceAs (Decidable (_ = _))

/-- A commit with a number above those of its node or edge; every other action may be taken. -/
def Store.Ordered (s : Store) : Action → Prop
  | .commit g => ∀ t seq, s.txns g = some t → t.seq = some seq →
      ∀ d ∈ s.history, (t.delta s.tenantID seq).SameKey d → d.seq < seq
  | _ => True

theorem Store.Ordered.not_overtaken {s : Store} {g : Nat} {t : Txn} {n : Nat} (h : s.Ordered (.commit g))
    (hg : s.txns g = some t) (hn : t.seq = some n) : ¬ s.Overtaken (t.delta s.tenantID n) := by
  rintro ⟨m, hm, -, hkey, hlt, -⟩
  exact absurd (h t n hg hn m hm hkey) (Nat.not_lt.2 (Nat.le_of_lt hlt))

/-- An acknowledged delta of the batch comes with the older ones of its node or edge. -/
def Batch.Closed (b : Batch) (seqs : List Nat) : Prop :=
  ∀ d ∈ b.deltas, d.seq ∈ seqs → ∀ d' ∈ b.deltas, d.SameKey d' → d'.seq ≤ d.seq → d'.seq ∈ seqs

/-- The batch is still in the queue, in order and with everything older of its nodes and edges. -/
structure Batch.Waits (b : Batch) (queue : List DeltaRecord) : Prop where
  queued : ∀ d ∈ b.deltas, d ∈ queue
  sorted : b.deltas.Pairwise fun d d' => d.seq < d'.seq
  oldest : ∀ d ∈ b.deltas, ∀ d' ∈ queue, d.SameKey d' → d'.seq ≤ d.seq → d' ∈ b.deltas

/-- Nothing older of its node or edge has arrived after the delta. -/
abbrev DeltaRecord.SettledIn (d : DeltaRecord) (received : List DeltaRecord) : Prop :=
  Settled (·.seq) (·.change) received d

/-- The batch has arrived, and was acknowledged as `seqs`. -/
structure Batch.Answered (b : Batch) (received : List DeltaRecord) (seqs : List Nat) : Prop where
  settled : ∀ d ∈ b.deltas, d.SettledIn received
  closed : b.Closed seqs

namespace SyncState
variable {batchSize : Nat} {s s' : SyncState} {b : Batch} {seqs : List Nat} {g : Nat}

/-- Nobody is in `sync` and no request is on its way. -/
def AtRest (s : SyncState) : Prop := (∀ g, s.sessions g = none) ∧ s.requests = []

/-- The goroutines take turns, commits are ordered and answers closed. -/
def TakesTurns (s : SyncState) : SyncAction → Prop
  | .store a => s.store.Ordered a
  | .drain _ => s.AtRest
  | .deliver id acked => ∀ b ∈ s.requests, b.id = id → b.Closed acked
  | _ => True

/-- What the cloud has received, then what is queued, replayed over an empty graph. -/
def replica (s : SyncState) : Table GraphKey Json :=
  replay (fun _ => none) ((s.received ++ s.store.pending).map (·.change))


/-- What the runs of goroutines that take turns keep. -/
structure Mirrors (s : SyncState) : Prop where
  inv : s.Inv
  bound : s.store.nextSeq ≤ 2 ^ 64
  agrees : s.store.Agrees
  received : ∀ d ∈ s.received, d ∈ s.store.history
  newer : ∀ d ∈ s.store.acked, ∀ d' ∈ s.store.pending, d.SameKey d' → d.seq < d'.seq
  settled : ∀ d ∈ s.store.acked, d.SettledIn s.received
  waits : ∀ b, s.InFlight b → b.Waits s.store.pending
  single : ∀ b b', s.InFlight b → s.InFlight b' → b = b'
  fresh : ∀ r ∈ s.responses, ∀ b ∈ s.requests, b.id ≠ r.id
  decoded : ∀ r ∈ s.decoded, r ∈ s.responses
  posted : ∀ g b, s.sessions g = some ⟨b, .posted⟩ → ∀ r ∈ s.responses, r.id = b.id → b.Answered s.received r.ackedSeqs
  answered : ∀ g b seqs, s.sessions g = some ⟨b, .decoded seqs⟩ → b.Answered s.received seqs

/-! ### The replica of a good state -/

theorem Mirrors.sorted (h : s.Mirrors) : s.store.pending.Pairwise fun d d' => d.seq < d'.seq :=
  h.inv.store.pending_sorted h.bound

theorem Mirrors.replica_eq (h : s.Mirrors) : s.replica = s.store.graph := by
  have hpending : s.store.pending.Pairwise fun d d' => d.seq ≤ d'.seq := h.sorted.imp Nat.le_of_lt
  rw [replica, replay_of_settled _ h.inv.store.seq_nodup, ← h.inv.store.deltas_eq]
  · exact h.agrees
  · intro d hd
    rcases List.mem_append.1 hd with hd | hd
    · exact h.received d hd
    · exact ((h.inv.store.mem_pending d).1 hd).1
  · intro m hm
    by_cases hack : m ∈ s.store.acked
    · exact (h.settled m hack).append fun d hd hkey => Nat.le_of_lt (h.newer m hack d hd hkey)
    · exact settled_append_of_pairwise hpending ((h.inv.store.mem_pending m).2 ⟨hm.1, hack⟩)

theorem mirrors_start (tenantID : String) : (start tenantID).Mirrors where
  inv := inv_start tenantID
  bound := Nat.zero_le _
  agrees := (Store.quiet_open tenantID).agrees
  received := by simp [start]
  newer := by simp [start, Store.open]
  settled := by simp [start, Store.open]
  waits b hb := by rcases hb with hb | ⟨g, x, hx, -⟩ <;> simp [start] at *
  single b b' hb := by rcases hb with hb | ⟨g, x, hx, -⟩ <;> simp [start] at *
  fresh := by simp [start]
  decoded := by simp [start]
  posted := by simp [start]
  answered := by simp [start]

/-! ### Steps -/

/-- A writer's step keeps the log in order. -/
theorem Mirrors.setStore (h : s.Mirrors) {a : Action} {store : Store} (hok : s.store.Ordered a)
    (hstep : s.store.step a = some store) (ha : ∀ seqs, a ≠ .ackDeltas seqs) (hbound : store.nextSeq ≤ 2 ^ 64) :
    ({ s with store := store } : SyncState).Mirrors := by
  have hinv := h.inv.setStore hstep ha
  obtain ⟨hack, hhist⟩ := Store.step_frame hstep ha
  -- what is new in the queue has the highest number of its node or edge
  have hnew : ∀ d' ∈ store.pending, d' ∈ s.store.pending ∨ ∀ d ∈ s.store.history, d.SameKey d' → d.seq < d'.seq := by
    intro d' hd'
    obtain ⟨hd', hnot⟩ := (hinv.store.mem_pending d').1 hd'
    rw [hack] at hnot
    rcases Store.step_cases hstep with ⟨g, t, n, rfl, hg, hn, rfl⟩ | ⟨-, heq, -⟩
    · rcases List.mem_append.1 hd' with hd' | hd'
      · exact .inl ((h.inv.store.mem_pending d').2 ⟨hd', hnot⟩)
      · rw [List.mem_singleton.1 hd']
        exact .inr fun d hd hkey => hok t n hg hn d hd hkey.symm
    · rw [heq] at hd'
      exact .inl ((h.inv.store.mem_pending d').2 ⟨hd', hnot⟩)
  have hqueue : ∀ d ∈ s.store.pending, d ∈ store.pending := by
    intro d hd
    obtain ⟨hd, hnot⟩ := (h.inv.store.mem_pending d).1 hd
    exact (hinv.store.mem_pending d).2 ⟨hhist d hd, by rwa [hack]⟩
  refine
    { h with
      inv := hinv
      bound := hbound
      agrees := ?_
      received := fun d hd => hhist d (h.received d hd)
      newer := fun d hd d' hd' hkey => ?_
      settled := fun d hd => h.settled d (hack ▸ hd)
      waits := fun b hb => ?_ }
  · refine (Store.agrees_step_iff h.inv.store h.agrees hstep).2 ?_
    cases a with
    | commit g => exact fun t n hg hn => Store.Ordered.not_overtaken hok hg hn
    | _ => trivial
  · rw [show ({ s with store := store } : SyncState).store = store from rfl, hack] at hd
    rcases hnew d' hd' with hd' | hd'
    · exact h.newer d hd d' hd' hkey
    · exact hd' d (h.inv.store.acked_mem d hd) hkey
  · obtain ⟨hqueued, hsorted, holdest⟩ := h.waits b hb
    refine ⟨fun d hd => hqueue d (hqueued d hd), hsorted, fun d hd d' hd' hkey hle => ?_⟩
    rcases hnew d' hd' with hd' | hd'
    · exact holdest d hd d' hd' hkey hle
    · have hlt := hd' d ((h.inv.store.mem_pending d).1 (hqueued d hd)).1 hkey
      omega

/-- Fewer batches in flight. -/
theorem Mirrors.mono (h : s.Mirrors) (hinv : s'.Inv) (hstore : s'.store = s.store) (hreceived : s'.received = s.received)
    (hresponses : s'.responses = s.responses) (hdecoded : s'.decoded = s.decoded)
    (hrequests : ∀ b ∈ s'.requests, b ∈ s.requests)
    (hsessions : ∀ g x, s'.sessions g = some x → s.sessions g = some x) : s'.Mirrors := by
  have hflight : ∀ b, s'.InFlight b → s.InFlight b := by
    rintro b (hb | ⟨g, x, hx, hb⟩)
    · exact .inl (hrequests b hb)
    · exact .inr ⟨g, x, hsessions g x hx, hb⟩
  exact
    { inv := hinv
      bound := by rw [hstore]; exact h.bound
      agrees := by rw [hstore]; exact h.agrees
      received := by rw [hreceived, hstore]; exact h.received
      newer := by rw [hstore]; exact h.newer
      settled := by rw [hstore, hreceived]; exact h.settled
      waits := fun b hb => by rw [hstore]; exact h.waits b (hflight b hb)
      single := fun b b' hb hb' => h.single b b' (hflight b hb) (hflight b' hb')
      fresh := fun r hr b hb => h.fresh r (hresponses ▸ hr) b (hrequests b hb)
      decoded := by rw [hdecoded, hresponses]; exact h.decoded
      posted := fun g b hg r hr hid => by
        rw [hreceived]
        exact h.posted g b (hsessions g _ hg) r (hresponses ▸ hr) hid
      answered := fun g b seqs hg => by
        rw [hreceived]
        exact h.answered g b seqs (hsessions g _ hg) }

/-- In an ordered queue a prefix has everything older. -/
theorem mem_take_of_le {l : List DeltaRecord} (h : l.Pairwise fun d d' => d.seq < d'.seq) {n : Nat}
    {d d' : DeltaRecord} (hd : d ∈ l.take n) (hd' : d' ∈ l) (hle : d'.seq ≤ d.seq) : d' ∈ l.take n := by
  rw [← List.take_append_drop n l] at h hd'
  rcases List.mem_append.1 hd' with hd' | hd'
  · exact hd'
  · have hlt := (List.pairwise_append.1 h).2.2 d hd d' hd'
    omega

theorem Mirrors.drain (h : s.Mirrors) (hrest : s.AtRest) :
    ({ s.setSession g (some ⟨⟨s.nextBatch, s.drainDeltas batchSize⟩, .drained⟩) with
      nextBatch := s.nextBatch + 1 } : SyncState).Mirrors := by
  obtain ⟨hsessions, hrequests⟩ := hrest
  set new : Batch := ⟨s.nextBatch, s.drainDeltas batchSize⟩ with hnew
  have hflight : ∀ b, ({ s.setSession g (some ⟨new, .drained⟩) with nextBatch := s.nextBatch + 1 } :
      SyncState).InFlight b → b = new := by
    rintro b (hb | ⟨g', x, hx, rfl⟩)
    · have hb : b ∈ s.requests := hb
      rw [hrequests] at hb
      cases hb
    · rcases setSession_sessions hx with ⟨-, hx⟩ | ⟨-, hx⟩
      · exact congrArg Session.batch (Option.some.inj hx).symm
      · rw [hsessions g'] at hx
        cases hx
  have hstage : ∀ g' b stage, (s.setSession g (some ⟨new, .drained⟩)).sessions g' = some ⟨b, stage⟩ →
      stage = .drained := by
    intro g' b stage hx
    rcases setSession_sessions hx with ⟨-, hx⟩ | ⟨-, hx⟩
    · cases hx
      rfl
    · rw [hsessions g'] at hx
      cases hx
  exact
    { h with
      inv := h.inv.drain (hsessions g)
      waits := fun b hb => by
        rw [hflight b hb]
        refine ⟨fun d hd => List.mem_of_mem_take hd, h.sorted.sublist (List.take_sublist _ _), ?_⟩
        exact fun d hd d' hd' _ hle => mem_take_of_le h.sorted hd hd' hle
      single := fun b b' hb hb' => (hflight b hb).trans (hflight b' hb').symm
      posted := fun g' b hg' => by cases hstage g' b _ hg'
      answered := fun g' b seqs hg' => by cases hstage g' b _ hg' }

theorem Mirrors.post (h : s.Mirrors) (hg : s.sessions g = some ⟨b, .drained⟩) :
    ({ s.setSession g (some ⟨b, .posted⟩) with
      requests := s.requests ++ [b], posted := s.posted ++ [b] } : SyncState).Mirrors := by
  have hx := h.inv.sessions g _ hg
  have hb : s.InFlight b := .inr ⟨g, _, hg, rfl⟩
  have hflight : ∀ b', ({ s.setSession g (some ⟨b, .posted⟩) with
      requests := s.requests ++ [b], posted := s.posted ++ [b] } : SyncState).InFlight b' → s.InFlight b' := by
    rintro b' (hb' | ⟨g', x, hx', rfl⟩)
    · rcases List.mem_append.1 hb' with hb' | hb'
      · exact .inl hb'
      · rw [List.mem_singleton.1 hb']
        exact hb
    · rcases setSession_sessions hx' with ⟨-, hx'⟩ | ⟨-, hx'⟩
      · rw [← Option.some.inj hx']
        exact hb
      · exact .inr ⟨g', x, hx', rfl⟩
  -- there is no answer yet to a batch that was not posted
  have hnone : ∀ r ∈ s.responses, r.id ≠ b.id := by
    intro r hr hid
    obtain ⟨b', hb', hid', -⟩ := h.inv.responses r hr
    exact hx.fresh rfl b' hb' (hid'.trans hid)
  exact
    { h with
      inv := h.inv.post hg
      waits := fun b' hb' => h.waits b' (hflight b' hb')
      single := fun b₁ b₂ h₁ h₂ => h.single b₁ b₂ (hflight b₁ h₁) (hflight b₂ h₂)
      fresh := fun r hr b' hb' => by
        rcases List.mem_append.1 hb' with hb' | hb'
        · exact h.fresh r hr b' hb'
        · rw [List.mem_singleton.1 hb']
          exact (hnone r hr).symm
      posted := fun g' b' hg' r hr hid => by
        rcases setSession_sessions hg' with ⟨-, hself⟩ | ⟨-, hother⟩
        · cases hself
          exact absurd hid (hnone r hr)
        · exact h.posted g' b' hother r hr hid
      answered := fun g' b' seqs hg' => by
        rcases setSession_sessions hg' with ⟨-, hself⟩ | ⟨-, hother⟩
        · cases hself
        · exact h.answered g' b' seqs hother }

theorem Mirrors.deliver (h : s.Mirrors) {acked : List Nat} (hb : b ∈ s.requests)
    (hacked : ∀ n ∈ acked, n ∈ b.deltas.map (·.seq)) (hclosed : b.Closed acked) :
    ({ s with
      requests := s.requests.filter (·.id ≠ b.id)
      responses := s.responses ++ [⟨b.id, acked⟩]
      received := s.received ++ b.deltas } : SyncState).Mirrors := by
  obtain ⟨hqueued, hsorted, -⟩ := h.waits b (.inl hb)
  have hle : b.deltas.Pairwise fun d d' => d.seq ≤ d'.seq := hsorted.imp Nat.le_of_lt
  have hflight : ∀ c, ({ s with
      requests := s.requests.filter (·.id ≠ b.id)
      responses := s.responses ++ [⟨b.id, acked⟩]
      received := s.received ++ b.deltas } : SyncState).InFlight c → s.InFlight c := by
    rintro c (hc | hc)
    · exact .inl (List.mem_of_mem_filter hc)
    · exact .inr hc
  -- a batch in flight is the one that arrives
  have hsame : ∀ g' b' stage, s.sessions g' = some ⟨b', stage⟩ → b' = b := fun g' b' stage hg' =>
    h.single b' b (.inr ⟨g', _, hg', rfl⟩) (.inl hb)
  have harrived : ∀ seqs, b.Closed seqs → b.Answered (s.received ++ b.deltas) seqs :=
    fun seqs hseqs => ⟨fun d hd => settled_append_of_pairwise hle hd, hseqs⟩
  exact
    { h with
      inv := h.inv.deliver hb hacked
      received := fun d hd => by
        rcases List.mem_append.1 hd with hd | hd
        · exact h.received d hd
        · exact ((h.inv.store.mem_pending d).1 (hqueued d hd)).1
      settled := fun d hd => (h.settled d hd).append fun d' hd' hkey =>
        Nat.le_of_lt (h.newer d hd d' (hqueued d' hd') hkey)
      waits := fun c hc => h.waits c (hflight c hc)
      single := fun c c' hc hc' => h.single c c' (hflight c hc) (hflight c' hc')
      fresh := fun r hr c hc => by
        obtain ⟨hc, hid⟩ := List.mem_filter.1 hc
        rcases List.mem_append.1 hr with hr | hr
        · exact h.fresh r hr c hc
        · rw [List.mem_singleton.1 hr]
          simpa using hid
      decoded := fun r hr => List.mem_append_left _ (h.decoded r hr)
      posted := fun g' b' hg' r hr hid => by
        obtain rfl := hsame g' b' _ hg'
        rcases List.mem_append.1 hr with hr | hr
        · exact harrived _ (h.posted g' b' hg' r hr hid).closed
        · rw [List.mem_singleton.1 hr]
          exact harrived _ hclosed
      answered := fun g' b' seqs hg' => by
        obtain rfl := hsame g' b' _ hg'
        exact harrived _ (h.answered g' b' seqs hg').closed }

theorem Mirrors.decode (h : s.Mirrors) {r : Answer} (hg : s.sessions g = some ⟨b, .posted⟩) (hr : r ∈ s.responses)
    (hid : r.id = b.id) :
    ({ s.setSession g (some ⟨b, .decoded r.ackedSeqs⟩) with decoded := s.decoded ++ [r] } : SyncState).Mirrors := by
  have hflight : ∀ b', ({ s.setSession g (some ⟨b, .decoded r.ackedSeqs⟩) with decoded := s.decoded ++ [r] } :
      SyncState).InFlight b' → s.InFlight b' := by
    rintro b' (hb' | hb')
    · exact .inl hb'
    · exact inFlight_of_setSession (v := some ⟨b, .decoded r.ackedSeqs⟩) (fun x hx => by cases hx; exact ⟨_, hg⟩)
        (.inr hb')
  exact
    { h with
      inv := h.inv.decode hg hr hid
      waits := fun b' hb' => h.waits b' (hflight b' hb')
      single := fun b₁ b₂ h₁ h₂ => h.single b₁ b₂ (hflight b₁ h₁) (hflight b₂ h₂)
      decoded := fun r' hr' => by
        rcases List.mem_append.1 hr' with hr' | hr'
        · exact h.decoded r' hr'
        · rw [List.mem_singleton.1 hr']
          exact hr
      posted := fun g' b' hg' r' hr' hid' => by
        rcases setSession_sessions hg' with ⟨-, hself⟩ | ⟨-, hother⟩
        · cases hself
        · exact h.posted g' b' hother r' hr' hid'
      answered := fun g' b' seqs hg' => by
        rcases setSession_sessions hg' with ⟨-, hself⟩ | ⟨-, hother⟩
        · cases hself
          exact h.posted g b hg r hr hid
        · exact h.answered g' b' seqs hother }

/-- The deltas that leave the queue have settled. -/
theorem Mirrors.ack (h : s.Mirrors) (hg : s.sessions g = some ⟨b, .decoded seqs⟩) :
    ({ s.setSession g none with store := seqs.foldl Store.ackOne s.store } : SyncState).Mirrors := by
  have hx := h.inv.sessions g _ hg
  obtain ⟨⟨r, hr, hid, rfl⟩, hseqs⟩ := hx.decoded seqs rfl
  obtain ⟨hsettled, hclosed⟩ := h.answered g b r.ackedSeqs hg
  obtain ⟨-, -, holdest⟩ := h.waits b (.inr ⟨g, _, hg, rfl⟩)
  have hinv := (h.inv.ack hg).endSession g
  obtain ⟨hhist, hgraph⟩ := Store.ackDeltas_frame s.store r.ackedSeqs
  have hacked : ∀ d, d ∈ (r.ackedSeqs.foldl Store.ackOne s.store).acked ↔
      d ∈ s.store.acked ∨ d ∈ s.store.history ∧ d.seq ∈ r.ackedSeqs := h.inv.store.mem_acked_ackDeltas r.ackedSeqs
  -- what is acknowledged now is of the batch
  have hbatch : ∀ d ∈ s.store.history, d.seq ∈ r.ackedSeqs → d ∈ b.deltas := by
    intro d hd hseq
    obtain ⟨d', hd', hseq'⟩ := List.mem_map.1 (hseqs _ hseq)
    obtain rfl : d' = d := List.inj_on_of_nodup_map h.inv.store.seq_nodup (hx.mem d' hd') hd hseq'
    exact hd'
  have hpending : ∀ d, d ∈ (r.ackedSeqs.foldl Store.ackOne s.store).pending →
      d ∈ s.store.pending ∧ d.seq ∉ r.ackedSeqs := by
    intro d hd
    obtain ⟨hd, hnot⟩ := (hinv.store.mem_pending d).1 hd
    have hd : d ∈ s.store.history := hhist ▸ hd
    have hnot : ¬ (d ∈ s.store.acked ∨ d ∈ s.store.history ∧ d.seq ∈ r.ackedSeqs) := fun hc => hnot ((hacked d).2 hc)
    exact ⟨(h.inv.store.mem_pending d).2 ⟨hd, fun hc => hnot (.inl hc)⟩, fun hc => hnot (.inr ⟨hd, hc⟩)⟩
  have hnone : ∀ b', ¬ ({ s.setSession g none with store := r.ackedSeqs.foldl Store.ackOne s.store } :
      SyncState).InFlight b' := by
    rintro b' (hb' | ⟨g', x, hx', rfl⟩)
    · obtain rfl := h.single b b' (.inr ⟨g, _, hg, rfl⟩) (.inl hb')
      exact h.fresh r (h.decoded r hr) b hb' hid.symm
    · rcases setSession_sessions hx' with ⟨-, hx'⟩ | ⟨hne, hx'⟩
      · cases hx'
      · exact hne (h.inv.inj g' g _ _ hx' hg (congrArg Batch.id
          (h.single x.batch b (.inr ⟨g', x, hx', rfl⟩) (.inr ⟨g, _, hg, rfl⟩))))
  refine
    { h with
      inv := hinv
      bound := (Store.nextSeq_ackDeltas s.store r.ackedSeqs).symm ▸ h.bound
      agrees := ?_
      received := fun d hd => ?_
      newer := fun d hd d' hd' hkey => ?_
      settled := fun d hd => ?_
      waits := fun b' hb' => absurd hb' (hnone b')
      single := fun b' _ hb' => absurd hb' (hnone b')
      posted := fun g' b' hg' => absurd (.inr ⟨g', _, hg', rfl⟩) (hnone b')
      answered := fun g' b' seqs' hg' => absurd (.inr ⟨g', _, hg', rfl⟩) (hnone b') }
  · exact (Store.agrees_step_iff (a := .ackDeltas r.ackedSeqs) h.inv.store h.agrees rfl).2 trivial
  · show d ∈ (r.ackedSeqs.foldl Store.ackOne s.store).history
    rw [hhist]
    exact h.received d hd
  · obtain ⟨hd', hnot⟩ := hpending d' hd'
    rcases (hacked d).1 hd with hd | ⟨hd, hseq⟩
    · exact h.newer d hd d' hd' hkey
    · by_contra hle
      have hle : d'.seq ≤ d.seq := by omega
      have hmem := holdest d (hbatch d hd hseq) d' hd' hkey hle
      exact hnot (hclosed d (hbatch d hd hseq) hseq d' hmem hkey hle)
  · rcases (hacked d).1 hd with hd | ⟨hd, hseq⟩
    · exact h.settled d hd
    · exact hsettled d (hbatch d hd hseq)

theorem mirrors_step (h : s.Mirrors) {a : SyncAction} (hok : s.TakesTurns a)
    (hstep : s.step batchSize a = some s') : s'.Mirrors := by
  have hinv := inv_step h.inv hstep
  cases a with
  | store a =>
    obtain ⟨store, hstore, rfl⟩ := Option.map_eq_some_iff.1 hstep
    obtain ⟨hstep, ha, -⟩ := Store.step_of_writerStep hstore
    exact h.setStore hok hstep ha (Store.nextSeq_writerStep hstore h.bound)
  | drain g =>
    simp only [step] at hstep
    split at hstep
    · cases hstep
    · split_ifs at hstep
      · cases hstep; exact h
      · cases hstep; exact h.drain hok
  | post g =>
    simp only [step] at hstep
    split at hstep
    next b hg => cases hstep; exact h.post hg
    next => cases hstep
  | deliver id acked =>
    simp only [step] at hstep
    split at hstep
    next b hb =>
      split_ifs at hstep with hacked
      cases hstep
      obtain rfl : b.id = id := by simpa using List.find?_some hb
      have hb := List.mem_of_find?_eq_some hb
      exact h.deliver hb hacked (hok b hb rfl)
    next => cases hstep
  | lose id =>
    cases hstep
    exact h.mono hinv rfl rfl rfl rfl (fun b hb => List.mem_of_mem_filter hb) fun _ _ hx => hx
  | decode g =>
    simp only [step] at hstep
    split at hstep
    next b hg =>
      obtain ⟨r, hr, rfl⟩ := Option.map_eq_some_iff.1 hstep
      exact h.decode hg (List.mem_of_find?_eq_some hr) (by simpa using List.find?_some hr)
    next => cases hstep
  | ack g =>
    simp only [step] at hstep
    split at hstep
    next b seqs hg => cases hstep; exact h.ack hg
    next => cases hstep
  | abort g =>
    obtain ⟨x, -, rfl⟩ := Option.map_eq_some_iff.1 hstep
    refine h.mono hinv rfl rfl rfl rfl (fun b hb => hb) fun g' x' hx' => ?_
    rcases setSession_sessions hx' with ⟨-, hx'⟩ | ⟨-, hx'⟩
    · cases hx'
    · exact hx'
  | restart lost =>
    simp only [step] at hstep
    split_ifs at hstep with hbound
    obtain ⟨store, hstore, rfl⟩ := Option.map_eq_some_iff.1 hstep
    have hstore' := hstore
    cases hstore
    exact (h.setStore (a := .reopen lost) trivial hstore' (by simp) hbound).mono hinv rfl rfl rfl rfl (fun b hb => hb) (by simp)

/-- A node is written. -/
def writeNode : List SyncAction :=
  [.store (.call 1 (.upsertNode ⟨"n1", "", ["File"], [], 0, 0, none, ""⟩ "") 1), .store (.next 1), .store (.commit 1)]

theorem takesTurns_writeNode : Runs.Along (step 500) TakesTurns (start "t") writeNode := by
  refine (Runs.along_cons_of_step rfl).2 ⟨trivial, ?_⟩
  refine (Runs.along_cons_of_step rfl).2 ⟨trivial, ?_⟩
  exact (Runs.along_cons_of_step rfl).2 ⟨fun _ _ _ _ d hd => absurd hd List.not_mem_nil, trivial⟩

/-- The answer to the first post is lost, and the node arrives twice. -/
def lostAnswer : List SyncAction :=
  writeNode ++ [.drain 0, .post 0, .deliver 0 [0], .abort 0, .drain 0, .post 0, .deliver 1 [0], .decode 0, .ack 0]

theorem takesTurns_lostAnswer : Runs.Along (step 500) TakesTurns (start "t") lostAnswer := by
  have hclosed : ∀ l : List Batch, (∀ b ∈ l, ∀ d ∈ b.deltas, d.seq ∈ [0]) → ∀ b ∈ l, b.Closed [0] :=
    fun l hl b hb _ _ _ d' hd' _ _ => hl b hb d' hd'
  refine (Runs.along_cons_of_step rfl).2 ⟨trivial, ?_⟩
  refine (Runs.along_cons_of_step rfl).2 ⟨trivial, ?_⟩
  refine (Runs.along_cons_of_step rfl).2 ⟨fun _ _ _ _ d hd => absurd hd List.not_mem_nil, ?_⟩
  refine (Runs.along_cons_of_step rfl).2 ⟨⟨fun _ => rfl, rfl⟩, ?_⟩
  refine (Runs.along_cons_of_step rfl).2 ⟨trivial, ?_⟩
  refine (Runs.along_cons_of_step rfl).2 ⟨fun b hb _ => hclosed _ (by decide) b hb, ?_⟩
  refine (Runs.along_cons_of_step rfl).2 ⟨trivial, ?_⟩
  refine (Runs.along_cons_of_step rfl).2 ⟨⟨fun g => by cases g <;> rfl, rfl⟩, ?_⟩
  refine (Runs.along_cons_of_step rfl).2 ⟨trivial, ?_⟩
  refine (Runs.along_cons_of_step rfl).2 ⟨fun b hb _ => hclosed _ (by decide) b hb, ?_⟩
  refine (Runs.along_cons_of_step rfl).2 ⟨trivial, ?_⟩
  exact (Runs.along_cons_of_step rfl).2 ⟨trivial, trivial⟩

/-- A `sync` of goroutine `g` whose batch arrives and is acknowledged. -/
def round (batchSize g : Nat) (s : SyncState) : List SyncAction :=
  [.drain g, .post g, .deliver s.nextBatch ((s.drainDeltas batchSize).map (·.seq)), .decode g, .ack g]

/-- `k` rounds, one after the other. -/
def rounds (batchSize g : Nat) : Nat → SyncState → Option SyncState
  | 0, s => some s
  | k + 1, s => (Runs.run (step batchSize) s (round batchSize g s)).bind (rounds batchSize g k)

/-- What an acknowledged prefix leaves in the queue. -/
theorem Mirrors.length_pending_ackDeltas (h : s.Mirrors) (n : Nat) :
    (((s.store.pending.take n).map (·.seq)).foldl Store.ackOne s.store).pending.length =
      s.store.pending.length - n := by
  set store := ((s.store.pending.take n).map (·.seq)).foldl Store.ackOne s.store with hstore
  have hinv : store.Inv := h.inv.store.ackDeltas _
  have hnodup := h.inv.store.pending_nodup
  rw [← List.length_drop]
  refine ((List.perm_ext_iff_of_nodup hinv.pending_nodup (hnodup.sublist (List.drop_sublist n _))).2 fun d => ?_).length_eq
  have hsplit : d ∈ s.store.pending ↔ d ∈ s.store.pending.take n ∨ d ∈ s.store.pending.drop n := by
    rw [← List.mem_append, List.take_append_drop]
  have hdisjoint : d ∈ s.store.pending.take n → d ∉ s.store.pending.drop n := by
    intro htake hdrop
    rw [← List.take_append_drop n s.store.pending] at hnodup
    exact (List.nodup_append.1 hnodup).2.2 d htake d hdrop rfl
  -- within the history a number belongs to one delta
  have hseq : d ∈ s.store.history → (d.seq ∈ (s.store.pending.take n).map (·.seq) ↔ d ∈ s.store.pending.take n) := by
    intro hd
    constructor
    · intro hmem
      obtain ⟨d', hd', heq⟩ := List.mem_map.1 hmem
      have hd'' := ((h.inv.store.mem_pending d').1 (List.mem_of_mem_take hd')).1
      rwa [← List.inj_on_of_nodup_map h.inv.store.seq_nodup hd'' hd heq]
    · exact List.mem_map_of_mem
  rw [hinv.mem_pending, hstore, h.inv.store.mem_acked_ackDeltas, (Store.ackDeltas_frame _ _).1]
  constructor
  · rintro ⟨hd, hnot⟩
    have hpending := (h.inv.store.mem_pending d).2 ⟨hd, fun hc => hnot (.inl hc)⟩
    exact (hsplit.1 hpending).resolve_left fun hc => hnot (.inr ⟨hd, (hseq hd).2 hc⟩)
  · intro hdrop
    obtain ⟨hd, hnot⟩ := (h.inv.store.mem_pending d).1 (hsplit.2 (.inr hdrop))
    refine ⟨hd, ?_⟩
    rintro (hc | ⟨-, hc⟩)
    · exact hnot hc
    · exact hdisjoint ((hseq hd).1 hc) hdrop

/-- A round takes a batch from the queue and nothing from the tables. -/
theorem Mirrors.round (h : s.Mirrors) (hrest : s.AtRest) (hne : s.drainDeltas batchSize ≠ []) (g : Nat) :
    ∃ t, Runs.run (step batchSize) s (round batchSize g s) = some t ∧ t.Mirrors ∧ t.AtRest ∧
      t.store.graph = s.store.graph ∧ t.store.pending.length = s.store.pending.length - batchSize := by
  obtain ⟨hsessions, hrequests⟩ := hrest
  set b : Batch := ⟨s.nextBatch, s.drainDeltas batchSize⟩ with hb
  set seqs := b.deltas.map (·.seq) with hseqs
  have hdrain : s.step batchSize (.drain g) =
      some { s.setSession g (some ⟨b, .drained⟩) with nextBatch := s.nextBatch + 1 } := by
    simp [step, hsessions g, hne, hb]
  have h₁ := mirrors_step (a := .drain g) h ⟨hsessions, hrequests⟩ hdrain
  set s₁ : SyncState := { s.setSession g (some ⟨b, .drained⟩) with nextBatch := s.nextBatch + 1 } with hs₁
  have hg₁ : s₁.sessions g = some ⟨b, .drained⟩ := Function.update_self ..
  have hpost : s₁.step batchSize (.post g) = some { s₁.setSession g (some ⟨b, .posted⟩) with
      requests := s₁.requests ++ [b], posted := s₁.posted ++ [b] } := by
    simp [step, hg₁]
  have h₂ := mirrors_step (a := .post g) h₁ trivial hpost
  set s₂ : SyncState := { s₁.setSession g (some ⟨b, .posted⟩) with
      requests := s₁.requests ++ [b], posted := s₁.posted ++ [b] } with hs₂
  have hrequests₂ : s₂.requests = [b] := by
    show s.requests ++ [b] = [b]
    rw [hrequests, List.nil_append]
  have hdeliver : s₂.step batchSize (.deliver s.nextBatch seqs) = some { s₂ with
      requests := s₂.requests.filter (·.id ≠ s.nextBatch)
      responses := s₂.responses ++ [⟨s.nextBatch, seqs⟩]
      received := s₂.received ++ b.deltas } := by
    simp [step, hrequests₂, hb, hseqs]
  have hclosed : s₂.TakesTurns (.deliver s.nextBatch seqs) := by
    intro b' hb' _ d hd _ d' hd' _ _
    rw [hrequests₂, List.mem_singleton] at hb'
    rw [hb'] at hd'
    exact List.mem_map_of_mem hd'
  have h₃ := mirrors_step h₂ hclosed hdeliver
  set s₃ : SyncState := { s₂ with
      requests := s₂.requests.filter (·.id ≠ s.nextBatch)
      responses := s₂.responses ++ [⟨s.nextBatch, seqs⟩]
      received := s₂.received ++ b.deltas } with hs₃
  have hg₃ : s₃.sessions g = some ⟨b, .posted⟩ := Function.update_self ..
  have hnone : s.responses.find? (·.id = b.id) = none := by
    refine List.find?_eq_none.2 fun r hr => ?_
    obtain ⟨b', hb', hid, -⟩ := h.inv.responses r hr
    have hlt := h.inv.posted_lt b' hb'
    rw [hid] at hlt
    simpa [hb] using Nat.ne_of_lt hlt
  have hfind : s₃.responses.find? (·.id = b.id) = some ⟨s.nextBatch, seqs⟩ := by
    show (s.responses ++ [(⟨s.nextBatch, seqs⟩ : Answer)]).find? (·.id = b.id) = _
    rw [List.find?_append, hnone]
    simp [hb]
  have hdecode : s₃.step batchSize (.decode g) = some { s₃.setSession g (some ⟨b, .decoded seqs⟩) with
      decoded := s₃.decoded ++ [⟨s.nextBatch, seqs⟩] } := by
    simp only [step, hg₃, hfind, Option.map_some]
  have h₄ := mirrors_step (a := .decode g) h₃ trivial hdecode
  set s₄ : SyncState := { s₃.setSession g (some ⟨b, .decoded seqs⟩) with
      decoded := s₃.decoded ++ [⟨s.nextBatch, seqs⟩] } with hs₄
  have hg₄ : s₄.sessions g = some ⟨b, .decoded seqs⟩ := Function.update_self ..
  have hack : s₄.step batchSize (.ack g) = some { s₄.setSession g none with
      store := seqs.foldl Store.ackOne s₄.store } := by
    simp only [step, hg₄]
  refine ⟨_, ?_, mirrors_step (a := .ack g) h₄ trivial hack, ⟨fun g' => ?_, ?_⟩, ?_, ?_⟩
  · rw [SyncState.round, Runs.run, hdrain, Option.bind_some, Runs.run, hpost, Option.bind_some, Runs.run, hdeliver,
      Option.bind_some, Runs.run, hdecode, Option.bind_some, Runs.run, hack, Option.bind_some, Runs.run]
  · rcases eq_or_ne g' g with rfl | hne
    · exact Function.update_self ..
    · simp [hs₄, hs₃, hs₂, hs₁, setSession, hne, hsessions]
  · show s₂.requests.filter (·.id ≠ s.nextBatch) = []
    rw [hrequests₂]
    simp [hb]
  · exact (Store.ackDeltas_frame s.store seqs).2
  · exact h.length_pending_ackDeltas batchSize

theorem Mirrors.rounds (hbatch : 0 < batchSize) (g : Nat) {k : Nat} (h : s.Mirrors) (hrest : s.AtRest)
    (hk : k = (s.store.pending.length + batchSize - 1) / batchSize) :
    ∃ t, rounds batchSize g k s = some t ∧ t.Mirrors ∧ t.store.graph = s.store.graph ∧ t.store.pending = [] := by
  induction k generalizing s with
  | zero =>
    refine ⟨s, rfl, h, rfl, List.eq_nil_of_length_eq_zero ?_⟩
    have hlt := (Nat.div_eq_zero_iff_lt hbatch).1 hk.symm
    omega
  | succ k ih =>
    have hpos : 0 < s.store.pending.length := by
      by_contra hzero
      have hlt : s.store.pending.length + batchSize - 1 < batchSize := by omega
      rw [Nat.div_eq_of_lt hlt] at hk
      cases hk
    have hne : s.drainDeltas batchSize ≠ [] := by
      rw [drainDeltas, Ne, List.take_eq_nil_iff]
      rintro (hzero | hnil)
      · omega
      · simp [hnil] at hpos
    obtain ⟨t, hrun, ht, htrest, hgraph, hlength⟩ := h.round hrest hne g
    have hk' : k = (t.store.pending.length + batchSize - 1) / batchSize := by
      rw [hlength]
      rcases Nat.lt_or_ge batchSize s.store.pending.length with hlt | hge
      · have hsplit : s.store.pending.length + batchSize - 1 =
            (s.store.pending.length - batchSize + batchSize - 1) + batchSize := by omega
        rw [hsplit, Nat.add_div_right _ hbatch] at hk
        omega
      · have hzero : s.store.pending.length - batchSize + batchSize - 1 < batchSize := by omega
        have hsplit : s.store.pending.length + batchSize - 1 = (s.store.pending.length - 1) + batchSize := by omega
        rw [Nat.div_eq_of_lt hzero]
        rw [hsplit, Nat.add_div_right _ hbatch, Nat.div_eq_of_lt (by omega)] at hk
        omega
    obtain ⟨u, hu, hmirrors, hugraph, hpending⟩ := ih ht htrest hk'
    exact ⟨u, by rw [SyncState.rounds, hrun, Option.bind_some, hu], hmirrors, hugraph.trans hgraph, hpending⟩

end SyncState

end Dgraphai.Proxy
