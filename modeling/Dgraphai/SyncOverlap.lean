import Dgraphai.Lib.Digits
import Dgraphai.Syncer

/-!
# Two goroutines in `sync`

`DrainDeltas` says it marks its deltas as in flight, and marks nothing: a `ForceSync` next to the `Run`
loop drains the deltas the loop has posted, and a batch whose answer was lost is drained again. Batches
are apart, and the cloud receives the deltas of a node in the order of their numbers, as long as every
drain finds its nodes free (`Separate`, `separate_runs`).
-/

namespace Dgraphai.Proxy

/-! ### The order of the queue -/

theorem pad20_lt {m n : Nat} (hn : n < 10 ^ 20) (h : m < n) : pad20 m < pad20 n := by
  have hdigits : ∀ k, ∀ c ∈ List.leftpad 20 '0' (Nat.toDigits 10 k), c.isDigit := by
    intro k c hc
    rcases List.mem_append.1 hc with hc | hc
    · rw [(List.mem_replicate.1 hc).2]
      rfl
    · exact Nat.isDigit_of_mem_toDigits (by decide) (by decide) hc
  have hlen : ∀ k, k < 10 ^ 20 → (List.leftpad 20 '0' (Nat.toDigits 10 k)).length = 20 := by
    intro k hk
    have := (Nat.length_toDigits_le_iff (by decide) (by decide)).2 hk
    rw [List.length_leftpad]
    omega
  have hval : ∀ k, Nat.ofDigitChars 10 (List.leftpad 20 '0' (Nat.toDigits 10 k)) 0 = k := by
    intro k
    simp [List.leftpad, Nat.ofDigitChars_append, Nat.ofDigitChars_toDigits]
  rw [String.lt_iff, pad20, pad20, String.toList_ofList, String.toList_ofList]
  refine Digits.lt_of_ofDigitChars_lt ?_ (hdigits m) (hdigits n) (by rw [hval, hval]; exact h)
  rw [hlen m (h.trans hn), hlen n hn]

theorem deltaKey_lt (t : String) {m n : Nat} (hn : n < 10 ^ 20) (h : m < n) : deltaKey t m < deltaKey t n := by
  have hkey : ∀ k, (deltaKey t k).toList = ("d:" ++ t ++ ":").toList ++ (pad20 k).toList := fun k =>
    String.toList_append
  rw [String.lt_iff, hkey, hkey]
  exact List.append_left_lt (pad20_lt hn h)

/-- The deltas a drain reads are at the keys of their numbers. -/
def Store.Keyed (s : Store) : Prop :=
  ∀ key v d, s.kv[key]? = some v → scanDelta s.tenantID key v = some d →
    key = deltaKey s.tenantID d.seq ∧ d.seq < 2 ^ 64

/-- A queue under the keys of its numbers is in their order. -/
theorem Store.Keyed.pending_sorted {s : Store} (h : s.Keyed) : s.pending.Pairwise fun a b => a.seq < b.seq := by
  have hkeys := Std.TreeMap.ordered_keys_toList (t := s.kv)
  refine List.Pairwise.filterMap _ ?_ (List.Pairwise.and_mem.1 hkeys)
  rintro ⟨k, v⟩ ⟨k', v'⟩ ⟨hm, hm', hlt⟩ d hd d' hd'
  rw [Std.TreeMap.mem_toList_iff_getElem?_eq_some] at hm hm'
  obtain ⟨rfl, hbound⟩ := h k v d hm hd
  obtain ⟨rfl, -⟩ := h k' v' d' hm' hd'
  have hlt : deltaKey s.tenantID d.seq < deltaKey s.tenantID d'.seq := compareOfLessAndEq_eq_lt.1 hlt
  by_contra hnot
  rcases Nat.lt_or_eq_of_le (Nat.le_of_not_lt hnot) with hgt | heq
  · exact String.lt_irrefl _ (String.lt_trans hlt (deltaKey_lt _ (by omega) hgt))
  · rw [heq] at hlt
    exact String.lt_irrefl _ hlt

theorem Store.Inv.pending_sorted {s : Store} (h : s.Inv) (hbound : s.nextSeq ≤ 2 ^ 64) :
    s.pending.Pairwise fun a b => a.seq < b.seq := by
  refine Store.Keyed.pending_sorted fun key v d hv hd => ?_
  obtain rfl := scanDelta_eq_some hd
  obtain rfl := h.delta_key key d hv
  exact ⟨rfl, Nat.lt_of_lt_of_le (h.seq_lt _ ((h.queued _ _).1 hv).1) hbound⟩

namespace Store
variable {s s' : Store}

theorem nextSeq_ackDeltas (s : Store) (seqs : List Nat) : (seqs.foldl ackOne s).nextSeq = s.nextSeq := by
  induction seqs generalizing s with
  | nil => rfl
  | cons n seqs ih => exact ih (s.ackOne n)

theorem nextSeq_writerStep {a : Action} (h : s.writerStep a = some s') (hbound : s.nextSeq ≤ 2 ^ 64) :
    s'.nextSeq ≤ 2 ^ 64 := by
  cases a with
  | ackDeltas seqs => cases h
  | reopen lost => cases h
  | next g =>
    simp only [writerStep, step] at h
    split_ifs at h with hlt
    split at h
    · cases h; exact hlt
    · cases h
  | call g c now | commit g | fail g =>
    simp only [writerStep, step] at h
    split at h
    · cases h; exact hbound
    · cases h

end Store

/-! ### Batches in flight -/

/-- The node a delta is about. -/
def DeltaRecord.node? (d : DeltaRecord) : Option String :=
  match d.change.key with
  | .node id => some id
  | .edge _ => none

def DeltaRecord.SameNode (d d' : DeltaRecord) : Prop := d.node?.isSome ∧ d.node? = d'.node?

instance (d d' : DeltaRecord) : Decidable (d.SameNode d') := inferInstanceAs (Decidable (_ ∧ _))

theorem DeltaRecord.SameNode.symm {d d' : DeltaRecord} (h : d.SameNode d') : d'.SameNode d :=
  ⟨h.2 ▸ h.1, h.2.symm⟩

namespace SyncState
variable {batchSize : Nat} {s s' : SyncState}

/-- The batch is on its way to the cloud, or a goroutine is not done with it. -/
def InFlight (s : SyncState) (b : Batch) : Prop :=
  b ∈ s.requests ∨ ∃ g x, s.sessions g = some x ∧ x.batch = b

/-- The cloud can still receive the batch. -/
def Undelivered (s : SyncState) (b : Batch) : Prop := b ∈ s.requests ∨ ∃ g, s.sessions g = some ⟨b, .drained⟩

/-- No delta is in two batches in flight. -/
def Disjoint (s : SyncState) : Prop :=
  ∀ b b', s.InFlight b → s.InFlight b' → b.id ≠ b'.id → ∀ d ∈ b.deltas, d ∉ b'.deltas

/-- The cloud has received no delta of a node after one with a higher number. -/
def ReceivedInOrder (s : SyncState) : Prop := s.received.Pairwise fun a b => a.SameNode b → a.seq ≤ b.seq

instance (s : SyncState) : Decidable s.ReceivedInOrder := inferInstanceAs (Decidable (List.Pairwise _ _))

/-- The drains that take no delta of a batch in flight, and only deltas of nodes that no undelivered batch
is about and of which the cloud has not received a newer delta; every other step may be taken. -/
def Separate (batchSize : Nat) (s : SyncState) : SyncAction → Prop
  | .drain _ => ∀ d ∈ s.drainDeltas batchSize, (∀ b, s.InFlight b → d ∉ b.deltas) ∧
      (∀ b, s.Undelivered b → ∀ d' ∈ b.deltas, ¬ d.SameNode d') ∧
        ∀ d' ∈ s.received, d.SameNode d' → d'.seq ≤ d.seq
  | _ => True

/-- What a run of separate drains keeps. -/
structure Apart (s : SyncState) : Prop where
  inv : s.Inv
  bound : s.store.nextSeq ≤ 2 ^ 64
  disjoint : s.Disjoint
  apart : ∀ b b', s.Undelivered b → s.Undelivered b' → b.id ≠ b'.id →
    ∀ d ∈ b.deltas, ∀ d' ∈ b'.deltas, ¬ d.SameNode d'
  newer : ∀ b, s.Undelivered b → ∀ d ∈ b.deltas, ∀ d' ∈ s.received, d.SameNode d' → d'.seq ≤ d.seq
  sorted : ∀ b, s.Undelivered b → b.deltas.Pairwise fun d d' => d.seq < d'.seq
  inOrder : s.ReceivedInOrder

theorem apart_start (tenantID : String) : (start tenantID).Apart where
  inv := inv_start tenantID
  bound := Nat.zero_le _
  disjoint b b' hb := by rcases hb with hb | ⟨g, x, hx, -⟩ <;> simp [start] at *
  apart b b' hb := by rcases hb with hb | ⟨g, hx⟩ <;> simp [start] at *
  newer b hb := by rcases hb with hb | ⟨g, hx⟩ <;> simp [start] at *
  sorted b hb := by rcases hb with hb | ⟨g, hx⟩ <;> simp [start] at *
  inOrder := by simp [start, ReceivedInOrder]

/-- A step that puts no new batch in flight and delivers none. -/
theorem Apart.mono (h : s.Apart) (hinv : s'.Inv) (hbound : s'.store.nextSeq ≤ 2 ^ 64)
    (hflight : ∀ b, s'.InFlight b → s.InFlight b) (hund : ∀ b, s'.Undelivered b → s.Undelivered b)
    (hrec : s'.received = s.received) : s'.Apart where
  inv := hinv
  bound := hbound
  disjoint b b' hb hb' := h.disjoint b b' (hflight b hb) (hflight b' hb')
  apart b b' hb hb' := h.apart b b' (hund b hb) (hund b' hb')
  newer b hb := by rw [hrec]; exact h.newer b (hund b hb)
  sorted b hb := h.sorted b (hund b hb)
  inOrder := by rw [ReceivedInOrder, hrec]; exact h.inOrder

/-- The numbers of batches in flight have been handed out. -/
theorem Inv.id_lt_of_inFlight (h : s.Inv) {b : Batch} (hb : s.InFlight b) : b.id < s.nextBatch := by
  rcases hb with hb | ⟨g, x, hx, rfl⟩
  · exact h.posted_lt b (h.requests b hb)
  · exact (h.sessions g x hx).id_lt

theorem Inv.mem_history_of_inFlight (h : s.Inv) {b : Batch} (hb : s.InFlight b) {d : DeltaRecord}
    (hd : d ∈ b.deltas) : d ∈ s.store.history := by
  rcases hb with hb | ⟨g, x, hx, rfl⟩
  · exact h.posted_mem b (h.requests b hb) d hd
  · exact (h.sessions g x hx).mem d hd

theorem Undelivered.inFlight {b : Batch} (h : s.Undelivered b) : s.InFlight b := by
  rcases h with h | ⟨g, hg⟩
  · exact .inl h
  · exact .inr ⟨g, _, hg, rfl⟩

theorem Apart.drain (h : s.Apart) {g : Nat} (hg : s.sessions g = none) (hok : s.Separate batchSize (.drain g)) :
    ({ s.setSession g (some ⟨⟨s.nextBatch, s.drainDeltas batchSize⟩, .drained⟩) with
      nextBatch := s.nextBatch + 1 } : SyncState).Apart := by
  set new : Batch := ⟨s.nextBatch, s.drainDeltas batchSize⟩ with hnew
  have hflight : ∀ b, ({ s.setSession g (some ⟨new, .drained⟩) with nextBatch := s.nextBatch + 1 } :
      SyncState).InFlight b → b = new ∨ s.InFlight b := by
    rintro b (hb | ⟨g', x, hx, rfl⟩)
    · exact .inr (.inl hb)
    · rcases setSession_sessions hx with ⟨-, hx⟩ | ⟨-, hx⟩
      · exact .inl (congrArg Session.batch (Option.some.inj hx).symm)
      · exact .inr (.inr ⟨g', x, hx, rfl⟩)
  have hund : ∀ b, ({ s.setSession g (some ⟨new, .drained⟩) with nextBatch := s.nextBatch + 1 } :
      SyncState).Undelivered b → b = new ∨ s.Undelivered b := by
    rintro b (hb | ⟨g', hx⟩)
    · exact .inr (.inl hb)
    · rcases setSession_sessions hx with ⟨-, hx⟩ | ⟨-, hx⟩
      · exact .inl (congrArg Session.batch (Option.some.inj hx).symm)
      · exact .inr (.inr ⟨g', hx⟩)
  refine
    { inv := h.inv.drain hg
      bound := h.bound
      disjoint := ?_
      apart := ?_
      newer := ?_
      sorted := ?_
      inOrder := h.inOrder }
  · intro b b' hb hb' hid d hd hd'
    rcases hflight b hb with rfl | hb <;> rcases hflight b' hb' with rfl | hb'
    · exact hid rfl
    · exact (hok d hd).1 b' hb' hd'
    · exact (hok d hd').1 b hb hd
    · exact h.disjoint b b' hb hb' hid d hd hd'
  · intro b b' hb hb' hid d hd d' hd' hsame
    rcases hund b hb with rfl | hb <;> rcases hund b' hb' with rfl | hb'
    · exact hid rfl
    · exact (hok d hd).2.1 b' hb' d' hd' hsame
    · exact (hok d' hd').2.1 b hb d hd hsame.symm
    · exact h.apart b b' hb hb' hid d hd d' hd' hsame
  · intro b hb d hd
    rcases hund b hb with rfl | hb
    · exact (hok d hd).2.2
    · exact h.newer b hb d hd
  · intro b hb
    rcases hund b hb with rfl | hb
    · exact (h.inv.store.pending_sorted h.bound).sublist (List.take_sublist _ _)
    · exact h.sorted b hb

theorem Apart.deliver (h : s.Apart) {b : Batch} {acked : List Nat} (hb : b ∈ s.requests)
    (hacked : ∀ n ∈ acked, n ∈ b.deltas.map (·.seq)) :
    ({ s with
      requests := s.requests.filter (·.id ≠ b.id)
      responses := s.responses ++ [⟨b.id, acked⟩]
      received := s.received ++ b.deltas } : SyncState).Apart := by
  have hb' : s.Undelivered b := .inl hb
  have hund : ∀ c, ({ s with
      requests := s.requests.filter (·.id ≠ b.id)
      responses := s.responses ++ [⟨b.id, acked⟩]
      received := s.received ++ b.deltas } : SyncState).Undelivered c → s.Undelivered c ∧ c.id ≠ b.id := by
    rintro c (hc | ⟨g, hg⟩)
    · obtain ⟨hc, hid⟩ := List.mem_filter.1 hc
      exact ⟨.inl hc, by simpa using hid⟩
    · exact ⟨.inr ⟨g, hg⟩, ((h.inv.sessions g _ hg).fresh rfl b (h.inv.requests b hb)).symm⟩
  refine
    { inv := h.inv.deliver hb hacked
      bound := h.bound
      disjoint := ?_
      apart := fun c c' hc hc' => h.apart c c' (hund c hc).1 (hund c' hc').1
      newer := ?_
      sorted := fun c hc => h.sorted c (hund c hc).1
      inOrder := ?_ }
  · have hflight : ∀ c, ({ s with
        requests := s.requests.filter (·.id ≠ b.id)
        responses := s.responses ++ [⟨b.id, acked⟩]
        received := s.received ++ b.deltas } : SyncState).InFlight c → s.InFlight c := by
      rintro c (hc | hc)
      · exact .inl (List.mem_of_mem_filter hc)
      · exact .inr hc
    exact fun c c' hc hc' => h.disjoint c c' (hflight c hc) (hflight c' hc')
  · intro c hc d hd d' hd' hsame
    obtain ⟨hc, hid⟩ := hund c hc
    rcases List.mem_append.1 hd' with hd' | hd'
    · exact h.newer c hc d hd d' hd' hsame
    · exact absurd hsame (h.apart c b hc hb' hid d hd d' hd')
  · refine List.pairwise_append.2 ⟨h.inOrder, (h.sorted b hb').imp ?_, ?_⟩
    · intro d d' hlt _
      exact Nat.le_of_lt hlt
    · intro d' hd' d hd hsame
      exact h.newer b hb' d hd d' hd' hsame.symm

/-- Goroutine `g` goes on to a stage in which its batch is not waiting to be sent, or leaves `sync`. -/
theorem inFlight_of_setSession {g : Nat} {v : Option Session} {b : Batch}
    (hv : ∀ x, v = some x → ∃ stage, s.sessions g = some ⟨x.batch, stage⟩)
    (hb : (s.setSession g v).InFlight b) : s.InFlight b := by
  rcases hb with hb | ⟨g', x, hx, rfl⟩
  · exact .inl hb
  · rcases setSession_sessions hx with ⟨rfl, hself⟩ | ⟨-, hother⟩
    · obtain ⟨stage, hg⟩ := hv x hself
      exact .inr ⟨g', _, hg, rfl⟩
    · exact .inr ⟨g', x, hother, rfl⟩

theorem undelivered_of_setSession {g : Nat} {v : Option Session} {b : Batch}
    (hv : ∀ x, v = some x → x.stage ≠ .drained) (hb : (s.setSession g v).Undelivered b) : s.Undelivered b := by
  rcases hb with hb | ⟨g', hx⟩
  · exact .inl hb
  · rcases setSession_sessions hx with ⟨-, hx⟩ | ⟨-, hx⟩
    · exact absurd rfl (hv _ hx)
    · exact .inr ⟨g', hx⟩

theorem apart_step (h : s.Apart) {a : SyncAction} (hok : s.Separate batchSize a)
    (hstep : s.step batchSize a = some s') : s'.Apart := by
  have hinv := inv_step h.inv hstep
  cases a with
  | store a =>
    obtain ⟨store, hstore, rfl⟩ := Option.map_eq_some_iff.1 hstep
    exact h.mono hinv (Store.nextSeq_writerStep hstore h.bound) (fun _ hb => hb) (fun _ hb => hb) rfl
  | drain g =>
    simp only [step] at hstep
    split at hstep
    · cases hstep
    next hg =>
      split_ifs at hstep
      · cases hstep; exact h
      · cases hstep; exact h.drain hg hok
  | post g =>
    simp only [step] at hstep
    split at hstep
    next b hg =>
      cases hstep
      refine h.mono hinv h.bound (fun c hc => ?_) (fun c hc => ?_) rfl
      · rcases hc with hc | hc
        · rcases List.mem_append.1 hc with hc | hc
          · exact .inl hc
          · obtain rfl := List.mem_singleton.1 hc
            exact .inr ⟨g, _, hg, rfl⟩
        · exact inFlight_of_setSession (fun x hx => by cases hx; exact ⟨_, hg⟩) (.inr hc)
      · rcases hc with hc | hc
        · rcases List.mem_append.1 hc with hc | hc
          · exact .inl hc
          · obtain rfl := List.mem_singleton.1 hc
            exact .inr ⟨g, hg⟩
        · exact undelivered_of_setSession (fun x hx => by cases hx; simp) (.inr hc)
    next => cases hstep
  | deliver id acked =>
    simp only [step] at hstep
    split at hstep
    next b hb =>
      split_ifs at hstep with hacked
      cases hstep
      obtain rfl : b.id = id := by simpa using List.find?_some hb
      exact h.deliver (List.mem_of_find?_eq_some hb) hacked
    next => cases hstep
  | lose id =>
    cases hstep
    refine h.mono hinv h.bound (fun b hb => ?_) (fun b hb => ?_) rfl
    · exact hb.imp_left fun hb => List.mem_of_mem_filter hb
    · exact hb.imp_left fun hb => List.mem_of_mem_filter hb
  | decode g =>
    simp only [step] at hstep
    split at hstep
    next b hg =>
      obtain ⟨r, -, rfl⟩ := Option.map_eq_some_iff.1 hstep
      exact h.mono hinv h.bound
        (fun c hc => inFlight_of_setSession (fun x hx => by cases hx; exact ⟨_, hg⟩) hc)
        (fun c hc => undelivered_of_setSession (fun x hx => by cases hx; simp) hc) rfl
    next => cases hstep
  | ack g =>
    simp only [step] at hstep
    split at hstep
    next b seqs hg =>
      cases hstep
      exact h.mono hinv (by rw [Store.nextSeq_ackDeltas]; exact h.bound)
        (fun c hc => inFlight_of_setSession (fun x hx => by cases hx) hc)
        (fun c hc => undelivered_of_setSession (fun x hx => by cases hx) hc) rfl
    next => cases hstep
  | abort g =>
    obtain ⟨x, -, rfl⟩ := Option.map_eq_some_iff.1 hstep
    exact h.mono hinv h.bound (fun c hc => inFlight_of_setSession (fun x hx => by cases hx) hc)
      (fun c hc => undelivered_of_setSession (fun x hx => by cases hx) hc) rfl
  | restart lost =>
    simp only [step] at hstep
    split_ifs at hstep with hle
    obtain ⟨store, hstore, rfl⟩ := Option.map_eq_some_iff.1 hstep
    cases hstore
    refine h.mono hinv hle (fun b hb => ?_) (fun b hb => ?_) rfl
    · rcases hb with hb | ⟨g, x, hx, -⟩
      · exact .inl hb
      · cases hx
    · rcases hb with hb | ⟨g, hx⟩
      · exact .inl hb
      · cases hx

/-! ### A drain that is not separate -/

variable (batchSize) in
/-- A batch that was not delivered can be, and nothing else happens. -/
theorem Inv.exists_delivered (h : s.Inv) {b : Batch} (hb : s.Undelivered b) :
    ∃ as s', Runs.run (step batchSize) s as = some s' ∧ s'.Inv ∧ s'.received = s.received ++ b.deltas ∧
      ∀ c, s.Undelivered c → c.id ≠ b.id → s'.Undelivered c := by
  -- the request is sent, if it was not, and reaches the cloud
  obtain ⟨as, t, hrun, ht, hmem, hrec, hund⟩ : ∃ as t, Runs.run (step batchSize) s as = some t ∧ t.Inv ∧
      b ∈ t.requests ∧ t.received = s.received ∧ ∀ c, s.Undelivered c → c.id ≠ b.id → t.Undelivered c := by
    rcases hb with hb | ⟨g, hg⟩
    · exact ⟨[], s, rfl, h, hb, rfl, fun c hc _ => hc⟩
    · refine ⟨[.post g], _, by simp [Runs.run, step, hg], h.post hg, by simp, rfl, ?_⟩
      rintro c (hc | ⟨g', hg'⟩) hne
      · exact .inl (List.mem_append_left _ hc)
      · have hg : g' ≠ g := by
          rintro rfl
          exact hne (congrArg (fun x => x.batch.id) (Option.some.inj (hg'.symm.trans hg)))
        exact .inr ⟨g', by simpa [setSession, hg] using hg'⟩
  have hfind : t.requests.find? (·.id = b.id) = some b := by
    obtain ⟨b', hb'⟩ : ∃ b', t.requests.find? (·.id = b.id) = some b' := by
      rw [← Option.isSome_iff_exists, List.find?_isSome]
      exact ⟨b, hmem, by simp⟩
    have hid : b'.id = b.id := by simpa using List.find?_some hb'
    rw [hb', ht.posted_inj b' (ht.requests b' (List.mem_of_find?_eq_some hb')) b (ht.requests b hmem) hid]
  have hstep : step batchSize t (.deliver b.id []) = some { t with
      requests := t.requests.filter (·.id ≠ b.id)
      responses := t.responses ++ [⟨b.id, []⟩]
      received := t.received ++ b.deltas } := by
    simp [step, hfind]
  have hnil : ∀ n ∈ ([] : List Nat), n ∈ b.deltas.map (·.seq) := by simp
  refine ⟨as ++ [.deliver b.id []], _, ?_, ht.deliver hmem hnil, by rw [← hrec], ?_⟩
  · rw [Runs.run_append, hrun, Option.bind_some, Runs.run, hstep]
    rfl
  · intro c hc hne
    rcases hund c hc hne with hc | hc
    · exact .inl (List.mem_filter.2 ⟨hc, by simpa using hne⟩)
    · exact .inr hc

variable (batchSize) in
/-- Two batches with deltas of one node, not delivered yet, can arrive in the wrong order. -/
theorem Inv.exists_disorder (h : s.Inv) {b b' : Batch} (hb : s.Undelivered b) (hb' : s.Undelivered b')
    (hid : b.id ≠ b'.id) {d d' : DeltaRecord} (hd : d ∈ b.deltas) (hd' : d' ∈ b'.deltas) (hsame : d.SameNode d')
    (hlt : d.seq < d'.seq) :
    ∃ as s', Runs.run (step batchSize) s as = some s' ∧ ¬ s'.ReceivedInOrder := by
  obtain ⟨as, t, hrun, ht, hrec, hund⟩ := h.exists_delivered batchSize hb'
  obtain ⟨as', t', hrun', -, hrec', -⟩ := ht.exists_delivered batchSize (hund b hb hid)
  refine ⟨as ++ as', t', by rw [Runs.run_append, hrun, Option.bind_some, hrun'], fun hord => ?_⟩
  rw [ReceivedInOrder, hrec', hrec, List.pairwise_append] at hord
  have := hord.2.2 d' (List.mem_append_right _ hd') d hd hsame.symm
  omega

/-- A drain that is not separate can be followed by steps that show it. -/
theorem Apart.exists_violation (h : s.Apart) {g : Nat} (hok : ¬ s.Separate batchSize (.drain g))
    (hstep : s.step batchSize (.drain g) = some s') :
    ∃ as t, Runs.run (step batchSize) s' as = some t ∧ ¬ (t.Disjoint ∧ t.ReceivedInOrder) := by
  simp only [Separate, not_forall] at hok
  obtain ⟨d, hd, hok⟩ := hok
  have hinv := inv_step h.inv hstep
  simp only [step] at hstep
  split at hstep
  · cases hstep
  next hg =>
  rw [if_neg (List.ne_nil_of_mem hd)] at hstep
  have hs' := Option.some.inj hstep
  have hnew : s'.Undelivered ⟨s.nextBatch, s.drainDeltas batchSize⟩ :=
    .inr ⟨g, by rw [← hs']; simp [setSession]⟩
  have hold : ∀ b, s.InFlight b → s'.InFlight b := by
    rintro b (hb | ⟨g', x, hx, rfl⟩)
    · exact .inl (by rw [← hs']; exact hb)
    · have hne : g' ≠ g := by rintro rfl; rw [hg] at hx; cases hx
      exact .inr ⟨g', x, by rw [← hs']; simpa [setSession, hne] using hx, rfl⟩
  have holdUnd : ∀ b, s.Undelivered b → s'.Undelivered b := by
    rintro b (hb | ⟨g', hx⟩)
    · exact .inl (by rw [← hs']; exact hb)
    · have hne : g' ≠ g := by rintro rfl; rw [hg] at hx; cases hx
      exact .inr ⟨g', by rw [← hs']; simpa [setSession, hne] using hx⟩
  have hid : ∀ b, s.InFlight b → b.id ≠ s.nextBatch := fun b hb => Nat.ne_of_lt (h.inv.id_lt_of_inFlight hb)
  by_cases hshared : ∃ b, s.InFlight b ∧ d ∈ b.deltas
  · -- the drain itself puts `d` into a second batch
    obtain ⟨b, hb, hdb⟩ := hshared
    exact ⟨[], s', rfl, fun hgood => hgood.1 b _ (hold b hb) hnew.inFlight (hid b hb) d hdb hd⟩
  by_cases hnode : ∃ b, s.Undelivered b ∧ ∃ d' ∈ b.deltas, d.SameNode d'
  · -- of the two undelivered batches the one with the newer delta arrives first
    obtain ⟨b, hb, d', hd', hsame⟩ := hnode
    have hne : d.seq ≠ d'.seq := by
      intro heq
      have hmem := ((h.inv.store.mem_pending d).1 (List.mem_of_mem_take hd)).1
      obtain rfl : d = d' := List.inj_on_of_nodup_map h.inv.store.seq_nodup hmem
        (h.inv.mem_history_of_inFlight hb.inFlight hd') heq
      exact hshared ⟨b, hb.inFlight, hd'⟩
    rcases Nat.lt_or_gt_of_ne hne with hlt | hlt
    · obtain ⟨as, t, hrun, hbad⟩ := hinv.exists_disorder batchSize hnew (holdUnd b hb)
        (hid b hb.inFlight).symm hd hd' hsame hlt
      exact ⟨as, t, hrun, fun hgood => hbad hgood.2⟩
    · obtain ⟨as, t, hrun, hbad⟩ := hinv.exists_disorder batchSize (holdUnd b hb) hnew
        (hid b hb.inFlight) hd' hd hsame.symm hlt
      exact ⟨as, t, hrun, fun hgood => hbad hgood.2⟩
  · -- the cloud has a newer delta of the node already
    obtain ⟨d', hd', hsame, hlt⟩ : ∃ d' ∈ s.received, d.SameNode d' ∧ d.seq < d'.seq := by
      by_contra hnone
      refine hok ⟨fun b hb hdb => hshared ⟨b, hb, hdb⟩,
        fun b hb d' hd' hsame => hnode ⟨b, hb, d', hd', hsame⟩, fun d' hd' hsame => ?_⟩
      by_contra hlt
      exact hnone ⟨d', hd', hsame, Nat.lt_of_not_le hlt⟩
    obtain ⟨as, t, hrun, -, hrec, -⟩ := hinv.exists_delivered batchSize hnew
    refine ⟨as, t, hrun, fun hgood => ?_⟩
    have hord := hgood.2
    rw [ReceivedInOrder, hrec, ← hs', List.pairwise_append] at hord
    have := hord.2.2 d' hd' d hd hsame.symm
    omega

/-- In a run whose drains are separate no delta is in two batches in flight and the cloud receives the
deltas of each node in the order of their numbers; after any other drain it can come out otherwise. -/
theorem separate_runs (batchSize : Nat) (tenantID : String) :
    (∀ as, Runs.Along (step batchSize) (Separate batchSize) (start tenantID) as →
      Runs.Always (step batchSize) (fun s => s.Disjoint ∧ s.ReceivedInOrder) (start tenantID) as) ∧
    ∀ as s g s', Runs.Along (step batchSize) (Separate batchSize) (start tenantID) as →
      Runs.run (step batchSize) (start tenantID) as = some s → s.step batchSize (.drain g) = some s' →
      ¬ s.Separate batchSize (.drain g) →
      ∃ bs, ¬ Runs.Always (step batchSize) (fun s => s.Disjoint ∧ s.ReceivedInOrder) (start tenantID)
        (as ++ .drain g :: bs) := by
  have hkeep : ∀ (s : SyncState) a s', s.Apart → s.Separate batchSize a → s.step batchSize a = some s' → s'.Apart :=
    fun s a s' hi hok hs => apart_step hi hok hs
  constructor
  · intro as h
    exact Runs.always_of_along hkeep (fun _ hi => ⟨hi.disjoint, hi.inOrder⟩) (apart_start tenantID) h
  · intro as s g s' h hrun hstep hok
    have hs : s.Apart := Runs.always_of_along hkeep (fun _ hi => hi) (apart_start tenantID) h as s
      (List.prefix_refl as) hrun
    obtain ⟨bs, t, hbs, hbad⟩ := hs.exists_violation hok hstep
    refine ⟨bs, fun hall => hbad (hall _ t (List.prefix_refl _) ?_)⟩
    rw [Runs.run_append, hrun, Option.bind_some, Runs.run, hstep, Option.bind_some, hbs]

/-- A `ForceSync` while the loop waits for its answer: both send the first delta, the loop's request is
slow, and the cloud has the second delta of the node when it arrives. -/
def forcedSync : List SyncAction :=
  let upsert now := [.store (.call 9 (.upsertNode ⟨"n1", "", ["File"], [], 0, 0, none, ""⟩ "") now),
    .store (.next 9), .store (.commit 9)]
  upsert 1 ++ [.drain 0, .post 0, .drain 1, .post 1, .deliver 1 [0], .decode 1, .ack 1] ++ upsert 2 ++
    [.drain 1, .post 1, .deliver 2 [1], .deliver 0 [0]]

theorem forcedSync_overwrites :
    ¬ ∀ as, Runs.Always (step 500) (fun s => s.Disjoint ∧ s.ReceivedInOrder) (start "t") as := by
  intro h
  have hlast := (h forcedSync forcedSync _ (List.prefix_refl _) rfl).2
  revert hlast
  decide

end SyncState

end Dgraphai.Proxy
