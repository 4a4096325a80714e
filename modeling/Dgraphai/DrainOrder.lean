import Dgraphai.SyncConfig
import Dgraphai.SyncOverlap

/-!
# A drain is a sorted prefix of the queue (`internal/store/store.go`)

The order of a drain is the byte order of its keys. A number is written with 20 digits, which every `uint64` fits,
so the keys of a queue are in the order of their numbers (`Store.Keyed.pending_sorted`) and the loop stops behind the
smallest (`drain_sorted_prefix`).
-/

namespace Dgraphai.Proxy

/-- A store whose queue holds well-formed records only: each item under the prefix of the queue is a delta at the key
of its number. -/
structure Queue where
  store : Store
  wellFormed : ∀ key v, store.kv[key]? = some v → ("d:" ++ store.tenantID ++ ":").toList.isPrefixOf key.toList →
    ∃ d, v = .delta d ∧ key = deltaKey store.tenantID d.seq ∧ d.seq < 2 ^ 64

namespace Queue

variable (q : Queue)

/-- `DrainDeltas` in its read-only transaction: what it returns, and the store behind it. -/
def drain (n : ℤ) : List DeltaRecord × Store := (q.store.drainDeltas n, q.store)

def Pending (d : DeltaRecord) : Prop := q.store.kv[deltaKey q.store.tenantID d.seq]? = some (.delta d)

/-- `writeDelta` of a record that has drawn its number. -/
def push (d : DeltaRecord) (h : d.seq < 2 ^ 64) : Queue where
  store := { q.store with kv := q.store.kv.put (deltaKey q.store.tenantID d.seq) (some (.delta d)) }
  wellFormed := by
    intro key v hv hprefix
    rw [KV.getElem?_put] at hv
    split_ifs at hv with hkey
    · exact ⟨d, (Option.some.inj hv).symm, hkey.symm, h⟩
    · exact q.wellFormed key v hv hprefix

variable {q}

theorem keyed : q.store.Keyed := by
  intro key v d hv hd
  obtain rfl := scanDelta_eq_some hd
  rw [scanDelta] at hd
  split_ifs at hd with hprefix
  obtain ⟨d', hd', hkey, hbound⟩ := q.wellFormed key _ hv hprefix
  obtain rfl := Value.delta.inj hd'
  exact ⟨hkey, hbound⟩

theorem mem_pending {d : DeltaRecord} : d ∈ q.store.pending ↔ q.Pending d := by
  constructor
  · intro h
    obtain ⟨⟨key, v⟩, hitem, hd⟩ := List.mem_filterMap.1 h
    have hv := Std.TreeMap.mem_toList_iff_getElem?_eq_some.1 hitem
    obtain ⟨rfl, -⟩ := q.keyed key v d hv hd
    obtain rfl := scanDelta_eq_some hd
    exact hv
  · intro h
    exact List.mem_filterMap.2
      ⟨_, Std.TreeMap.mem_toList_iff_getElem?_eq_some.2 h, scanDelta_deltaKey q.store.tenantID d.seq d⟩

/-- Records of any numbers can be pending; a number has one. -/
theorem pending_push {d d' : DeltaRecord} (h : d.seq < 2 ^ 64) :
    (q.push d h).Pending d' ↔ d' = d ∨ d'.seq ≠ d.seq ∧ q.Pending d' := by
  show (q.store.kv.put _ _)[deltaKey q.store.tenantID d'.seq]? = _ ↔ _
  rw [KV.getElem?_put]
  split_ifs with hkey
  · have hseq := deltaKey_inj hkey
    refine ⟨fun hd => .inl (Value.delta.inj (Option.some.inj hd)).symm, ?_⟩
    rintro (rfl | ⟨hne, -⟩)
    · rfl
    · exact absurd hseq.symm hne
  · have hne : d'.seq ≠ d.seq := fun heq => hkey (by rw [heq])
    refine ⟨fun hd => .inr ⟨hne, hd⟩, ?_⟩
    rintro (rfl | ⟨-, hd⟩)
    · exact absurd rfl hne
    · exact hd

variable (q) in
/-- A drain returns the first `n` of the pending deltas in the order of their numbers, and leaves the store. -/
theorem drain_sorted_prefix (n : ℕ) : ∃ sorted : List DeltaRecord,
    (∀ d, d ∈ sorted ↔ q.Pending d) ∧ sorted.Pairwise (fun a b => a.seq < b.seq) ∧
      q.drain n = (sorted.take n, q.store) := by
  refine ⟨q.store.pending, fun d => mem_pending, keyed.pending_sorted, ?_⟩
  rw [drain, drainDeltas_eq, Int.toNat_natCast]

end Queue

end Dgraphai.Proxy
