import Dgraphai.ScannerSync
import Dgraphai.Lib.PyDict
import Dgraphai.Lib.Separated
import Mathlib.Data.List.Lex
import Mathlib.Data.List.Sort
import Mathlib.Data.Char

/-!
# The scanner agent's queue on disk (`scanner-agent/src/sync/client.py`)

`_enqueue_chunk` writes a chunk that was not sent to a file, and `flush_queue` reads the files in the order of
their names. A name holds the index of its chunk in decimal digits, of any number, so the names have the order
of the chunks as long as the digits are one (`fileName_lt`), and `"10_"` comes before `"1_"`. A job that syncs
several deltas numbers the chunks of each from zero (`replays_iff`).
-/

namespace Dgraphai.ScannerSync

open Dedup (DeltaChunk)

/-- A directory: the files by their names. -/
abbrev Files := PyDict (List Char) DeltaChunk

/-- An `int` in an f-string. -/
def digits (n : ℤ) : List Char :=
  if n < 0 then '-' :: Nat.toDigits 10 n.natAbs else Nat.toDigits 10 n.natAbs

def suffix : List Char := ['.', 'j', 's', 'o', 'n']

/-- The name that `_enqueue_chunk` takes at `time`. -/
def fileName (chunk : DeltaChunk) (time : ℤ) : List Char :=
  chunk.scanJobID.toList ++ '_' :: (digits chunk.chunkIndex ++ '_' :: (digits time ++ suffix))

/-- `_enqueue_chunk`, with the time it reads; a file of that name is replaced. -/
def enqueueChunk (dir : Files) (write : DeltaChunk × ℤ) : Files := dir.set (fileName write.1 write.2) write.1

/-- `sorted(_QUEUE_DIR.glob("*.json"))`. -/
def queued (dir : Files) : List (List Char) :=
  (dir.keys.filter fun name => suffix.isSuffixOf name).insertionSort (· ≤ ·)

/-- What a `flush_queue` does: the chunks it sends, the directory, and `sent`. -/
structure Flush where
  calls : List DeltaChunk
  dir : Files
  sent : ℕ

/-- The body of the loop; `accepted` tells whether the chunk of a file gets through. -/
def flushFile (accepted : List Char → Bool) (f : Flush) (name : List Char) : Flush :=
  match f.dir.get? name with
  | none => f
  | some chunk =>
    if accepted name then ⟨f.calls ++ [chunk], f.dir.erase name, f.sent + 1⟩
    else { f with calls := f.calls ++ [chunk] }

def flushQueue (accepted : List Char → Bool) (dir : Files) : Flush :=
  (queued dir).foldl (flushFile accepted) ⟨[], dir, 0⟩

/-- The directory after one `flush_queue` after the other. -/
def flushes (rounds : List (List Char → Bool)) (dir : Files) : Files :=
  rounds.foldl (fun dir accepted => (flushQueue accepted dir).dir) dir

/-- A delta none of whose chunks got through. -/
structure Unsent where
  client : SyncClient
  delta : Delta
  /-- A job id names a file, not a path. -/
  named : '/' ∉ delta.jobID.toList
  now : ℕ → String
  parts : List Part
  cut : ScannerSync.parts client delta = some parts
  /-- `int(time.time())` when the i-th chunk is written. -/
  written : ℕ → ℤ

namespace Unsent

def jobID (u : Unsent) : String := u.delta.jobID

def chunk (u : Unsent) (part : Part) : DeltaChunk := payload u.client u.delta u.now u.parts.length part

/-- The chunks that `_enqueue_chunk` is called with. -/
def writes (u : Unsent) : List (DeltaChunk × ℤ) := u.parts.map fun part => (u.chunk part, u.written part.index)

/-- The chunk size cuts the delta into ten chunks at most. -/
def Fits (u : Unsent) : Prop :=
  u.client.chunkSize < 0 ∨
    u.delta.nodes.length ≤ 10 * u.client.chunkSize ∧ u.delta.edges.length ≤ 10 * u.client.chunkSize

end Unsent

/-- Of two chunks of a job the one with the lower index comes first, and the final one does not. -/
def Before (a b : DeltaChunk) : Prop :=
  a.scanJobID = b.scanJobID → a.chunkIndex < b.chunkIndex ∧ a.isFinal = false

/-- The chunks of each job are sent by increasing index, the final one last. -/
def InOrder (calls : List DeltaChunk) : Prop := calls.Pairwise Before

/-- However the writes of some deltas come one after the other, each keeps its own file; and every `flush_queue`
from then on sends what is queued, in order, and leaves what is not accepted. -/
def Replays (us : List Unsent) : Prop :=
  ∀ writes : List (DeltaChunk × ℤ), writes.Perm (us.flatMap Unsent.writes) →
    (writes.foldl enqueueChunk PyDict.empty).values = writes.map Prod.fst ∧
      ∀ (rounds : List (List Char → Bool)) (accepted : List Char → Bool),
        let dir := flushes rounds (writes.foldl enqueueChunk PyDict.empty)
        let f := flushQueue accepted dir
        f.calls.Perm dir.values ∧ InOrder f.calls ∧
          f.dir.entries = dir.entries.filter fun e => ! accepted e.1

/-! ### File names -/

theorem digits_natCast (n : ℕ) : digits n = Nat.toDigits 10 n := by
  rw [digits, if_neg (by omega), Int.natAbs_natCast]

theorem digits_inj {m n : ℤ} (h : digits m = digits n) : m = n := by
  have habs : ∀ {a b : ℕ}, Nat.toDigits 10 a = Nat.toDigits 10 b → a = b := by
    intro a b hab
    have hread := congrArg (fun l => Nat.ofDigitChars 10 l 0) hab
    simp only [Nat.ofDigitChars_toDigits (by omega : 1 < 10) (by omega : 10 ≤ 10)] at hread
    exact hread
  have hminus : ∀ {a b : ℕ}, '-' :: Nat.toDigits 10 a ≠ Nat.toDigits 10 b := by
    intro a b hab
    have hdigit : '-'.isDigit = true :=
      Nat.isDigit_of_mem_toDigits (by omega : 0 < 10) (by omega : 10 ≤ 10) (hab ▸ List.mem_cons_self)
    exact absurd hdigit (by decide)
  unfold digits at h
  split_ifs at h with hm hn hn
  · have := habs (List.cons.inj h).2
    omega
  · exact absurd h hminus
  · exact absurd h.symm hminus
  · have := habs h
    omega

theorem underscore_notMem_digits (n : ℤ) : '_' ∉ digits n := by
  have hdigits : '_' ∉ Nat.toDigits 10 n.natAbs := fun h =>
    absurd (Nat.isDigit_of_mem_toDigits (by omega : 0 < 10) (by omega : 10 ≤ 10) h) (by decide)
  unfold digits
  split_ifs
  · rw [List.mem_cons, not_or]
    exact ⟨by decide, hdigits⟩
  · exact hdigits

theorem underscore_notMem_stamp (time : ℤ) : '_' ∉ digits time ++ suffix := by
  rw [List.mem_append, not_or]
  exact ⟨underscore_notMem_digits time, by decide⟩

theorem fileName_inj {a b : DeltaChunk} {s t : ℤ} (h : fileName a s = fileName b t) :
    a.scanJobID = b.scanJobID ∧ a.chunkIndex = b.chunkIndex ∧ s = t := by
  have hsplit : ∀ (c : DeltaChunk) (r : ℤ), fileName c r =
      (c.scanJobID.toList ++ '_' :: digits c.chunkIndex) ++ '_' :: (digits r ++ suffix) := fun c r => by
    rw [fileName, List.append_assoc, List.cons_append]
  rw [hsplit, hsplit] at h
  obtain ⟨hfront, htime⟩ := Separated.append_sep_inj h (underscore_notMem_stamp s) (underscore_notMem_stamp t)
  obtain ⟨hjob, hindex⟩ := Separated.append_sep_inj hfront (underscore_notMem_digits _) (underscore_notMem_digits _)
  exact ⟨String.toList_inj.1 hjob, digits_inj hindex, digits_inj (List.append_cancel_right htime)⟩

theorem suffix_isSuffixOf_fileName (c : DeltaChunk) (time : ℤ) : suffix.isSuffixOf (fileName c time) = true := by
  rw [List.isSuffixOf_iff_suffix]
  exact ⟨c.scanJobID.toList ++ '_' :: (digits c.chunkIndex ++ '_' :: digits time), by
    simp only [fileName, List.append_assoc, List.cons_append]⟩

theorem digitChar_lt : ∀ j < 10, ∀ i < j, Nat.digitChar i < Nat.digitChar j := by decide

/-- Among indices of one digit the names of a job are in the order of the chunks. -/
theorem fileName_lt {a b : DeltaChunk} {s t : ℤ} {i j : ℕ} (hjob : a.scanJobID = b.scanJobID)
    (ha : a.chunkIndex = i) (hb : b.chunkIndex = j) (hij : i < j) (hj : j < 10) : fileName a s < fileName b t := by
  rw [fileName, fileName, hjob, ha, hb, digits_natCast, digits_natCast, Nat.toDigits_of_lt_base (by omega),
    Nat.toDigits_of_lt_base hj]
  refine List.append_left_lt (List.cons_lt_cons_iff.2 (.inr ⟨rfl, List.cons_lt_cons_iff.2 (.inl ?_)⟩))
  exact digitChar_lt j hj i hij

/-- The eleventh chunk of a job comes before the second. -/
theorem fileName_ten_lt_one {a b : DeltaChunk} (s t : ℤ) (hjob : a.scanJobID = b.scanJobID)
    (ha : a.chunkIndex = 10) (hb : b.chunkIndex = 1) : fileName a s < fileName b t := by
  rw [fileName, fileName, hjob, ha, hb]
  refine List.append_left_lt (List.cons_lt_cons_iff.2 (.inr ⟨rfl, ?_⟩))
  show '1' :: '0' :: _ < '1' :: '_' :: _
  exact List.cons_lt_cons_iff.2 (.inr ⟨rfl, List.cons_lt_cons_iff.2 (.inl (by decide))⟩)

/-! ### `flush_queue` -/

/-- A file that is accepted is gone, and nothing else. -/
theorem entries_flushFile (accepted : List Char → Bool) (f : Flush) (name : List Char) :
    (flushFile accepted f name).dir.entries = f.dir.entries.filter fun e => ! (e.1 = name && accepted name) := by
  have hkeep : ∀ p : List Char × DeltaChunk → Bool, (∀ e ∈ f.dir.entries, p e = true) →
      f.dir.entries = f.dir.entries.filter p := fun p hp => (List.filter_eq_self.2 hp).symm
  unfold flushFile
  cases hget : f.dir.get? name with
  | none =>
    refine hkeep _ fun e he => ?_
    have hne : e.1 ≠ name := fun h => Option.some_ne_none e.2 ((PyDict.get?_of_mem he).symm.trans (h ▸ hget))
    rw [decide_eq_false hne]
    rfl
  | some chunk =>
    cases haccepted : accepted name with
    | true =>
      show f.dir.entries.filter _ = _
      refine List.filter_congr fun e _ => ?_
      rw [Bool.and_true, decide_not]
    | false =>
      refine hkeep _ fun e _ => ?_
      rw [Bool.and_false]
      rfl

theorem calls_flushFile (accepted : List Char → Bool) (f : Flush) (name : List Char) :
    (flushFile accepted f name).calls = f.calls ++ (f.dir.get? name).toList := by
  unfold flushFile
  cases f.dir.get? name with
  | none => exact (List.append_nil _).symm
  | some chunk => cases accepted name <;> rfl

theorem get?_flushFile {accepted : List Char → Bool} {f : Flush} {name other : List Char} (h : other ≠ name) :
    (flushFile accepted f name).dir.get? other = f.dir.get? other := by
  refine Option.ext fun chunk => ?_
  rw [PyDict.get?_eq_some_iff, PyDict.get?_eq_some_iff, entries_flushFile, List.mem_filter, decide_eq_false h]
  exact and_iff_left rfl

/-- The loop reads each file as it found it. -/
theorem foldl_flushFile (accepted : List Char → Bool) {names : List (List Char)} (hnames : names.Nodup) (f : Flush) :
    (names.foldl (flushFile accepted) f).calls = f.calls ++ names.filterMap f.dir.get? ∧
      (names.foldl (flushFile accepted) f).dir.entries =
        f.dir.entries.filter fun e => ! (e.1 ∈ names && accepted e.1) := by
  induction names generalizing f with
  | nil =>
    refine ⟨(List.append_nil _).symm, (List.filter_eq_self.2 fun e _ => ?_).symm⟩
    rw [decide_eq_false List.not_mem_nil]
    rfl
  | cons name names ih =>
    obtain ⟨hname, hnames⟩ := List.nodup_cons.1 hnames
    obtain ⟨hcalls, hentries⟩ := ih hnames (flushFile accepted f name)
    have hrest : names.filterMap (flushFile accepted f name).dir.get? = names.filterMap f.dir.get? :=
      List.filterMap_congr fun other hother => get?_flushFile fun h => hname (h ▸ hother)
    constructor
    · rw [List.foldl_cons, hcalls, calls_flushFile, hrest, List.append_assoc, List.filterMap_cons]
      cases f.dir.get? name <;> rfl
    · rw [List.foldl_cons, hentries, entries_flushFile, List.filter_filter]
      refine List.filter_congr fun e _ => ?_
      by_cases h : e.1 = name
      · rw [h, decide_eq_false hname, decide_eq_true (List.mem_cons_self)]
        simp
      · simp [h]

/-- The files are all files of the queue. -/
def Queue (dir : Files) : Prop := ∀ e ∈ dir.entries, suffix.isSuffixOf e.1 = true

variable {dir : Files} (accepted : List Char → Bool)

theorem queued_perm (hqueue : Queue dir) : (queued dir).Perm dir.keys := by
  have hall : dir.keys.filter (fun name => suffix.isSuffixOf name) = dir.keys := by
    refine List.filter_eq_self.2 fun name hname => ?_
    obtain ⟨e, he, rfl⟩ := List.mem_map.1 hname
    exact hqueue e he
  rw [queued, hall]
  exact List.perm_insertionSort (· ≤ ·) dir.keys

theorem nodup_queued (dir : Files) : (queued dir).Nodup :=
  (List.perm_insertionSort _ _).nodup_iff.2 (dir.keyed.sublist List.filter_sublist)

theorem sorted_queued (dir : Files) : (queued dir).Pairwise (· < ·) := by
  have hsorted : (queued dir).Pairwise (· ≤ ·) := List.pairwise_insertionSort (· ≤ ·) _
  exact (hsorted.and (nodup_queued dir)).imp fun h => lt_of_le_of_ne h.1 h.2

theorem calls_flushQueue (dir : Files) : (flushQueue accepted dir).calls = (queued dir).filterMap dir.get? :=
  (foldl_flushFile accepted (nodup_queued dir) ⟨[], dir, 0⟩).1

theorem entries_flushQueue (hqueue : Queue dir) :
    (flushQueue accepted dir).dir.entries = dir.entries.filter fun e => ! accepted e.1 := by
  refine (foldl_flushFile accepted (nodup_queued dir) ⟨[], dir, 0⟩).2.trans (List.filter_congr fun e he => ?_)
  have hmem : e.1 ∈ queued dir := (queued_perm hqueue).mem_iff.2 (List.mem_map_of_mem he)
  rw [decide_eq_true hmem, Bool.true_and]

/-- Each queued chunk is sent once. -/
theorem calls_perm (hqueue : Queue dir) : (flushQueue accepted dir).calls.Perm dir.values := by
  have hread : dir.keys.filterMap dir.get? = dir.values := by
    have hmap : dir.keys.filterMap dir.get? = (dir.keys.map dir.get?).filterMap id := by
      rw [List.filterMap_map, Function.id_comp]
    rw [hmap, PyDict.map_get?_keys, List.filterMap_map]
    exact List.filterMap_some
  rw [calls_flushQueue, ← hread]
  exact (queued_perm hqueue).filterMap dir.get?

/-- In a sorted list the elements are related in the order they have. -/
theorem rel_of_lt {α : Type*} [Preorder α] {l : List α} {R : α → α → Prop} {a b : α}
    (hsorted : l.Pairwise (· < ·)) (hrel : l.Pairwise R) (ha : a ∈ l) (hb : b ∈ l) (hlt : a < b) : R a b :=
  List.Pairwise.forall_of_forall_of_flip (R := fun x y => x < y → R x y) (fun x _ hx => absurd hx (lt_irrefl x))
    (hrel.imp (S := fun x y => x < y → R x y) fun h _ => h) (hsorted.imp fun h h' => absurd h (lt_asymm h')) ha hb hlt

/-- A flush is in order when the names of the files are. -/
theorem inOrder_calls_iff (hqueue : Queue dir) : InOrder (flushQueue accepted dir).calls ↔
    ∀ e ∈ dir.entries, ∀ e' ∈ dir.entries, e.1 < e'.1 → Before e.2 e'.2 := by
  rw [InOrder, calls_flushQueue, List.pairwise_filterMap]
  constructor
  · intro hcalls e he e' he' hlt
    have hmem : ∀ e ∈ dir.entries, e.1 ∈ queued dir := fun e he =>
      (queued_perm hqueue).mem_iff.2 (List.mem_map_of_mem he)
    exact rel_of_lt (sorted_queued dir) hcalls (hmem e he) (hmem e' he') hlt _ (PyDict.get?_of_mem he) _
      (PyDict.get?_of_mem he')
  · intro hnames
    refine (sorted_queued dir).imp fun hlt c hc c' hc' => ?_
    exact hnames _ (PyDict.mem_of_get? hc) _ (PyDict.mem_of_get? hc') hlt

/-! ### What a delta writes -/

theorem map_index_parts {client : SyncClient} {delta : Delta} {ps : List Part} (h : parts client delta = some ps) :
    ps.map (·.index) = List.range ps.length := by
  obtain ⟨nodeChunks, _, h⟩ := Option.bind_eq_some_iff.1 h
  obtain ⟨edgeChunks, _, h⟩ := Option.bind_eq_some_iff.1 h
  rw [← Option.some.inj h, List.map_map, List.length_map, List.length_zipIdx]
  exact (List.zipIdx_map_snd _ _).trans List.range_eq_range'.symm

theorem length_chunks_le {α : Type*} {lst : List α} {size : ℤ} {cs : List (List α)} (h : chunks lst size = some cs) :
    cs.length ≤ 10 ↔ size < 0 ∨ lst.length ≤ 10 * size := by
  unfold chunks at h
  split_ifs at h with hnil hzero
  · rw [← Option.some.inj h, hnil, List.length_singleton, List.length_nil]
    omega
  · rw [← Option.some.inj h, List.length_map, List.length_range]
    rcases Int.lt_or_gt_of_ne hzero with hneg | hpos
    · rw [Int.toNat_of_nonpos hneg.le, Nat.div_zero]
      exact iff_of_true (Nat.zero_le _) (.inl hneg)
    · have hsize : 0 < size.toNat := by omega
      rw [← Nat.lt_succ_iff, Nat.div_lt_iff_lt_mul hsize]
      omega

theorem length_parts_le {client : SyncClient} {delta : Delta} {ps : List Part} (h : parts client delta = some ps) :
    0 < ps.length ∧ (ps.length ≤ 10 ↔ client.chunkSize < 0 ∨
      delta.nodes.length ≤ 10 * client.chunkSize ∧ delta.edges.length ≤ 10 * client.chunkSize) := by
  obtain ⟨nodeChunks, hnodes, h⟩ := Option.bind_eq_some_iff.1 h
  obtain ⟨edgeChunks, hedges, h⟩ := Option.bind_eq_some_iff.1 h
  have hn := length_chunks_le hnodes
  have he := length_chunks_le hedges
  have hlength : ps.length = max (max nodeChunks.length edgeChunks.length) 1 := by
    rw [← Option.some.inj h, List.length_map, List.length_zipIdx, List.length_zip, length_pad (by omega),
      length_pad (by omega), Nat.min_self]
  omega

namespace Unsent

variable {u : Unsent}

theorem fits_iff : u.Fits ↔ u.parts.length ≤ 10 := (length_parts_le u.cut).2.symm

theorem index_lt {part : Part} (h : part ∈ u.parts) : part.index < u.parts.length := by
  rw [← List.mem_range, ← map_index_parts u.cut]
  exact List.mem_map_of_mem h

theorem exists_part {i : ℕ} (h : i < u.parts.length) : ∃ part ∈ u.parts, part.index = i := by
  rw [← List.mem_range, ← map_index_parts u.cut] at h
  exact List.mem_map.1 h

end Unsent

/-- What a write of some deltas is of. -/
theorem mem_writes {us : List Unsent} {w : DeltaChunk × ℤ} (h : w ∈ us.flatMap Unsent.writes) :
    ∃ u ∈ us, ∃ part ∈ u.parts, w = (u.chunk part, u.written part.index) := by
  obtain ⟨u, hu, hw⟩ := List.mem_flatMap.1 h
  obtain ⟨part, hpart, rfl⟩ := List.mem_map.1 hw
  exact ⟨u, hu, part, hpart, rfl⟩

theorem mem_writes_of {us : List Unsent} {u : Unsent} (hu : u ∈ us) {part : Part} (hpart : part ∈ u.parts) :
    (u.chunk part, u.written part.index) ∈ us.flatMap Unsent.writes :=
  List.mem_flatMap.2 ⟨u, hu, List.mem_map.2 ⟨part, hpart, rfl⟩⟩

/-- Each chunk of each job once. -/
def Apart (writes : List (DeltaChunk × ℤ)) : Prop :=
  writes.Pairwise fun w w' => w.1.scanJobID = w'.1.scanJobID → w.1.chunkIndex ≠ w'.1.chunkIndex

theorem apart_flatMap_writes {us : List Unsent} : Apart (us.flatMap Unsent.writes) ↔ (us.map Unsent.jobID).Nodup := by
  rw [Apart, List.pairwise_flatMap, List.Nodup, List.pairwise_map]
  constructor
  · rintro ⟨-, hacross⟩
    refine hacross.imp fun {u u'} h hjob => ?_
    obtain ⟨part, hpart, hindex⟩ := u.exists_part (length_parts_le u.cut).1
    obtain ⟨part', hpart', hindex'⟩ := u'.exists_part (length_parts_le u'.cut).1
    refine h _ (List.mem_map_of_mem hpart) _ (List.mem_map_of_mem hpart') hjob ?_
    show (part.index : ℤ) = part'.index
    rw [hindex, hindex']
  · intro hjobs
    constructor
    · intro u _
      have hindices : u.parts.Pairwise fun p p' => p.index ≠ p'.index := by
        rw [← List.pairwise_map, map_index_parts u.cut]
        exact List.nodup_range
      exact List.pairwise_map.2 (hindices.imp fun h _ heq => h (Int.ofNat.inj heq))
    · refine hjobs.imp fun {u u'} h w hw w' hw' hjob => absurd ?_ h
      obtain ⟨part, _, rfl⟩ := List.mem_map.1 hw
      obtain ⟨part', _, rfl⟩ := List.mem_map.1 hw'
      exact hjob

theorem apart_perm {writes writes' : List (DeltaChunk × ℤ)} (h : writes.Perm writes') : Apart writes ↔ Apart writes' :=
  h.pairwise_iff fun h hjob heq => h hjob.symm heq.symm

/-- Writes of different chunks are all kept. -/
theorem entries_of_apart {writes : List (DeltaChunk × ℤ)} (h : Apart writes) :
    (writes.foldl enqueueChunk PyDict.empty).entries = writes.map fun w => (fileName w.1 w.2, w.1) := by
  have hnames : ((writes.map fun w => (fileName w.1 w.2, w.1)).map Prod.fst).Nodup := by
    rw [List.map_map, List.Nodup, List.pairwise_map]
    refine h.imp fun hne hname => ?_
    obtain ⟨hjob, hindex, -⟩ := fileName_inj hname
    exact hne hjob hindex
  have hset := PyDict.entries_foldl_set (writes.map fun w => (fileName w.1 w.2, w.1)) PyDict.empty (by exact hnames)
  rw [List.foldl_map] at hset
  exact hset

theorem queue_foldl_enqueueChunk (writes : List (DeltaChunk × ℤ)) {dir : Files} (hqueue : Queue dir) :
    Queue (writes.foldl enqueueChunk dir) := by
  induction writes generalizing dir with
  | nil => exact hqueue
  | cons w writes ih =>
    refine ih fun e he => ?_
    rcases PyDict.mem_set he with heq | he
    · rw [(Prod.mk.inj heq).1]
      exact suffix_isSuffixOf_fileName w.1 w.2
    · exact hqueue e he

theorem queue_empty : Queue PyDict.empty := fun _ he => absurd he List.not_mem_nil

theorem flushes_sublist (rounds : List (List Char → Bool)) {dir : Files} (hqueue : Queue dir) :
    (flushes rounds dir).entries.Sublist dir.entries := by
  induction rounds generalizing dir with
  | nil => exact List.Sublist.refl _
  | cons accepted rounds ih =>
    have hkept : (flushQueue accepted dir).dir.entries.Sublist dir.entries := by
      rw [entries_flushQueue accepted hqueue]
      exact List.filter_sublist
    exact (ih fun e he => hqueue e (hkept.subset he)).trans hkept

/-- The names of jobs that write ten chunks at most are in the order of their chunks. -/
theorem before_of_fileName_lt {us : List Unsent} (hjobs : (us.map Unsent.jobID).Nodup) (hfits : ∀ u ∈ us, u.Fits)
    {w w' : DeltaChunk × ℤ} (hw : w ∈ us.flatMap Unsent.writes) (hw' : w' ∈ us.flatMap Unsent.writes)
    (hlt : fileName w.1 w.2 < fileName w'.1 w'.2) : Before w.1 w'.1 := by
  intro hjob
  obtain ⟨u, hu, part, hpart, rfl⟩ := mem_writes hw
  obtain ⟨u', hu', part', hpart', rfl⟩ := mem_writes hw'
  obtain rfl : u = u' := List.inj_on_of_nodup_map hjobs hu hu' hjob
  have hten := Unsent.fits_iff.1 (hfits u hu)
  have hindex := Unsent.index_lt hpart
  have hindex' := Unsent.index_lt hpart'
  rcases Nat.lt_trichotomy part.index part'.index with h | h | h
  · refine ⟨Int.ofNat_lt.2 h, decide_eq_false ?_⟩
    omega
  · have hsame : fileName (u.chunk part) (u.written part.index) = fileName (u.chunk part') (u.written part'.index) := by
      simp only [fileName, Unsent.chunk, payload, h]
    exact absurd hlt (hsame ▸ lt_irrefl _)
  · have hgt : fileName (u.chunk part') (u.written part'.index) < fileName (u.chunk part) (u.written part.index) :=
      fileName_lt hjob.symm rfl rfl h (by omega)
    exact absurd hlt (lt_asymm hgt)

/-- The second and the eleventh chunk of a job are sent the wrong way round. -/
theorem fits_of_inOrder {us : List Unsent} {dir : Files} (hqueue : Queue dir)
    (hentries : dir.entries = (us.flatMap Unsent.writes).map fun w => (fileName w.1 w.2, w.1))
    (horder : InOrder (flushQueue accepted dir).calls) {u : Unsent} (hu : u ∈ us) : u.Fits := by
  rw [Unsent.fits_iff]
  by_contra hmore
  obtain ⟨second, hsecond, hone⟩ := u.exists_part (i := 1) (by omega)
  obtain ⟨eleventh, heleventh, hten⟩ := u.exists_part (i := 10) (by omega)
  have hmem : ∀ part ∈ u.parts,
      (fileName (u.chunk part) (u.written part.index), u.chunk part) ∈ dir.entries := fun part hpart => by
    rw [hentries]
    exact List.mem_map.2 ⟨_, mem_writes_of hu hpart, rfl⟩
  have hindex : ∀ part : Part, (u.chunk part).chunkIndex = part.index := fun _ => rfl
  have hlt := fileName_ten_lt_one (a := u.chunk eleventh) (b := u.chunk second) (u.written eleventh.index)
    (u.written second.index) rfl (by rw [hindex, hten]; rfl) (by rw [hindex, hone]; rfl)
  have hbefore := (inOrder_calls_iff accepted hqueue).1 horder _ (hmem eleventh heleventh) _ (hmem second hsecond) hlt rfl
  have hwrong := hbefore.1
  rw [hindex, hindex] at hwrong
  omega

theorem apart_and_fits_of_replays {us : List Unsent} (h : Replays us) :
    (us.map Unsent.jobID).Nodup ∧ ∀ u ∈ us, u.Fits := by
  obtain ⟨hvalues, hrounds⟩ := h _ (List.Perm.refl _)
  obtain ⟨hcalls, horder, -⟩ := hrounds [] fun _ => false
  have hsent := horder.imp (S := fun a b => a.scanJobID = b.scanJobID → a.chunkIndex ≠ b.chunkIndex)
    fun hbefore hjob => (hbefore hjob).1.ne
  rw [hcalls.pairwise_iff fun h hjob heq => h hjob.symm heq.symm] at hsent
  have hwritten : ((us.flatMap Unsent.writes).map Prod.fst).Pairwise fun a b =>
      a.scanJobID = b.scanJobID → a.chunkIndex ≠ b.chunkIndex := hvalues ▸ hsent
  have hapart : Apart (us.flatMap Unsent.writes) := List.pairwise_map.1 hwritten
  refine ⟨apart_flatMap_writes.1 hapart, fun u hu => ?_⟩
  have hqueue := queue_foldl_enqueueChunk (us.flatMap Unsent.writes) queue_empty
  exact fits_of_inOrder _ hqueue (entries_of_apart hapart) horder hu

theorem replays_of_apart {us : List Unsent} (hjobs : (us.map Unsent.jobID).Nodup) (hfits : ∀ u ∈ us, u.Fits) :
    Replays us := by
  intro writes hwrites
  have hentries := entries_of_apart ((apart_perm hwrites).2 (apart_flatMap_writes.2 hjobs))
  have hqueue := queue_foldl_enqueueChunk writes queue_empty
  refine ⟨?_, fun rounds accepted => ?_⟩
  · rw [PyDict.values, hentries, List.map_map]
    rfl
  · have hkept := flushes_sublist rounds hqueue
    have hrest : Queue (flushes rounds (writes.foldl enqueueChunk PyDict.empty)) := fun e he =>
      hqueue e (hkept.subset he)
    refine ⟨calls_perm accepted hrest, (inOrder_calls_iff accepted hrest).2 ?_, entries_flushQueue accepted hrest⟩
    intro e he e' he' hlt
    have hwritten : ∀ e ∈ (flushes rounds (writes.foldl enqueueChunk PyDict.empty)).entries,
        ∃ w ∈ us.flatMap Unsent.writes, (fileName w.1 w.2, w.1) = e := fun e he => by
      obtain ⟨w, hw, heq⟩ := List.mem_map.1 (hentries ▸ hkept.subset he)
      exact ⟨w, hwrites.mem_iff.1 hw, heq⟩
    obtain ⟨w, hw, rfl⟩ := hwritten e he
    obtain ⟨w', hw', rfl⟩ := hwritten e' he'
    exact before_of_fileName_lt hjobs hfits hw hw' hlt

/-- The chunks of the queue are replayed in order just when each job has one delta, of ten chunks at most. -/
theorem replays_iff (us : List Unsent) :
    Replays us ↔ (us.map Unsent.jobID).Nodup ∧ ∀ u ∈ us, u.Fits :=
  ⟨apart_and_fits_of_replays, fun h => replays_of_apart h.1 h.2⟩

/-- Eleven nodes in chunks of one. -/
def eleven : Unsent where
  client := ⟨"s", "t", 1⟩
  delta := ⟨"job", List.replicate 11 [], [], 11, 11, 0⟩
  named := by decide
  now := fun _ => ""
  parts := (parts ⟨"s", "t", 1⟩ ⟨"job", List.replicate 11 [], [], 11, 11, 0⟩).getD []
  cut := rfl
  written := fun _ => 0

theorem eleventh_before_second : ¬ Replays [eleven] := by
  intro h
  rcases (apart_and_fits_of_replays h).2 eleven (List.mem_singleton.2 rfl) with hneg | ⟨hnodes, -⟩
  · exact absurd hneg (by decide)
  · exact absurd hnodes (by decide)

end Dgraphai.ScannerSync
