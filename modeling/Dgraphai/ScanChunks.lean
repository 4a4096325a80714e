import Dgraphai.AgentDelivery

/-!
# The chunks of a scan

`Chunked` relates the variables of `Sync` to the files that `Walk` has handed over: the counted chunks and
the open batch are these files in their order. A batch whose `sendDelta` failed stays open under its index,
and as `Walk` stops there, the last `flush` sends the same batch again. So the counted chunks are an initial
part of the scan however it ends (`sync_chunks`).
-/

namespace Dgraphai.AgentSync

open Dedup (Env Scanner)

/-- The file under the connector of the scan. -/
def Scan.stamp (scan : Scan) (info : FileInfo) : FileInfo := { info with connectorID := scan.connID }

/-- The files of the counted chunks. -/
def SyncState.indexed (st : SyncState) : List FileInfo := st.counted.flatMap (·.delta.files)

/-- The variables of `Sync` after the files `walked`. -/
structure Chunked (scan : Scan) (walked : List FileInfo) (st : SyncState) : Prop where
  index : st.counted.map (·.delta.chunkIndex) = List.range st.chunkIdx
  size : ∀ call ∈ st.counted, 1 ≤ call.delta.files.length ∧ call.delta.files.length ≤ batchSize
  files : st.indexed ++ st.batch = walked.map scan.stamp
  filesIndexed : st.filesIndexed = st.indexed.length

variable {E : Env} {scanner : Scanner} {client : Client} {scan : Scan} {st : SyncState} {walked : List FileInfo}

namespace Chunked

variable (E scanner client)

theorem start (w : World) : Chunked scan [] ⟨w, [], 0, 0, 0, []⟩ where
  index := rfl
  size _ hcall := absurd hcall List.not_mem_nil
  files := rfl
  filesIndexed := rfl

theorem push (h : Chunked scan walked st) (info : FileInfo) :
    Chunked scan (walked ++ [info]) (st.push scan info) where
  index := h.index
  size := h.size
  files := by
    show st.indexed ++ (st.batch ++ [scan.stamp info]) = _
    rw [← List.append_assoc, h.files, List.map_append, List.map_singleton]
  filesIndexed := h.filesIndexed

/-- `flush` keeps the files where they are or moves the batch to the counted chunks. -/
theorem flush (h : Chunked scan walked st) (hsize : st.batch.length ≤ batchSize) :
    Chunked scan walked (flush E scanner client scan st).2 ∧
      (flush E scanner client scan st).2.batch.length ≤ batchSize ∧
      ((flush E scanner client scan st).1 = none → (flush E scanner client scan st).2.batch = []) := by
  by_cases hne : st.batch = []
  · rw [AgentSync.flush, if_pos hne]
    exact ⟨h, hsize, fun _ => hne⟩
  have hpos : 1 ≤ st.batch.length := List.length_pos_of_ne_nil hne
  rcases flush_cases E scanner client scan hne with ⟨e, herr, hflush⟩ | ⟨herr, hflush⟩
  · -- the batch stays open
    have hcounted : (st.calls ++ [st.call E scanner client scan]).filter (·.err = none) = st.counted := by
      have herr' : (st.call E scanner client scan).err ≠ none := by
        show (st.send E scanner client scan).1 ≠ none
        rw [herr]
        exact Option.some_ne_none e
      rw [counted_concat, if_neg herr', List.append_nil, SyncState.counted]
    rw [hflush]
    refine ⟨⟨?_, ?_, ?_, ?_⟩, hsize, fun hnone => absurd hnone (Option.some_ne_none e)⟩
    · show List.map _ (List.filter _ _) = _
      rw [hcounted]
      exact h.index
    · show ∀ call ∈ List.filter _ _, _
      rw [hcounted]
      exact h.size
    · show List.flatMap _ (List.filter _ _) ++ _ = _
      rw [hcounted]
      exact h.files
    · show _ = (List.flatMap _ (List.filter _ _)).length
      rw [hcounted]
      exact h.filesIndexed
  · -- the batch is a chunk under the next index
    have hcounted : (st.calls ++ [st.call E scanner client scan]).filter (·.err = none) =
        st.counted ++ [st.call E scanner client scan] := by
      have herr' : (st.call E scanner client scan).err = none := herr
      rw [counted_concat, if_pos herr', SyncState.counted]
    have hfiles : (st.call E scanner client scan).delta.files = st.batch := rfl
    rw [hflush]
    refine ⟨⟨?_, ?_, ?_, ?_⟩, Nat.zero_le _, fun _ => rfl⟩
    · show List.map _ (List.filter _ _) = List.range (st.chunkIdx + 1)
      rw [hcounted, List.map_append, h.index, List.range_succ]
      rfl
    · show ∀ call : Call, call ∈ List.filter _ _ → _
      rw [hcounted]
      intro call hcall
      rcases List.mem_append.1 hcall with hcall | hcall
      · exact h.size call hcall
      · rw [List.mem_singleton.1 hcall, hfiles]
        exact ⟨hpos, hsize⟩
    · show List.flatMap _ (List.filter _ _) ++ [] = _
      rw [hcounted, List.flatMap_append, List.flatMap_singleton, hfiles, List.append_nil]
      exact h.files
    · show st.filesIndexed + st.batch.length = (List.flatMap _ (List.filter _ _)).length
      rw [hcounted, List.flatMap_append, List.flatMap_singleton, hfiles, List.length_append, h.filesIndexed]
      rfl

theorem onFile (h : Chunked scan walked st) (hsize : st.batch.length < batchSize) (info : FileInfo) :
    Chunked scan (walked ++ [info]) (onFile E scanner client scan st info).2 ∧
      (onFile E scanner client scan st info).2.batch.length ≤ batchSize ∧
      ((onFile E scanner client scan st info).1 = none →
        (onFile E scanner client scan st info).2.batch.length < batchSize) := by
  have hlength : (st.push scan info).batch.length = st.batch.length + 1 := by
    rw [SyncState.push, List.length_append, List.length_singleton]
  unfold AgentSync.onFile
  dsimp only
  split_ifs with hfull
  · obtain ⟨hchunked, hle, hempty⟩ := (h.push info).flush E scanner client (by omega)
    refine ⟨hchunked, hle, fun hnone => ?_⟩
    rw [hempty hnone]
    exact Nat.succ_pos _
  · have hlt : (st.push scan info).batch.length < batchSize := Nat.lt_of_not_le hfull
    exact ⟨h.push info, Nat.le_of_lt hlt, fun _ => hlt⟩

/-- `Walk` hands over the files up to the first error of its callback. -/
theorem walk (h : Chunked scan walked st) (hsize : st.batch.length < batchSize) (files : List FileInfo) :
    ∃ handed, handed <+: files ∧ Chunked scan (walked ++ handed) (walk E scanner client scan files st).2 ∧
      (walk E scanner client scan files st).2.batch.length ≤ batchSize ∧
      ((walk E scanner client scan files st).1 = none → handed = files) := by
  induction files generalizing st walked with
  | nil => exact ⟨[], List.nil_prefix, by rwa [List.append_nil], Nat.le_of_lt hsize, fun _ => rfl⟩
  | cons info files ih =>
    obtain ⟨hchunked, hle, hlt⟩ := h.onFile E scanner client hsize info
    rw [AgentSync.walk]
    rcases honFile : AgentSync.onFile E scanner client scan st info with ⟨_ | e, st'⟩
    · rw [honFile] at hchunked hlt
      obtain ⟨handed, hpre, hchunked', hle', hall⟩ := ih hchunked (hlt rfl)
      refine ⟨info :: handed, List.cons_prefix_cons.2 ⟨rfl, hpre⟩, ?_, hle', fun hnone => ?_⟩
      · rwa [List.append_assoc] at hchunked'
      · rw [hall hnone]
    · rw [honFile] at hchunked hle
      exact ⟨[info], List.cons_prefix_cons.2 ⟨rfl, List.nil_prefix⟩, hchunked, hle,
        fun hnone => absurd hnone (Option.some_ne_none e)⟩

end Chunked

/-- The chunks for which `sendDelta` returned nil are numbered from 0 in their order, hold 1 to `batchSize`
files each and together an initial part of the walked files, all of them where `Sync` returns nil;
`FilesIndexed` is their number. -/
theorem sync_chunks (E : Env) (scanner : Scanner) (client : Client) (scan : Scan) (files : List FileInfo)
    (walkErr : Option SendError) (w : World) :
    let r := sync E scanner client scan files walkErr w
    r.2.counted.map (·.delta.chunkIndex) = List.range r.2.counted.length ∧
      (∀ call ∈ r.2.counted, 1 ≤ call.delta.files.length ∧ call.delta.files.length ≤ batchSize) ∧
      r.2.indexed <+: files.map scan.stamp ∧ (r.1 = none → r.2.indexed = files.map scan.stamp) ∧
      r.2.filesIndexed = r.2.indexed.length := by
  intro r
  have hstart : Chunked scan [] ⟨w, [], 0, 0, 0, []⟩ := .start w
  obtain ⟨handed, hpre, hwalk, hle, hall⟩ := hstart.walk E scanner client (Nat.succ_pos _) files
  obtain ⟨hchunked, -, hempty⟩ := hwalk.flush E scanner client hle
  have hfiles : r.2.indexed ++ r.2.batch = handed.map scan.stamp := hchunked.files
  have hindex : r.2.counted.map (·.delta.chunkIndex) = List.range r.2.chunkIdx := hchunked.index
  have hlength : r.2.counted.length = r.2.chunkIdx := by
    rw [← List.length_range (n := r.2.chunkIdx), ← hindex, List.length_map]
  refine ⟨by rw [hlength, hindex], hchunked.size, ?_, fun hnone => ?_, hchunked.filesIndexed⟩
  · have hindexed : r.2.indexed <+: handed.map scan.stamp := ⟨r.2.batch, hfiles⟩
    exact hindexed.trans (hpre.map scan.stamp)
  · obtain ⟨hwalked, hflush⟩ := Option.or_eq_none_iff.1 hnone
    have hbatch : r.2.batch = [] := hempty hflush
    rw [hbatch, List.append_nil, hall (Option.or_eq_none_iff.1 hwalked).1] at hfiles
    exact hfiles

end Dgraphai.AgentSync
