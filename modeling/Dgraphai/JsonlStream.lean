import Dgraphai.Lib.JsonLines
import Dgraphai.WebDataset

/-!
# `stream_jsonl` (`streaming/formats.py`)

A chunk for each row: its JSON text in UTF-8, and a line feed. Wherever the response breaks off, the lines that came
whole read back as the first rows, and as all of them where it does not (`jsonl_readsBack`).
-/

namespace Dgraphai.Streaming

open Tar (Bytes)
open JsonText (escapes_escapeRaw)

/-- The chunks of `stream_jsonl`. -/
def streamJsonl (rows : List Json.Fields) : List Bytes :=
  rows.map fun row => PyText.encode (JsonLines.line JsonText.escapeRaw .spaced (.obj row))

/-- Where a stream breaks off: behind some chunks, and inside the next. -/
theorem exists_cut {cs : List Bytes} {received : Bytes} (h : received <+: cs.flatten) :
    ∃ k part, received = (cs.take k).flatten ++ part ∧
      (cs[k]? = none ∧ part = [] ∨ ∃ c, cs[k]? = some c ∧ part <+: c ∧ part ≠ c) := by
  induction cs generalizing received with
  | nil => exact ⟨0, received, rfl, .inl ⟨rfl, List.prefix_nil.1 h⟩⟩
  | cons c cs ih =>
    by_cases hc : c <+: received
    · obtain ⟨later, rfl⟩ := hc
      obtain ⟨k, part, rfl, hpart⟩ := ih ((List.prefix_append_right_inj c).1 h)
      exact ⟨k + 1, part, (List.append_assoc _ _ _).symm, hpart⟩
    · have hinside : received <+: c := (List.prefix_or_prefix_of_prefix h (List.prefix_append c _)).resolve_right hc
      exact ⟨0, received, rfl, .inr ⟨c, rfl, hinside, fun heq => hc (heq ▸ List.prefix_rfl)⟩⟩

variable {rows : List Json.Fields} {received : Bytes}

/-- The line feed of a chunk is its last byte. -/
theorem newline_not_mem_part {row : Json.Fields} (hrow : JsonText.Representable (.obj row)) {part : Bytes}
    (hpart : part <+: PyText.encode (JsonLines.line JsonText.escapeRaw .spaced (.obj row)))
    (hne : part ≠ PyText.encode (JsonLines.line JsonText.escapeRaw .spaced (.obj row))) : 10 ∉ part := by
  rw [JsonLines.encode_line] at hpart hne
  have hinside := (List.prefix_concat_iff.1 hpart).resolve_left hne
  intro h
  exact JsonLines.newline_not_mem_encode (JsonLines.newline_not_mem_dumpsWith JsonLines.printed_escapeRaw hrow)
    (hinside.subset h)

/-- Wherever the response breaks off, its whole lines read back as the rows whose chunks came whole. -/
theorem jsonl_readsBack (hrows : ∀ row ∈ rows, JsonText.Representable (.obj row))
    (hreceived : received <+: (streamJsonl rows).flatten) :
    ∃ k, JsonLines.wholeLines received = (rows.take k).map (fun row => some (.obj row)) ∧
      (streamJsonl (rows.take k)).flatten <+: received ∧
      (k < rows.length → ¬ (streamJsonl (rows.take (k + 1))).flatten <+: received) := by
  obtain ⟨k, part, rfl, hpart⟩ := exists_cut hreceived
  have htake : ∀ n, streamJsonl (rows.take n) = (streamJsonl rows).take n := fun n => List.map_take
  have hchunk : ∀ c, (streamJsonl rows)[k]? = some c → ∃ row ∈ rows,
      c = PyText.encode (JsonLines.line JsonText.escapeRaw .spaced (.obj row)) := by
    intro c hc
    obtain ⟨row, hrow, rfl⟩ := List.mem_map.1 (List.mem_of_getElem? hc)
    exact ⟨row, hrow, rfl⟩
  refine ⟨k, ?_, ?_, fun hk hnext => ?_⟩
  · have hnewline : 10 ∉ part := by
      rcases hpart with ⟨-, rfl⟩ | ⟨c, hc, hinside, hne⟩
      · exact List.not_mem_nil
      · obtain ⟨row, hrow, rfl⟩ := hchunk c hc
        exact newline_not_mem_part (hrows row hrow) hinside hne
    have hjs : ∀ j ∈ (rows.take k).map Json.obj, JsonText.Representable j :=
      List.forall_mem_map.2 fun row hrow => hrows row (List.mem_of_mem_take hrow)
    have hwhole : JsonLines.wholeLines ((((rows.take k).map Json.obj).flatMap fun j =>
        PyText.encode (JsonLines.line JsonText.escapeRaw .spaced j)) ++ part) = ((rows.take k).map Json.obj).map some :=
      JsonLines.wholeLines_append escapes_escapeRaw JsonLines.printed_escapeRaw hjs hnewline
    rw [List.flatMap_map, List.map_map] at hwhole
    rw [← htake]
    exact hwhole
  · rw [htake]
    exact List.prefix_append _ _
  · -- the next chunk would be no longer than the part of it that came
    rw [htake, List.take_add_one, List.flatten_append, List.prefix_append_right_inj] at hnext
    rcases hpart with ⟨hnone, -⟩ | ⟨c, hc, hinside, hne⟩
    · rw [List.getElem?_eq_none_iff, streamJsonl, List.length_map] at hnone
      omega
    · rw [hc] at hnext
      have hle : c <+: part := by simpa using hnext
      exact hne (hinside.eq_of_length_le hle.length_le)

/-- Two rows, of which the first and a part of the second arrive. -/
theorem jsonl_readsBack_cut :
    ∃ k, JsonLines.wholeLines ((streamJsonl [[("id", .num 1)], [("id", .num 2)]]).flatten.take 15) =
        ([[("id", .num 1)], [("id", .num 2)]].take k).map (fun row => some (.obj row)) ∧
      (streamJsonl ([[("id", .num 1)], [("id", .num 2)]].take k)).flatten <+:
        (streamJsonl [[("id", .num 1)], [("id", .num 2)]]).flatten.take 15 ∧
      (k < 2 → ¬ (streamJsonl ([[("id", .num 1)], [("id", .num 2)]].take (k + 1))).flatten <+:
        (streamJsonl [[("id", .num 1)], [("id", .num 2)]]).flatten.take 15) :=
  jsonl_readsBack (by simp [JsonText.Representable, JsonText.RepresentableFields]) (List.take_prefix 15 _)

end Dgraphai.Streaming
