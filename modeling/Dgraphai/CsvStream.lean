import Dgraphai.Lib.Csv
import Mathlib.Data.List.Forall2

/-!
# `stream_csv` (`streaming/formats.py`)

The header has the keys of the first row, and every later row is written by a `DictWriter` over its own keys. So a
stream reads back as its rows exactly if each row, in its own order, happens to fit the header (`csvRoundTrips_iff`);
rows whose keys begin the header do (`aligned_of_prefix`). A chunk is given by the text it encodes.
-/

namespace Dgraphai.Streaming

open Csv (Text Record)

abbrev Row := PyDict Text Text

/-- The loop of `stream_csv`; `buf` is what the buffer holds when a row comes in. -/
def csvLoop (headerWritten : Bool) (buf : Text) : List Row → Option (List Text)
  | [] => some []
  | row :: rows => do
    let fieldnames := row.keys
    let buf := if headerWritten then buf else buf ++ Csv.writerow fieldnames
    let fields ← Csv.dictRow fieldnames row
    let buf := buf ++ Csv.writerow fields
    -- the buffer is read from its start and truncated there
    let later ← csvLoop true [] rows
    pure (buf :: later)

/-- The chunks of `stream_csv`. -/
def streamCsv (rows : List Row) : Option (List Text) := csvLoop false [] rows

/-- A record has the columns `names`, each with the row's own value or empty, and nothing else. -/
structure Faithful (names : List Text) (row : Row) (r : Record) : Prop where
  columns : (r.columns.map fun c => (c.1, c.2.getD [])) = names.map fun k => (k, (row.get? k).getD [])
  rest : r.rest = []

/-- The stream reads back as one record for each row, over the keys of the first. -/
def CsvRoundTrips (first : Row) (rows : List Row) : Prop :=
  ∃ chunks records, streamCsv (first :: rows) = some chunks ∧ Csv.dictReader chunks.flatten = some records ∧
    List.Forall₂ (Faithful first.keys) (first :: rows) records

/-- The values of a row in its own order, filled up with empty ones, are its values for the columns. -/
def Aligned (names : List Text) (row : Row) : Prop :=
  row.values ≠ [] ∧ row.values.length ≤ names.length ∧
    row.values ++ List.replicate (names.length - row.values.length) [] = names.map fun k => (row.get? k).getD []

variable {names : List Text} {row first : Row} {rows : List Row}

/-! ### The text -/

theorem map_getD_keys (row : Row) : row.keys.map (fun k => (row.get? k).getD []) = row.values := by
  have h := congrArg (List.map fun o : Option Text => o.getD []) row.map_get?_keys
  rw [List.map_map, List.map_map] at h
  exact h.trans (List.map_id _)

theorem dictRow_keys (row : Row) : Csv.dictRow row.keys row = some row.values := by
  rw [Csv.dictRow, if_pos fun k hk => hk, map_getD_keys]

theorem csvLoop_true (rows : List Row) : csvLoop true [] rows = some (rows.map fun row => Csv.writerow row.values) := by
  induction rows with
  | nil => rfl
  | cons row rows ih =>
    rw [csvLoop, dictRow_keys, ih]
    rfl

theorem streamCsv_cons (first : Row) (rows : List Row) : streamCsv (first :: rows) =
    some ((Csv.writerow first.keys ++ Csv.writerow first.values) :: rows.map fun row => Csv.writerow row.values) := by
  rw [streamCsv, csvLoop, dictRow_keys, csvLoop_true]
  rfl

/-- What a client reads. -/
theorem dictReader_streamCsv (first : Row) (rows : List Row) :
    ∃ chunks, streamCsv (first :: rows) = some chunks ∧ Csv.dictReader chunks.flatten =
      some ((((first :: rows).map PyDict.values).filter (· ≠ [])).map (Csv.record first.keys)) := by
  refine ⟨_, streamCsv_cons first rows, ?_⟩
  have htext : ((Csv.writerow first.keys ++ Csv.writerow first.values) ::
      rows.map fun row => Csv.writerow row.values).flatten =
        (first.keys :: (first :: rows).map PyDict.values).flatMap Csv.writerow := by
    rw [List.flatten_cons, List.flatMap_cons, List.map_cons, List.flatMap_cons, List.append_assoc, List.flatMap_map]
    rfl
  rw [htext, Csv.dictReader, Csv.reader_writerows]
  rfl

/-! ### Records -/

/-- A record has the values `value` exactly if the row begins with them and they are empty from there on. -/
theorem record_columns_iff (names : List Text) (value : Text → Text) (fields : List Text) :
    ((Csv.record names fields).columns.map fun c => (c.1, c.2.getD [])) = (names.map fun k => (k, value k)) ∧
        (Csv.record names fields).rest = [] ↔
      fields.length ≤ names.length ∧
        fields ++ List.replicate (names.length - fields.length) [] = names.map value := by
  induction names generalizing fields with
  | nil =>
    cases fields with
    | nil => exact iff_of_true ⟨rfl, rfl⟩ ⟨Nat.le_refl _, rfl⟩
    | cons f fields => exact iff_of_false (fun h => List.cons_ne_nil _ _ h.2) (fun h => absurd h.1 (by simp))
  | cons name names ih =>
    cases fields with
    | nil =>
      have hcolumns : ∀ l : List Text, ((l.map fun n => (n, (none : Option Text))).map fun c => (c.1, c.2.getD [])) =
          (l.map fun k => (k, value k)) ↔ List.replicate l.length [] = l.map value := by
        intro l
        rw [List.map_map, List.map_inj_left, eq_comm, List.eq_replicate_iff, List.length_map, and_iff_right rfl,
          List.forall_mem_map]
        simp [eq_comm]
      rw [Csv.record, hcolumns, and_iff_left rfl, List.nil_append]
      exact (and_iff_right (Nat.zero_le _)).symm
    | cons f fields =>
      have hlength : (name :: names).length - (f :: fields).length = names.length - fields.length := Nat.add_sub_add_right ..
      rw [Csv.record, hlength, List.map_cons, List.map_cons, List.map_cons, List.cons_append, List.cons.injEq,
        List.cons.injEq, and_assoc, ih fields, List.length_cons, List.length_cons, Nat.add_le_add_iff_right]
      simp only [Prod.mk.injEq, true_and, Option.getD_some]
      exact and_left_comm

theorem faithful_iff : Faithful names row (Csv.record names row.values) ↔
    row.values.length ≤ names.length ∧ row.values ++ List.replicate (names.length - row.values.length) [] =
      names.map fun k => (row.get? k).getD [] := by
  rw [← record_columns_iff]
  exact ⟨fun h => ⟨h.columns, h.rest⟩, fun h => ⟨h.1, h.2⟩⟩

/-- Only empty lines are skipped. -/
theorem forall₂_records_iff (R : Row → Record → Prop) (rows : List Row) :
    List.Forall₂ R rows (((rows.map PyDict.values).filter (· ≠ [])).map (Csv.record names)) ↔
      ∀ row ∈ rows, row.values ≠ [] ∧ R row (Csv.record names row.values) := by
  constructor
  · intro h
    have hlength := h.length_eq
    rw [List.length_map] at hlength
    have hall : ∀ v ∈ rows.map PyDict.values, decide (v ≠ []) = true :=
      List.length_filter_eq_length_iff.1 (hlength.symm.trans (List.length_map _).symm)
    rw [List.filter_eq_self.2 hall, List.map_map, List.forall₂_map_right_iff, List.forall₂_same] at h
    exact fun row hrow => ⟨of_decide_eq_true (hall _ (List.mem_map_of_mem hrow)), h row hrow⟩
  · intro h
    have hall : ∀ v ∈ rows.map PyDict.values, decide (v ≠ []) = true := by
      intro v hv
      obtain ⟨row, hrow, rfl⟩ := List.mem_map.1 hv
      exact decide_eq_true (h row hrow).1
    rw [List.filter_eq_self.2 hall, List.map_map, List.forall₂_map_right_iff, List.forall₂_same]
    exact fun row hrow => (h row hrow).2

/-! ### Round trips -/

/-- A stream reads back as its rows exactly if every row fits the header in its own order. -/
theorem csvRoundTrips_iff (first : Row) (rows : List Row) :
    CsvRoundTrips first rows ↔ ∀ row ∈ first :: rows, Aligned first.keys row := by
  obtain ⟨chunks, hstream, hread⟩ := dictReader_streamCsv first rows
  have hiff : CsvRoundTrips first rows ↔ List.Forall₂ (Faithful first.keys) (first :: rows)
      ((((first :: rows).map PyDict.values).filter (· ≠ [])).map (Csv.record first.keys)) := by
    constructor
    · rintro ⟨chunks', records, hstream', hread', h⟩
      obtain rfl := Option.some.inj (hstream.symm.trans hstream')
      obtain rfl := Option.some.inj (hread.symm.trans hread')
      exact h
    · exact fun h => ⟨chunks, _, hstream, hread, h⟩
  rw [hiff, forall₂_records_iff]
  exact forall₂_congr fun row _ => and_congr_right fun _ => faithful_iff

/-- A row whose keys are the first ones of the header, in its order. -/
theorem aligned_of_prefix (hnodup : names.Nodup) (hne : row.keys ≠ []) (h : row.keys <+: names) : Aligned names row := by
  obtain ⟨rest, rfl⟩ := h
  have hlength : row.values.length = row.keys.length := (List.length_map _).trans (List.length_map _).symm
  have habsent : rest.map (fun k => (row.get? k).getD []) = List.replicate rest.length [] := by
    rw [List.eq_replicate_iff, List.length_map, and_iff_right rfl, List.forall_mem_map]
    intro k hk
    rw [PyDict.get?_eq_none fun hmem => List.disjoint_of_nodup_append hnodup hmem hk]
    rfl
  refine ⟨fun hnil => ?_, ?_, ?_⟩
  · rw [hnil, List.length_nil] at hlength
    exact hne (List.length_eq_zero_iff.1 hlength.symm)
  · rw [List.length_append, hlength]
    exact Nat.le_add_right _ _
  · rw [List.map_append, map_getD_keys, habsent, List.length_append, hlength, Nat.add_sub_cancel_left]

/-! ### Two rows in another order -/

def inOrder : Row := ⟨[(['a'], ['1']), (['b'], ['2'])], by decide⟩

def reversed : Row := ⟨[(['b'], ['3']), (['a'], ['4'])], by decide⟩

/-- The value of `b` stands under `a`. -/
theorem swapped_columns : ¬ ∀ first rows, CsvRoundTrips first rows := by
  intro h
  obtain ⟨chunks, records, hstream, hread, hfaithful⟩ := h inOrder [reversed]
  obtain ⟨chunks', hstream', hread'⟩ := dictReader_streamCsv inOrder [reversed]
  obtain rfl := Option.some.inj (hstream'.symm.trans hstream)
  obtain rfl := Option.some.inj (hread'.symm.trans hread)
  obtain ⟨-, hfaithful⟩ := List.forall₂_cons.1 hfaithful
  obtain ⟨hsecond, -⟩ := List.forall₂_cons.1 hfaithful
  exact absurd hsecond.columns (by decide)

end Dgraphai.Streaming
