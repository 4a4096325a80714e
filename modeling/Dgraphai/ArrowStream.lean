import Dgraphai.Lib.ByteSink
import Mathlib.Data.List.Induction

/-!
# `stream_arrow` (`streaming/formats.py`)

The Arrow serializer as the code runs it over its in-memory sink, with pyarrow as the parameter
`PyArrow`. `concat_streamArrow` gives the bytes a client receives for every number of full batches
and every remainder. After at least one full batch the remainder is sent twice: the sink is not
truncated between the last `write_table` and `writer.close()`.
-/

namespace Dgraphai.Streaming

/-- The pyarrow functions the serializer calls: the schema `Table.from_pylist` infers, a row in
column form, the three kinds of IPC messages, and the client's `ipc.open_stream` read to its end. -/
structure PyArrow (ρ σ τ : Type) where
  inferSchema : List ρ → σ
  convert : σ → ρ → τ
  schemaMsg : σ → List UInt8
  batchMsg : σ → List τ → List UInt8
  eosMsg : List UInt8
  openStream : List UInt8 → Option (List τ)

namespace PyArrow
variable {ρ σ τ : Type} (pa : PyArrow ρ σ τ)

/-- The message `write_table` appends for a batch under schema `s`. -/
def tableMsg (s : σ) (batch : List ρ) : List UInt8 :=
  pa.batchMsg s (batch.map (pa.convert s))

/-- A schema message, record batches and the end marker read back as the batches in order. -/
def ReadsBack : Prop :=
  ∀ (s : σ) (batches : List (List τ)),
    pa.openStream (pa.schemaMsg s ++ (batches.map (pa.batchMsg s)).flatten ++ pa.eosMsg) =
      some batches.flatten

end PyArrow

/-- The locals of `stream_arrow`: `writer` is the schema it was opened with. -/
structure ArrowState (ρ σ : Type) where
  batch : List ρ
  writer : Option σ
  sink : ByteSink

def ArrowState.init {ρ σ : Type} : ArrowState ρ σ := ⟨[], none, .empty⟩

section
variable {ρ σ τ : Type} [DecidableEq σ] (pa : PyArrow ρ σ τ) (batchSize : Nat)

/-- `writer.write_table(pa.Table.from_pylist(batch))`; `none` when the schemas differ. -/
def writeTable (w : σ) (batch : List ρ) (sink : ByteSink) : Option ByteSink :=
  if pa.inferSchema batch = w then some (sink.write (pa.tableMsg w batch)) else none

/-- The branch of the loop taken when the batch is full: the chunks yielded and the state after. -/
def flushFull (st : ArrowState ρ σ) : Option (List (List UInt8) × ArrowState ρ σ) :=
  let schema := pa.inferSchema st.batch
  -- the schema message is yielded on its own before the first batch
  let (header, w, sink) := match st.writer with
    | some w => ([], w, st.sink)
    | none =>
      let sink := (st.sink.write (pa.schemaMsg schema)).seek 0
      ([sink.rest], schema, (sink.read.seek 0).truncate)
  (writeTable pa w st.batch sink).map fun sink =>
    let sink := sink.seek 0
    (header ++ [sink.rest], ⟨[], some w, (sink.read.seek 0).truncate⟩)

/-- `async for row in rows`. -/
def arrowLoop : List ρ → ArrowState ρ σ → Option (List (List UInt8) × ArrowState ρ σ)
  | [], st => some ([], st)
  | row :: rows, st =>
    let st := { st with batch := st.batch ++ [row] }
    if batchSize ≤ st.batch.length then
      (flushFull pa st).bind fun (chunks, st) =>
        (arrowLoop rows st).map fun (later, st) => (chunks ++ later, st)
    else arrowLoop rows st

/-- `remaining = sink.read(); if remaining: yield remaining`, after `sink.seek(0)`. -/
def remaining (sink : ByteSink) : List (List UInt8) :=
  let bytes := (sink.seek 0).rest
  if bytes = [] then [] else [bytes]

/-- What `stream_arrow` yields after its loop. -/
def arrowTail (st : ArrowState ρ σ) : Option (List (List UInt8)) :=
  match st.batch, st.writer with
  | [], none => some []
  | [], some _ => some (remaining (st.sink.write pa.eosMsg))
  | batch, none =>
    let schema := pa.inferSchema batch
    (writeTable pa schema batch (ByteSink.empty.write (pa.schemaMsg schema))).map fun sink2 =>
      let sink2 := (sink2.write pa.eosMsg).seek 0
      -- the writer is bound to `sink2`, so the second `close` leaves `sink` as it was
      [sink2.rest] ++ remaining st.sink
  | batch, some w =>
    (writeTable pa w batch st.sink).map fun sink =>
      let sink := sink.seek 0
      [sink.rest] ++ remaining (sink.read.write pa.eosMsg)

/-- The chunks `stream_arrow` yields for `rows`; `none` when it raises. -/
def streamArrow (rows : List ρ) : Option (List (List UInt8)) :=
  (arrowLoop pa batchSize rows .init).bind fun (chunks, st) =>
    (arrowTail pa st).map (chunks ++ ·)

end

/-! ### The batches of a row list -/

section
variable {ρ : Type} (batchSize : Nat)

/-- The full batches the loop writes when `batch` is already pending, and the rows left over. -/
def splitBatches : List ρ → List ρ → List (List ρ) × List ρ
  | batch, [] => ([], batch)
  | batch, row :: rows =>
    if batchSize ≤ (batch ++ [row]).length then
      let (full, rest) := splitBatches [] rows
      ((batch ++ [row]) :: full, rest)
    else splitBatches (batch ++ [row]) rows

/-- Every batch `stream_arrow` hands to `Table.from_pylist`. -/
def arrowBatches (rows : List ρ) : List (List ρ) :=
  let (full, rest) := splitBatches batchSize [] rows
  full ++ if rest = [] then [] else [rest]

variable {batchSize}

theorem splitBatches_flatten (batchSize : Nat) (batch rows : List ρ) :
    (splitBatches batchSize batch rows).1.flatten ++ (splitBatches batchSize batch rows).2 =
      batch ++ rows := by
  induction rows generalizing batch with
  | nil => simp [splitBatches]
  | cons row rows ih =>
    rw [splitBatches]
    split_ifs with h
    · simp [ih []]
    · rw [ih]; simp

theorem splitBatches_rest_lt (batchSize : Nat) (batch rows : List ρ) (hb : batch.length < batchSize) :
    (splitBatches batchSize batch rows).2.length < batchSize := by
  induction rows generalizing batch with
  | nil => exact hb
  | cons row rows ih =>
    rw [splitBatches]
    split_ifs with h
    · exact ih [] (by simp; omega)
    · exact ih _ (by omega)

theorem splitBatches_full_length (batch rows : List ρ) (hb : batch.length < batchSize) :
    ∀ b ∈ (splitBatches batchSize batch rows).1, b.length = batchSize := by
  induction rows generalizing batch with
  | nil => simp [splitBatches]
  | cons row rows ih =>
    rw [splitBatches]
    split_ifs with h
    · intro b hmem
      rcases List.mem_cons.1 hmem with rfl | hmem
      · simp only [List.length_append, List.length_singleton] at h ⊢; omega
      · exact ih [] (by simp; omega) b hmem
    · exact ih _ (by omega)

/-- `rows.length` in terms of the number of full batches and the remainder. -/
theorem length_eq_splitBatches (rows : List ρ) (hb : 1 ≤ batchSize) :
    rows.length = (splitBatches batchSize [] rows).1.length * batchSize +
      (splitBatches batchSize [] rows).2.length := by
  have hfl := congrArg List.length (splitBatches_flatten batchSize [] rows)
  have hlen : (splitBatches batchSize [] rows).1.map List.length =
      List.replicate (splitBatches batchSize [] rows).1.length batchSize :=
    List.eq_replicate_iff.2 ⟨by simp, by
      simpa using splitBatches_full_length [] rows (by simp; omega)⟩
  rw [List.length_append, List.length_flatten, hlen] at hfl
  simpa using hfl.symm

end

/-! ### The bytes a client receives -/

section
variable {ρ σ τ : Type} [DecidableEq σ] (pa : PyArrow ρ σ τ) (batchSize : Nat) {s : σ}

/-- What the first batch of a stream is preceded by. -/
def PyArrow.header (pa : PyArrow ρ σ τ) (s : σ) : Option σ → List UInt8
  | none => pa.schemaMsg s
  | some _ => []

theorem writeTable_of_schema {batch : List ρ} (h : pa.inferSchema batch = s) (sink : ByteSink) :
    writeTable pa s batch sink = some (sink.write (pa.tableMsg s batch)) := by
  simp [writeTable, h]

theorem remaining_flatten (sink : ByteSink) : (remaining sink).flatten = sink.buf := by
  by_cases h : sink.buf = [] <;> simp [remaining, h]

theorem flushFull_spec (st : ArrowState ρ σ) (hs : pa.inferSchema st.batch = s)
    (hw : st.writer = none ∨ st.writer = some s) (hsink : st.sink = .empty) :
    ∃ chunks, flushFull pa st = some (chunks, ⟨[], some s, .empty⟩) ∧
      chunks.flatten = pa.header s st.writer ++ pa.tableMsg s st.batch := by
  obtain ⟨batch, writer, sink⟩ := st
  dsimp only at hs hw hsink
  subst hsink
  rcases hw with rfl | rfl
  · refine ⟨_, by simp [flushFull, hs, writeTable_of_schema pa hs]; rfl, ?_⟩
    simp [PyArrow.header]
  · refine ⟨_, by simp [flushFull, writeTable_of_schema pa hs]; rfl, ?_⟩
    simp [PyArrow.header]

/-- The writer after the batches `full`, and the bytes sent for them. -/
def writerAfter (s : σ) (w : Option σ) : List (List ρ) → Option σ
  | [] => w
  | _ :: _ => some s

def PyArrow.loopBytes (pa : PyArrow ρ σ τ) (s : σ) (w : Option σ) : List (List ρ) → List UInt8
  | [] => []
  | b :: full => pa.header s w ++ ((b :: full).map (pa.tableMsg s)).flatten

/-- A whole IPC stream of the batches, or nothing at all. -/
def PyArrow.streamBytes (pa : PyArrow ρ σ τ) (s : σ) : List (List ρ) → List UInt8
  | [] => []
  | b :: bs => pa.schemaMsg s ++ ((b :: bs).map (pa.tableMsg s)).flatten ++ pa.eosMsg

/-- The batches on the wire: the remainder goes out twice once the writer is bound to `sink`. -/
def sent : List (List ρ) → List ρ → List (List ρ)
  | full, [] => full
  | [], rest => [rest]
  | full, rest => full ++ [rest, rest]

/-- The loop leaves an empty sink behind and has sent every full batch once. -/
theorem arrowLoop_spec (rows : List ρ) (st : ArrowState ρ σ)
    (hw : st.writer = none ∨ st.writer = some s) (hsink : st.sink = .empty)
    (hs : ∀ b ∈ (splitBatches batchSize st.batch rows).1, pa.inferSchema b = s) :
    let full := (splitBatches batchSize st.batch rows).1
    let rest := (splitBatches batchSize st.batch rows).2
    ∃ chunks, arrowLoop pa batchSize rows st =
        some (chunks, ⟨rest, writerAfter s st.writer full, .empty⟩) ∧
      chunks.flatten = pa.loopBytes s st.writer full := by
  induction rows generalizing st with
  | nil =>
    obtain ⟨batch, writer, sink⟩ := st
    dsimp only at hsink; subst hsink
    exact ⟨[], rfl, rfl⟩
  | cons row rows ih =>
    simp only [splitBatches] at hs ⊢
    by_cases h : batchSize ≤ (st.batch ++ [row]).length
    · rw [if_pos h] at hs ⊢
      obtain ⟨chunks, hflush, hchunks⟩ :=
        flushFull_spec pa ⟨st.batch ++ [row], st.writer, st.sink⟩ (hs _ (by simp)) hw hsink
      obtain ⟨later, hloop, hlater⟩ := ih ⟨[], some s, .empty⟩ (.inr rfl) rfl
        fun b hb => hs b (List.mem_cons_of_mem _ hb)
      refine ⟨chunks ++ later, ?_, ?_⟩
      · simp only [arrowLoop, if_pos h, hflush, Option.bind_some, hloop, Option.map_some]
        cases (splitBatches batchSize [] rows).1 <;> rfl
      · rw [List.flatten_append, hchunks, hlater]
        cases (splitBatches batchSize [] rows).1 <;> simp [PyArrow.loopBytes, PyArrow.header]
    · rw [if_neg h] at hs ⊢
      obtain ⟨chunks, hloop, hchunks⟩ := ih { st with batch := st.batch ++ [row] } hw hsink hs
      exact ⟨chunks, by simp only [arrowLoop, if_neg h]; exact hloop, hchunks⟩

theorem arrowTail_spec (full : List (List ρ)) (rest : List ρ)
    (hs : rest ≠ [] → pa.inferSchema rest = s) :
    ∃ chunks, arrowTail pa ⟨rest, writerAfter s none full, .empty⟩ = some chunks ∧
      pa.loopBytes s none full ++ chunks.flatten = pa.streamBytes s (sent full rest) := by
  cases rest with
  | nil =>
    cases full with
    | nil => exact ⟨[], rfl, rfl⟩
    | cons b full =>
      refine ⟨_, rfl, ?_⟩
      simp [remaining_flatten, PyArrow.loopBytes, PyArrow.streamBytes, PyArrow.header, sent]
  | cons r rest =>
    have hr : pa.inferSchema (r :: rest) = s := hs (by simp)
    cases full with
    | nil =>
      have hend := ByteSink.atEnd_empty.write (pa.schemaMsg s)
      refine ⟨_, by simp only [arrowTail, writerAfter, hr, writeTable_of_schema pa hr]; rfl, ?_⟩
      simp [remaining_flatten, PyArrow.loopBytes, PyArrow.streamBytes, sent,
        (hend.write (pa.tableMsg s (r :: rest))).write_buf, hend.write_buf]
    | cons b full =>
      refine ⟨_, by simp only [arrowTail, writerAfter, writeTable_of_schema pa hr]; rfl, ?_⟩
      simp [remaining_flatten, PyArrow.loopBytes, PyArrow.streamBytes, PyArrow.header, sent,
        (ByteSink.seek_zero_read_atEnd _).write_buf]

/-- The bytes of a whole response: one stream of the batches `sent`. -/
theorem concat_streamArrow (rows : List ρ)
    (hs : ∀ b ∈ arrowBatches batchSize rows, pa.inferSchema b = s) :
    ∃ chunks, streamArrow pa batchSize rows = some chunks ∧
      chunks.flatten = pa.streamBytes s
        (sent (splitBatches batchSize [] rows).1 (splitBatches batchSize [] rows).2) := by
  obtain ⟨chunks, hloop, hchunks⟩ := arrowLoop_spec pa batchSize (s := s) rows .init
    (.inl rfl) rfl fun b hb => hs b (List.mem_append_left _ hb)
  obtain ⟨later, htail, hlater⟩ := arrowTail_spec pa (s := s) (splitBatches batchSize [] rows).1
    (splitBatches batchSize [] rows).2 fun hne => hs _ (List.mem_append_right _ (by simp [hne]))
  refine ⟨chunks ++ later, ?_, ?_⟩
  · simp only [streamArrow, hloop, Option.bind_some]
    rw [show ArrowState.init.batch = ([] : List ρ) from rfl,
      show (ArrowState.init : ArrowState ρ σ).writer = none from rfl, htail, Option.map_some]
  · rw [List.flatten_append, hchunks, ← hlater]; rfl

/-- A client that reads the concatenated chunks gets the rows back, once each and in order. -/
def RoundTrips (s : σ) (rows : List ρ) : Prop :=
  ∃ chunks, streamArrow pa batchSize rows = some chunks ∧
    pa.openStream chunks.flatten = some (rows.map (pa.convert s))

omit [DecidableEq σ] in
theorem openStream_streamBytes (hread : pa.ReadsBack) (bs : List (List ρ)) (hne : bs ≠ []) :
    pa.openStream (pa.streamBytes s bs) = some (bs.flatten.map (pa.convert s)) := by
  obtain ⟨b, bs, rfl⟩ := List.exists_cons_of_ne_nil hne
  have hmsgs : ((b :: bs).map (pa.tableMsg s)) =
      ((b :: bs).map (List.map (pa.convert s))).map (pa.batchMsg s) := by
    rw [List.map_map]; rfl
  rw [PyArrow.streamBytes, hmsgs, hread, List.map_flatten]

theorem sent_ne_nil {full : List (List ρ)} {rest : List ρ} (h : full.flatten ++ rest ≠ []) :
    sent full rest ≠ [] := by
  cases rest <;> cases full <;> simp_all [sent]

/-- What is sent is what was read, unless a remainder follows a full batch. -/
theorem sent_flatten_map_eq_iff (f : ρ → τ) (full : List (List ρ)) (rest : List ρ) :
    (sent full rest).flatten.map f = (full.flatten ++ rest).map f ↔ full = [] ∨ rest = [] := by
  cases rest with
  | nil => simp [sent]
  | cons r rest =>
    cases full with
    | nil => simp [sent]
    | cons b full =>
      simp only [sent, reduceCtorEq, or_self, iff_false]
      intro h
      have := congrArg List.length h
      simp at this

theorem splitBatches_full_eq_nil_iff (rows : List ρ) (hb : 1 ≤ batchSize) :
    (splitBatches batchSize [] rows).1 = [] ↔ rows.length < batchSize := by
  have hlen := length_eq_splitBatches rows hb
  have hrest := splitBatches_rest_lt batchSize [] rows (by simp; omega)
  constructor
  · intro h; rw [h] at hlen; simp at hlen; omega
  · intro h
    by_contra hne
    have := Nat.le_mul_of_pos_left batchSize (List.length_pos_of_ne_nil hne)
    omega

theorem splitBatches_rest_eq_nil_iff (rows : List ρ) (hb : 1 ≤ batchSize) :
    (splitBatches batchSize [] rows).2 = [] ↔ batchSize ∣ rows.length := by
  have hlen := length_eq_splitBatches rows hb
  have hrest := splitBatches_rest_lt batchSize [] rows (by simp; omega)
  rw [hlen, Nat.dvd_add_right (Nat.dvd_mul_left ..)]
  constructor
  · intro h; simp [h]
  · intro h; exact List.eq_nil_of_length_eq_zero (Nat.eq_zero_of_dvd_of_lt h hrest)

/-- The stream reads back as its rows exactly when no remainder follows a full batch; for no rows at
all nothing is sent, and it is up to the client's reader to accept zero bytes. -/
theorem roundTrips_iff (hread : pa.ReadsBack) (rows : List ρ) (hb : 1 ≤ batchSize)
    (hs : ∀ b ∈ arrowBatches batchSize rows, pa.inferSchema b = s) :
    RoundTrips pa batchSize s rows ↔
      (rows.length < batchSize ∨ batchSize ∣ rows.length) ∧
        (rows = [] → pa.openStream [] = some []) := by
  obtain ⟨chunks, hrun, hbytes⟩ := concat_streamArrow pa batchSize rows hs
  have htrip : RoundTrips pa batchSize s rows ↔
      pa.openStream chunks.flatten = some (rows.map (pa.convert s)) := by
    simp [RoundTrips, hrun]
  rw [htrip, hbytes]
  by_cases hnil : rows = []
  · subst hnil
    show pa.openStream [] = some [] ↔ _
    simp
  · have hrows : (splitBatches batchSize [] rows).1.flatten ++ (splitBatches batchSize [] rows).2 =
        rows := splitBatches_flatten _ [] rows
    have hne := sent_ne_nil (hrows.symm ▸ hnil)
    rw [openStream_streamBytes pa hread _ hne, Option.some.injEq,
      ← splitBatches_full_eq_nil_iff batchSize rows hb,
      ← splitBatches_rest_eq_nil_iff batchSize rows hb, ← sent_flatten_map_eq_iff (pa.convert s),
      hrows]
    simp [hnil]

end

/-- Reads the tagged rows of `taggedArrow` up to the end marker. -/
def readTagged : List UInt8 → Option (List UInt8)
  | 1 :: r :: bytes => (readTagged bytes).map (r :: ·)
  | 2 :: _ => some []
  | [] => some []
  | _ => none

/-- A one-byte-row format: `0` is the schema, `1 r` a row of a batch, `2` the end of the stream. -/
def taggedArrow : PyArrow UInt8 Unit UInt8 where
  inferSchema := fun _ => ()
  convert := fun _ r => r
  schemaMsg := fun _ => [0]
  batchMsg := fun _ rows => rows.flatMap fun r => [1, r]
  eosMsg := [2]
  openStream
    | 0 :: bytes => readTagged bytes
    | _ => none

theorem readTagged_rows (rows bytes : List UInt8) :
    readTagged (rows.flatMap (fun r => [1, r]) ++ bytes) = (readTagged bytes).map (rows ++ ·) := by
  induction rows with
  | nil => simp
  | cons r rows ih =>
    simp only [List.flatMap_cons, List.cons_append, List.nil_append, readTagged, ih, Option.map_map]
    rfl

theorem taggedArrow_readsBack : taggedArrow.ReadsBack := by
  intro s batches
  show readTagged ((batches.map fun rows => rows.flatMap fun r => [1, r]).flatten ++ [2]) = _
  induction batches with
  | nil => rfl
  | cons rows batches ih =>
    rw [List.map_cons, List.flatten_cons, List.append_assoc, readTagged_rows, ih]
    rfl

/-- Three rows in batches of two: the last row arrives twice. -/
theorem remainder_sent_twice :
    taggedArrow.ReadsBack ∧ ¬ RoundTrips taggedArrow 2 () [5, 6, 7] := by
  refine ⟨taggedArrow_readsBack, ?_⟩
  rintro ⟨chunks, hrun, hback⟩
  obtain rfl : [[0], [1, 5, 1, 6], [1, 7], [1, 7, 2]] = chunks := Option.some.inj hrun
  exact absurd hback (by decide)

theorem roundTrips_full_batches : RoundTrips taggedArrow 2 () [5, 6, 7, 8] :=
  (roundTrips_iff taggedArrow 2 taggedArrow_readsBack [5, 6, 7, 8] (by decide)
    (fun _ _ => rfl)).2 (by decide)

end Dgraphai.Streaming
