import Dgraphai.SyncDelta

/-!
# The agent's sync client (`agent-go/internal/sync/client.go`)

`sync` walks the files of a connector, cuts them into chunks of `batchSize` and hands each chunk to
`sendDelta`, which posts it up to `maxRetries` times and falls back to the offline queue. The server is
`sync_delta`; what the network, the context and the databases do to one call of `sendDelta` is an
`Exchange`. A connector's `Walk` stops at the first error of its callback.
-/

namespace Dgraphai.AgentSync

open Dedup (Env Scanner DeltaChunk Outcome Delivery syncDelta)

/-- The fields of `connector.FileInfo` that are sent. `modifiedAt` is in RFC 3339. -/
structure FileInfo where
  connectorID : String
  path : String
  name : String
  extension : String
  sha256 : String
  size : Int
  modifiedAt : String
  fileCategory : String
  mimeType : String
  attrs : Json.Fields
  host : String
  protocol : String
  deriving DecidableEq, Repr

structure GraphDelta where
  agentID : String
  tenantID : String
  connectorID : String
  scanID : String
  chunkIndex : Nat
  files : List FileInfo
  timestamp : String
  deriving DecidableEq, Repr

structure Client where
  tenantID : String
  agentID : String
  deriving DecidableEq, Repr

/-- Files per request. -/
def batchSize : Nat := 500

def maxRetries : Nat := 3

/-- One entry of `nodes`. The attributes of the file come after the fixed properties and overwrite them. -/
def fileNode (tenantID : String) (f : FileInfo) : Json.Fields :=
  [("op", .str "upsert"), ("type", .str "File"), ("id", .str f.path), ("labels", .arr [.str "File"]),
   ("props", .obj
    ([("path", .str f.path), ("name", .str f.name), ("size", .num f.size), ("modified_at", .str f.modifiedAt),
      ("extension", .str f.extension), ("sha256", .str f.sha256), ("connector_id", .str f.connectorID),
      ("tenant_id", .str tenantID), ("mime_type", .str f.mimeType), ("file_category", .str f.fileCategory),
      ("protocol", .str f.protocol), ("host", .str f.host)] ++ f.attrs))]

def toDeltaChunk (c : Client) (d : GraphDelta) (isFinal : Bool) : DeltaChunk where
  scannerID := c.agentID
  tenantID := d.tenantID
  scanJobID := d.scanID
  chunkIndex := d.chunkIndex
  isFinal := isFinal
  scannedAt := d.timestamp
  stats := [("files", d.files.length)]
  nodes := d.files.map (fileNode d.tenantID)
  edges := []

/-! ### `sendDelta` -/

/-- What becomes of one POST. -/
inductive Post where
  /-- No answer of `sync_delta`: the connection fails, or the request is refused before the handler. -/
  | lost
  /-- `sync_delta` runs; `answered` tells whether its answer reaches the agent. -/
  | delivered (outcome : Outcome) (answered : Bool)

structure Exchange where
  post : Nat → Post
  /-- The context is done in the wait before the n-th attempt. -/
  cancelled : Nat → Bool
  /-- `Enqueue` returns nil. -/
  enqueued : Bool

inductive SendError where
  | postFailed | contextDone | enqueueFailed | exhausted
  deriving DecidableEq, Repr

/-- The databases behind `sync_delta`, and the offline queue if there is one. -/
structure World where
  server : Dedup.State
  queue : Option (List GraphDelta)

variable (E : Env) (scanner : Scanner) (client : Client)

/-- The error, the databases after the POST and the delivery it made; `resp.StatusCode >= 400` is an error. -/
def postJSON (chunk : DeltaChunk) (s : Dedup.State) : Post → Option SendError × Dedup.State × List Delivery
  | .lost => (some .postFailed, s, [])
  | .delivered outcome answered =>
    match syncDelta E scanner chunk outcome s with
    | (.ok _, s') => (if answered then none else some .postFailed, s', [⟨scanner, chunk, outcome⟩])
    | (.error _, s') => (some .postFailed, s', [⟨scanner, chunk, outcome⟩])

/-- `sendDelta` from attempt `attempt` on, with `left` attempts left. -/
def attempts (delta : GraphDelta) (x : Exchange) : Nat → Nat → World → Option SendError × World × List Delivery
  | 0, _, w =>
    match w.queue with
    | none => (some .exhausted, w, [])
    | some queue =>
      if x.enqueued then (none, { w with queue := some (queue ++ [delta]) }, [])
      else (some .enqueueFailed, w, [])
  | left + 1, attempt, w =>
    if 0 < attempt ∧ x.cancelled attempt then (some .contextDone, w, [])
    else
      match postJSON E scanner (toDeltaChunk client delta false) w.server (x.post attempt) with
      | (none, server, deliveries) => (none, { w with server := server }, deliveries)
      | (some _, server, deliveries) =>
        let (err, w', rest) := attempts delta x left (attempt + 1) { w with server := server }
        (err, w', deliveries ++ rest)

def sendDelta (delta : GraphDelta) (x : Exchange) (w : World) : Option SendError × World × List Delivery :=
  attempts E scanner client delta x maxRetries 0 w

/-! ### `Sync` -/

/-- One scan: its ids, `time.Now()` of the n-th chunk and what happens to the n-th call of `sendDelta`. -/
structure Scan where
  connID : String
  scanID : String
  now : Nat → String
  exchange : Nat → Exchange

/-- A call of `sendDelta`, its error and the deliveries it made. -/
structure Call where
  delta : GraphDelta
  exchange : Exchange
  err : Option SendError
  deliveries : List Delivery

/-- The variables of `Sync`; `calls` are the calls of `sendDelta` so far, oldest first. -/
structure SyncState where
  world : World
  batch : List FileInfo
  chunkIdx : Nat
  filesIndexed : Nat
  errors : Nat
  calls : List Call

variable (scan : Scan)

def SyncState.delta (st : SyncState) : GraphDelta where
  agentID := client.agentID
  tenantID := client.tenantID
  connectorID := scan.connID
  scanID := scan.scanID
  chunkIndex := st.chunkIdx
  files := st.batch
  timestamp := scan.now st.calls.length

/-- The call of `sendDelta` in `flush`. -/
def SyncState.send (st : SyncState) : Option SendError × World × List Delivery :=
  sendDelta E scanner client (st.delta client scan) (scan.exchange st.calls.length) st.world

def SyncState.call (st : SyncState) : Call :=
  let (err, _, deliveries) := st.send E scanner client scan
  ⟨st.delta client scan, scan.exchange st.calls.length, err, deliveries⟩

def flush (st : SyncState) : Option SendError × SyncState :=
  if st.batch = [] then (none, st)
  else
    let (err, world, _) := st.send E scanner client scan
    let st' := { st with world := world, calls := st.calls ++ [st.call E scanner client scan] }
    match err with
    | some e => (some e, { st' with errors := st.errors + 1 })
    | none =>
      (none, { st' with
        chunkIdx := st.chunkIdx + 1, filesIndexed := st.filesIndexed + st.batch.length, batch := [] })

/-- `info.ConnectorID = connID; batch = append(batch, info)`. -/
def SyncState.push (st : SyncState) (info : FileInfo) : SyncState :=
  { st with batch := st.batch ++ [{ info with connectorID := scan.connID }] }

/-- The callback of `Walk`. -/
def onFile (st : SyncState) (info : FileInfo) : Option SendError × SyncState :=
  let st := st.push scan info
  if batchSize ≤ st.batch.length then flush E scanner client scan st else (none, st)

/-- `conn.Walk` over the files it finds. -/
def walk : List FileInfo → SyncState → Option SendError × SyncState
  | [], st => (none, st)
  | info :: files, st =>
    match onFile E scanner client scan st info with
    | (some e, st) => (some e, st)
    | (none, st) => walk files st

/-- `Sync`, with the error of `Walk` itself where it fails after these files. -/
def sync (files : List FileInfo) (walkErr : Option SendError) (w : World) : Option SendError × SyncState :=
  let (err, st) := walk E scanner client scan files ⟨w, [], 0, 0, 0, []⟩
  let err := err.or walkErr
  let (flushErr, st) := flush E scanner client scan st
  (err.or flushErr, st)

/-! ### Runs of `Sync` -/

variable {E scanner client scan}

variable (E scanner client scan) in
/-- Of a chunk handed to `sendDelta`, `flush` records the call, and counts and drops the batch if there
was no error. -/
theorem flush_cases {st : SyncState} (hne : st.batch ≠ []) :
    (∃ e, (st.send E scanner client scan).1 = some e ∧
      flush E scanner client scan st = (some e, { st with
        world := (st.send E scanner client scan).2.1
        calls := st.calls ++ [st.call E scanner client scan]
        errors := st.errors + 1 })) ∨
    ((st.send E scanner client scan).1 = none ∧
      flush E scanner client scan st = (none, { st with
        world := (st.send E scanner client scan).2.1
        calls := st.calls ++ [st.call E scanner client scan]
        chunkIdx := st.chunkIdx + 1
        filesIndexed := st.filesIndexed + st.batch.length
        batch := [] })) := by
  unfold flush
  rw [if_neg hne]
  rcases hsend : st.send E scanner client scan with ⟨_ | e, w, ds⟩
  · exact .inr ⟨rfl, rfl⟩
  · exact .inl ⟨e, rfl, rfl⟩

/-- What holds at the start and survives an appended file and a `flush` holds when `Sync` returns. -/
theorem inv_sync (Inv : SyncState → Prop) (hpush : ∀ st info, Inv st → Inv (st.push scan info))
    (hflush : ∀ st, Inv st → Inv (flush E scanner client scan st).2) {files : List FileInfo}
    {walkErr : Option SendError} {w : World} (h : Inv ⟨w, [], 0, 0, 0, []⟩) :
    Inv (sync E scanner client scan files walkErr w).2 := by
  have hwalk : ∀ files st, Inv st → Inv (walk E scanner client scan files st).2 := by
    intro files
    induction files with
    | nil => exact fun st h => h
    | cons info files ih =>
      intro st h
      have hfile : Inv (onFile E scanner client scan st info).2 := by
        unfold onFile
        dsimp only
        split_ifs
        · exact hflush _ (hpush st info h)
        · exact hpush st info h
      rw [walk]
      rcases honFile : onFile E scanner client scan st info with ⟨_ | e, st'⟩
      · rw [honFile] at hfile
        exact ih st' hfile
      · rw [honFile] at hfile
        exact hfile
  exact hflush _ (hwalk files _ h)

end Dgraphai.AgentSync
