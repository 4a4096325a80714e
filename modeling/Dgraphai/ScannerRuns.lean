import Dgraphai.DiskQueue
import Dgraphai.Lib.Runs
import Dgraphai.ParentEdges
import Dgraphai.StoredFiles

/-!
# Scans of the scanner agent (`scanner-agent/src/connectors/base.py`, `sync/client.py`)

Several scans walk at a time, each hands its batches to `send_delta`, and `flush_queue` sends again what is on disk. The
tasks come between one another at every request, the platform answers, refuses or is not reached, and the agent may be
started again. A step is one attempt to send a chunk, or what a task does between two attempts.
-/

namespace Dgraphai.ScannerRuns

open Dedup (Env Scanner DeltaChunk Outcome SyncResponse)
open ParentEdges (shortDigest parentPath)
open ScannerSync (SyncClient Delta Part Reply Files rejected maxRetries payload fileName enqueueChunk queued)

/-- `FileRecord`; `modified` is the text of a float. -/
structure FileRecord where
  path : String
  name : String
  sizeBytes : Int
  modified : String
  sha256 : Option String
  suffix : String
  isDir : Bool
  host : String
  share : String
  deriving DecidableEq, Repr

namespace FileRecord

variable (E : Env) (r : FileRecord) (connectorID : String)

/-- The text an id of `path` is the digest of. -/
def key (path : String) : String := r.host ++ ":" ++ r.share ++ ":" ++ path

/-- `_stable_id`. -/
def stableID : String := shortDigest E (r.key r.path)

def props : Json.Fields :=
  [("path", .str r.path), ("name", .str r.name), ("size_bytes", .num (if r.isDir then 0 else r.sizeBytes)),
    ("modified", .real r.modified), ("sha256", .str (r.sha256.getD "")), ("extension", .str r.suffix),
    ("host", .str r.host), ("share", .str r.share), ("connector_id", .str connectorID)]

/-- `to_node_dict`. -/
def toNodeDict : Json.Fields :=
  [("op", .str "upsert"), ("type", .str (if r.isDir then "Directory" else "File")), ("id", .str (r.stableID E)),
    ("props", .obj (r.props connectorID))]

def parentEdge : Option Json.Fields :=
  let parent := parentPath r.path
  if parent = r.path then none
  else
    some [("op", .str "upsert"), ("type", .str "CHILD_OF"), ("from", .str (r.stableID E)),
      ("to", .str (shortDigest E (r.key parent))), ("props", .obj [])]

end FileRecord

/-- A record, with the connector that walked it. -/
structure Found where
  connectorID : String
  record : FileRecord

def Found.node (E : Env) (f : Found) : Json.Fields := f.record.toNodeDict E f.connectorID

/-- The variables of a `scan_and_sync`, and of the `send_delta` it waits for. -/
structure Scan where
  connectorID : String
  jobID : String
  /-- What `walk` has still to yield. -/
  todo : List FileRecord
  /-- The records in `nodes` and `edges`. -/
  batch : List FileRecord
  totalFiles : ℕ
  /-- The chunks of the delta that are not done with. -/
  unsent : List DeltaChunk
  /-- The attempts left for the first of them. -/
  left : ℕ

/-- The variables of a `flush_queue`: the files to come, and the one that is sent, with the attempts left. -/
structure Flushing where
  names : List (List Char)
  sending : Option (List Char × DeltaChunk × ℕ)

structure State where
  server : Dedup.State
  dir : Files
  scans : ℕ → Option Scan
  flushing : Option Flushing
  /-- The records of all scans so far. -/
  begun : List Found
  /-- The chunks whose answer has come. -/
  answered : List DeltaChunk

variable (E : Env) (scanner : Scanner) (client : SyncClient)

/-- The delta that `scan_and_sync` hands to `send_delta`. -/
def Scan.delta (scan : Scan) : Delta where
  jobID := scan.jobID
  nodes := scan.batch.map fun r => r.toNodeDict E scan.connectorID
  edges := scan.batch.filterMap fun r => r.parentEdge E
  totalFiles := scan.totalFiles
  totalNodes := 0
  errors := 0

/-- `send_delta` begins with a batch; `none` raises. -/
def Scan.send (now : ℕ → String) (scan : Scan) : Option Scan :=
  (ScannerSync.parts client (scan.delta E)).map fun ps =>
    { scan with
      batch := []
      unsent := ps.map (payload client (scan.delta E) now ps.length)
      left := maxRetries }

/-- The batch size of `scan_and_sync`. -/
def batchSize : ℕ := 500

/-- What a scan does between two deltas: it takes the next record, or sends the last batch; `none` raises. -/
def Scan.goOn (now : ℕ → String) (scan : Scan) : Option Scan :=
  match scan.todo with
  | [] => scan.send E client now
  | r :: rest =>
    let scan := { scan with todo := rest, batch := scan.batch ++ [r], totalFiles := scan.totalFiles + 1 }
    if batchSize ≤ scan.batch.length then scan.send E client now else some scan

/-- One attempt of `_send_chunk_with_retry`: the answer, and the attempts left. -/
def attempt (chunk : DeltaChunk) (reply : Reply) (left : ℕ) (s : Dedup.State) : Option SyncResponse × ℕ × Dedup.State :=
  match reply with
  | .lost => (none, left, s)
  | .refused status => (none, if rejected status then 0 else left, s)
  | .delivered outcome answered =>
    match Dedup.syncDelta E scanner chunk outcome s with
    | (.ok r, s') => (if answered then some r else none, left, s')
    | (.error e, s') => (none, if answered = true ∧ rejected e.status = true then 0 else left, s')

inductive Step where
  | begin (task : ℕ) (connectorID jobID : String) (records : List FileRecord)
  | walk (task : ℕ) (now : ℕ → String)
  | post (task : ℕ) (reply : Reply)
  /-- `_enqueue_chunk`. -/
  | enqueue (task : ℕ) (time : ℤ)
  | flush
  /-- `flush_queue` turns to the next file. -/
  | read
  | postQueued (reply : Reply)
  | restart
  /-- A delivery of another scanner. -/
  | delivery (d : Dedup.Delivery)

def State.setScan (s : State) (task : ℕ) (scan : Option Scan) : State :=
  { s with scans := Function.update s.scans task scan }

def step (s : State) : Step → Option State
  | .begin task connectorID jobID records =>
    match s.scans task with
    | some _ => none
    | none => some { s.setScan task (some ⟨connectorID, jobID, records, [], 0, [], 0⟩) with
        begun := s.begun ++ records.map (⟨connectorID, ·⟩) }
  | .walk task now =>
    match s.scans task with
    | none => none
    | some scan =>
      if scan.unsent ≠ [] then none
      else if scan.todo = [] ∧ scan.batch = [] then some (s.setScan task none)
      else (scan.goOn E client now).map fun scan => s.setScan task (some scan)
  | .post task reply =>
    match s.scans task with
    | none => none
    | some scan =>
      match scan.unsent, scan.left with
      | chunk :: rest, left + 1 =>
        match attempt E scanner chunk reply left s.server with
        | (some _, _, server) =>
          some { s.setScan task (some { scan with unsent := rest, left := maxRetries }) with
            server := server
            answered := s.answered ++ [chunk] }
        | (none, left, server) => some { s.setScan task (some { scan with left := left }) with server := server }
      | _, _ => none
  | .enqueue task time =>
    match s.scans task with
    | none => none
    | some scan =>
      match scan.unsent, scan.left with
      | chunk :: rest, 0 =>
        some { s.setScan task (some { scan with unsent := rest, left := maxRetries }) with
          dir := enqueueChunk s.dir (chunk, time) }
      | _, _ => none
  | .flush =>
    match s.flushing with
    | some _ => none
    | none => some { s with flushing := some ⟨queued s.dir, none⟩ }
  | .read =>
    match s.flushing with
    | some ⟨[], none⟩ => some { s with flushing := none }
    | some ⟨name :: names, none⟩ =>
      some { s with flushing := some ⟨names, (s.dir.get? name).map fun chunk => (name, chunk, 3)⟩ }
    | _ => none
  | .postQueued reply =>
    match s.flushing with
    | some ⟨names, some (name, chunk, left + 1)⟩ =>
      match attempt E scanner chunk reply left s.server with
      | (some _, _, server) =>
        some { s with
          server := server
          dir := s.dir.erase name
          flushing := some ⟨names, none⟩
          answered := s.answered ++ [chunk] }
      | (none, 0, server) => some { s with server := server, flushing := some ⟨names, none⟩ }
      | (none, left + 1, server) =>
        some { s with server := server, flushing := some ⟨names, some (name, chunk, left + 1)⟩ }
    | _ => none
  | .restart => some { s with scans := fun _ => none, flushing := none }
  | .delivery d => some { s with server := d.run E s.server }

def start : State := ⟨Dedup.emptyState, PyDict.empty, fun _ => none, none, [], []⟩

variable {E scanner client} {chunk : DeltaChunk}

/-- `_send_chunk_with_retry` is one attempt after the other. -/
theorem sendChunk_succ (reply : ℕ → Reply) (left i : ℕ) (s : Dedup.State) :
    ScannerSync.sendChunk E scanner chunk reply (left + 1) i s =
      match attempt E scanner chunk (reply i) left s with
      | (some r, _, s') => (some r, s')
      | (none, left, s') => ScannerSync.sendChunk E scanner chunk reply left (i + 1) s' := by
  rw [ScannerSync.sendChunk]
  unfold attempt
  cases reply i with
  | lost => rfl
  | refused status =>
    dsimp only
    split_ifs <;> rfl
  | delivered outcome answered =>
    dsimp only
    rcases Dedup.syncDelta E scanner chunk outcome s with ⟨e | r, s'⟩
    · dsimp only
      split_ifs <;> rfl
    · cases answered <;> rfl

end Dgraphai.ScannerRuns
