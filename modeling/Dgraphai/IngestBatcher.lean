import Dgraphai.Lib.Runs
import Mathlib.Data.List.Dedup
import Mathlib.Logic.Function.Basic

/-!
# The write batcher of dgraph-ingest (`agent-go/cmd/dgraph-ingest/main.go`)

`Submit` and both cases of `flushLoop` hold `b.mu` from the first append to the last reply, so each is
one step here; the receive at the end of `Submit` is a step of its own. The results of `UpsertFiles`
and the iteration order of `byTenant` are part of the action.
-/

namespace Dgraphai.Ingest

/-- The fields of `FileRecord` the batcher reads, and the path. -/
structure FileRecord where
  path : String
  fileCategory : String
  containsSecrets : Bool
  deriving DecidableEq, Repr

/-- `respCh` is the number of the `Submit` call that made the channel. -/
structure IngestItem where
  tenantID : String
  record : FileRecord
  scanID : String
  respCh : Nat
  deriving DecidableEq, Repr

def batchSize : Nat := 500

/-- A job published to the enrichment queue: tenant, path, category. -/
abbrev EnrichJob := String × String × String

def enrichable : List String := ["document", "image", "code", "executable", "audio", "video"]

def queueEnrichment (tenantID : String) (records : List FileRecord) : List EnrichJob :=
  let jobs := records.filter fun r =>
    r.fileCategory ∈ enrichable ∧ ¬ (r.fileCategory = "code" ∧ r.containsSecrets)
  jobs.map fun r => (tenantID, r.path, r.fileCategory)

/-- What `UpsertFiles` returned for each tenant of a batch, in the iteration order of `byTenant`. -/
abbrev Writes := List (String × Option String)

/-- `writeErr` after the loop over `byTenant`: the last error. -/
def writeErr (w : Writes) : Option String :=
  w.foldl (fun (err : Option String) r => r.2.or err) none

/-- A flushed batch. -/
structure Batch where
  items : List IngestItem
  writes : Writes
  deriving DecidableEq, Repr

def Batch.err (b : Batch) : Option String := writeErr b.writes

/-- A `Submit` call: its reply channel of capacity one, and what it has returned. -/
structure SubmitCall where
  respCh : Option (Option String)
  result : Option (Option String)
  deriving DecidableEq, Repr

structure Batcher where
  pending : List IngestItem
  calls : Nat → Option SubmitCall
  /-- `Stop` was called and the flush loop has returned. -/
  done : Bool
  batches : List Batch
  published : List EnrichJob

def Batcher.new : Batcher := ⟨[], fun _ => none, false, [], []⟩

/-- The tenants of a batch, the keys of `byTenant`. -/
def tenants (items : List IngestItem) : List String := (items.map (·.tenantID)).dedup

/-- `select { case respCh <- err: default: }`. -/
def SubmitCall.offer (err : Option String) (c : SubmitCall) : SubmitCall :=
  { c with respCh := c.respCh.or (some err) }

def offerAll (err : Option String) (calls : Nat → Option SubmitCall) (items : List IngestItem) :
    Nat → Option SubmitCall :=
  items.foldl (fun calls item =>
    Function.update calls item.respCh ((calls item.respCh).map (·.offer err))) calls

/-- `flush`; `w` has one result for each tenant of the batch. -/
def Batcher.flush (b : Batcher) (w : Writes) : Option Batcher :=
  if (w.map (·.1)).Perm (tenants b.pending) then
    if b.pending = [] then some b
    else some { b with
      pending := []
      calls := offerAll (writeErr w) b.calls b.pending
      batches := b.batches ++ [Batch.mk b.pending w]
      published := b.published ++ w.flatMap fun r =>
        queueEnrichment r.1 ((b.pending.filter (·.tenantID = r.1)).map (·.record)) }
  else none

/-- `b.pending = append(b.pending, item)`. -/
def Batcher.push (b : Batcher) (item : IngestItem) : Batcher := { b with pending := b.pending ++ [item] }

/-- The loop of `Submit` over `records`; `ws` are the results of the flushes it makes. -/
def Batcher.submitLoop (b : Batcher) (call : Nat) (tenantID scanID : String) :
    List FileRecord → List Writes → Option Batcher
  | [], ws => if ws = [] then some b else none
  | r :: records, ws =>
    let b := b.push ⟨tenantID, r, scanID, call⟩
    if batchSize ≤ b.pending.length then
      match ws with
      | [] => none
      | w :: ws => (b.flush w).bind fun b => b.submitLoop call tenantID scanID records ws
    else b.submitLoop call tenantID scanID records ws

inductive Action where
  /-- The locked part of `Submit`. -/
  | submit (call : Nat) (tenantID scanID : String) (records : List FileRecord) (ws : List Writes)
  /-- `return <-respCh`. -/
  | recv (call : Nat)
  | tick (w : Writes)
  | stop (w : Writes)
  deriving Repr

def Batcher.step (b : Batcher) : Action → Option Batcher
  | .submit call tenantID scanID records ws =>
    match b.calls call with
    | some _ => none
    | none =>
      submitLoop { b with calls := Function.update b.calls call (some ⟨none, none⟩) }
        call tenantID scanID records ws
  | .recv call =>
    match b.calls call with
    | some ⟨some err, none⟩ =>
      some { b with calls := Function.update b.calls call (some ⟨none, some err⟩) }
    | _ => none
  | .tick w => if b.done then none else b.flush w
  | .stop w => if b.done then none else (b.flush w).map fun b => { b with done := true }

/-! ### `handleDelta` -/

structure IngestRequest where
  tenantID : String
  scanID : String
  files : List FileRecord
  deriving DecidableEq, Repr

structure Response where
  status : Nat
  body : String
  deriving DecidableEq, Repr

/-- The tenant of a request: the gateway's header, else the query, else the body. -/
def tenantOf (header query : String) (req : IngestRequest) : String :=
  if header ≠ "" then header else if query ≠ "" then query else req.tenantID

/-- `body` is the decoded request, `none` where decoding fails; `submit` is the batcher. -/
def handleDelta (method header query : String) (body : Option IngestRequest)
    (submit : String → String → List FileRecord → Option String) : Response :=
  if method ≠ "POST" then ⟨405, "POST required\n"⟩ else
  match body with
  | none => ⟨400, "invalid JSON\n"⟩
  | some req =>
    if tenantOf header query req = "" ∨ req.files.length = 0 then
      ⟨400, "tenant_id and files required\n"⟩
    else
      match submit (tenantOf header query req) req.scanID req.files with
      | some _ => ⟨500, "write failed\n"⟩
      | none => ⟨200, "\x7b\"accepted\":" ++ toString req.files.length ++ ",\"scan_id\":" ++
          req.scanID.quote ++ "\x7d"⟩

/-- The handler answers success only for a `Submit` of at least one record that returned `nil`. -/
theorem handleDelta_ok {method header query : String} {body : Option IngestRequest}
    {submit : String → String → List FileRecord → Option String}
    (h : (handleDelta method header query body submit).status = 200) :
    ∃ req, body = some req ∧ tenantOf header query req ≠ "" ∧ req.files ≠ [] ∧
      submit (tenantOf header query req) req.scanID req.files = none := by
  unfold handleDelta at h
  by_cases hmethod : method ≠ "POST"
  · rw [if_pos hmethod] at h
    exact absurd h (by decide)
  rw [if_neg hmethod] at h
  cases body with
  | none => simp at h
  | some req =>
    by_cases hreq : tenantOf header query req = "" ∨ req.files.length = 0
    · simp only [if_pos hreq] at h
      exact absurd h (by decide)
    simp only [if_neg hreq] at h
    rw [not_or, List.length_eq_zero_iff] at hreq
    cases hsub : submit (tenantOf header query req) req.scanID req.files with
    | some e => simp [hsub] at h
    | none => exact ⟨req, rfl, hreq.1, hreq.2, hsub⟩

end Dgraphai.Ingest
