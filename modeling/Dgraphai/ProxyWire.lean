import Dgraphai.ProxyReplay
import Dgraphai.ProxySync

/-!
# The wire between proxy and cloud (`internal/delta/protocol.go`, `api/proxy_sync.py`)

The proxy encodes its deltas with `omitempty` fields, the cloud decodes them into models with optional
fields and tests these for truth. Every delta the local API can produce comes through
(`Produced.change_isSome`), so a batch of them is acknowledged whole (`proxySync_acknowledges`). The one
that would not is a `delete_node` without an id, which no request is routed to.
-/

namespace Dgraphai.Proxy

/-! ### The Go side -/

/-- `string(d.Op)`. -/
def DeltaOp.text : DeltaOp → String
  | .upsertNode => "upsert_node"
  | .deleteNode => "delete_node"
  | .upsertEdge => "upsert_edge"
  | .deleteEdge => "delete_edge"

/-- A string field with `omitempty`. -/
def omitEmpty (name value : String) : Json.Fields := if value = "" then [] else [(name, .str value)]

section
variable (rfc3339 : Time → String)

/-- `json.Marshal` of the `delta.DeltaItem` of a drained delta; `rfc3339` is the encoding of times. -/
def DeltaRecord.encode (d : DeltaRecord) : Json :=
  .obj ([("seq", .num d.seq), ("op", .str d.op.text)] ++ omitEmpty "node_id" d.nodeID ++
    omitEmpty "edge_id" d.edgeID ++ [("payload", d.payload), ("timestamp", .str (rfc3339 d.createdAt))])

/-- The identity a proxy is configured with. -/
structure ProxyConfig where
  proxyID : String
  tenantID : String
  agentID : String

/-- `json.Marshal` of the `delta.DeltaBatch` built in `sync`, less its statistics. -/
def encodeBatch (cfg : ProxyConfig) (pending : List DeltaRecord) (batchSeq : Nat) (sentAt : Time) : Json :=
  .obj [("proxy_id", .str cfg.proxyID), ("tenant_id", .str cfg.tenantID), ("agent_id", .str cfg.agentID),
    ("deltas", .arr (pending.map (·.encode rfc3339))), ("batch_seq", .num batchSeq),
    ("sent_at", .str (rfc3339 sentAt))]

end

/-! ### The Python side -/

def asStr : Json → Option String
  | .str s => some s
  | _ => none

def asInt : Json → Option Int
  | .num n => some n
  | _ => none

/-- A field of type `T | None = None`. -/
def optional {α : Type} (read : Json → Option α) : Option Json → Option (Option α)
  | none => some none
  | some .null => some none
  | some j => (read j).map some

/-- The model `DeltaItem`; `none` is a validation error. -/
def deltaItem? (j : Json) : Option DeltaItem := do
  let fields ← Json.asDict j
  let seq ← (Json.field? fields "seq").bind asInt
  let op ← (Json.field? fields "op").bind asStr
  let nodeID ← optional asStr (Json.field? fields "node_id")
  let edgeID ← optional asStr (Json.field? fields "edge_id")
  let payload ← optional Json.asDict (Json.field? fields "payload")
  let timestamp ← optional asStr (Json.field? fields "timestamp")
  return ⟨seq, op, nodeID, edgeID, payload, timestamp⟩

/-- A list field with `default_factory=list`. -/
def listField {α : Type} (read : Json → Option α) : Option Json → Option (List α)
  | none => some []
  | some (.arr items) => items.mapM read
  | some _ => none

/-- The model `DeltaBatch`. -/
def deltaBatch? (j : Json) : Option DeltaBatch := do
  let fields ← Json.asDict j
  let proxyID ← (Json.field? fields "proxy_id").bind asStr
  let tenantID ← (Json.field? fields "tenant_id").bind asStr
  let agentID ← (Json.field? fields "agent_id").bind asStr
  let deltas ← listField deltaItem? (Json.field? fields "deltas")
  let batchSeq ← asInt ((Json.field? fields "batch_seq").getD (.num 0))
  let sentAt ← optional asStr (Json.field? fields "sent_at")
  return ⟨proxyID, tenantID, agentID, deltas, batchSeq, sentAt⟩

/-! ### The round trip -/

/-- The delta as the cloud sees it. -/
def DeltaRecord.item (rfc3339 : Time → String) (d : DeltaRecord) : DeltaItem where
  seq := d.seq
  op := d.op.text
  nodeID := if d.nodeID = "" then none else some d.nodeID
  edgeID := if d.edgeID = "" then none else some d.edgeID
  payload := Json.asDict d.payload
  timestamp := some (rfc3339 d.createdAt)

/-- A batch of the proxy as the cloud sees it. -/
def decodedBatch (rfc3339 : Time → String) (cfg : ProxyConfig) (pending : List DeltaRecord) (batchSeq : Nat)
    (sentAt : Time) : DeltaBatch where
  proxyID := cfg.proxyID
  tenantID := cfg.tenantID
  agentID := cfg.agentID
  deltas := pending.map (·.item rfc3339)
  batchSeq := batchSeq
  sentAt := some (rfc3339 sentAt)

theorem deltaItem?_encode (rfc3339 : Time → String) {d : DeltaRecord} {fields : Json.Fields}
    (h : d.payload = .obj fields) : deltaItem? (d.encode rfc3339) = some (d.item rfc3339) := by
  by_cases hn : d.nodeID = "" <;> by_cases he : d.edgeID = "" <;>
    simp [deltaItem?, DeltaRecord.encode, DeltaRecord.item, omitEmpty, hn, he, h, Json.field?, Json.asDict,
      optional, asInt, asStr]

theorem deltaBatch?_encodeBatch (rfc3339 : Time → String) (cfg : ProxyConfig) {pending : List DeltaRecord}
    (h : ∀ d ∈ pending, ∃ fields, d.payload = .obj fields) (batchSeq : Nat) (sentAt : Time) :
    deltaBatch? (encodeBatch rfc3339 cfg pending batchSeq sentAt) =
      some (decodedBatch rfc3339 cfg pending batchSeq sentAt) := by
  have hitems : (pending.map (·.encode rfc3339)).mapM deltaItem? = some (pending.map (·.item rfc3339)) := by
    induction pending with
    | nil => rfl
    | cons d pending ih =>
      obtain ⟨fields, hfields⟩ := h d (by simp)
      rw [List.map_cons, List.mapM_cons, deltaItem?_encode rfc3339 hfields, ih fun d' hd' => h d' (by simp [hd'])]
      rfl
  simp [deltaBatch?, encodeBatch, decodedBatch, Json.field?, Json.asDict, optional, asInt, asStr, listField, hitems]

/-! ### What the local API produces -/

section
variable (urlParam : String → Option String)

/-- The calls the handlers of the local API make. `urlParam` is the router: the `id` of the path of a
`DELETE /api/v1/nodes/{id}`, if the path is one. -/
def Call.Served : Call → Prop
  | .deleteNode id => ∃ path, urlParam path = some id
  | _ => True

def Action.Served : Action → Prop
  | .call _ c _ => c.Served urlParam
  | _ => True

end

/-- The shape of a delta that the cloud can place. -/
structure Produced (d : DeltaRecord) : Prop where
  payload : ∃ fields, d.payload = .obj fields ∧ fields ≠ []
  op : d.op ≠ .deleteEdge
  nodeID : d.op = .deleteNode → d.nodeID ≠ ""

variable {urlParam : String → Option String} {s s' : Store}

theorem Txn.delta_produced (hparam : ∀ path id, urlParam path = some id → id ≠ "") {t : Txn}
    (h : t.call.Served urlParam) (tenantID : String) (n : Nat) : Produced (t.delta tenantID n) := by
  obtain ⟨c, now, seq⟩ := t
  cases c with
  | upsertNode node uuid =>
    exact ⟨⟨_, rfl, by simp⟩, by simp [Txn.delta, Call.update, upsertNode], by simp [Txn.delta, Call.update, upsertNode]⟩
  | deleteNode id =>
    obtain ⟨path, hpath⟩ := h
    exact ⟨⟨_, rfl, by simp⟩, by simp [Txn.delta, Call.update, deleteNode], fun _ => hparam path id hpath⟩
  | upsertEdge edge uuid =>
    exact ⟨⟨_, rfl, by simp⟩, by simp [Txn.delta, Call.update, upsertEdge], by simp [Txn.delta, Call.update, upsertEdge]⟩

/-- The open transactions are calls of the handlers, and what they have committed can be placed. -/
structure Store.Serving (urlParam : String → Option String) (s : Store) : Prop where
  calls : ∀ g t, s.txns g = some t → t.call.Served urlParam
  history : ∀ d ∈ s.history, Produced d

theorem Store.Serving.setTxn (h : s.Serving urlParam) (g : Nat) {x : Option Txn}
    (hx : ∀ t, x = some t → t.call.Served urlParam) :
    ∀ g' t, Function.update s.txns g x g' = some t → t.call.Served urlParam := by
  intro g' t ht
  rcases eq_or_ne g' g with rfl | hne
  · rw [Function.update_self] at ht
    exact hx t ht
  · rw [Function.update_of_ne hne] at ht
    exact h.calls g' t ht

theorem Store.serving_step (hparam : ∀ path id, urlParam path = some id → id ≠ "") (h : s.Serving urlParam)
    {a : Action} (ha : a.Served urlParam) (hstep : s.step a = some s') : s'.Serving urlParam := by
  cases a with
  | call g c now =>
    simp only [step] at hstep
    split at hstep
    · cases hstep
      exact ⟨h.setTxn g fun t ht => by cases ht; exact ha, h.history⟩
    · cases hstep
  | next g =>
    simp only [step] at hstep
    split at hstep
    next c now hg =>
      cases hstep
      have hc : c.Served urlParam := h.calls g _ hg
      exact ⟨h.setTxn g fun t ht => by cases ht; exact hc, h.history⟩
    next => cases hstep
  | commit g =>
    simp only [step] at hstep
    split at hstep
    next c now n hg =>
      cases hstep
      refine ⟨h.setTxn g (by simp), fun d hd => ?_⟩
      rcases List.mem_append.1 hd with hd | hd
      · exact h.history d hd
      · rw [List.mem_singleton.1 hd]
        exact Txn.delta_produced hparam (h.calls g _ hg) _ _
    next => cases hstep
  | fail g =>
    simp only [step] at hstep
    split at hstep
    · cases hstep
      exact ⟨h.setTxn g (by simp), h.history⟩
    · cases hstep
  | ackDeltas seqs =>
    cases hstep
    refine ⟨?_, ?_⟩
    · rw [ackDeltas_txns]; exact h.calls
    · rw [(ackDeltas_frame s seqs).1]; exact h.history
  | reopen lost => cases hstep; exact ⟨by simp, h.history⟩

theorem Store.serving_run (hparam : ∀ path id, urlParam path = some id → id ≠ "") {as : List Action}
    (ha : ∀ a ∈ as, a.Served urlParam) (h : s.Serving urlParam) (hrun : Runs.run Store.step s as = some s') :
    s'.Serving urlParam := by
  induction as generalizing s with
  | nil => cases hrun; exact h
  | cons a as ih =>
    obtain ⟨t, ht, hrun⟩ := Runs.run_cons.1 hrun
    exact ih (fun b hb => ha b (by simp [hb])) (serving_step hparam h (ha a (by simp)) ht) hrun

/-! ### The acknowledgement -/

variable {tenantID : String} {batch : DeltaBatch}

/-- A delta of the proxy asks for a change exactly if it is no `delete_node` without an id. -/
theorem DeltaRecord.item_change_isSome (rfc3339 : Time → String) {d : DeltaRecord}
    (hpayload : ∃ fields, d.payload = .obj fields ∧ fields ≠ []) (hop : d.op ≠ .deleteEdge) :
    ((d.item rfc3339).change tenantID batch).isSome ↔ ¬ (d.op = .deleteNode ∧ d.nodeID = "") := by
  obtain ⟨fields, hfields, hne⟩ := hpayload
  cases hd : d.op with
  | upsertNode => simp [DeltaItem.change, item, hd, DeltaOp.text, hfields, Json.asDict, hne]
  | deleteNode =>
    by_cases hn : d.nodeID = "" <;> simp [DeltaItem.change, item, hd, DeltaOp.text, hn]
  | upsertEdge => simp [DeltaItem.change, item, hd, DeltaOp.text, hfields, Json.asDict, hne]
  | deleteEdge => exact absurd hd hop

/-- The answer to a batch of deltas of the local API acknowledges all of them, and with the acknowledged
numbers removed none of them is left in the queue. -/
theorem proxySync_acknowledges (urlParam : String → Option String)
    (hparam : ∀ path id, urlParam path = some id → id ≠ "") (rfc3339 : Time → String) (tenantID : String)
    (as : List Action) (hserved : ∀ a ∈ as, a.Served urlParam) (s : Store)
    (hrun : Runs.run Store.step (Store.open tenantID) as = some s) (sent : List DeltaRecord)
    (hsent : ∀ d ∈ sent, d ∈ s.history) (cfg : ProxyConfig) (batchSeq : Nat) (sentAt : Time) :
    ∃ batch, deltaBatch? (encodeBatch rfc3339 cfg sent batchSeq sentAt) = some batch ∧
      ∀ (tenant : String) (now : Int) (g : CloudGraph), ∀ d ∈ sent,
        (d.seq : Int) ∈ (proxySync tenant batch now g).1.ackedSeqs ∧
        d ∉ (((proxySync tenant batch now g).1.ackedSeqs.map Int.toNat).foldl Store.ackOne s).pending := by
  have hserving : s.Serving urlParam :=
    Store.serving_run hparam hserved ⟨by simp [Store.open], by simp [Store.open]⟩ hrun
  have hinv : s.Inv := Runs.inv_run (fun _ _ _ hi hs => Store.inv_step hi hs) hrun (Store.inv_open tenantID)
  have hpayload : ∀ d ∈ sent, ∃ fields, d.payload = .obj fields := by
    intro d hd
    obtain ⟨fields, hfields, -⟩ := (hserving.history d (hsent d hd)).payload
    exact ⟨fields, hfields⟩
  refine ⟨_, deltaBatch?_encodeBatch rfc3339 cfg hpayload batchSeq sentAt, ?_⟩
  intro tenant now g d hd
  have hd' := hserving.history d (hsent d hd)
  have hack : (d.seq : Int) ∈
      (proxySync tenant (decodedBatch rfc3339 cfg sent batchSeq sentAt) now g).1.ackedSeqs := by
    refine (mem_ackedSeqs now g _).2 ⟨d.item rfc3339, List.mem_map_of_mem hd, ?_, rfl⟩
    exact (d.item_change_isSome rfc3339 hd'.payload hd'.op).2 fun h => hd'.nodeID h.1 h.2
  refine ⟨hack, fun hpend => ?_⟩
  have hmem := ((hinv.ackDeltas _).mem_pending d).1 hpend
  exact hmem.2 ((hinv.mem_acked_ackDeltas _ d).2 (.inr ⟨hsent d hd, List.mem_map.2 ⟨_, hack, by simp⟩⟩))

/-- The route of `/api/v1/nodes/{id}`: the last segment, which is not empty. -/
def nodesPath (path : String) : Option String :=
  match path.toList.dropPrefix? "/api/v1/nodes/".toList with
  | some id => if id = [] ∨ '/' ∈ id then none else some (String.ofList id)
  | none => none

theorem nodesPath_ne_empty (path id : String) (h : nodesPath path = some id) : id ≠ "" := by
  rw [nodesPath] at h
  split at h
  next rest hrest =>
    split_ifs at h with hid
    rintro rfl
    have hnil : rest = [] := by simpa using congrArg String.toList (Option.some.inj h)
    exact hid (.inl hnil)
  next => cases h

/-- `DELETE /api/v1/nodes/n1`. -/
def deletesNode : List Action := [.call 0 (.deleteNode "n1") 7, .next 0, .commit 0]

theorem deletesNode_acknowledged :
    ∃ s batch, Runs.run Store.step (Store.open "t") deletesNode = some s ∧
      deltaBatch? (encodeBatch (fun _ => "2026-01-01T00:00:00Z") ⟨"p", "t", "a"⟩ s.history 1 8) = some batch ∧
      ∀ (tenant : String) (now : Int) (g : CloudGraph), ∀ d ∈ s.history,
        (d.seq : Int) ∈ (proxySync tenant batch now g).1.ackedSeqs ∧
        d ∉ (((proxySync tenant batch now g).1.ackedSeqs.map Int.toNat).foldl Store.ackOne s).pending := by
  have hserved : ∀ a ∈ deletesNode, a.Served nodesPath := by
    intro a ha
    simp only [deletesNode, List.mem_cons, List.not_mem_nil, or_false] at ha
    rcases ha with rfl | rfl | rfl
    · exact ⟨"/api/v1/nodes/n1", by decide⟩
    · trivial
    · trivial
  obtain ⟨batch, hbatch, hack⟩ := proxySync_acknowledges nodesPath nodesPath_ne_empty
    (fun _ => "2026-01-01T00:00:00Z") "t" deletesNode hserved _ rfl _ (fun _ hd => hd) ⟨"p", "t", "a"⟩ 1 8
  exact ⟨_, batch, rfl, hbatch, hack⟩

end Dgraphai.Proxy
