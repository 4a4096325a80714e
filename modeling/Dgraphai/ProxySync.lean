import Dgraphai.Lib.PyJson
import Dgraphai.ProxyStore

/-!
# The cloud side of proxy sync (`api/proxy_sync.py`)

`proxySync` is the handler after `_validate_proxy_token` has found the tenant. Its loop sorts the deltas
into lists and acknowledges every delta it sorts; after the loop, where the bulk ingest would stand, the
lists are dropped. So the acknowledgement is true exactly where the graph agreed with the batch before
(`proxySync_honest_iff`).
-/

namespace Dgraphai.Proxy

open Replay

structure DeltaItem where
  seq : Int
  op : String
  nodeID : Option String
  edgeID : Option String
  payload : Option Json.Fields
  timestamp : Option String
  deriving DecidableEq, Repr

structure DeltaBatch where
  proxyID : String
  tenantID : String
  agentID : String
  deltas : List DeltaItem
  batchSeq : Int
  sentAt : Option String
  deriving DecidableEq, Repr

structure SyncResponse where
  ackedSeqs : List Int
  serverTimeMs : Int
  commands : List Json
  deriving DecidableEq, Repr

/-- A `dict` of properties. -/
abbrev Properties := String → Option Json

/-- The nodes and edges of one tenant in the cloud, by the ids the proxy sends. -/
abbrev CloudGraph := Table GraphKey Properties

/-- `{**payload, "tenant_id": …, "_proxy_id": …, "_agent_id": …}`: of two fields of one name the last counts. -/
def nodeDocument (tenantID : String) (batch : DeltaBatch) (payload : Json.Fields) : Json.Fields :=
  payload ++ [("tenant_id", .str tenantID), ("_proxy_id", .str batch.proxyID), ("_agent_id", .str batch.agentID)]

/-- `{**payload, "tenant_id": …}`. -/
def edgeDocument (tenantID : String) (payload : Json.Fields) : Json.Fields :=
  payload ++ [("tenant_id", .str tenantID)]

/-- The local lists of the handler. -/
structure Collected where
  nodesToUpsert : List Json.Fields
  nodesToDelete : List String
  edgesToUpsert : List Json.Fields
  ackedSeqs : List Int

/-- The body of `for delta in batch.deltas`. `None`, `""` and `{}` are falsy. -/
def collect (tenantID : String) (batch : DeltaBatch) (c : Collected) (delta : DeltaItem) : Collected :=
  let payload := delta.payload.getD []
  let nodeID := delta.nodeID.getD ""
  let edgeID := delta.edgeID.getD ""
  if delta.op = "upsert_node" ∧ payload ≠ [] then
    { c with
      nodesToUpsert := c.nodesToUpsert ++ [nodeDocument tenantID batch payload]
      ackedSeqs := c.ackedSeqs ++ [delta.seq] }
  else if delta.op = "delete_node" ∧ nodeID ≠ "" then
    { c with nodesToDelete := c.nodesToDelete ++ [nodeID], ackedSeqs := c.ackedSeqs ++ [delta.seq] }
  else if delta.op = "upsert_edge" ∧ payload ≠ [] then
    { c with
      edgesToUpsert := c.edgesToUpsert ++ [edgeDocument tenantID payload]
      ackedSeqs := c.ackedSeqs ++ [delta.seq] }
  else if delta.op = "delete_edge" ∧ edgeID ≠ "" then
    { c with ackedSeqs := c.ackedSeqs ++ [delta.seq] }
  else c

/-- `if nodes_to_upsert:`, which imports the indexer and passes. -/
def bulkIngest (_nodesToUpsert : List Json.Fields) (g : CloudGraph) : CloudGraph := g

/-- `_get_pending_commands`. -/
def getPendingCommands (_proxyID _tenantID : String) : List Json := []

def proxySync (tenantID : String) (batch : DeltaBatch) (serverTimeMs : Int) (g : CloudGraph) :
    SyncResponse × CloudGraph :=
  let c := batch.deltas.foldl (collect tenantID batch) ⟨[], [], [], []⟩
  (⟨c.ackedSeqs, serverTimeMs, getPendingCommands batch.proxyID tenantID⟩, bulkIngest c.nodesToUpsert g)

/-! ### What the deltas ask for -/

/-- The change a delta of the protocol asks of the cloud graph; nothing where its record or id is
missing, or the operation unknown. -/
def DeltaItem.change (tenantID : String) (batch : DeltaBatch) (delta : DeltaItem) :
    Option (Change GraphKey Properties) :=
  let payload := delta.payload.getD []
  let nodeID := delta.nodeID.getD ""
  let edgeID := delta.edgeID.getD ""
  if delta.op = "upsert_node" ∧ payload ≠ [] then
    some ⟨.node nodeID, some (Json.field? (nodeDocument tenantID batch payload))⟩
  else if delta.op = "delete_node" ∧ nodeID ≠ "" then some ⟨.node nodeID, none⟩
  else if delta.op = "upsert_edge" ∧ payload ≠ [] then
    some ⟨.edge edgeID, some (Json.field? (edgeDocument tenantID payload))⟩
  else if delta.op = "delete_edge" ∧ edgeID ≠ "" then some ⟨.edge edgeID, none⟩
  else none

def DeltaBatch.changes (tenantID : String) (batch : DeltaBatch) : List (Change GraphKey Properties) :=
  batch.deltas.filterMap (·.change tenantID batch)

/-- The deltas of the batch that the response acknowledges, in batch order. -/
def acknowledged (batch : DeltaBatch) (response : SyncResponse) : List DeltaItem :=
  batch.deltas.filter (·.seq ∈ response.ackedSeqs)

/-- Every acknowledged delta shows in the graph `g'` of the answer, unless a later one changes the same
node or edge, and `g'` is `g` after the acknowledged deltas one by one. -/
structure Honest (tenantID : String) (batch : DeltaBatch) (g : CloudGraph) (answer : SyncResponse × CloudGraph) :
    Prop where
  applied : ∀ pre delta post c, batch.deltas = pre ++ delta :: post → delta.seq ∈ answer.1.ackedSeqs →
    delta.change tenantID batch = some c →
    (∀ c' ∈ post.filterMap (·.change tenantID batch), c'.key ≠ c.key) → answer.2 c.key = c.value
  folded : answer.2 = replay g ((acknowledged batch answer.1).filterMap (·.change tenantID batch))

variable {tenantID : String} {batch : DeltaBatch}

/-- A delta is acknowledged exactly if it asks for a change. -/
theorem collect_ackedSeqs (c : Collected) (delta : DeltaItem) :
    (collect tenantID batch c delta).ackedSeqs =
      c.ackedSeqs ++ if (delta.change tenantID batch).isSome then [delta.seq] else [] := by
  unfold collect DeltaItem.change
  dsimp only
  split_ifs <;> simp_all

theorem foldl_collect_ackedSeqs (deltas : List DeltaItem) (c : Collected) :
    (deltas.foldl (collect tenantID batch) c).ackedSeqs =
      c.ackedSeqs ++ (deltas.filter fun d => (d.change tenantID batch).isSome).map (·.seq) := by
  induction deltas generalizing c with
  | nil => simp
  | cons d deltas ih =>
    rw [List.foldl_cons, ih, collect_ackedSeqs]
    by_cases h : (d.change tenantID batch).isSome <;> simp [h]

theorem mem_ackedSeqs (now : Int) (g : CloudGraph) (n : Int) :
    n ∈ (proxySync tenantID batch now g).1.ackedSeqs ↔
      ∃ d ∈ batch.deltas, (d.change tenantID batch).isSome ∧ d.seq = n := by
  show n ∈ (batch.deltas.foldl (collect tenantID batch) ⟨[], [], [], []⟩).ackedSeqs ↔ _
  rw [foldl_collect_ackedSeqs]
  simp [and_assoc]

theorem acknowledged_changes (now : Int) (g : CloudGraph) :
    (acknowledged batch (proxySync tenantID batch now g).1).filterMap (·.change tenantID batch) =
      batch.changes tenantID := by
  rw [acknowledged, DeltaBatch.changes, List.filterMap_filter]
  refine List.filterMap_congr fun d hd => ?_
  cases hc : d.change tenantID batch with
  | none => simp
  | some c =>
    have hack : d.seq ∈ (proxySync tenantID batch now g).1.ackedSeqs :=
      (mem_ackedSeqs now g _).2 ⟨d, hd, by rw [hc]; rfl, rfl⟩
    simp [hack]

/-- The answer is honest exactly if, for each node and edge the batch changes, the graph already holds
what the last of these deltas says. -/
theorem proxySync_honest_iff (tenantID : String) (batch : DeltaBatch) (now : Int) (g : CloudGraph) :
    Honest tenantID batch g (proxySync tenantID batch now g) ↔
      ∀ k c, (changesOf k (batch.changes tenantID)).getLast? = some c → g k = c.value := by
  have hgraph : (proxySync tenantID batch now g).2 = g := rfl
  constructor
  · intro h k c hlast
    have hfold := h.folded
    rw [acknowledged_changes, hgraph] at hfold
    rw [hfold, replay_apply, hlast]
  · intro h
    refine ⟨fun pre delta post c hsplit _ hc hpost => ?_, ?_⟩
    · have hnone : changesOf c.key (post.filterMap (·.change tenantID batch)) = [] :=
        List.filter_eq_nil_iff.2 fun c' hc' => by simpa using hpost c' hc'
      have hlast : (changesOf c.key (batch.changes tenantID)).getLast? = some c := by
        rw [DeltaBatch.changes, hsplit, List.filterMap_append, List.filterMap_cons_some hc]
        rw [changesOf, List.filter_append, List.filter_cons_of_pos (by simp), ← changesOf, ← changesOf, hnone]
        simp
      rw [hgraph]
      exact h c.key c hlast
    · rw [acknowledged_changes, hgraph]
      funext k
      rw [replay_apply]
      cases hlast : (changesOf k (batch.changes tenantID)).getLast? with
      | none => rfl
      | some c => exact h k c hlast

/-- One new node, sent by the proxy. -/
def oneNode : DeltaBatch where
  proxyID := "proxy-1"
  tenantID := "tenant-1"
  agentID := "agent-1"
  deltas := [⟨0, "upsert_node", some "f1", none, some [("id", .str "f1")], none⟩]
  batchSeq := 1
  sentAt := none

/-- The node is acknowledged and nowhere to be found. -/
theorem proxySync_drops_node :
    (proxySync "tenant-1" oneNode 0 fun _ => none).1.ackedSeqs = [0] ∧
      ¬ Honest "tenant-1" oneNode (fun _ => none) (proxySync "tenant-1" oneNode 0 fun _ => none) := by
  refine ⟨by decide, fun h => ?_⟩
  have happ := h.applied [] _ [] _ rfl (by decide) rfl (by simp)
  exact absurd happ (by simp [proxySync, bulkIngest])

end Dgraphai.Proxy
