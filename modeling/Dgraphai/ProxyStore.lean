import Dgraphai.Lib.Json
import Dgraphai.Lib.Replay
import Dgraphai.Lib.Runs
import Std.Data.TreeMap.Lemmas

/-!
# The embedded store of dgraph-proxy (`dgraph-proxy/internal/store/store.go`)

`Store` is the Badger database of one tenant together with the goroutines inside a `db.Update`.
`UpsertNode`, `DeleteNode` and `UpsertEdge` write their record and a delta in one transaction and
read nothing, so Badger never aborts one: between `call` and `commit` other goroutines may draw a
sequence number, commit or fail. A commit writes both keys at once.
-/

namespace Dgraphai.Proxy

open Replay

/-- A `time.Time`, `0` the zero time. -/
abbrev Time := Nat

structure NodeRecord where
  id : String
  tenantID : String
  labels : List String
  properties : List (String × Json)
  createdAt : Time
  updatedAt : Time
  syncedAt : Option Time
  checksum : String
  deriving DecidableEq, Repr

structure EdgeRecord where
  id : String
  tenantID : String
  type : String
  fromID : String
  toID : String
  properties : List (String × Json)
  createdAt : Time
  updatedAt : Time
  syncedAt : Option Time
  deriving DecidableEq, Repr

inductive DeltaOp where
  | upsertNode | deleteNode | upsertEdge | deleteEdge
  deriving DecidableEq, Repr

/-- A pending change waiting to be synced to the cloud. -/
structure DeltaRecord where
  seq : Nat
  tenantID : String
  op : DeltaOp
  nodeID : String
  edgeID : String
  payload : Json
  createdAt : Time
  deriving DecidableEq, Repr

/-- A value of the database: a marshalled node or edge, or a delta. -/
inductive Value where
  | data (j : Json)
  | delta (d : DeltaRecord)
  deriving DecidableEq, Repr

/-- A `syncedAt` field with `omitempty`. -/
def syncedAtField : Option Time → List (String × Json)
  | none => []
  | some t => [("synced_at", .num t)]

/-- `json.Marshal(node)`. -/
def NodeRecord.marshal (n : NodeRecord) : Json :=
  .obj ([("id", .str n.id), ("tenant_id", .str n.tenantID), ("labels", .arr (n.labels.map .str)),
    ("properties", .obj n.properties), ("created_at", .num n.createdAt),
    ("updated_at", .num n.updatedAt)] ++ syncedAtField n.syncedAt ++ [("checksum", .str n.checksum)])

/-- `json.Marshal(edge)`. -/
def EdgeRecord.marshal (e : EdgeRecord) : Json :=
  .obj ([("id", .str e.id), ("tenant_id", .str e.tenantID), ("type", .str e.type),
    ("from_id", .str e.fromID), ("to_id", .str e.toID), ("properties", .obj e.properties),
    ("created_at", .num e.createdAt), ("updated_at", .num e.updatedAt)] ++ syncedAtField e.syncedAt)

/-! ### Keys -/

def nodeKey (tenantID id : String) : String := "n:" ++ tenantID ++ ":" ++ id

def edgeKey (tenantID id : String) : String := "e:" ++ tenantID ++ ":" ++ id

/-- `%020d`. -/
def pad20 (n : Nat) : String := String.ofList (List.leftpad 20 '0' (Nat.toDigits 10 n))

def deltaKey (tenantID : String) (seq : Nat) : String := "d:" ++ tenantID ++ ":" ++ pad20 seq

/-- A node or an edge of the graph, by its id. -/
inductive GraphKey where
  | node (id : String)
  | edge (id : String)
  deriving DecidableEq, Repr

def GraphKey.encode (tenantID : String) : GraphKey → String
  | .node id => nodeKey tenantID id
  | .edge id => edgeKey tenantID id

theorem pad20_inj {m n : Nat} (h : pad20 m = pad20 n) : m = n := by
  have hlist : List.leftpad 20 '0' (Nat.toDigits 10 m) = List.leftpad 20 '0' (Nat.toDigits 10 n) :=
    String.ofList_injective h
  have hval := congrArg (fun l => Nat.ofDigitChars 10 l 0) hlist
  simpa [List.leftpad, Nat.ofDigitChars_append, Nat.ofDigitChars_toDigits] using hval

theorem deltaKey_inj {t : String} {m n : Nat} (h : deltaKey t m = deltaKey t n) : m = n :=
  pad20_inj ((String.append_right_inj _).1 h)

theorem GraphKey.encode_inj {t : String} {k k' : GraphKey} (h : k.encode t = k'.encode t) : k = k' := by
  cases k <;> cases k' <;> simp only [encode, nodeKey, edgeKey] at h
  · rw [(String.append_right_inj _).1 h]
  · have := congrArg String.toList h
    simp at this
  · have := congrArg String.toList h
    simp at this
  · rw [(String.append_right_inj _).1 h]

theorem GraphKey.encode_ne_deltaKey (t : String) (k : GraphKey) (n : Nat) :
    k.encode t ≠ deltaKey t n := by
  intro h
  have := congrArg String.toList h
  cases k <;> simp [encode, nodeKey, edgeKey, deltaKey] at this

/-! ### Transactions -/

/-- A call of one of the three writers. `uuid` is the id `uuid.NewString` would hand out. -/
inductive Call where
  | upsertNode (node : NodeRecord) (uuid : String)
  | deleteNode (id : String)
  | upsertEdge (edge : EdgeRecord) (uuid : String)
  deriving DecidableEq, Repr

/-- The body of a `db.Update`: the graph key it sets (or deletes) and the delta it queues, which gets
its `seq` in `writeDelta`. -/
structure Update where
  key : GraphKey
  value : Option Json
  delta : DeltaRecord
  deriving DecidableEq, Repr

def upsertNode (tenantID : String) (now : Time) (node : NodeRecord) (uuid : String) : Update :=
  let node := { node with
    id := if node.id = "" then uuid else node.id
    tenantID := tenantID
    createdAt := if node.createdAt = 0 then now else node.createdAt
    updatedAt := now }
  { key := .node node.id
    value := some node.marshal
    delta := ⟨0, tenantID, .upsertNode, node.id, "", node.marshal, now⟩ }

def deleteNode (tenantID : String) (now : Time) (id : String) : Update :=
  { key := .node id
    value := none
    delta := ⟨0, tenantID, .deleteNode, id, "", .obj [("id", .str id)], now⟩ }

def upsertEdge (tenantID : String) (now : Time) (edge : EdgeRecord) (uuid : String) : Update :=
  let edge := { edge with
    id := if edge.id = "" then uuid else edge.id
    tenantID := tenantID
    createdAt := if edge.createdAt = 0 then now else edge.createdAt
    updatedAt := now }
  { key := .edge edge.id
    value := some edge.marshal
    delta := ⟨0, tenantID, .upsertEdge, "", edge.id, edge.marshal, now⟩ }

def Call.update (tenantID : String) (now : Time) : Call → Update
  | .upsertNode node uuid => Proxy.upsertNode tenantID now node uuid
  | .deleteNode id => Proxy.deleteNode tenantID now id
  | .upsertEdge edge uuid => Proxy.upsertEdge tenantID now edge uuid

/-- The change a delta asks of the cloud graph. -/
def DeltaRecord.change (d : DeltaRecord) : Change GraphKey Json :=
  match d.op with
  | .upsertNode => ⟨.node d.nodeID, some d.payload⟩
  | .deleteNode => ⟨.node d.nodeID, none⟩
  | .upsertEdge => ⟨.edge d.edgeID, some d.payload⟩
  | .deleteEdge => ⟨.edge d.edgeID, none⟩

/-- A goroutine inside `db.Update`. -/
structure Txn where
  call : Call
  now : Time
  seq : Option Nat
  deriving DecidableEq, Repr

abbrev KV := Std.TreeMap String Value

/-- `txn.Set` or `txn.Delete`. -/
def KV.put (kv : KV) (key : String) : Option Value → KV
  | some v => kv.insert key v
  | none => kv.erase key

/-- `acked` and `history` are what the queue no longer shows: the deltas removed by `AckDeltas`, and
all committed deltas in commit order. -/
structure Store where
  tenantID : String
  kv : KV
  /-- The next number `s.seq` hands out. -/
  nextSeq : Nat
  txns : Nat → Option Txn
  acked : List DeltaRecord
  history : List DeltaRecord

def Store.open (tenantID : String) : Store := ⟨tenantID, ∅, 0, fun _ => none, [], []⟩

/-- The delta of a transaction that has drawn `seq`. -/
def Txn.delta (t : Txn) (tenantID : String) (seq : Nat) : DeltaRecord :=
  { (t.call.update tenantID t.now).delta with seq := seq }

/-- The writes of a transaction that has drawn `seq`. -/
def Store.write (s : Store) (t : Txn) (seq : Nat) : KV :=
  let u := t.call.update s.tenantID t.now
  (s.kv.put (u.key.encode s.tenantID) (u.value.map .data)).put (deltaKey s.tenantID seq)
    (some (.delta (t.delta s.tenantID seq)))

/-- One key of `AckDeltas`. -/
def Store.ackOne (s : Store) (seq : Nat) : Store :=
  let key := deltaKey s.tenantID seq
  { s with
    kv := s.kv.put key none
    acked := s.acked ++ match s.kv[key]? with
      | some (.delta d) => [d]
      | _ => [] }

inductive Action where
  /-- Goroutine `g` enters a writer. -/
  | call (g : Nat) (c : Call) (now : Time)
  /-- `s.seq.Next()` in `writeDelta`. -/
  | next (g : Nat)
  | commit (g : Nat)
  /-- The transaction function of `g` returns an error. -/
  | fail (g : Nat)
  | ackDeltas (seqs : List Nat)
  /-- The process dies and opens the store again; `lost` numbers of the lease are never used. -/
  | reopen (lost : Nat)
  deriving Repr

def Store.step (s : Store) : Action → Option Store
  | .call g c now =>
    match s.txns g with
    | none => some { s with txns := Function.update s.txns g (some ⟨c, now, none⟩) }
    | some _ => none
  | .next g =>
    match s.txns g with
    | some ⟨c, now, none⟩ =>
      some { s with
        txns := Function.update s.txns g (some ⟨c, now, some s.nextSeq⟩), nextSeq := s.nextSeq + 1 }
    | _ => none
  | .commit g =>
    match s.txns g with
    | some ⟨c, now, some seq⟩ =>
      some { s with
        kv := s.write ⟨c, now, some seq⟩ seq
        txns := Function.update s.txns g none
        history := s.history ++ [Txn.delta ⟨c, now, some seq⟩ s.tenantID seq] }
    | _ => none
  | .fail g =>
    match s.txns g with
    | some _ => some { s with txns := Function.update s.txns g none }
    | none => none
  | .ackDeltas seqs => some (seqs.foldl Store.ackOne s)
  | .reopen lost => some { s with txns := fun _ => none, nextSeq := s.nextSeq + lost }

/-- One item of the prefix iteration in `DrainDeltas`. -/
def scanDelta (tenantID key : String) : Value → Option DeltaRecord
  | .delta d => if ("d:" ++ tenantID ++ ":").toList.isPrefixOf key.toList then some d else none
  | .data _ => none

/-- What `DrainDeltas` reads, in key order. -/
def Store.pending (s : Store) : List DeltaRecord :=
  s.kv.toList.filterMap fun item => scanDelta s.tenantID item.1 item.2

theorem scanDelta_eq_some {tenantID key : String} {v : Value} {d : DeltaRecord}
    (h : scanDelta tenantID key v = some d) : v = .delta d := by
  cases v with
  | data j => simp [scanDelta] at h
  | delta d' =>
    rw [scanDelta] at h
    split_ifs at h
    rw [Option.some.inj h]

theorem scanDelta_deltaKey (tenantID : String) (n : Nat) (d : DeltaRecord) :
    scanDelta tenantID (deltaKey tenantID n) (.delta d) = some d := by
  rw [scanDelta, if_pos]
  simp [deltaKey, List.isPrefixOf_iff_prefix]

/-- The node and edge tables. -/
def Store.graph (s : Store) : Table GraphKey Json := fun k =>
  match s.kv[k.encode s.tenantID]? with
  | some (.data j) => some j
  | _ => none

end Dgraphai.Proxy
