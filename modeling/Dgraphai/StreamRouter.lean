import Dgraphai.AuthTables
import Dgraphai.Lib.PyDict
import Dgraphai.Lib.PyFloat

/-!
# Stream routing (`streaming/router.py`, `api/stream.py`, `api/scanner.py`)

Every accepted heartbeat registers its scanner in the one topology map of the process, under its id; nothing
takes an agent offline. `list_sources` lists the map, and `stream_query` names the agent of the lowest routing score
in its headers. `none` is a raised exception.
-/

namespace Dgraphai.Streaming

open Auth (Uuid)

/-! ### The router -/

structure AgentTopology where
  agentID : String
  region : String
  datacenter : String
  latencyMatrix : PyDict String Float
  bandwidthMbps : Float
  isOnline : Bool
  indexedConnectors : List String

/-- What the standard library computes: the logarithm of the positive finite numbers, and `list.sort` by the second
component. Python leaves the order open where a score is a NaN. -/
structure Library where
  logarithm : Float → Float
  sort : List (AgentTopology × Float) → List (AgentTopology × Float)

namespace AgentTopology
variable (L : Library) (t : AgentTopology)

def latencyTo (region : String) : Float :=
  if t.region = region then 1.0 else (t.latencyMatrix.get? region).getD 999.0

def routingScore (targetRegion : String) : Option Float := do
  let latency := t.latencyTo targetRegion
  let bwBonus ← PyFloat.log2 L.logarithm (t.bandwidthMbps + 1)
  pure (latency / PyFloat.max bwBonus 1.0)

/-- `connector_ids and not any(c in topo.indexed_connectors for c in connector_ids)`, negated. -/
def Has (connectorIDs : List String) : Prop :=
  connectorIDs = [] ∨ ∃ c ∈ connectorIDs, c ∈ t.indexedConnectors

instance (connectorIDs : List String) : Decidable (t.Has connectorIDs) := inferInstanceAs (Decidable (_ ∨ _))

end AgentTopology

structure StreamRouter where
  topology : PyDict String AgentTopology

/-- The agents with their scores, as the key of a sort is computed: for one after the other. -/
def scored (L : Library) (region : String) (agents : List AgentTopology) : Option (List (AgentTopology × Float)) :=
  agents.mapM fun t => (t.routingScore L region).map fun score => (t, score)

namespace StreamRouter
variable (L : Library) (r : StreamRouter)

def registerAgent (t : AgentTopology) : StreamRouter := ⟨r.topology.set t.agentID t⟩

def selectSource (connectorIDs : List String) (requesterRegion : String) (excludeAgents : List String) :
    Option (Option AgentTopology) :=
  match r.topology.values.filter fun t => t.isOnline ∧ t.agentID ∉ excludeAgents ∧ t.Has connectorIDs with
  | [] => some none
  | candidates => do
    let candidates ← scored L requesterRegion candidates
    let best ← (L.sort candidates).head?
    pure (some best.1)

def rankedSources (connectorIDs : List String) (requesterRegion : String) : Option (List (AgentTopology × Float)) := do
  let results ← scored L requesterRegion (r.topology.values.filter fun t => t.isOnline ∧ t.Has connectorIDs)
  pure (L.sort results)

end StreamRouter

/-! ### Heartbeats -/

structure HeartbeatPayload where
  version : String
  platform : String
  uptimeSecs : Int
  filesIndexed : Int
  errors : Int
  connectors : Int
  scanning : Bool
  region : String := "unknown"
  datacenter : String := "unknown"
  latencyMatrix : PyDict String Float := .empty
  bandwidthMbps : Float := 100.0
  indexedConnectors : List String := []

structure ScannerHealth where
  uptimeSecs : Int
  filesIndexed : Int
  errors : Int
  connectors : Int
  scanning : Bool
  reportedAt : String
  deriving DecidableEq, Repr

structure ScannerAgent where
  id : Uuid
  tenantID : Uuid
  version : String
  platform : String
  lastHealth : Option ScannerHealth
  deriving DecidableEq, Repr

def HeartbeatPayload.topology (payload : HeartbeatPayload) (scanner : ScannerAgent) : AgentTopology where
  agentID := scanner.id
  region := payload.region
  datacenter := payload.datacenter
  latencyMatrix := payload.latencyMatrix
  bandwidthMbps := payload.bandwidthMbps
  isOnline := true
  indexedConnectors := payload.indexedConnectors

/-- `heartbeat`; `now` is the time it reports, as text. -/
def heartbeat (now : String) (payload : HeartbeatPayload) (scanner : ScannerAgent) (r : StreamRouter) :
    ScannerAgent × StreamRouter :=
  ({ scanner with
      version := payload.version
      platform := payload.platform
      lastHealth := some ⟨payload.uptimeSecs, payload.filesIndexed, payload.errors, payload.connectors,
        payload.scanning, now⟩ },
    r.registerAgent (payload.topology scanner))

/-! ### Requests -/

/-- An entry of `sources`. -/
structure Source where
  agentID : String
  region : String
  datacenter : String
  isOnline : Bool
  bandwidthMbps : Float
  connectors : List String

structure Sources where
  sources : List Source
  routingHint : String

def listSources (r : StreamRouter) : Sources where
  sources := (r.topology.values.filter (·.isOnline)).map fun t =>
    ⟨t.agentID, t.region, t.datacenter, t.isOnline, t.bandwidthMbps, t.indexedConnectors⟩
  routingHint := "Set X-Requester-Region header to your cloud region (e.g. us-east-1) for optimal source routing."

/-- `X-Source-Agent` and `X-Source-Region` of `stream_query`. -/
def sourceHeaders (L : Library) (r : StreamRouter) (requesterRegion : Option String) : Option (String × String) := do
  let region := (requesterRegion.filter (· ≠ "")).getD "unknown"
  let source ← r.selectSource L [] region []
  pure ((source.map AgentTopology.agentID).getD "direct", (source.map AgentTopology.region).getD "direct")

/-! ### Histories -/

/-- A heartbeat that `_get_scanner` has let in. -/
structure Heartbeat where
  now : String
  payload : HeartbeatPayload
  scanner : ScannerAgent

/-- The router of a process, which starts empty, after a heartbeat. -/
def step (r : StreamRouter) (h : Heartbeat) : Option StreamRouter :=
  some (heartbeat h.now h.payload h.scanner r).2

def StreamRouter.start : StreamRouter := ⟨.empty⟩

/-- The router after heartbeats. -/
def after (hs : List Heartbeat) : StreamRouter := hs.foldl (fun r h => (heartbeat h.now h.payload h.scanner r).2) .start

end Dgraphai.Streaming
