import Dgraphai.Lib.Overlay
import Mathlib.Data.List.ReduceOption

/-!
# Connector reconciliation on the Go agent

`mergeConnectors` and the config part of `run` (`agent-go/cmd/dgraph-agent/main.go`). Each fetched
platform config is laid over `cfg.Connectors`, which already holds what earlier fetches put there, so
a run of fetches is a stack of `Overlay` layers (`connectors_agentRun`) and not the latest layer over
the static list.
-/

namespace Dgraphai.Agent

/-- `config.ConnectorConfig`: one data source of the agent. -/
structure ConnectorConfig where
  id : String
  type : String
  name : String
  enabled : Bool
  settings : List (String × String)
  deriving DecidableEq, Repr

/-- `platform.ConnectorConfig`: a connector as `GET /api/agent/config` describes it. -/
structure PlatformConnector where
  id : String
  name : String
  connectorType : String
  config : List (String × String)
  scanIntervalMinutes : Nat
  enabled : Bool
  deriving DecidableEq, Repr

/-- `platform.AgentConfig`, the fields `run` reads. -/
structure AgentConfig where
  agentID : String
  tenantID : String
  connectors : List PlatformConnector
  deriving DecidableEq, Repr

/-- `config.Config`, the fields `run` reads or writes here. -/
structure Config where
  tenantID : String
  agentID : String
  connectors : List ConnectorConfig
  deriving DecidableEq, Repr

/-- The conversion inside `mergeConnectors`. -/
def PlatformConnector.toConfig (pc : PlatformConnector) : ConnectorConfig where
  id := pc.id
  type := pc.connectorType
  name := pc.name
  enabled := pc.enabled
  settings := pc.config

/-- The keys of `platMap`: every id the platform lists, enabled or not. -/
def AgentConfig.platMap (plat : AgentConfig) : List String :=
  plat.connectors.map (·.id)

/-- The platform half of `merged`. -/
def AgentConfig.enabledConnectors (plat : AgentConfig) : List ConnectorConfig :=
  (plat.connectors.filter (·.enabled)).map (·.toConfig)

def mergeConnectors (cfg : Config) (plat : AgentConfig) : Config :=
  { cfg with
    connectors := plat.enabledConnectors ++ cfg.connectors.filter (fun sc => sc.id ∉ plat.platMap) }

/-- The initial config merge of `run`; `none` is a failed `FetchConfig`. -/
def startup (cfg : Config) : Option AgentConfig → Except String Config
  | none =>
    if cfg.connectors.length = 0 then .error "no connector config available" else .ok cfg
  | some plat => .ok (mergeConnectors { cfg with tenantID := plat.tenantID, agentID := plat.agentID } plat)

/-- The `configTicker` case of `run`. -/
def refresh (cfg : Config) : Option AgentConfig → Config
  | none => cfg
  | some plat => mergeConnectors cfg plat

/-- The config of the agent after the initial fetch and a sequence of refreshes. -/
def agentRun (cfg : Config) (first : Option AgentConfig) (rest : List (Option AgentConfig)) :
    Except String Config :=
  (startup cfg first).map (rest.foldl refresh ·)

/-- The connectors `runAllScans` starts a scan for. -/
def scanTargets (cfg : Config) : List ConnectorConfig :=
  cfg.connectors.filter (·.enabled)

theorem AgentConfig.mem_enabledConnectors {plat : AgentConfig} {c : ConnectorConfig} :
    c ∈ plat.enabledConnectors ↔ ∃ pc ∈ plat.connectors, pc.enabled ∧ pc.toConfig = c := by
  simp [enabledConnectors, and_assoc]

theorem AgentConfig.id_mem_platMap {plat : AgentConfig} {c : ConnectorConfig}
    (h : c ∈ plat.enabledConnectors) : c.id ∈ plat.platMap := by
  obtain ⟨pc, hpc, -, rfl⟩ := mem_enabledConnectors.1 h
  exact List.mem_map.2 ⟨pc, hpc, rfl⟩

/-- A platform config as a layer over a connector list. -/
def AgentConfig.layer (plat : AgentConfig) : Overlay.Layer ConnectorConfig.id where
  keys := plat.platMap
  items := plat.enabledConnectors
  key_mem := fun _ h => id_mem_platMap h

theorem mergeConnectors_connectors (cfg : Config) (plat : AgentConfig) :
    (mergeConnectors cfg plat).connectors = Overlay.overlay cfg.connectors plat.layer := rfl

theorem connectors_foldl_refresh (cfg : Config) (rest : List (Option AgentConfig)) :
    (rest.foldl refresh cfg).connectors =
      Overlay.overlays cfg.connectors (rest.reduceOption.map (·.layer)) := by
  induction rest generalizing cfg with
  | nil => rfl
  | cons p rest ih =>
    cases p with
    | none => rw [List.foldl_cons, List.reduceOption_cons_of_none]; exact ih cfg
    | some plat =>
      rw [List.foldl_cons, List.reduceOption_cons_of_some]
      exact ih (mergeConnectors cfg plat)

/-- Every successful fetch of a run is a layer over the static connectors. -/
theorem connectors_agentRun {cfg cfg' : Config} {first : Option AgentConfig}
    {rest : List (Option AgentConfig)} (h : agentRun cfg first rest = .ok cfg') :
    cfg'.connectors =
      Overlay.overlays cfg.connectors ((first :: rest).reduceOption.map (·.layer)) := by
  cases first with
  | none =>
    by_cases h0 : cfg.connectors.length = 0
    · simp [agentRun, startup, h0, Except.map] at h
    · simp only [agentRun, startup, h0, if_false, Except.map, Except.ok.injEq] at h
      rw [← h, connectors_foldl_refresh, List.reduceOption_cons_of_none]
  | some plat =>
    simp only [agentRun, startup, Except.map, Except.ok.injEq] at h
    rw [← h, connectors_foldl_refresh, List.reduceOption_cons_of_some]
    rfl

/-- What reconciliation is for: the enabled connectors of the latest platform config, and the static
connectors the platform does not know. -/
def Reconciled (statics : List ConnectorConfig) (latest : AgentConfig) (cfg : Config) : Prop :=
  ∀ c, c ∈ cfg.connectors ↔
    c ∈ latest.enabledConnectors ∨ c ∈ statics ∧ c.id ∉ latest.platMap

/-- The last of `fetches` that lists connector `id`. -/
def lastListing (fetches : List AgentConfig) (id : String) : Option AgentConfig :=
  fetches.reverse.find? (fun plat => id ∈ plat.platMap)

theorem topmost_layers (fetches : List AgentConfig) (id : String) :
    Overlay.topmost (fetches.map (·.layer)) id = (lastListing fetches id).map (·.layer) := by
  rw [Overlay.topmost, lastListing, ← List.map_reverse, List.find?_map]
  rfl

/-- A run is reconciled exactly when, for every id an earlier fetch listed and the latest does not,
the last fetch that listed it had enabled exactly the static connectors of that id. -/
theorem reconciled_iff {cfg cfg' : Config} {first : Option AgentConfig}
    {rest : List (Option AgentConfig)} {earlier : List AgentConfig} {latest : AgentConfig}
    (h : agentRun cfg first rest = .ok cfg')
    (hf : (first :: rest).reduceOption = earlier ++ [latest]) :
    Reconciled cfg.connectors latest cfg' ↔
      ∀ id, id ∉ latest.platMap → ∀ plat, lastListing earlier id = some plat →
        ∀ c, c.id = id → (c ∈ plat.enabledConnectors ↔ c ∈ cfg.connectors) := by
  have hlast : ∀ c, c ∈ Overlay.overlay cfg.connectors latest.layer ↔
      c ∈ latest.enabledConnectors ∨ c ∈ cfg.connectors ∧ c.id ∉ latest.platMap :=
    fun _ => Overlay.mem_overlay
  have hrun : cfg'.connectors =
      Overlay.overlays cfg.connectors (earlier.map (·.layer) ++ [latest.layer]) := by
    rw [connectors_agentRun h, hf, List.map_append]; rfl
  simp only [Reconciled, hrun, ← hlast]
  rw [Overlay.overlays_eq_overlay_last]
  simp only [topmost_layers, Option.map_eq_some_iff]
  constructor
  · intro hk id hid plat hp c hc
    exact hk id hid plat.layer ⟨plat, hp, rfl⟩ c hc
  · rintro hk id hid _ ⟨plat, hp, rfl⟩ c hc
    exact hk id hid plat hp c hc

/-- A platform config that lists one share. -/
def nasListing (enabled : Bool) : AgentConfig :=
  ⟨"agent", "tenant", [⟨"nas", "NAS", "smb", [], 60, enabled⟩]⟩

/-- The share is assigned in one fetch and gone from the next, and stays configured. -/
theorem removed_connector_kept :
    ∃ cfg', agentRun ⟨"", "", []⟩ (some (nasListing true)) [some ⟨"agent", "tenant", []⟩] = .ok cfg' ∧
      ¬ Reconciled [] ⟨"agent", "tenant", []⟩ cfg' := by
  refine ⟨_, rfl, fun h => ?_⟩
  have hmem := (h ⟨"nas", "smb", "NAS", true, []⟩).1 (by decide)
  simp [AgentConfig.enabledConnectors] at hmem

/-- Withdrawn by listing it as disabled, the share goes and the static connector stays. -/
theorem reconciled_of_disabled :
    Reconciled [⟨"home", "local", "Home", true, []⟩] (nasListing false)
      ⟨"tenant", "agent", [⟨"home", "local", "Home", true, []⟩]⟩ := by
  have hrun : agentRun ⟨"", "", [⟨"home", "local", "Home", true, []⟩]⟩ (some (nasListing true))
      [none, some (nasListing false)] =
        .ok ⟨"tenant", "agent", [⟨"home", "local", "Home", true, []⟩]⟩ := rfl
  have hf : [some (nasListing true), none, some (nasListing false)].reduceOption =
      [nasListing true] ++ [nasListing false] := rfl
  refine (reconciled_iff hrun hf).2 fun id hid plat hp => ?_
  have hlist : id ∈ plat.platMap := by simpa using List.find?_some hp
  obtain rfl : plat = nasListing true := by simpa using List.mem_of_find?_eq_some hp
  exact absurd hlist hid

/-- A connector once enabled is scanned until a later fetch lists its id again: leaving it out of the
platform config never stops the scans. -/
theorem enabled_connector_scanned {cfg cfg' : Config} {first : Option AgentConfig}
    {rest : List (Option AgentConfig)} {pre post : List AgentConfig} {plat : AgentConfig}
    {c : ConnectorConfig} (h : agentRun cfg first rest = .ok cfg')
    (hf : (first :: rest).reduceOption = pre ++ plat :: post) (hc : c ∈ plat.enabledConnectors)
    (hpost : ∀ later ∈ post, c.id ∉ later.platMap) : c ∈ scanTargets cfg' := by
  have hen : c.enabled = true := by
    obtain ⟨pc, -, hpc, rfl⟩ := AgentConfig.mem_enabledConnectors.1 hc
    exact hpc
  have htop : lastListing (pre ++ plat :: post) c.id = some plat := by
    have hnone : post.reverse.find? (fun later => c.id ∈ later.platMap) = none := by
      simpa using hpost
    simp [lastListing, hnone, AgentConfig.id_mem_platMap hc]
  refine List.mem_filter.2 ⟨?_, hen⟩
  rw [connectors_agentRun h, hf, Overlay.mem_overlays, topmost_layers, htop]
  exact hc

end Dgraphai.Agent
