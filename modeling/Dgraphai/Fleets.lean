import Dgraphai.ConnectorStore

/-!
# Fleets of scanner agents (`api/fleet.py`)

`assign_connectors` only hands out current members, but `create_fleet` and `update_fleet` look no agent up, and
`update_fleet` replaces the members of a fleet without a look at its assignments. So a fleet stays inside itself and
its tenant exactly as long as the requests bring agents of the tenant and keep the agents that have connectors
(`inside_always_iff`).
-/

namespace Dgraphai.Fleets

open Auth (Uuid AuthContext HttpError serverError)
open ConnectorStore (ScannerAgent)

/-- A record of `_FLEETS`; an update sets what the request holds. -/
structure Fleet where
  id : String
  name : Json
  description : Json
  tenantID : Uuid
  createdAt : String
  scanStrategy : Json
  agentIDs : Json
  connectorAssignments : PyDict String Json

/-- `_FLEETS` and `_TELEMETRY`. -/
structure Store where
  fleets : PyDict String Fleet
  telemetry : PyDict String (List Json)

def Store.empty : Store := ⟨.empty, .empty⟩

structure CreateFleetRequest where
  name : String
  description : String
  agentIDs : List String
  scanStrategy : String

structure TelemetrySubmit where
  agentID : String
  probes : List Json.Fields

structure AssignRequest where
  connectorIDs : List String
  strategy : String

inductive Reply where
  | fleet (fleet : Fleet)
  | deleted
  | received (fleetID : String)
  | assigned (fleetID : String) (assignments : PyDict String Json) (strategy : Json)

structure Platform where
  /-- The float of a text is zero. -/
  isZero : String → Bool
  /-- The `id` that a text is compared as. -/
  parseUuid : String → Option Uuid
  /-- `ScannerAgent`, by its `id`. -/
  agents : PyDict Uuid ScannerAgent

abbrev FleetRequest := Txn Store HttpError Reply

variable (P : Platform)

/-! ### The endpoints -/

def createFleet (auth : AuthContext) (req : CreateFleetRequest) (fleetID now : String) : FleetRequest := do
  let fleet : Fleet := ⟨fleetID, .str req.name, .str req.description, auth.tenantID, now, .str req.scanStrategy,
    .arr (req.agentIDs.map .str), .empty⟩
  Txn.write fun s => ⟨s.fleets.set fleetID fleet, s.telemetry.set fleetID []⟩
  pure (.fleet fleet)

/-- `_FLEETS.get(fleet_id)`, if it is of the caller's tenant. -/
def ownFleet (auth : AuthContext) (fleetID : String) : Txn Store HttpError Fleet := do
  let fleet ← Txn.read fun s => (s.fleets.get? fleetID).filter fun f => f.tenantID = auth.tenantID
  Txn.ofOption ⟨404, "Fleet not found"⟩ fleet

/-- `fleet[key] = body[key]` for the four keys. -/
def Fleet.update (fleet : Fleet) (body : Json.Fields) : Fleet :=
  { fleet with
    name := Json.getD body "name" fleet.name
    description := Json.getD body "description" fleet.description
    scanStrategy := Json.getD body "scan_strategy" fleet.scanStrategy
    agentIDs := Json.getD body "agent_ids" fleet.agentIDs }

def updateFleet (auth : AuthContext) (fleetID : String) (body : Json.Fields) : FleetRequest := do
  let fleet ← ownFleet auth fleetID
  Txn.write fun s => { s with fleets := s.fleets.set fleetID (fleet.update body) }
  pure (.fleet (fleet.update body))

def deleteFleet (auth : AuthContext) (fleetID : String) : FleetRequest := do
  let _fleet ← ownFleet auth fleetID
  Txn.write fun s => ⟨s.fleets.erase fleetID, s.telemetry.erase fleetID⟩
  pure .deleted

def submitTelemetry (auth : AuthContext) (fleetID : String) (body : TelemetrySubmit) (now : String) :
    FleetRequest := do
  let _fleet ← ownFleet auth fleetID
  let entry : Json := .obj
    [("from_agent", .str body.agentID), ("submitted_at", .str now), ("probes", .arr (body.probes.map .obj))]
  let submitted ← Txn.read fun s => (s.telemetry.get? fleetID).getD [] ++ [entry]
  Txn.write fun s => { s with telemetry := s.telemetry.set fleetID (submitted.drop (submitted.length - 100)) }
  pure (.received fleetID)

/-- `agent_ids[i % len(agent_ids)]`. -/
def agentAt (agentIDs : Json) (i : ℕ) : Option Json := agentIDs.len?.bind fun n => agentIDs.index? (i % n)

/-- The loop over `enumerate(req.connector_ids)`. -/
def roundRobin (agentIDs : Json) : List (String × ℕ) → PyDict String Json → Option (PyDict String Json)
  | [], assignments => some assignments
  | (connectorID, i) :: rest, assignments =>
    (agentAt agentIDs i).bind fun agentID => roundRobin agentIDs rest (assignments.set connectorID agentID)

/-- What the strategy assigns; `none` is a `TypeError` or `KeyError`. -/
def assignments (strategy agentIDs : Json) (connectorIDs : List String) : Option (PyDict String Json) :=
  if strategy = .str "round_robin" then roundRobin agentIDs connectorIDs.zipIdx .empty
  else if strategy = .str "capacity_weighted" ∨ strategy = .str "latency_aware" then
    roundRobin agentIDs connectorIDs.zipIdx .empty
  else some .empty

def assignConnectors (auth : AuthContext) (fleetID : String) (req : AssignRequest) : FleetRequest := do
  let fleet ← ownFleet auth fleetID
  Txn.raiseIf (fleet.agentIDs.truthy P.isZero = false) ⟨400, "Fleet has no members"⟩
  let strategy := if req.strategy ≠ "" then .str req.strategy else fleet.scanStrategy
  let assigned ← Txn.ofOption serverError (assignments strategy fleet.agentIDs req.connectorIDs)
  let fleet := { fleet with connectorAssignments := fleet.connectorAssignments.update assigned }
  Txn.write fun s => { s with fleets := s.fleets.set fleetID fleet }
  pure (.assigned fleetID assigned strategy)

inductive Action where
  /-- The id and the time are what `uuid4` and the clock give. -/
  | create (auth : AuthContext) (req : CreateFleetRequest) (fleetID now : String)
  | update (auth : AuthContext) (fleetID : String) (body : Json.Fields)
  | delete (auth : AuthContext) (fleetID : String)
  | telemetry (auth : AuthContext) (fleetID : String) (body : TelemetrySubmit) (now : String)
  | assign (auth : AuthContext) (fleetID : String) (req : AssignRequest)

def serve : Action → FleetRequest
  | .create auth req fleetID now => createFleet auth req fleetID now
  | .update auth fleetID body => updateFleet auth fleetID body
  | .delete auth fleetID => deleteFleet auth fleetID
  | .telemetry auth fleetID body now => submitTelemetry auth fleetID body now
  | .assign auth fleetID req => assignConnectors P auth fleetID req

/-- A request raises before it writes, so there is nothing that would have to be rolled back. -/
def Store.step (s : Store) (a : Action) : Option Store := some (Txn.exec (serve P a) s).2

/-! ### Fleets inside their tenant -/

/-- What a loop over `agent_ids` sees. -/
def members (agentIDs : Json) : List Json := agentIDs.iter?.getD []

/-- `ScannerAgent.id == agent_id` and `ScannerAgent.tenant_id == tenant` for some row. -/
def IsAgent (tenantID : Uuid) (agentID : Json) : Prop :=
  ∃ text id agent, agentID = .str text ∧ P.parseUuid text = some id ∧ P.agents.get? id = some agent ∧
    agent.tenantID = tenantID

structure Fleet.Inside (fleet : Fleet) : Prop where
  assigned : ∀ agentID ∈ fleet.connectorAssignments.values, agentID ∈ members fleet.agentIDs
  agents : ∀ agentID ∈ members fleet.agentIDs, IsAgent P fleet.tenantID agentID

def Store.Inside (s : Store) : Prop := ∀ fleet ∈ s.fleets.values, fleet.Inside P

/-- The request brings no agents but those of the tenant, and drops none that has connectors. -/
def Good (s : Store) : Action → Prop
  | .create auth req _ _ => ∀ agentID ∈ req.agentIDs, IsAgent P auth.tenantID (.str agentID)
  | .update auth fleetID body => ∀ fleet, s.fleets.get? fleetID = some fleet → fleet.tenantID = auth.tenantID →
      ∀ agentIDs, Json.field? body "agent_ids" = some agentIDs →
        (∀ agentID ∈ members agentIDs, IsAgent P auth.tenantID agentID) ∧
          ∀ agentID ∈ fleet.connectorAssignments.values, agentID ∈ members agentIDs
  | _ => True

/-! ### Assigning -/

theorem agentAt_mem {agentIDs agentID : Json} {i : ℕ} (h : agentAt agentIDs i = some agentID) :
    agentID ∈ members agentIDs := by
  obtain ⟨n, -, hn⟩ := Option.bind_eq_some_iff.1 h
  exact Json.mem_iter?_of_index? hn

theorem roundRobin_members {agentIDs : Json} {connectors : List (String × ℕ)} {d d' : PyDict String Json}
    (h : roundRobin agentIDs connectors d = some d') (hd : ∀ agentID ∈ d.values, agentID ∈ members agentIDs) :
    ∀ agentID ∈ d'.values, agentID ∈ members agentIDs := by
  induction connectors generalizing d with
  | nil => exact Option.some.inj h ▸ hd
  | cons c rest ih =>
    obtain ⟨agentID, hat, hrest⟩ := Option.bind_eq_some_iff.1 h
    refine ih hrest fun agentID' hmem => ?_
    rcases PyDict.mem_values_set hmem with rfl | hmem
    · exact agentAt_mem hat
    · exact hd _ hmem

theorem assignments_members {strategy agentIDs : Json} {connectorIDs : List String} {d : PyDict String Json}
    (h : assignments strategy agentIDs connectorIDs = some d) : ∀ agentID ∈ d.values, agentID ∈ members agentIDs := by
  have hempty : ∀ agentID ∈ (PyDict.empty : PyDict String Json).values, agentID ∈ members agentIDs := fun _ hmem =>
    absurd hmem List.not_mem_nil
  unfold assignments at h
  split_ifs at h
  · exact roundRobin_members h hempty
  · exact roundRobin_members h hempty
  · exact Option.some.inj h ▸ hempty

/-! ### One request -/

variable {P} {s : Store} {fleetID : String} {fleet : Fleet}

theorem ownFleet_bind_eq_ok {α : Type} {auth : AuthContext} {f : Fleet → Txn Store HttpError α} {r : α} {s' : Store} :
    (ownFleet auth fleetID >>= f) s = (.ok r, s') ↔
      ∃ fleet, (s.fleets.get? fleetID = some fleet ∧ fleet.tenantID = auth.tenantID) ∧ f fleet s = (.ok r, s') := by
  simp only [ownFleet, Txn.bind_assoc, Txn.read_bind_eq_ok, Txn.ofOption_bind_eq_ok, Option.filter_eq_some_iff,
    decide_eq_true_eq]

theorem updateFleet_eq_ok {auth : AuthContext} {body : Json.Fields} {r : Reply} {s' : Store} :
    updateFleet auth fleetID body s = (.ok r, s') ↔
      ∃ fleet, (s.fleets.get? fleetID = some fleet ∧ fleet.tenantID = auth.tenantID) ∧
        .fleet (fleet.update body) = r ∧ { s with fleets := s.fleets.set fleetID (fleet.update body) } = s' := by
  simp only [updateFleet, ownFleet_bind_eq_ok, Txn.write_bind_eq_ok, Txn.pure_eq_ok]

theorem deleteFleet_fleets {auth : AuthContext} {r : Reply} {s' : Store}
    (h : deleteFleet auth fleetID s = (.ok r, s')) : s'.fleets = s.fleets.erase fleetID := by
  simp only [deleteFleet, ownFleet_bind_eq_ok, Txn.write_bind_eq_ok, Txn.pure_eq_ok] at h
  obtain ⟨fleet, -, -, rfl⟩ := h
  rfl

theorem submitTelemetry_fleets {auth : AuthContext} {body : TelemetrySubmit} {now : String} {r : Reply} {s' : Store}
    (h : submitTelemetry auth fleetID body now s = (.ok r, s')) : s'.fleets = s.fleets := by
  simp only [submitTelemetry, ownFleet_bind_eq_ok, Txn.read_bind_eq_ok, Txn.write_bind_eq_ok, Txn.pure_eq_ok] at h
  obtain ⟨fleet, -, -, rfl⟩ := h
  rfl

theorem assignConnectors_eq_ok {auth : AuthContext} {req : AssignRequest} {r : Reply} {s' : Store}
    (h : assignConnectors P auth fleetID req s = (.ok r, s')) :
    ∃ fleet strategy assigned, s.fleets.get? fleetID = some fleet ∧
      assignments strategy fleet.agentIDs req.connectorIDs = some assigned ∧
      s' = ⟨s.fleets.set fleetID
        { fleet with connectorAssignments := fleet.connectorAssignments.update assigned }, s.telemetry⟩ := by
  obtain ⟨fleet, ⟨hget, -⟩, hrest⟩ := ownFleet_bind_eq_ok.1 h
  obtain ⟨-, hrest⟩ := Txn.raiseIf_bind_eq_ok.1 hrest
  obtain ⟨assigned, hassigned, hrest⟩ := Txn.ofOption_bind_eq_ok.1 hrest
  have hwrite := Txn.write_bind_eq_ok.1 hrest
  obtain ⟨-, rfl⟩ := Txn.pure_eq_ok.1 hwrite
  exact ⟨fleet, _, assigned, hget, hassigned, rfl⟩

/-! ### Inside -/

theorem Store.Inside.of_get? (h : s.Inside P) (hget : s.fleets.get? fleetID = some fleet) : fleet.Inside P :=
  h fleet (List.mem_map_of_mem (PyDict.mem_of_get? hget))

theorem Store.Inside.set_iff (h : s.Inside P) (telemetry : PyDict String (List Json)) :
    Store.Inside P ⟨s.fleets.set fleetID fleet, telemetry⟩ ↔ fleet.Inside P := by
  constructor
  · intro h'
    exact h' fleet (List.mem_map_of_mem (PyDict.mem_set_self s.fleets fleetID fleet))
  · intro hfleet fleet' hmem
    rcases PyDict.mem_values_set hmem with rfl | hmem
    · exact hfleet
    · exact h fleet' hmem

theorem Store.Inside.create_iff (h : s.Inside P) (auth : AuthContext) (req : CreateFleetRequest) (now : String) :
    (Txn.exec (createFleet auth req fleetID now) s).2.Inside P ↔
      ∀ agentID ∈ req.agentIDs, IsAgent P auth.tenantID (.str agentID) := by
  refine (h.set_iff _).trans ⟨fun hfleet agentID hmem => ?_, fun hagents => ⟨fun _ hmem => ?_, fun agentID hmem => ?_⟩⟩
  · exact hfleet.agents _ (List.mem_map_of_mem hmem)
  · exact absurd hmem List.not_mem_nil
  · obtain ⟨text, htext, rfl⟩ := List.mem_map.1 hmem
    exact hagents text htext

theorem Store.Inside.update_iff (h : s.Inside P) (auth : AuthContext) (body : Json.Fields) :
    (Txn.exec (updateFleet auth fleetID body) s).2.Inside P ↔ Good P s (.update auth fleetID body) := by
  rcases Txn.exec_state_cases (updateFleet auth fleetID body) s with ⟨r, hok⟩ | ⟨hsame, hfail⟩
  · obtain ⟨fleet, ⟨hget, htenant⟩, -, hs'⟩ := updateFleet_eq_ok.1 hok
    rw [← hs', h.set_iff]
    have hinside := h.of_get? hget
    constructor
    · intro hnew fleet' hget' _ agentIDs hbody
      obtain rfl := Option.some.inj (hget.symm.trans hget')
      have hids : (fleet.update body).agentIDs = agentIDs := congrArg (Option.getD · fleet.agentIDs) hbody
      exact ⟨hids ▸ htenant ▸ hnew.agents, hids ▸ hnew.assigned⟩
    · intro hgood
      cases hbody : Json.field? body "agent_ids" with
      | none =>
        have hids : (fleet.update body).agentIDs = fleet.agentIDs := congrArg (Option.getD · fleet.agentIDs) hbody
        exact ⟨hids.symm ▸ hinside.assigned, hids.symm ▸ hinside.agents⟩
      | some agentIDs =>
        have hids : (fleet.update body).agentIDs = agentIDs := congrArg (Option.getD · fleet.agentIDs) hbody
        obtain ⟨hagents, hassigned⟩ := hgood fleet hget htenant agentIDs hbody
        exact ⟨hids.symm ▸ hassigned, hids.symm ▸ htenant.symm ▸ hagents⟩
  · rw [hsame]
    refine iff_of_true h fun fleet hget htenant => ?_
    exact absurd (updateFleet_eq_ok.2 ⟨fleet, ⟨hget, htenant⟩, rfl, rfl⟩) (hfail _ _)

theorem Store.Inside.delete (h : s.Inside P) (auth : AuthContext) :
    (Txn.exec (deleteFleet auth fleetID) s).2.Inside P := by
  refine (Txn.exec_inv_iff h).2 fun r t hok => ?_
  rw [Store.Inside, deleteFleet_fleets hok]
  exact fun fleet hmem => h fleet (PyDict.mem_values_erase hmem)

theorem Store.Inside.telemetry (h : s.Inside P) (auth : AuthContext) (body : TelemetrySubmit) (now : String) :
    (Txn.exec (submitTelemetry auth fleetID body now) s).2.Inside P := by
  refine (Txn.exec_inv_iff h).2 fun r t hok => ?_
  rw [Store.Inside, submitTelemetry_fleets hok]
  exact h

theorem Store.Inside.assign (h : s.Inside P) (auth : AuthContext) (req : AssignRequest) :
    (Txn.exec (assignConnectors P auth fleetID req) s).2.Inside P := by
  refine (Txn.exec_inv_iff h).2 fun r t hok => ?_
  obtain ⟨fleet, strategy, assigned, hget, hassigned, hs'⟩ := assignConnectors_eq_ok hok
  rw [hs', h.set_iff]
  have hinside := h.of_get? hget
  refine ⟨fun agentID hmem => ?_, hinside.agents⟩
  rcases PyDict.mem_values_update hmem with hnew | hold
  · exact assignments_members hassigned agentID hnew
  · exact hinside.assigned agentID hold

theorem step_inside_iff {s' : Store} {a : Action} (h : s.Inside P) (hstep : s.step P a = some s') :
    s'.Inside P ↔ Good P s a := by
  obtain rfl := Option.some.inj hstep
  cases a with
  | create auth req fleetID now => exact h.create_iff auth req now
  | update auth fleetID body => exact h.update_iff auth body
  | delete auth fleetID => exact iff_of_true (h.delete auth) trivial
  | telemetry auth fleetID body now => exact iff_of_true (h.telemetry auth body now) trivial
  | assign auth fleetID req => exact iff_of_true (h.assign auth req) trivial

theorem inside_empty : Store.empty.Inside P := fun _ hmem => absurd hmem List.not_mem_nil

variable (P) in
/-- From the start of the process, every fleet is inside its tenant and its assignments inside the fleet in every state
reached, exactly if every request is good. -/
theorem inside_always_iff (as : List Action) :
    Runs.Always (Store.step P) (Store.Inside P) Store.empty as ↔ Runs.Along (Store.step P) (Good P) Store.empty as := by
  have hiff : Runs.Always (Store.step P) (Store.Inside P) Store.empty as ↔
      Store.empty.Inside P ∧ Runs.Along (Store.step P) (Good P) Store.empty as :=
    Runs.always_iff_and_along fun _ _ _ h hstep => step_inside_iff h hstep
  rwa [and_iff_right inside_empty] at hiff

def twoAgents : Platform where
  isZero text := text = "0.0"
  parseUuid := some
  agents := (PyDict.empty.set "a1" ⟨"t", "one", none, none⟩).set "a2" ⟨"t", "two", none, none⟩

/-- A fleet of two agents, a connector for the first, and the first taken out of the fleet. -/
def agentRemoved : List Action :=
  let auth : AuthContext := ⟨some "u", "t", "u@t", [], []⟩
  [.create auth ⟨"fleet", "", ["a1", "a2"], "round_robin"⟩ "f" "2024-01-01T00:00:00+00:00",
    .assign auth "f" ⟨["c1"], "round_robin"⟩,
    .update auth "f" [("agent_ids", .arr [.str "a2"])]]

/-- The connector is still assigned to it. -/
theorem assignment_outlives_member :
    ¬ Runs.Always (Store.step twoAgents) (Store.Inside twoAgents) Store.empty agentRemoved := by
  intro h
  have hrun : ∃ s fleet, Runs.run (Store.step twoAgents) Store.empty agentRemoved = some s ∧
      s.fleets.values = [fleet] ∧ fleet.connectorAssignments.values = [.str "a1"] ∧
      fleet.agentIDs = .arr [.str "a2"] := ⟨_, _, rfl, rfl, rfl, rfl⟩
  obtain ⟨s, fleet, hrun, hfleets, hassigned, hids⟩ := hrun
  have hinside := h agentRemoved s List.prefix_rfl hrun fleet (hfleets ▸ List.mem_singleton_self fleet)
  have hmem : Json.str "a1" ∈ members (.arr [.str "a2"]) :=
    hids ▸ hinside.assigned _ (hassigned ▸ List.mem_singleton_self _)
  exact absurd (List.mem_singleton.1 hmem) (by decide)

end Dgraphai.Fleets
