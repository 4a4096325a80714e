import Dgraphai.AuthContext
import Dgraphai.Lib.PyDict
import Dgraphai.Lib.PyJson
import Dgraphai.Lib.Runs
import Mathlib.Data.List.Sort

/-!
# Connectors and the scanner agents they go through (`api/connectors_full.py`)

`create_connector` looks the agent of a new connector up in the tenant of the caller. `update_connector` copies the
fields of its request, the agent id among them, and only the foreign key asks whether there is such an agent; the two
readers look an agent up by its id alone. So agents of other tenants come in by an update and by nothing else
(`confined_always_iff`).
-/

namespace Dgraphai.ConnectorStore

open Auth (Uuid Time AuthContext HttpError serverError)

/-- `ScannerAgent`, by its `id`. -/
structure ScannerAgent where
  tenantID : Uuid
  name : String
  platform : Option String
  lastSeen : Option Time
  deriving DecidableEq, Repr

/-- `Connector`, by its `id`. -/
structure Connector where
  tenantID : Uuid
  name : String
  description : String
  connectorType : String
  isActive : Bool
  config : Json.Fields
  tags : List String
  scannerAgentID : Option Uuid
  routingMode : String
  createdAt : Time
  updatedAt : Time
  createdBy : Option Uuid
  deriving DecidableEq, Repr

/-- The tables by their primary keys, with the foreign keys of a connector. -/
structure Tables where
  tenants : List Uuid
  agents : PyDict Uuid ScannerAgent
  connectors : PyDict Uuid Connector
  nextID : ℕ
  owned : ∀ c ∈ connectors.values, c.tenantID ∈ tenants
  linked : ∀ c ∈ connectors.values, ∀ agent ∈ c.scannerAgentID, agent ∈ agents.keys

structure CreateConnectorRequest where
  name : String
  description : String
  connectorType : String
  config : Json.Fields
  tags : List String
  scannerAgentID : Option String
  routingMode : String
  deriving DecidableEq, Repr

structure UpdateConnectorRequest where
  name : Option String
  description : Option String
  config : Option Json.Fields
  tags : Option (List String)
  scannerAgentID : Option String
  routingMode : Option String
  isActive : Option Bool
  deriving DecidableEq, Repr

structure Services where
  /-- The n-th `uuid4()`, and `uuid.UUID(text)`, where `none` raises. -/
  uuid4 : ℕ → Uuid
  parseUuid : String → Option Uuid
  /-- `get_connector`, and the `config_schema` in the manifest of its class. -/
  getConnector : String → Option Json.Fields
  /-- `{text!r}`. -/
  pyRepr : String → String
  /-- The columns take the values that a request sets. -/
  takesCreate : CreateConnectorRequest → Bool
  takesUpdate : UpdateConnectorRequest → Bool

abbrev ConnectorRequest := Txn Tables HttpError

variable (S : Services)

/-! ### Writing -/

/-- Flushes a row; `none` is an error of a foreign key. -/
def Tables.store (t : Tables) (id : Uuid) (c : Connector) : Option Tables :=
  if h : c.tenantID ∈ t.tenants ∧ ∀ agent ∈ c.scannerAgentID, agent ∈ t.agents.keys then
    some { t with
      connectors := t.connectors.set id c
      owned := fun c' hc' => by
        rcases PyDict.mem_values_set hc' with rfl | hc'
        · exact h.1
        · exact t.owned c' hc'
      linked := fun c' hc' => by
        rcases PyDict.mem_values_set hc' with rfl | hc'
        · exact h.2
        · exact t.linked c' hc' }
  else none

def Tables.delete (t : Tables) (id : Uuid) : Tables :=
  { t with
    connectors := t.connectors.erase id
    owned := fun c hc => t.owned c (PyDict.mem_values_erase hc)
    linked := fun c hc => t.linked c (PyDict.mem_values_erase hc) }

/-- The agent of a new connector. -/
def agentOf (auth : AuthContext) (scannerAgentID : Option String) : ConnectorRequest (Option Uuid) :=
  match scannerAgentID with
  | none | some "" => pure none
  | some text => do
    let id ← Txn.ofOption serverError (S.parseUuid text)
    let agent ← Txn.read fun t => (t.agents.get? id).filter fun a => a.tenantID = auth.tenantID
    let _agent ← Txn.ofOption ⟨404, "Scanner agent not found"⟩ agent
    pure (some id)

def createConnector (auth : AuthContext) (now : Time) (req : CreateConnectorRequest) :
    ConnectorRequest (Uuid × Connector) := do
  Txn.raiseIf ("mounts:write" ∉ auth.permissions ∧ "admin:*" ∉ auth.permissions)
    ⟨403, "Permission required: mounts:write"⟩
  Txn.raiseIf (S.getConnector req.connectorType = none)
    ⟨400, "Unknown connector type: " ++ S.pyRepr req.connectorType⟩
  let agent ← agentOf S auth req.scannerAgentID
  let id ← Txn.read fun t => S.uuid4 t.nextID
  let taken ← Txn.read fun t => decide (id ∈ t.connectors.keys)
  Txn.raiseIf (taken = true ∨ S.takesCreate req = false) serverError
  let c : Connector := ⟨auth.tenantID, req.name, req.description, req.connectorType, true, req.config, req.tags, agent,
    req.routingMode, now, now, auth.userID⟩
  let stored ← Txn.read fun t => t.store id c
  let stored ← Txn.ofOption serverError stored
  Txn.write fun _ => { stored with nextID := stored.nextID + 1 }
  pure (id, c)

/-- `_get_connector_or_404`. -/
def getConnectorOr404 (auth : AuthContext) (connectorID : String) : ConnectorRequest (Uuid × Connector) := do
  let id ← Txn.ofOption serverError (S.parseUuid connectorID)
  let c ← Txn.read fun t => (t.connectors.get? id).filter fun c => c.tenantID = auth.tenantID
  let c ← Txn.ofOption ⟨404, "Connector not found"⟩ c
  pure (id, c)

/-- `scanner_agent_id` after the loop over the fields that are set; an empty text is no value of its column. -/
def newAgent (c : Connector) : Option String → Option (Option Uuid)
  | none => some c.scannerAgentID
  | some "" => none
  | some text => (S.parseUuid text).map some

/-- The row after the loop over the fields that are set. -/
def updated (c : Connector) (now : Time) (req : UpdateConnectorRequest) (agent : Option Uuid) : Connector :=
  { c with
    name := req.name.getD c.name
    description := req.description.getD c.description
    config := req.config.getD c.config
    tags := req.tags.getD c.tags
    scannerAgentID := agent
    routingMode := req.routingMode.getD c.routingMode
    isActive := req.isActive.getD c.isActive
    updatedAt := now }

def updateConnector (auth : AuthContext) (now : Time) (connectorID : String) (req : UpdateConnectorRequest) :
    ConnectorRequest (Uuid × Connector) := do
  let (id, c) ← getConnectorOr404 S auth connectorID
  let agent ← Txn.ofOption serverError (newAgent S c req.scannerAgentID)
  let c := updated c now req agent
  Txn.raiseIf (S.takesUpdate req = false) serverError
  let stored ← Txn.read fun t => t.store id c
  let stored ← Txn.ofOption serverError stored
  Txn.write fun _ => stored
  pure (id, c)

def deleteConnector (auth : AuthContext) (connectorID : String) : ConnectorRequest Unit := do
  let (id, _) ← getConnectorOr404 S auth connectorID
  Txn.write fun t => t.delete id

/-! ### Reading -/

/-- `_is_online`. -/
def isOnline (now : Time) (agent : ScannerAgent) : Bool :=
  agent.lastSeen.any fun seen => ((now : ℤ) - seen) < 300 * 1000000

structure AgentView where
  id : Uuid
  name : String
  platform : Option String
  isOnline : Bool
  deriving DecidableEq, Repr

/-- `_connector_dict`; the health in it is computed from the metrics of the scans. -/
structure ConnectorView where
  id : Uuid
  connector : Connector
  scannerAgent : Option AgentView
  deriving DecidableEq, Repr

def connectorDict (now : Time) (c : Uuid × Connector) (agent : Option (Uuid × ScannerAgent)) : ConnectorView :=
  ⟨c.1, c.2, agent.map fun a => ⟨a.1, a.2.name, a.2.platform, isOnline now a.2⟩⟩

def listTenantConnectors (auth : AuthContext) (now : Time) : ConnectorRequest (List ConnectorView) := do
  let connectors ← Txn.read fun t => (t.connectors.entries.filter fun c => c.2.tenantID = auth.tenantID).insertionSort
    fun c c' => c'.2.createdAt ≤ c.2.createdAt
  let agentIDs := connectors.filterMap fun c => c.2.scannerAgentID
  let agents ← Txn.read fun t => t.agents.entries.filter fun a => a.1 ∈ agentIDs
  pure (connectors.map fun c =>
    connectorDict now c (c.2.scannerAgentID.bind fun id => agents.find? fun a => a.1 = id))

/-- The view, and the config schema if there is a class for the connector. -/
def getConnectorDetail (auth : AuthContext) (now : Time) (connectorID : String) :
    ConnectorRequest (ConnectorView × Option Json.Fields) := do
  let c ← getConnectorOr404 S auth connectorID
  let agent ← Txn.read fun t => c.2.scannerAgentID.bind fun id => t.agents.entries.find? fun a => a.1 = id
  pure (connectorDict now c agent, S.getConnector c.2.connectorType)

/-! ### Histories -/

inductive Event where
  | create (auth : AuthContext) (now : Time) (req : CreateConnectorRequest)
  | update (auth : AuthContext) (now : Time) (connectorID : String) (req : UpdateConnectorRequest)
  | delete (auth : AuthContext) (connectorID : String)

def Event.body : Event → ConnectorRequest Unit
  | .create auth now req => do
    let _c ← createConnector S auth now req
    pure ()
  | .update auth now connectorID req => do
    let _c ← updateConnector S auth now connectorID req
    pure ()
  | .delete auth connectorID => deleteConnector S auth connectorID

/-- The tables after a request in its own `get_db` scope. -/
def step (t : Tables) (e : Event) : Option Tables := some ((e.body S).exec t).2

/-- The agent of each connector is of its tenant. -/
def Tables.Own (t : Tables) : Prop := ∀ c ∈ t.connectors.values, ∀ agent ∈ c.scannerAgentID,
  ∃ a, t.agents.get? agent = some a ∧ a.tenantID = c.tenantID

/-- The readers show a tenant no agent but its own. -/
def Tables.ShowsOwn (t : Tables) : Prop := ∀ (auth : AuthContext) (now : Time),
  (∀ views t', listTenantConnectors auth now t = (.ok views, t') → ∀ v ∈ views, ∀ agent ∈ v.scannerAgent,
    ∃ a, t.agents.get? agent.id = some a ∧ a.tenantID = auth.tenantID) ∧
  ∀ connectorID view schema t', getConnectorDetail S auth now connectorID t = (.ok (view, schema), t') →
    ∀ agent ∈ view.scannerAgent, ∃ a, t.agents.get? agent.id = some a ∧ a.tenantID = auth.tenantID

/-- An update that changes a connector of its caller names no agent of another tenant. -/
def Event.NamesOwn (t : Tables) : Event → Prop
  | .update auth _ connectorID req => ∀ id c, S.parseUuid connectorID = some id → t.connectors.get? id = some c →
      c.tenantID = auth.tenantID → S.takesUpdate req = true →
      ∀ text agent a, req.scannerAgentID = some text → text ≠ "" → S.parseUuid text = some agent →
        t.agents.get? agent = some a → a.tenantID = auth.tenantID
  | _ => True

/-- Agents and their readers are as the tenants are. -/
structure Tables.Confined (t : Tables) : Prop where
  own : t.Own
  shown : t.ShowsOwn S

/-! ### What is shown -/

variable {S} {t t' : Tables} {auth : AuthContext} {now : Time} {connectorID : String} {id : Uuid} {c : Connector}

theorem getConnectorOr404_eq_ok {r : Uuid × Connector} : getConnectorOr404 S auth connectorID t = (.ok r, t') ↔
    S.parseUuid connectorID = some r.1 ∧ t.connectors.get? r.1 = some r.2 ∧ r.2.tenantID = auth.tenantID ∧ t = t' := by
  unfold getConnectorOr404
  simp only [Txn.ofOption_bind_eq_ok, Txn.read_bind_eq_ok, Txn.pure_eq_ok, Option.filter_eq_some_iff,
    decide_eq_true_eq]
  constructor
  · rintro ⟨id, hid, c, ⟨hget, htenant⟩, rfl, rfl⟩
    exact ⟨hid, hget, htenant, rfl⟩
  · rintro ⟨hid, hget, htenant, rfl⟩
    exact ⟨r.1, hid, r.2, ⟨hget, htenant⟩, rfl, rfl⟩

theorem Tables.Own.shows (h : t.Own) (hc : c ∈ t.connectors.values) (htenant : c.tenantID = auth.tenantID)
    {agent : Uuid} (hagent : agent ∈ c.scannerAgentID) :
    ∃ a, t.agents.get? agent = some a ∧ a.tenantID = auth.tenantID := by
  obtain ⟨a, ha, hsame⟩ := h c hc agent hagent
  exact ⟨a, ha, hsame.trans htenant⟩

theorem Tables.Own.showsOwn (h : t.Own) : t.ShowsOwn S := by
  intro auth now
  constructor
  · intro views t' hlist v hv agent hagent
    unfold listTenantConnectors at hlist
    simp only [Txn.read_bind_eq_ok, Txn.pure_eq_ok] at hlist
    obtain ⟨rfl, -⟩ := hlist
    obtain ⟨c, hc, rfl⟩ := List.mem_map.1 hv
    obtain ⟨hc, htenant⟩ := List.mem_filter.1 ((List.perm_insertionSort _ _).mem_iff.1 hc)
    obtain ⟨row, hrow, rfl⟩ := Option.map_eq_some_iff.1 hagent
    obtain ⟨wanted, hwanted, hfind⟩ := Option.bind_eq_some_iff.1 hrow
    have hkey := List.find?_some hfind
    obtain rfl : row.1 = wanted := of_decide_eq_true hkey
    exact h.shows (List.mem_map_of_mem hc) (of_decide_eq_true htenant) hwanted
  · intro connectorID view schema t' hdetail agent hagent
    unfold getConnectorDetail at hdetail
    obtain ⟨c, t₁, hc, hdetail⟩ := Txn.bind_eq_ok.1 hdetail
    obtain ⟨-, hget, htenant, rfl⟩ := getConnectorOr404_eq_ok.1 hc
    simp only [Txn.read_bind_eq_ok, Txn.pure_eq_ok, Prod.mk.injEq] at hdetail
    obtain ⟨⟨rfl, -⟩, -⟩ := hdetail
    obtain ⟨row, hrow, rfl⟩ := Option.map_eq_some_iff.1 hagent
    obtain ⟨wanted, hwanted, hfind⟩ := Option.bind_eq_some_iff.1 hrow
    have hkey := List.find?_some hfind
    obtain rfl : row.1 = wanted := of_decide_eq_true hkey
    exact h.shows (List.mem_map_of_mem (PyDict.mem_of_get? hget)) htenant hwanted

/-! ### What is written -/

theorem store_eq_some : t.store id c = some t' →
    (c.tenantID ∈ t.tenants ∧ ∀ agent ∈ c.scannerAgentID, agent ∈ t.agents.keys) ∧ t'.agents = t.agents ∧
      t'.connectors = t.connectors.set id c := by
  intro h
  unfold Tables.store at h
  split_ifs at h with hkeys
  obtain rfl := Option.some.inj h
  exact ⟨hkeys, rfl, rfl⟩

theorem store_of_keys (htenant : c.tenantID ∈ t.tenants) (hagent : ∀ agent ∈ c.scannerAgentID, agent ∈ t.agents.keys) :
    ∃ t', t.store id c = some t' := ⟨_, dif_pos ⟨htenant, hagent⟩⟩

theorem Tables.Own.store (h : t.Own) (hstore : t.store id c = some t') (hc : ∀ agent ∈ c.scannerAgentID,
    ∃ a, t.agents.get? agent = some a ∧ a.tenantID = c.tenantID) : t'.Own := by
  obtain ⟨-, hagents, hconnectors⟩ := store_eq_some hstore
  intro c' hc' agent hagent
  rw [hagents]
  rw [hconnectors] at hc'
  rcases PyDict.mem_values_set hc' with rfl | hc'
  · exact hc agent hagent
  · exact h c' hc' agent hagent

theorem Tables.Own.delete (h : t.Own) : (t.delete id).Own := fun c hc => h c (PyDict.mem_values_erase hc)

theorem agentOf_eq_ok {scannerAgentID : Option String} {agent : Option Uuid}
    (h : agentOf S auth scannerAgentID t = (.ok agent, t')) :
    t' = t ∧ ∀ id ∈ agent, ∃ a, t.agents.get? id = some a ∧ a.tenantID = auth.tenantID := by
  unfold agentOf at h
  split at h
  · obtain ⟨rfl, rfl⟩ := Txn.pure_eq_ok.1 h
    exact ⟨rfl, fun id hid => absurd hid (Option.not_mem_none id)⟩
  · obtain ⟨rfl, rfl⟩ := Txn.pure_eq_ok.1 h
    exact ⟨rfl, fun id hid => absurd hid (Option.not_mem_none id)⟩
  · simp only [Txn.ofOption_bind_eq_ok, Txn.read_bind_eq_ok, Txn.pure_eq_ok, Option.filter_eq_some_iff,
      decide_eq_true_eq] at h
    obtain ⟨id, -, a, ⟨hget, htenant⟩, rfl, rfl⟩ := h
    refine ⟨rfl, fun id' hid => ?_⟩
    obtain rfl := Option.mem_some_iff.1 hid
    exact ⟨a, hget, htenant⟩

theorem Tables.Own.createConnector {req : CreateConnectorRequest} {r : Uuid × Connector} (h : t.Own)
    (hcreate : createConnector S auth now req t = (.ok r, t')) : t'.Own := by
  unfold ConnectorStore.createConnector at hcreate
  simp only [Txn.raiseIf_bind_eq_ok] at hcreate
  obtain ⟨agent, t₁, hagent, hrest⟩ := Txn.bind_eq_ok.1 hcreate.2.2
  obtain ⟨rfl, hown⟩ := agentOf_eq_ok hagent
  simp only [Txn.read_bind_eq_ok, Txn.raiseIf_bind_eq_ok, Txn.ofOption_bind_eq_ok, Txn.write_bind_eq_ok,
    Txn.pure_eq_ok] at hrest
  obtain ⟨-, stored, hstore, -, rfl⟩ := hrest
  have hstored : stored.Own := h.store hstore hown
  exact hstored

theorem deleteConnector_eq_ok {u : Unit} (h : deleteConnector S auth connectorID t = (.ok u, t')) :
    ∃ id, t' = t.delete id := by
  unfold deleteConnector at h
  obtain ⟨c, t₁, hc, h⟩ := Txn.bind_eq_ok.1 h
  obtain ⟨-, -, -, rfl⟩ := getConnectorOr404_eq_ok.1 hc
  exact ⟨c.1, (Txn.write_eq_ok.1 h).symm⟩

/-- What an update that goes through finds and writes. -/
structure Updates (S : Services) (auth : AuthContext) (now : Time) (connectorID : String)
    (req : UpdateConnectorRequest) (t t' : Tables) (id : Uuid) (c : Connector) (agent : Option Uuid) : Prop where
  parsed : S.parseUuid connectorID = some id
  found : t.connectors.get? id = some c
  tenant : c.tenantID = auth.tenantID
  named : newAgent S c req.scannerAgentID = some agent
  takes : S.takesUpdate req = true
  stored : t.store id (updated c now req agent) = some t'

theorem updateConnector_eq_ok {req : UpdateConnectorRequest} :
    (∃ r, updateConnector S auth now connectorID req t = (.ok r, t')) ↔
      ∃ id c agent, Updates S auth now connectorID req t t' id c agent := by
  unfold updateConnector
  constructor
  · rintro ⟨r, h⟩
    obtain ⟨c, t₁, hc, h⟩ := Txn.bind_eq_ok.1 h
    obtain ⟨hid, hget, htenant, rfl⟩ := getConnectorOr404_eq_ok.1 hc
    simp only [Txn.ofOption_bind_eq_ok, Txn.raiseIf_bind_eq_ok, Txn.read_bind_eq_ok, Txn.write_bind_eq_ok,
      Txn.pure_eq_ok, Bool.not_eq_false] at h
    obtain ⟨agent, hagent, htakes, stored, hstore, -, rfl⟩ := h
    exact ⟨c.1, c.2, agent, hid, hget, htenant, hagent, htakes, hstore⟩
  · rintro ⟨id, c, agent, hid, hget, htenant, hagent, htakes, hstore⟩
    refine ⟨(id, updated c now req agent), ?_⟩
    have hfound : getConnectorOr404 S auth connectorID t = (.ok (id, c), t) :=
      getConnectorOr404_eq_ok.2 ⟨hid, hget, htenant, rfl⟩
    rw [Txn.bind_of_ok hfound]
    simp only [Txn.ofOption_bind_eq_ok, Txn.raiseIf_bind_eq_ok, Txn.read_bind_eq_ok, Txn.write_bind_eq_ok,
      Txn.pure_eq_ok, Bool.not_eq_false]
    exact ⟨agent, hagent, htakes, t', hstore, rfl, rfl⟩

theorem newAgent_eq_some {named : Option String} {agent : Option Uuid} (h : newAgent S c named = some agent) :
    named = none ∧ agent = c.scannerAgentID ∨
      ∃ text id, named = some text ∧ text ≠ "" ∧ S.parseUuid text = some id ∧ agent = some id := by
  unfold newAgent at h
  split at h
  · exact .inl ⟨rfl, (Option.some.inj h).symm⟩
  · cases h
  · rename_i text hne
    obtain ⟨id, hid, rfl⟩ := Option.map_eq_some_iff.1 h
    exact .inr ⟨text, id, rfl, hne, hid, rfl⟩

theorem newAgent_of_text {text : String} (htext : text ≠ "") {agent : Uuid} (hparse : S.parseUuid text = some agent) :
    newAgent S c (some text) = some (some agent) := by
  unfold newAgent
  split
  · contradiction
  · rename_i heq
    exact absurd (Option.some.inj heq) htext
  · rename_i text' _ heq
    obtain rfl := Option.some.inj heq
    rw [hparse]
    rfl

/-- Only an update that names an agent of another tenant leaves the agents mixed. -/
theorem own_of_updates {req : UpdateConnectorRequest} {agent : Option Uuid} (h : t.Own)
    (hnames : (Event.update auth now connectorID req).NamesOwn S t)
    (hupdates : Updates S auth now connectorID req t t' id c agent) : t'.Own := by
  have hc : c ∈ t.connectors.values := List.mem_map_of_mem (PyDict.mem_of_get? hupdates.found)
  refine h.store hupdates.stored fun new hnew => ?_
  obtain rfl : agent = some new := hnew
  rcases newAgent_eq_some hupdates.named with ⟨-, hsame⟩ | ⟨text, id', htext, hne, hparse, heq⟩
  · exact h c hc new hsame.symm
  · obtain rfl := Option.some.inj heq
    have hkey : new ∈ t.agents.keys := (store_eq_some hupdates.stored).1.2 new rfl
    obtain ⟨e, he, rfl⟩ := List.mem_map.1 hkey
    have hget : t.agents.get? e.1 = some e.2 := PyDict.get?_of_mem he
    refine ⟨e.2, hget, (hnames id c hupdates.parsed hupdates.found hupdates.tenant hupdates.takes text e.1 e.2 htext hne
      hparse hget).trans hupdates.tenant.symm⟩

/-- An update that names an agent of another tenant goes through. -/
theorem namesOwn_of_own {req : UpdateConnectorRequest}
    (h : ∀ t', (∃ r, updateConnector S auth now connectorID req t = (.ok r, t')) → t'.Own) :
    (Event.update auth now connectorID req).NamesOwn S t := by
  intro id c hparsed hfound htenant htakes text agent a htext hne hparse ha
  have hc : c ∈ t.connectors.values := List.mem_map_of_mem (PyDict.mem_of_get? hfound)
  obtain ⟨t', hstore⟩ := @store_of_keys t id (updated c now req (some agent)) (t.owned c hc) fun new hnew => by
    obtain rfl := Option.mem_some_iff.1 hnew
    exact List.mem_map_of_mem (PyDict.mem_of_get? ha)
  have hnamed : newAgent S c req.scannerAgentID = some (some agent) := by
    rw [htext]
    exact newAgent_of_text hne hparse
  have hown := h t' (updateConnector_eq_ok.2 ⟨id, c, some agent, hparsed, hfound, htenant, hnamed, htakes, hstore⟩)
  obtain ⟨-, hagents, hconnectors⟩ := store_eq_some hstore
  have hmem : updated c now req (some agent) ∈ t'.connectors.values := by
    rw [hconnectors]
    exact List.mem_map_of_mem (PyDict.mem_set_self _ _ _)
  obtain ⟨a', ha', hsame⟩ := hown _ hmem agent rfl
  rw [hagents, ha] at ha'
  obtain rfl := Option.some.inj ha'
  exact hsame.trans htenant

theorem own_step_iff {e : Event} (h : t.Own) (hstep : step S t e = some t') : t'.Own ↔ e.NamesOwn S t := by
  obtain rfl := Option.some.inj hstep
  refine (Txn.exec_inv_iff h).trans ?_
  cases e with
  | create auth now req =>
    refine iff_of_true (fun u t₁ hbody => ?_) trivial
    obtain ⟨r, hcreate⟩ := Txn.discard_eq_ok.1 hbody
    exact h.createConnector hcreate
  | update auth now connectorID req =>
    constructor
    · exact fun hkept => namesOwn_of_own fun t₁ hr => hkept () t₁ (Txn.discard_eq_ok.2 hr)
    · intro hnames u t₁ hbody
      obtain ⟨id, c, agent, hupdates⟩ := updateConnector_eq_ok.1 (Txn.discard_eq_ok.1 hbody)
      exact own_of_updates h hnames hupdates
  | delete auth connectorID =>
    refine iff_of_true (fun u t₁ hbody => ?_) trivial
    obtain ⟨id, heq⟩ := deleteConnector_eq_ok hbody
    rw [heq]
    exact h.delete

theorem confined_iff_own : t.Confined S ↔ t.Own := ⟨fun h => h.own, fun h => ⟨h, h.showsOwn⟩⟩

/-- Every state of a history is confined exactly if the first is and every update that changes a connector names an
agent of its caller's tenant, or none. -/
theorem confined_always_iff (S : Services) (t : Tables) (events : List Event) :
    Runs.Always (step S) (Tables.Confined S) t events ↔
      t.Confined S ∧ Runs.Along (step S) (fun t e => e.NamesOwn S t) t events :=
  Runs.always_iff_and_along fun _ _ _ h hstep => confined_iff_own.trans (own_step_iff h.own hstep)

/-! ### An agent of another tenant -/

def sampleServices : Services where
  uuid4 _ := "c"
  parseUuid text := some text
  getConnector _ := some []
  pyRepr text := text
  takesCreate _ := true
  takesUpdate _ := true

/-- Two tenants, an agent of the second, and no connector. -/
def sampleTables : Tables where
  tenants := ["t1", "t2"]
  agents := PyDict.empty.set "a" ⟨"t2", "theirs", none, none⟩
  connectors := PyDict.empty
  nextID := 0
  owned := fun _ hc => absurd hc List.not_mem_nil
  linked := fun _ hc => absurd hc List.not_mem_nil

def sampleAuth : AuthContext := ⟨some "u", "t1", "", [], ["mounts:write"]⟩

/-- A connector of the first tenant is made, and moved to the agent of the second. -/
def moveToForeign : List Event :=
  [.create sampleAuth 0 ⟨"c", "", "local", [], [], none, "auto"⟩,
    .update sampleAuth 0 "c" ⟨none, none, none, none, some "a", none, none⟩]

def movedConnector : Connector := ⟨"t1", "c", "", "local", true, [], [], some "a", "auto", 0, 0, some "u"⟩

theorem foreign_agent_kept : sampleTables.Confined sampleServices ∧
    ¬ Runs.Always (step sampleServices) (Tables.Confined sampleServices) sampleTables moveToForeign := by
  constructor
  · exact confined_iff_own.2 fun _ hc => absurd hc List.not_mem_nil
  · intro h
    have hlast : (((Runs.run (step sampleServices) sampleTables moveToForeign).getD sampleTables).Confined
        sampleServices) := h _ _ (List.prefix_refl _) rfl
    have hmem : movedConnector ∈
        ((Runs.run (step sampleServices) sampleTables moveToForeign).getD sampleTables).connectors.values :=
      List.mem_singleton.2 rfl
    obtain ⟨a, ha, htenant⟩ := hlast.own movedConnector hmem "a" rfl
    obtain rfl : ⟨"t2", "theirs", none, none⟩ = a := Option.some.inj ha
    exact absurd htenant (by decide)

end Dgraphai.ConnectorStore
