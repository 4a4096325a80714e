import Dgraphai.ConnectorStore

/-!
# Permissions of the endpoints that write connectors and scanner agents

`create_connector` and `register_scanner` ask for a permission; `update_connector`, `delete_connector`,
`test_connector`, `set_scan_schedule`, `generate_agent_token` and `revoke_agent` ask for none, only for a row of the
caller's tenant. So the gates cover a history exactly if its other writing requests come from users who hold the
permission anyway (`gated_along_iff`).
-/

namespace Dgraphai.WriteGates

open Auth (Uuid Time AuthContext HttpError serverError)
open ConnectorStore (Connector ScannerAgent Tables Services CreateConnectorRequest UpdateConnectorRequest Updates)

/-- The columns of `ScannerAgent` behind those of the tables. -/
structure AgentColumns where
  description : Option String
  apiKeyHash : String
  version : Option String
  isActive : Bool
  createdBy : Option Uuid
  registeredBy : Option Uuid
  deriving DecidableEq, Repr

/-- `last_test_at`, `last_test_result` and `last_test_msg` of a connector. -/
structure LastTest where
  at_ : Time
  result : Bool
  msg : String
  deriving DecidableEq, Repr

structure State where
  store : Tables
  lastTests : Uuid → Option LastTest
  scanners : Uuid → Option AgentColumns

structure RegisterRequest where
  name : String
  description : String
  platform : String
  version : String
  deriving DecidableEq, Repr

structure Host extends Services where
  /-- `hashlib.sha256(text.encode()).hexdigest()`. -/
  sha256 : String → String
  /-- The columns of an agent take this name, platform and version. -/
  takesAgent : String → Option String → Option String → Bool

abbrev Request := Txn State HttpError

variable (H : Host)

def onStore {α : Type} (m : ConnectorStore.ConnectorRequest α) : Request α :=
  Txn.zoom State.store (fun s t => { s with store := t }) m

/-! ### Connectors -/

def createConnector (auth : AuthContext) (now : Time) (req : CreateConnectorRequest) : Request Unit := do
  let c ← onStore (ConnectorStore.createConnector H.toServices auth now req)
  Txn.write fun s => { s with lastTests := Function.update s.lastTests c.1 none }

def updateConnector (auth : AuthContext) (now : Time) (connectorID : String) (req : UpdateConnectorRequest) :
    Request Unit := do
  let _c ← onStore (ConnectorStore.updateConnector H.toServices auth now connectorID req)
  pure ()

def deleteConnector (auth : AuthContext) (connectorID : String) : Request Unit :=
  onStore (ConnectorStore.deleteConnector H.toServices auth connectorID)

def validSchedules : List (String × Option ℕ) :=
  [("manual", none), ("1h", some 3600), ("6h", some 21600), ("12h", some 43200), ("24h", some 86400),
    ("48h", some 172800), ("weekly", some 604800)]

/-- The config with a schedule. -/
def scheduled (config : Json.Fields) (schedule : String) (intervalSecs : Option ℕ) : Json.Fields :=
  PyDict.setEntries (PyDict.setEntries config "scan_schedule" (.str schedule)) "scan_interval_seconds"
    (intervalSecs.elim .null fun n => .num n)

/-- A row is written, with `onupdate` of `updated_at`, if a column has a new value. -/
def touch (now : Time) (c c' : Connector) : Connector := if c' = c then c else { c' with updatedAt := now }

/-- `set_scan_schedule`; the schedule of Celery is none of the tables. -/
def setScanSchedule (auth : AuthContext) (now : Time) (connectorID schedule : String) : Request Unit := do
  let intervalSecs ← Txn.ofOption ⟨400,
    "Invalid schedule. Valid options: ['manual', '1h', '6h', '12h', '24h', '48h', 'weekly']"⟩
    (validSchedules.lookup schedule)
  let (id, c) ← onStore (ConnectorStore.getConnectorOr404 H.toServices auth connectorID)
  let stored ← Txn.read fun s => s.store.store id (touch now c { c with config := scheduled c.config schedule intervalSecs })
  let stored ← Txn.ofOption serverError stored
  Txn.write fun s => { s with store := stored }

/-- `test_connector`; `result` is what `test_connection` returns, where `none` raises. -/
def testConnector (auth : AuthContext) (now : Time) (connectorID : String) (result : Option (Bool × String)) :
    Request Unit := do
  let (id, c) ← onStore (ConnectorStore.getConnectorOr404 H.toServices auth connectorID)
  Txn.raiseIf (H.getConnector c.connectorType = none) ⟨400, "Unknown type: " ++ c.connectorType⟩
  let (success, message) ← Txn.ofOption serverError result
  let last ← Txn.read fun s => s.lastTests id
  let tested : LastTest := ⟨now, success, message⟩
  let stored ← Txn.read fun s => s.store.store id (if last = some tested then c else { c with updatedAt := now })
  let stored ← Txn.ofOption serverError stored
  Txn.write fun s => { s with store := stored, lastTests := Function.update s.lastTests id (some tested) }

/-! ### Scanner agents -/

def addAgent (t : Tables) (id : Uuid) (agent : ScannerAgent) : Tables :=
  { t with
    agents := t.agents.set id agent
    linked := fun c hc agent hagent => PyDict.mem_keys_set.2 (.inr (t.linked c hc agent hagent)) }

/-- `db.add(scanner)`, flushed: the tenant is there, the id is new and the columns take the values. -/
def insertAgent (id : Uuid) (agent : ScannerAgent) (columns : AgentColumns) : Request Unit := do
  let refused ← Txn.read fun s => decide (agent.tenantID ∉ s.store.tenants ∨ id ∈ s.store.agents.keys) ||
    !H.takesAgent agent.name agent.platform columns.version
  Txn.raiseIf (refused = true) serverError
  Txn.write fun s =>
    { s with store := addAgent s.store id agent, scanners := Function.update s.scanners id (some columns) }

/-- `register_scanner`, with the key it draws. -/
def registerScanner (auth : AuthContext) (id : Uuid) (key : String) (req : RegisterRequest) : Request Unit := do
  Txn.raiseIf ("scanners:register" ∉ auth.permissions ∧ "admin:*" ∉ auth.permissions)
    ⟨403, "Permission required: scanners:register"⟩
  insertAgent H id ⟨auth.tenantID, req.name, some req.platform, none⟩
    ⟨some req.description, H.sha256 ("dg_" ++ key), some req.version, true, none, auth.userID⟩

def generateAgentToken (auth : AuthContext) (id : Uuid) (key name : String) : Request Unit :=
  insertAgent H id ⟨auth.tenantID, name, none, none⟩ ⟨none, H.sha256 ("dga_" ++ key), none, true, auth.userID, none⟩

def revokeAgent (auth : AuthContext) (agentID : String) : Request Unit := do
  let id ← Txn.ofOption serverError (H.parseUuid agentID)
  let agent ← Txn.read fun s => (s.store.agents.get? id).filter fun a => a.tenantID = auth.tenantID
  let _agent ← Txn.ofOption ⟨404, "Agent not found"⟩ agent
  Txn.write fun s =>
    { s with scanners := Function.update s.scanners id ((s.scanners id).map fun a => { a with isActive := false }) }

/-! ### Histories -/

inductive Event where
  | create (auth : AuthContext) (now : Time) (req : CreateConnectorRequest)
  | update (auth : AuthContext) (now : Time) (connectorID : String) (req : UpdateConnectorRequest)
  | delete (auth : AuthContext) (connectorID : String)
  | schedule (auth : AuthContext) (now : Time) (connectorID name : String)
  | test (auth : AuthContext) (now : Time) (connectorID : String) (result : Option (Bool × String))
  | register (auth : AuthContext) (id : Uuid) (key : String) (req : RegisterRequest)
  | token (auth : AuthContext) (id : Uuid) (key name : String)
  | revoke (auth : AuthContext) (agentID : String)

def Event.auth : Event → AuthContext
  | .create auth _ _ | .update auth _ _ _ | .delete auth _ | .schedule auth _ _ _ | .test auth _ _ _
  | .register auth _ _ _ | .token auth _ _ _ | .revoke auth _ => auth

def Event.body : Event → Request Unit
  | .create auth now req => createConnector H auth now req
  | .update auth now connectorID req => updateConnector H auth now connectorID req
  | .delete auth connectorID => deleteConnector H auth connectorID
  | .schedule auth now connectorID name => setScanSchedule H auth now connectorID name
  | .test auth now connectorID result => testConnector H auth now connectorID result
  | .register auth id key req => registerScanner H auth id key req
  | .token auth id key name => generateAgentToken H auth id key name
  | .revoke auth agentID => revokeAgent H auth agentID

/-- The tables after a request in its own `get_db` scope. -/
def step (s : State) (e : Event) : Option State := some ((e.body H).exec s).2

def May (auth : AuthContext) (permission : String) : Prop :=
  permission ∈ auth.permissions ∨ "admin:*" ∈ auth.permissions

def State.connectorRow (s : State) (id : Uuid) : Option (Connector × Option LastTest) :=
  (s.store.connectors.get? id).map fun c => (c, s.lastTests id)

def State.Active (s : State) (id : Uuid) : Prop := ∃ a, s.scanners id = some a ∧ a.isActive = true

/-- What a request from `s` to `s'` writes, its user may write. -/
structure Gated (auth : AuthContext) (s s' : State) : Prop where
  connectors : ∀ id, s'.connectorRow id ≠ s.connectorRow id → May auth "mounts:write"
  created : ∀ id, s.store.agents.get? id = none → s'.store.agents.get? id ≠ none → May auth "scanners:register"
  revoked : ∀ id, s.Active id → ¬ s'.Active id → May auth "scanners:register"

/-- The connector the request is about, in the tenant of the user. -/
def Found (auth : AuthContext) (connectorID : String) (s : State) (id : Uuid) (c : Connector) : Prop :=
  H.parseUuid connectorID = some id ∧ s.store.connectors.get? id = some c ∧ c.tenantID = auth.tenantID

/-- A request that asks for no permission and would write comes from a user who holds it. -/
def Event.Permitted (s : State) : Event → Prop
  | .create _ _ _ => True
  | .register _ _ _ _ => True
  | .update auth now connectorID req => (∃ id c agent t', Updates H.toServices auth now connectorID req s.store t' id c agent ∧
      ConnectorStore.updated c now req agent ≠ c) → May auth "mounts:write"
  | .delete auth connectorID => (∃ id c, Found H auth connectorID s id c) → May auth "mounts:write"
  | .schedule auth now connectorID name => (∃ id c intervalSecs, Found H auth connectorID s id c ∧
      validSchedules.lookup name = some intervalSecs ∧
        touch now c { c with config := scheduled c.config name intervalSecs } ≠ c) → May auth "mounts:write"
  | .test auth now connectorID result => (∃ id c success message, Found H auth connectorID s id c ∧
      H.getConnector c.connectorType ≠ none ∧ result = some (success, message) ∧
        s.lastTests id ≠ some ⟨now, success, message⟩) → May auth "mounts:write"
  | .token auth id _ name => auth.tenantID ∈ s.store.tenants ∧ id ∉ s.store.agents.keys ∧
      H.takesAgent name none none = true → May auth "scanners:register"
  | .revoke auth agentID => (∃ id a, H.parseUuid agentID = some id ∧ s.store.agents.get? id = some a ∧
      a.tenantID = auth.tenantID ∧ s.Active id) → May auth "scanners:register"

/-! ### What a request writes -/

variable {H} {s s' : State} {auth : AuthContext} {now : Time} {connectorID : String} {id : Uuid} {c : Connector}

theorem Gated.refl : Gated auth s s :=
  ⟨fun _ h => absurd rfl h, fun _ h h' => absurd h h', fun _ h h' => absurd h h'⟩

theorem gated_exec_iff {m : Request Unit} :
    Gated auth s (m.exec s).2 ↔ ∀ s', m s = (.ok (), s') → Gated auth s s' :=
  (Txn.exec_inv_iff Gated.refl).trans ⟨fun h => h (), fun h _ => h⟩

/-- A request that leaves the agents and their columns alone. -/
theorem gated_of_agents (hagents : s'.store.agents = s.store.agents) (hscanners : s'.scanners = s.scanners)
    (h : ∀ id, s'.connectorRow id ≠ s.connectorRow id → May auth "mounts:write") : Gated auth s s' := by
  refine ⟨h, fun id hnone hsome => ?_, fun id hactive hinactive => ?_⟩
  · rw [hagents] at hsome
    exact absurd hnone hsome
  · unfold State.Active at hactive hinactive
    rw [hscanners] at hinactive
    exact absurd hactive hinactive

theorem onStore_eq_ok {α : Type} {m : ConnectorStore.ConnectorRequest α} {a : α} :
    onStore m s = (.ok a, s') ↔ ∃ t, m s.store = (.ok a, t) ∧ { s with store := t } = s' := Txn.zoom_eq_ok

theorem may_iff {permission : String} :
    ¬ (permission ∉ auth.permissions ∧ "admin:*" ∉ auth.permissions) ↔ May auth permission := by
  rw [not_and_or, not_not, not_not]
  rfl

theorem onStore_found {r : Uuid × Connector} :
    onStore (ConnectorStore.getConnectorOr404 H.toServices auth connectorID) s = (.ok r, s') ↔
      Found H auth connectorID s r.1 r.2 ∧ s = s' := by
  rw [onStore_eq_ok]
  constructor
  · rintro ⟨t, hget, rfl⟩
    obtain ⟨hid, hc, htenant, rfl⟩ := ConnectorStore.getConnectorOr404_eq_ok.1 hget
    exact ⟨⟨hid, hc, htenant⟩, rfl⟩
  · rintro ⟨⟨hid, hc, htenant⟩, rfl⟩
    exact ⟨s.store, ConnectorStore.getConnectorOr404_eq_ok.2 ⟨hid, hc, htenant, rfl⟩, rfl⟩

/-- A row written in the place of one that is there. -/
theorem store_of_get? {c' : Connector} (hc : s.store.connectors.get? id = some c) (htenant : c'.tenantID = c.tenantID)
    (hagent : c'.scannerAgentID = c.scannerAgentID) : ∃ t, s.store.store id c' = some t := by
  have hmem : c ∈ s.store.connectors.values := List.mem_map_of_mem (PyDict.mem_of_get? hc)
  refine ConnectorStore.store_of_keys ?_ fun agent ha => ?_
  · rw [htenant]
    exact s.store.owned c hmem
  · rw [hagent] at ha
    exact s.store.linked c hmem agent ha

theorem connectorRow_set {t : Tables} {c' : Connector} {tests : Uuid → Option LastTest} (id' : Uuid)
    (hstore : s.store.store id c' = some t) (htests : ∀ id', id' ≠ id → tests id' = s.lastTests id') :
    ({ s with store := t, lastTests := tests } : State).connectorRow id' =
      if id' = id then some (c', tests id) else s.connectorRow id' := by
  obtain ⟨-, -, hconnectors⟩ := ConnectorStore.store_eq_some hstore
  unfold State.connectorRow
  dsimp only
  rw [hconnectors]
  split_ifs with hid
  · rw [hid, PyDict.get?_set_self, Option.map_some]
  · rw [PyDict.get?_set_of_ne hid, htests id' hid]

theorem connectorRow_of_get? (hc : s.store.connectors.get? id = some c) :
    s.connectorRow id = some (c, s.lastTests id) := by
  rw [State.connectorRow, hc, Option.map_some]

/-- A row written in the place of one, and nothing else. -/
theorem gated_set_iff {t : Tables} {c' : Connector} {tests : Uuid → Option LastTest}
    (hc : s.store.connectors.get? id = some c) (hstore : s.store.store id c' = some t)
    (htests : ∀ id', id' ≠ id → tests id' = s.lastTests id') :
    Gated auth s { s with store := t, lastTests := tests } ↔
      ((c', tests id) ≠ (c, s.lastTests id) → May auth "mounts:write") := by
  have hrow := connectorRow_of_get? hc
  constructor
  · intro h hne
    refine h.connectors id fun hsame => hne (Option.some.inj ?_)
    have hset := connectorRow_set id hstore htests
    rw [if_pos rfl] at hset
    rw [← hset, hsame, hrow]
  · intro h
    obtain ⟨-, hagents, -⟩ := ConnectorStore.store_eq_some hstore
    refine gated_of_agents hagents rfl fun id' hchanged => h fun hsame => hchanged ?_
    rw [connectorRow_set id' hstore htests]
    split_ifs with hid
    · rw [hid, hrow, hsame]
    · rfl

/-! ### The gates that are there -/

theorem createConnector_gated {req : CreateConnectorRequest} (h : createConnector H auth now req s = (.ok (), s')) :
    Gated auth s s' := by
  unfold createConnector at h
  obtain ⟨r, s₁, hstore, h⟩ := Txn.bind_eq_ok.1 h
  obtain ⟨t, hcreate, rfl⟩ := onStore_eq_ok.1 hstore
  obtain rfl := Txn.write_eq_ok.1 h
  unfold ConnectorStore.createConnector at hcreate
  simp only [Txn.raiseIf_bind_eq_ok] at hcreate
  obtain ⟨hmay, -, hbody⟩ := hcreate
  obtain ⟨agent, t₁, hagent, hrest⟩ := Txn.bind_eq_ok.1 hbody
  obtain ⟨rfl, -⟩ := ConnectorStore.agentOf_eq_ok hagent
  simp only [Txn.read_bind_eq_ok, Txn.raiseIf_bind_eq_ok, Txn.ofOption_bind_eq_ok, Txn.write_bind_eq_ok,
    Txn.pure_eq_ok] at hrest
  obtain ⟨-, stored, hstored, -, rfl⟩ := hrest
  obtain ⟨-, hagents, -⟩ := ConnectorStore.store_eq_some hstored
  exact gated_of_agents hagents rfl fun _ _ => may_iff.1 hmay

theorem insertAgent_eq_ok {agent : ScannerAgent} {columns : AgentColumns} :
    insertAgent H id agent columns s = (.ok (), s') ↔
      (agent.tenantID ∈ s.store.tenants ∧ id ∉ s.store.agents.keys ∧
        H.takesAgent agent.name agent.platform columns.version = true) ∧
      { s with store := addAgent s.store id agent, scanners := Function.update s.scanners id (some columns) } = s' := by
  unfold insertAgent
  simp only [Txn.read_bind_eq_ok, Txn.raiseIf_bind_eq_ok, Txn.write_eq_ok]
  simp [not_or, and_assoc]

theorem registerScanner_gated {key : String} {req : RegisterRequest}
    (h : registerScanner H auth id key req s = (.ok (), s')) : Gated auth s s' := by
  unfold registerScanner at h
  obtain ⟨hmay, h⟩ := Txn.raiseIf_bind_eq_ok.1 h
  obtain ⟨-, rfl⟩ := insertAgent_eq_ok.1 h
  exact ⟨fun _ hrow => absurd rfl hrow, fun _ _ _ => may_iff.1 hmay, fun _ _ _ => may_iff.1 hmay⟩

/-! ### The gates that are missing -/

theorem update_gated_iff {req : UpdateConnectorRequest} :
    (∀ s', updateConnector H auth now connectorID req s = (.ok (), s') → Gated auth s s') ↔
      (Event.update auth now connectorID req).Permitted H s := by
  have hok : ∀ s', updateConnector H auth now connectorID req s = (.ok (), s') ↔ ∃ id c agent t',
      Updates H.toServices auth now connectorID req s.store t' id c agent ∧ { s with store := t' } = s' := by
    intro s'
    unfold updateConnector
    rw [Txn.discard_eq_ok]
    constructor
    · rintro ⟨r, hr⟩
      obtain ⟨t', hupdate, rfl⟩ := onStore_eq_ok.1 hr
      obtain ⟨id, c, agent, hupdates⟩ := ConnectorStore.updateConnector_eq_ok.1 ⟨r, hupdate⟩
      exact ⟨id, c, agent, t', hupdates, rfl⟩
    · rintro ⟨id, c, agent, t', hupdates, rfl⟩
      obtain ⟨r, hr⟩ := ConnectorStore.updateConnector_eq_ok.2 ⟨id, c, agent, hupdates⟩
      exact ⟨r, onStore_eq_ok.2 ⟨t', hr, rfl⟩⟩
  constructor
  · rintro h ⟨id, c, agent, t', hupdates, hne⟩
    have hgated := h _ ((hok _).2 ⟨id, c, agent, t', hupdates, rfl⟩)
    exact (gated_set_iff hupdates.found hupdates.stored fun _ _ => rfl).1 hgated fun hsame => hne (Prod.mk.inj hsame).1
  · intro h s' hs'
    obtain ⟨id, c, agent, t', hupdates, rfl⟩ := (hok s').1 hs'
    refine (gated_set_iff hupdates.found hupdates.stored fun _ _ => rfl).2 fun hne => ?_
    exact h ⟨id, c, agent, t', hupdates, fun hsame => hne (by rw [hsame])⟩

theorem delete_gated_iff : (∀ s', deleteConnector H auth connectorID s = (.ok (), s') → Gated auth s s') ↔
    (Event.delete auth connectorID).Permitted H s := by
  have hok : ∀ s', deleteConnector H auth connectorID s = (.ok (), s') ↔
      ∃ id c, Found H auth connectorID s id c ∧ { s with store := s.store.delete id } = s' := by
    intro s'
    unfold deleteConnector ConnectorStore.deleteConnector
    rw [onStore_eq_ok]
    constructor
    · rintro ⟨t, h, rfl⟩
      obtain ⟨r, t₁, hget, h⟩ := Txn.bind_eq_ok.1 h
      obtain ⟨hid, hc, htenant, rfl⟩ := ConnectorStore.getConnectorOr404_eq_ok.1 hget
      obtain rfl := Txn.write_eq_ok.1 h
      exact ⟨r.1, r.2, ⟨hid, hc, htenant⟩, rfl⟩
    · rintro ⟨id, c, ⟨hid, hc, htenant⟩, rfl⟩
      have hget : ConnectorStore.getConnectorOr404 H.toServices auth connectorID s.store = (.ok (id, c), s.store) :=
        ConnectorStore.getConnectorOr404_eq_ok.2 ⟨hid, hc, htenant, rfl⟩
      exact ⟨_, Txn.bind_eq_ok.2 ⟨_, _, hget, Txn.write_eq_ok.2 rfl⟩, rfl⟩
  constructor
  · rintro h ⟨id, c, hfound⟩
    refine (h _ ((hok _).2 ⟨id, c, hfound, rfl⟩)).connectors id fun hrow => ?_
    have hnone : ({ s with store := s.store.delete id } : State).connectorRow id = none := by
      rw [State.connectorRow, Option.map_eq_none_iff]
      refine PyDict.get?_eq_none fun hmem => ?_
      obtain ⟨e, he, hid⟩ := List.mem_map.1 hmem
      exact of_decide_eq_true (List.mem_filter.1 he).2 hid
    rw [hnone, connectorRow_of_get? hfound.2.1] at hrow
    nomatch hrow
  · intro h s' hs'
    obtain ⟨id, c, hfound, rfl⟩ := (hok s').1 hs'
    exact gated_of_agents rfl rfl fun _ _ => h ⟨id, c, hfound⟩

theorem touch_eq (now : Time) (c c' : Connector) (htenant : c'.tenantID = c.tenantID)
    (hagent : c'.scannerAgentID = c.scannerAgentID) :
    (touch now c c').tenantID = c.tenantID ∧ (touch now c c').scannerAgentID = c.scannerAgentID := by
  unfold touch
  split_ifs
  · exact ⟨rfl, rfl⟩
  · exact ⟨htenant, hagent⟩

theorem schedule_gated_iff {name : String} :
    (∀ s', setScanSchedule H auth now connectorID name s = (.ok (), s') → Gated auth s s') ↔
      (Event.schedule auth now connectorID name).Permitted H s := by
  have hok : ∀ s', setScanSchedule H auth now connectorID name s = (.ok (), s') ↔ ∃ intervalSecs id c t,
      validSchedules.lookup name = some intervalSecs ∧ Found H auth connectorID s id c ∧
        s.store.store id (touch now c { c with config := scheduled c.config name intervalSecs }) = some t ∧
          { s with store := t } = s' := by
    intro s'
    unfold setScanSchedule
    rw [Txn.ofOption_bind_eq_ok]
    refine exists_congr fun intervalSecs => ?_
    constructor
    · rintro ⟨hlookup, h⟩
      obtain ⟨r, s₁, hget, h⟩ := Txn.bind_eq_ok.1 h
      obtain ⟨hfound, rfl⟩ := onStore_found.1 hget
      simp only [Txn.read_bind_eq_ok, Txn.ofOption_bind_eq_ok, Txn.write_eq_ok] at h
      obtain ⟨t, hstore, rfl⟩ := h
      exact ⟨r.1, r.2, t, hlookup, hfound, hstore, rfl⟩
    · rintro ⟨id, c, t, hlookup, hfound, hstore, rfl⟩
      have hget : onStore (ConnectorStore.getConnectorOr404 H.toServices auth connectorID) s = (.ok (id, c), s) :=
        onStore_found.2 ⟨hfound, rfl⟩
      refine ⟨hlookup, Txn.bind_eq_ok.2 ⟨(id, c), s, hget, ?_⟩⟩
      simp only [Txn.read_bind_eq_ok, Txn.ofOption_bind_eq_ok, Txn.write_eq_ok]
      exact ⟨t, hstore, rfl⟩
  constructor
  · rintro h ⟨id, c, intervalSecs, hfound, hlookup, hne⟩
    obtain ⟨htenant, hagent⟩ := touch_eq now c { c with config := scheduled c.config name intervalSecs } rfl rfl
    obtain ⟨t, hstore⟩ := store_of_get? hfound.2.1 htenant hagent
    have hgated := h _ ((hok _).2 ⟨intervalSecs, id, c, t, hlookup, hfound, hstore, rfl⟩)
    exact (gated_set_iff hfound.2.1 hstore fun _ _ => rfl).1 hgated fun hsame => hne (Prod.mk.inj hsame).1
  · intro h s' hs'
    obtain ⟨intervalSecs, id, c, t, hlookup, hfound, hstore, rfl⟩ := (hok s').1 hs'
    refine (gated_set_iff hfound.2.1 hstore fun _ _ => rfl).2 fun hne => ?_
    exact h ⟨id, c, intervalSecs, hfound, hlookup, fun hsame => hne (by rw [hsame])⟩

theorem update_of_ne (tests : Uuid → Option LastTest) (tested : LastTest) (id' : Uuid) (h : id' ≠ id) :
    Function.update tests id (some tested) id' = tests id' := Function.update_of_ne h _ _

theorem test_gated_iff {result : Option (Bool × String)} :
    (∀ s', testConnector H auth now connectorID result s = (.ok (), s') → Gated auth s s') ↔
      (Event.test auth now connectorID result).Permitted H s := by
  have hok : ∀ s', testConnector H auth now connectorID result s = (.ok (), s') ↔ ∃ id c success message t,
      Found H auth connectorID s id c ∧ H.getConnector c.connectorType ≠ none ∧ result = some (success, message) ∧
        s.store.store id (if s.lastTests id = some ⟨now, success, message⟩ then c else { c with updatedAt := now }) =
          some t ∧
        { s with store := t, lastTests := Function.update s.lastTests id (some ⟨now, success, message⟩) } = s' := by
    intro s'
    unfold testConnector
    constructor
    · intro h
      obtain ⟨r, s₁, hget, h⟩ := Txn.bind_eq_ok.1 h
      obtain ⟨hfound, rfl⟩ := onStore_found.1 hget
      simp only [Txn.raiseIf_bind_eq_ok, Txn.read_bind_eq_ok, Txn.ofOption_bind_eq_ok, Txn.write_eq_ok] at h
      obtain ⟨hclass, tested, hresult, t, hstore, rfl⟩ := h
      exact ⟨r.1, r.2, tested.1, tested.2, t, hfound, hclass, hresult, hstore, rfl⟩
    · rintro ⟨id, c, success, message, t, hfound, hclass, hresult, hstore, rfl⟩
      have hget : onStore (ConnectorStore.getConnectorOr404 H.toServices auth connectorID) s = (.ok (id, c), s) :=
        onStore_found.2 ⟨hfound, rfl⟩
      refine Txn.bind_eq_ok.2 ⟨(id, c), s, hget, ?_⟩
      simp only [Txn.raiseIf_bind_eq_ok, Txn.read_bind_eq_ok, Txn.ofOption_bind_eq_ok, Txn.write_eq_ok]
      exact ⟨hclass, (success, message), hresult, t, hstore, rfl⟩
  constructor
  · rintro h ⟨id, c, success, message, hfound, hclass, hresult, hne⟩
    obtain ⟨t, hstore⟩ : ∃ t, s.store.store id { c with updatedAt := now } = some t :=
      store_of_get? hfound.2.1 rfl rfl
    have hstored : s.store.store id
        (if s.lastTests id = some ⟨now, success, message⟩ then c else { c with updatedAt := now }) = some t := by
      rw [if_neg hne]
      exact hstore
    have hgated := h _ ((hok _).2 ⟨id, c, success, message, t, hfound, hclass, hresult, hstored, rfl⟩)
    refine (gated_set_iff hfound.2.1 hstored (update_of_ne s.lastTests ⟨now, success, message⟩)).1 hgated fun hsame => hne ?_
    rw [← (Prod.mk.inj hsame).2, Function.update_self]
  · intro h s' hs'
    obtain ⟨id, c, success, message, t, hfound, hclass, hresult, hstore, rfl⟩ := (hok s').1 hs'
    refine (gated_set_iff hfound.2.1 hstore (update_of_ne s.lastTests ⟨now, success, message⟩)).2 fun hne => ?_
    refine h ⟨id, c, success, message, hfound, hclass, hresult, fun hsame => hne ?_⟩
    rw [if_pos hsame, Function.update_self, hsame]

theorem token_gated_iff {key name : String} :
    (∀ s', generateAgentToken H auth id key name s = (.ok (), s') → Gated auth s s') ↔
      (Event.token auth id key name).Permitted H s := by
  constructor
  · rintro h ⟨htenant, hnew, htakes⟩
    refine (h _ (insertAgent_eq_ok.2 ⟨⟨htenant, hnew, htakes⟩, rfl⟩)).created id (PyDict.get?_eq_none hnew) fun hnone => ?_
    have hget := PyDict.get?_set_self s.store.agents id ⟨auth.tenantID, name, none, none⟩
    nomatch hget.symm.trans hnone
  · intro h s' hs'
    obtain ⟨hcond, rfl⟩ := insertAgent_eq_ok.1 hs'
    exact ⟨fun _ hrow => absurd rfl hrow, fun _ _ _ => h hcond, fun _ _ _ => h hcond⟩

theorem revoke_gated_iff {agentID : String} :
    (∀ s', revokeAgent H auth agentID s = (.ok (), s') → Gated auth s s') ↔
      (Event.revoke auth agentID).Permitted H s := by
  have hok : ∀ s', revokeAgent H auth agentID s = (.ok (), s') ↔ ∃ id, H.parseUuid agentID = some id ∧
      ∃ a, (s.store.agents.get? id = some a ∧ a.tenantID = auth.tenantID) ∧
        { s with scanners := Function.update s.scanners id ((s.scanners id).map fun a => { a with isActive := false }) } =
          s' := by
    intro s'
    unfold revokeAgent
    simp only [Txn.ofOption_bind_eq_ok, Txn.read_bind_eq_ok, Txn.write_eq_ok, Option.filter_eq_some_iff,
      decide_eq_true_eq]
  constructor
  · rintro h ⟨id, a, hid, ha, htenant, hactive⟩
    refine (h _ ((hok _).2 ⟨id, hid, a, ⟨ha, htenant⟩, rfl⟩)).revoked id hactive fun hstill => ?_
    obtain ⟨b, hb, hbactive⟩ := hstill
    dsimp only at hb
    rw [Function.update_self] at hb
    obtain ⟨b', -, rfl⟩ := Option.map_eq_some_iff.1 hb
    exact Bool.false_ne_true hbactive
  · intro h s' hs'
    obtain ⟨id, hid, a, ⟨ha, htenant⟩, rfl⟩ := (hok s').1 hs'
    refine ⟨fun _ hrow => absurd rfl hrow, fun _ hnone hsome => absurd hnone hsome, fun id' hactive hrevoked => ?_⟩
    by_cases hsame : id' = id
    · subst hsame
      exact h ⟨id', a, hid, ha, htenant, hactive⟩
    · refine absurd ?_ hrevoked
      obtain ⟨b, hb, hbactive⟩ := hactive
      exact ⟨b, (Function.update_of_ne hsame _ _).trans hb, hbactive⟩

/-! ### Histories -/

theorem gated_step_iff {e : Event} (h : step H s e = some s') : Gated e.auth s s' ↔ e.Permitted H s := by
  obtain rfl := Option.some.inj h
  rw [gated_exec_iff]
  cases e with
  | create auth now req => exact iff_of_true (fun s' hs' => createConnector_gated hs') trivial
  | update auth now connectorID req => exact update_gated_iff
  | delete auth connectorID => exact delete_gated_iff
  | schedule auth now connectorID name => exact schedule_gated_iff
  | test auth now connectorID result => exact test_gated_iff
  | register auth id key req => exact iff_of_true (fun s' hs' => registerScanner_gated hs') trivial
  | token auth id key name => exact token_gated_iff
  | revoke auth agentID => exact revoke_gated_iff

/-- Every request of a history writes only what its user may write exactly if the requests that are not asked for a
permission come from users who hold it, where they would write. -/
theorem gated_along_iff (H : Host) (s : State) (events : List Event) :
    Runs.Along (step H) (fun s e => ∀ s', step H s e = some s' → Gated e.auth s s') s events ↔
      Runs.Along (step H) (fun s e => e.Permitted H s) s events := by
  refine Runs.along_congr fun s e s' hs' => ?_
  constructor
  · exact fun h => (gated_step_iff hs').1 (h s' hs')
  · intro h s'' hs''
    exact (gated_step_iff hs'').2 h

def sampleHost : Host where
  toServices := ConnectorStore.sampleServices
  sha256 text := text
  takesAgent _ _ _ := true

def sampleState : State := ⟨ConnectorStore.sampleTables, fun _ => none, fun _ => none⟩

/-- A user without a permission makes an agent and its key. -/
def tokenForNobody : List Event := [.token ⟨some "u", "t1", "", [], []⟩ "x" "key" "laptop"]

theorem token_not_gated : ¬ Runs.Along (step sampleHost)
    (fun s e => ∀ s', step sampleHost s e = some s' → Gated e.auth s s') sampleState tokenForNobody := by
  intro h
  obtain ⟨hgated, -⟩ := h _ rfl
  rcases (hgated _ rfl).created "x" rfl (nomatch ·) with hmay | hmay
  · exact absurd hmay List.not_mem_nil
  · exact absurd hmay List.not_mem_nil

end Dgraphai.WriteGates
