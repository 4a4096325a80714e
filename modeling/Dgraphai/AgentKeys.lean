import Dgraphai.Connectors
import Dgraphai.WriteGates

/-!
# Keys of the scanner agents (`api/agent.py`, `api/scanner.py`)

An agent shows its key with each request; the table holds its hash. A key that was revoked or rotated is refused ever
after (`ended_key_refused`). Over the platform stands the Go agent that polls `/api/agent/config` with one key: whatever
is written meanwhile, it scans what it was configured with and connectors of the tenant the key was made for
(`scans_own`).
-/

namespace Dgraphai.AgentKeys

open Auth (Uuid Time AuthContext HttpError serverError)
open ConnectorStore (Connector ScannerAgent)
open WriteGates (AgentColumns Host Request State addAgent)

variable (H : Host)

/-! ### Requests with a key -/

/-- The active agents whose hash is that of the key. -/
def found (s : State) (key : String) : List (Uuid × ScannerAgent) :=
  s.store.agents.entries.filter fun a =>
    (s.scanners a.1).any fun c => decide (c.apiKeyHash = H.sha256 key ∧ c.isActive = true)

/-- `_get_agent_from_key`, with its `limit(1)`. -/
def getAgentFromKey (xScannerKey : Option String) : Request (Uuid × ScannerAgent) := do
  let key ← Txn.ofOption ⟨401, "Missing X-Scanner-Key header"⟩ (xScannerKey.filter (· ≠ ""))
  let rows ← Txn.read fun s => found H s key
  Txn.ofOption ⟨401, "Invalid or revoked agent key"⟩ rows.head?

/-- The row of an agent. -/
def setAgent (id : Uuid) (agent : ScannerAgent) : Request Unit :=
  Txn.write fun s => { s with store := addAgent s.store id agent }

/-- The other columns of an agent. -/
def setColumns (id : Uuid) (f : AgentColumns → AgentColumns) : Request Unit :=
  Txn.write fun s => { s with scanners := Function.update s.scanners id ((s.scanners id).map f) }

/-- `_get_scanner`; `scalar_one_or_none` raises where two agents have the key. -/
def getScanner (now : Time) (xScannerKey : Option String) : Request (Uuid × ScannerAgent) := do
  let key ← Txn.ofOption ⟨401, "X-Scanner-Key header required"⟩ (xScannerKey.filter (· ≠ ""))
  let rows ← Txn.read fun s => found H s key
  Txn.raiseIf (2 ≤ rows.length) serverError
  let scanner ← Txn.ofOption ⟨401, "Invalid or inactive scanner key"⟩ rows.head?
  let scanner : Uuid × ScannerAgent := (scanner.1, { scanner.2 with lastSeen := some now })
  setAgent scanner.1 scanner.2
  pure scanner

/-- `rotate_key`, with the text it draws; the new key is the answer. -/
def rotateKey (now : Time) (xScannerKey : Option String) (drawn : String) : Request String := do
  let scanner ← getScanner H now xScannerKey
  setColumns scanner.1 fun c => { c with apiKeyHash := H.sha256 ("dg_" ++ drawn) }
  pure ("dg_" ++ drawn)

/-- `heartbeat` of `scanner.py`, as far as the columns here go. -/
def heartbeat (now : Time) (xScannerKey : Option String) (version platform : String) : Request Unit := do
  let scanner ← getScanner H now xScannerKey
  Txn.raiseIf (H.takesAgent scanner.2.name (some platform) (some version) = false) serverError
  setAgent scanner.1 { scanner.2 with platform := some platform }
  setColumns scanner.1 fun c => { c with version := some version }

/-- `poll_jobs` and `sync_delta`, as far as the tables go. -/
def scannerCall (now : Time) (xScannerKey : Option String) : Request Unit := do
  let _scanner ← getScanner H now xScannerKey
  pure ()

/-- `agent_heartbeat`, as far as the columns here go. -/
def agentHeartbeat (xScannerKey : Option String) (version : String) : Request Unit := do
  let agent ← getAgentFromKey H xScannerKey
  Txn.raiseIf (H.takesAgent agent.2.name agent.2.platform (some version) = false) serverError
  setColumns agent.1 fun c => { c with version := some version }

/-- The connectors of `get_agent_config`. -/
def assigned (s : State) (id : Uuid) (agent : ScannerAgent) : List (Uuid × Connector) :=
  s.store.connectors.entries.filter fun c =>
    c.2.tenantID = agent.tenantID ∧ c.2.scannerAgentID = some id ∧ c.2.isActive = true

/-- `get_agent_config`: the agent, and its connectors. -/
def getAgentConfig (xScannerKey : Option String) : Request ((Uuid × ScannerAgent) × List (Uuid × Connector)) := do
  let agent ← getAgentFromKey H xScannerKey
  let connectors ← Txn.read fun s => assigned s agent.1 agent.2
  pure (agent, connectors)

/-! ### Histories of the platform -/

inductive Event where
  | write (e : WriteGates.Event)
  | rotate (now : Time) (xScannerKey : Option String) (drawn : String)
  | heartbeat (now : Time) (xScannerKey : Option String) (version platform : String)
  | call (now : Time) (xScannerKey : Option String)
  | agentHeartbeat (xScannerKey : Option String) (version : String)

def Event.body : Event → Request Unit
  | .write e => e.body H
  | .rotate now key drawn => do
    let _key ← rotateKey H now key drawn
    pure ()
  | .heartbeat now key version platform => AgentKeys.heartbeat H now key version platform
  | .call now key => scannerCall H now key
  | .agentHeartbeat key version => AgentKeys.agentHeartbeat H key version

/-- The tables after a request in its own `get_db` scope. -/
def step (s : State) (e : Event) : Option State := some ((e.body H).exec s).2

/-- The key a request makes, if it goes through. -/
def Event.makes : Event → Option String
  | .write (.register _ _ key _) => some ("dg_" ++ key)
  | .write (.token _ _ key _) => some ("dga_" ++ key)
  | .rotate _ _ drawn => some ("dg_" ++ drawn)
  | _ => none

/-- No request makes a key with the hash of this one. -/
def Event.Fresh (key : String) (e : Event) : Prop := ∀ k ∈ e.makes, H.sha256 k ≠ H.sha256 key

/-! ### What a request does to the keys -/

/-- The tenant of an agent, the hash of its key and whether it is active. -/
def credential (s : State) (id : Uuid) : Option (Uuid × String × Bool) :=
  (s.store.agents.get? id).bind fun a => (s.scanners id).map fun c => (a.tenantID, c.apiKeyHash, c.isActive)

/-- Agents stay, in their tenants and inactive once they are; a hash that is new is the one made. -/
structure Keeps (made : Option String) (s s' : State) : Prop where
  tenant : ∀ id a, s.store.agents.get? id = some a → ∃ a', s'.store.agents.get? id = some a' ∧ a'.tenantID = a.tenantID
  hash : ∀ id tenant h, credential s' id = some (tenant, h, true) →
    (∃ k ∈ made, H.sha256 k = h) ∨ credential s id = some (tenant, h, true)

variable {H} {s s' s₁ : State} {made : Option String} {key : String} {id : Uuid}

theorem credential_eq_some {tenant : Uuid} {h : String} {active : Bool} :
    credential s id = some (tenant, h, active) ↔ ∃ a c, s.store.agents.get? id = some a ∧ s.scanners id = some c ∧
      a.tenantID = tenant ∧ c.apiKeyHash = h ∧ c.isActive = active := by
  unfold credential
  rw [Option.bind_eq_some_iff]
  constructor
  · rintro ⟨a, ha, hmap⟩
    obtain ⟨c, hc, heq⟩ := Option.map_eq_some_iff.1 hmap
    obtain ⟨rfl, hrest⟩ := Prod.mk.inj heq
    obtain ⟨rfl, rfl⟩ := Prod.mk.inj hrest
    exact ⟨a, c, ha, hc, rfl, rfl, rfl⟩
  · rintro ⟨a, c, ha, hc, rfl, rfl, rfl⟩
    exact ⟨a, ha, Option.map_eq_some_iff.2 ⟨c, hc, rfl⟩⟩

theorem Keeps.of_same (hagents : s'.store.agents = s.store.agents) (hscanners : s'.scanners = s.scanners) :
    Keeps H made s s' := by
  constructor
  · intro id a ha
    exact ⟨a, by rw [hagents, ha], rfl⟩
  · intro id tenant h hcred
    unfold credential at hcred ⊢
    rw [hagents, hscanners] at hcred
    exact .inr hcred

theorem Keeps.refl : Keeps H made s s := .of_same rfl rfl

theorem Keeps.trans (h : Keeps H none s s₁) (h' : Keeps H made s₁ s') : Keeps H made s s' := by
  constructor
  · intro id a ha
    obtain ⟨a₁, ha₁, htenant₁⟩ := h.tenant id a ha
    obtain ⟨a', ha', htenant'⟩ := h'.tenant id a₁ ha₁
    exact ⟨a', ha', htenant'.trans htenant₁⟩
  · intro id tenant hash hcred
    rcases h'.hash id tenant hash hcred with hmade | hcred₁
    · exact .inl hmade
    · rcases h.hash id tenant hash hcred₁ with ⟨k, hk, -⟩ | hcred₀
      · exact absurd hk (Option.not_mem_none k)
      · exact .inr hcred₀

/-! ### Requests that write agents -/

theorem keeps_insertAgent {agent : ScannerAgent} {c : AgentColumns} {k : String} (hnew : id ∉ s.store.agents.keys)
    (hk : k ∈ made) (hhash : H.sha256 k = c.apiKeyHash) :
    Keeps H made s { s with store := addAgent s.store id agent, scanners := Function.update s.scanners id (some c) } := by
  constructor
  · intro id' a ha
    have hne : id' ≠ id := by
      rintro rfl
      exact hnew (List.mem_map_of_mem (PyDict.mem_of_get? ha))
    exact ⟨a, (PyDict.get?_set_of_ne hne).trans ha, rfl⟩
  · intro id' tenant h hcred
    obtain ⟨a', c', ha', hc', rfl, rfl, hactive⟩ := credential_eq_some.1 hcred
    by_cases hsame : id' = id
    · subst hsame
      obtain rfl : c = c' := Option.some.inj ((Function.update_self id' (some c) s.scanners).symm.trans hc')
      exact .inl ⟨k, hk, hhash⟩
    · exact .inr (credential_eq_some.2 ⟨a', c', (PyDict.get?_set_of_ne hsame).symm.trans ha',
        (Function.update_of_ne hsame _ _).symm.trans hc', rfl, rfl, hactive⟩)

/-- A row written in the place of one, in the tenant it is in. -/
theorem keeps_addAgent {a agent : ScannerAgent} (ha : s.store.agents.get? id = some a)
    (htenant : agent.tenantID = a.tenantID) : Keeps H made s { s with store := addAgent s.store id agent } := by
  constructor
  · intro id' b hb
    by_cases hsame : id' = id
    · subst hsame
      obtain rfl : a = b := Option.some.inj (ha.symm.trans hb)
      exact ⟨agent, PyDict.get?_set_self _ _ _, htenant⟩
    · exact ⟨b, (PyDict.get?_set_of_ne hsame).trans hb, rfl⟩
  · intro id' tenant h hcred
    obtain ⟨a', c', ha', hc', rfl, rfl, hactive⟩ := credential_eq_some.1 hcred
    refine .inr (credential_eq_some.2 ?_)
    by_cases hsame : id' = id
    · subst hsame
      obtain rfl : agent = a' := Option.some.inj ((PyDict.get?_set_self s.store.agents id' agent).symm.trans ha')
      exact ⟨a, c', ha, hc', htenant.symm, rfl, hactive⟩
    · exact ⟨a', c', (PyDict.get?_set_of_ne hsame).symm.trans ha', hc', rfl, rfl, hactive⟩

/-- Columns written in the place of others: the hash is made, or it and `is_active` are as before. -/
theorem keeps_setColumns {f : AgentColumns → AgentColumns} (hf : ∀ c, (f c).isActive = true →
    (∃ k ∈ made, H.sha256 k = (f c).apiKeyHash) ∨ (f c).apiKeyHash = c.apiKeyHash ∧ c.isActive = true) :
    Keeps H made s { s with scanners := Function.update s.scanners id ((s.scanners id).map f) } := by
  constructor
  · exact fun id' a ha => ⟨a, ha, rfl⟩
  · intro id' tenant h hcred
    obtain ⟨a', c', ha', hc', rfl, rfl, hactive⟩ := credential_eq_some.1 hcred
    by_cases hsame : id' = id
    · subst hsame
      obtain ⟨c, hc, rfl⟩ := Option.map_eq_some_iff.1 ((Function.update_self id' _ s.scanners).symm.trans hc')
      rcases hf c hactive with hmade | ⟨hhash, hwas⟩
      · exact .inl hmade
      · exact .inr (credential_eq_some.2 ⟨a', c, ha', hc, rfl, hhash.symm, hwas⟩)
    · exact .inr (credential_eq_some.2 ⟨a', c', ha', (Function.update_of_ne hsame _ _).symm.trans hc', rfl, rfl, hactive⟩)

theorem mem_found {x : Uuid × ScannerAgent} : x ∈ found H s key ↔
    s.store.agents.get? x.1 = some x.2 ∧ credential s x.1 = some (x.2.tenantID, H.sha256 key, true) := by
  unfold found
  rw [List.mem_filter, ← PyDict.get?_eq_some_iff, credential_eq_some]
  refine and_congr_right fun hx => ?_
  constructor
  · intro hany
    obtain ⟨c, hc, hcols⟩ := (Option.any_eq_true _ _).1 hany
    obtain ⟨hhash, hactive⟩ := of_decide_eq_true hcols
    exact ⟨x.2, c, hx, hc, rfl, hhash, hactive⟩
  · rintro ⟨a, c, -, hc, -, hhash, hactive⟩
    exact (Option.any_eq_true _ _).2 ⟨c, hc, decide_eq_true ⟨hhash, hactive⟩⟩

theorem getScanner_eq_ok {now : Time} {xScannerKey : Option String} {r : Uuid × ScannerAgent} :
    getScanner H now xScannerKey s = (.ok r, s') ↔ ∃ key a, xScannerKey = some key ∧ key ≠ "" ∧
      found H s key = [(r.1, a)] ∧ r.2 = { a with lastSeen := some now } ∧
        { s with store := addAgent s.store r.1 r.2 } = s' := by
  unfold getScanner setAgent
  simp only [Txn.ofOption_bind_eq_ok, Txn.read_bind_eq_ok, Txn.raiseIf_bind_eq_ok, Txn.write_bind_eq_ok,
    Txn.pure_eq_ok, Option.filter_eq_some_iff, decide_eq_true_eq]
  constructor
  · rintro ⟨key, ⟨rfl, hne⟩, hone, x, hx, rfl, rfl⟩
    refine ⟨key, x.2, rfl, hne, ?_, rfl, rfl⟩
    rcases hrows : found H s key with _ | ⟨y, _ | ⟨z, rest⟩⟩
    · rw [hrows] at hx
      cases hx
    · rw [hrows] at hx
      obtain rfl := Option.some.inj hx
      rfl
    · rw [hrows] at hone
      exact absurd (Nat.le_add_left 2 rest.length) hone
  · rintro ⟨key, a, rfl, hne, hrows, hr, rfl⟩
    refine ⟨key, ⟨rfl, hne⟩, ?_, (r.1, a), ?_, ?_, ?_⟩
    · rw [hrows]
      exact Nat.not_succ_le_self 1
    · rw [hrows, List.head?_cons]
    · rw [← hr]
    · rw [← hr]

theorem getAgentFromKey_eq_ok {xScannerKey : Option String} {r : Uuid × ScannerAgent} :
    getAgentFromKey H xScannerKey s = (.ok r, s') ↔
      (∃ key, (xScannerKey = some key ∧ key ≠ "") ∧ (found H s key).head? = some r) ∧ s = s' := by
  unfold getAgentFromKey
  simp only [Txn.ofOption_bind_eq_ok, Txn.read_bind_eq_ok, Txn.ofOption_eq_ok, Option.filter_eq_some_iff,
    decide_eq_true_eq]
  constructor
  · rintro ⟨key, hkey, hhead, rfl⟩
    exact ⟨⟨key, hkey, hhead⟩, rfl⟩
  · rintro ⟨⟨key, hkey, hhead⟩, rfl⟩
    exact ⟨key, hkey, hhead, rfl⟩

/-- `_get_scanner` writes `last_seen`. -/
theorem keeps_getScanner {now : Time} {xScannerKey : Option String} {r : Uuid × ScannerAgent}
    (h : getScanner H now xScannerKey s = (.ok r, s')) :
    Keeps H made s s' ∧ s'.store.agents.get? r.1 = some r.2 := by
  obtain ⟨key, a, -, -, hrows, hr, rfl⟩ := getScanner_eq_ok.1 h
  have hmem : (r.1, a) ∈ found H s key := hrows ▸ List.mem_singleton_self _
  refine ⟨keeps_addAgent (mem_found.1 hmem).1 (by rw [hr]), PyDict.get?_set_self _ _ _⟩

theorem keeps_rotateKey {now : Time} {xScannerKey : Option String} {drawn new : String}
    (h : rotateKey H now xScannerKey drawn s = (.ok new, s')) : Keeps H (some ("dg_" ++ drawn)) s s' := by
  unfold rotateKey setColumns at h
  obtain ⟨r, s₁, hscanner, h⟩ := Txn.bind_eq_ok.1 h
  simp only [Txn.write_bind_eq_ok, Txn.pure_eq_ok] at h
  obtain ⟨-, rfl⟩ := h
  exact (keeps_getScanner hscanner).1.trans
    (keeps_setColumns (f := fun c => { c with apiKeyHash := H.sha256 ("dg_" ++ drawn) }) fun c _ => .inl ⟨_, rfl, rfl⟩)

theorem keeps_heartbeat {now : Time} {xScannerKey : Option String} {version platform : String} {u : Unit}
    (h : AgentKeys.heartbeat H now xScannerKey version platform s = (.ok u, s')) : Keeps H none s s' := by
  unfold AgentKeys.heartbeat setAgent setColumns at h
  obtain ⟨r, s₁, hscanner, h⟩ := Txn.bind_eq_ok.1 h
  simp only [Txn.raiseIf_bind_eq_ok, Txn.write_bind_eq_ok, Txn.write_eq_ok] at h
  obtain ⟨-, rfl⟩ := h
  obtain ⟨hkeeps, hrow⟩ := keeps_getScanner hscanner
  have hplatform : Keeps H none s₁
      { s₁ with store := addAgent s₁.store r.1 { r.2 with platform := some platform } } := keeps_addAgent hrow rfl
  refine (hkeeps.trans hplatform).trans ?_
  exact keeps_setColumns (s := { s₁ with store := addAgent s₁.store r.1 { r.2 with platform := some platform } })
    (f := fun c => { c with version := some version }) fun c hactive => .inr ⟨rfl, hactive⟩

theorem keeps_agentHeartbeat {xScannerKey : Option String} {version : String} {u : Unit}
    (h : AgentKeys.agentHeartbeat H xScannerKey version s = (.ok u, s')) : Keeps H none s s' := by
  unfold AgentKeys.agentHeartbeat setColumns at h
  obtain ⟨r, s₁, hagent, h⟩ := Txn.bind_eq_ok.1 h
  obtain ⟨-, rfl⟩ := getAgentFromKey_eq_ok.1 hagent
  simp only [Txn.raiseIf_bind_eq_ok, Txn.write_eq_ok] at h
  obtain ⟨-, rfl⟩ := h
  exact keeps_setColumns (f := fun c => { c with version := some version }) fun c hactive => .inr ⟨rfl, hactive⟩

theorem keeps_revokeAgent {auth : AuthContext} {agentID : String} {u : Unit}
    (h : WriteGates.revokeAgent H auth agentID s = (.ok u, s')) : Keeps H made s s' := by
  unfold WriteGates.revokeAgent at h
  simp only [Txn.ofOption_bind_eq_ok, Txn.read_bind_eq_ok, Txn.write_eq_ok] at h
  obtain ⟨id, -, a, -, rfl⟩ := h
  exact keeps_setColumns (f := fun c => { c with isActive := false }) fun c hactive => absurd hactive Bool.false_ne_true

/-! ### Requests that write connectors -/

theorem keeps_onStore {α : Type} {m : ConnectorStore.ConnectorRequest α} {r : α}
    (hm : ∀ t, m s.store = (.ok r, t) → t.agents = s.store.agents) (h : WriteGates.onStore m s = (.ok r, s')) :
    s'.store.agents = s.store.agents ∧ s'.scanners = s.scanners := by
  obtain ⟨t, hok, rfl⟩ := WriteGates.onStore_eq_ok.1 h
  exact ⟨hm t hok, rfl⟩

theorem agents_createConnector {S : ConnectorStore.Services} {auth : AuthContext} {now : Time}
    {req : ConnectorStore.CreateConnectorRequest} {r : Uuid × Connector} {t t' : ConnectorStore.Tables}
    (h : ConnectorStore.createConnector S auth now req t = (.ok r, t')) : t'.agents = t.agents := by
  unfold ConnectorStore.createConnector at h
  simp only [Txn.raiseIf_bind_eq_ok] at h
  obtain ⟨agent, t₁, hagent, hrest⟩ := Txn.bind_eq_ok.1 h.2.2
  obtain ⟨rfl, -⟩ := ConnectorStore.agentOf_eq_ok hagent
  simp only [Txn.read_bind_eq_ok, Txn.raiseIf_bind_eq_ok, Txn.ofOption_bind_eq_ok, Txn.write_bind_eq_ok,
    Txn.pure_eq_ok] at hrest
  obtain ⟨-, stored, hstore, -, rfl⟩ := hrest
  exact (ConnectorStore.store_eq_some hstore).2.1

/-- A connector looked up, and tables stored with it. -/
theorem same_of_stored {auth : AuthContext} {connectorID : String} {α : Type}
    {f : Uuid × Connector → WriteGates.Request α} {r : α}
    (h : (WriteGates.onStore (ConnectorStore.getConnectorOr404 H.toServices auth connectorID) >>= f) s = (.ok r, s'))
    (hf : ∀ c, f c s = (.ok r, s') → s'.store.agents = s.store.agents ∧ s'.scanners = s.scanners) :
    s'.store.agents = s.store.agents ∧ s'.scanners = s.scanners := by
  obtain ⟨c, s₁, hget, h⟩ := Txn.bind_eq_ok.1 h
  obtain ⟨-, rfl⟩ := WriteGates.onStore_found.1 hget
  exact hf c h

theorem keeps_write {e : WriteGates.Event} {u : Unit} (h : e.body H s = (.ok u, s')) :
    Keeps H (Event.write e).makes s s' := by
  cases e with
  | create auth now req =>
    obtain ⟨c, s₁, hcreate, h⟩ := Txn.bind_eq_ok.1 h
    obtain ⟨hagents, hscanners⟩ := keeps_onStore (fun t => agents_createConnector) hcreate
    obtain rfl := Txn.write_eq_ok.1 h
    exact .of_same hagents hscanners
  | update auth now connectorID req =>
    obtain ⟨r, hr⟩ := Txn.discard_eq_ok.1 h
    obtain ⟨hagents, hscanners⟩ := keeps_onStore (fun t hok => by
      obtain ⟨id, c, agent, hupdates⟩ := ConnectorStore.updateConnector_eq_ok.1 ⟨r, hok⟩
      exact (ConnectorStore.store_eq_some hupdates.stored).2.1) hr
    exact .of_same hagents hscanners
  | delete auth connectorID =>
    obtain ⟨hagents, hscanners⟩ := keeps_onStore (fun t hok => by
      obtain ⟨id, rfl⟩ := ConnectorStore.deleteConnector_eq_ok hok
      rfl) h
    exact .of_same hagents hscanners
  | schedule auth now connectorID name =>
    obtain ⟨secs, -, h⟩ := Txn.ofOption_bind_eq_ok.1 h
    obtain ⟨hagents, hscanners⟩ := same_of_stored h fun c hc => by
      simp only [Txn.read_bind_eq_ok, Txn.ofOption_bind_eq_ok, Txn.write_eq_ok] at hc
      obtain ⟨t, hstore, rfl⟩ := hc
      exact ⟨(ConnectorStore.store_eq_some hstore).2.1, rfl⟩
    exact .of_same hagents hscanners
  | test auth now connectorID result =>
    obtain ⟨hagents, hscanners⟩ := same_of_stored h fun c hc => by
      simp only [Txn.raiseIf_bind_eq_ok, Txn.read_bind_eq_ok, Txn.ofOption_bind_eq_ok, Txn.write_eq_ok] at hc
      obtain ⟨-, tested, -, t, hstore, rfl⟩ := hc
      exact ⟨(ConnectorStore.store_eq_some hstore).2.1, rfl⟩
    exact .of_same hagents hscanners
  | register auth id key req =>
    obtain ⟨-, h⟩ := Txn.raiseIf_bind_eq_ok.1 h
    obtain ⟨⟨-, hnew, -⟩, rfl⟩ := WriteGates.insertAgent_eq_ok.1 h
    exact keeps_insertAgent hnew rfl rfl
  | token auth id key name =>
    obtain ⟨⟨-, hnew, -⟩, rfl⟩ := WriteGates.insertAgent_eq_ok.1 h
    exact keeps_insertAgent hnew rfl rfl
  | revoke auth agentID => exact keeps_revokeAgent h

/-! ### Histories -/

theorem keeps_step {e : Event} (h : step H s e = some s') : Keeps H e.makes s s' := by
  obtain rfl := Option.some.inj h
  refine (Txn.exec_inv_iff Keeps.refl).2 fun u t hok => ?_
  cases e with
  | write e => exact keeps_write hok
  | rotate now key drawn =>
    obtain ⟨new, hnew⟩ := Txn.discard_eq_ok.1 hok
    exact keeps_rotateKey hnew
  | heartbeat now key version platform => exact keeps_heartbeat hok
  | call now key =>
    obtain ⟨r, hr⟩ := Txn.discard_eq_ok.1 hok
    exact (keeps_getScanner hr).1
  | agentHeartbeat key version => exact keeps_agentHeartbeat hok

/-- The agents with a key: no request brings one in that does not make the key. -/
theorem found_of_keeps (h : Keeps H made s s') (hfresh : ∀ k ∈ made, H.sha256 k ≠ H.sha256 key)
    {x : Uuid × ScannerAgent} (hx : x ∈ found H s' key) : ∃ a, (x.1, a) ∈ found H s key ∧ a.tenantID = x.2.tenantID := by
  obtain ⟨-, hcred⟩ := mem_found.1 hx
  rcases h.hash _ _ _ hcred with ⟨k, hk, hhash⟩ | hwas
  · exact absurd hhash (hfresh k hk)
  · obtain ⟨a, c, ha, hc, htenant, hhash, hactive⟩ := credential_eq_some.1 hwas
    exact ⟨a, mem_found.2 ⟨ha, credential_eq_some.2 ⟨a, c, ha, hc, rfl, hhash, hactive⟩⟩, htenant⟩

/-- No active agent has the key. -/
theorem refused (h : found H s key = []) : (∃ e, getAgentFromKey H (some key) s = (.error e, s) ∧ e.status = 401) ∧
    ∀ now, ∃ e, getScanner H now (some key) s = (.error e, s) ∧ e.status = 401 := by
  by_cases hkey : key = ""
  · subst hkey
    exact ⟨⟨_, rfl, rfl⟩, fun now => ⟨_, rfl, rfl⟩⟩
  · have hgiven : (some key).filter (· ≠ "") = some key := by simp [hkey]
    constructor
    · refine ⟨⟨401, "Invalid or revoked agent key"⟩, ?_, rfl⟩
      unfold getAgentFromKey
      rw [hgiven, Txn.ofOption_some, Txn.pure_bind]
      show Txn.ofOption _ (found H s key).head? s = _
      rw [h]
      rfl
    · intro now
      refine ⟨⟨401, "Invalid or inactive scanner key"⟩, ?_, rfl⟩
      unfold getScanner
      rw [hgiven, Txn.ofOption_some, Txn.pure_bind]
      show (Txn.raiseIf (2 ≤ (found H s key).length) serverError >>= fun _ =>
        Txn.ofOption _ (found H s key).head? >>= _) s = _
      rw [h]
      rfl

/-- The key comes to its end: its only agent is revoked, or takes another key. -/
inductive Ends (H : Host) (key : String) (s s' : State) : Prop where
  | revoked (auth : AuthContext) (agentID : String) (x : Uuid × ScannerAgent) (hfound : found H s key = [x])
      (hid : H.parseUuid agentID = some x.1) (hok : WriteGates.revokeAgent H auth agentID s = (.ok (), s'))
  | rotated (now : Time) (drawn : String) (hother : H.sha256 ("dg_" ++ drawn) ≠ H.sha256 key)
      (hok : ∃ new, rotateKey H now (some key) drawn s = (.ok new, s'))

/-- Once the columns of the only agent with a key are written, none has it. -/
theorem found_setColumns {f : AgentColumns → AgentColumns} (honly : ∀ x ∈ found H s key, x.1 = id)
    (hf : ∀ c, (f c).isActive = true → (f c).apiKeyHash ≠ H.sha256 key) :
    found H { s with scanners := Function.update s.scanners id ((s.scanners id).map f) } key = [] := by
  refine List.eq_nil_iff_forall_not_mem.2 fun x hx => ?_
  obtain ⟨hrow, hcred⟩ := mem_found.1 hx
  obtain ⟨a, c, -, hc, -, hhash, hactive⟩ := credential_eq_some.1 hcred
  dsimp only at hc hrow
  by_cases hsame : x.1 = id
  · rw [hsame, Function.update_self] at hc
    obtain ⟨c₀, -, rfl⟩ := Option.map_eq_some_iff.1 hc
    exact hf c₀ hactive hhash
  · rw [Function.update_of_ne hsame] at hc
    exact hsame (honly x (mem_found.2 ⟨hrow, credential_eq_some.2 ⟨x.2, c, hrow, hc, rfl, hhash, hactive⟩⟩))

theorem found_of_ends (h : Ends H key s s') : found H s' key = [] := by
  cases h with
  | revoked auth agentID x hfound hid hok =>
    unfold WriteGates.revokeAgent at hok
    simp only [Txn.ofOption_bind_eq_ok, Txn.read_bind_eq_ok, Txn.write_eq_ok] at hok
    obtain ⟨id, hparse, a, -, rfl⟩ := hok
    obtain rfl : x.1 = id := Option.some.inj (hid.symm.trans hparse)
    refine found_setColumns (f := fun c => { c with isActive := false }) (fun y hy => ?_)
      fun c hactive => absurd hactive Bool.false_ne_true
    rw [hfound] at hy
    rw [List.mem_singleton.1 hy]
  | rotated now drawn hother hok =>
    obtain ⟨new, hok⟩ := hok
    unfold rotateKey setColumns at hok
    obtain ⟨r, s₁, hscanner, hok⟩ := Txn.bind_eq_ok.1 hok
    simp only [Txn.write_bind_eq_ok, Txn.pure_eq_ok] at hok
    obtain ⟨-, rfl⟩ := hok
    refine found_setColumns (f := fun c => { c with apiKeyHash := H.sha256 ("dg_" ++ drawn) }) (fun y hy => ?_)
      fun c _ => hother
    -- `_get_scanner` found the agent with the key, and no other
    have hkeeps : Keeps H none s s₁ := (keeps_getScanner hscanner).1
    obtain ⟨a, ha, -⟩ := found_of_keeps hkeeps (fun k hk => absurd hk (Option.not_mem_none k)) hy
    obtain ⟨key', b, hkey, -, hrows, -⟩ := getScanner_eq_ok.1 hscanner
    obtain rfl : key = key' := Option.some.inj hkey
    rw [hrows] at ha
    exact (Prod.mk.inj (List.mem_singleton.1 ha)).1

/-- Once the only agent with a key was revoked or took another one, both ways of asking for the key refuse it in every
state of every history that does not make the key again. -/
theorem ended_key_refused (H : Host) (key : String) (s s' : State) (hends : Ends H key s s') (events : List Event)
    (hfresh : ∀ e ∈ events, e.Fresh H key) :
    Runs.Always (step H) (fun t => (∃ e, getAgentFromKey H (some key) t = (.error e, t) ∧ e.status = 401) ∧
      ∀ now, ∃ e, getScanner H now (some key) t = (.error e, t) ∧ e.status = 401) s' events := by
  have hstep : ∀ t (e : Event) t', found H t key = [] → e.Fresh H key → step H t e = some t' → found H t' key = [] := by
    intro t e t' ht he ht'
    refine List.eq_nil_iff_forall_not_mem.2 fun x hx => ?_
    obtain ⟨a, ha, -⟩ := found_of_keeps (keeps_step ht') he hx
    rw [ht] at ha
    exact absurd ha List.not_mem_nil
  exact Runs.always_of_along hstep (fun t ht => refused ht) (found_of_ends hends) (Runs.along_of_forall hfresh)

def sampleAuth : AuthContext := ⟨some "u", "t1", "", [], []⟩

/-- A tenant with an agent and its key. -/
def keyedState : State :=
  ((WriteGates.generateAgentToken WriteGates.sampleHost sampleAuth "x" "k" "laptop").exec WriteGates.sampleState).2

theorem ended_key_refused_revoked : ∃ s', Ends WriteGates.sampleHost "dga_k" keyedState s' ∧
    Runs.Always (step WriteGates.sampleHost)
      (fun t => (∃ e, getAgentFromKey WriteGates.sampleHost (some "dga_k") t = (.error e, t) ∧ e.status = 401) ∧
        ∀ now, ∃ e, getScanner WriteGates.sampleHost now (some "dga_k") t = (.error e, t) ∧ e.status = 401) s'
      [.call 1 (some "dga_k"), .write (.token sampleAuth "y" "other" "laptop")] := by
  have hrevoked : Ends WriteGates.sampleHost "dga_k" keyedState
      (WriteGates.revokeAgent WriteGates.sampleHost sampleAuth "x" keyedState).2 :=
    .revoked sampleAuth "x" ("x", ⟨"t1", "laptop", none, none⟩) rfl rfl rfl
  refine ⟨_, hrevoked, ended_key_refused WriteGates.sampleHost "dga_k" keyedState _ hrevoked _ ?_⟩
  intro e he k hk
  rcases List.mem_cons.1 he with rfl | he
  · exact absurd hk (Option.not_mem_none k)
  · obtain rfl := List.mem_singleton.1 he
    obtain rfl := Option.some.inj hk
    decide

/-! ### The agent that polls -/

open Agent (AgentConfig Config ConnectorConfig PlatformConnector)

/-- A value of a config, decoded into a `map[string]string`; `none` is the error that `Decode` returns in the end. -/
def decodeValue : Json → Option String
  | .str text => some text
  | .null => some ""
  | _ => none

/-- An item of `connectors`, as `get_agent_config` writes and `FetchConfig` decodes it. -/
def decodeConnector (c : Uuid × Connector) : Option PlatformConnector :=
  (c.2.config.mapM fun e => (decodeValue e.2).map fun v => (e.1, v)).map fun config =>
    ⟨c.1, c.2.name, c.2.connectorType, config, 360, c.2.isActive⟩

def decodeAnswer (answer : (Uuid × ScannerAgent) × List (Uuid × Connector)) : Option AgentConfig :=
  if answer.2.all fun c => (decodeConnector c).isSome then
    some ⟨answer.1.1, answer.1.2.tenantID, answer.2.filterMap decodeConnector⟩
  else none

/-- What `c.http.Do` and the body give. -/
inductive Reply where
  | unreachable
  | cut
  | answered (answer : Except HttpError ((Uuid × ScannerAgent) × List (Uuid × Connector)))

/-- The part of the agent that `run` keeps; it has `started` after the initial fetch. -/
structure Poller where
  cfg : Config
  lastConfig : Option AgentConfig
  started : Bool

/-- `FetchConfig`, and `c.lastConfig` after it. -/
def fetchConfig (lastConfig : Option AgentConfig) : Reply → Option AgentConfig × Option AgentConfig
  | .unreachable => (lastConfig, lastConfig)
  | .cut | .answered (.error _) => (none, lastConfig)
  | .answered (.ok answer) =>
    match decodeAnswer answer with
    | none => (none, lastConfig)
    | some plat => (some plat, some plat)

def Poller.start (statics : Config) : Poller := ⟨statics, none, false⟩

/-- The initial config merge, where an agent that ends is one to start, and the `configTicker`. -/
def Poller.fetched (statics : Config) (p : Poller) (reply : Reply) : Poller :=
  let (plat, lastConfig) := fetchConfig p.lastConfig reply
  if p.started then ⟨Agent.refresh p.cfg plat, lastConfig, true⟩
  else
    match Agent.startup p.cfg plat with
    | .error _ => .start statics
    | .ok cfg => ⟨cfg, lastConfig, true⟩

/-- The platform, the agent and the answer on its way. -/
structure Polling where
  platform : State
  agent : Poller
  answer : Option (Except HttpError ((Uuid × ScannerAgent) × List (Uuid × Connector)))

inductive PollEvent where
  | platform (e : Event)
  /-- The platform answers a request of the agent. -/
  | ask
  | arrive
  /-- The request or its answer is lost, or the answer is cut. -/
  | lose
  | cut
  | restart

def Polling.step (H : Host) (key : String) (statics : Config) (s : Polling) : PollEvent → Option Polling
  | .platform e => (AgentKeys.step H s.platform e).map fun platform => { s with platform := platform }
  | .ask => some { s with answer := some (((getAgentConfig H (some key)).exec s.platform).1) }
  | .arrive => s.answer.map fun answer =>
    { s with agent := s.agent.fetched statics (.answered answer), answer := none }
  | .lose => some { s with agent := s.agent.fetched statics .unreachable, answer := none }
  | .cut => some { s with agent := s.agent.fetched statics .cut, answer := none }
  | .restart => some { s with agent := .start statics, answer := none }

/-- An active connector of the tenant, assigned to an agent of it that has the key, as the agent reads it. -/
def Assigned (H : Host) (key : String) (tenant : Uuid) (s : State) (target : ConnectorConfig) : Prop :=
  ∃ c ∈ s.store.connectors.entries, ∃ id ∈ c.2.scannerAgentID, c.2.tenantID = tenant ∧ c.2.isActive = true ∧
    credential s id = some (tenant, H.sha256 key, true) ∧ (decodeConnector c).map (·.toConfig) = some target

def PollEvent.Fresh (H : Host) (key : String) : PollEvent → Prop
  | .platform e => e.Fresh H key
  | _ => True

/-- What the agent and the answer on its way hold has `Own`, and the key is of the tenant. -/
structure Polling.Owned (H : Host) (key : String) (tenant : Uuid) (Own : ConnectorConfig → Prop) (statics : Config)
    (s : Polling) : Prop where
  keyed : ∀ x ∈ found H s.platform key, x.2.tenantID = tenant
  cfg : ∀ c ∈ s.agent.cfg.connectors, c ∈ statics.connectors ∨ Own c
  last : ∀ plat ∈ s.agent.lastConfig, ∀ c ∈ plat.enabledConnectors, Own c
  answer : ∀ a, s.answer = some (.ok a) → ∀ plat ∈ decodeAnswer a, ∀ c ∈ plat.enabledConnectors, Own c

variable {tenant : Uuid} {Own : ConnectorConfig → Prop} {statics : Config}

theorem mem_mergeConnectors {cfg : Config} {plat : AgentConfig} {c : ConnectorConfig}
    (hc : c ∈ (Agent.mergeConnectors cfg plat).connectors) : c ∈ plat.enabledConnectors ∨ c ∈ cfg.connectors := by
  rw [Agent.mergeConnectors_connectors, Overlay.mem_overlay] at hc
  exact hc.imp id And.left

theorem fetchConfig_owned {lastConfig : Option AgentConfig} {reply : Reply}
    (hlast : ∀ plat ∈ lastConfig, ∀ c ∈ plat.enabledConnectors, Own c)
    (hreply : ∀ a, reply = .answered (.ok a) → ∀ plat ∈ decodeAnswer a, ∀ c ∈ plat.enabledConnectors, Own c) :
    (∀ plat ∈ (fetchConfig lastConfig reply).1, ∀ c ∈ plat.enabledConnectors, Own c) ∧
      ∀ plat ∈ (fetchConfig lastConfig reply).2, ∀ c ∈ plat.enabledConnectors, Own c := by
  have hnone : ∀ plat ∈ (none : Option AgentConfig), ∀ c ∈ plat.enabledConnectors, Own c :=
    fun plat hplat => absurd hplat (Option.not_mem_none plat)
  match reply with
  | .unreachable => exact ⟨hlast, hlast⟩
  | .cut => exact ⟨hnone, hlast⟩
  | .answered (.error e) => exact ⟨hnone, hlast⟩
  | .answered (.ok a) =>
    have ha := hreply a rfl
    rw [fetchConfig]
    split
    · exact ⟨hnone, hlast⟩
    · rename_i plat hdecode
      have hplat : ∀ plat' ∈ some plat, ∀ c ∈ plat'.enabledConnectors, Own c := by
        intro plat' hplat'
        exact ha plat' (hdecode.trans hplat')
      exact ⟨hplat, hplat⟩

theorem Poller.fetched_owned {p : Poller} {reply : Reply}
    (hcfg : ∀ c ∈ p.cfg.connectors, c ∈ statics.connectors ∨ Own c)
    (hlast : ∀ plat ∈ p.lastConfig, ∀ c ∈ plat.enabledConnectors, Own c)
    (hreply : ∀ a, reply = .answered (.ok a) → ∀ plat ∈ decodeAnswer a, ∀ c ∈ plat.enabledConnectors, Own c) :
    (∀ c ∈ (p.fetched statics reply).cfg.connectors, c ∈ statics.connectors ∨ Own c) ∧
      ∀ plat ∈ (p.fetched statics reply).lastConfig, ∀ c ∈ plat.enabledConnectors, Own c := by
  obtain ⟨hplat, hlast'⟩ := fetchConfig_owned hlast hreply
  have hmerge : ∀ cfg : Config, cfg.connectors = p.cfg.connectors → ∀ plat ∈ (fetchConfig p.lastConfig reply).1,
      ∀ c ∈ (Agent.mergeConnectors cfg plat).connectors, c ∈ statics.connectors ∨ Own c := by
    intro cfg hsame plat hp c hc
    rcases mem_mergeConnectors hc with hc | hc
    · exact .inr (hplat plat hp c hc)
    · exact hcfg c (hsame ▸ hc)
  unfold Poller.fetched
  generalize fetchConfig p.lastConfig reply = fetched at hplat hlast' hmerge ⊢
  obtain ⟨plat?, lastConfig⟩ := fetched
  dsimp only at hplat hlast' hmerge ⊢
  split_ifs with hstarted
  · refine ⟨?_, hlast'⟩
    cases plat? with
    | none => exact hcfg
    | some plat => exact hmerge p.cfg rfl plat rfl
  · cases plat? with
    | none =>
      rw [Agent.startup]
      split_ifs with hzero
      · exact ⟨fun c hc => .inl hc, fun plat hp => absurd hp (Option.not_mem_none plat)⟩
      · exact ⟨hcfg, hlast'⟩
    | some plat =>
      exact ⟨hmerge { p.cfg with tenantID := plat.tenantID, agentID := plat.agentID } rfl plat rfl, hlast'⟩

/-- What the platform answers is assigned in the state it answers in. -/
theorem assigned_of_answer {a : (Uuid × ScannerAgent) × List (Uuid × Connector)}
    (hkeyed : ∀ x ∈ found H s key, x.2.tenantID = tenant)
    (hanswer : ((getAgentConfig H (some key)).exec s).1 = .ok a) {plat : AgentConfig} (hplat : decodeAnswer a = some plat)
    {target : ConnectorConfig} (htarget : target ∈ plat.enabledConnectors) : Assigned H key tenant s target := by
  have hok : ∃ s', getAgentConfig H (some key) s = (.ok a, s') := by
    rcases Txn.exec_cases (getAgentConfig H (some key)) s with ⟨b, s', hok, hexec⟩ | ⟨e, hexec⟩
    · rw [hexec] at hanswer
      obtain rfl := Except.ok.inj hanswer
      exact ⟨s', hok⟩
    · rw [hexec] at hanswer
      cases hanswer
  obtain ⟨s', hok⟩ := hok
  unfold getAgentConfig at hok
  obtain ⟨x, s₁, hagent, hok⟩ := Txn.bind_eq_ok.1 hok
  obtain ⟨⟨key', ⟨hkey, -⟩, hhead⟩, rfl⟩ := getAgentFromKey_eq_ok.1 hagent
  obtain rfl : key = key' := Option.some.inj hkey
  simp only [Txn.read_bind_eq_ok, Txn.pure_eq_ok] at hok
  obtain ⟨rfl, -⟩ := hok
  have hx : x ∈ found H s key := List.mem_of_mem_head? hhead
  unfold decodeAnswer at hplat
  split_ifs at hplat
  obtain rfl := Option.some.inj hplat
  obtain ⟨pc, hpc, -, rfl⟩ := Agent.AgentConfig.mem_enabledConnectors.1 htarget
  obtain ⟨c, hc, hdecode⟩ := List.mem_filterMap.1 hpc
  obtain ⟨hrow, hassigned⟩ := List.mem_filter.1 hc
  obtain ⟨htenant, hid, hactive⟩ := of_decide_eq_true hassigned
  have htenantX := hkeyed x hx
  refine ⟨c, hrow, x.1, hid, htenant.trans htenantX, hactive, ?_, ?_⟩
  · rw [← htenantX]
    exact (mem_found.1 hx).2
  · rw [hdecode, Option.map_some]

theorem owned_step {t : Polling} {e : PollEvent} {u : Polling} (hOwn : ∀ c, Assigned H key tenant t.platform c → Own c)
    (hfresh : e.Fresh H key) (h : t.Owned H key tenant Own statics) (hstep : t.step H key statics e = some u) :
    u.Owned H key tenant Own statics := by
  have hlost : ∀ reply, (∀ a, reply ≠ .answered (.ok a)) →
      ({ t with agent := t.agent.fetched statics reply, answer := none } : Polling).Owned H key tenant Own statics := by
    intro reply hreply
    obtain ⟨hcfg, hlast⟩ := t.agent.fetched_owned h.cfg h.last fun a ha => absurd ha (hreply a)
    exact ⟨h.keyed, hcfg, hlast, fun a ha => absurd ha (Option.some_ne_none _).symm⟩
  cases e with
  | platform e =>
    rw [Polling.step] at hstep
    obtain ⟨s', hs', rfl⟩ := Option.map_eq_some_iff.1 hstep
    refine ⟨fun x hx => ?_, h.cfg, h.last, h.answer⟩
    obtain ⟨a, ha, htenant⟩ := found_of_keeps (keeps_step hs') hfresh hx
    exact htenant.symm.trans (h.keyed _ ha)
  | ask =>
    obtain rfl := Option.some.inj hstep
    refine ⟨h.keyed, h.cfg, h.last, fun a ha plat hplat c hc => hOwn c ?_⟩
    exact assigned_of_answer h.keyed (Option.some.inj ha) hplat hc
  | arrive =>
    rw [Polling.step] at hstep
    obtain ⟨answer, hanswer, rfl⟩ := Option.map_eq_some_iff.1 hstep
    have hreply : ∀ a, Reply.answered answer = .answered (.ok a) → ∀ plat ∈ decodeAnswer a,
        ∀ c ∈ plat.enabledConnectors, Own c := fun a ha => h.answer a (by rw [hanswer, Reply.answered.inj ha])
    obtain ⟨hcfg, hlast⟩ := t.agent.fetched_owned h.cfg h.last hreply
    exact ⟨h.keyed, hcfg, hlast, fun a ha => absurd ha (Option.some_ne_none _).symm⟩
  | lose =>
    obtain rfl := Option.some.inj hstep
    exact hlost .unreachable fun a ha => by cases ha
  | cut =>
    obtain rfl := Option.some.inj hstep
    exact hlost .cut fun a ha => by cases ha
  | restart =>
    obtain rfl := Option.some.inj hstep
    exact ⟨h.keyed, fun c hc => .inl hc, fun plat hplat => absurd hplat (Option.not_mem_none plat),
      fun a ha => absurd ha (Option.some_ne_none _).symm⟩

/-- Whatever happens on the platform and on the way to it, an agent scans what it was configured with, and connectors
that were, in a state of the run, active ones of the tenant of its key, assigned to an agent that has the key. -/
theorem scans_own (H : Host) (key : String) (tenant : Uuid) (statics : Config) (s : State)
    (hkeyed : ∀ x ∈ found H s key, x.2.tenantID = tenant) (events : List PollEvent)
    (hfresh : ∀ e ∈ events, e.Fresh H key) (t : Polling)
    (hrun : Runs.run (Polling.step H key statics) ⟨s, .start statics, none⟩ events = some t) :
    ∀ target ∈ Agent.scanTargets t.agent.cfg, target ∈ statics.connectors ∨ ∃ pre u, pre <+: events ∧
      Runs.run (Polling.step H key statics) ⟨s, .start statics, none⟩ pre = some u ∧
        Assigned H key tenant u.platform target := by
  let Own : ConnectorConfig → Prop := fun c => ∃ pre u, pre <+: events ∧
    Runs.run (Polling.step H key statics) ⟨s, .start statics, none⟩ pre = some u ∧ Assigned H key tenant u.platform c
  have hstart : Polling.Owned H key tenant Own statics ⟨s, .start statics, none⟩ :=
    ⟨hkeyed, fun c hc => .inl hc, fun plat hplat => absurd hplat (Option.not_mem_none plat),
      fun a ha => absurd ha (Option.some_ne_none _).symm⟩
  -- every state a run of a prefix reaches is one of the run
  have hseen : Runs.Always (Polling.step H key statics) (fun u => ∀ c, Assigned H key tenant u.platform c → Own c)
      ⟨s, .start statics, none⟩ events := fun pre u hpre hu c hc => ⟨pre, u, hpre, hu, hc⟩
  have hstep : ∀ (u : Polling) (e : PollEvent) (u' : Polling), u.Owned H key tenant Own statics →
      ((∀ c, Assigned H key tenant u.platform c → Own c) ∧ e.Fresh H key) → u.step H key statics e = some u' →
        u'.Owned H key tenant Own statics := fun u e u' hu hok hu' => owned_step hok.1 hok.2 hu hu'
  have halways := Runs.always_of_along hstep (fun u hu => hu.cfg) hstart
    ((Runs.along_of_always hseen).and (Runs.along_of_forall hfresh))
  intro target htarget
  exact halways events t (List.prefix_refl _) hrun target (List.mem_filter.1 htarget).1

/-- A share is made for the agent, which asks twice and misses the second answer. -/
def shareEvents : List PollEvent :=
  [.platform (.write (.create ⟨some "u", "t1", "", [], ["mounts:write"]⟩ 0
      ⟨"nas", "", "smb", [("host", .str "10.0.0.2")], [], some "x", "agent"⟩)),
    .ask, .arrive, .ask, .lose]

def shareTarget : ConnectorConfig := ⟨"c", "smb", "nas", true, [("host", "10.0.0.2")]⟩

theorem scans_own_share : ∃ t, Runs.run (Polling.step WriteGates.sampleHost "dga_k" ⟨"", "", []⟩)
      ⟨keyedState, .start ⟨"", "", []⟩, none⟩ shareEvents = some t ∧ Agent.scanTargets t.agent.cfg = [shareTarget] ∧
    ∃ pre u, pre <+: shareEvents ∧ Runs.run (Polling.step WriteGates.sampleHost "dga_k" ⟨"", "", []⟩)
      ⟨keyedState, .start ⟨"", "", []⟩, none⟩ pre = some u ∧
        Assigned WriteGates.sampleHost "dga_k" "t1" u.platform shareTarget := by
  refine ⟨_, rfl, rfl, ?_⟩
  have hown := scans_own WriteGates.sampleHost "dga_k" "t1" ⟨"", "", []⟩ keyedState ?_ shareEvents ?_ _ rfl shareTarget
    (List.mem_singleton_self _)
  · exact hown.resolve_left List.not_mem_nil
  · intro x hx
    obtain rfl := List.mem_singleton.1 hx
    rfl
  · simp [shareEvents, PollEvent.Fresh, Event.Fresh, Event.makes]

end Dgraphai.AgentKeys
