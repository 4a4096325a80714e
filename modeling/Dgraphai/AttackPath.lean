import Dgraphai.CveSync
import Dgraphai.SyncConfinement

/-!
# Attack paths stay in the tenant (`api/graph_intelligence.py`)

The query for attack paths asks for the tenant of its two ends only. The tenants share one graph, which is written
by `sync_delta` and by the runs that link vulnerabilities; after any sequence of them a relationship joins two
nodes of one tenant (`Kept.run`), so a path cannot leave the tenant of its ends (`attackPath_own`).
-/

namespace Dgraphai.AttackPath

open Cypher (Database)
open Dedup (Delivery State)
open PropertyGraph (Graph Node Props Rel)
open SyncText (Pass own own_iff own_of_matches)

/-! ### The query -/

/-- A node in an answer. -/
structure PathNode where
  id : Nat
  labels : List String
  name : Json
  props : Props

structure PathEdge where
  type : String
  source : Nat
  target : Nat
  deriving DecidableEq, Repr

structure PathRow where
  nodes : List PathNode
  edges : List PathEdge
  hops : Nat

/-- `coalesce(n.name, n.path, toString(id(n)))` and the other fields of a node. -/
def pathNode (n : Node) : PathNode where
  id := n.eid
  labels := n.labels
  name := ((n.props "name").or (n.props "path")).getD (.str (toString n.eid))
  props := n.props

def pathRow (a : Node) (walk : List (Rel × Node)) : PathRow where
  nodes := pathNode a :: walk.map fun s => pathNode s.2
  edges := walk.map fun s => ⟨s.1.type, s.1.source, s.1.target⟩
  hops := walk.length

/-- `id(n) = $id AND n.tenant_id = $tid`. -/
def endpoints (g : Graph) (id : Json) (tid : String) : List Node :=
  g.nodes.filter fun n => Json.num n.eid = id ∧ n.props "tenant_id" = some (.str tid)

/-- The rows of the query for attack paths; `none` raises, as for a path from a node to itself. The route passes the
ids as texts. -/
def attackPath (g : Graph) (maxHops : Nat) (fromID toID : Json) (tid : String) : Option (List PathRow) :=
  let starts := endpoints g fromID tid
  let ends := endpoints g toID tid
  if starts.any fun a => ends.any fun b => a.eid = b.eid then none
  else
    let rows := starts.flatMap fun a => ends.flatMap fun b => (g.allShortestPaths maxHops a b).map (pathRow a)
    some ((rows.mergeSort fun r r' => r.hops ≤ r'.hops).take 5)

/-! ### What writes to the graph -/

variable (D : Database) (E : Dedup.Env) (C : CveSync.Env)

inductive Event where
  | sync (d : Delivery)
  | link (tenantID : String) (cves : List CveSync.Cve) (O : CveSync.Outcome)

def Event.run (s : State) : Event → State
  | sync d => (SyncText.syncDelta D E d.scanner d.chunk d.outcome s).2
  | link tenantID cves O => { s with graph := (CveSync.linkCvesToTenant C cves tenantID O s.graph).graph }

def afterEvents (events : List Event) : State := events.foldl (Event.run D E C) Dedup.emptyState

/-- The types of the nodes and edges that a chunk upserts are identifiers. -/
def Event.PlainTypes : Event → Prop
  | sync d => ∀ call ∈ SyncText.calls E d.scanner d.chunk d.outcome, Cypher.Identifier call.type.toList
  | link _ _ _ => True

/-! ### The tenant of a node -/

def tenant (n : Node) : Option String :=
  match n.props "tenant_id" with
  | some (.str tenantID) => some tenantID
  | _ => none

variable {g : Graph} {n : Node} {tenantID : String}

theorem tenant_eq_some_iff : tenant n = some tenantID ↔ own tenantID n = true := by
  rw [own_iff]
  unfold tenant
  generalize n.props "tenant_id" = value
  rcases value with _ | (_ | _ | _ | _ | _ | _ | _) <;> simp

theorem tenant_of_matches {label : Option String} {key : Json.Fields} (h : n.Matches label key)
    (hkey : ("tenant_id", .str tenantID) ∈ key) : tenant n = some tenantID :=
  tenant_eq_some_iff.2 (own_of_matches h hkey)

theorem tenant_congr {props : Props} (h : props "tenant_id" = n.props "tenant_id") :
    tenant { n with props := props } = tenant n := by
  unfold tenant
  dsimp only
  rw [h]

/-- Every relationship joins two nodes of one tenant. -/
def Kept (g : Graph) : Prop := g.Sound ∧ g.Coloured tenant

theorem Kept.merge {label : String} {key : Json.Fields} {onCreate onMatch : Props → Props} (hg : Kept g)
    (hmatch : ∀ n : Node, n.Matches (some label) key → onMatch n.props "tenant_id" = n.props "tenant_id") :
    Kept (g.merge label key onCreate onMatch) :=
  ⟨hg.1.merge, hg.2.merge fun n hn => tenant_congr (hmatch n hn)⟩

/-! ### Chunks -/

theorem Kept.upsertRow (hg : Kept g) (tenantID agentID datetime : String) (row : Dedup.Row) :
    Kept (Dedup.upsertRow tenantID agentID datetime g row) := by
  rw [AgentSync.upsertRow_eq]
  exact hg.merge fun n _ => AgentSync.matchedProps_of_key _ (.inr (.inr rfl))

theorem Kept.upsertNode (hg : Kept g) (tenantID label : String) (id : Json) (props : Json.Fields) :
    Kept (Dedup.upsertNode tenantID label id props g) := by
  refine hg.merge fun n hn => ?_
  -- the tenant of the chunk overwrites one in the props
  have hown : own tenantID n = true := own_of_matches hn (by simp)
  rw [own_iff.1 hown, Props.add, Dedup.withTenant, Json.field?_concat, if_pos rfl]
  rfl

theorem Kept.labelled {pass : Pass} {effect : Graph → Graph} (h : pass.labelled tenantID = .runs effect) (hg : Kept g) :
    Kept (effect g) := by
  rcases pass with _ | _ | (⟨type, id, props⟩ | ⟨type, source, target, props⟩)
  · cases h
  · cases h
  · dsimp only [Pass.labelled] at h
    split_ifs at h
    cases h
    exact hg.upsertNode tenantID type id props
  · cases h
    have hown : ∀ (id : Json) (n : Node), n.Matches none [("id", id), ("tenant_id", .str tenantID)] →
        tenant n = some tenantID := fun id n hn => tenant_of_matches hn (by simp)
    exact hg.2.mergeRels hg.1 (hown source) (hown target)

theorem Kept.syncDelta {s : State} (hs : Kept s.graph) (d : Delivery) :
    Kept (Dedup.syncDelta E d.scanner d.chunk d.outcome s).2.graph :=
  SyncText.inv_syncDelta Kept E d.scanner d.chunk d.outcome
    (fun _ row hg => hg.upsertRow d.chunk.tenantID d.scanner.id d.outcome.datetime row)
    (fun _ _ _ hpass hg => hg.labelled hpass) hs

/-! ### Links -/

theorem Kept.mergeVuln {tid vid : String} {cve : CveSync.Cve} {accepted : Bool} {g' : Graph} (hg : Kept g)
    (h : CveSync.mergeVuln tid vid cve accepted g = some g') : Kept g' := by
  unfold CveSync.mergeVuln at h
  split_ifs at h
  cases h
  refine hg.merge fun n _ => ?_
  rw [Props.set_ne (by decide), Props.set_ne (by decide), Props.set_ne (by decide)]

theorem Kept.link {tid product : String} {cveID : Json} {accepted : Bool} {g' : Graph} {k : Nat} (hg : Kept g)
    (h : CveSync.link C tid product cveID accepted g = some (g', k)) : Kept g' := by
  have hown : ∀ (label : String) (key : Json.Fields), ("tenant_id", .str tid) ∈ key →
      ∀ n ∈ g.matched (some label) key, n ∈ g.nodes ∧ tenant n = some tid := by
    intro label key hkey n hn
    obtain ⟨hn, hmatch⟩ := List.mem_filter.1 hn
    exact ⟨hn, tenant_of_matches (of_decide_eq_true hmatch) hkey⟩
  unfold CveSync.link at h
  dsimp only at h
  split_ifs at h
  cases h
  exact hg.2.mergeBetween hg.1 (fun a ha => hown "Application" _ (by simp) a (List.mem_of_mem_filter ha))
    (hown "Vulnerability" _ (by simp))

/-! ### Runs -/

variable {D E C}

theorem Kept.run {s : State} {e : Event} (hs : Kept s.graph) (he : e.PlainTypes E) : Kept (e.run D E C s).graph := by
  cases e with
  | sync d =>
    show Kept (SyncText.syncDelta D E d.scanner d.chunk d.outcome s).2.graph
    rw [SyncText.syncDelta_eq D E d.scanner d.chunk d.outcome s he]
    exact hs.syncDelta E d
  | link tenantID cves O =>
    exact CveSync.inv_linkCvesToTenant (fun _ _ _ _ _ hg h => hg.mergeVuln h) (fun _ _ _ _ _ _ hg h => hg.link C h) cves hs

theorem kept_afterEvents {events : List Event} (h : ∀ e ∈ events, e.PlainTypes E) :
    Kept (afterEvents D E C events).graph := by
  have hempty : Kept PropertyGraph.empty :=
    ⟨⟨⟨List.nodup_nil, fun _ hr => absurd hr List.not_mem_nil⟩, fun _ hn => absurd hn List.not_mem_nil⟩,
      fun _ hr => absurd hr List.not_mem_nil⟩
  have hrun : ∀ (events : List Event) (s : State), (∀ e ∈ events, e.PlainTypes E) → Kept s.graph →
      Kept (events.foldl (Event.run D E C) s).graph := by
    intro events
    induction events with
    | nil => exact fun s _ hs => hs
    | cons e events ih =>
      intro s h hs
      rw [List.forall_mem_cons] at h
      exact ih (e.run D E C s) h.2 (hs.run h.1)
  exact hrun events Dedup.emptyState h hempty

/-! ### Paths -/

theorem mem_endpoints {id : Json} {tid : String} (h : n ∈ endpoints g id tid) : n ∈ g.nodes ∧ tenant n = some tid := by
  obtain ⟨hn, hid⟩ := List.mem_filter.1 h
  exact ⟨hn, tenant_eq_some_iff.2 (own_iff.2 (of_decide_eq_true hid).2)⟩

/-- Where relationships join nodes of one tenant, the ends of a path decide the tenant of all its nodes. -/
theorem attackPath_own (hg : Kept g) {maxHops : Nat} {fromID toID : Json} {tid : String} {rows : List PathRow}
    (h : attackPath g maxHops fromID toID tid = some rows) :
    ∀ row ∈ rows, ∀ v ∈ row.nodes, ∃ n ∈ g.nodes, own tid n = true ∧ v = pathNode n := by
  unfold attackPath at h
  dsimp only at h
  split_ifs at h
  cases h
  intro row hrow v hv
  obtain ⟨a, ha, hrow⟩ := List.mem_flatMap.1 (List.mem_mergeSort.1 (List.mem_of_mem_take hrow))
  obtain ⟨b, -, hshortest⟩ := List.mem_flatMap.1 hrow
  obtain ⟨walk, hmem, rfl⟩ := List.mem_map.1 hshortest
  obtain ⟨k, hwalk⟩ := Graph.mem_allShortestPaths hmem
  obtain ⟨ha, htenant⟩ := mem_endpoints ha
  rcases List.mem_cons.1 hv with rfl | hv
  · exact ⟨a, ha, tenant_eq_some_iff.1 htenant, rfl⟩
  · obtain ⟨s, hs, rfl⟩ := List.mem_map.1 hv
    obtain ⟨hnode, hsame⟩ := hg.2.walks hg.1 ha hwalk s hs
    exact ⟨s.2, hnode, tenant_eq_some_iff.1 (hsame.trans htenant), rfl⟩

/-- Relationships join nodes of one tenant, and a query for attack paths answers with nodes of its tenant only. -/
structure Separate (g : Graph) : Prop where
  rels : ∀ r ∈ g.rels, ∃ tenantID, ∃ a ∈ g.nodes, ∃ b ∈ g.nodes,
    (a.eid = r.source ∧ own tenantID a = true) ∧ b.eid = r.target ∧ own tenantID b = true
  paths : ∀ maxHops fromID toID tid rows, attackPath g maxHops fromID toID tid = some rows →
    ∀ row ∈ rows, ∀ v ∈ row.nodes, ∃ n ∈ g.nodes, own tid n = true ∧ v = pathNode n

theorem separate_afterEvents (D : Database) (E : Dedup.Env) (C : CveSync.Env) (events : List Event)
    (h : ∀ e ∈ events, e.PlainTypes E) : Separate (afterEvents D E C events).graph := by
  have hkept : Kept (afterEvents D E C events).graph := kept_afterEvents h
  refine ⟨fun r hr => ?_, fun _ _ _ _ _ hrows => attackPath_own hkept hrows⟩
  obtain ⟨tenantID, a, ha, b, hb, ⟨hsource, hta⟩, htarget, htb⟩ := hkept.2 r hr
  exact ⟨tenantID, a, ha, b, hb, ⟨hsource, tenant_eq_some_iff.1 hta⟩, htarget, tenant_eq_some_iff.1 htb⟩

/-! ### A linked application -/

def application : Delivery where
  scanner := ⟨"scanner", "A"⟩
  chunk := { SyncText.oneNode "Application" with
    nodes := [[("op", .str "upsert"), ("type", .str "Application"), ("id", .str "app"),
      ("props", .obj [("name", .str "OpenSSL"), ("tenant_id", .str "B")])]] }
  outcome := SyncText.allAccepted

def vulnerability : CveSync.Cve :=
  ⟨.str "CVE-1", .null, .str "unknown", .str "", .str "", [.str "cpe:2.3:a:openssl:openssl:1.0"], false, false⟩

def asciiLower (s : String) : String := String.ofList (s.toList.map Char.toLower)

def linkedEvents : List Event :=
  [.sync application, .link "A" [vulnerability] ⟨true, fun _ => "v", fun _ => true, fun _ _ => true⟩]

/-- The application is linked to the vulnerability, and the path between them is found. -/
theorem separate_linkedEvents :
    (attackPath (afterEvents SyncText.refusing Dedup.plainEnv ⟨asciiLower, asciiLower⟩ linkedEvents).graph 6 (.num 0)
      (.num 1) "A").map List.length = some 1 ∧
    Separate (afterEvents SyncText.refusing Dedup.plainEnv ⟨asciiLower, asciiLower⟩ linkedEvents).graph :=
  ⟨by decide +kernel, separate_afterEvents SyncText.refusing Dedup.plainEnv ⟨asciiLower, asciiLower⟩ linkedEvents fun e he => by
    rcases List.mem_cons.1 he with rfl | he
    · exact (by decide +kernel : ∀ call ∈ SyncText.calls Dedup.plainEnv application.scanner application.chunk
        application.outcome, Cypher.Identifier call.type.toList)
    · obtain rfl := List.mem_singleton.1 he
      trivial⟩

end Dgraphai.AttackPath
