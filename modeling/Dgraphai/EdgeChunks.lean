import Dgraphai.AgentDelivery
import Dgraphai.ScannerSync

/-!
# Edges of a chunked delta

On the names of a tenant's nodes, a statement of `sync_delta` ingests what it is about, and File nodes have no
name at all (`view_upsertRow`). So a delta that `send_delta` gets through without errors is the ingest of its
chunks one after the other (`sendDelta_view`), and an edge is there afterwards exactly if both its ends had a
name by the chunk it came in (`survives_iff`).
-/

namespace Dgraphai.ScannerSync

open Dedup (Env Scanner DeltaChunk Outcome Row State Statement SyncResponse syncDelta labelText isFileNode)
open PropertyGraph (Graph Node Props Naming)

/-- `{id: $id, tenant_id: $tid}`. -/
def key (tenantID : String) (id : Json) : Json.Fields := [("id", id), ("tenant_id", .str tenantID)]

/-- The relationship an edge asks for. -/
def tie (edge : Json.Fields) : Option (String × Json × Json) := do
  let op ← Json.field? edge "op"
  if op = .str "upsert" then
    let type ← (Json.field? edge "type").bind labelText
    let source ← Json.field? edge "from"
    let target ← Json.field? edge "to"
    pure (type, source, target)
  else none

/-- The `id` under which a node is stored; a File node gets none. -/
def storedID (E : Env) (node : Json.Fields) : Option Json :=
  if isFileNode E node = some false ∧ Json.field? node "op" = some (.str "upsert") then Json.field? node "id" else none

/-- The props of a node do not put another `id` in place of its own. -/
def KeepsID (node : Json.Fields) : Prop :=
  ∀ props id, Json.field? node "props" = some (.obj props) → Json.field? props "id" = some id →
    Json.field? node "id" = some id

/-- An edge is there already, or its ends are stored by the part it comes in. -/
def InTime (E : Env) (client : SyncClient) (delta : Delta) (v₀ : View String Json) (e : String × Json × Json) : Prop :=
  e ∈ v₀.ties ∨ ∃ pre part post, parts client delta = some (pre ++ part :: post) ∧ e ∈ part.edges.filterMap tie ∧
    ∀ x ∈ [e.2.1, e.2.2], x ∈ v₀.names ∨ ∃ q ∈ pre ++ [part], x ∈ q.nodes.filterMap (storedID E)

open Classical in
/-- What a `send_delta` that went through from `s₀` on promises about the edges of the delta. -/
structure Survives (E : Env) (scanner : Scanner) (client : SyncClient) (delta : Delta) (s₀ : State) (p : Progress) :
    Prop where
  /-- An edge between ids of nodes of the delta exists. -/
  edges : ∀ edge ∈ delta.edges, ∀ e, tie edge = some e →
    (∃ node ∈ delta.nodes, Json.field? node "id" = some e.2.1) →
    (∃ node ∈ delta.nodes, Json.field? node "id" = some e.2.2) → e ∈ (p.server.graph.view (key client.tenantID)).ties
  /-- The names and relationships are those of one chunk with all nodes and all edges. -/
  unchunked : ∀ (chunk : DeltaChunk) O r s', chunk.tenantID = client.tenantID → chunk.nodes = delta.nodes →
    chunk.edges = delta.edges → syncDelta E scanner chunk O s₀ = (.ok r, s') → r.tally.errors = 0 →
    p.server.graph.view (key client.tenantID) = s'.graph.view (key client.tenantID)
  /-- `edges_merged` is the number of edges that exist. -/
  counts : p.edgesMerged =
    (delta.edges.filterMap tie).countP fun e => e ∈ (p.server.graph.view (key client.tenantID)).ties

variable {E : Env} {scanner : Scanner} {client : SyncClient} {delta : Delta} {now : Nat → String} {g : Graph}
  {tenantID : String}

theorem matches_key {n : Node} {x : Json} : n.Matches none (key tenantID x) ↔
    n.props "id" = some x ∧ n.props "tenant_id" = some (.str tenantID) := by
  simp [Node.Matches, key]

theorem naming_key : Naming (key tenantID) := by
  intro n x y hx hy
  exact Option.some.inj ((matches_key.1 hx).1.symm.trans (matches_key.1 hy).1)

/-- New properties that keep the key. -/
theorem matches_of_props {n : Node} {p : Props} {x : Json} (hid : p "id" = n.props "id")
    (htenant : p "tenant_id" = n.props "tenant_id") :
    Node.Matches { n with props := p } none (key tenantID x) ↔ n.Matches none (key tenantID x) := by
  rw [matches_key, matches_key, ← hid, ← htenant]

/-! ### Statements -/

variable (tenantID) in
/-- A row of the File statement adds no name: `ON CREATE` drops the `id`. -/
theorem view_upsertRow (hg : g.Sound) (tenantID' agentID datetime : String) (row : Row) :
    (Dedup.upsertRow tenantID' agentID datetime g row).Sound ∧
      (Dedup.upsertRow tenantID' agentID datetime g row).view (key tenantID) = g.view (key tenantID) := by
  rw [AgentSync.upsertRow_eq]
  refine ⟨hg.merge, ?_⟩
  rw [Graph.view_merge hg [] (fun y => ?_) fun n _ => ⟨fun y => ?_, fun y hy => absurd hy List.not_mem_nil⟩,
    View.ingest_nil]
  · rw [matches_key]
    have hid : AgentSync.createdProps row tenantID' agentID datetime "id" = none := by
      rw [AgentSync.createdProps, Props.set_ne (by decide), Props.set_ne (by decide), Props.set_ne (by decide),
        Props.set_ne (by decide), Dedup.Row.toMap_id]
    refine iff_of_false (fun h => ?_) List.not_mem_nil
    exact Option.some_ne_none y (h.1.symm.trans hid)
  · exact matches_of_props (AgentSync.matchedProps_of_key _ (.inl rfl)) (AgentSync.matchedProps_of_key _ (.inr (.inr rfl)))

variable (tenantID) in
theorem view_bulkUpsert (hg : g.Sound) (rows : List Row) (tenantID' agentID datetime : String) :
    (Dedup.bulkUpsert rows tenantID' agentID datetime g).Sound ∧
      (Dedup.bulkUpsert rows tenantID' agentID datetime g).view (key tenantID) = g.view (key tenantID) := by
  refine Runs.inv_foldl (Dedup.upsertRow tenantID' agentID datetime)
    (fun g' => g'.Sound ∧ g'.view (key tenantID) = g.view (key tenantID)) (fun g' row hg' => ?_) ⟨hg, rfl⟩ rows
  obtain ⟨hsound, hview⟩ := view_upsertRow tenantID hg'.1 tenantID' agentID datetime row
  exact ⟨hsound, hview.trans hg'.2⟩

variable (tenantID) in
theorem add_withTenant {p : Props} {props : Json.Fields} {id : Json} (hne : id ≠ .null) (hp : p "id" = some id)
    (hprops : ∀ x, Json.field? props "id" = some x → x = id) :
    p.add (Dedup.withTenant props tenantID) "id" = some id ∧
      p.add (Dedup.withTenant props tenantID) "tenant_id" = some (.str tenantID) := by
  unfold Props.add Dedup.withTenant
  rw [Json.field?_concat, Json.field?_concat, if_neg (by decide), if_pos rfl]
  refine ⟨?_, rfl⟩
  cases hx : Json.field? props "id" with
  | none => exact hp
  | some x =>
    obtain rfl := hprops x hx
    exact Option.filter_eq_some_iff.2 ⟨rfl, decide_eq_true hne⟩

theorem view_upsertNode (hg : g.Sound) (label : String) {id : Json} {props : Json.Fields} (hne : id ≠ .null)
    (hprops : ∀ x, Json.field? props "id" = some x → x = id) :
    (Dedup.upsertNode tenantID label id props g).Sound ∧
      (Dedup.upsertNode tenantID label id props g).view (key tenantID) = (g.view (key tenantID)).ingest [id] [] := by
  refine ⟨hg.merge, Graph.view_merge hg [id] (fun y => ?_) fun n hn => ?_⟩
  · have hkey : Props.ofMap [("id", id), ("tenant_id", .str tenantID)] "id" = some id := by
      simp [Props.ofMap, Json.field?, hne]
    obtain ⟨hid, htenant⟩ := add_withTenant tenantID hne hkey hprops
    rw [matches_key, List.mem_singleton]
    show _ = _ ∧ _ = _ ↔ _
    constructor
    · exact fun h => Option.some.inj (h.1.symm.trans hid)
    · rintro rfl
      exact ⟨hid, htenant⟩
  · have hnode : n.props "id" = some id := hn.2 ("id", id) List.mem_cons_self
    have htid : n.props "tenant_id" = some (.str tenantID) := hn.2 ("tenant_id", .str tenantID) (by simp)
    obtain ⟨hid, htenant⟩ := add_withTenant tenantID hne hnode hprops
    refine ⟨fun y => ?_, fun y hy => ?_⟩
    · exact matches_of_props (hid.trans hnode.symm) (htenant.trans htid.symm)
    · obtain rfl := List.mem_singleton.1 hy
      exact matches_key.2 ⟨hnode, htid⟩

/-- A statement that is about `part`: it ingests it where it runs, and there is one name or relationship then. -/
def About (tenantID : String) (part : List Json × List (String × Json × Json)) : Statement → Prop
  | .raises => True
  | .skipped => part = ([], [])
  | .runs effect => part.1.length + part.2.length = 1 ∧ ∀ g : Graph, g.Sound → (effect g).Sound ∧
      (effect g).view (key tenantID) = (g.view (key tenantID)).ingest part.1 part.2

theorem nodeStatement_about {node : Json.Fields} (hfile : isFileNode E node = some false) (hkeeps : KeepsID node) :
    About tenantID ((storedID E node).toList, []) (Dedup.nodeStatement tenantID node) := by
  unfold Dedup.nodeStatement
  split
  · trivial
  rename_i op hop
  split_ifs with hupsert
  · have hnone : storedID E node = none := by
      rw [storedID, hop, if_neg fun h => hupsert (Option.some.inj h.2)]
    rw [hnone]
    rfl
  split
  · rename_i label id props hlabel hid hprops
    split_ifs with hnull
    · trivial
    have hstored : storedID E node = some id := by
      rw [storedID, hop, if_pos ⟨hfile, congrArg some (not_not.1 hupsert)⟩, hid]
    rw [hstored]
    refine ⟨rfl, fun g hg => view_upsertNode hg label hnull fun x hx => ?_⟩
    have hfield : Json.field? node "props" = some (.obj props) ∨ props = [] := by
      unfold Json.getD at hprops
      cases hp : Json.field? node "props" with
      | none =>
        rw [hp] at hprops
        exact .inr (Option.some.inj hprops).symm
      | some j =>
        rw [hp] at hprops
        cases j <;> simp [Json.asDict] at hprops
        rw [hprops]
        exact .inl rfl
    rcases hfield with hfield | rfl
    · exact Option.some.inj ((hkeeps props x hfield hx).symm.trans hid)
    · exact absurd hx (by simp [Json.field?])
  · trivial

theorem edgeStatement_about {edge : Json.Fields} :
    About tenantID ([], (tie edge).toList) (Dedup.edgeStatement tenantID edge) := by
  unfold Dedup.edgeStatement
  split
  · trivial
  rename_i op hop
  split_ifs with hupsert
  · have hnone : tie edge = none := by
      rw [tie, hop]
      exact if_neg hupsert
    rw [hnone]
    rfl
  split
  · rename_i type source target props htype hsource htarget hprops
    have htie : tie edge = some (type, source, target) := by
      rw [tie, hop, htype, hsource, htarget]
      exact if_pos (not_not.1 hupsert)
    rw [htie]
    exact ⟨rfl, fun g hg => Graph.view_mergeRels hg naming_key type props source target⟩
  · trivial

/-! ### The loops of `sync_delta` -/

/-- What became of ingesting `part` into `v`: at most all of it was, and all of it where nothing failed. -/
structure Ingested (v : View String Json) (parts : List (List Json × List (String × Json × Json))) (w : View String Json)
    (failures : Nat) : Prop where
  le : v ≤ w
  le_all : w ≤ v.ingestAll parts
  all : failures = 0 → w = v.ingestAll parts

theorem runStatements_ingested {α : Type} (accepted : Nat → Bool) (statement : α → Statement)
    (part : α → List Json × List (String × Json × Json)) {l : List α}
    (habout : ∀ a ∈ l, About tenantID (part a) (statement a)) (i : Nat) (hg : g.Sound) :
    let r := Dedup.runStatements accepted i (l.map statement) g
    r.1.Sound ∧ Ingested (g.view (key tenantID)) (l.map part) (r.1.view (key tenantID)) r.2.2 ∧
      (r.2.2 = 0 → r.2.1 = (l.flatMap fun a => (part a).1).length + (l.flatMap fun a => (part a).2).length) := by
  induction l generalizing i g with
  | nil => exact ⟨hg, ⟨le_rfl, le_rfl, fun _ => rfl⟩, fun _ => rfl⟩
  | cons a l ih =>
    obtain ⟨hone, hrest⟩ := List.forall_mem_cons.1 habout
    have hle : g.view (key tenantID) ≤ (g.view (key tenantID)).ingest (part a).1 (part a).2 := View.le_ingest _ _ _
    rw [List.map_cons, List.map_cons, List.flatMap_cons, List.flatMap_cons, List.length_append, List.length_append]
    intro r
    rcases Dedup.runStatements_cons accepted i (statement a) (l.map statement) g with
      ⟨hskip, hr⟩ | hr | ⟨effect, hruns, hr⟩
    · rw [hskip] at hone
      have hpart : part a = ([], []) := hone
      obtain ⟨hsound, hing, hcount⟩ := ih hrest (i + 1) hg
      rw [show r = _ from hr, hpart]
      refine ⟨hsound, ⟨hing.le, ?_, fun h => ?_⟩, fun h => ?_⟩
      · rw [View.ingestAll_cons, View.ingest_nil]
        exact hing.le_all
      · rw [View.ingestAll_cons, View.ingest_nil]
        exact hing.all h
      · rw [hcount h]
        simp
    · -- the statement fails, and the rest runs on `g`
      obtain ⟨hsound, hing, -⟩ := ih hrest (i + 1) hg
      rw [show r = _ from hr]
      exact ⟨hsound, ⟨hing.le, hing.le_all.trans (View.ingestAll_mono hle _), fun h => absurd h (Nat.succ_ne_zero _)⟩,
        fun h => absurd h (Nat.succ_ne_zero _)⟩
    · rw [hruns] at hone
      obtain ⟨hlength, heffect⟩ := hone
      obtain ⟨hg', hview⟩ := heffect g hg
      obtain ⟨hsound, hing, hcount⟩ := ih hrest (i + 1) hg'
      rw [hview] at hing
      rw [show r = _ from hr]
      refine ⟨hsound, ⟨hle.trans hing.le, hing.le_all, hing.all⟩, fun h => ?_⟩
      have hrest := hcount h
      show _ + 1 = _
      omega

theorem others_storedID {nodes files others : List Json.Fields} (h : Dedup.splitNodes E nodes = some (files, others)) :
    others.filterMap (storedID E) = nodes.filterMap (storedID E) := by
  induction nodes generalizing files others with
  | nil =>
    cases h
    rfl
  | cons node nodes ih =>
    obtain ⟨isFile, hfile, h⟩ := Option.bind_eq_some_iff.1 h
    obtain ⟨⟨files', others'⟩, hsplit, h⟩ := Option.bind_eq_some_iff.1 h
    cases isFile with
    | true =>
      cases h
      have hnone : storedID E node = none := by
        rw [storedID, hfile, if_neg fun h => Bool.noConfusion (Option.some.inj h.1)]
      rw [List.filterMap_cons_none hnone]
      exact ih hsplit
    | false =>
      cases h
      rw [List.filterMap_cons, List.filterMap_cons, ih hsplit]

theorem mem_of_splitNodes {nodes files others : List Json.Fields} (h : Dedup.splitNodes E nodes = some (files, others))
    {node : Json.Fields} (hnode : node ∈ others) : node ∈ nodes := by
  induction nodes generalizing files others with
  | nil =>
    cases h
    exact hnode
  | cons first nodes ih =>
    obtain ⟨isFile, -, h⟩ := Option.bind_eq_some_iff.1 h
    obtain ⟨⟨files', others'⟩, hsplit, h⟩ := Option.bind_eq_some_iff.1 h
    cases isFile with
    | true =>
      cases h
      exact List.mem_cons_of_mem first (ih hsplit hnode)
    | false =>
      cases h
      rcases List.mem_cons.1 hnode with rfl | hnode
      · exact List.mem_cons_self
      · exact List.mem_cons_of_mem first (ih hsplit hnode)

/-- The names and relationships of a chunk. -/
def content (E : Env) (nodes edges : List Json.Fields) : List Json × List (String × Json × Json) :=
  (nodes.filterMap (storedID E), edges.filterMap tie)

def Part.content (E : Env) (part : Part) : List Json × List (String × Json × Json) :=
  ScannerSync.content E part.nodes part.edges

theorem syncBackend_ingested (chunk : DeltaChunk) (O : Outcome) {others : List Json.Fields} (tally : Dedup.Tally)
    (hothers : ∀ node ∈ others, isFileNode E node = some false ∧ KeepsID node) (hg : g.Sound) :
    let r := Dedup.syncBackend chunk O others g tally
    r.1.Sound ∧ Ingested (g.view (key chunk.tenantID)) [content E others chunk.edges] (r.1.view (key chunk.tenantID))
        r.2.errors ∧
      (r.2.errors = 0 → r.2.edgesMerged = tally.edgesMerged + (chunk.edges.filterMap tie).length) := by
  intro r
  obtain ⟨hsound, hnodes, -⟩ := runStatements_ingested O.accepted (Dedup.nodeStatement chunk.tenantID)
    (fun node => ((storedID E node).toList, []))
    (fun node hnode => nodeStatement_about (hothers node hnode).1 (hothers node hnode).2) 0 hg
  obtain ⟨hsound', hedges, hcount⟩ := runStatements_ingested O.accepted (Dedup.edgeStatement chunk.tenantID)
    (fun edge => ([], (tie edge).toList)) (fun edge _ => edgeStatement_about) (l := chunk.edges) others.length hsound
  have hall : ∀ v : View String Json, v.ingestAll [content E others chunk.edges] =
      (v.ingestAll (others.map fun node => ((storedID E node).toList, []))).ingestAll
        (chunk.edges.map fun edge => ([], (tie edge).toList)) := by
    intro v
    rw [View.ingestAll_names, View.ingestAll_ties, View.ingest_ingest]
    rfl
  refine ⟨hsound', ⟨hnodes.le.trans hedges.le, ?_, fun h => ?_⟩, fun h => ?_⟩
  · rw [hall]
    exact hedges.le_all.trans (View.ingestAll_mono hnodes.le_all _)
  · obtain ⟨h, hedgeErrors⟩ := Nat.add_eq_zero_iff.1 h
    obtain ⟨-, hnodeErrors⟩ := Nat.add_eq_zero_iff.1 h
    rw [hall, ← hnodes.all hnodeErrors]
    exact hedges.all hedgeErrors
  · obtain ⟨h, hedgeErrors⟩ := Nat.add_eq_zero_iff.1 h
    have hlength := hcount hedgeErrors
    rw [List.flatMap_eq_nil_iff.2 fun _ _ => rfl, List.length_nil, Nat.zero_add, ← List.filterMap_eq_flatMap_toList]
      at hlength
    exact congrArg (tally.edgesMerged + ·) hlength

variable (E scanner tenantID) in
theorem syncFiles_view (chunk : DeltaChunk) (O : Outcome) (files : List Json.Fields) (hg : g.Sound) :
    (Dedup.syncFiles E scanner chunk O files g).1.Sound ∧
      (Dedup.syncFiles E scanner chunk O files g).1.view (key tenantID) = g.view (key tenantID) ∧
      (Dedup.syncFiles E scanner chunk O files g).2.edgesMerged = 0 := by
  unfold Dedup.syncFiles
  split_ifs
  · exact ⟨hg, rfl, rfl⟩
  · split
    · obtain ⟨hsound, hview⟩ := view_bulkUpsert tenantID hg _ chunk.tenantID scanner.id O.datetime
      exact ⟨hsound, hview, rfl⟩
    · exact ⟨hg, rfl, rfl⟩

/-- What delivering `chunk` does, with the answer that comes back. -/
structure Delivers (E : Env) (chunk : DeltaChunk) (s : State) (answer : Option SyncResponse) (s' : State) : Prop where
  sound : s'.graph.Sound
  ingested : Ingested (s.graph.view (key chunk.tenantID)) [content E chunk.nodes chunk.edges]
    (s'.graph.view (key chunk.tenantID)) (answer.elim 1 (·.tally.errors))
  counts : ∀ r ∈ answer, r.tally.errors = 0 → r.tally.edgesMerged = (chunk.edges.filterMap tie).length

namespace Delivers

variable {chunk : DeltaChunk} {s s' s'' : State} {answer answer' : Option SyncResponse}

theorem nothing (hsound : s'.graph.Sound)
    (hview : s'.graph.view (key chunk.tenantID) = s.graph.view (key chunk.tenantID)) : Delivers E chunk s none s' where
  sound := hsound
  ingested := by
    rw [hview]
    exact ⟨le_rfl, View.le_ingest _ _ _, fun h => absurd h Nat.one_ne_zero⟩
  counts _ hr := absurd hr (Option.not_mem_none _)

/-- The answer got lost. -/
theorem unanswered (h : Delivers E chunk s answer s') : Delivers E chunk s none s' where
  sound := h.sound
  ingested := ⟨h.ingested.le, h.ingested.le_all, fun h => absurd h Nat.one_ne_zero⟩
  counts _ hr := absurd hr (Option.not_mem_none _)

/-- A delivery completes what an earlier one has done in part. -/
theorem again (h : Delivers E chunk s answer s') (h' : Delivers E chunk s' answer' s'') :
    Delivers E chunk s answer' s'' where
  sound := h'.sound
  ingested := by
    have hall := View.ingest_of_between h.ingested.le h.ingested.le_all
    refine ⟨h.ingested.le.trans h'.ingested.le, ?_, fun hnone => ?_⟩
    · exact h'.ingested.le_all.trans (le_of_eq hall)
    · exact (h'.ingested.all hnone).trans hall
  counts := h'.counts

end Delivers

/-- One run of `sync_delta`. -/
theorem syncDelta_delivers (scanner : Scanner) {chunk : DeltaChunk} (O : Outcome) {s : State}
    (hkeeps : ∀ node ∈ chunk.nodes, KeepsID node) (hs : s.graph.Sound) :
    Delivers E chunk s (syncDelta E scanner chunk O s).1.toOption (syncDelta E scanner chunk O s).2 := by
  rcases Dedup.syncDelta_cases E scanner chunk O s with ⟨⟨e, hr⟩, -⟩ | ⟨files, others, hsplit, -, hr⟩
  · rw [hr]
    exact .nothing hs rfl
  obtain ⟨hfiles, hview, hzero⟩ := syncFiles_view E scanner chunk.tenantID chunk O files hs
  rcases hr with ⟨-, hr⟩ | ⟨-, response, lastHealth, hr, htally⟩ <;> rw [hr]
  · exact .nothing hfiles hview
  · have hothers : ∀ node ∈ others, isFileNode E node = some false ∧ KeepsID node := fun node hnode =>
      ⟨Dedup.splitNodes_others hsplit node hnode, hkeeps node (mem_of_splitNodes hsplit hnode)⟩
    obtain ⟨hsound, hing, hcount⟩ := syncBackend_ingested chunk O
      (Dedup.syncFiles E scanner chunk O files s.graph).2 hothers hfiles
    rw [hview, content, others_storedID hsplit, ← htally] at hing
    refine ⟨hsound, hing, fun r hr herrors => ?_⟩
    obtain rfl := Option.some.inj hr
    rw [htally] at herrors ⊢
    rw [hcount herrors, hzero, Nat.zero_add]

/-- `_send_chunk_with_retry`. -/
theorem sendChunk_delivers (scanner : Scanner) {chunk : DeltaChunk} (hkeeps : ∀ node ∈ chunk.nodes, KeepsID node)
    (reply : Nat → Reply) (left attempt : Nat) {s : State} (hs : s.graph.Sound) :
    Delivers E chunk s (sendChunk E scanner chunk reply left attempt s).1
      (sendChunk E scanner chunk reply left attempt s).2 := by
  induction left generalizing attempt s with
  | zero => exact .nothing hs rfl
  | succ left ih =>
    unfold sendChunk
    cases reply attempt with
    | lost => exact ih (attempt + 1) hs
    | refused status =>
      dsimp only
      split_ifs
      · exact .nothing hs rfl
      · exact ih (attempt + 1) hs
    | delivered outcome answered =>
      have hrun : Delivers E chunk s _ _ := syncDelta_delivers scanner outcome hkeeps hs
      have hretry := hrun.again (ih (attempt + 1) hrun.sound)
      dsimp only
      rcases hr : syncDelta E scanner chunk outcome s with ⟨e | r, s'⟩
      · rw [hr] at hrun hretry
        dsimp only
        split_ifs
        · exact hrun.unanswered
        · exact hretry
      · rw [hr] at hrun hretry
        dsimp only
        split_ifs
        · exact hrun
        · exact hretry

/-! ### A delta that gets through -/

/-- The chunks of a delta one after the other. -/
theorem sendParts_view (scanner : Scanner) (delta : Delta) (now : Nat → String) (total : Nat)
    (reply : Nat → Nat → Reply) (ps : List Part) (hkeeps : ∀ part ∈ ps, ∀ node ∈ part.nodes, KeepsID node)
    {p q : Progress} (hp : p.server.graph.Sound) (hq : ps.foldl (sendPart E scanner client delta now total reply) p = q)
    (herrors : q.errors = 0) (hqueued : q.queued = []) :
    p.errors = 0 ∧ p.queued = [] ∧ q.server.graph.view (key client.tenantID) =
        (p.server.graph.view (key client.tenantID)).ingestAll (ps.map (Part.content E)) ∧
      q.edgesMerged = p.edgesMerged + ((ps.flatMap (·.edges)).filterMap tie).length := by
  induction ps generalizing p with
  | nil =>
    obtain rfl : p = q := hq
    exact ⟨herrors, hqueued, rfl, rfl⟩
  | cons part ps ih =>
    obtain ⟨hpart, hrest⟩ := List.forall_mem_cons.1 hkeeps
    have hsend : Delivers E (payload client delta now total part) p.server _ _ :=
      sendChunk_delivers scanner hpart (reply part.index) maxRetries 0 hp
    rw [List.foldl_cons] at hq
    unfold sendPart at hq
    dsimp only at hq
    rcases hr : sendChunk E scanner (payload client delta now total part) (reply part.index) maxRetries 0 p.server with
      ⟨_ | r, server⟩
    · -- the part goes to disk
      rw [hr] at hq hsend
      have hnone := (ih hrest hsend.sound hq).2.1
      exact absurd hnone (by simp)
    · rw [hr] at hq hsend
      obtain ⟨hzero, hnil, hview, hmerged⟩ := ih hrest hsend.sound hq
      obtain ⟨hbefore, hanswer⟩ := Nat.add_eq_zero_iff.1 hzero
      refine ⟨hbefore, hnil, hview.trans ?_, hmerged.trans ?_⟩
      · rw [List.map_cons, View.ingestAll_cons]
        exact congrArg (View.ingestAll · _) (hsend.ingested.all hanswer)
      · have hcount := hsend.counts r rfl hanswer
        show p.edgesMerged + r.tally.edgesMerged + _ = _
        rw [hcount, List.flatMap_cons, List.filterMap_append, List.length_append, Nat.add_assoc]
        rfl

/-- What `send_delta` leaves when all of it went through. -/
theorem sendDelta_view {reply : Nat → Nat → Reply} {s₀ : State} {ps : List Part} {p : Progress}
    (hkeeps : ∀ node ∈ delta.nodes, KeepsID node) (hs : s₀.graph.Sound) (hsize : 0 < client.chunkSize)
    (hps : parts client delta = some ps) (hp : sendDelta E scanner client delta now reply s₀ = some p)
    (herrors : p.errors = 0) (hqueued : p.queued = []) :
    p.server.graph.view (key client.tenantID) =
        (s₀.graph.view (key client.tenantID)).ingestAll (ps.map (Part.content E)) ∧
      p.edgesMerged = (delta.edges.filterMap tie).length := by
  obtain ⟨ps', hps', hnodes, hedges⟩ := exists_parts client delta hsize
  obtain rfl : ps' = ps := Option.some.inj (hps'.symm.trans hps)
  rw [sendDelta, hps, Option.map_some] at hp
  have hparts : ∀ part ∈ ps', ∀ node ∈ part.nodes, KeepsID node := fun part hpart node hnode =>
    hkeeps node (hnodes ▸ List.mem_flatMap.2 ⟨part, hpart, hnode⟩)
  obtain ⟨-, -, hview, hmerged⟩ := sendParts_view scanner delta now ps'.length reply ps' hparts
    (p := ⟨0, 0, 0, 0, s₀, []⟩) hs (Option.some.inj hp) herrors hqueued
  refine ⟨hview, ?_⟩
  rw [hmerged, hedges]
  exact Nat.zero_add _

theorem mem_ties_iff_inTime {v₀ : View String Json} {ps : List Part} (hps : parts client delta = some ps)
    {e : String × Json × Json} :
    e ∈ (v₀.ingestAll (ps.map (Part.content E))).ties ↔ InTime E client delta v₀ e := by
  have hmap : ∀ (pre : List Part) part, (pre ++ [part]).map (Part.content E) =
      pre.map (Part.content E) ++ [part.content E] := fun pre part => List.map_append
  rw [View.mem_ties_ingestAll]
  refine or_congr_right ⟨?_, ?_⟩
  · rintro ⟨pre', part', post', hsplit, hmem, hends⟩
    obtain ⟨pre, rest, rfl, rfl, hrest⟩ := List.map_eq_append_iff.1 hsplit
    obtain ⟨part, post, rfl, rfl, rfl⟩ := List.map_eq_cons_iff.1 hrest
    refine ⟨pre, part, post, hps, hmem, fun x hx => (hends x hx).imp id ?_⟩
    rintro ⟨q', hq', hx⟩
    rw [← hmap] at hq'
    obtain ⟨q, hq, rfl⟩ := List.mem_map.1 hq'
    exact ⟨q, hq, hx⟩
  · rintro ⟨pre, part, post, hsplit, hmem, hends⟩
    obtain rfl := Option.some.inj (hps.symm.trans hsplit)
    refine ⟨pre.map _, part.content E, post.map _, List.map_append, hmem, fun x hx =>
      (hends x hx).imp id ?_⟩
    rintro ⟨q, hq, hx⟩
    refine ⟨q.content E, ?_, hx⟩
    rw [← hmap]
    exact List.mem_map_of_mem hq

/-- Where all relationships of the parts exist after them, it is as if they had come in one. -/
theorem ingestAll_eq_ingest {v₀ : View String Json} {ps : List Part}
    (hall : ∀ e ∈ (ps.flatMap (·.edges)).filterMap tie,
      e ∈ (v₀.ingestAll (ps.map (Part.content E))).ties) :
    v₀.ingestAll (ps.map (Part.content E)) =
      v₀.ingestAll [content E (ps.flatMap (·.nodes)) (ps.flatMap (·.edges))] := by
  have hname : ∀ x, (∃ part ∈ ps.map (Part.content E), x ∈ part.1) ↔
      x ∈ (ps.flatMap (·.nodes)).filterMap (storedID E) := by
    intro x
    simp only [List.mem_map, exists_exists_and_eq_and, Part.content, content, List.filterMap_flatMap, List.mem_flatMap]
  ext e
  · rw [View.mem_names_ingestAll, hname]
    rfl
  · constructor
    · intro he
      rcases View.mem_ties_ingestAll.1 he with h | ⟨pre, part', post, hsplit, hmem, hends⟩
      · exact .inl h
      · have hend : ∀ x ∈ [e.2.1, e.2.2], x ∈ v₀.names ∨ x ∈ (ps.flatMap (·.nodes)).filterMap (storedID E) := by
          intro x hx
          refine (hends x hx).imp id fun ⟨q, hq, hxq⟩ => (hname x).1 ⟨q, ?_, hxq⟩
          rw [hsplit, List.append_cons]
          exact List.mem_append_left post hq
        refine .inr ⟨?_, hend _ (by simp), hend _ (by simp)⟩
        have hpart' : part' ∈ ps.map (Part.content E) := by
          rw [hsplit]
          exact List.mem_append_right pre List.mem_cons_self
        obtain ⟨part, hpart, rfl⟩ := List.mem_map.1 hpart'
        show e ∈ (ps.flatMap (·.edges)).filterMap tie
        rw [List.filterMap_flatMap]
        exact List.mem_flatMap.2 ⟨part, hpart, hmem⟩
    · rintro (h | ⟨hmem, -⟩)
      · exact View.mem_ties_ingestAll.2 (.inl h)
      · exact hall e hmem

/-- The edges of a delta survive chunking exactly if each of them is in time. -/
theorem survives_iff (E : Env) (scanner : Scanner) (client : SyncClient) (delta : Delta) (now : Nat → String)
    (reply : Nat → Nat → Reply) (s₀ : State) {p : Progress} (hs : s₀.graph.Sound) (hsize : 0 < client.chunkSize)
    (hkeeps : ∀ node ∈ delta.nodes, KeepsID node) (hp : sendDelta E scanner client delta now reply s₀ = some p)
    (herrors : p.errors = 0) (hqueued : p.queued = []) :
    Survives E scanner client delta s₀ p ↔
      ∀ edge ∈ delta.edges, ∀ e, tie edge = some e →
        InTime E client delta (s₀.graph.view (key client.tenantID)) e := by
  obtain ⟨ps, hps, hnodes, hedges⟩ := exists_parts client delta hsize
  obtain ⟨hview, hmerged⟩ := sendDelta_view hkeeps hs hsize hps hp herrors hqueued
  have hcond : (∀ edge ∈ delta.edges, ∀ e, tie edge = some e →
        InTime E client delta (s₀.graph.view (key client.tenantID)) e) ↔
      ∀ e ∈ delta.edges.filterMap tie, e ∈ (p.server.graph.view (key client.tenantID)).ties := by
    rw [hview]
    simp only [mem_ties_iff_inTime hps, List.mem_filterMap]
    exact ⟨fun h e ⟨edge, hedge, he⟩ => h edge hedge e he, fun h edge hedge e he => h e ⟨edge, hedge, he⟩⟩
  rw [hcond]
  constructor
  · intro h
    have hcount := h.counts
    rw [hmerged] at hcount
    have hall := List.countP_eq_length.1 hcount.symm
    exact fun e he => by simpa using hall e he
  · intro hall
    refine ⟨fun edge hedge e he _ _ => hall e (List.mem_filterMap.2 ⟨edge, hedge, he⟩), ?_, ?_⟩
    · intro chunk O r s' htenant hchunkNodes hchunkEdges hrun hr
      have hkeeps' : ∀ node ∈ chunk.nodes, KeepsID node := hchunkNodes ▸ hkeeps
      have hone := syncDelta_delivers (E := E) scanner O hkeeps' hs
      rw [hrun] at hone
      have hone := hone.ingested.all hr
      rw [htenant, hchunkNodes, hchunkEdges] at hone
      rw [hview] at hall ⊢
      rw [hone, ← hnodes, ← hedges]
      exact ingestAll_eq_ingest (hedges ▸ hall)
    · rw [hmerged]
      exact (List.countP_eq_length.2 fun e he => by simpa using hall e he).symm

/-! ### A directory and its parent -/

/-- Everything arrives and goes through. -/
def allDelivered : Nat → Nat → Reply :=
  fun _ _ => .delivered ⟨true, true, true, "2024-01-01", true, fun _ => true⟩ true

def directory (id : String) : Json.Fields :=
  [("op", .str "upsert"), ("type", .str "Directory"), ("id", .str id), ("props", .obj [("path", .str id)])]

def childOf : Json.Fields :=
  [("op", .str "upsert"), ("type", .str "CHILD_OF"), ("from", .str "/a/b"), ("to", .str "/a"), ("props", .obj [])]

def twoDirectories : Delta := ⟨"job", [directory "/a/b", directory "/a"], [childOf], 0, 2, 0⟩

theorem sound_emptyState : Dedup.emptyState.graph.Sound where
  valid := ⟨List.nodup_nil, fun _ hr => absurd hr List.not_mem_nil⟩
  fresh := fun _ hn => absurd hn List.not_mem_nil

theorem keepsID_twoDirectories : ∀ node ∈ twoDirectories.nodes, KeepsID node := by
  intro node hnode props id hprops hid
  have hcases : node = directory "/a/b" ∨ node = directory "/a" := by simpa [twoDirectories] using hnode
  rcases hcases with rfl | rfl <;>
  · obtain rfl : _ = props := Json.obj.inj (Option.some.inj hprops)
    exact absurd (hid.symm.trans (by decide)) (Option.some_ne_none id)

/-- In one chunk the relationship is in time. -/
theorem inOneChunk_survives :
    ∃ p, sendDelta Dedup.plainEnv ⟨"scanner", "t"⟩ ⟨"scanner", "t", 500⟩ twoDirectories (fun _ => "") allDelivered
        Dedup.emptyState = some p ∧ Survives Dedup.plainEnv ⟨"scanner", "t"⟩ ⟨"scanner", "t", 500⟩ twoDirectories
        Dedup.emptyState p := by
  refine ⟨_, rfl, (survives_iff Dedup.plainEnv ⟨"scanner", "t"⟩ ⟨"scanner", "t", 500⟩ twoDirectories (fun _ => "")
    allDelivered Dedup.emptyState sound_emptyState (by decide) keepsID_twoDirectories rfl rfl rfl).2 ?_⟩
  intro edge hedge e he
  obtain rfl := List.mem_singleton.1 hedge
  obtain rfl := Option.some.inj he
  refine .inr ⟨[], ⟨0, twoDirectories.nodes, twoDirectories.edges⟩, [], rfl, by decide, fun x hx =>
    .inr ⟨_, List.mem_singleton_self _, ?_⟩⟩
  revert x
  decide

/-- With one node to a chunk the parent comes too late: the edge is counted as merged and does not exist. -/
theorem lateParent_not_survives :
    ¬ ∀ (E : Env) (scanner : Scanner) (client : SyncClient) (delta : Delta) (now : Nat → String)
        (reply : Nat → Nat → Reply) (s₀ : State) (p : Progress), s₀.graph.Sound → 0 < client.chunkSize →
        (∀ node ∈ delta.nodes, KeepsID node) → sendDelta E scanner client delta now reply s₀ = some p → p.errors = 0 →
        p.queued = [] → Survives E scanner client delta s₀ p := by
  intro h
  have hsurvives := h Dedup.plainEnv ⟨"scanner", "t"⟩ ⟨"scanner", "t", 1⟩ twoDirectories (fun _ => "") allDelivered
    Dedup.emptyState _ sound_emptyState (by decide) keepsID_twoDirectories rfl rfl rfl
  have hmem := hsurvives.edges childOf (by decide) ("CHILD_OF", .str "/a/b", .str "/a") (by decide)
    ⟨directory "/a/b", by decide, by decide⟩ ⟨directory "/a", by decide, by decide⟩
  obtain ⟨r, hr, -⟩ := hmem
  exact absurd hr List.not_mem_nil

end Dgraphai.ScannerSync
