import Dgraphai.AgentSync
import Dgraphai.DedupRuns
import Dgraphai.Lib.Runs

/-!
# What an agent scan delivers

`Call.posts` are the POSTs one call of `sendDelta` makes, the answered one last. A scan leaves the databases after the
deliveries of its calls in order, and the queue with the chunks it enqueued (`sync_inv`). The client takes
any answer of `sync_delta` for success, so every counted file is merged or queued exactly if no answer hides
a File statement that failed (`sync_honest_iff`).
-/

namespace Dgraphai.AgentSync

open PropertyGraph (Graph Node Props)
open Dedup (Env Scanner DeltaChunk Outcome Delivery Row syncDelta)
open Runs (inv_foldl)

variable (E : Env) (scanner : Scanner) (client : Client)

/-! ### One POST -/

/-- The row of a file in the File statement; `none` raises, and fails the statement for the whole chunk. -/
def fileRow (node : Json.Fields) : Option Row := do
  let nodeProps ← (Json.getD node "props" (.obj node)).asDict
  let props ← (Json.getD nodeProps "props" (Json.getD node "props" (.obj node))).asDict
  Dedup.makeRow E props

/-- `bulk_upsert_query` raises on no file of the chunk. -/
def RowsKnown (delta : GraphDelta) : Prop := ∀ f ∈ delta.files, (fileRow E (fileNode delta.tenantID f)).isSome

/-- `sync_delta` answers, and its answer arrives. -/
def Post.Answers (delta : GraphDelta) : Post → Prop
  | .lost => False
  | .delivered O answered => answered = true ∧ scanner.tenantID = delta.tenantID ∧ O.tenantFound = true ∧
      O.backendKnown = true ∧ O.connects = true

/-- The File statement of the chunk goes through. -/
def Post.Applies (delta : GraphDelta) : Post → Prop
  | .lost => False
  | .delivered O _ => scanner.tenantID = delta.tenantID ∧ O.tenantFound = true ∧ O.backendKnown = true ∧
      O.filesAccepted = true

instance (delta : GraphDelta) (p : Post) : Decidable (p.Answers scanner delta) := by
  cases p <;> unfold Post.Answers <;> infer_instance

instance (delta : GraphDelta) (p : Post) : Decidable (p.Applies scanner delta) := by
  cases p <;> unfold Post.Applies <;> infer_instance

def Post.delivery? (chunk : DeltaChunk) : Post → Option Delivery
  | .lost => none
  | .delivered O _ => some ⟨scanner, chunk, O⟩

/-- The POSTs of `sendDelta` from attempt `attempt` on. -/
def posts (delta : GraphDelta) (x : Exchange) : Nat → Nat → List Post
  | 0, _ => []
  | left + 1, attempt =>
    if 0 < attempt ∧ x.cancelled attempt then []
    else x.post attempt :: if (x.post attempt).Answers scanner delta then [] else posts delta x left (attempt + 1)

def Call.posts (call : Call) : List Post := AgentSync.posts scanner call.delta call.exchange maxRetries 0

/-- `sync_delta` has answered a POST of the call. -/
def Call.Answered (call : Call) : Prop := ∃ p ∈ call.posts scanner, p.Answers scanner call.delta

/-- The File statement of the chunk has gone through, here or in an earlier attempt. -/
def Call.Applied (call : Call) : Prop :=
  RowsKnown E call.delta ∧ ∃ p ∈ call.posts scanner, p.Applies scanner call.delta

/-! ### What a scan promises -/

/-- The node of a file row of the tenant: the key is its `id` or its `node_id`, the path is one of its paths. -/
structure Holds (tenantID : String) (row : Row) (n : Node) : Prop where
  label : "File" ∈ n.labels
  tenant : n.props "tenant_id" = some (.str tenantID)
  key : n.props "id" = some (.str row.nodeID) ∨ n.props "node_id" = some (.str row.nodeID)
  path : .str row.canonPath ∈ n.props.items "paths"

/-- `sync_delta` merged the file in a delivery of the call, and it is in the graph. -/
def Merged (g : Graph) (call : Call) (f : FileInfo) : Prop :=
  ∃ row, fileRow E (fileNode call.delta.tenantID f) = some row ∧
    (∃ d ∈ call.deliveries, row ∈ d.appliedRows E) ∧ ∃ n ∈ g.nodes, Holds call.delta.tenantID row n

def Queued (w : World) (delta : GraphDelta) : Prop := ∃ queue, w.queue = some queue ∧ delta ∈ queue

/-- The chunks `Sync` has counted. -/
def SyncState.counted (st : SyncState) : List Call := st.calls.filter (·.err = none)

/-- `FilesIndexed` counts the files of these chunks, and each of them is merged or in the queue. -/
structure Honest (st : SyncState) : Prop where
  counts : st.filesIndexed = (st.counted.flatMap (·.delta.files)).length
  delivered : ∀ call ∈ st.counted, ∀ f ∈ call.delta.files,
    Merged E st.world.server.graph call f ∨ Queued st.world call.delta

/-! ### The File statement -/

section
variable {tenantID agentID datetime : String} {row : Row} {n : Node} {g : Graph}

/-- `ON CREATE SET` of the File statement. -/
def createdProps (row : Row) (tenantID agentID datetime : String) : Props :=
  ((((Props.ofMap row.toMap).set "tenant_id" (.str tenantID)).set "paths" (.arr [.str row.canonPath])).set
    "agent_ids" (.arr [.str agentID])).set "created_at" (.str datetime)

/-- `ON MATCH SET` of the File statement. -/
def matchedProps (row : Row) (agentID datetime : String) (f : Props) : Props :=
  ((((((f.set "size" row.size).set "modified_at" row.modifiedAt).set "file_category" row.fileCategory).set
    "mime_type" row.mimeType).set "last_seen_at" (.str datetime)).addItem "paths" (.str row.canonPath)).addItem
    "agent_ids" (.str agentID)

theorem upsertRow_eq (g : Graph) : Dedup.upsertRow tenantID agentID datetime g row =
    g.merge "File" (Dedup.fileKey row.nodeID tenantID) (fun _ => createdProps row tenantID agentID datetime)
      (matchedProps row agentID datetime) := rfl

theorem matchedProps_of_key (f : Props) {k : String} (hk : k = "id" ∨ k = "node_id" ∨ k = "tenant_id") :
    matchedProps row agentID datetime f k = f k := by
  unfold matchedProps
  rcases hk with rfl | rfl | rfl <;>
    rw [Props.addItem_ne (by decide), Props.addItem_ne (by decide), Props.set_ne (by decide),
      Props.set_ne (by decide), Props.set_ne (by decide), Props.set_ne (by decide), Props.set_ne (by decide)]

theorem mem_matchedProps_paths (f : Props) (x : Json) :
    x ∈ (matchedProps row agentID datetime f).items "paths" ↔ x ∈ f.items "paths" ∨ x = .str row.canonPath := by
  unfold matchedProps
  rw [Props.items_congr (Props.addItem_ne (by decide)), Props.mem_items_addItem]
  refine or_congr_left (iff_of_eq (congrArg (x ∈ ·) (Props.items_congr ?_)))
  rw [Props.set_ne (by decide), Props.set_ne (by decide), Props.set_ne (by decide), Props.set_ne (by decide),
    Props.set_ne (by decide)]

theorem Holds.matched (h : Holds tenantID row n) (row' : Row) :
    Holds tenantID row { n with props := matchedProps row' agentID datetime n.props } where
  label := h.label
  tenant := (matchedProps_of_key _ (by decide)).trans h.tenant
  key := h.key.imp (matchedProps_of_key _ (by decide)).trans (matchedProps_of_key _ (by decide)).trans
  path := (mem_matchedProps_paths _ _).2 (.inl h.path)

/-- A file of the graph stays in it. -/
theorem Holds.upsertRow (h : Holds tenantID row n) (hn : n ∈ g.nodes) (tenantID' : String) (row' : Row) :
    ∃ n' ∈ (Dedup.upsertRow tenantID' agentID datetime g row').nodes, Holds tenantID row n' := by
  have hkept : ∃ n' ∈ (Dedup.upsertRow tenantID' agentID datetime g row').nodes,
      n' = n ∨ n' = { n with props := matchedProps row' agentID datetime n.props } := by
    rw [upsertRow_eq]
    exact Graph.mem_merge_of_mem hn
  obtain ⟨n', hn', heq⟩ := hkept
  refine ⟨n', hn', ?_⟩
  rcases heq with rfl | rfl
  · exact h
  · exact h.matched row'

theorem holds_upsertRow (g : Graph) (tenantID agentID datetime : String) (row : Row) :
    ∃ n ∈ (Dedup.upsertRow tenantID agentID datetime g row).nodes, Holds tenantID row n := by
  rw [upsertRow_eq]
  rcases Graph.exists_merged g "File" (Dedup.fileKey row.nodeID tenantID)
    (fun _ => createdProps row tenantID agentID datetime) (matchedProps row agentID datetime) with
    hnew | ⟨n, hmatch, hn⟩
  · refine ⟨_, hnew, List.mem_singleton_self _, ?_, .inr ?_, ?_⟩
    · show createdProps row tenantID agentID datetime "tenant_id" = _
      rw [createdProps, Props.set_ne (by decide), Props.set_ne (by decide), Props.set_ne (by decide)]
      exact Props.set_self (by simp)
    · show createdProps row tenantID agentID datetime "node_id" = _
      rw [createdProps, Props.set_ne (by decide), Props.set_ne (by decide), Props.set_ne (by decide),
        Props.set_ne (by decide), Dedup.Row.toMap_node_id]
    · show _ ∈ (createdProps row tenantID agentID datetime).items "paths"
      rw [createdProps, Props.items_congr (Props.set_ne (by decide)), Props.items_congr (Props.set_ne (by decide)),
        Props.items_set]
      exact List.mem_singleton_self _
  · refine ⟨_, hn, hmatch.1 "File" rfl, ?_, .inl ?_, (mem_matchedProps_paths _ _).2 (.inr rfl)⟩
    · show matchedProps row agentID datetime n.props "tenant_id" = _
      rw [matchedProps_of_key _ (by decide)]
      exact hmatch.2 ("tenant_id", .str tenantID) (by simp [Dedup.fileKey])
    · show matchedProps row agentID datetime n.props "id" = _
      rw [matchedProps_of_key _ (by decide)]
      exact hmatch.2 ("id", .str row.nodeID) (by simp [Dedup.fileKey])

theorem Holds.bulkUpsert (h : Holds tenantID row n) (hn : n ∈ g.nodes) (tenantID' agentID datetime : String)
    (rows : List Row) :
    ∃ n' ∈ (Dedup.bulkUpsert rows tenantID' agentID datetime g).nodes, Holds tenantID row n' := by
  refine inv_foldl (Dedup.upsertRow tenantID' agentID datetime) (fun g => ∃ n ∈ g.nodes, Holds tenantID row n)
    (fun g row' hg => ?_) ⟨n, hn, h⟩ rows
  obtain ⟨m, hm, hrow⟩ := hg
  exact hrow.upsertRow hm tenantID' row'

theorem holds_bulkUpsert (g : Graph) (tenantID agentID datetime : String) {rows : List Row} (h : row ∈ rows) :
    ∃ n ∈ (Dedup.bulkUpsert rows tenantID agentID datetime g).nodes, Holds tenantID row n := by
  obtain ⟨pre, post, rfl⟩ := List.append_of_mem h
  rw [Dedup.bulkUpsert, List.foldl_append, List.foldl_cons]
  obtain ⟨n, hn, hrow⟩ := holds_upsertRow (pre.foldl (Dedup.upsertRow tenantID agentID datetime) g)
    tenantID agentID datetime row
  exact hrow.bulkUpsert hn tenantID agentID datetime post

end

/-! ### One delivery -/

section
variable {E : Env} {scanner : Scanner} {client : Client} {delta : GraphDelta}

theorem splitNodes_fileNodes (tenantID : String) (files : List FileInfo) :
    Dedup.splitNodes E (files.map (fileNode tenantID)) = some (files.map (fileNode tenantID), []) := by
  induction files with
  | nil => rfl
  | cons f files ih =>
    have hfile : Dedup.isFileNode E (fileNode tenantID f) = some true := by
      simp [Dedup.isFileNode, fileNode, Json.getD, Json.field?]
    rw [List.map_cons, Dedup.splitNodes, hfile, ih]
    rfl

theorem fileRows_eq_mapM (nodes : List Json.Fields) : Dedup.fileRows E nodes = nodes.mapM (fileRow E) := by
  rw [Dedup.fileRows, Dedup.bulkRows, List.mapM_map]
  rfl

theorem fileRows_isSome_iff : (Dedup.fileRows E (delta.files.map (fileNode delta.tenantID))).isSome ↔
    RowsKnown E delta := by
  rw [fileRows_eq_mapM, RowsKnown]
  induction delta.files with
  | nil => simp
  | cons f files ih =>
    rw [List.map_cons, List.mapM_cons, List.forall_mem_cons, ← ih]
    cases fileRow E (fileNode delta.tenantID f) <;>
      cases (files.map (fileNode delta.tenantID)).mapM (fileRow E) <;> simp

theorem mem_fileRows {tenantID : String} {files : List FileInfo} {rows : List Row}
    (h : Dedup.fileRows E (files.map (fileNode tenantID)) = some rows) {f : FileInfo} (hf : f ∈ files) :
    ∃ row ∈ rows, fileRow E (fileNode tenantID f) = some row := by
  rw [fileRows_eq_mapM] at h
  induction files generalizing rows with
  | nil => simp at hf
  | cons g files ih =>
    rw [List.map_cons, List.mapM_cons] at h
    obtain ⟨row, hrow, h⟩ := Option.bind_eq_some_iff.1 h
    obtain ⟨rest, hrest, h⟩ := Option.bind_eq_some_iff.1 h
    obtain rfl := Option.some.inj h
    rcases List.mem_cons.1 hf with rfl | hf
    · exact ⟨row, List.mem_cons_self, hrow⟩
    · obtain ⟨row', hmem, hrow'⟩ := ih hrest hf
      exact ⟨row', List.mem_cons_of_mem _ hmem, hrow'⟩

theorem exists_file_of_mem_fileRows {tenantID : String} {files : List FileInfo} {rows : List Row}
    (h : Dedup.fileRows E (files.map (fileNode tenantID)) = some rows) {row : Row} (hrow : row ∈ rows) :
    ∃ f ∈ files, fileRow E (fileNode tenantID f) = some row := by
  rw [fileRows_eq_mapM] at h
  induction files generalizing rows with
  | nil =>
    obtain rfl := Option.some.inj h
    exact absurd hrow List.not_mem_nil
  | cons g files ih =>
    rw [List.map_cons, List.mapM_cons] at h
    obtain ⟨first, hfirst, h⟩ := Option.bind_eq_some_iff.1 h
    obtain ⟨rest, hrest, h⟩ := Option.bind_eq_some_iff.1 h
    obtain rfl := Option.some.inj h
    rcases List.mem_cons.1 hrow with rfl | hrow
    · exact ⟨g, List.mem_cons_self, hfirst⟩
    · obtain ⟨f, hf, hfile⟩ := ih hrest hrow
      exact ⟨f, List.mem_cons_of_mem g hf, hfile⟩

variable (E scanner) in
/-- What a chunk of files does to the graph, whatever the databases answer after the File statement. -/
theorem run_of_files (chunk : DeltaChunk) {nodes : List Json.Fields}
    (hsplit : Dedup.splitNodes E chunk.nodes = some (nodes, [])) (hedges : chunk.edges = []) (O : Outcome)
    (s : Dedup.State) :
    (Delivery.run E ⟨scanner, chunk, O⟩ s).graph =
      Dedup.bulkUpsert (Delivery.appliedRows E ⟨scanner, chunk, O⟩) chunk.tenantID scanner.id O.datetime s.graph := by
  rcases Dedup.syncDelta_cases E scanner chunk O s with
    ⟨⟨e, hr⟩, hrefused⟩ | ⟨files, others, hparts, ⟨htenant, hfound, hknown⟩, hr⟩
  · rw [Delivery.run, hr, Dedup.appliedRows_of_refused hrefused]
    rfl
  obtain ⟨rfl, rfl⟩ := Prod.mk.inj (Option.some.inj (hsplit.symm.trans hparts))
  rw [Dedup.appliedRows_of_split htenant hfound hknown hsplit]
  -- no other nodes and no edges, so the backend does nothing
  have hgraph : (Dedup.syncFiles E scanner chunk O nodes s.graph).1 =
      Dedup.bulkUpsert (if O.filesAccepted = true then (Dedup.fileRows E nodes).getD [] else []) chunk.tenantID
        scanner.id O.datetime s.graph := by
    unfold Dedup.syncFiles
    by_cases hnil : nodes = []
    · rw [if_pos hnil, hnil]
      split_ifs <;> rfl
    · rw [if_neg hnil]
      by_cases haccepted : O.filesAccepted = true
      · rw [if_pos haccepted, haccepted]
        rcases Dedup.fileRows E nodes with _ | rows <;> rfl
      · rw [if_neg haccepted, eq_false_of_ne_true haccepted]
        rcases Dedup.fileRows E nodes with _ | rows <;> rfl
  have hbackend : ∀ tally, (Dedup.syncBackend chunk O []
      (Dedup.syncFiles E scanner chunk O nodes s.graph).1 tally).1 =
      (Dedup.syncFiles E scanner chunk O nodes s.graph).1 := fun tally => by
    rw [Dedup.syncBackend, hedges]
    rfl
  rcases hr with ⟨-, hr⟩ | ⟨-, response, lastHealth, hr, -⟩ <;> rw [Delivery.run, hr]
  · exact hgraph
  · exact (hbackend (Dedup.syncFiles E scanner chunk O nodes s.graph).2).trans hgraph

variable (E scanner) in
theorem syncDelta_isOk_iff (chunk : DeltaChunk) {parts : List Json.Fields × List Json.Fields}
    (hsplit : Dedup.splitNodes E chunk.nodes = some parts) (O : Outcome) (s : Dedup.State) :
    (∃ r, (syncDelta E scanner chunk O s).1 = .ok r) ↔
      scanner.tenantID = chunk.tenantID ∧ O.tenantFound = true ∧ O.backendKnown = true ∧ O.connects = true := by
  rcases Dedup.syncDelta_cases E scanner chunk O s with
    ⟨⟨e, hr⟩, hrefused⟩ | ⟨files, others, -, ⟨htenant, hfound, hknown⟩, hr⟩
  · have hno := hrefused.resolve_left (by simp [hsplit])
    rw [hr]
    refine iff_of_false (by simp) fun h => hno ⟨h.1, h.2.1, h.2.2.1⟩
  · rcases hr with ⟨hconnects, hr⟩ | ⟨hconnects, response, lastHealth, hr, -⟩ <;> rw [hr]
    · simp [hconnects]
    · simp [htenant, hfound, hknown, hconnects]

/-! ### One call of `sendDelta` -/

/-- The databases after these deliveries. -/
def afterDeliveries (E : Env) (s : Dedup.State) (ds : List Delivery) : Dedup.State :=
  ds.foldl (fun s d => d.run E s) s

theorem afterDeliveries_append (s : Dedup.State) (ds ds' : List Delivery) :
    afterDeliveries E s (ds ++ ds') = afterDeliveries E (afterDeliveries E s ds) ds' :=
  List.foldl_append

theorem postJSON_eq (s : Dedup.State) (p : Post) :
    postJSON E scanner (toDeltaChunk client delta false) s p =
      (if p.Answers scanner delta then none else some .postFailed,
        afterDeliveries E s (p.delivery? scanner (toDeltaChunk client delta false)).toList,
        (p.delivery? scanner (toDeltaChunk client delta false)).toList) := by
  cases p with
  | lost => rfl
  | delivered O answered =>
    have hok := syncDelta_isOk_iff E scanner (toDeltaChunk client delta false)
      (splitNodes_fileNodes delta.tenantID delta.files) O s
    have hrun : afterDeliveries E s [⟨scanner, toDeltaChunk client delta false, O⟩] =
        (syncDelta E scanner (toDeltaChunk client delta false) O s).2 := rfl
    show _ = (_, afterDeliveries E s [_], [_])
    rw [hrun]
    simp only [postJSON]
    rcases hsync : syncDelta E scanner (toDeltaChunk client delta false) O s with ⟨e | r, s'⟩
    · have hno : ¬ (Post.delivered O answered).Answers scanner delta := fun h => by
        obtain ⟨r, hr⟩ := hok.2 h.2
        rw [hsync] at hr
        simp at hr
      rw [if_neg hno]
    · have hyes := hok.1 ⟨r, by rw [hsync]⟩
      have hans : (Post.delivered O answered).Answers scanner delta ↔ answered = true :=
        ⟨fun h => h.1, fun h => ⟨h, hyes⟩⟩
      simp only [hans]

variable (E scanner client delta) in
/-- How `sendDelta` returns from attempt `attempt` on: with the databases after its POSTs, and with the chunk
queued only if none of them was answered. -/
theorem attempts_spec (x : Exchange) (left attempt : Nat) (w : World) :
    let ps := posts scanner delta x left attempt
    let r := attempts E scanner client delta x left attempt w
    r.2.2 = ps.filterMap (·.delivery? scanner (toDeltaChunk client delta false)) ∧
      r.2.1.server = afterDeliveries E w.server r.2.2 ∧
      ((∃ p ∈ ps, p.Answers scanner delta) ∧ r.1 = none ∧ r.2.1.queue = w.queue ∨
        (∀ p ∈ ps, ¬ p.Answers scanner delta) ∧
          (r.1 ≠ none ∧ r.2.1.queue = w.queue ∨
            r.1 = none ∧ ∃ q, w.queue = some q ∧ r.2.1.queue = some (q ++ [delta]))) := by
  induction left generalizing attempt w with
  | zero =>
    obtain ⟨server, _ | q⟩ := w
    · exact ⟨rfl, rfl, .inr ⟨by simp [posts], .inl ⟨by simp [attempts], rfl⟩⟩⟩
    · by_cases henq : x.enqueued = true
      · have hr : attempts E scanner client delta x 0 attempt ⟨server, some q⟩ =
            (none, ⟨server, some (q ++ [delta])⟩, []) := if_pos henq
        rw [hr]
        exact ⟨rfl, rfl, .inr ⟨by simp [posts], .inr ⟨rfl, q, rfl, rfl⟩⟩⟩
      · have hr : attempts E scanner client delta x 0 attempt ⟨server, some q⟩ =
            (some .enqueueFailed, ⟨server, some q⟩, []) := if_neg henq
        rw [hr]
        exact ⟨rfl, rfl, .inr ⟨by simp [posts], .inl ⟨by simp, rfl⟩⟩⟩
  | succ left ih =>
    rw [posts, attempts]
    by_cases hctx : 0 < attempt ∧ x.cancelled attempt = true
    · rw [if_pos hctx, if_pos hctx]
      exact ⟨rfl, rfl, .inr ⟨by simp, .inl ⟨by simp, rfl⟩⟩⟩
    rw [if_neg hctx, if_neg hctx, postJSON_eq]
    by_cases hans : (x.post attempt).Answers scanner delta
    · rw [if_pos hans, if_pos hans]
      refine ⟨?_, rfl, .inl ⟨⟨_, List.mem_singleton_self _, hans⟩, rfl, rfl⟩⟩
      cases h : (x.post attempt).delivery? scanner (toDeltaChunk client delta false) <;> simp [h]
    · rw [if_neg hans, if_neg hans]
      obtain ⟨hds, hserver, hres⟩ := ih (attempt + 1)
        ⟨afterDeliveries E w.server
          ((x.post attempt).delivery? scanner (toDeltaChunk client delta false)).toList, w.queue⟩
      refine ⟨?_, ?_, ?_⟩
      · show _ ++ _ = _
        rw [hds, List.filterMap_cons]
        cases (x.post attempt).delivery? scanner (toDeltaChunk client delta false) <;> rfl
      · exact hserver.trans (afterDeliveries_append _ _ _).symm
      · refine hres.imp (fun ⟨⟨p, hp, hpa⟩, h⟩ => ⟨⟨p, List.mem_cons_of_mem _ hp, hpa⟩, h⟩) fun ⟨hnone, h⟩ =>
          ⟨List.forall_mem_cons.2 ⟨hans, hnone⟩, h⟩

/-! ### A whole scan -/

instance (call : Call) : Decidable (call.Answered scanner) :=
  inferInstanceAs (Decidable (∃ p ∈ call.posts scanner, p.Answers scanner call.delta))

/-- The chunks a scan from the world `w₀` has queued. -/
def SyncState.queued (scanner : Scanner) (st : SyncState) : List Call :=
  st.counted.filter fun call => ¬ call.Answered scanner

/-- `sendDelta` posted the chunk and has an answer, or had an error, or the queue took the chunk. -/
structure Returned (scanner : Scanner) (client : Client) (w₀ : World) (call : Call) : Prop where
  files : call.delta.files ≠ []
  deliveries : call.deliveries =
    (call.posts scanner).filterMap (·.delivery? scanner (toDeltaChunk client call.delta false))
  answered : call.Answered scanner → call.err = none
  queued : call.err = none → ¬ call.Answered scanner → w₀.queue ≠ none

structure Inv (E : Env) (scanner : Scanner) (client : Client) (w₀ : World) (st : SyncState) : Prop where
  server : st.world.server = afterDeliveries E w₀.server (st.calls.flatMap (·.deliveries))
  queue : st.world.queue = w₀.queue.map (· ++ (st.queued scanner).map (·.delta))
  returned : ∀ call ∈ st.calls, Returned scanner client w₀ call
  index_lt : ∀ call ∈ st.counted, call.delta.chunkIndex < st.chunkIdx
  index_nodup : (st.counted.map (·.delta.chunkIndex)).Nodup
  counts : st.filesIndexed = (st.counted.flatMap (·.delta.files)).length

variable {scan : Scan} {w₀ : World} {st : SyncState}

variable (E scanner client scan) in
/-- `attempts_spec` for the call of `flush`. -/
theorem send_spec (st : SyncState) :
    let call := st.call E scanner client scan
    let world := (st.send E scanner client scan).2.1
    call.deliveries = (call.posts scanner).filterMap (·.delivery? scanner (toDeltaChunk client call.delta false)) ∧
      world.server = afterDeliveries E st.world.server call.deliveries ∧
      (call.Answered scanner ∧ call.err = none ∧ world.queue = st.world.queue ∨
        ¬ call.Answered scanner ∧
          (call.err ≠ none ∧ world.queue = st.world.queue ∨
            call.err = none ∧ ∃ q, st.world.queue = some q ∧ world.queue = some (q ++ [call.delta]))) := by
  obtain ⟨hds, hserver, hres⟩ := attempts_spec E scanner client (st.delta client scan)
    (scan.exchange st.calls.length) maxRetries 0 st.world
  refine ⟨hds, hserver, hres.imp id fun ⟨hnone, h⟩ => ⟨?_, h⟩⟩
  rintro ⟨p, hp, hans⟩
  exact hnone p hp hans

theorem counted_concat (calls : List Call) (call : Call) :
    (calls ++ [call]).filter (·.err = none) =
      calls.filter (·.err = none) ++ if call.err = none then [call] else [] := by
  by_cases h : call.err = none <;> simp [h]

theorem Inv.flush (h : Inv E scanner client w₀ st) :
    Inv E scanner client w₀ (flush E scanner client scan st).2 := by
  by_cases hne : st.batch = []
  · rw [AgentSync.flush, if_pos hne]
    exact h
  obtain ⟨hds, hserver, hres⟩ := send_spec E scanner client scan st
  have hreturned : Returned scanner client w₀ (st.call E scanner client scan) := by
    refine ⟨hne, hds, fun hans => ?_, fun herr hans hw => ?_⟩
    · rcases hres with ⟨-, herr, -⟩ | ⟨hno, -⟩
      · exact herr
      · exact absurd hans hno
    · have hq := h.queue
      rcases hres with ⟨hyes, -⟩ | ⟨-, ⟨herr', -⟩ | ⟨-, q, hq', -⟩⟩
      · exact hans hyes
      · exact herr' herr
      · rw [hq', hw] at hq
        simp at hq
  have hserver' : (st.send E scanner client scan).2.1.server = afterDeliveries E w₀.server
      ((st.calls ++ [st.call E scanner client scan]).flatMap (·.deliveries)) := by
    rw [List.flatMap_append, afterDeliveries_append, ← h.server, hserver]
    simp
  have hcalls : ∀ call ∈ st.calls ++ [st.call E scanner client scan], Returned scanner client w₀ call := by
    intro call hcall
    rcases List.mem_append.1 hcall with hcall | hcall
    · exact h.returned call hcall
    · rw [List.mem_singleton.1 hcall]
      exact hreturned
  rcases flush_cases E scanner client scan hne with
    ⟨e, herr, hflush⟩ | ⟨herr, hflush⟩
  · -- an error: nothing is counted and nothing queued
    have herr' : (st.call E scanner client scan).err ≠ none := by
      show (st.send E scanner client scan).1 ≠ none
      simp [herr]
    have hcounted : (st.calls ++ [st.call E scanner client scan]).filter (·.err = none) = st.counted := by
      rw [counted_concat, if_neg herr', List.append_nil, SyncState.counted]
    rw [hflush]
    refine ⟨hserver', ?_, hcalls, ?_, ?_, ?_⟩
    · show (st.send E scanner client scan).2.1.queue = w₀.queue.map (· ++ List.map _ (List.filter _ (List.filter _ _)))
      rw [hcounted]
      rcases hres with ⟨-, hnone, -⟩ | ⟨-, ⟨-, hq⟩ | ⟨hnone, -⟩⟩
      · exact absurd hnone herr'
      · exact hq.trans h.queue
      · exact absurd hnone herr'
    · show ∀ call ∈ List.filter _ _, _
      rw [hcounted]
      exact h.index_lt
    · show (List.map _ (List.filter _ _)).Nodup
      rw [hcounted]
      exact h.index_nodup
    · show _ = (List.flatMap _ (List.filter _ _)).length
      rw [hcounted]
      exact h.counts
  · -- the chunk is counted under the next index
    have herr' : (st.call E scanner client scan).err = none := herr
    have hcounted : (st.calls ++ [st.call E scanner client scan]).filter (·.err = none) =
        st.counted ++ [st.call E scanner client scan] := by
      rw [counted_concat, if_pos herr', SyncState.counted]
    have hindex : (st.call E scanner client scan).delta.chunkIndex = st.chunkIdx := rfl
    rw [hflush]
    refine ⟨hserver', ?_, hcalls, ?_, ?_, ?_⟩
    · show (st.send E scanner client scan).2.1.queue = w₀.queue.map (· ++ List.map _ (List.filter _ (List.filter _ _)))
      rw [hcounted, List.filter_append, List.map_append]
      rcases hres with ⟨hans, -, hq⟩ | ⟨hans, ⟨hsome, -⟩ | ⟨-, q, hq, hq'⟩⟩
      · rw [hq, h.queue, SyncState.queued]
        simp [hans]
      · exact absurd herr' hsome
      · have hold := h.queue
        rw [hq] at hold
        obtain ⟨q₀, hq₀, rfl⟩ := Option.map_eq_some_iff.1 hold.symm
        rw [hq', hq₀, SyncState.queued]
        simp [hans]
    · show ∀ call : Call, call ∈ List.filter _ _ → call.delta.chunkIndex < st.chunkIdx + 1
      rw [hcounted]
      intro call hcall
      rcases List.mem_append.1 hcall with hcall | hcall
      · exact Nat.lt_succ_of_lt (h.index_lt call hcall)
      · rw [List.mem_singleton.1 hcall, hindex]
        exact Nat.lt_succ_self _
    · show (List.map _ (List.filter _ _)).Nodup
      rw [hcounted, List.map_append, List.nodup_append]
      refine ⟨h.index_nodup, List.nodup_singleton _, fun i hi j hj => ?_⟩
      obtain ⟨call, hcall, rfl⟩ := List.mem_map.1 hi
      rw [List.mem_singleton.1 hj]
      exact Nat.ne_of_lt (h.index_lt call hcall)
    · show st.filesIndexed + st.batch.length = (List.flatMap _ (List.filter _ _)).length
      rw [hcounted, List.flatMap_append, List.length_append, h.counts]
      simp [SyncState.call, SyncState.delta]

theorem inv_start : Inv E scanner client w₀ ⟨w₀, [], 0, 0, 0, []⟩ where
  server := rfl
  queue := by
    cases w₀.queue <;> simp [SyncState.queued, SyncState.counted]
  returned := by simp
  index_lt := by simp [SyncState.counted]
  index_nodup := by simp [SyncState.counted]
  counts := by simp [SyncState.counted]

theorem sync_inv (files : List FileInfo) (walkErr : Option SendError) :
    Inv E scanner client w₀ (sync E scanner client scan files walkErr w₀).2 :=
  inv_sync (Inv E scanner client w₀) (fun _ _ h =>
    ⟨h.server, h.queue, h.returned, h.index_lt, h.index_nodup, h.counts⟩) (fun _ h => h.flush) inv_start

/-! ### Delivered files -/

/-- A delivery of nothing but files. -/
def OfFiles (E : Env) (d : Delivery) : Prop :=
  (∃ nodes, Dedup.splitNodes E d.chunk.nodes = some (nodes, [])) ∧ d.chunk.edges = []

theorem ofFiles_toDeltaChunk (O : Outcome) : OfFiles E ⟨scanner, toDeltaChunk client delta false, O⟩ :=
  ⟨⟨_, splitNodes_fileNodes delta.tenantID delta.files⟩, rfl⟩

theorem Holds.afterDeliveries {tenantID : String} {row : Row} {n : Node} (h : Holds tenantID row n) {s : Dedup.State}
    (hn : n ∈ s.graph.nodes) {ds : List Delivery} (hds : ∀ d ∈ ds, OfFiles E d) :
    ∃ n' ∈ (afterDeliveries E s ds).graph.nodes, Holds tenantID row n' := by
  induction ds generalizing s n with
  | nil => exact ⟨n, hn, h⟩
  | cons d ds ih =>
    obtain ⟨⟨⟨nodes, hsplit⟩, hedges⟩, hds⟩ := List.forall_mem_cons.1 hds
    have hrun := run_of_files E d.scanner d.chunk hsplit hedges d.outcome s
    obtain ⟨m, hm, hrow⟩ := h.bulkUpsert hn d.chunk.tenantID d.scanner.id d.outcome.datetime (d.appliedRows E)
    exact ih hrow (s := d.run E s) (hrun ▸ hm) hds

theorem Returned.ofFiles {call : Call} (h : Returned scanner client w₀ call) {d : Delivery} (hd : d ∈ call.deliveries) :
    ∃ O, d = ⟨scanner, toDeltaChunk client call.delta false, O⟩ := by
  rw [h.deliveries] at hd
  obtain ⟨p, -, hp⟩ := List.mem_filterMap.1 hd
  cases p with
  | lost => simp [Post.delivery?] at hp
  | delivered O answered => exact ⟨O, (Option.some.inj hp).symm⟩

/-- The rows of a delivery reach the final graph. -/
theorem Inv.holds (h : Inv E scanner client w₀ st) {call : Call} (hcall : call ∈ st.calls) {d : Delivery}
    (hd : d ∈ call.deliveries) {row : Row} (hrow : row ∈ d.appliedRows E) :
    ∃ n ∈ st.world.server.graph.nodes, Holds call.delta.tenantID row n := by
  have hall : ∀ d ∈ st.calls.flatMap (·.deliveries), OfFiles E d := by
    intro d hd
    obtain ⟨c, hc, hd⟩ := List.mem_flatMap.1 hd
    obtain ⟨O, rfl⟩ := (h.returned c hc).ofFiles hd
    exact ofFiles_toDeltaChunk O
  obtain ⟨pre, post, hsplit⟩ := List.append_of_mem (List.mem_flatMap.2 ⟨call, hcall, hd⟩)
  obtain ⟨O, rfl⟩ := (h.returned call hcall).ofFiles hd
  rw [h.server, hsplit, afterDeliveries_append]
  rw [hsplit] at hall
  obtain ⟨n, hn, hholds⟩ := holds_bulkUpsert (AgentSync.afterDeliveries E w₀.server pre).graph call.delta.tenantID
    scanner.id O.datetime hrow
  have hrun := run_of_files E scanner (toDeltaChunk client call.delta false)
    (splitNodes_fileNodes call.delta.tenantID call.delta.files) rfl O (AgentSync.afterDeliveries E w₀.server pre)
  have hmem : n ∈ (Delivery.run E ⟨scanner, toDeltaChunk client call.delta false, O⟩
      (AgentSync.afterDeliveries E w₀.server pre)).graph.nodes := by
    rw [hrun]
    exact hn
  exact hholds.afterDeliveries hmem fun d hd => hall d (by simp [hd])

/-- A delivery applies rows exactly if the File statement went through. -/
theorem appliedRows_eq (O : Outcome) (answered : Bool) :
    Delivery.appliedRows E ⟨scanner, toDeltaChunk client delta false, O⟩ =
      if (Post.delivered O answered).Applies scanner delta then
        (Dedup.fileRows E (delta.files.map (fileNode delta.tenantID))).getD [] else [] := by
  have hsplit : Dedup.splitNodes E (toDeltaChunk client delta false).nodes =
      some (delta.files.map (fileNode delta.tenantID), []) := splitNodes_fileNodes _ _
  unfold Delivery.appliedRows
  rw [hsplit]
  rfl

/-- `FilesIndexed` is honest about a scan exactly if, for every chunk that `sync_delta` answered, the File
statement of this or an earlier attempt went through (or the queue held the very chunk before). -/
theorem sync_honest_iff (E : Env) (scanner : Scanner) (client : Client) (scan : Scan) (files : List FileInfo)
    (walkErr : Option SendError) (w : World) :
    let st := (sync E scanner client scan files walkErr w).2
    Honest E st ↔ ∀ call ∈ st.calls, call.Answered scanner → call.Applied E scanner ∨ Queued w call.delta := by
  intro st
  have h : Inv E scanner client w st := sync_inv files walkErr
  have hcounted : ∀ call, call ∈ st.counted ↔ call ∈ st.calls ∧ call.err = none := by simp [SyncState.counted]
  have hqueued : ∀ call, call ∈ st.queued scanner ↔ call ∈ st.counted ∧ ¬ call.Answered scanner := by
    simp [SyncState.queued]
  constructor
  · intro hst call hcall hans
    have hmem := (hcounted call).2 ⟨hcall, (h.returned call hcall).answered hans⟩
    obtain ⟨f, hf⟩ := List.exists_mem_of_ne_nil _ (h.returned call hcall).files
    rcases hst.delivered call hmem f hf with ⟨row, -, ⟨d, hd, hrow⟩, -⟩ | ⟨queue, hq, hdelta⟩
    · left
      rw [(h.returned call hcall).deliveries] at hd
      obtain ⟨p, hp, hpd⟩ := List.mem_filterMap.1 hd
      cases p with
      | lost => simp [Post.delivery?] at hpd
      | delivered O answered =>
        obtain rfl := Option.some.inj hpd
        rw [appliedRows_eq O answered] at hrow
        split_ifs at hrow with happ
        · refine ⟨fileRows_isSome_iff.1 ?_, _, hp, happ⟩
          rcases hrows : Dedup.fileRows E (call.delta.files.map (fileNode call.delta.tenantID)) with _ | rows
          · rw [hrows] at hrow
            simp at hrow
          · rfl
        · simp at hrow
    · -- only an unanswered call of another index can have put the chunk into the queue
      rw [h.queue] at hq
      obtain ⟨q₀, hq₀, rfl⟩ := Option.map_eq_some_iff.1 hq
      rcases List.mem_append.1 hdelta with hdelta | hdelta
      · exact .inr ⟨q₀, hq₀, hdelta⟩
      · obtain ⟨call', hcall', heq⟩ := List.mem_map.1 hdelta
        obtain ⟨hmem', hno⟩ := (hqueued call').1 hcall'
        have : call' = call := List.inj_on_of_nodup_map h.index_nodup hmem' hmem (by rw [heq])
        exact absurd hans (this ▸ hno)
  · intro hall
    refine ⟨h.counts, fun call hmem f hf => ?_⟩
    obtain ⟨hcall, herr⟩ := (hcounted call).1 hmem
    by_cases hans : call.Answered scanner
    · rcases hall call hcall hans with ⟨hrows, p, hp, happ⟩ | ⟨q, hq, hdelta⟩
      · left
        cases p with
        | lost => exact absurd happ (by simp [Post.Applies])
        | delivered O answered =>
          obtain ⟨rows, hsome⟩ := Option.isSome_iff_exists.1 (fileRows_isSome_iff.2 hrows)
          obtain ⟨row, hrow, hfile⟩ := mem_fileRows hsome hf
          have hd : ⟨scanner, toDeltaChunk client call.delta false, O⟩ ∈ call.deliveries := by
            rw [(h.returned call hcall).deliveries]
            exact List.mem_filterMap.2 ⟨_, hp, rfl⟩
          have happlied : row ∈ Delivery.appliedRows E ⟨scanner, toDeltaChunk client call.delta false, O⟩ := by
            rw [appliedRows_eq O answered, if_pos happ, hsome]
            exact hrow
          exact ⟨row, hfile, ⟨_, hd, happlied⟩, h.holds hcall hd happlied⟩
      · refine .inr ⟨q ++ (st.queued scanner).map (·.delta), ?_, List.mem_append_left _ hdelta⟩
        rw [h.queue, hq]
        rfl
    · right
      obtain ⟨q, hq⟩ := Option.ne_none_iff_exists'.1 ((h.returned call hcall).queued herr hans)
      refine ⟨q ++ (st.queued scanner).map (·.delta), by rw [h.queue, hq]; rfl, List.mem_append_right _ ?_⟩
      exact List.mem_map_of_mem ((hqueued call).2 ⟨hmem, hans⟩)

end

/-! ### A scan of one file -/

def oneFile : FileInfo where
  connectorID := "nas"
  path := "/a.txt"
  name := "a.txt"
  extension := ".txt"
  sha256 := ""
  size := 1
  modifiedAt := "2024-01-01T00:00:00Z"
  fileCategory := "document"
  mimeType := "text/plain"
  attrs := []
  host := ""
  protocol := "local"

/-- Every POST arrives and is answered; the database refuses the File statement. -/
def refusedWrite : Exchange where
  post := fun _ => .delivered ⟨true, true, false, "2024-01-01T00:00:01Z", true, fun _ => true⟩ true
  cancelled := fun _ => false
  enqueued := true

def nightlyScan : Scan := ⟨"nas", "nas-1", fun _ => "2024-01-01T00:00:00Z", fun _ => refusedWrite⟩

/-- The scan reports one file indexed without an error; the file is nowhere, and the queue is empty. -/
theorem refused_write_counted :
    let st := sync Dedup.plainEnv ⟨"agent", "tenant"⟩ ⟨"tenant", "agent"⟩ nightlyScan [oneFile] none
      ⟨Dedup.emptyState, some []⟩
    st.1 = none ∧ st.2.filesIndexed = 1 ∧ st.2.errors = 0 ∧ ¬ Honest Dedup.plainEnv st.2 := by
  intro st
  refine ⟨by decide, by decide, by decide, fun h => ?_⟩
  have hgraph : st.2.world.server.graph.nodes = [] := rfl
  have hqueue : st.2.world.queue = some [] := rfl
  have hne : st.2.counted.flatMap (·.delta.files) ≠ [] := by
    rw [← List.length_pos_iff, ← h.counts]
    decide
  obtain ⟨f, hf⟩ := List.exists_mem_of_ne_nil _ hne
  obtain ⟨call, hcall, hf⟩ := List.mem_flatMap.1 hf
  rcases h.delivered call hcall f hf with ⟨row, -, -, n, hn, -⟩ | ⟨q, hq, hdelta⟩
  · rw [hgraph] at hn
    exact absurd hn List.not_mem_nil
  · obtain rfl := Option.some.inj (hqueue.symm.trans hq)
    exact absurd hdelta List.not_mem_nil

end Dgraphai.AgentSync
