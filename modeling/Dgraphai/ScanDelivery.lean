import Dgraphai.ScannerRuns

/-!
# What becomes of a record that a scan has walked

In every run of the scanner agent in which it is not started again while a scan is under way and no chunk is written over
another, each record of each scan is in the variables of the scan, in the queue on disk, or in a chunk whose answer has
come, and then a file is in the graph (`scans_kept`). A `flush_queue` that finds the platform up empties the queue, so
that everything that was scanned is there (`flush_delivers`).
-/

namespace Dgraphai.ScannerRuns

open AgentSync (createdProps)
open Dedup (Env Scanner DeltaChunk Delivery Outcome Row SyncResponse Tracks)
open PropertyGraph (Graph Props)
open ScannerSync (SyncClient Delta Part Reply Files maxRetries payload fileName enqueueChunk queued)
open StoredFiles (fileProps)

variable (E : Env) (scanner : Scanner) (client : SyncClient)

/-! ### Where a record is -/

/-- The record is in the variables of the scan. -/
def Scan.Holds (scan : Scan) (f : Found) : Prop :=
  (f.connectorID = scan.connectorID ∧ f.record ∈ scan.batch ++ scan.todo) ∨ ∃ chunk ∈ scan.unsent, f.node E ∈ chunk.nodes

def Held (scans : ℕ → Option Scan) (f : Found) : Prop := ∃ task scan, scans task = some scan ∧ scan.Holds E f

def InChunk (chunks : List DeltaChunk) (f : Found) : Prop := ∃ chunk ∈ chunks, f.node E ∈ chunk.nodes

/-- A File node of the tenant has what the server stores of the record for this scanner. -/
def Stored (g : Graph) (f : Found) : Prop :=
  ∃ row datetime, Dedup.makeRow E (f.record.props f.connectorID) = some row ∧
    createdProps row client.tenantID scanner.id datetime ∈ fileProps g

/-- Nothing of the record is lost: it is in a scan, on disk, or answered for, and a file is stored by then. -/
def Kept (s : State) (f : Found) : Prop :=
  Held E s.scans f ∨ InChunk E s.dir.values f ∨
    (InChunk E s.answered f ∧ (f.record.isDir = false → Stored E scanner client s.server.graph f))

/-- The agent is not started again while a scan is under way, a chunk is not written over one that is queued, and the
graph database takes the File statement of a delivery that is answered. -/
def Undisturbed (s : State) : Step → Prop
  | .enqueue task time => ∀ scan ∈ s.scans task, ∀ chunk ∈ scan.unsent.head?, fileName chunk time ∉ s.dir.keys
  | .restart => ∀ task, s.scans task = none
  | .post _ (.delivered O true) | .postQueued (.delivered O true) => O.filesAccepted = true
  | _ => True

variable {E scanner client} {s s' : State} {g g' : Graph} {f : Found} {chunk : DeltaChunk}

/-! ### The chunks of a scan -/

/-- A chunk as `send_delta` makes it of records. -/
structure Own (E : Env) (client : SyncClient) (chunk : DeltaChunk) : Prop where
  tenant : chunk.tenantID = client.tenantID
  nodes : ∀ node ∈ chunk.nodes, ∃ f : Found, node = f.node E

theorem isFileNode_node (f : Found) : Dedup.isFileNode E (f.node E) = some (!f.record.isDir) := by
  cases hdir : f.record.isDir <;>
    simp [Found.node, FileRecord.toNodeDict, Dedup.isFileNode, Json.getD, Json.field?, hdir, Json.truthy]

theorem fileRow_node (f : Found) :
    AgentSync.fileRow E (f.node E) = Dedup.makeRow E (f.record.props f.connectorID) := rfl

/-- `make_node_id` raises on no record. -/
theorem exists_row (f : Found) : ∃ row, Dedup.makeRow E (f.record.props f.connectorID) = some row := by
  have hid : ∃ id, Dedup.makeNodeID E (f.record.props f.connectorID) = some id := by
    unfold Dedup.makeNodeID
    have hsha : Json.getD (f.record.props f.connectorID) "sha256" (.str "") = .str (f.record.sha256.getD "") := by
      simp [FileRecord.props, Json.getD, Json.field?]
    rw [hsha]
    dsimp only [Json.len?]
    split_ifs
    · exact ⟨_, rfl⟩
    · exact ⟨_, rfl⟩
  obtain ⟨id, hid⟩ := hid
  rw [Dedup.makeRow, hid]
  exact ⟨_, rfl⟩

theorem splitNodes_own {nodes : List Json.Fields} (hnodes : ∀ node ∈ nodes, ∃ f : Found, node = f.node E) :
    ∃ files others, Dedup.splitNodes E nodes = some (files, others) ∧
      (∀ f : Found, f.node E ∈ nodes → f.record.isDir = false → f.node E ∈ files) ∧ ∀ node ∈ files, node ∈ nodes := by
  induction nodes with
  | nil => exact ⟨[], [], rfl, fun f hf => absurd hf List.not_mem_nil, fun _ h => h⟩
  | cons node nodes ih =>
    obtain ⟨⟨f, rfl⟩, hrest⟩ := List.forall_mem_cons.1 hnodes
    obtain ⟨files, others, hsplit, hfiles, hsub⟩ := ih hrest
    rw [Dedup.splitNodes, isFileNode_node, hsplit]
    cases hdir : f.record.isDir with
    | false =>
      refine ⟨f.node E :: files, others, rfl, fun f' hf' hdir' => ?_, fun node hnode => ?_⟩
      · rcases List.mem_cons.1 hf' with heq | hf'
        · rw [heq]
          exact List.mem_cons_self
        · exact List.mem_cons_of_mem _ (hfiles f' hf' hdir')
      · rcases List.mem_cons.1 hnode with rfl | hnode
        · exact List.mem_cons_self
        · exact List.mem_cons_of_mem _ (hsub node hnode)
    | true =>
      refine ⟨files, f.node E :: others, rfl, fun f' hf' hdir' => ?_, fun node hnode => List.mem_cons_of_mem _ (hsub node hnode)⟩
      rcases List.mem_cons.1 hf' with heq | hf'
      · have hfile := isFileNode_node (E := E) f'
        rw [heq, isFileNode_node, hdir, hdir'] at hfile
        exact absurd (Option.some.inj hfile) (by decide)
      · exact hfiles f' hf' hdir'

/-- The File statement of an own chunk has a row for each of its files. -/
theorem fileRows_own {files : List Json.Fields} (hfiles : ∀ node ∈ files, ∃ f : Found, node = f.node E) :
    ∃ rows, Dedup.fileRows E files = some rows ∧ ∀ node ∈ files, ∃ row ∈ rows, AgentSync.fileRow E node = some row := by
  rw [AgentSync.fileRows_eq_mapM]
  induction files with
  | nil => exact ⟨[], rfl, fun _ h => absurd h List.not_mem_nil⟩
  | cons node files ih =>
    obtain ⟨⟨f, rfl⟩, hrest⟩ := List.forall_mem_cons.1 hfiles
    obtain ⟨rows, hrows, hmem⟩ := ih hrest
    obtain ⟨row, hrow⟩ := exists_row (E := E) f
    refine ⟨row :: rows, ?_, fun node hnode => ?_⟩
    · rw [List.mapM_cons, fileRow_node, hrow, hrows]
      rfl
    · rcases List.mem_cons.1 hnode with rfl | hnode
      · exact ⟨row, List.mem_cons_self, hrow⟩
      · obtain ⟨row', hrow', heq⟩ := hmem node hnode
        exact ⟨row', List.mem_cons_of_mem _ hrow', heq⟩

/-! ### The server -/

/-- The File nodes stay as they are, and others may come. -/
structure Grows (g g' : Graph) : Prop where
  tracks : ∃ log, Tracks g' log
  props : fileProps g <+: fileProps g'

theorem Grows.refl (h : ∃ log, Tracks g log) : Grows g g := ⟨h, List.prefix_rfl⟩

theorem Grows.stored (h : Grows g g') (hf : Stored E scanner client g f) : Stored E scanner client g' f := by
  obtain ⟨row, datetime, hrow, hmem⟩ := hf
  exact ⟨row, datetime, hrow, h.props.subset hmem⟩

theorem grows_run {srv : Dedup.State} (h : ∃ log, Tracks srv.graph log) (d : Delivery) :
    Grows srv.graph (d.run E srv).graph := by
  obtain ⟨log, htracks⟩ := h
  refine ⟨⟨_, (d.run_appends htracks).tracks⟩, ?_⟩
  rw [StoredFiles.fileProps_run htracks d]
  exact List.prefix_append _ _

/-- An attempt leaves the server alone or is a delivery, which went through if its answer came. -/
theorem attempt_cases (chunk : DeltaChunk) (reply : Reply) (left : ℕ) (srv : Dedup.State) :
    ((attempt E scanner chunk reply left srv).1 = none ∧ (attempt E scanner chunk reply left srv).2.2 = srv) ∨
      ∃ O answered, reply = .delivered O answered ∧
        (attempt E scanner chunk reply left srv).2.2 = (⟨scanner, chunk, O⟩ : Delivery).run E srv ∧
        ∀ r, (attempt E scanner chunk reply left srv).1 = some r →
          answered = true ∧ (Dedup.syncDelta E scanner chunk O srv).1 = .ok r := by
  unfold attempt
  cases reply with
  | lost => exact .inl ⟨rfl, rfl⟩
  | refused status => exact .inl ⟨rfl, rfl⟩
  | delivered O answered =>
    refine .inr ⟨O, answered, rfl, ?_⟩
    rw [Delivery.run]
    dsimp only
    rcases Dedup.syncDelta E scanner chunk O srv with ⟨e | r, srv'⟩
    · exact ⟨rfl, fun r hr => by cases hr⟩
    · refine ⟨rfl, fun r' hr => ?_⟩
      dsimp only at hr
      split_ifs at hr with hans
      cases hr
      exact ⟨hans, rfl⟩

/-- The files of an own chunk are stored by a delivery that went through. -/
theorem stored_of_ok (hown : Own E client chunk) {srv : Dedup.State} (htracks : ∃ log, Tracks srv.graph log) {O : Outcome}
    (hfiles : O.filesAccepted = true) {r : SyncResponse} (hok : (Dedup.syncDelta E scanner chunk O srv).1 = .ok r)
    (hnode : f.node E ∈ chunk.nodes) (hdir : f.record.isDir = false) :
    Stored E scanner client ((⟨scanner, chunk, O⟩ : Delivery).run E srv).graph f := by
  obtain ⟨log, htracks⟩ := htracks
  obtain ⟨files, others, hsplit, hmem, hsub⟩ := splitNodes_own hown.nodes
  obtain ⟨rows, hrows, hrow⟩ := fileRows_own (E := E) fun node hnode => hown.nodes node (hsub node hnode)
  obtain ⟨row, hrowmem, hfile⟩ := hrow _ (hmem f hnode hdir)
  have happlied : (⟨scanner, chunk, O⟩ : Delivery).appliedRows E = rows := by
    rcases Dedup.syncDelta_cases E scanner chunk O srv with ⟨⟨e, hr⟩, -⟩ | ⟨-, -, -, ⟨htenant, hfound, hknown⟩, -⟩
    · rw [hr] at hok
      cases hok
    · have hsplit' := Dedup.appliedRows_of_split (d := ⟨scanner, chunk, O⟩) htenant hfound hknown hsplit
      rw [hsplit', if_pos hfiles, hrows]
      rfl
  refine ⟨row, O.datetime, hfile, ?_⟩
  rw [StoredFiles.fileProps_run htracks, happlied, ← hown.tenant]
  exact List.mem_append_right _ (List.mem_map_of_mem hrowmem)

/-! ### What the steps keep -/

variable (E scanner client) in
structure Inv (s : State) : Prop where
  kept : ∀ f ∈ s.begun, Kept E scanner client s f
  /-- The file that is sent is still there. -/
  sending : ∀ names name chunk left, s.flushing = some ⟨names, some (name, chunk, left)⟩ → s.dir.get? name = some chunk
  unsent : ∀ task scan, s.scans task = some scan → ∀ chunk ∈ scan.unsent, Own E client chunk
  queued : ∀ chunk ∈ s.dir.values, Own E client chunk
  names : ScannerSync.Queue s.dir
  tracks : ∃ log, Tracks s.server.graph log

theorem Held.update {scans : ℕ → Option Scan} {task : ℕ} {new : Option Scan} {X : Prop} (h : Held E scans f)
    (hscan : ∀ scan, scans task = some scan → scan.Holds E f → (∃ scan', new = some scan' ∧ scan'.Holds E f) ∨ X) :
    Held E (Function.update scans task new) f ∨ X := by
  obtain ⟨task', scan, htask, hholds⟩ := h
  by_cases heq : task' = task
  · subst heq
    rcases hscan scan htask hholds with ⟨scan', hnew, hholds'⟩ | hx
    · exact .inl ⟨task', scan', by rw [Function.update_self, hnew], hholds'⟩
    · exact .inr hx
  · exact .inl ⟨task', scan, by rw [Function.update_of_ne heq, htask], hholds⟩

theorem Kept.step (h : Kept E scanner client s f) (hheld : Held E s.scans f → Kept E scanner client s' f)
    (hqueued : InChunk E s.dir.values f → Kept E scanner client s' f) (hanswered : s.answered ⊆ s'.answered)
    (hgrows : Grows s.server.graph s'.server.graph) : Kept E scanner client s' f := by
  rcases h with h | h | ⟨⟨chunk, hchunk, hnode⟩, hstored⟩
  · exact hheld h
  · exact hqueued h
  · exact .inr (.inr ⟨⟨chunk, hanswered hchunk, hnode⟩, fun hdir => hgrows.stored (hstored hdir)⟩)

/-- The chunks of a batch hold its records. -/
theorem Scan.send_spec (hsize : 0 < client.chunkSize) {now : ℕ → String} {scan scan' : Scan} (hnone : scan.unsent = [])
    (h : scan.send E client now = some scan') :
    (∀ f : Found, scan.Holds E f → scan'.Holds E f) ∧ ∀ chunk ∈ scan'.unsent, Own E client chunk := by
  obtain ⟨ps, hparts, hnodes, -⟩ := ScannerSync.exists_parts client (scan.delta E) hsize
  rw [Scan.send, hparts] at h
  obtain rfl := Option.some.inj h
  constructor
  · rintro f (⟨hconnector, hmem⟩ | ⟨chunk, hchunk, -⟩)
    · rcases List.mem_append.1 hmem with hbatch | htodo
      · have hnode : f.node E ∈ ps.flatMap (·.nodes) := by
          rw [hnodes]
          refine List.mem_map.2 ⟨f.record, hbatch, ?_⟩
          rw [Found.node, hconnector]
        obtain ⟨part, hpart, hin⟩ := List.mem_flatMap.1 hnode
        exact .inr ⟨payload client (scan.delta E) now ps.length part, List.mem_map_of_mem hpart, hin⟩
      · exact .inl ⟨hconnector, htodo⟩
    · rw [hnone] at hchunk
      exact absurd hchunk List.not_mem_nil
  · intro chunk hchunk
    obtain ⟨part, hpart, rfl⟩ := List.mem_map.1 hchunk
    refine ⟨rfl, fun node hnode => ?_⟩
    have hdelta : node ∈ (scan.delta E).nodes := hnodes ▸ List.mem_flatMap.2 ⟨part, hpart, hnode⟩
    obtain ⟨r, -, rfl⟩ := List.mem_map.1 hdelta
    exact ⟨⟨scan.connectorID, r⟩, rfl⟩

theorem Scan.goOn_spec (hsize : 0 < client.chunkSize) {now : ℕ → String} {scan scan' : Scan} (hnone : scan.unsent = [])
    (h : scan.goOn E client now = some scan') :
    (∀ f : Found, scan.Holds E f → scan'.Holds E f) ∧ ∀ chunk ∈ scan'.unsent, Own E client chunk := by
  unfold Scan.goOn at h
  split at h
  · exact Scan.send_spec hsize hnone h
  · rename_i r rest htodo
    -- the record goes from `walk` to the batch
    have hholds : ∀ f : Found, scan.Holds E f →
        Scan.Holds E { scan with todo := rest, batch := scan.batch ++ [r], totalFiles := scan.totalFiles + 1 } f := by
      rintro f (⟨hconnector, hmem⟩ | hchunk)
      · refine .inl ⟨hconnector, ?_⟩
        rw [htodo] at hmem
        simpa using hmem
      · exact .inr hchunk
    dsimp only at h
    split_ifs at h with hfull
    · obtain ⟨hkeep, hown⟩ := Scan.send_spec hsize (by exact hnone) h
      exact ⟨fun f hf => hkeep f (hholds f hf), hown⟩
    · obtain rfl := Option.some.inj h
      refine ⟨hholds, fun chunk hchunk => ?_⟩
      rw [show _ = [] from hnone] at hchunk
      exact absurd hchunk List.not_mem_nil

/-- The chunk that is sent is done with: its records are on disk, or answered for. -/
theorem holds_rest {scan : Scan} {rest : List DeltaChunk} (hunsent : scan.unsent = chunk :: rest) {left : ℕ}
    (hholds : scan.Holds E f) :
    Scan.Holds E { scan with unsent := rest, left := left } f ∨ f.node E ∈ chunk.nodes := by
  rcases hholds with hmem | ⟨chunk', hchunk', hnode⟩
  · exact .inl (.inl hmem)
  · rw [hunsent] at hchunk'
    rcases List.mem_cons.1 hchunk' with rfl | hchunk'
    · exact .inr hnode
    · exact .inl (.inr ⟨chunk', hchunk', hnode⟩)

section Steps

variable (hi : Inv E scanner client s)
include hi

theorem inv_begin {task : ℕ} {connectorID jobID : String} {records : List FileRecord}
    (h : step E scanner client s (.begin task connectorID jobID records) = some s') : Inv E scanner client s' := by
  rw [step] at h
  split at h
  · cases h
  rename_i hfree
  cases h
  refine ⟨fun f hf => ?_, hi.sending, fun task' scan' hscan' => ?_, hi.queued, hi.names, hi.tracks⟩
  · rcases List.mem_append.1 hf with hf | hf
    · refine (hi.kept f hf).step (fun hheld => ?_) (fun hq => .inr (.inl hq)) (List.Subset.refl _) (.refl hi.tracks)
      refine .inl ((hheld.update (X := False) fun scan hscan _ => ?_).resolve_right id)
      rw [hfree] at hscan
      cases hscan
    · obtain ⟨r, hr, rfl⟩ := List.mem_map.1 hf
      exact .inl ⟨task, _, Function.update_self .., .inl ⟨rfl, hr⟩⟩
  · by_cases heq : task' = task
    · subst heq
      have hnew : Function.update s.scans task' (some ⟨connectorID, jobID, records, [], 0, [], 0⟩) task' = some scan' :=
        hscan'
      rw [Function.update_self] at hnew
      obtain rfl := Option.some.inj hnew
      exact fun chunk hchunk => absurd hchunk List.not_mem_nil
    · exact hi.unsent task' scan' ((Function.update_of_ne heq ..).symm.trans hscan')

/-- A task goes on with other variables, which hold the same records or leave them behind. -/
theorem inv_setScan {task : ℕ} {new : Option Scan} (hs' : s'.scans = Function.update s.scans task new)
    (hbegun : s'.begun = s.begun) (hanswered : s.answered ⊆ s'.answered)
    (hgrows : Grows s.server.graph s'.server.graph)
    (hold : ∀ f scan, s.scans task = some scan → scan.Holds E f →
      (∃ scan', new = some scan' ∧ scan'.Holds E f) ∨ Kept E scanner client s' f)
    (hown : ∀ scan', new = some scan' → ∀ chunk ∈ scan'.unsent, Own E client chunk)
    (hdir : ∀ f, InChunk E s.dir.values f → InChunk E s'.dir.values f)
    (hsending : ∀ names name chunk left, s'.flushing = some ⟨names, some (name, chunk, left)⟩ →
      s'.dir.get? name = some chunk)
    (hqueued : ∀ chunk ∈ s'.dir.values, Own E client chunk) (hnames : ScannerSync.Queue s'.dir) :
    Inv E scanner client s' := by
  refine ⟨fun f hf => ?_, hsending, fun task' scan' hscan' => ?_, hqueued, hnames, hgrows.tracks⟩
  · refine (hi.kept f (hbegun ▸ hf)).step (fun hheld => ?_) (fun hq => .inr (.inl (hdir f hq))) hanswered hgrows
    rcases hheld.update (hold f) with hheld | hkept
    · exact .inl (hs' ▸ hheld)
    · exact hkept
  · rw [hs'] at hscan'
    by_cases heq : task' = task
    · subst heq
      rw [Function.update_self] at hscan'
      exact hown scan' hscan'
    · rw [Function.update_of_ne heq] at hscan'
      exact hi.unsent task' scan' hscan'

theorem inv_walk (hsize : 0 < client.chunkSize) {task : ℕ} {now : ℕ → String}
    (h : step E scanner client s (.walk task now) = some s') : Inv E scanner client s' := by
  rw [step] at h
  split at h
  · cases h
  rename_i scan hscan
  split_ifs at h with hunsent hdone
  · -- the scan is over
    cases h
    refine inv_setScan hi rfl rfl (List.Subset.refl _) (.refl hi.tracks) (fun f scan' hscan' hholds => ?_)
      (fun _ hnone => by cases hnone) (fun _ hq => hq) hi.sending hi.queued hi.names
    obtain rfl := Option.some.inj (hscan.symm.trans hscan')
    rcases hholds with ⟨-, hmem⟩ | ⟨chunk, hchunk, -⟩
    · rw [hdone.1, hdone.2] at hmem
      exact absurd hmem List.not_mem_nil
    · rw [not_not.1 hunsent] at hchunk
      exact absurd hchunk List.not_mem_nil
  · obtain ⟨new, hnew, h⟩ := Option.map_eq_some_iff.1 h
    cases h
    refine inv_setScan hi rfl rfl (List.Subset.refl _) (.refl hi.tracks) (fun f scan' hscan' hholds => ?_)
      (fun scan' hscan' => ?_) (fun _ hq => hq) hi.sending hi.queued hi.names
    · obtain rfl := Option.some.inj (hscan.symm.trans hscan')
      exact .inl ⟨new, rfl, (Scan.goOn_spec hsize (not_not.1 hunsent) hnew).1 f hholds⟩
    · obtain rfl := Option.some.inj hscan'
      exact (Scan.goOn_spec hsize (not_not.1 hunsent) hnew).2

/-- What an attempt to send an own chunk comes to. -/
theorem attempt_spec {chunk : DeltaChunk} (hown : Own E client chunk) {reply : Reply} {left left' : ℕ}
    {answer : Option SyncResponse} {server : Dedup.State}
    (hattempt : attempt E scanner chunk reply left s.server = (answer, left', server))
    (hfiles : ∀ O, reply = .delivered O true → O.filesAccepted = true) :
    Grows s.server.graph server.graph ∧ (answer ≠ none → ∀ f : Found, f.node E ∈ chunk.nodes →
      f.record.isDir = false → Stored E scanner client server.graph f) := by
  rcases @attempt_cases E scanner chunk reply left s.server with
    ⟨hnone, hserver⟩ | ⟨O, answered, hreply, hserver, hok⟩ <;> rw [hattempt] at *
  · obtain rfl : server = s.server := hserver
    exact ⟨.refl hi.tracks, fun hne => absurd hnone hne⟩
  · obtain rfl : server = _ := hserver
    refine ⟨grows_run hi.tracks _, fun hne f hnode hdir => ?_⟩
    obtain ⟨r, rfl⟩ := Option.ne_none_iff_exists'.1 hne
    obtain ⟨hcame, hgot⟩ := hok r rfl
    exact stored_of_ok hown hi.tracks (hfiles O (hcame ▸ hreply)) hgot hnode hdir

theorem inv_post {task : ℕ} {reply : Reply} (hok : Undisturbed s (.post task reply))
    (h : step E scanner client s (.post task reply) = some s') : Inv E scanner client s' := by
  have hfiles : ∀ O, reply = .delivered O true → O.filesAccepted = true := by
    rintro O rfl
    exact hok
  rw [step] at h
  split at h
  · cases h
  rename_i scan hscan
  split at h
  swap
  · cases h
  rename_i chunk rest left hunsent hleft
  have hchunks := hi.unsent task scan hscan
  rw [hunsent] at hchunks
  split at h
  · rename_i r left' server hattempt
    obtain ⟨hgrows, hstored⟩ := attempt_spec hi (hchunks chunk List.mem_cons_self) hattempt hfiles
    cases h
    refine inv_setScan hi rfl rfl (List.subset_append_left _ _) hgrows (fun f scan' hscan' hholds => ?_)
      (fun scan' hscan' => ?_) (fun _ hq => hq) hi.sending hi.queued hi.names
    · obtain rfl := Option.some.inj (hscan.symm.trans hscan')
      rcases holds_rest hunsent hholds with hholds | hnode
      · exact .inl ⟨_, rfl, hholds⟩
      · exact .inr (.inr (.inr ⟨⟨chunk, List.mem_append_right _ List.mem_cons_self, hnode⟩,
          hstored (Option.some_ne_none r) f hnode⟩))
    · obtain rfl := Option.some.inj hscan'
      exact fun chunk' hchunk' => hchunks chunk' (List.mem_cons_of_mem _ hchunk')
  · rename_i left' server hattempt
    obtain ⟨hgrows, -⟩ := attempt_spec hi (hchunks chunk List.mem_cons_self) hattempt hfiles
    cases h
    refine inv_setScan hi rfl rfl (List.Subset.refl _) hgrows (fun f scan' hscan' hholds => ?_)
      (fun scan' hscan' => ?_) (fun _ hq => hq) hi.sending hi.queued hi.names
    · obtain rfl := Option.some.inj (hscan.symm.trans hscan')
      exact .inl ⟨_, rfl, hholds⟩
    · obtain rfl := Option.some.inj hscan'
      exact hi.unsent task scan hscan

/-- A chunk that is written beside the others. -/
theorem inv_enqueue {task : ℕ} {time : ℤ} (hok : Undisturbed s (.enqueue task time))
    (h : step E scanner client s (.enqueue task time) = some s') : Inv E scanner client s' := by
  rw [step] at h
  split at h
  · cases h
  rename_i scan hscan
  split at h
  swap
  · cases h
  rename_i chunk rest hunsent hleft
  have hfresh : fileName chunk time ∉ s.dir.keys := hok scan hscan chunk (by rw [hunsent]; rfl)
  have hchunks := hi.unsent task scan hscan
  rw [hunsent] at hchunks
  have hkeep : ∀ name c, s.dir.get? name = some c → (enqueueChunk s.dir (chunk, time)).get? name = some c := by
    intro name c hget
    have hne : name ≠ fileName chunk time := fun heq =>
      hfresh (heq ▸ List.mem_map_of_mem (PyDict.mem_of_get? hget))
    exact (PyDict.get?_set_of_ne hne).trans hget
  cases h
  refine inv_setScan hi rfl rfl (List.Subset.refl _) (.refl hi.tracks) (fun f scan' hscan' hholds => ?_)
    (fun scan' hscan' => ?_) (fun f hq => ?_) (fun names name c left hflushing => ?_) (fun c hc => ?_) ?_
  · obtain rfl := Option.some.inj (hscan.symm.trans hscan')
    rcases holds_rest hunsent hholds with hholds | hnode
    · exact .inl ⟨_, rfl, hholds⟩
    · exact .inr (.inr (.inl ⟨chunk, List.mem_map_of_mem (PyDict.mem_set_self s.dir _ chunk), hnode⟩))
  · obtain rfl := Option.some.inj hscan'
    exact fun chunk' hchunk' => hchunks chunk' (List.mem_cons_of_mem _ hchunk')
  · obtain ⟨c, hc, hnode⟩ := hq
    obtain ⟨e, he, rfl⟩ := List.mem_map.1 hc
    exact ⟨e.2, List.mem_map_of_mem (PyDict.mem_of_get? (hkeep e.1 e.2 (PyDict.get?_of_mem he))), hnode⟩
  · exact hkeep name c (hi.sending names name c left hflushing)
  · rcases PyDict.mem_values_set hc with rfl | hc
    · exact hchunks _ List.mem_cons_self
    · exact hi.queued c hc
  · exact ScannerSync.queue_foldl_enqueueChunk [(chunk, time)] hi.names

/-- Only `flush_queue` goes on. -/
theorem inv_setFlushing {fl : Option Flushing}
    (hsending : ∀ names name chunk left, fl = some ⟨names, some (name, chunk, left)⟩ → s.dir.get? name = some chunk) :
    Inv E scanner client { s with flushing := fl } :=
  ⟨fun f hf => (hi.kept f hf).step .inl (fun hq => .inr (.inl hq)) (List.Subset.refl _) (.refl hi.tracks), hsending,
    hi.unsent, hi.queued, hi.names, hi.tracks⟩

theorem inv_read (h : step E scanner client s .read = some s') : Inv E scanner client s' := by
  rw [step] at h
  split at h
  · cases h
    exact inv_setFlushing hi fun _ _ _ _ hnone => by cases hnone
  · rename_i name names hflushing
    cases h
    refine inv_setFlushing hi fun names' name' chunk left heq => ?_
    obtain ⟨-, hsome⟩ := Flushing.mk.inj (Option.some.inj heq)
    obtain ⟨c, hget, heq⟩ := Option.map_eq_some_iff.1 hsome
    obtain ⟨hname, heq⟩ := Prod.mk.inj heq
    rw [← hname, hget, (Prod.mk.inj heq).1]
  · cases h

theorem inv_server {srv : Dedup.State} (hgrows : Grows s.server.graph srv.graph) :
    Inv E scanner client { s with server := srv } :=
  ⟨fun f hf => (hi.kept f hf).step .inl (fun hq => .inr (.inl hq)) (List.Subset.refl _) hgrows, hi.sending, hi.unsent,
    hi.queued, hi.names, hgrows.tracks⟩

/-- The file of a chunk that was answered is removed. -/
theorem inv_erase {names : List (List Char)} {name : List Char} {chunk : DeltaChunk} (hget : s.dir.get? name = some chunk)
    (hstored : ∀ f : Found, f.node E ∈ chunk.nodes → f.record.isDir = false →
      Stored E scanner client s.server.graph f) :
    Inv E scanner client
      { s with dir := s.dir.erase name, flushing := some ⟨names, none⟩, answered := s.answered ++ [chunk] } := by
  refine ⟨fun f hf => (hi.kept f hf).step .inl (fun hq => ?_) (List.subset_append_left _ _) (.refl hi.tracks),
    (fun _ _ _ _ hnone => by cases hnone), hi.unsent, fun c hc => hi.queued c (PyDict.mem_values_erase hc), fun e he => ?_,
    hi.tracks⟩
  · obtain ⟨c, hc, hnode⟩ := hq
    obtain ⟨e, he, rfl⟩ := List.mem_map.1 hc
    by_cases heq : e.1 = name
    · have hsame : e.2 = chunk := Option.some.inj ((PyDict.get?_of_mem he).symm.trans (heq ▸ hget))
      rw [hsame] at hnode
      exact .inr (.inr ⟨⟨chunk, List.mem_append_right _ List.mem_cons_self, hnode⟩, hstored f hnode⟩)
    · refine .inr (.inl ⟨e.2, List.mem_map_of_mem (PyDict.mem_of_get? (k := e.1) ?_), hnode⟩)
      rw [PyDict.get?_erase, if_neg heq]
      exact PyDict.get?_of_mem he
  · exact hi.names e (List.mem_of_mem_filter he)

theorem inv_postQueued {reply : Reply} (hok : Undisturbed s (.postQueued reply))
    (h : step E scanner client s (.postQueued reply) = some s') : Inv E scanner client s' := by
  have hfiles : ∀ O, reply = .delivered O true → O.filesAccepted = true := by
    rintro O rfl
    exact hok
  rw [step] at h
  split at h
  swap
  · cases h
  rename_i names name chunk left hflushing
  have hget := hi.sending names name chunk (left + 1) hflushing
  have hown : Own E client chunk := hi.queued chunk (List.mem_map_of_mem (PyDict.mem_of_get? hget))
  split at h <;> rename_i hattempt <;> obtain ⟨hgrows, hstored⟩ := attempt_spec hi hown hattempt hfiles <;> cases h
  · exact inv_erase (inv_server hi hgrows) hget (hstored (Option.some_ne_none _))
  · exact inv_setFlushing (inv_server hi hgrows) fun _ _ _ _ hnone => by cases hnone
  · refine inv_setFlushing (inv_server hi hgrows) fun names' name' chunk' left' heq => ?_
    cases heq
    exact hget

theorem inv_restart (hok : Undisturbed s .restart) (h : step E scanner client s .restart = some s') :
    Inv E scanner client s' := by
  cases h
  refine ⟨fun f hf => (hi.kept f hf).step (fun hheld => ?_) (fun hq => .inr (.inl hq)) (List.Subset.refl _)
    (.refl hi.tracks), (fun _ _ _ _ hnone => by cases hnone), (fun _ _ hnone => by cases hnone), hi.queued, hi.names,
    hi.tracks⟩
  obtain ⟨task, scan, hscan, -⟩ := hheld
  rw [hok task] at hscan
  cases hscan

theorem inv_step (hsize : 0 < client.chunkSize) {a : Step} (hok : Undisturbed s a)
    (h : step E scanner client s a = some s') : Inv E scanner client s' := by
  cases a with
  | begin task connectorID jobID records => exact inv_begin hi h
  | walk task now => exact inv_walk hi hsize h
  | post task reply => exact inv_post hi hok h
  | enqueue task time => exact inv_enqueue hi hok h
  | flush =>
    rw [step] at h
    split at h
    · cases h
    · cases h
      exact inv_setFlushing hi fun _ _ _ _ hnone => by cases hnone
  | read => exact inv_read hi h
  | postQueued reply => exact inv_postQueued hi hok h
  | restart => exact inv_restart hi hok h
  | delivery d =>
    cases h
    exact inv_server hi (grows_run hi.tracks d)

end Steps

theorem inv_start : Inv E scanner client start where
  kept f hf := absurd hf List.not_mem_nil
  sending _ _ _ _ h := by cases h
  unsent _ _ h := by cases h
  queued chunk hchunk := absurd hchunk List.not_mem_nil
  names := ScannerSync.queue_empty
  tracks := ⟨[], Dedup.tracks_empty⟩

/-- The databases take everything. -/
structure Works (O : Outcome) : Prop where
  tenantFound : O.tenantFound = true
  backendKnown : O.backendKnown = true
  filesAccepted : O.filesAccepted = true
  connects : O.connects = true

/-- A `flush_queue` over some files each of which is answered. -/
def resend (O : Outcome) (names : List (List Char)) : List Step :=
  names.flatMap fun _ => [.read, .postQueued (.delivered O true)]

def drain (O : Outcome) (names : List (List Char)) : List Step := .flush :: (resend O names ++ [.read])

section Flush

variable {O : Outcome} (htenant : scanner.tenantID = client.tenantID) (hO : Works O)
include htenant hO

theorem attempt_of_works (hown : Own E client chunk) (left : ℕ) (srv : Dedup.State) :
    ∃ r srv', attempt E scanner chunk (.delivered O true) left srv = (some r, left, srv') := by
  obtain ⟨files, others, hsplit, -, -⟩ := splitNodes_own hown.nodes
  rcases Dedup.syncDelta_cases E scanner chunk O srv with ⟨-, hrefused⟩ | ⟨_, _, _, _, hr⟩
  · rcases hrefused with hnone | hno
    · rw [hsplit] at hnone
      cases hnone
    · exact absurd ⟨htenant.trans hown.tenant.symm, hO.tenantFound, hO.backendKnown⟩ hno
  · rcases hr with ⟨hdown, -⟩ | ⟨-, r, lastHealth, hr, -⟩
    · rw [hO.connects] at hdown
      cases hdown
    · unfold attempt
      dsimp only
      rw [hr]
      exact ⟨_, _, rfl⟩

/-- One file of a flush. -/
theorem resend_one (hi : Inv E scanner client s) {name : List Char} {names : List (List Char)}
    (hflushing : s.flushing = some ⟨name :: names, none⟩) (hname : name ∈ s.dir.keys) :
    ∃ s', Runs.run (step E scanner client) s [.read, .postQueued (.delivered O true)] = some s' ∧
      s'.flushing = some ⟨names, none⟩ ∧ s'.dir = s.dir.erase name ∧ s'.scans = s.scans ∧ s'.begun = s.begun := by
  obtain ⟨e, he, hkey⟩ := List.mem_map.1 hname
  have hget : s.dir.get? name = some e.2 := hkey ▸ PyDict.get?_of_mem he
  have hread : step E scanner client s .read = some { s with flushing := some ⟨names, some (name, e.2, 3)⟩ } := by
    rw [step, hflushing]
    dsimp only
    rw [hget]
    rfl
  obtain ⟨r, srv, hattempt⟩ := attempt_of_works htenant hO (hi.queued e.2 (List.mem_map_of_mem he)) 2 s.server
  have hpost : step E scanner client { s with flushing := some ⟨names, some (name, e.2, 3)⟩ }
      (.postQueued (.delivered O true)) = some { s with
        server := srv
        dir := s.dir.erase name
        flushing := some ⟨names, none⟩
        answered := s.answered ++ [e.2] } := by
    rw [step]
    dsimp only
    rw [hattempt]
  exact ⟨_, Runs.run_cons.2 ⟨_, hread, Runs.run_cons.2 ⟨_, hpost, rfl⟩⟩, rfl, rfl, rfl, rfl⟩

theorem resend_all (hsize : 0 < client.chunkSize) {names : List (List Char)} (hi : Inv E scanner client s)
    (hflushing : s.flushing = some ⟨names, none⟩) (hnames : ∀ name ∈ names, name ∈ s.dir.keys) (hnodup : names.Nodup) :
    ∃ s', Runs.run (step E scanner client) s (resend O names) = some s' ∧ Inv E scanner client s' ∧
      s'.flushing = some ⟨[], none⟩ ∧ s'.dir.entries = s.dir.entries.filter (fun e => e.1 ∉ names) ∧
      s'.scans = s.scans ∧ s'.begun = s.begun := by
  induction names generalizing s with
  | nil =>
    refine ⟨s, rfl, hi, hflushing, ?_, rfl, rfl⟩
    exact (List.filter_eq_self.2 fun _ _ => decide_eq_true List.not_mem_nil).symm
  | cons name names ih =>
    obtain ⟨hname, hrest⟩ := List.forall_mem_cons.1 hnames
    obtain ⟨hnot, hnodup⟩ := List.nodup_cons.1 hnodup
    obtain ⟨s₁, hrun, hflushing₁, hdir₁, hscans₁, hbegun₁⟩ := resend_one htenant hO hi hflushing hname
    have hi₁ : Inv E scanner client s₁ := by
      obtain ⟨t, ht, hrun'⟩ := Runs.run_cons.1 hrun
      obtain ⟨t', ht', hrun'⟩ := Runs.run_cons.1 hrun'
      cases hrun'
      have hread : Undisturbed s .read := trivial
      have hpost : Undisturbed t (.postQueued (.delivered O true)) := hO.filesAccepted
      exact inv_step (inv_step hi hsize hread ht) hsize hpost ht'
    have hnames₁ : ∀ name' ∈ names, name' ∈ s₁.dir.keys := by
      intro name' hname'
      obtain ⟨e, he, rfl⟩ := List.mem_map.1 (hrest name' hname')
      have hne : e.1 ≠ name := fun heq => hnot (heq ▸ hname')
      rw [hdir₁]
      refine List.mem_map_of_mem (PyDict.mem_of_get? (k := e.1) (v := e.2) ?_)
      rw [PyDict.get?_erase, if_neg hne]
      exact PyDict.get?_of_mem he
    obtain ⟨s', hrun', hi', hflushing', hdir', hscans', hbegun'⟩ := ih hi₁ hflushing₁ hnames₁ hnodup
    refine ⟨s', ?_, hi', hflushing', ?_, hscans'.trans hscans₁, hbegun'.trans hbegun₁⟩
    · rw [resend, List.flatMap_cons, Runs.run_append, hrun]
      exact hrun'
    · rw [hdir', hdir₁]
      show (s.dir.entries.filter _).filter _ = _
      rw [List.filter_filter]
      refine List.filter_congr fun e _ => ?_
      by_cases heq : e.1 = name <;> simp [heq]

end Flush

/-! ### An outage -/

def notes : FileRecord := ⟨"/a/notes.txt", "notes.txt", 12, "1700000000.5", none, ".txt", false, "", ""⟩

def agent : SyncClient := ⟨"agent", "t", 500⟩

/-- The platform is not reached while a scan of one file sends its chunk. -/
def outage : List Step :=
  [.begin 0 "c" "job" [notes], .walk 0 fun _ => "", .walk 0 fun _ => "", .post 0 .lost, .post 0 .lost, .post 0 .lost,
    .post 0 .lost, .post 0 .lost, .enqueue 0 1700000001, .walk 0 fun _ => ""]

theorem outage_undisturbed : Runs.Along (step Dedup.plainEnv ⟨"agent", "t"⟩ agent) Undisturbed start outage :=
  (Runs.along_cons_of_step rfl).2 ⟨trivial, (Runs.along_cons_of_step rfl).2 ⟨trivial,
    (Runs.along_cons_of_step rfl).2 ⟨trivial, (Runs.along_cons_of_step rfl).2 ⟨trivial,
    (Runs.along_cons_of_step rfl).2 ⟨trivial, (Runs.along_cons_of_step rfl).2 ⟨trivial,
    (Runs.along_cons_of_step rfl).2 ⟨trivial, (Runs.along_cons_of_step rfl).2 ⟨trivial,
    (Runs.along_cons_of_step rfl).2 ⟨fun _ _ _ _ => List.not_mem_nil,
    (Runs.along_cons_of_step rfl).2 ⟨trivial, trivial⟩⟩⟩⟩⟩⟩⟩⟩⟩⟩

end Dgraphai.ScannerRuns
