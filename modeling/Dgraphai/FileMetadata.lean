import Dgraphai.StoredFiles

/-!
# What is stored of a file record

Two encoders make the nodes of a chunk: the agent's `toDeltaChunk` and `to_node` of the connector SDK. Both send all
they know of a file as `props`; the File statement stores the row that `bulk_upsert_query` makes of them, which copies
nine properties by name. A record is stored whole exactly if the server has the others of its own accord
(`metadata_survives_iff`), so never one with a path (`not_survives_of_path`).
-/

namespace Dgraphai.FileMetadata

open AgentSync (FileInfo createdProps fileNode)
open Dedup (Env Scanner Delivery DeltaChunk Outcome Row State SyncResponse)
open PropertyGraph (Graph Props)
open StoredFiles (fileProps)

/-! ### The encoders -/

/-- `ConnectorFileRecord` of `connectors/sdk.py`. `modified` is the text of a float. -/
structure ConnectorFileRecord where
  path : String
  name : String
  sizeBytes : Int
  modified : String
  isDir : Bool
  sha256 : Option String
  suffix : String
  host : String
  share : String
  bucket : String
  key : String
  etag : String
  extra : Json.Fields
  deriving DecidableEq, Repr

namespace ConnectorFileRecord

/-- `stable_id`. -/
def stableID (E : Env) (r : ConnectorFileRecord) (connectorID : String) : String :=
  let key := connectorID ++ ":" ++ r.host ++ ":" ++ r.share ++ ":" ++ r.bucket ++ ":" ++ r.path
  String.ofList ((E.hexdigest key).toList.take 24)

/-- `self.sha256 or self.etag or ""`. -/
def contentHash (r : ConnectorFileRecord) : String :=
  match r.sha256 with
  | some sha256 => if sha256 = "" then r.etag else sha256
  | none => r.etag

def props (r : ConnectorFileRecord) (connectorID : String) : Json.Fields :=
  [("path", .str r.path), ("name", .str r.name), ("size_bytes", .num (if r.isDir then 0 else r.sizeBytes)),
    ("modified", .real r.modified), ("sha256", .str r.contentHash), ("extension", .str r.suffix), ("host", .str r.host),
    ("share", .str r.share), ("bucket", .str r.bucket), ("connector_id", .str connectorID)] ++ r.extra

/-- `to_node`. -/
def toNode (E : Env) (r : ConnectorFileRecord) (connectorID : String) : Json.Fields :=
  [("op", .str "upsert"), ("type", .str (if r.isDir then "Directory" else "File")),
    ("id", .str (r.stableID E connectorID)), ("props", .obj (r.props connectorID))]

end ConnectorFileRecord

/-- What `Enrich` found in a file. -/
structure EnrichResult where
  containsSecrets : Bool
  secretTypes : List String
  piiDetected : Bool
  piiTypes : List String
  sensitivityLevel : String
  deriving DecidableEq, Repr

/-- `ApplyToFileInfo`. -/
def applyToFileInfo (info : FileInfo) (result : EnrichResult) : FileInfo :=
  let secrets := if result.containsSecrets then
    [("contains_secrets", Json.bool true), ("secret_types", .str (",".intercalate result.secretTypes))] else []
  let pii := if result.piiDetected then
    [("pii_detected", Json.bool true), ("pii_types", .str (",".intercalate result.piiTypes)),
      ("sensitivity_level", .str result.sensitivityLevel)] else []
  { info with attrs := info.attrs ++ secrets ++ pii }

/-- A record of either kind. -/
inductive Record where
  | agent (f : FileInfo)
  | connector (connectorID : String) (r : ConnectorFileRecord)
  deriving DecidableEq, Repr

namespace Record

def isFile : Record → Bool
  | agent _ => true
  | connector _ r => !r.isDir

/-- The props of the agent's `fileNode`. -/
def agentProps (tenantID : String) (f : FileInfo) : Json.Fields :=
  [("path", .str f.path), ("name", .str f.name), ("size", .num f.size), ("modified_at", .str f.modifiedAt),
    ("extension", .str f.extension), ("sha256", .str f.sha256), ("connector_id", .str f.connectorID),
    ("tenant_id", .str tenantID), ("mime_type", .str f.mimeType), ("file_category", .str f.fileCategory),
    ("protocol", .str f.protocol), ("host", .str f.host)] ++ f.attrs

def props (tenantID : String) : Record → Json.Fields
  | agent f => agentProps tenantID f
  | connector connectorID r => r.props connectorID

def node (E : Env) (tenantID : String) : Record → Json.Fields
  | agent f => fileNode tenantID f
  | connector connectorID r => r.toNode E connectorID

end Record

/-- A chunk of records, and what the databases answer. -/
structure Upload where
  scanner : Scanner
  /-- The chunk but for its nodes. -/
  chunk : DeltaChunk
  records : List Record
  outcome : Outcome

variable (E : Env)

def Upload.delivery (u : Upload) : Delivery where
  scanner := u.scanner
  chunk := { u.chunk with nodes := u.records.map (Record.node E u.chunk.tenantID) }
  outcome := u.outcome

/-- `sync_delta` answers, and counts no error. -/
def Upload.Accepted (u : Upload) (s : State) : Prop :=
  ∃ response : SyncResponse, (Dedup.syncDelta E u.scanner (u.delivery E).chunk u.outcome s).1 = .ok response ∧
    response.tally.errors = 0

/-- Each property of a record has its value on a node; null stands for no property. -/
def Carries (n : Props) (props : Json.Fields) : Prop := ∀ p ∈ props, n p.1 = Props.ofMap props p.1

/-- The File nodes that the chunk adds carry the records, one after another. -/
def Upload.Survives (u : Upload) (s : State) : Prop :=
  ∃ new, fileProps ((u.delivery E).run E s).graph = fileProps s.graph ++ new ∧
    List.Forall₂ Carries new ((u.records.filter (·.isFile)).map (Record.props u.chunk.tenantID))

/-- What a row copies under the same name. -/
def copiedKeys : List String :=
  ["sha256", "name", "extension", "file_category", "mime_type", "size", "modified_at", "protocol", "connector_id"]

/-- What the server sets by itself. -/
def serverEntries (props : Json.Fields) (tenantID agentID datetime : String) : Json.Fields :=
  [("node_id", ((Dedup.makeNodeID E props).map .str).getD .null), ("canon_path", .str (Dedup.makeCanonicalPath E props)),
    ("tenant_id", .str tenantID), ("paths", .arr [.str (Dedup.makeCanonicalPath E props)]),
    ("agent_ids", .arr [.str agentID]), ("created_at", .str datetime)]

/-- Each property is copied, or the server has the same value for it, or it is null. -/
def Storable (tenantID agentID datetime : String) (props : Json.Fields) : Prop :=
  ∀ p ∈ props, p.1 ∈ copiedKeys ∨
    Json.getD props p.1 .null = Json.getD (serverEntries E props tenantID agentID datetime) p.1 .null

instance (tenantID agentID datetime : String) (props : Json.Fields) :
    Decidable (Storable E tenantID agentID datetime props) :=
  inferInstanceAs (Decidable (∀ p ∈ props, _ ∨ _))

/-- The agent's chunk is an upload of its files. -/
theorem delivery_toDeltaChunk (c : AgentSync.Client) (delta : AgentSync.GraphDelta) (isFinal : Bool) (scanner : Scanner)
    (O : Outcome) : (Upload.delivery E ⟨scanner, AgentSync.toDeltaChunk c delta isFinal, delta.files.map .agent, O⟩).chunk =
      AgentSync.toDeltaChunk c delta isFinal := by
  simp only [Upload.delivery, List.map_map]
  rfl

/-! ### One row -/

variable {E} {tenantID agentID datetime : String} {props : Json.Fields} {row : Row}

theorem createdProps_eq : createdProps row tenantID agentID datetime = Props.ofMap (row.toMap ++ [("tenant_id", .str tenantID)]
    ++ [("paths", .arr [.str row.canonPath])] ++ [("agent_ids", .arr [.str agentID])] ++ [("created_at", .str datetime)]) := by
  rw [createdProps, Props.set_ofMap, Props.set_ofMap, Props.set_ofMap, Props.set_ofMap]

theorem createdProps_copied (h : Dedup.makeRow E props = some row) {k : String} {v : Json} (hk : k ∈ copiedKeys)
    (hv : Json.field? props k = some v) : createdProps row tenantID agentID datetime k = Props.ofMap props k := by
  obtain ⟨nodeID, -, hrow⟩ := Option.bind_eq_some_iff.1 h
  cases hrow
  have hget : ∀ default, Json.getD props k default = v := fun default => by rw [Json.getD, hv, Option.getD_some]
  rw [createdProps_eq, Props.ofMap, Props.ofMap, hv]
  refine congrArg _ ?_
  simp only [copiedKeys, List.mem_cons, List.not_mem_nil, or_false] at hk
  rcases hk with rfl | rfl | rfl | rfl | rfl | rfl | rfl | rfl | rfl <;>
    simp [Row.toMap, Json.field?_cons, Json.field?_nil, hget]

theorem createdProps_other (h : Dedup.makeRow E props = some row) {k : String} (hk : k ∉ copiedKeys) :
    createdProps row tenantID agentID datetime k = Props.ofMap (serverEntries E props tenantID agentID datetime) k := by
  obtain ⟨nodeID, hid, hrow⟩ := Option.bind_eq_some_iff.1 h
  cases hrow
  rw [createdProps_eq, Props.ofMap, Props.ofMap, serverEntries, hid]
  refine congrArg _ ?_
  simp only [copiedKeys, List.mem_cons, List.not_mem_nil, or_false, not_or, eq_comm (a := k)] at hk
  simp only [Row.toMap, List.cons_append, List.nil_append, Json.field?_cons, Json.field?_nil, hk, if_false, Option.or_none,
    Option.none_or]
  rfl

/-- Two values that are null or absent are the same property. -/
theorem filter_eq_iff {o o' : Option Json} :
    o.filter (· ≠ .null) = o'.filter (· ≠ .null) ↔ o'.getD .null = o.getD .null := by
  have hget : ∀ o : Option Json, (o.filter (· ≠ .null)).getD .null = o.getD .null := by
    intro o
    cases o with
    | none => rfl
    | some v =>
      by_cases hv : v = .null
      · rw [hv]
        rfl
      · rw [Option.filter_some, if_pos (decide_eq_true hv)]
  have hnone : ∀ o : Option Json, o.filter (· ≠ .null) = (some (o.getD .null)).filter (· ≠ .null) := by
    intro o
    cases o <;> rfl
  constructor
  · intro h
    rw [← hget o', ← h, hget o]
  · intro h
    rw [hnone o, hnone o', h]

theorem exists_field? {p : String × Json} (h : p ∈ props) : ∃ v, Json.field? props p.1 = some v := by
  have hsome : (props.reverse.find? (·.1 = p.1)).isSome :=
    List.find?_isSome.2 ⟨p, List.mem_reverse.2 h, decide_eq_true rfl⟩
  obtain ⟨q, hq⟩ := Option.isSome_iff_exists.1 hsome
  exact ⟨q.2, by rw [Json.field?, hq, Option.map_some]⟩

theorem exists_entry {k : String} {v : Json} (h : Json.field? props k = some v) : ∃ p ∈ props, p.1 = k := by
  obtain ⟨p, hp, -⟩ := Option.map_eq_some_iff.1 h
  have hk := List.find?_some hp
  exact ⟨p, List.mem_reverse.1 (List.mem_of_find?_eq_some hp), of_decide_eq_true hk⟩

/-- What the File statement stores of a record. -/
theorem carries_createdProps_iff
    (h : (Json.getD props "props" (.obj props)).asDict.bind (Dedup.makeRow E) = some row) :
    Carries (createdProps row tenantID agentID datetime) props ↔ Storable E tenantID agentID datetime props := by
  obtain ⟨inner, hdict, hrow⟩ := Option.bind_eq_some_iff.1 h
  cases hinner : Json.field? props "props" with
  | none =>
    -- the props themselves are read
    rw [Json.getD, hinner] at hdict
    obtain rfl : props = inner := Option.some.inj hdict
    refine forall₂_congr fun p hp => ?_
    obtain ⟨v, hv⟩ := exists_field? hp
    by_cases hk : p.1 ∈ copiedKeys
    · exact iff_of_true (createdProps_copied hrow hk hv) (.inl hk)
    · rw [createdProps_other hrow hk, or_iff_right hk]
      exact filter_eq_iff
  | some v =>
    -- a property `props` is read in place of the record, and is not stored
    rw [Json.getD, hinner] at hdict
    have hv : v = .obj inner := by
      cases v <;> cases hdict
      rfl
    obtain ⟨p, hp, hkey⟩ := exists_entry hinner
    have hk : "props" ∉ copiedKeys := by decide
    refine iff_of_false (fun hcarries => ?_) fun hstorable => ?_
    · have hstored := hcarries p hp
      rw [hkey, createdProps_other hrow hk, Props.ofMap, Props.ofMap, hinner, hv] at hstored
      cases hstored
    · rcases hstorable p hp with hcopied | hserver
      · exact hk (hkey ▸ hcopied)
      · rw [hkey, Json.getD, hinner, hv] at hserver
        cases hserver

/-! ### One chunk -/

variable {u : Upload} {s : State} {log : List (String × String)}

theorem isFileNode_node (E : Env) (tenantID : String) (r : Record) :
    Dedup.isFileNode E (r.node E tenantID) = some r.isFile := by
  cases r with
  | agent f => rfl
  | connector connectorID r =>
    cases hdir : r.isDir <;>
      simp [Record.node, Record.isFile, ConnectorFileRecord.toNode, Dedup.isFileNode, Json.getD, Json.field?, hdir, Json.truthy]

theorem splitNodes_records (E : Env) (tenantID : String) (records : List Record) :
    Dedup.splitNodes E (records.map (Record.node E tenantID)) =
      some ((records.filter (·.isFile)).map (Record.node E tenantID),
        (records.filter fun r => !r.isFile).map (Record.node E tenantID)) := by
  induction records with
  | nil => rfl
  | cons r records ih =>
    rw [List.map_cons, Dedup.splitNodes, isFileNode_node, ih, List.filter_cons, List.filter_cons]
    cases r.isFile <;> rfl

theorem fileRow_node (r : Record) : AgentSync.fileRow E (r.node E tenantID) =
    (Json.getD (r.props tenantID) "props" (.obj (r.props tenantID))).asDict.bind (Dedup.makeRow E) := by
  cases r <;> rfl

/-- The File statement counts no error where it has nothing to do, or goes through. -/
theorem fileRows_of_errors_eq_zero {scanner : Scanner} {chunk : DeltaChunk} {O : Outcome} {files : List Json.Fields}
    {g : Graph} (h : (Dedup.syncFiles E scanner chunk O files g).2.errors = 0) :
    ∃ rows, Dedup.fileRows E files = some rows ∧
      (if O.filesAccepted = true then (Dedup.fileRows E files).getD [] else []) = rows := by
  by_cases hempty : files = []
  · refine ⟨[], by rw [hempty]; rfl, ?_⟩
    rw [hempty]
    exact ite_self _
  · rw [Dedup.syncFiles, if_neg hempty] at h
    have hlength : files.length ≠ 0 := fun h => hempty (List.eq_nil_of_length_eq_zero h)
    cases hrows : Dedup.fileRows E files with
    | none =>
      rw [hrows] at h
      exact absurd h hlength
    | some rows =>
      cases haccepted : O.filesAccepted with
      | false =>
        rw [hrows, haccepted] at h
        exact absurd h hlength
      | true => exact ⟨rows, rfl, rfl⟩

/-- An accepted chunk has its rows applied. -/
theorem Upload.Accepted.appliedRows (h : u.Accepted E s) :
    ∃ rows, Dedup.fileRows E ((u.records.filter (·.isFile)).map (Record.node E u.chunk.tenantID)) = some rows ∧
      (u.delivery E).appliedRows E = rows := by
  obtain ⟨response, hok, herrors⟩ := h
  rcases Dedup.syncDelta_cases E u.scanner (u.delivery E).chunk u.outcome s with
    ⟨⟨e, hr⟩, -⟩ | ⟨files, others, hsplit, ⟨htenant, hfound, hknown⟩, ⟨-, hr⟩ | ⟨-, answer, lastHealth, hr, htally⟩⟩
  · rw [hr] at hok
    cases hok
  · rw [hr] at hok
    cases hok
  · rw [hr] at hok
    obtain rfl : answer = response := Except.ok.inj hok
    have hbackend : ∀ g tally, tally.errors ≤ (Dedup.syncBackend (u.delivery E).chunk u.outcome others g tally).2.errors :=
      fun g tally => (Nat.le_add_right _ _).trans (Nat.le_add_right _ _)
    have hfiles := fileRows_of_errors_eq_zero (Nat.le_zero.1 ((hbackend _ _).trans (htally ▸ herrors).le))
    have hrecords := hsplit.symm.trans (splitNodes_records E u.chunk.tenantID u.records)
    obtain ⟨rfl, -⟩ := Prod.mk.inj (Option.some.inj hrecords)
    obtain ⟨rows, hrows, happlied⟩ := hfiles
    have hd := Dedup.appliedRows_of_split (d := u.delivery E) htenant hfound hknown hsplit
    exact ⟨rows, hrows, hd.trans happlied⟩

theorem forall₂_fileRows {records : List Record} {rows : List Row}
    (h : Dedup.fileRows E (records.map (Record.node E tenantID)) = some rows) :
    List.Forall₂ (fun row r => AgentSync.fileRow E (Record.node E tenantID r) = some row) rows records := by
  rw [AgentSync.fileRows_eq_mapM] at h
  induction records generalizing rows with
  | nil =>
    obtain rfl := Option.some.inj h
    exact .nil
  | cons r records ih =>
    rw [List.map_cons, List.mapM_cons] at h
    obtain ⟨row, hrow, h⟩ := Option.bind_eq_some_iff.1 h
    obtain ⟨rest, hrest, h⟩ := Option.bind_eq_some_iff.1 h
    obtain rfl := Option.some.inj h
    exact .cons hrow (ih hrest)

theorem forall₂_iff_forall {α β : Type*} {R P : α → β → Prop} {Q : β → Prop} {l : List α} {l' : List β}
    (h : List.Forall₂ R l l') (hiff : ∀ a b, R a b → (P a b ↔ Q b)) : List.Forall₂ P l l' ↔ ∀ b ∈ l', Q b := by
  induction h with
  | nil => exact iff_of_true .nil fun _ h => absurd h List.not_mem_nil
  | cons hR _ ih => rw [List.forall₂_cons, List.forall_mem_cons, hiff _ _ hR, ih]

/-- A chunk over a graph whose File nodes come from rows. -/
theorem Upload.survives_iff_storable (hs : Dedup.Tracks s.graph log) (h : u.Accepted E s) : u.Survives E s ↔
    ∀ r ∈ u.records, r.isFile = true →
      Storable E u.chunk.tenantID u.scanner.id u.outcome.datetime (r.props u.chunk.tenantID) := by
  obtain ⟨rows, hrows, happlied⟩ := h.appliedRows
  have hrun := StoredFiles.fileProps_run (E := E) hs (u.delivery E)
  rw [happlied] at hrun
  have hone : u.Survives E s ↔ List.Forall₂ (fun row r => Carries
      (createdProps row u.chunk.tenantID u.scanner.id u.outcome.datetime) (Record.props u.chunk.tenantID r)) rows
      (u.records.filter (·.isFile)) := by
    refine Iff.trans ⟨?_, fun hcarries => ⟨_, hrun, hcarries⟩⟩
      (List.forall₂_map_left_iff.trans List.forall₂_map_right_iff)
    rintro ⟨new, hnew, hcarries⟩
    obtain rfl := List.append_cancel_left (hrun.symm.trans hnew)
    exact hcarries
  have hrecords : List.Forall₂ (fun row r => Carries (createdProps row u.chunk.tenantID u.scanner.id u.outcome.datetime)
      (Record.props u.chunk.tenantID r)) rows (u.records.filter (·.isFile)) ↔ _ :=
    forall₂_iff_forall (forall₂_fileRows hrows) fun row r hrow => by
      rw [fileRow_node] at hrow
      exact carries_createdProps_iff hrow
  rw [hone, hrecords]
  simp only [List.mem_filter, and_imp]

/-! ### Runs -/

theorem tracks_afterDeliveries (E : Env) (ds : List Delivery) :
    ∃ log, Dedup.Tracks (Dedup.afterDeliveries E ds).graph log :=
  ⟨_, (Dedup.Appends.foldl State.graph (fun _ _ d hs => Delivery.run_appends d hs) Dedup.tracks_empty ds).tracks⟩

/-- A file that has its path is never stored whole. -/
theorem not_survives_of_path (ds : List Delivery) (h : u.Accepted E (Dedup.afterDeliveries E ds)) {r : Record}
    (hr : r ∈ u.records) (hfile : r.isFile = true) (hpath : Json.getD (r.props u.chunk.tenantID) "path" .null ≠ .null) :
    ¬ u.Survives E (Dedup.afterDeliveries E ds) := by
  intro hsurvives
  obtain ⟨log, hs⟩ := tracks_afterDeliveries E ds
  have hstorable := (Upload.survives_iff_storable hs h).1 hsurvives r hr hfile
  obtain ⟨p, hp, hkey⟩ : ∃ p ∈ r.props u.chunk.tenantID, p.1 = "path" := by
    cases r <;> exact ⟨_, List.mem_cons_self, rfl⟩
  rcases hstorable p hp with hcopied | hserver
  · rw [hkey] at hcopied
    exact absurd hcopied (by decide)
  · rw [hkey] at hserver
    exact hpath hserver

/-- An accepted chunk is stored whole exactly if each property of its files is one of those a row copies, or null, or
one that the server sets to that value. -/
theorem metadata_survives_iff (E : Env) (ds : List Delivery) (u : Upload) (h : u.Accepted E (Dedup.afterDeliveries E ds)) :
    u.Survives E (Dedup.afterDeliveries E ds) ↔ ∀ r ∈ u.records, r.isFile = true →
      Storable E u.chunk.tenantID u.scanner.id u.outcome.datetime (r.props u.chunk.tenantID) := by
  obtain ⟨log, hs⟩ := tracks_afterDeliveries E ds
  exact Upload.survives_iff_storable hs h

/-! ### Two files -/

def secretsFile : FileInfo :=
  ⟨"c", "/a.env", "a.env", ".env", "", 12, "2024-01-01T00:00:00Z", "config", "text/plain", [], "nas", "local"⟩

def uploadOf (f : FileInfo) : Upload where
  scanner := ⟨"agent", "t"⟩
  chunk := Dedup.oneFile.chunk
  records := [.agent f]
  outcome := Dedup.oneFile.outcome

/-- A file whose attributes take back its path and its host. -/
theorem survives_without_path : Upload.Survives Dedup.plainEnv
    (uploadOf { secretsFile with attrs := [("path", .null), ("host", .null)] }) (Dedup.afterDeliveries Dedup.plainEnv []) :=
  (metadata_survives_iff Dedup.plainEnv [] (uploadOf { secretsFile with attrs := [("path", .null), ("host", .null)] })
    ⟨_, rfl, rfl⟩).2 (by decide +kernel)

/-- The findings of the enricher, and the path, are not stored. -/
theorem enriched_not_survives : ¬ ∀ (E : Env) (ds : List Delivery) (u : Upload),
    u.Accepted E (Dedup.afterDeliveries E ds) → u.Survives E (Dedup.afterDeliveries E ds) := by
  intro h
  have haccepted : (uploadOf (applyToFileInfo secretsFile ⟨true, ["aws_key"], false, [], "critical"⟩)).Accepted
      Dedup.plainEnv (Dedup.afterDeliveries Dedup.plainEnv []) := ⟨_, rfl, rfl⟩
  refine not_survives_of_path [] haccepted (List.mem_singleton_self _) rfl ?_ (h Dedup.plainEnv [] _ haccepted)
  decide +kernel

end Dgraphai.FileMetadata
