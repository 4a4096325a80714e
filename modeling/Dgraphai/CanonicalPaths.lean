import Dgraphai.LocalWalk
import Dgraphai.Lib.Separated

/-!
# Canonical paths, from the connector to the server

The connectors say where a file is with the fields of its `FileInfo`; `toDeltaChunk` sends the host and the path of
them, and `make_canonical_path` builds a URI from what it finds. The share of an SMB file is not sent, the bucket of an
S3 object is sent as its host, and a local file comes without the name of its machine, so the URI is the documented one
for local files of a machine named `localhost` only, and it does not tell shares, buckets and machines apart
(`canonicalPaths_iff`).
-/

namespace Dgraphai.CanonicalPaths

open Dedup (Env makeCanonicalPath)
open FileWalks (FileInfo Log S3Connector S3Object SmbConnector)
open LocalWalk (LocalConnector)

/-- Where the files of a connector are. -/
inductive Source where
  | machine (hostname : String)
  | smb (host share : String) (host_ne : host ≠ "") (share_ne : share ≠ "")
  | s3 (bucket : String) (bucket_ne : bucket ≠ "")

def Source.protocol : Source → String
  | .machine _ => "local"
  | .smb .. => "smb"
  | .s3 .. => "s3"

def Source.host : Source → String
  | .machine _ => ""
  | .smb host _ _ _ => host
  | .s3 bucket _ => bucket

def Source.share : Source → String
  | .smb _ share _ _ => share
  | _ => ""

/-- The URI of a path there, as `make_canonical_path` documents it. -/
def Source.uri (s : Source) (path : String) : String :=
  match s with
  | .machine hostname => "local://" ++ hostname ++ path
  | .smb host share _ _ => "smb://" ++ host ++ "/" ++ share ++ path
  | .s3 bucket _ => "s3://" ++ bucket ++ path

/-- The file comes from `s`: the fields a connector sets say so. -/
structure ReportedBy (s : Source) (f : FileInfo) : Prop where
  protocol : f.protocol = s.protocol
  host : f.host = s.host
  share : f.share = s.share
  path : ∃ rest, f.path = "/" ++ rest

/-- The names of the attributes the enrichers set. -/
def enricherKeys : List String :=
  ["contains_secrets", "secret_types", "pii_detected", "pii_types", "sensitivity_level", "binary_format", "entropy",
    "is_packed", "signed", "architecture"]

/-- A file on its way: `Sync` has set the connector, and an enricher may have set attributes. -/
structure SentFile where
  source : Source
  info : FileInfo
  reported : ReportedBy source info
  connectorID : String
  attrs : Json.Fields
  enriched : ∀ a ∈ attrs, a.1 ∈ enricherKeys

namespace SentFile

def fileInfo (f : SentFile) : AgentSync.FileInfo :=
  FileInfo.sent { f.info with connectorID := f.connectorID, attrs := f.attrs }

/-- The props the server finds in the node of the file. -/
def props (f : SentFile) (tenantID : String) : Json.Fields :=
  ((Json.getD (AgentSync.fileNode tenantID f.fileInfo) "props" .null).asDict).getD []

def canonicalPath (E : Env) (f : SentFile) (tenantID : String) : String := makeCanonicalPath E (f.props tenantID)

def documented (f : SentFile) : String := f.source.uri f.info.path

/-- Two files agree in protocol, host, share or bucket, and path. -/
def Same (f g : SentFile) : Prop := f.source = g.source ∧ f.info.path = g.info.path

/-- The sources whose URIs are the documented ones: a bucket named `/` would write the separator itself. -/
def Faithful (f : SentFile) : Prop :=
  match f.source with
  | .machine hostname => hostname = "localhost"
  | .smb .. => False
  | .s3 bucket _ => bucket = "/"

/-- What of two files is not told apart does not differ either. -/
def Told (f g : SentFile) : Prop :=
  match f.source, g.source with
  | .machine hostname, .machine hostname' => f.info.path = g.info.path → hostname = hostname'
  | .smb host share _ _, .smb host' share' _ _ =>
    (Separated.pieces '/' [host.toList, f.info.path.toList] = Separated.pieces '/' [host'.toList, g.info.path.toList] →
      Separated.pieceCounts '/' [host.toList, f.info.path.toList] =
        Separated.pieceCounts '/' [host'.toList, g.info.path.toList]) ∧
    (host = host' → f.info.path = g.info.path → share = share')
  | .s3 bucket _, .s3 bucket' _ => f.info.path = g.info.path → bucket = bucket'
  | _, _ => True

variable {E : Env}

def built (f : SentFile) : String :=
  match f.source with
  | .machine _ => "local://localhost" ++ f.info.path
  | .smb host _ _ _ => "smb://" ++ host ++ "/" ++ f.info.path
  | .s3 _ _ => "s3:///" ++ f.info.path

/-- The props without the attributes of an enricher. -/
def fixedProps (f : SentFile) (tenantID : String) : Json.Fields :=
  { f with attrs := [], enriched := fun _ h => absurd h List.not_mem_nil : SentFile }.props tenantID

/-- The attributes of the enrichers overwrite none of the fields a URI is built of. -/
theorem getD_props (f : SentFile) (tenantID : String) {k : String} (hk : k ∉ enricherKeys) (default : Json) :
    Json.getD (f.props tenantID) k default = Json.getD (f.fixedProps tenantID) k default := by
  have hprops : f.props tenantID = f.fixedProps tenantID ++ f.attrs := rfl
  have hne : ∀ a ∈ f.attrs, a.1 ≠ k := fun a ha hak => hk (by rw [← hak]; exact f.enriched a ha)
  rw [hprops, Json.getD, Json.getD, Json.field?_append_of_ne hne]

/-- The URI the server builds: the share, the bucket and the machine are not in it. -/
theorem canonicalPath_eq (f : SentFile) (tenantID : String) : f.canonicalPath E tenantID = f.built := by
  have hpath : Json.getD (f.fixedProps tenantID) "path" (.str "") = .str f.info.path := rfl
  have hprotocol : Json.getD (f.fixedProps tenantID) "protocol" (.str "local") = .str f.source.protocol := by
    rw [← f.reported.protocol]
    rfl
  have hhost : Json.getD (f.fixedProps tenantID) "host" (.str "") = .str f.source.host := by
    rw [← f.reported.host]
    rfl
  have hnone : ∀ k ∈ ["share", "bucket", "key", "hostname"], ∀ default,
      Json.getD (f.fixedProps tenantID) k default = default := by
    intro k hk default
    simp only [List.mem_cons, List.not_mem_nil, or_false] at hk
    rcases hk with rfl | rfl | rfl | rfl <;> rfl
  rw [canonicalPath, makeCanonicalPath]
  simp only [getD_props f tenantID (by decide : "path" ∉ enricherKeys),
    getD_props f tenantID (by decide : "protocol" ∉ enricherKeys),
    getD_props f tenantID (by decide : "host" ∉ enricherKeys),
    getD_props f tenantID (by decide : "share" ∉ enricherKeys),
    getD_props f tenantID (by decide : "bucket" ∉ enricherKeys),
    getD_props f tenantID (by decide : "key" ∉ enricherKeys),
    getD_props f tenantID (by decide : "hostname" ∉ enricherKeys), hpath, hprotocol, hhost,
    hnone "share" (by decide), hnone "bucket" (by decide), hnone "key" (by decide), hnone "hostname" (by decide)]
  rw [built]
  cases f.source with
  | machine hostname => simp [Source.protocol, Source.host, Json.truthy, Dedup.Env.fmt]
  | smb host share host_ne share_ne => simp [Source.protocol, Source.host, Json.truthy, Dedup.Env.fmt, host_ne]
  | s3 bucket bucket_ne => simp [Source.protocol, Source.host, Json.truthy, Dedup.Env.fmt]

/-! ### Which URIs are right, and which are apart -/

theorem built_eq_documented_iff (f : SentFile) : f.built = f.documented ↔ f.Faithful := by
  rw [built, documented, Faithful]
  cases f.source with
  | machine hostname =>
    have hlocal : "local://localhost" = "local://" ++ "localhost" := rfl
    rw [Source.uri, String.append_left_inj, hlocal, String.append_right_inj]
    exact eq_comm
  | smb host share host_ne share_ne =>
    rw [Source.uri, String.append_left_inj, iff_false]
    intro h
    have hlength := congrArg String.length h
    rw [String.length_append (t := share)] at hlength
    exact share_ne (String.length_eq_zero_iff.1 (by omega))
  | s3 bucket bucket_ne =>
    have hs3 : "s3:///" = "s3://" ++ "/" := rfl
    rw [Source.uri, String.append_left_inj, hs3, String.append_right_inj]
    exact eq_comm

theorem ne_of_letter {s t : String} (h : s.toList[1]? ≠ t.toList[1]?) : s ≠ t := fun hst => h (by rw [hst])

/-- The host and the path of an SMB file, as the URI joins them. -/
theorem smb_joined_iff {host host' path path' : String} :
    "smb://" ++ host ++ "/" ++ path = "smb://" ++ host' ++ "/" ++ path' ↔
      ['/'].intercalate [host.toList, path.toList] = ['/'].intercalate [host'.toList, path'.toList] := by
  have hjoin : ∀ a b : String, (a ++ "/" ++ b).toList = ['/'].intercalate [a.toList, b.toList] := by
    intro a b
    simp [List.intercalate]
  rw [String.append_assoc, String.append_assoc, String.append_assoc, String.append_assoc, String.append_right_inj,
    ← String.append_assoc, ← String.append_assoc, ← String.toList_inj, hjoin, hjoin]

theorem smb_told_iff {host host' share share' path path' : String} (host_ne share_ne host_ne' share_ne') :
    ("smb://" ++ host ++ "/" ++ path = "smb://" ++ host' ++ "/" ++ path' →
      Source.smb host share host_ne share_ne = Source.smb host' share' host_ne' share_ne' ∧ path = path') ↔
    (Separated.pieces '/' [host.toList, path.toList] = Separated.pieces '/' [host'.toList, path'.toList] →
      Separated.pieceCounts '/' [host.toList, path.toList] =
        Separated.pieceCounts '/' [host'.toList, path'.toList]) ∧
    (host = host' → path = path' → share = share') := by
  rw [smb_joined_iff, ← Separated.intercalate_inj_iff (List.cons_ne_nil _ _) (List.cons_ne_nil _ _)]
  simp only [List.cons.injEq, String.toList_inj, and_true, Source.smb.injEq]
  constructor
  · intro h
    refine ⟨fun hjoin => ⟨(h hjoin).1.1, (h hjoin).2⟩, ?_⟩
    rintro rfl rfl
    exact (h rfl).1.2
  · rintro ⟨hcut, hshare⟩ hjoin
    obtain ⟨hhost, hpath⟩ := hcut hjoin
    exact ⟨⟨hhost, hshare hhost hpath⟩, hpath⟩

theorem built_inj_iff (f g : SentFile) : (f.built = g.built → f.Same g) ↔ f.Told g := by
  rw [built, built, Same, Told]
  cases f.source with
  | machine hostname =>
    cases g.source with
    | machine hostname' =>
      rw [String.append_right_inj, Source.machine.injEq]
      exact ⟨fun h hp => (h hp).1, fun h hp => ⟨h hp, hp⟩⟩
    | smb host' share' host_ne' share_ne' => exact iff_of_true (fun h => absurd h (ne_of_letter (by simp))) trivial
    | s3 bucket' bucket_ne' => exact iff_of_true (fun h => absurd h (ne_of_letter (by simp))) trivial
  | smb host share host_ne share_ne =>
    cases g.source with
    | machine hostname' => exact iff_of_true (fun h => absurd h (ne_of_letter (by simp))) trivial
    | smb host' share' host_ne' share_ne' => exact smb_told_iff ..
    | s3 bucket' bucket_ne' => exact iff_of_true (fun h => absurd h (ne_of_letter (by simp))) trivial
  | s3 bucket bucket_ne =>
    cases g.source with
    | machine hostname' => exact iff_of_true (fun h => absurd h (ne_of_letter (by simp))) trivial
    | smb host' share' host_ne' share_ne' => exact iff_of_true (fun h => absurd h (ne_of_letter (by simp))) trivial
    | s3 bucket' bucket_ne' =>
      rw [String.append_right_inj, Source.s3.injEq]
      exact ⟨fun h hp => (h hp).1, fun h hp => ⟨h hp, hp⟩⟩

end SentFile

/-! ### The files the connectors report are of their source -/

/-- Whatever a walk has reported satisfies `P`. -/
def AllReports (P : FileInfo → Prop) (log : Log) : Prop := ∀ r ∈ log.reports, P r.2

variable {P : FileInfo → Prop} {log : Log}

theorem AllReports.report (hlog : AllReports P log) (path : String) {info : FileInfo} (h : P info) :
    AllReports P (log.report path info) := by
  intro r hr
  rcases List.mem_append.1 hr with hr | hr
  · exact hlog r hr
  · obtain rfl := List.mem_singleton.1 hr
    exact h

section Smb

variable {E : FileWalks.Env} {host share : String}

mutual

theorem smbEntry_reports (hP : ∀ path name info now, P (FileWalks.smbFile E host share path name info now))
    (path : String) (name : LexicalPath.Name) (node : FileWalks.Node) {log : Log} (hlog : AllReports P log) :
    AllReports P (FileWalks.smbEntry E host share path name node log).2 := by
  cases node with
  | file info => exact hlog.report _ (hP path name info _)
  | irregular info => exact hlog.report _ (hP path name info _)
  | dir entries =>
    rw [FileWalks.smbEntry]
    cases E.done log.looks with
    | some err => exact hlog
    | none => exact smbEntries_reports hP path entries hlog

theorem smbEntries_reports (hP : ∀ path name info now, P (FileWalks.smbFile E host share path name info now))
    (dir : String) (entries : FileWalks.Entries) {log : Log} (hlog : AllReports P log) :
    AllReports P (FileWalks.smbEntries E host share dir entries log).2 := by
  cases entries with
  | nil => exact hlog
  | cons name node rest =>
    have hentry := smbEntry_reports hP (FileWalks.smbPath dir name) name node hlog
    rw [FileWalks.smbEntries]
    cases h : FileWalks.smbEntry E host share (FileWalks.smbPath dir name) name node log with
    | mk err log' =>
      rw [h] at hentry
      cases err with
      | some err => exact hentry
      | none => exact smbEntries_reports hP dir rest hentry

end

end Smb

section S3

variable {E : FileWalks.Env} {bucket : String} (hP : ∀ key obj now, P (FileWalks.s3File E bucket key obj now))

include hP

theorem s3Objects_reports (objs : List S3Object) {log : Log} (hlog : AllReports P log) :
    AllReports P (FileWalks.s3Objects E bucket objs log).2 := by
  induction objs generalizing log with
  | nil => exact hlog
  | cons obj objs ih =>
    rw [FileWalks.s3Objects]
    cases obj.key with
    | none => exact ih hlog
    | some key =>
      dsimp only
      split_ifs
      · exact ih hlog
      · have hreport := hlog.report key (hP key obj (E.now log.reports.length))
        cases E.fn log.reports.length (FileWalks.s3File E bucket key obj (E.now log.reports.length)) with
        | some err => exact hreport
        | none => exact ih hreport

theorem s3Pages_reports (pages : List (Except String (List S3Object))) {log : Log} (hlog : AllReports P log) :
    AllReports P (FileWalks.s3Pages E bucket pages log).2 := by
  induction pages generalizing log with
  | nil => exact hlog
  | cons page pages ih =>
    simp only [FileWalks.s3Pages]
    cases E.done log.looks with
    | some err => exact hlog
    | none =>
      cases page with
      | error err => exact hlog
      | ok objs =>
        have hobjs := s3Objects_reports hP objs (show AllReports P log.look from hlog)
        dsimp only
        cases h : FileWalks.s3Objects E bucket objs log.look with
        | mk err log' =>
          rw [h] at hobjs
          cases err with
          | some err => exact hobjs
          | none => exact ih hobjs

end S3

/-- A connector's walk reports files of its own source. -/
theorem walks_reportedBy (E : FileWalks.Env) :
    (∀ (hostname : String) (c : LocalConnector) (tree : Option FileWalks.Tree),
      AllReports (ReportedBy (.machine hostname)) (c.walk E tree).2) ∧
    (∀ (c : SmbConnector) (entries : FileWalks.Entries),
      AllReports (ReportedBy (.smb c.host c.share c.host_ne c.share_ne)) (c.walk E entries).2) ∧
    ∀ (c : S3Connector) (pages : List (Except String (List S3Object))),
      AllReports (ReportedBy (.s3 c.bucket c.bucket_ne)) (c.walk E pages).2 := by
  have hempty : ∀ (P : FileInfo → Prop) n, AllReports P ⟨n, []⟩ := fun _ _ _ hr => absurd hr List.not_mem_nil
  refine ⟨fun hostname c tree => ?_, fun c entries => ?_, fun c pages => ?_⟩
  · obtain ⟨new, hnew, hmem, -⟩ := c.walk_adds E tree
    intro r hr
    rw [hnew] at hr
    obtain ⟨x, hx, rfl⟩ := List.mem_map.1 hr
    have hreport := (hmem x hx).2
    exact ⟨hreport.protocol, hreport.host, hreport.share, _, hreport.path⟩
  · rw [SmbConnector.walk]
    cases E.done 0 with
    | some err => exact hempty _ _
    | none => exact smbEntries_reports (fun path name info now => ⟨rfl, rfl, rfl, _, rfl⟩) _ entries (hempty _ _)
  · exact s3Pages_reports (fun key obj now => ⟨rfl, rfl, rfl, _, rfl⟩) pages (hempty _ _)

/-! ### End to end -/

/-- The server builds the documented URI for the faithful sources, and different URIs for two files exactly if what is
not sent of them does not differ alone. -/
theorem canonicalPaths_iff (E : Env) (f g : SentFile) (tenantID tenantID' : String) :
    (f.canonicalPath E tenantID = f.documented ↔ f.Faithful) ∧
      ((f.canonicalPath E tenantID = g.canonicalPath E tenantID' → f.Same g) ↔ f.Told g) := by
  rw [f.canonicalPath_eq, g.canonicalPath_eq]
  exact ⟨f.built_eq_documented_iff, f.built_inj_iff g⟩

/-! ### Two shares of one host -/

def movie (share : String) (share_ne : share ≠ "") : SentFile where
  source := .smb "192.168.1.10" share (by decide) share_ne
  info :=
    { path := "/movie.mkv"
      name := "movie.mkv"
      extension := ".mkv"
      size := 7
      modifiedAt := "2024-01-01T00:00:00Z"
      indexedAt := "2024-01-02T00:00:00Z"
      fileCategory := "video"
      mimeType := "video/x-matroska"
      host := "192.168.1.10"
      share := share
      protocol := "smb" }
  reported := ⟨rfl, rfl, rfl, "movie.mkv", rfl⟩
  connectorID := "nas"
  attrs := []
  enriched _ h := absurd h List.not_mem_nil

def media : SentFile := movie "Media" (by decide)

def backup : SentFile := movie "Backup" (by decide)

theorem shares_conflated :
    media.documented = "smb://192.168.1.10/Media/movie.mkv" ∧
      media.canonicalPath ⟨fun s => s, fun _ => "", fun _ => false⟩ "t" = "smb://192.168.1.10//movie.mkv" ∧
      backup.canonicalPath ⟨fun s => s, fun _ => "", fun _ => false⟩ "t" = "smb://192.168.1.10//movie.mkv" ∧
      media.info.share ≠ backup.info.share :=
  ⟨rfl, rfl, rfl, by decide⟩

end Dgraphai.CanonicalPaths
