import Dgraphai.AgentSync
import Dgraphai.Lib.LexicalPath

/-!
# What the agent's connectors report (`internal/connector/connector.go`, `smb.go`, `s3.go`)

A connector walks its source and hands a `FileInfo` to the function of its caller for each file; the walk stops at
the first error, of the context or of that function. A directory the walk cannot read counts as one with no entries.
The walk of a local directory is in `Dgraphai.LocalWalk`.
-/

namespace Dgraphai.FileWalks

/-- `connector.FileInfo`. Times are texts in RFC 3339. -/
structure FileInfo where
  connectorID : String := ""
  path : String
  name : String
  extension : String
  sha256 : String := ""
  xxHash : String := ""
  size : Int
  modifiedAt : String
  createdAt : Option String := none
  indexedAt : String
  fileCategory : String := ""
  mimeType : String := ""
  attrs : Json.Fields := []
  host : String := ""
  share : String := ""
  protocol : String
  deriving DecidableEq, Repr

/-- The part of it that `toDeltaChunk` reads. -/
def FileInfo.sent (f : FileInfo) : AgentSync.FileInfo :=
  { connectorID := f.connectorID
    path := f.path
    name := f.name
    extension := f.extension
    sha256 := f.sha256
    size := f.size
    modifiedAt := f.modifiedAt
    fileCategory := f.fileCategory
    mimeType := f.mimeType
    attrs := f.attrs
    host := f.host
    protocol := f.protocol }

/-! ### The source of a walk -/

/-- What is known of an entry that is no directory. -/
structure Meta where
  size : Int
  modTime : String
  /-- The bytes of the file, where it can be opened. -/
  content : Option (List UInt8)
  /-- Whether `d.Info()` fails. -/
  infoFails : Bool := false
  deriving DecidableEq, Repr

mutual

inductive Node where
  | file (info : Meta)
  /-- A link, a device, a socket. -/
  | irregular (info : Meta)
  | dir (entries : Entries)

inductive Entries where
  | nil
  | cons (name : LexicalPath.Name) (node : Node) (rest : Entries)

end

def Entries.names : Entries → List LexicalPath.Name
  | .nil => []
  | .cons name _ rest => name :: rest.names

mutual

/-- A directory has one entry of a name. -/
def Node.Distinct : Node → Prop
  | .file _ => True
  | .irregular _ => True
  | .dir entries => entries.names.Nodup ∧ entries.Distinct

def Entries.Distinct : Entries → Prop
  | .nil => True
  | .cons _ node rest => node.Distinct ∧ rest.Distinct

end

/-- What stands under a path, with all that is below it. -/
structure Tree where
  node : Node
  distinct : node.Distinct

/-! ### A walk -/

/-- An error of `WalkFunc`; `fs.SkipDir` and `fs.SkipAll` are values of their own. -/
inductive WalkErr where
  | skipDir
  | skipAll
  | failed (text : String)
  deriving DecidableEq, Repr

/-- What a directory makes of the error of a visit: `SkipDir` ends that directory only. -/
def WalkErr.skipped : WalkErr → Option WalkErr
  | .skipDir => none
  | err => some err

/-- What `filepath.WalkDir` makes of the error of the whole walk. -/
def WalkErr.ended : WalkErr → Option WalkErr
  | .failed text => some (.failed text)
  | _ => none

/-- Go's library, and the caller of one walk. -/
structure Env where
  toLower : String → String
  /-- `classify.ClassifyFile`: the MIME type and the category of an extension. -/
  classifyFile : String → String × String
  /-- The hexadecimal SHA-256 of some bytes. -/
  sha256 : List UInt8 → String
  /-- `ctx.Err()` at the n-th look, where the context is done. -/
  done : ℕ → Option String
  /-- `time.Now()` at the n-th report. -/
  now : ℕ → String
  /-- What the caller's function returns for its n-th file. -/
  fn : ℕ → FileInfo → Option WalkErr

/-- How often a walk has looked at its context, and the files it has handed out, each with the path it was at. -/
structure Log where
  looks : ℕ
  reports : List (String × FileInfo)

def Log.look (log : Log) : Log := { log with looks := log.looks + 1 }

def Log.report (log : Log) (path : String) (info : FileInfo) : Log :=
  { log with reports := log.reports ++ [(path, info)] }

/-- The text from the last dot of the last element on, if there is one. -/
def ext (isSeparator : Char → Bool) (name : String) : String :=
  let element := name.toList.reverse.takeWhile fun c => !isSeparator c
  if '.' ∈ element then String.ofList ('.' :: (element.takeWhile (· ≠ '.')).reverse) else ""

variable (E : Env)

/-! ### SMB -/

/-- A connector as `newSMB` makes it. -/
structure SmbConnector where
  host : String
  share : String
  basePath : String
  host_ne : host ≠ ""
  share_ne : share ≠ ""

/-- `ext` of `smb.go`. -/
def smbExt : String → String := ext fun c => c = '/' || c = '\\'

/-- `dir + "/" + name`, without a `./` in front. -/
def smbPath (dir : String) (name : LexicalPath.Name) : String :=
  let path := dir.toList ++ '/' :: name.1
  String.ofList (if ['.', '/'].isPrefixOf path then path.drop 2 else path)

def smbFile (host share path : String) (name : LexicalPath.Name) (info : Meta) (now : String) : FileInfo :=
  let extension := E.toLower (smbExt (String.ofList name.1))
  { path := "/" ++ path
    name := String.ofList name.1
    extension := extension
    size := info.size
    modifiedAt := info.modTime
    indexedAt := now
    protocol := "smb"
    host := host
    share := share
    mimeType := (E.classifyFile extension).1
    fileCategory := (E.classifyFile extension).2 }

mutual

/-- One entry of the loop of `walkSMB`. -/
def smbEntry (host share path : String) (name : LexicalPath.Name) : Node → Log → Option WalkErr × Log
  | .dir entries, log =>
    match E.done log.looks with
    | some err => (some (.failed err), log.look)
    | none => smbEntries host share path entries log.look
  | .file info, log =>
    let file := smbFile E host share path name info (E.now log.reports.length)
    (E.fn log.reports.length file, log.report path file)
  | .irregular info, log =>
    let file := smbFile E host share path name info (E.now log.reports.length)
    (E.fn log.reports.length file, log.report path file)

/-- The loop of `walkSMB` over the entries of `dir`. -/
def smbEntries (host share dir : String) : Entries → Log → Option WalkErr × Log
  | .nil, log => (none, log)
  | .cons name node rest, log =>
    match smbEntry host share (smbPath dir name) name node log with
    | (some err, log') => (some err, log')
    | (none, log') => smbEntries host share dir rest log'

end

/-- `Walk` of a share whose base path holds `entries`. -/
def SmbConnector.walk (c : SmbConnector) (entries : Entries) : Option WalkErr × Log :=
  match E.done 0 with
  | some err => (some (.failed err), ⟨1, []⟩)
  | none => smbEntries E c.host c.share (if c.basePath = "" then "." else c.basePath) entries ⟨1, []⟩

/-! ### S3 -/

/-- A connector as `newS3` makes it. -/
structure S3Connector where
  bucket : String
  bucket_ne : bucket ≠ ""

/-- An object of a listing. A key that ends in `/` is the marker of a directory. -/
structure S3Object where
  key : Option String
  size : Int
  lastModified : String
  eTag : Option String

def s3Name (key : String) : String := String.ofList (key.toList.reverse.takeWhile (· ≠ '/')).reverse

/-- `strings.Trim(s, "\"")`. -/
def trimQuotes (s : String) : String :=
  String.ofList (((s.toList.dropWhile (· = '"')).reverse.dropWhile (· = '"')).reverse)

def s3File (bucket key : String) (obj : S3Object) (now : String) : FileInfo :=
  { path := "/" ++ key
    name := s3Name key
    extension := E.toLower (smbExt (s3Name key))
    size := obj.size
    modifiedAt := obj.lastModified
    indexedAt := now
    protocol := "s3"
    host := bucket
    xxHash := (obj.eTag.map trimQuotes).getD "" }

/-- The loop over the objects of one page. -/
def s3Objects (bucket : String) : List S3Object → Log → Option WalkErr × Log
  | [], log => (none, log)
  | obj :: objs, log =>
    match obj.key with
    | none => s3Objects bucket objs log
    | some key =>
      if ['/'].isSuffixOf key.toList then s3Objects bucket objs log
      else
        let file := s3File E bucket key obj (E.now log.reports.length)
        match E.fn log.reports.length file with
        | some err => (some err, log.report key file)
        | none => s3Objects bucket objs (log.report key file)

/-- The loop over the pages; a page is the objects the service lists, or the error of the call. -/
def s3Pages (bucket : String) : List (Except String (List S3Object)) → Log → Option WalkErr × Log
  | [], log => (none, log)
  | page :: pages, log =>
    match E.done log.looks with
    | some err => (some (.failed err), log.look)
    | none =>
      match page with
      | .error err => (some (.failed ("s3: list page: " ++ err)), log.look)
      | .ok objs =>
        match s3Objects E bucket objs log.look with
        | (some err, log') => (some err, log')
        | (none, log') => s3Pages bucket pages log'

def S3Connector.walk (c : S3Connector) (pages : List (Except String (List S3Object))) : Option WalkErr × Log :=
  s3Pages E c.bucket pages ⟨0, []⟩

end Dgraphai.FileWalks
