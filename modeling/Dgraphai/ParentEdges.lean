import Dgraphai.FileMetadata
import Dgraphai.Lib.PurePath

/-!
# Edges to the parent directory (`to_parent_edge` of `connectors/sdk.py`)

A record links to its directory by an id that it computes itself, from `str(Path(path).parent)`. The directory is
found under its own path, so the edge dangles where `pathlib` writes that path in another way: for every URI, whose two
slashes become one, and for a local path with an empty segment or a `.` (`parentEdge_iff`).
-/

namespace Dgraphai.ParentEdges

open Dedup (Env)
open FileMetadata (ConnectorFileRecord)

/-- The text an id of `path` is the digest of. -/
def key (connectorID : String) (r : ConnectorFileRecord) (path : String) : String :=
  connectorID ++ ":" ++ r.host ++ ":" ++ r.share ++ ":" ++ r.bucket ++ ":" ++ path

def shortDigest (E : Env) (text : String) : String := String.ofList ((E.hexdigest text).toList.take 24)

/-- `str(Path(path).parent)`. -/
def parentPath (path : String) : String := String.ofList (PurePath.parentText path.toList)

/-- `to_parent_edge`. -/
def toParentEdge (E : Env) (r : ConnectorFileRecord) (connectorID : String) : Option Json.Fields :=
  let parent := parentPath r.path
  if parent = r.path then none
  else
    some [("op", .str "upsert"), ("type", .str "CHILD_OF"), ("from", .str (r.stableID E connectorID)),
      ("to", .str (shortDigest E (key connectorID r parent))), ("props", .obj [])]

/-- `path` is `dir` and one more segment. -/
structure IsEntry (path dir segment : String) : Prop where
  ne : segment ≠ ""
  slash : '/' ∉ segment.toList
  path : path.toList = PurePath.child dir.toList segment.toList

/-- The ids of two paths of one source are apart unless the paths are equal. -/
def Apart (E : Env) (connectorID : String) (r : ConnectorFileRecord) (p q : String) : Prop :=
  shortDigest E (key connectorID r p) = shortDigest E (key connectorID r q) → p = q

variable {E : Env} {connectorID : String} {r d : ConnectorFileRecord} {segment : String}

theorem stableID_eq (r : ConnectorFileRecord) (connectorID : String) :
    r.stableID E connectorID = shortDigest E (key connectorID r r.path) := rfl

theorem parentPath_eq_iff (hlocated : PurePath.Located r.path.toList) (hentry : IsEntry r.path d.path segment) :
    parentPath r.path = d.path ↔ PurePath.Normal d.path.toList ∧ (segment ≠ "." ∨ d.path = "/") := by
  have hsegment : segment.toList ≠ [] ∧ '/' ∉ segment.toList :=
    ⟨fun h => hentry.ne (String.toList_eq_nil_iff.1 h), hentry.slash⟩
  have hdot : segment.toList = ['.'] ↔ segment = "." := by
    rw [← String.toList_inj]
    rfl
  have hroot : d.path.toList = ['/'] ↔ d.path = "/" := by
    rw [← String.toList_inj]
    rfl
  rw [parentPath, ← String.toList_inj, String.toList_ofList, hentry.path, ne_eq, ← hdot, ← hroot]
  rw [hentry.path] at hlocated
  exact PurePath.parentText_child_iff hsegment hlocated

theorem parentPath_ne (hentry : IsEntry r.path d.path segment) (h : parentPath r.path = d.path) :
    parentPath r.path ≠ r.path := by
  intro hself
  have hpath := hentry.path
  rw [← hself, h, PurePath.child] at hpath
  split_ifs at hpath with hdir
  · rw [hdir] at hpath
    exact hentry.ne (String.toList_eq_nil_iff.1 (List.cons.inj hpath).2.symm)
  · have hlength := congrArg List.length hpath
    simp at hlength

/-- The edge hits the directory exactly if `pathlib` leaves the directory's path as it is, and it is no loop. -/
theorem parentEdge_iff (E : Env) (connectorID : String) {r d : ConnectorFileRecord} {segment : String}
    (hsource : d.host = r.host ∧ d.share = r.share ∧ d.bucket = r.bucket)
    (hlocated : PurePath.Located r.path.toList) (hentry : IsEntry r.path d.path segment)
    (hdir : Apart E connectorID r (parentPath r.path) d.path)
    (hself : Apart E connectorID r (parentPath r.path) r.path) :
    ((∃ edge, toParentEdge E r connectorID = some edge ∧
        Json.getD edge "to" .null = .str (d.stableID E connectorID)) ↔
      PurePath.Normal d.path.toList ∧ (segment ≠ "." ∨ d.path = "/")) ∧
    ∀ edge, toParentEdge E r connectorID = some edge →
      Json.getD edge "to" .null ≠ Json.getD edge "from" .null := by
  have hid : d.stableID E connectorID = shortDigest E (key connectorID r d.path) := by
    rw [stableID_eq, key, hsource.1, hsource.2.1, hsource.2.2]
    rfl
  rw [← parentPath_eq_iff hlocated hentry, hid, toParentEdge]
  constructor
  · constructor
    · rintro ⟨edge, hedge, hto⟩
      split_ifs at hedge
      obtain rfl := Option.some.inj hedge
      exact hdir (Json.str.inj hto)
    · intro h
      refine ⟨_, if_neg (parentPath_ne hentry h), ?_⟩
      rw [h]
      rfl
  · intro edge hedge hloop
    split_ifs at hedge with hparent
    obtain rfl := Option.some.inj hedge
    exact hparent (hself (Json.str.inj hloop))

/-! ### A local file, and an object -/

/-- SHA-256 on the keys of the two examples. -/
def sampleDigest (text : String) : String :=
  if text = "c1::::/srv" then "f74dbae4c0079e9316eb556f900fe66c3d414a1fed287b1b9e3c693314874bbc"
  else if text = "c1::::/srv/a.txt" then "8f57bbe594197902c929614568e2ec5325b3ea9e1f2a642865101c5b0ce17124"
  else if text = "aws-s3:::bucket:s3:/bucket/a" then "095d71ab531d674c3454327ae3a39df5716818102949e6f932a5e2988e2b55f1"
  else if text = "aws-s3:::bucket:s3://bucket/a" then "a80a1fefe14005625edfe8a27a653946535e5ecc5fc287e70603a3df49310cd2"
  else "#" ++ text

def sample : Env := ⟨sampleDigest, fun _ => "", fun _ => false⟩

def recordAt (path bucket : String) (isDir : Bool) : ConnectorFileRecord :=
  ⟨path, "", 0, "0.0", isDir, none, "", "", "", bucket, "", "", []⟩

def aFile : ConnectorFileRecord := recordAt "/srv/a.txt" "" false

def itsDir : ConnectorFileRecord := recordAt "/srv" "" true

theorem aFile_entry : IsEntry aFile.path itsDir.path "a.txt" := ⟨by decide, by decide, rfl⟩

theorem aFile_parentPath : parentPath aFile.path = itsDir.path := by decide +kernel

theorem aFile_apart : Apart sample "c1" aFile (parentPath aFile.path) aFile.path := fun h =>
  absurd h (by decide +kernel)

theorem aFile_parent :
    (∃ edge, toParentEdge sample aFile "c1" = some edge ∧
      Json.getD edge "to" .null = .str (itsDir.stableID sample "c1")) ↔
    PurePath.Normal itsDir.path.toList ∧ ("a.txt" ≠ "." ∨ itsDir.path = "/") :=
  (parentEdge_iff (r := aFile) (d := itsDir) sample "c1" ⟨rfl, rfl, rfl⟩ (.inl rfl) aFile_entry (fun _ => aFile_parentPath) aFile_apart).1

/-- The edge of an object leads to another id than the one of its directory. -/
theorem object_dangles :
    Json.getD ((toParentEdge sample (recordAt "s3://bucket/a/b" "bucket" false) "aws-s3").getD []) "to" .null =
        .str "095d71ab531d674c3454327a" ∧
      (recordAt "s3://bucket/a" "bucket" true).stableID sample "aws-s3" = "a80a1fefe14005625edfe8a2" ∧
      "095d71ab531d674c3454327a" ≠ "a80a1fefe14005625edfe8a2" := by
  refine ⟨?_, ?_, by decide⟩ <;> rfl

end Dgraphai.ParentEdges
