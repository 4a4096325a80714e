import Dgraphai.AuthTables
import Dgraphai.Lib.PurePath

/-!
# File actions (`api/actions.py`)

`rename_file` rebuilds the path with `pathlib` and hands it to `move_file`, which checks nothing. The file keeps its
directory, its host and its share exactly where the name is one segment and `pathlib` writes the path as it was
(`renameFile_iff`); it writes no URI so (`PurePath.not_written_of_uri`).
-/

namespace Dgraphai.FileActions

open Auth (HttpError)

structure MoveRequest where
  source : String
  destination : String
  dryRun : Bool

structure RenameRequest where
  path : String
  newName : String
  dryRun : Bool

/-- An entry of the audit log; its `type` is `move`. -/
structure Action where
  id : String
  source : String
  destination : String
  dryRun : Bool
  timestamp : String
  status : String
  error : Option String
  message : Option String
  deriving DecidableEq

/-- `protocol_factory` and `move` of the catalog's protocols; an error is the text of what they raise. -/
structure Protocols where
  Proto : Type
  factory : String → Except String (Proto × String)
  move : Proto → String → String → Except String Unit

structure Env extends Protocols where
  uuid : String
  now : String

variable (E : Env)

/-- The `try` block of `move_file`. -/
def moved (req : MoveRequest) : Except String Unit := do
  let (srcProto, srcPath) ← E.factory req.source
  let (_, dstPath) ← E.factory req.destination
  E.move srcProto srcPath dstPath

/-- The answer of `move_file` and the audit log. -/
def moveFile (req : MoveRequest) (log : List Action) : Except HttpError Action × List Action :=
  let action : Action := ⟨E.uuid, req.source, req.destination, req.dryRun, E.now,
    if req.dryRun then "dry_run" else "pending", none, none⟩
  if req.dryRun then
    (.ok { action with status := "dry_run", message := some "Set dry_run=false to execute" }, log ++ [action])
  else
    match moved E req with
    | .ok () => (.ok { action with status := "complete" }, log ++ [action, { action with status := "complete" }])
    | .error e => (.error ⟨500, e⟩, log ++ [action, { action with status := "error", error := some e }])

def newPath (req : RenameRequest) : String := String.ofList (PurePath.sibling req.path.toList req.newName.toList)

def renameFile (req : RenameRequest) (log : List Action) : Except HttpError Action × List Action :=
  moveFile E ⟨req.path, newPath req, req.dryRun⟩ log

/-! ### In place -/

/-- One segment that names an entry of a directory. -/
def IsName (name : String) : Prop := PurePath.Proper name.toList ∧ '/' ∉ name.toList ∧ name ≠ ".."

instance (name : String) : Decidable (IsName name) := inferInstanceAs (Decidable (_ ∧ _ ∧ _))

/-- The request is rejected, or the last segment of the path is replaced by a name. -/
def InPlace (req : RenameRequest) : Except HttpError Action → Prop
  | .error _ => True
  | .ok action => action.source = req.path ∧ IsName req.newName ∧
      action.destination = String.ofList (PurePath.dirPart req.path.toList ++ req.newName.toList)

variable {E} {req : RenameRequest} {log : List Action}

/-- A request that is answered names the new path. -/
theorem renameFile_ok {action : Action} (h : (renameFile E req log).1 = .ok action) :
    action.source = req.path ∧ action.destination = newPath req := by
  unfold renameFile moveFile at h
  dsimp only at h
  split_ifs at h
  · cases h
    exact ⟨rfl, rfl⟩
  · split at h <;> cases h
    exact ⟨rfl, rfl⟩

/-- Protocols that accept every path. -/
def accepting : Env := ⟨⟨Unit, fun path => .ok ((), path), fun _ _ _ => .ok ()⟩, "id", "now"⟩

theorem exists_accepted (req : RenameRequest) (log : List Action) :
    ∃ action, (renameFile accepting req log).1 = .ok action := by
  unfold renameFile moveFile
  dsimp only
  split_ifs
  · exact ⟨_, rfl⟩
  · exact ⟨_, rfl⟩

/-- For every path and name, whatever the protocols accept. -/
theorem renameFile_iff (req : RenameRequest) (log : List Action) :
    (∀ E, InPlace req (renameFile E req log).1) ↔ IsName req.newName ∧ PurePath.Written req.path.toList := by
  have hpath : IsName req.newName → (newPath req = String.ofList (PurePath.dirPart req.path.toList ++ req.newName.toList) ↔
      PurePath.Written req.path.toList) := fun hname => by
    rw [← PurePath.sibling_eq_iff ⟨hname.1, hname.2.1⟩, newPath, String.ofList_inj]
  constructor
  · intro h
    obtain ⟨action, haction⟩ := exists_accepted req log
    have hplace := h accepting
    rw [haction] at hplace
    obtain ⟨-, hname, hdestination⟩ := hplace
    rw [(renameFile_ok haction).2] at hdestination
    exact ⟨hname, (hpath hname).1 hdestination⟩
  · rintro ⟨hname, hwritten⟩ E
    cases haction : (renameFile E req log).1 with
    | error e => trivial
    | ok action =>
      obtain ⟨hsource, hdestination⟩ := renameFile_ok haction
      exact ⟨hsource, hname, hdestination.trans ((hpath hname).2 hwritten)⟩

/-- A rename on a share: the destination is `smb:/nas/docs/b.txt`. -/
theorem share_lost : ¬ InPlace ⟨"smb://nas/docs/a.txt", "b.txt", true⟩
    (renameFile accepting ⟨"smb://nas/docs/a.txt", "b.txt", true⟩ []).1 := by
  rintro ⟨-, -, h⟩
  exact absurd h (by decide)

end Dgraphai.FileActions
