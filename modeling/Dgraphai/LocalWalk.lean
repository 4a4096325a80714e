import Dgraphai.FileWalks
import Mathlib.Data.List.Nodup

/-!
# The local connector of the agent (`internal/connector/local.go`)

`Walk` reports each regular file under the root with its path from there; `Open` joins such a path to the root again.
The two fit: the path of a report leads back to the file (`walk_open_roundTrip`). `Open` takes any other path too, and
confines none: it opens a file outside the root for a path that climbs out of it and does not come back
(`open_confined_iff`).
-/

namespace Dgraphai.LocalWalk

open FileWalks (Env Entries FileInfo Log Meta Node Tree WalkErr)
open LexicalPath (Cleaned Name)

/-! ### `path/filepath` on texts -/

def filepathClean (path : String) : String := String.ofList (LexicalPath.clean path.toList)

def filepathJoin (a b : String) : String := String.ofList (LexicalPath.join a.toList b.toList)

/-- `filepath.Rel`, with `""` where it is an error. -/
def filepathRel (base target : String) : String :=
  String.ofList ((LexicalPath.rel base.toList target.toList).getD [])

/-- The last element of a path: `.` where there is none, `/` where there are only separators. -/
def filepathBase (path : String) : String :=
  match ((path.toList.splitOn '/').filter (· ≠ [])).getLast? with
  | some element => String.ofList element
  | none => if path = "" then "." else "/"

/-- `filepath.Ext`. -/
def filepathExt : String → String := FileWalks.ext fun c => c = '/'

/-! ### The connector -/

/-- A connector as `newLocal` makes it. -/
structure LocalConnector where
  root : String
  excludeDirs : List String
  root_ne : root ≠ ""

/-- The files a process can open. `name` is the path a file was opened under. -/
structure File where
  name : String
  content : List UInt8
  deriving DecidableEq, Repr

structure Fs where
  open_ : String → Except String File
  name_open : ∀ path f, open_ path = .ok f → f.name = path

variable (E : Env) (c : LocalConnector)

/-- The path `Open` gives to `os.Open`. -/
def LocalConnector.abs (path : String) : String :=
  filepathJoin c.root (String.ofList (if ['/'].isPrefixOf path.toList then path.toList.drop 1 else path.toList))

/-- `Open`. -/
def LocalConnector.open_ (fs : Fs) (path : String) : Except String File := fs.open_ (c.abs path)

def maxHashed : Int := 500 * 1024 * 1024

/-- The report of a regular file. -/
def LocalConnector.fileInfo (path name : String) (info : Meta) (now : String) : FileInfo :=
  let extension := E.toLower (filepathExt name)
  { path := "/" ++ filepathRel c.root path
    name := name
    extension := extension
    size := info.size
    modifiedAt := info.modTime
    indexedAt := now
    protocol := "local"
    mimeType := (E.classifyFile extension).1
    fileCategory := (E.classifyFile extension).2
    sha256 := if info.size < maxHashed then (info.content.map E.sha256).getD "" else "" }

/-- The function `Walk` gives to `filepath.WalkDir`, at an entry that could be read; at the others it returns nil. -/
def LocalConnector.visit (path name : String) (node : Node) (log : Log) : Option WalkErr × Log :=
  match E.done log.looks with
  | some err => (some (.failed err), log.look)
  | none =>
    match node with
    | .dir _ => (if name ∈ c.excludeDirs then some .skipDir else none, log.look)
    | .irregular _ => (none, log.look)
    | .file info =>
      if info.infoFails then (none, log.look)
      else
        let file := c.fileInfo E path name info (E.now log.reports.length)
        (E.fn log.reports.length file, log.look.report path file)

mutual

/-- `walkDir` of `path/filepath` with the function of `Walk`. -/
def LocalConnector.walkDir (path name : String) : Node → Log → Option WalkErr × Log
  | .file info, log => c.visit E path name (.file info) log
  | .irregular info, log => c.visit E path name (.irregular info) log
  | .dir entries, log =>
    match c.visit E path name (.dir entries) log with
    | (some err, log') => (err.skipped, log')
    | (none, log') => walkEntries path entries log'

/-- Its loop over the entries of a directory; `SkipDir` from one of them ends the loop only. -/
def LocalConnector.walkEntries (path : String) : Entries → Log → Option WalkErr × Log
  | .nil, log => (none, log)
  | .cons name node rest, log =>
    let element := String.ofList name.1
    match walkDir (filepathJoin path element) element node log with
    | (some err, log') => (err.skipped, log')
    | (none, log') => walkEntries path rest log'

end

/-- `Walk`, with what is found under the root; without anything there it reports nothing. -/
def LocalConnector.walk (tree : Option Tree) : Option WalkErr × Log :=
  match tree with
  | none => (none, ⟨0, []⟩)
  | some tree =>
    let (err, log) := c.walkDir E c.root (filepathBase c.root) tree.node ⟨0, []⟩
    (err.bind WalkErr.ended, log)

/-! ### Confinement -/

/-- `path` is `root` or below it, once both are cleaned. -/
def Inside (root path : String) : Prop := (LexicalPath.parse root.toList).Below (LexicalPath.parse path.toList)

instance (root path : String) : Decidable (Inside root path) := inferInstanceAs (Decidable (Cleaned.Below _ _))

/-- Read from the root, the path climbs over names of it at most, and comes back by them; a root that is the root of
all files, or below it, can be climbed over any number of times. -/
def LocalConnector.Stays (path : String) : Prop :=
  let root := LexicalPath.parse c.root.toList
  let relative := Cleaned.here.follow path.toList
  root.names.drop (root.names.length - relative.ups) <+: relative.names ∧
    (relative.ups ≤ root.names.length ∨ root.start = .root)

variable {E c}

theorem filepathJoin_eq {a : String} (h : a ≠ "") (b : String) :
    filepathJoin a b = String.ofList ((LexicalPath.parse a.toList).follow b.toList).text := by
  rw [filepathJoin, LexicalPath.join_eq (fun ha => h (String.toList_eq_nil_iff.1 ha))]

/-- A separator in front of a relative path leads nowhere. -/
theorem follow_trim (p : Cleaned) (path : List Char) :
    p.follow (if ['/'].isPrefixOf path then path.drop 1 else path) = p.follow path := by
  split_ifs with h
  · obtain ⟨rest, rfl⟩ := List.isPrefixOf_iff_prefix.1 h
    rw [List.singleton_append, List.drop_one, List.tail_cons, Cleaned.follow, Cleaned.follow,
      List.splitOn_cons_eq_if_modifyHead, if_pos (beq_self_eq_true _), List.foldl_cons, Cleaned.push_nil]
  · rfl

theorem LocalConnector.abs_eq (c : LocalConnector) (path : String) :
    c.abs path = String.ofList ((LexicalPath.parse c.root.toList).follow path.toList).text := by
  rw [abs, filepathJoin_eq c.root_ne, String.toList_ofList, follow_trim]

theorem LocalConnector.abs_eq_clean (c : LocalConnector) (path : String) :
    c.abs path = filepathClean (c.root ++ "/" ++ path) := by
  have htext : (c.root ++ "/" ++ path).toList = c.root.toList ++ '/' :: path.toList := by simp
  rw [abs_eq, filepathClean, LexicalPath.clean, htext,
    LexicalPath.parse_append_slash (fun h => c.root_ne (String.toList_eq_nil_iff.1 h))]

theorem LocalConnector.inside_abs_iff (c : LocalConnector) (path : String) : Inside c.root (c.abs path) ↔ c.Stays path := by
  rw [Inside, abs_eq, String.toList_ofList, LexicalPath.parse_text]
  exact Cleaned.below_follow_iff _ _

/-- `Open` opens what stands at the join, inside of the root exactly if the path stays there. -/
theorem open_confined_iff (c : LocalConnector) (fs : Fs) (path : String) :
    c.open_ fs path = fs.open_ (filepathClean (c.root ++ "/" ++ path)) ∧
      ((∀ f, c.open_ fs path = .ok f → Inside c.root f.name) ↔
        c.Stays path ∨ ∃ err, c.open_ fs path = .error err) := by
  refine ⟨congrArg fs.open_ (c.abs_eq_clean path), ?_⟩
  cases hopen : c.open_ fs path with
  | error err => simp
  | ok f =>
    rw [← c.inside_abs_iff, ← fs.name_open _ _ hopen]
    simp

def serverFiles : Fs where
  open_ path := if path = "/etc/passwd" then .ok ⟨path, []⟩ else .error "no such file or directory"
  name_open path f h := by
    split_ifs at h
    cases h
    rfl

def data : LocalConnector := ⟨"/srv/data", [], by decide⟩

theorem open_escapes :
    data.open_ serverFiles "/../../etc/passwd" = .ok ⟨"/etc/passwd", []⟩ ∧ ¬ Inside data.root "/etc/passwd" := by
  decide

/-! ### The way back -/

/-- Where a walk of `root` meets the names `position` below it. -/
def pathAt (root : String) (position : List Name) : String :=
  if position = [] then root else String.ofList ((LexicalPath.parse root.toList).below position).text

/-- The path of a report from the root. -/
def relAt (position : List Name) : List Char :=
  if position = [] then ['.'] else ['/'].intercalate (position.map Subtype.val)

theorem parse_pathAt (root : String) (position : List Name) :
    LexicalPath.parse (pathAt root position).toList = (LexicalPath.parse root.toList).below position := by
  rw [pathAt]
  split_ifs with h
  · rw [h, Cleaned.below, List.append_nil]
  · rw [String.toList_ofList, LexicalPath.parse_text]

theorem filepathClean_pathAt (root : String) {position : List Name} (h : position ≠ []) :
    filepathClean (pathAt root position) = pathAt root position := by
  rw [filepathClean, LexicalPath.clean, parse_pathAt, pathAt, if_neg h]

theorem pathAt_ne {root : String} (h : root ≠ "") (position : List Name) : pathAt root position ≠ "" := by
  rw [pathAt]
  split_ifs
  · exact h
  · exact fun hempty => LexicalPath.text_ne_nil _ (String.ofList_eq_empty_iff.1 hempty)

theorem filepathJoin_pathAt {root : String} (h : root ≠ "") (position : List Name) (name : Name) :
    filepathJoin (pathAt root position) (String.ofList name.1) = pathAt root (position ++ [name]) := by
  rw [filepathJoin_eq (pathAt_ne h position), parse_pathAt, String.toList_ofList, Cleaned.follow_name,
    Cleaned.below_below, pathAt, if_neg (List.append_ne_nil_of_right_ne_nil _ (List.cons_ne_nil _ _))]

theorem filepathRel_pathAt (root : String) (position : List Name) :
    filepathRel root (pathAt root position) = String.ofList (relAt position) := by
  rw [filepathRel, LexicalPath.rel_below (parse_pathAt root position), relAt]
  rfl

theorem follow_relAt (p : Cleaned) (position : List Name) : p.follow (relAt position) = p.below position := by
  rw [relAt]
  split_ifs with h
  · rw [h, Cleaned.below, List.append_nil]
    rfl
  · exact p.follow_names h

theorem relAt_injective : Function.Injective relAt := by
  intro a b h
  have hfollow := congrArg Cleaned.here.follow h
  rw [follow_relAt, follow_relAt] at hfollow
  exact List.append_cancel_left (congrArg Cleaned.names hfollow)

structure ReportAt (position : List Name) (f : FileInfo) : Prop where
  path : f.path = "/" ++ String.ofList (relAt position)
  protocol : f.protocol = "local"
  host : f.host = ""
  share : f.share = ""

/-- A walk of `root` has gone on to report files at different positions; `P` holds of the positions. -/
def Adds (root : String) (P : List Name → Prop) (log log' : Log) : Prop :=
  ∃ new : List (List Name × FileInfo),
    log'.reports = log.reports ++ new.map (fun r => (pathAt root r.1, r.2)) ∧
      (∀ r ∈ new, P r.1 ∧ ReportAt r.1 r.2) ∧ (new.map Prod.fst).Nodup

namespace Adds

variable {root : String} {P Q R : List Name → Prop} {log log₁ log₂ : Log}

theorem of_eq (h : log₁.reports = log.reports) : Adds root P log log₁ :=
  ⟨[], by rw [List.map_nil, List.append_nil, h], fun _ hr => absurd hr List.not_mem_nil, List.nodup_nil⟩

theorem mono (h : Adds root P log log₁) (hPQ : ∀ p, P p → Q p) : Adds root Q log log₁ := by
  obtain ⟨new, hnew, hP, hnd⟩ := h
  exact ⟨new, hnew, fun r hr => ⟨hPQ _ (hP r hr).1, (hP r hr).2⟩, hnd⟩

theorem trans (h₁ : Adds root P log log₁) (h₂ : Adds root Q log₁ log₂) (hapart : ∀ p, P p → ¬ Q p)
    (hP : ∀ p, P p → R p) (hQ : ∀ p, Q p → R p) : Adds root R log log₂ := by
  obtain ⟨new₁, hnew₁, hmem₁, hnd₁⟩ := h₁
  obtain ⟨new₂, hnew₂, hmem₂, hnd₂⟩ := h₂
  refine ⟨new₁ ++ new₂, ?_, ?_, ?_⟩
  · rw [hnew₂, hnew₁, List.map_append, List.append_assoc]
  · intro r hr
    rcases List.mem_append.1 hr with hr | hr
    · exact ⟨hP _ (hmem₁ r hr).1, (hmem₁ r hr).2⟩
    · exact ⟨hQ _ (hmem₂ r hr).1, (hmem₂ r hr).2⟩
  · rw [List.map_append]
    refine List.nodup_append.2 ⟨hnd₁, hnd₂, ?_⟩
    intro p hp q hq hpq
    obtain ⟨r, hr, rfl⟩ := List.mem_map.1 hp
    obtain ⟨r', hr', rfl⟩ := List.mem_map.1 hq
    exact hapart _ (hmem₁ r hr).1 (hpq ▸ (hmem₂ r' hr').1)

end Adds

namespace LocalConnector

variable {log : Log} {position : List Name}

theorem visit_adds (c : LocalConnector) (position : List Name) (name : String) (node : Node) (log : Log) :
    Adds c.root (· = position) log (c.visit E (pathAt c.root position) name node log).2 := by
  simp only [visit]
  cases E.done log.looks with
  | some err => exact .of_eq rfl
  | none =>
    cases node with
    | dir entries => exact .of_eq rfl
    | irregular info => exact .of_eq rfl
    | file info =>
      dsimp only
      split_ifs with hfails
      · exact .of_eq rfl
      · refine ⟨[(position, c.fileInfo E (pathAt c.root position) name info (E.now log.reports.length))], rfl, ?_,
          List.nodup_singleton _⟩
        intro r hr
        obtain rfl := List.mem_singleton.1 hr
        exact ⟨rfl, congrArg ("/" ++ ·) (filepathRel_pathAt c.root position), rfl, rfl, rfl⟩

theorem visit_dir (c : LocalConnector) (path name : String) (entries : Entries) (log : Log) :
    (c.visit E path name (.dir entries) log).2.reports = log.reports := by
  simp only [visit]
  cases E.done log.looks <;> rfl

mutual

theorem walkDir_adds (c : LocalConnector) (node : Node) (hnode : node.Distinct) (position : List Name) (name : String)
    (log : Log) : Adds c.root (position <+: ·) log (c.walkDir E (pathAt c.root position) name node log).2 := by
  cases node with
  | file info => exact (c.visit_adds position name (.file info) log).mono fun p hp => hp ▸ List.prefix_refl _
  | irregular info => exact (c.visit_adds position name (.irregular info) log).mono fun p hp => hp ▸ List.prefix_refl _
  | dir entries =>
    have hvisit := c.visit_dir (E := E) (pathAt c.root position) name entries log
    rw [walkDir]
    cases h : c.visit E (pathAt c.root position) name (.dir entries) log with
    | mk err log' =>
      rw [h] at hvisit
      cases err with
      | none =>
        refine Adds.trans (.of_eq (P := fun _ => False) hvisit)
          (walkEntries_adds c entries hnode.1 hnode.2 position log') (fun _ h => h.elim) (fun _ h => h.elim) ?_
        rintro p ⟨n, -, hp⟩
        exact (List.prefix_append _ _).trans hp
      | some err => exact .of_eq hvisit

theorem walkEntries_adds (c : LocalConnector) (entries : Entries) (hnames : entries.names.Nodup)
    (hentries : entries.Distinct) (position : List Name) (log : Log) :
    Adds c.root (fun p => ∃ n ∈ entries.names, position ++ [n] <+: p) log
      (c.walkEntries E (pathAt c.root position) entries log).2 := by
  cases entries with
  | nil => exact .of_eq rfl
  | cons name node rest =>
    have hhead := walkDir_adds c node hentries.1 (position ++ [name]) (String.ofList name.1) log
    have hmem : ∀ p, position ++ [name] <+: p → ∃ n ∈ (Entries.cons name node rest).names, position ++ [n] <+: p :=
      fun p hp => ⟨name, List.mem_cons_self, hp⟩
    rw [walkEntries, filepathJoin_pathAt c.root_ne]
    cases h : c.walkDir E (pathAt c.root (position ++ [name])) (String.ofList name.1) node log with
    | mk err log' =>
      rw [h] at hhead
      cases err with
      | none =>
        refine hhead.trans (walkEntries_adds c rest (List.nodup_cons.1 hnames).2 hentries.2 position log') ?_ hmem ?_
        · rintro p hp ⟨n, hn, hp'⟩
          have hsame := (List.prefix_of_prefix_length_le hp hp' (by simp)).eq_of_length (by simp)
          obtain rfl := List.singleton_inj.1 (List.append_cancel_left hsame)
          exact (List.nodup_cons.1 hnames).1 hn
        · rintro p ⟨n, hn, hp⟩
          exact ⟨n, List.mem_cons_of_mem _ hn, hp⟩
      | some err => exact hhead.mono hmem

end

theorem walk_adds (E : Env) (c : LocalConnector) (tree : Option Tree) :
    Adds c.root (fun _ => True) ⟨0, []⟩ (c.walk E tree).2 := by
  cases tree with
  | none => exact .of_eq rfl
  | some tree => exact (c.walkDir_adds tree.node tree.distinct [] (filepathBase c.root) ⟨0, []⟩).mono fun _ _ => trivial

/-- The path of a report leads `Open` back to where the walk met the file. -/
theorem abs_report (c : LocalConnector) (position : List Name) :
    c.abs ("/" ++ String.ofList (relAt position)) = filepathClean (pathAt c.root position) := by
  have htext : ("/" ++ String.ofList (relAt position)).toList = '/' :: relAt position := by simp
  rw [abs_eq, htext, filepathClean, LexicalPath.clean, parse_pathAt, ← follow_relAt, ← follow_trim _ ('/' :: _)]
  rfl

end LocalConnector

/-- The path of a report, opened, is the path the walk was at, up to cleaning where that is the root itself; and no two
reports of a walk have one path. -/
theorem walk_open_roundTrip (E : Env) (c : LocalConnector) (tree : Option Tree) (fs : Fs) :
    (∀ r ∈ (c.walk E tree).2.reports, c.open_ fs r.2.path = fs.open_ (filepathClean r.1) ∧
      (r.1 ≠ c.root → filepathClean r.1 = r.1)) ∧
    ((c.walk E tree).2.reports.map fun r => r.2.path).Nodup := by
  obtain ⟨new, hnew, hmem, hnd⟩ := c.walk_adds E tree
  rw [List.nil_append] at hnew
  rw [hnew]
  constructor
  · intro r hr
    obtain ⟨⟨position, info⟩, hpos, rfl⟩ := List.mem_map.1 hr
    refine ⟨?_, fun hroot => filepathClean_pathAt c.root fun hnil => hroot (if_pos hnil)⟩
    rw [LocalConnector.open_, (hmem _ hpos).2.path, c.abs_report]
  · have hpaths : (new.map fun r => (pathAt c.root r.1, r.2)).map (fun r => r.2.path) =
        (new.map Prod.fst).map fun p => "/" ++ String.ofList (relAt p) := by
      rw [List.map_map, List.map_map]
      exact List.map_congr_left fun r hr => (hmem r hr).2.path
    rw [hpaths]
    refine List.Nodup.map (fun p q h => ?_) hnd
    exact relAt_injective (String.ofList_injective ((String.append_right_inj "/").1 h))

end Dgraphai.LocalWalk
