import Dgraphai.Lib.Separated
import Mathlib.Data.List.DropRight

/-!
# Pure POSIX paths

`str(Path(s).parent)` of Python's `pathlib`, which reads a path as a root and the segments behind it and drops empty
segments and `.`. The parent of a path is the text in front of its last segment exactly if that text is absolute and
written without such segments (`parentText_child_iff`). A path with another name is the text with its last segment
replaced exactly if it is written as `pathlib` writes it (`sibling_eq_iff`).
-/

namespace PurePath

def Proper (s : List Char) : Prop := s ≠ [] ∧ s ≠ ['.']

instance (s : List Char) : Decidable (Proper s) := inferInstanceAs (Decidable (_ ∧ _))

/-- The root of a path; exactly two slashes in front are a root of their own. -/
def rootOf (s : List Char) : List Char :=
  if s[0]? ≠ some '/' then []
  else if s[1]? ≠ some '/' ∨ s[2]? = some '/' then ['/']
  else ['/', '/']

def tailOf (s : List Char) : List (List Char) := (s.splitOn '/').filter fun x => Proper x

/-- `str` of a path. -/
def str (root : List Char) (tail : List (List Char)) : List Char :=
  if root = [] ∧ tail = [] then ['.'] else root ++ ['/'].intercalate tail

/-- `str(Path(s).parent)`; a path without a tail is its own parent. -/
def parentText (s : List Char) : List Char := str (rootOf s) (tailOf s).dropLast

/-- The path of the entry `segment` of the directory `dir`. -/
def child (dir segment : List Char) : List Char :=
  if dir = ['/'] then '/' :: segment else dir ++ '/' :: segment

/-- An absolute path as `pathlib` writes it. -/
def Normal (s : List Char) : Prop :=
  ∃ root ∈ [['/'], ['/', '/']], ∃ tail : List (List Char), (∀ x ∈ tail, Proper x ∧ '/' ∉ x) ∧
    s = root ++ ['/'].intercalate tail ∧ (tail = [] → root = ['/'])

/-- An absolute path, or a URI: a scheme, two slashes and more. -/
def Located (s : List Char) : Prop := s.head? = some '/' ∨ [] ∈ s.splitOn '/'

variable {root dir segment : List Char} {tail : List (List Char)}

theorem mem_tailOf {s x : List Char} (h : x ∈ tailOf s) : Proper x ∧ '/' ∉ x := by
  obtain ⟨hmem, hproper⟩ := List.mem_filter.1 h
  exact ⟨of_decide_eq_true hproper, Separated.sep_not_mem_of_mem_splitOn hmem⟩

theorem filter_proper (h : ∀ x ∈ tail, Proper x ∧ '/' ∉ x) : tail.filter (fun x => Proper x) = tail :=
  List.filter_eq_self.2 fun x hx => decide_eq_true (h x hx).1

/-! ### Reading a path that is written from its root on -/

theorem intercalate_concat (tail : List (List Char)) (h : tail ≠ []) (segment : List Char) :
    ['/'].intercalate (tail ++ [segment]) = ['/'].intercalate tail ++ '/' :: segment := by
  induction tail with
  | nil => exact absurd rfl h
  | cons x tail ih =>
    obtain _ | ⟨y, tail⟩ := tail
    · simp [List.intercalate_cons_cons]
    · rw [List.cons_append, List.cons_append, List.intercalate_cons_cons, List.intercalate_cons_cons, ← List.cons_append,
        ih (List.cons_ne_nil _ _)]
      simp

theorem head_intercalate (htail : tail ≠ []) (hproper : ∀ x ∈ tail, x ≠ [] ∧ '/' ∉ x) :
    ∃ c rest, ['/'].intercalate tail = c :: rest ∧ c ≠ '/' := by
  obtain ⟨x, tail, rfl⟩ := List.exists_cons_of_ne_nil htail
  obtain ⟨hx, hslash⟩ := hproper x List.mem_cons_self
  obtain ⟨c, cs, rfl⟩ := List.exists_cons_of_ne_nil hx
  have hc : c ≠ '/' := fun h => hslash (h ▸ List.mem_cons_self)
  cases tail with
  | nil => exact ⟨c, cs, by simp, hc⟩
  | cons y tail => exact ⟨c, cs ++ '/' :: ['/'].intercalate (y :: tail), by simp [List.intercalate_cons_cons], hc⟩

theorem tailOf_slash (s : List Char) : tailOf ('/' :: s) = tailOf s := by
  rw [tailOf, List.splitOn_cons_eq_if_modifyHead, if_pos (beq_self_eq_true _)]
  rfl

theorem tailOf_root (hroot : root ∈ [['/'], ['/', '/']]) (s : List Char) : tailOf (root ++ s) = tailOf s := by
  simp only [List.mem_cons, List.not_mem_nil, or_false] at hroot
  rcases hroot with rfl | rfl
  · exact tailOf_slash s
  · exact (tailOf_slash _).trans (tailOf_slash s)

theorem read_rooted (hroot : root ∈ [['/'], ['/', '/']]) (htail : tail ≠ [])
    (hproper : ∀ x ∈ tail, x ≠ [] ∧ '/' ∉ x) :
    rootOf (root ++ ['/'].intercalate tail) = root ∧
      tailOf (root ++ ['/'].intercalate tail) = tail.filter fun x => Proper x := by
  obtain ⟨c, rest, hhead, hc⟩ := head_intercalate htail hproper
  constructor
  · simp only [List.mem_cons, List.not_mem_nil, or_false] at hroot
    rw [hhead]
    rcases hroot with rfl | rfl <;> simp [rootOf, hc]
  · rw [tailOf_root hroot, tailOf, List.splitOn_intercalate '/' (fun x hx => (hproper x hx).2) htail]

theorem rootOf_mem (s : List Char) : rootOf s = [] ∨ rootOf s ∈ [['/'], ['/', '/']] := by
  rw [rootOf]
  split_ifs <;> simp

theorem rootOf_eq_nil_iff {s : List Char} : rootOf s = [] ↔ s.head? ≠ some '/' := by
  rw [rootOf, List.head?_eq_getElem?]
  split_ifs with h <;> simp [h]

/-! ### The parent of an entry -/

theorem child_of_ne (h : dir ≠ ['/']) (segment : List Char) : child dir segment = dir ++ '/' :: segment := if_neg h

theorem str_of_root (hroot : root ∈ [['/'], ['/', '/']]) (tail : List (List Char)) :
    str root tail = root ++ ['/'].intercalate tail := by
  refine if_neg fun h => ?_
  rw [h.1] at hroot
  simp at hroot

theorem ne_nil_of_proper (h : ∀ x ∈ tail, Proper x ∧ '/' ∉ x) : ∀ x ∈ tail, x ≠ [] ∧ '/' ∉ x :=
  fun x hx => ⟨(h x hx).1.1, (h x hx).2⟩

/-- Where the last segment is `.`, the parent is the one of the directory. -/
theorem parentText_rooted (hroot : root ∈ [['/'], ['/', '/']]) (htail : ∀ x ∈ tail, Proper x ∧ '/' ∉ x)
    (hsegment : segment ≠ [] ∧ '/' ∉ segment) : parentText (root ++ ['/'].intercalate (tail ++ [segment])) =
      root ++ ['/'].intercalate (if segment = ['.'] then tail.dropLast else tail) := by
  have hall : ∀ x ∈ tail ++ [segment], x ≠ [] ∧ '/' ∉ x := by
    intro x hx
    rcases List.mem_append.1 hx with hx | hx
    · exact ne_nil_of_proper htail x hx
    · rwa [List.mem_singleton.1 hx]
  obtain ⟨hrootOf, htailOf⟩ := read_rooted hroot (List.append_ne_nil_of_right_ne_nil tail (List.cons_ne_nil _ _)) hall
  rw [parentText, hrootOf, htailOf, str_of_root hroot, List.filter_append, filter_proper htail]
  split_ifs with hdot
  · rw [hdot]
    simp [Proper]
  · have hproper : Proper segment := ⟨hsegment.1, hdot⟩
    simp [hproper]

theorem child_rooted (htail : tail ≠ []) (hproper : ∀ x ∈ tail, Proper x ∧ '/' ∉ x)
    (hroot : root ∈ [['/'], ['/', '/']]) (segment : List Char) :
    child (root ++ ['/'].intercalate tail) segment = root ++ ['/'].intercalate (tail ++ [segment]) := by
  obtain ⟨c, rest, hhead, hc⟩ := head_intercalate htail (ne_nil_of_proper hproper)
  rw [child_of_ne, intercalate_concat tail htail, List.append_assoc]
  rw [hhead]
  simp only [List.mem_cons, List.not_mem_nil, or_false] at hroot
  rcases hroot with rfl | rfl <;> simp

theorem parentText_of_normal (hsegment : segment ≠ [] ∧ '/' ∉ segment) (h : Normal dir)
    (hdot : segment ≠ ['.'] ∨ dir = ['/']) : parentText (child dir segment) = dir := by
  obtain ⟨root, hroot, tail, htail, rfl, hnil⟩ := h
  by_cases hempty : tail = []
  · obtain rfl := hempty
    obtain rfl := hnil rfl
    have hparent := parentText_rooted hroot htail hsegment
    rw [List.nil_append, List.intercalate_singleton, List.dropLast_nil, ite_self] at hparent
    exact hparent
  · have hne : segment ≠ ['.'] := by
      refine hdot.resolve_right fun hdir => ?_
      obtain ⟨c, rest, hhead, hc⟩ := head_intercalate hempty (ne_nil_of_proper htail)
      rw [hhead] at hdir
      simp only [List.mem_cons, List.not_mem_nil, or_false] at hroot
      rcases hroot with rfl | rfl <;> simp at hdir
    rw [child_rooted hempty htail hroot, parentText_rooted hroot htail hsegment, if_neg hne]

theorem normal_of_parentText (hsegment : segment ≠ [] ∧ '/' ∉ segment) (hlocated : Located (child dir segment))
    (h : parentText (child dir segment) = dir) : Normal dir ∧ (segment ≠ ['.'] ∨ dir = ['/']) := by
  have hproper : ∀ x ∈ (tailOf (child dir segment)).dropLast, Proper x ∧ '/' ∉ x := fun x hx =>
    mem_tailOf (List.dropLast_subset _ hx)
  rw [parentText] at h
  generalize htail : (tailOf (child dir segment)).dropLast = tail at h hproper
  rcases rootOf_mem (child dir segment) with hroot | hroot
  · -- a path without a root keeps no empty segment, and a URI has one
    exfalso
    have habs := rootOf_eq_nil_iff.1 hroot
    have hdir : dir ≠ ['/'] := by
      rintro rfl
      exact habs rfl
    have hmem := hlocated.resolve_left habs
    rw [child_of_ne hdir, List.splitOn_append_cons_self, List.splitOn_eq_singleton hsegment.2] at hmem
    have hmem := (List.mem_append.1 hmem).resolve_right fun hnil => hsegment.1 (List.mem_singleton.1 hnil).symm
    rw [← h, hroot, str] at hmem
    split_ifs at hmem with hempty
    · exact absurd (List.mem_singleton.1 hmem).symm (List.cons_ne_nil _ _)
    · rw [List.nil_append, List.splitOn_intercalate '/' (fun x hx => (hproper x hx).2) fun hnil => hempty ⟨rfl, hnil⟩]
        at hmem
      exact (hproper _ hmem).1.1 rfl
  · rw [str_of_root hroot] at h
    have hnil : tail = [] → rootOf (child dir segment) = ['/'] := by
      intro hempty
      rw [hempty, List.intercalate_nil, List.append_nil] at h
      simp only [List.mem_cons, List.not_mem_nil, or_false] at hroot
      rcases hroot with hroot | hroot
      · exact hroot
      · rw [hroot] at h
        rw [← h]
        rfl
    refine ⟨⟨_, hroot, tail, hproper, h.symm, hnil⟩, ?_⟩
    by_contra hnot
    obtain ⟨hdot, hdir⟩ := not_or.1 hnot
    obtain rfl := not_not.1 hdot
    have htail_ne : tail ≠ [] := by
      intro hempty
      rw [hnil hempty, hempty, List.intercalate_nil, List.append_nil] at h
      exact hdir h.symm
    have hall : ∀ x ∈ tail ++ [['.']], x ≠ [] ∧ '/' ∉ x := by
      intro x hx
      rcases List.mem_append.1 hx with hx | hx
      · exact ne_nil_of_proper hproper x hx
      · rw [List.mem_singleton.1 hx]
        decide
    have hchild := child_rooted htail_ne hproper hroot ['.']
    have hread := (read_rooted hroot (List.append_ne_nil_of_right_ne_nil tail (List.cons_ne_nil _ _)) hall).2
    rw [h] at hchild
    rw [← hchild, List.filter_append, filter_proper hproper] at hread
    have hlength := congrArg List.length htail
    have hpos := List.length_pos_iff.2 htail_ne
    rw [hread] at hlength
    simp [Proper] at hlength
    omega

/-- The parent of an entry is its directory. -/
theorem parentText_child_iff (hsegment : segment ≠ [] ∧ '/' ∉ segment) (hlocated : Located (child dir segment)) :
    parentText (child dir segment) = dir ↔ Normal dir ∧ (segment ≠ ['.'] ∨ dir = ['/']) :=
  ⟨normal_of_parentText hsegment hlocated, fun h => parentText_of_normal hsegment h.1 h.2⟩

/-! ### Another name -/

/-- `str(Path(s))`. -/
def text (s : List Char) : List Char := str (rootOf s) (tailOf s)

/-- The text that `Path(dir) / name` reads. -/
def join (dir name : List Char) : List Char :=
  if name.head? = some '/' then name
  else if dir = [] ∨ dir.getLast? = some '/' then dir ++ name
  else dir ++ '/' :: name

/-- `str(Path(str(Path(s).parent)) / name)`. -/
def sibling (s name : List Char) : List Char := text (join (parentText s) name)

/-- What stands in front of the last segment, with its slash. -/
def dirPart (s : List Char) : List Char := s.rdropWhile (· ≠ '/')

/-- As `pathlib` writes it, or a root behind which no segment counts. -/
def Written (s : List Char) : Prop := text s = s ∨ s ∈ [[], ['/', '.'], ['/', '/', '.']]

instance (s : List Char) : Decidable (Written s) := inferInstanceAs (Decidable (_ ∨ _))

/-- Segments, each with its slash. -/
def front (tail : List (List Char)) : List Char := tail.flatMap (· ++ ['/'])

theorem intercalate_front (tail : List (List Char)) (segment : List Char) :
    ['/'].intercalate (tail ++ [segment]) = front tail ++ segment := by
  induction tail with
  | nil => simp [front]
  | cons x tail ih =>
    obtain ⟨y, rest, hrest⟩ := List.exists_cons_of_ne_nil (List.append_ne_nil_of_right_ne_nil tail (List.cons_ne_nil segment []))
    rw [List.cons_append, hrest, List.intercalate_cons_cons, ← hrest, ih]
    simp [front]

theorem front_concat (tail : List (List Char)) (x : List Char) : front (tail ++ [x]) = front tail ++ x ++ ['/'] := by
  simp [front]

theorem dirPart_append {d : List Char} (hd : d = [] ∨ ∃ e, d = e ++ ['/']) (hsegment : '/' ∉ segment) :
    dirPart (d ++ segment) = d := by
  have hall : ∀ c ∈ segment.reverse, decide (c ≠ '/') = true := fun c hc =>
    decide_eq_true fun h => hsegment (h ▸ List.mem_reverse.1 hc)
  rw [dirPart, List.rdropWhile, List.reverse_append, List.dropWhile_append_of_pos hall]
  rcases hd with rfl | ⟨e, rfl⟩ <;> simp

theorem exists_dirPart (s : List Char) : ∃ segment, '/' ∉ segment ∧ s = dirPart s ++ segment := by
  refine ⟨s.rtakeWhile (· ≠ '/'), fun h => ?_, List.rdropWhile_append_rtakeWhile.symm⟩
  have hne := List.mem_rtakeWhile_imp h
  simp at hne

/-- A root and a front end with a slash. -/
theorem front_ends (hroot : root = [] ∨ root ∈ [['/'], ['/', '/']]) (tail : List (List Char)) :
    root ++ front tail = [] ∨ ∃ e, root ++ front tail = e ++ ['/'] := by
  rcases List.eq_nil_or_concat tail with rfl | ⟨tail, x, rfl⟩
  · simp only [List.mem_cons, List.not_mem_nil, or_false] at hroot
    rcases hroot with rfl | rfl | rfl
    · exact .inl rfl
    · exact .inr ⟨[], rfl⟩
    · exact .inr ⟨['/'], rfl⟩
  · rw [List.concat_eq_append, front_concat]
    exact .inr ⟨root ++ (front tail ++ x), by simp⟩

theorem tailOf_front (hroot : root = [] ∨ root ∈ [['/'], ['/', '/']]) (htail : ∀ x ∈ tail, Proper x ∧ '/' ∉ x)
    (hsegment : '/' ∉ segment) : tailOf (root ++ front tail ++ segment) = tail ++ [segment].filter fun x => Proper x := by
  have hread : tailOf (front tail ++ segment) = tail ++ [segment].filter fun x => Proper x := by
    have hall : ∀ x ∈ tail ++ [segment], '/' ∉ x := by
      intro x hx
      rcases List.mem_append.1 hx with hx | hx
      · exact (htail x hx).2
      · rwa [List.mem_singleton.1 hx]
    rw [tailOf, ← intercalate_front, List.splitOn_intercalate '/' hall (by simp), List.filter_append, filter_proper htail]
  rw [List.append_assoc]
  rcases hroot with rfl | hroot
  · exact hread
  · rw [tailOf_root hroot, hread]

/-- A path is written from its root on. -/
theorem text_written (hroot : root = [] ∨ root ∈ [['/'], ['/', '/']]) (htail : ∀ x ∈ tail, Proper x ∧ '/' ∉ x)
    (hne : tail ≠ []) : text (root ++ ['/'].intercalate tail) = root ++ ['/'].intercalate tail := by
  rcases hroot with rfl | hroot
  · obtain ⟨c, rest, hhead, hc⟩ := head_intercalate hne (ne_nil_of_proper htail)
    have hroot : rootOf (['/'].intercalate tail) = [] := by
      rw [rootOf_eq_nil_iff, hhead]
      simpa using hc
    rw [List.nil_append, text, hroot, tailOf, List.splitOn_intercalate '/' (fun x hx => (htail x hx).2) hne,
      filter_proper htail, str, if_neg (by simp [hne]), List.nil_append]
  · obtain ⟨hrootOf, htailOf⟩ := read_rooted hroot hne (ne_nil_of_proper htail)
    rw [text, hrootOf, htailOf, filter_proper htail, str_of_root hroot]

theorem join_front (hroot : root = [] ∨ root ∈ [['/'], ['/', '/']]) (htail : ∀ x ∈ tail, Proper x ∧ '/' ∉ x)
    (hname : '/' ∉ segment) (hne : root ≠ [] ∨ tail ≠ []) :
    join (root ++ ['/'].intercalate tail) segment = root ++ front tail ++ segment := by
  have hhead : segment.head? ≠ some '/' := fun h => hname (List.mem_of_mem_head? h)
  rw [join, if_neg hhead]
  rcases List.eq_nil_or_concat tail with rfl | ⟨tail, x, rfl⟩
  · simp only [List.mem_cons, List.not_mem_nil, or_false] at hroot
    rcases hroot with rfl | rfl | rfl
    · simp at hne
    · rfl
    · rfl
  · rw [List.concat_eq_append] at htail ⊢
    obtain ⟨⟨hx, -⟩, hslash⟩ := htail x (by simp)
    obtain ⟨y, c, rfl⟩ := (List.eq_nil_or_concat x).resolve_left hx
    rw [List.concat_eq_append] at hslash ⊢
    have hc : c ≠ '/' := fun h => hslash (by simp [h])
    rw [intercalate_front, front_concat, if_neg (by simp [hc])]
    simp

/-- The path with another name stands behind the segments of the parent. -/
theorem sibling_eq {name : List Char} (hname : Proper name ∧ '/' ∉ name) (s : List Char) :
    sibling s name = rootOf s ++ front (tailOf s).dropLast ++ name := by
  have hroot := rootOf_mem s
  have htail : ∀ x ∈ (tailOf s).dropLast, Proper x ∧ '/' ∉ x := fun x hx => mem_tailOf (List.dropLast_subset _ hx)
  rw [sibling, parentText]
  generalize rootOf s = root at hroot ⊢
  generalize (tailOf s).dropLast = tail at htail ⊢
  by_cases hempty : root = [] ∧ tail = []
  · -- the parent is the directory one is in
    obtain ⟨rfl, rfl⟩ := hempty
    have hjoin : join (str [] []) name = ['.', '/'] ++ name := by
      have hhead : name.head? ≠ some '/' := fun h => hname.2 (List.mem_of_mem_head? h)
      rw [join, if_neg hhead]
      rfl
    have hread : tailOf (['.', '/'] ++ name) = [name] := by
      have hsplit : (['.', '/'] ++ name).splitOn '/' = ['.'] :: name.splitOn '/' := by
        simp [List.splitOn_cons_eq_if_modifyHead]
      rw [tailOf, hsplit, List.splitOn_eq_singleton hname.2]
      simp [Proper, hname.1.1, hname.1.2]
    have hrootOf : rootOf (['.', '/'] ++ name) = [] := rootOf_eq_nil_iff.2 (by simp)
    rw [hjoin, text, hread, hrootOf]
    simp [str, front]
  · have hstr : str root tail = root ++ ['/'].intercalate tail := if_neg hempty
    have hall : ∀ x ∈ tail ++ [name], Proper x ∧ '/' ∉ x := by
      intro x hx
      rcases List.mem_append.1 hx with hx | hx
      · exact htail x hx
      · rwa [List.mem_singleton.1 hx]
    rw [hstr, join_front hroot htail hname.2 (by tauto), List.append_assoc, ← intercalate_front]
    exact text_written hroot hall (by simp)

/-- Only paths that `pathlib` writes so keep the text in front of the name. -/
theorem sibling_eq_iff {name : List Char} (hname : Proper name ∧ '/' ∉ name) (s : List Char) :
    sibling s name = dirPart s ++ name ↔ Written s := by
  have hroot := rootOf_mem s
  have htail : ∀ x ∈ tailOf s, Proper x ∧ '/' ∉ x := fun x hx => mem_tailOf hx
  rw [sibling_eq hname, List.append_left_inj]
  constructor
  · intro h
    obtain ⟨segment, hsegment, hs⟩ := exists_dirPart s
    rw [← h] at hs
    have hread := tailOf_front hroot (fun x hx => htail x (List.dropLast_subset _ hx)) hsegment
    rw [← hs] at hread
    by_cases hproper : Proper segment
    · left
      rw [List.filter_singleton, decide_eq_true hproper, cond_true] at hread
      rw [text, hread, str, if_neg (by simp), intercalate_front, ← List.append_assoc]
      exact hs.symm
    · -- without a last segment there is none in front of it
      rw [List.filter_singleton, decide_eq_false hproper, cond_false, List.append_nil] at hread
      have hnil : tailOf s = [] := by
        have hlength := congrArg List.length hread
        rw [List.length_dropLast] at hlength
        exact List.length_eq_zero_iff.1 (by omega)
      have hsegment' : segment = [] ∨ segment = ['.'] := by
        unfold Proper at hproper
        tauto
      rw [hnil] at hs
      simp only [List.mem_cons, List.not_mem_nil, or_false] at hroot
      rcases hroot with hroot | hroot | hroot <;> rw [hroot] at hs <;> rcases hsegment' with rfl | rfl <;>
        rw [hs] <;> decide
  · rintro (h | h)
    · rcases List.eq_nil_or_concat (tailOf s) with hnil | ⟨tail, x, hconcat⟩
      · rw [text, hnil] at h
        rw [hnil]
        simp only [List.mem_cons, List.not_mem_nil, or_false] at hroot
        rcases hroot with hroot | hroot | hroot <;> rw [hroot] at h ⊢ <;> rw [← h] <;> rfl
      · rw [List.concat_eq_append] at hconcat
        rw [text, hconcat, str, if_neg (by simp), intercalate_front, ← List.append_assoc] at h
        rw [hconcat, List.dropLast_concat]
        conv_rhs => rw [← h]
        exact (dirPart_append (front_ends hroot tail) (htail x (by simp [hconcat])).2).symm
    · simp only [List.mem_cons, List.not_mem_nil, or_false] at h
      rcases h with rfl | rfl | rfl <;> decide

/-- The two slashes of a URI are lost. -/
theorem not_written_of_uri {scheme : List Char} (hscheme : scheme ≠ [] ∧ '/' ∉ scheme) (rest : List Char) :
    ¬ Written (scheme ++ '/' :: '/' :: rest) := by
  obtain ⟨c, cs, rfl⟩ := List.exists_cons_of_ne_nil hscheme.1
  have hc : c ≠ '/' := fun h => hscheme.2 (h ▸ List.mem_cons_self)
  rintro (h | h)
  · have hroot : rootOf (c :: cs ++ '/' :: '/' :: rest) = [] := rootOf_eq_nil_iff.2 (by simpa using hc)
    have hmem : [] ∈ (c :: cs ++ '/' :: '/' :: rest).splitOn '/' := by
      rw [List.splitOn_append_cons_self]
      simp [List.splitOn_cons_eq_if_modifyHead]
    have htail := fun x (hx : x ∈ tailOf (c :: cs ++ '/' :: '/' :: rest)) => mem_tailOf hx
    rw [text, hroot, str] at h
    split_ifs at h with hempty
    · have hlength := congrArg List.length h
      simp at hlength
    · rw [← h, List.nil_append, List.splitOn_intercalate '/' (fun x hx => (htail x hx).2) fun hnil => hempty ⟨rfl, hnil⟩]
        at hmem
      exact (htail _ hmem).1.1 rfl
  · simp [hc] at h

end PurePath
