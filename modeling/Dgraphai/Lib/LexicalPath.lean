import Mathlib.Data.List.Basic
import Mathlib.Algebra.Order.Ring.Nat

/-!
# Lexical paths

`clean`, `join` and `rel` of slash-separated paths, as Go's `path/filepath` documents them on a POSIX system. A
cleaned path is a start, the root or some number of `..`, and the names below it; `parse` reads any path as one,
and `clean` writes it back (`parse_text`). Elements are followed one by one from where the path stands
(`follow_eq`), so a join stays below its first part exactly if the second comes back to it (`below_follow_iff`).
-/

namespace LexicalPath

/-- An element that names an entry of a directory. -/
def IsName (s : List Char) : Prop := s ≠ [] ∧ s ≠ ['.'] ∧ s ≠ ['.', '.'] ∧ '/' ∉ s

instance (s : List Char) : Decidable (IsName s) := inferInstanceAs (Decidable (_ ∧ _))

abbrev Name := {s : List Char // IsName s}

/-- Where a cleaned path starts: at the root, or some directories above the current one. -/
inductive Start where
  | root
  | up (n : ℕ)
  deriving DecidableEq, Repr

/-- The start without the `..`. -/
def Start.base : Start → Start
  | .root => .root
  | .up _ => .up 0

def Start.dots : Start → List (List Char)
  | .root => []
  | .up n => List.replicate n ['.', '.']

/-- The start that lies some directories above, but no higher than the root. -/
def Start.above : Start → ℕ → Start
  | .root, _ => .root
  | .up n, k => .up (n + k)

/-- A cleaned path. -/
@[ext]
structure Cleaned where
  start : Start
  names : List Name
  deriving DecidableEq

namespace Cleaned

def here : Cleaned := ⟨.up 0, []⟩

/-- What `..` leads to: nothing is above the root. -/
def parent (p : Cleaned) : Cleaned :=
  if p.names ≠ [] then { p with names := p.names.dropLast }
  else
    match p.start with
    | .root => p
    | .up n => ⟨.up (n + 1), []⟩

/-- One element of a path; an empty one and `.` lead nowhere. -/
def push (p : Cleaned) (element : List Char) : Cleaned :=
  if h : IsName element then { p with names := p.names ++ [⟨element, h⟩] }
  else if element = ['.', '.'] then p.parent
  else p

/-- The elements of a path, from `p` on. -/
def follow (p : Cleaned) (s : List Char) : Cleaned := (s.splitOn '/').foldl push p

/-- The elements of a cleaned path. -/
def elements (p : Cleaned) : List (List Char) := p.start.dots ++ p.names.map Subtype.val

def text (p : Cleaned) : List Char :=
  match p.start with
  | .root => '/' :: ['/'].intercalate p.elements
  | .up _ => if p.elements = [] then ['.'] else ['/'].intercalate p.elements

/-- `q` is `p`, or stands somewhere below it. -/
def Below (p q : Cleaned) : Prop := p.start = q.start ∧ p.names <+: q.names

instance (p q : Cleaned) : Decidable (p.Below q) := inferInstanceAs (Decidable (_ ∧ _))

end Cleaned

/-- A path, read element by element. -/
def parse (s : List Char) : Cleaned :=
  (if s.head? = some '/' then ⟨.root, []⟩ else Cleaned.here : Cleaned).follow s

/-- `filepath.Clean`. -/
def clean (s : List Char) : List Char := (parse s).text

/-- `filepath.Join` of two parts; empty parts are ignored. -/
def join (s t : List Char) : List Char :=
  if s ≠ [] then clean (s ++ '/' :: t) else if t ≠ [] then clean t else []

/-- What is left of both lists behind the elements they begin with alike. -/
def dropCommon {α : Type*} [DecidableEq α] : List α → List α → List α × List α
  | a :: as, b :: bs => if a = b then dropCommon as bs else (a :: as, b :: bs)
  | as, bs => (as, bs)

/-- `filepath.Rel`; `none` is its error. -/
def rel (base target : List Char) : Option (List Char) :=
  let b := parse base
  let t := parse target
  if b = t then some ['.']
  else if b.start.base ≠ t.start.base then none
  else
    let (left, right) := dropCommon b.elements t.elements
    if left.head? = some ['.', '.'] then none
    else some (['/'].intercalate (left.map (fun _ => ['.', '.']) ++ right))

/-! ### Reading a cleaned path -/

namespace Cleaned

variable {p q : Cleaned}

theorem push_name (p : Cleaned) (n : Name) : p.push n.1 = { p with names := p.names ++ [n] } := dif_pos n.2

theorem push_nil (p : Cleaned) : p.push [] = p := rfl

theorem foldl_push_names (p : Cleaned) (ns : List Name) :
    (ns.map Subtype.val).foldl push p = { p with names := p.names ++ ns } := by
  induction ns generalizing p with
  | nil => rw [List.append_nil]; rfl
  | cons n ns ih =>
    rw [List.map_cons, List.foldl_cons, push_name, ih]
    simp

theorem foldl_push_dots (k n : ℕ) :
    (List.replicate n ['.', '.']).foldl push ⟨.up k, []⟩ = ⟨.up (k + n), []⟩ := by
  induction n generalizing k with
  | zero => rfl
  | succ n ih =>
    rw [List.replicate_succ, List.foldl_cons]
    exact (ih (k + 1)).trans (by rw [Nat.add_right_comm, Nat.add_assoc])

theorem eq_dots_of_mem {e : List Char} {start : Start} (h : e ∈ start.dots) : e = ['.', '.'] := by
  cases start with
  | root => exact absurd h List.not_mem_nil
  | up n => exact List.eq_of_mem_replicate h

theorem slash_not_mem_elements {e : List Char} (h : e ∈ p.elements) : '/' ∉ e := by
  rcases List.mem_append.1 h with h | h
  · rw [eq_dots_of_mem h]
    decide
  · obtain ⟨n, -, rfl⟩ := List.mem_map.1 h
    exact n.2.2.2.2

theorem ne_nil_of_mem_elements {e : List Char} (h : e ∈ p.elements) : e ≠ [] := by
  rcases List.mem_append.1 h with h | h
  · rw [eq_dots_of_mem h]
    exact List.cons_ne_nil _ _
  · obtain ⟨n, -, rfl⟩ := List.mem_map.1 h
    exact n.2.1

theorem foldl_push_elements (p : Cleaned) : p.elements.foldl push ⟨p.start.base, []⟩ = p := by
  have hdots : p.start.dots.foldl push ⟨p.start.base, []⟩ = ⟨p.start, []⟩ := by
    cases p.start with
    | root => rfl
    | up n => exact (foldl_push_dots 0 n).trans (by rw [Nat.zero_add])
  rw [elements, List.foldl_append, hdots, foldl_push_names, List.nil_append]

theorem splitOn_elements (h : p.elements ≠ []) : (['/'].intercalate p.elements).splitOn '/' = p.elements :=
  List.splitOn_intercalate '/' (fun _ he => slash_not_mem_elements he) h

theorem head_intercalate (h : p.elements ≠ []) : (['/'].intercalate p.elements).head? ≠ some '/' := by
  obtain ⟨e, es, he⟩ := List.exists_cons_of_ne_nil h
  have hmem : e ∈ p.elements := by rw [he]; exact List.mem_cons_self
  obtain ⟨c, cs, rfl⟩ := List.exists_cons_of_ne_nil (ne_nil_of_mem_elements hmem)
  have hc : c ≠ '/' := fun hc => slash_not_mem_elements hmem (hc ▸ List.mem_cons_self)
  rw [he]
  cases es with
  | nil => simpa using hc
  | cons e' es => simpa [List.intercalate_cons_cons] using hc

theorem follow_elements (h : p.elements ≠ []) :
    follow ⟨p.start.base, []⟩ (['/'].intercalate p.elements) = p := by
  rw [follow, splitOn_elements h, foldl_push_elements]

end Cleaned

open Cleaned

/-- What `clean` writes reads as the same path. -/
theorem parse_text (p : Cleaned) : parse p.text = p := by
  obtain ⟨start, names⟩ := p
  by_cases h : elements ⟨start, names⟩ = []
  · obtain ⟨hdots, hnames⟩ := List.append_eq_nil_iff.1 h
    obtain rfl : names = [] := List.map_eq_nil_iff.1 hnames
    cases start with
    | root => rfl
    | up n =>
      obtain rfl : n = 0 := List.replicate_eq_nil_iff _ |>.1 hdots
      rfl
  · cases start with
    | root =>
      show follow ⟨.root, []⟩ ('/' :: ['/'].intercalate (elements ⟨.root, names⟩)) = _
      rw [follow, List.splitOn_cons_eq_if_modifyHead, if_pos (beq_self_eq_true _), List.foldl_cons, push_nil]
      exact follow_elements h
    | up n =>
      rw [parse, Cleaned.text, if_neg h, if_neg (head_intercalate h)]
      exact follow_elements h

theorem text_ne_nil (p : Cleaned) : p.text ≠ [] := by
  intro h
  have hp := parse_text p
  rw [h] at hp
  rw [← hp] at h
  exact List.cons_ne_nil _ _ h

/-! ### Joining -/

theorem parse_append_slash {s : List Char} (h : s ≠ []) (t : List Char) :
    parse (s ++ '/' :: t) = (parse s).follow t := by
  obtain ⟨c, s, rfl⟩ := List.exists_cons_of_ne_nil h
  rw [parse, parse, follow, follow, follow, List.splitOn_append_cons_self, List.foldl_append]
  rfl

theorem join_eq {s : List Char} (h : s ≠ []) (t : List Char) : join s t = ((parse s).follow t).text := by
  rw [join, if_pos h, clean, parse_append_slash h]

/-! ### Following a relative path -/

namespace Cleaned

variable {p q : Cleaned}

/-- How many `..` a path starts with. -/
def ups (p : Cleaned) : ℕ :=
  match p.start with
  | .root => 0
  | .up n => n

def climb (p : Cleaned) (k : ℕ) : Cleaned := parent^[k] p

/-- The relative path `r`, read from `p`. -/
def place (p r : Cleaned) : Cleaned := { p.climb r.ups with names := (p.climb r.ups).names ++ r.names }

theorem parent_of_ne_nil (h : p.names ≠ []) : p.parent = { p with names := p.names.dropLast } := if_pos h

theorem push_place {r : Cleaned} (hr : r.start ≠ .root) (element : List Char) :
    (p.place r).push element = p.place (r.push element) := by
  obtain ⟨start, names⟩ := r
  obtain _ | n := start
  · exact absurd rfl hr
  rw [push, push]
  split_ifs with hname hdots
  · rw [place, place, List.append_assoc]
    rfl
  · by_cases hnames : names = []
    · obtain rfl := hnames
      have hplace : ∀ k, p.place ⟨.up k, []⟩ = p.climb k := fun k => by
        rw [place, List.append_nil]
        rfl
      rw [hplace]
      exact (Function.iterate_succ_apply' parent n p).symm.trans (hplace (n + 1)).symm
    · have hne : (p.climb n).names ++ names ≠ [] := fun h => hnames (List.append_eq_nil_iff.1 h).2
      rw [parent_of_ne_nil (p := ⟨.up n, names⟩) hnames, parent_of_ne_nil (p := p.place ⟨.up n, names⟩) hne]
      exact congrArg (Cleaned.mk _) (List.dropLast_append_of_ne_nil hnames)
  · rfl

theorem start_push_ne_root {r : Cleaned} (hr : r.start ≠ .root) (element : List Char) :
    (r.push element).start ≠ .root := by
  obtain ⟨start, names⟩ := r
  obtain _ | n := start
  · exact absurd rfl hr
  rw [push]
  split_ifs
  · exact hr
  · rw [parent]
    split_ifs
    · exact hr
    · exact fun h => Start.noConfusion h
  · exact hr

theorem follow_eq (p : Cleaned) (t : List Char) : p.follow t = p.place (here.follow t) := by
  have hfold : ∀ (es : List (List Char)) (r : Cleaned), r.start ≠ .root →
      es.foldl push (p.place r) = p.place (es.foldl push r) := by
    intro es
    induction es with
    | nil => exact fun r _ => rfl
    | cons e es ih =>
      intro r hr
      rw [List.foldl_cons, List.foldl_cons, push_place hr, ih _ (start_push_ne_root hr e)]
  have hhere : p.place here = p := by rw [place, here, List.append_nil]; rfl
  rw [follow, follow, ← hfold _ _ (fun h => Start.noConfusion h), hhere]

theorem climb_of_le {k : ℕ} (h : k ≤ p.names.length) :
    p.climb k = { p with names := p.names.take (p.names.length - k) } := by
  induction k with
  | zero => rw [Nat.sub_zero, List.take_length]; rfl
  | succ k ih =>
    have hlen : (p.names.take (p.names.length - k)).length = p.names.length - k := by
      rw [List.length_take]
      omega
    have hne : p.names.take (p.names.length - k) ≠ [] := by
      rw [← List.length_pos_iff, hlen]
      omega
    rw [climb, Function.iterate_succ_apply', ← climb, ih (by omega), parent_of_ne_nil hne, List.dropLast_eq_take, hlen,
      List.take_take]
    congr 2
    omega

theorem climb_of_ge (p : Cleaned) (k : ℕ) : p.climb (p.names.length + k) = ⟨p.start.above k, []⟩ := by
  induction k with
  | zero =>
    rw [Nat.add_zero, climb_of_le (Nat.le_refl _), Nat.sub_self]
    cases p.start <;> rfl
  | succ k ih =>
    rw [← Nat.add_assoc, climb, Function.iterate_succ_apply', ← climb, ih]
    cases p.start <;> rfl

/-- A path leads back below where it starts if it ends with the names it has climbed over, and can climb over them. -/
theorem below_follow_iff (p : Cleaned) (t : List Char) : p.Below (p.follow t) ↔
    p.names.drop (p.names.length - (here.follow t).ups) <+: (here.follow t).names ∧
      ((here.follow t).ups ≤ p.names.length ∨ p.start = .root) := by
  rw [follow_eq, Below, place]
  generalize here.follow t = r
  rcases Nat.lt_or_ge p.names.length r.ups with hlt | hle
  · obtain ⟨k, hk⟩ : ∃ k, r.ups = p.names.length + (k + 1) := ⟨r.ups - p.names.length - 1, by omega⟩
    have hzero : p.names.length - r.ups = 0 := by omega
    rw [hzero, hk, climb_of_ge, List.drop_zero, List.nil_append]
    obtain ⟨start, names⟩ := p
    cases start with
    | root => simp [Start.above]
    | up n =>
      have hlong : ¬ names.length + (k + 1) ≤ names.length := by omega
      simp [Start.above, hlong]
  · have hprefix : p.names.take (p.names.length - r.ups) ++ p.names.drop (p.names.length - r.ups) <+:
        p.names.take (p.names.length - r.ups) ++ r.names ↔ p.names.drop (p.names.length - r.ups) <+: r.names :=
      List.prefix_append_right_inj _
    rw [List.take_append_drop] at hprefix
    rw [climb_of_le hle]
    simp [hle, hprefix]

/-! ### Below a directory -/

def below (p : Cleaned) (names : List Name) : Cleaned := { p with names := p.names ++ names }

theorem follow_names (p : Cleaned) {names : List Name} (h : names ≠ []) :
    p.follow (['/'].intercalate (names.map Subtype.val)) = p.below names := by
  have hslash : ∀ e ∈ names.map Subtype.val, '/' ∉ e := by
    intro e he
    obtain ⟨n, -, rfl⟩ := List.mem_map.1 he
    exact n.2.2.2.2
  rw [follow, List.splitOn_intercalate '/' hslash (mt List.map_eq_nil_iff.1 h), foldl_push_names]
  rfl

theorem follow_name (p : Cleaned) (n : Name) : p.follow n.1 = p.below [n] := by
  have h := p.follow_names (List.cons_ne_nil n [])
  rwa [List.map_singleton, List.intercalate_singleton] at h

theorem below_below (p : Cleaned) (names names' : List Name) :
    (p.below names).below names' = p.below (names ++ names') := by
  rw [below, below, below, List.append_assoc]

end Cleaned

theorem dropCommon_append {α : Type*} [DecidableEq α] (as bs : List α) : dropCommon as (as ++ bs) = ([], bs) := by
  induction as with
  | nil => cases bs <;> rfl
  | cons a as ih =>
    rw [List.cons_append, dropCommon, if_pos rfl, ih]

theorem rel_below {base target : List Char} {names : List Name} (h : parse target = (parse base).below names) :
    rel base target = some (if names = [] then ['.'] else ['/'].intercalate (names.map Subtype.val)) := by
  by_cases hnames : names = []
  · obtain rfl := hnames
    have heq : parse base = parse target := by
      rw [h, Cleaned.below, List.append_nil]
    rw [rel, if_pos heq, if_pos rfl]
  · have hne : parse base ≠ parse target := by
      intro heq
      have hlen := congrArg (fun p => p.names.length) (heq.trans h)
      simp [Cleaned.below, hnames] at hlen
    have hbase : ¬ (parse base).start.base ≠ (parse target).start.base := by
      rw [h]
      exact fun hne => hne rfl
    have helements : (parse target).elements = (parse base).elements ++ names.map Subtype.val := by
      rw [h, Cleaned.elements, Cleaned.elements, Cleaned.below, List.map_append, List.append_assoc]
    rw [rel, if_neg hne, if_neg hbase, helements, dropCommon_append, if_neg hnames]
    rfl

end LexicalPath
