import Dgraphai.Lib.Json
import Mathlib.Data.List.Nodup
import Mathlib.Data.List.Sort

/-!
# Objects as dictionaries

Where the names are distinct, a field is found wherever it stands (`field?_perm`). `sorted` puts the fields of every
object in the order of their names; that changes the order only (`same_sorted`).
-/

namespace Json

variable {fs gs : List (String × Json)} {k : String} {j : Json}

theorem field?_eq_some_iff (h : (fs.map (·.1)).Nodup) : field? fs k = some j ↔ (k, j) ∈ fs := by
  rw [field?, Option.map_eq_some_iff]
  constructor
  · rintro ⟨⟨k', j'⟩, hfind, rfl⟩
    have hk := List.find?_some hfind
    rw [decide_eq_true_iff] at hk
    have hmem := List.mem_reverse.1 (List.mem_of_find?_eq_some hfind)
    rw [← hk]
    exact hmem
  · intro hmem
    have hsome : (fs.reverse.find? (·.1 = k)).isSome = true := by
      rw [List.find?_isSome]
      exact ⟨(k, j), List.mem_reverse.2 hmem, decide_eq_true rfl⟩
    obtain ⟨p, hp⟩ := Option.isSome_iff_exists.1 hsome
    have hk := List.find?_some hp
    rw [decide_eq_true_iff] at hk
    have hp' := List.mem_reverse.1 (List.mem_of_find?_eq_some hp)
    exact ⟨p, hp, by rw [List.inj_on_of_nodup_map h hp' hmem hk]⟩

theorem field?_perm (hp : fs.Perm gs) (h : (fs.map (·.1)).Nodup) : field? fs k = field? gs k := by
  refine Option.ext fun j => ?_
  rw [field?_eq_some_iff h, field?_eq_some_iff ((hp.map _).nodup_iff.1 h), hp.mem_iff]

/-! ### Fields in order -/

mutual

/-- The fields of every object in the order of their names (`sort_keys=True`). -/
def sorted : Json → Json
  | .arr xs => .arr (sortedItems xs)
  | .obj fs => .obj ((sortedFields fs).insertionSort fun p q => p.1 ≤ q.1)
  | .null => .null
  | .bool b => .bool b
  | .num n => .num n
  | .real text => .real text
  | .str s => .str s

def sortedItems : List Json → List Json
  | [] => []
  | x :: xs => sorted x :: sortedItems xs

def sortedFields : List (String × Json) → List (String × Json)
  | [] => []
  | (k, x) :: fs => (k, sorted x) :: sortedFields fs

end

theorem sortedFields_eq_map : sortedFields fs = fs.map fun p => (p.1, p.2.sorted) := by
  induction fs with
  | nil => rfl
  | cons p fs ih => rw [sortedFields, ih, List.map_cons]

theorem keys_sortedFields : (sortedFields fs).map (·.1) = fs.map (·.1) := by
  rw [sortedFields_eq_map, List.map_map]
  rfl

/-- A field of an object once it is sorted. -/
theorem field?_sorted (h : (fs.map (·.1)).Nodup) :
    field? ((sortedFields fs).insertionSort fun p q => p.1 ≤ q.1) k = (field? fs k).map sorted := by
  have hkeys : ((sortedFields fs).map (·.1)).Nodup := by
    rw [keys_sortedFields]
    exact h
  rw [← field?_perm (List.perm_insertionSort _ _).symm hkeys]
  refine Option.ext fun j => ?_
  rw [field?_eq_some_iff hkeys, sortedFields_eq_map, List.mem_map, Option.map_eq_some_iff]
  constructor
  · rintro ⟨⟨k', j'⟩, hmem, heq⟩
    obtain ⟨rfl, rfl⟩ := Prod.mk.inj heq
    exact ⟨j', (field?_eq_some_iff h).2 hmem, rfl⟩
  · rintro ⟨j', hj', rfl⟩
    exact ⟨(k, j'), (field?_eq_some_iff h).1 hj', rfl⟩

/-! ### Equality of dictionaries -/

mutual

/-- Equal but for the order of the fields. -/
inductive Same : Json → Json → Prop
  | refl (j : Json) : Same j j
  | arr {xs ys : List Json} : SameItems xs ys → Same (.arr xs) (.arr ys)
  | obj {fs gs hs : List (String × Json)} : SameFields fs gs → gs.Perm hs → Same (.obj fs) (.obj hs)

inductive SameItems : List Json → List Json → Prop
  | nil : SameItems [] []
  | cons {x y : Json} {xs ys : List Json} : Same x y → SameItems xs ys → SameItems (x :: xs) (y :: ys)

inductive SameFields : List (String × Json) → List (String × Json) → Prop
  | nil : SameFields [] []
  | cons {k : String} {x y : Json} {fs gs : List (String × Json)} :
    Same x y → SameFields fs gs → SameFields ((k, x) :: fs) ((k, y) :: gs)

end

mutual

theorem same_sorted : ∀ j : Json, Same j j.sorted
  | .arr xs => by
    rw [sorted]
    exact .arr (sameItems_sorted xs)
  | .obj fs => by
    rw [sorted]
    exact .obj (sameFields_sorted fs) (List.perm_insertionSort _ _).symm
  | .null | .bool _ | .num _ | .real _ | .str _ => by
    rw [sorted]
    exact .refl _

theorem sameItems_sorted : ∀ xs : List Json, SameItems xs (sortedItems xs)
  | [] => .nil
  | x :: xs => .cons (same_sorted x) (sameItems_sorted xs)

theorem sameFields_sorted : ∀ fs : List (String × Json), SameFields fs (sortedFields fs)
  | [] => .nil
  | (_, x) :: fs => .cons (same_sorted x) (sameFields_sorted fs)

end

end Json
