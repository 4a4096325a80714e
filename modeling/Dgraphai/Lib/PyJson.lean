import Dgraphai.Lib.Json

/-!
# Python operations on decoded JSON values

`none` and `Except.error` stand for a raised exception; an object is a `dict`.
-/

namespace Json

abbrev Fields := List (String × Json)

/-- `d.get(k, default)`. -/
def getD (fields : Fields) (k : String) (default : Json) : Json := (field? fields k).getD default

theorem field?_concat {fields : Fields} {k k' : String} {x : Json} :
    field? (fields ++ [(k, x)]) k' = if k = k' then some x else field? fields k' := by
  unfold field?
  rw [List.reverse_append, List.reverse_singleton, List.singleton_append, List.find?_cons]
  by_cases h : k = k' <;> simp [h]

theorem field?_nil (k : String) : field? [] k = none := rfl

theorem field?_cons {fields : Fields} {k k' : String} {x : Json} :
    field? ((k, x) :: fields) k' = (field? fields k').or (if k = k' then some x else none) := by
  unfold field?
  rw [List.reverse_cons, List.find?_append, Option.map_or, List.find?_singleton]
  by_cases h : k = k' <;> simp [h]

theorem field?_append_of_ne {fields others : Fields} {k : String} (h : ∀ x ∈ others, x.1 ≠ k) :
    field? (fields ++ others) k = field? fields k := by
  have hnone : others.reverse.find? (fun x => x.1 = k) = none := by
    refine List.find?_eq_none.2 fun x hx => ?_
    simpa using h x (List.mem_reverse.1 hx)
  unfold field?
  rw [List.reverse_append, List.find?_append, hnone, Option.none_or]

/-- `type(j).__name__`. -/
def typeName : Json → String
  | .null => "NoneType"
  | .bool _ => "bool"
  | .num _ => "int"
  | .real _ => "float"
  | .str _ => "str"
  | .arr _ => "list"
  | .obj _ => "dict"

def asDict : Json → Option Fields
  | .obj fields => some fields
  | _ => none

/-- `j.get(k, default)` of any value: the text of the `AttributeError` where `j` is no `dict`. -/
def attrGet (j : Json) (k : String) (default : Json) : Except String Json :=
  match j with
  | .obj fields => .ok (getD fields k default)
  | j => .error ("'" ++ j.typeName ++ "' object has no attribute 'get'")

/-- `bool(j)`, for a test of the texts of floats against zero. -/
def truthy (isZero : String → Bool) : Json → Bool
  | .null => false
  | .bool b => b
  | .num n => n ≠ 0
  | .real text => !isZero text
  | .str s => s ≠ ""
  | .arr items => !items.isEmpty
  | .obj fields => !fields.isEmpty

/-- The keys of a `dict`, each once. -/
def keys (fields : Fields) : List String := (fields.map (·.1)).eraseDups

/-- `len(j)`. -/
def len? : Json → Option Nat
  | .str s => some s.length
  | .arr items => some items.length
  | .obj fields => some (keys fields).length
  | _ => none

/-- `list(j)`. -/
def iter? : Json → Option (List Json)
  | .str s => some (s.toList.map fun c => .str c.toString)
  | .arr items => some items
  | .obj fields => some ((keys fields).map .str)
  | _ => none

/-- `j[i]`; a `dict` has no `int` among its keys. -/
def index? : Json → Nat → Option Json
  | .str s, i => s.toList[i]?.map fun c => .str c.toString
  | .arr items, i => items[i]?
  | _, _ => none

theorem mem_iter?_of_index? {j x : Json} {i : Nat} (h : j.index? i = some x) : x ∈ j.iter?.getD [] := by
  cases j with
  | str s =>
    obtain ⟨c, hc, rfl⟩ := Option.map_eq_some_iff.1 h
    exact List.mem_map_of_mem (List.mem_of_getElem? hc)
  | arr items => exact List.mem_of_getElem? (h : items[i]? = some x)
  | null | bool _ | num _ | real _ | obj _ => cases h

/-- `j[:n]`. -/
def take? (n : Nat) : Json → Option Json
  | .str s => some (.str (String.ofList (s.toList.take n)))
  | .arr items => some (.arr (items.take n))
  | _ => none

/-- `j` as an `int` index or summand. -/
def int? : Json → Option Int
  | .num n => some n
  | .bool b => some (if b then 1 else 0)
  | _ => none

end Json

/-- `l[i]`: a negative index counts from the end. -/
def List.pyGet? {α : Type*} (l : List α) (i : Int) : Option α :=
  if 0 ≤ i then l[i.toNat]?
  else if -(l.length : Int) ≤ i then l[(l.length + i).toNat]?
  else none
