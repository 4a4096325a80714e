import Mathlib.Logic.Basic

/-!
# JSON values

`real` carries the text of a number that is not an integer; objects keep the order of their fields.
-/

inductive Json where
  | null
  | bool (b : Bool)
  | num (n : Int)
  | real (text : String)
  | str (s : String)
  | arr (items : List Json)
  | obj (fields : List (String × Json))
  deriving Repr, Inhabited

namespace Json

mutual

def decEq : (a b : Json) → Decidable (a = b)
  | .null, .null => .isTrue rfl
  | .bool a, .bool b => decidable_of_iff (a = b) (by simp)
  | .num a, .num b => decidable_of_iff (a = b) (by simp)
  | .real a, .real b => decidable_of_iff (a = b) (by simp)
  | .str a, .str b => decidable_of_iff (a = b) (by simp)
  | .arr a, .arr b => @decidable_of_iff _ (a = b) (by simp) (decEqItems a b)
  | .obj a, .obj b => @decidable_of_iff _ (a = b) (by simp) (decEqFields a b)
  | .null, .bool _ | .null, .num _ | .null, .real _ | .null, .str _ | .null, .arr _ | .null, .obj _
  | .bool _, .null | .bool _, .num _ | .bool _, .real _ | .bool _, .str _ | .bool _, .arr _
  | .bool _, .obj _ | .num _, .null | .num _, .bool _ | .num _, .real _ | .num _, .str _
  | .num _, .arr _ | .num _, .obj _ | .real _, .null | .real _, .bool _ | .real _, .num _
  | .real _, .str _ | .real _, .arr _ | .real _, .obj _ | .str _, .null | .str _, .bool _
  | .str _, .num _ | .str _, .real _ | .str _, .arr _ | .str _, .obj _ | .arr _, .null
  | .arr _, .bool _ | .arr _, .num _ | .arr _, .real _ | .arr _, .str _ | .arr _, .obj _
  | .obj _, .null | .obj _, .bool _ | .obj _, .num _ | .obj _, .real _ | .obj _, .str _
  | .obj _, .arr _ => .isFalse (by simp)

def decEqItems : (a b : List Json) → Decidable (a = b)
  | [], [] => .isTrue rfl
  | [], _ :: _ => .isFalse (by simp)
  | _ :: _, [] => .isFalse (by simp)
  | x :: a, y :: b =>
    match decEq x y, decEqItems a b with
    | .isTrue h, .isTrue h' => .isTrue (by rw [h, h'])
    | .isFalse h, _ => .isFalse fun e => h (List.cons.inj e).1
    | _, .isFalse h => .isFalse fun e => h (List.cons.inj e).2

def decEqFields : (a b : List (String × Json)) → Decidable (a = b)
  | [], [] => .isTrue rfl
  | [], _ :: _ => .isFalse (by simp)
  | _ :: _, [] => .isFalse (by simp)
  | (k, x) :: a, (k', y) :: b =>
    match (inferInstance : Decidable (k = k')), decEq x y, decEqFields a b with
    | .isTrue h, .isTrue h', .isTrue h'' => .isTrue (by rw [h, h', h''])
    | .isFalse h, _, _ => .isFalse fun e => h (Prod.mk.inj (List.cons.inj e).1).1
    | _, .isFalse h, _ => .isFalse fun e => h (Prod.mk.inj (List.cons.inj e).1).2
    | _, _, .isFalse h => .isFalse fun e => h (List.cons.inj e).2

end

instance : DecidableEq Json := decEq

/-- The last field of that name, as a parsed object keeps it. -/
def field? (fields : List (String × Json)) (k : String) : Option Json :=
  (fields.reverse.find? (·.1 = k)).map (·.2)

end Json
