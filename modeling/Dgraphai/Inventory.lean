import Dgraphai.Lib.CypherRun
import Dgraphai.Lib.PyText
import Dgraphai.Taxonomy

/-!
# Inventory queries (`api/inventory.py`)

A category's query with the attribute filters of a request put before its RETURN, and a page of its rows.
-/

namespace Dgraphai.Inventory

open Cypher PyText PropertyGraph

/-! ### Attribute filters -/

/-- An entry of `filters`; a key may be missing. -/
structure Filter where
  field : Option Text
  op : Option Text
  value : Option Text
  deriving DecidableEq, Repr

/-- `_ops_for_kind`. -/
def opsForKind (kind : String) : List String :=
  if kind = "bool" then ["= true", "= false"]
  else if kind = "num" then ["=", ">", ">=", "<", "<=", "IS NOT NULL", "IS NULL"]
  else if kind = "size" then [">", ">=", "<", "<="]
  else if kind = "date" then [">", ">=", "<", "<=", "IS NOT NULL", "IS NULL"]
  else if kind = "badge" then ["=", "<>", "IS NOT NULL", "IS NULL", "CONTAINS"]
  else ["=", "<>", "CONTAINS", "STARTS WITH", "IS NOT NULL", "IS NULL"]

/-- `'{safe_val}'`. -/
def quoted (val : Text) : Text := '\'' :: escapeQuotes val ++ ['\'']

/-- What follows the operator, of one that takes a value. -/
def operandText (U : Unicode) (op val : Text) : Text :=
  if op = "CONTAINS".toList ∨ op = "STARTS WITH".toList ∨ op = "ENDS WITH".toList then quoted val
  else if lower val = "true".toList ∨ lower val = "false".toList then lower val
  else if isFloat U val then val
  else quoted val

/-- The clause of a filter; none without a field. -/
def Filter.clause (U : Unicode) (f : Filter) : Option Text :=
  let field := (f.field.getD []).filter U.isWord
  let op := f.op.getD ['=']
  let val := f.value.getD []
  if field = [] then none
  else if op = "IS NULL".toList ∨ op = "IS NOT NULL".toList then some ('f' :: '.' :: field ++ ' ' :: op)
  else some ('f' :: '.' :: field ++ ' ' :: op ++ ' ' :: operandText U op val)

def clauses (U : Unicode) (filters : List Filter) : List Text := filters.filterMap (·.clause U)

/-- `" AND ".join(clauses)`. -/
def extra (U : Unicode) (filters : List Filter) : Text := List.intercalate " AND ".toList (clauses U filters)

/-- `_apply_attribute_filters`; `none` where `re.sub` raises. -/
def applyAttributeFilters (U : Unicode) (cypher : Text) (filters : List Filter) : Option Text :=
  if clauses U filters = [] then some cypher
  else
    let word := if (search U "WHERE".toList [] cypher).isSome then "AND ".toList else "WHERE ".toList
    let template := word ++ extra U filters ++ " \\1".toList
    match search U "RETURN".toList [] cypher with
    | some (before, ret, after) => (expandTemplate [ret, ret] template).map fun t => before ++ t ++ after
    | none => (expandTemplate [[], []] template).map fun _ => cypher

/-! ### Pages -/

/-- The page asked for: `page >= 0`, `1 <= page_size <= 200`. -/
structure Paging where
  page : Nat
  pageSize : Nat
  one_le : 1 ≤ pageSize
  le : pageSize ≤ 200

/-- `PAGE_SIZE`, and the first page. -/
def Paging.default : Paging := ⟨0, 25, by decide, by decide⟩

/-- ` SKIP {skip} LIMIT {limit}`. -/
def pageText (skip limit : Nat) : Text :=
  " SKIP ".toList ++ Nat.toDigits 10 skip ++ " LIMIT ".toList ++ Nat.toDigits 10 limit

/-- `_cypher_with_pagination`. -/
def cypherWithPagination (U : Unicode) (cypher : Text) (skip limit : Nat) : Text :=
  removeNumbered U "LIMIT".toList cypher ++ pageText skip limit

/-! ### The endpoint -/

/-- `{"tid": tid}`. -/
def tidParams (tid : String) : Params := fun p => if p = "tid".toList then some (.str tid) else none

/-- `gclient.query`: the rows, or `none` for an error of the database. -/
def graphQuery (R : Reading) (g : Graph) (cypher : Text) (params : Params) : Option (List Node) := do
  let ts ← lex cypher
  let q ← parseQuery ts
  q.run R params g

/-- The query of `get_nodes`; `none` where `_apply_attribute_filters` raises. -/
def finalQuery (U : Unicode) (cat : Category) (filters : List Filter) (p : Paging) : Option Text :=
  (applyAttributeFilters U cat.cypher.toList filters).map fun base =>
    cypherWithPagination U base (p.page * p.pageSize) p.pageSize

inductive Response where
  | notFound
  /-- An error nobody catches. -/
  | raised
  | nodes (rows : List Node)

/-- The nodes of `get_filtered_nodes`; an error of the database yields none. -/
def getFilteredNodes (U : Unicode) (R : Reading) (g : Graph) (tid categoryId : String) (filters : List Filter)
    (p : Paging) : Response :=
  match getCategory categoryId with
  | none => .notFound
  | some cat =>
    match finalQuery U cat filters p with
    | none => .raised
    | some cypher => .nodes ((graphQuery R g cypher (tidParams tid)).getD [])

end Dgraphai.Inventory
