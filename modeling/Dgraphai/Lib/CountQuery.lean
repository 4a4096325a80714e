import Dgraphai.Lib.PropertyGraph
import Mathlib.Data.List.Nodup
import Mathlib.Data.List.Perm.Basic

/-!
# Queries that count

`MATCH (x:label) WHERE conditions RETURN count(x) AS c`, and the same of a relationship. A query has its text and
its answer over a graph. The answer to a query about nodes is the same over the nodes that meet one of its
conditions (`count_node`).
-/

open PropertyGraph

/-- A condition on `x`. -/
inductive CountQuery.Condition where
  /-- `x.key = $param`. -/
  | equals (key param : String)
  | isNull (key : String)
  | isNotNull (key : String)
  /-- `x.key = true`. -/
  | isTrue (key : String)
  /-- `(x:A OR x:B)`. -/
  | anyLabel (labels : List String)
  deriving DecidableEq, Repr

inductive CountQuery.Pattern where
  /-- `(x:label)`. -/
  | node (label : Option String)
  /-- `()-[x:A|B]->()`. -/
  | rel (types : List String)
  deriving DecidableEq, Repr

structure CountQuery where
  var : String
  pattern : CountQuery.Pattern
  conditions : List CountQuery.Condition
  deriving DecidableEq, Repr

namespace CountQuery

def Condition.text (x : String) : Condition → String
  | .equals key param => x ++ "." ++ key ++ " = $" ++ param
  | .isNull key => x ++ "." ++ key ++ " IS NULL"
  | .isNotNull key => x ++ "." ++ key ++ " IS NOT NULL"
  | .isTrue key => x ++ "." ++ key ++ " = true"
  | .anyLabel labels => "(" ++ String.intercalate " OR " (labels.map fun l => x ++ ":" ++ l) ++ ")"

/-- The property a condition is about. -/
def Condition.key? : Condition → Option String
  | .equals key _ | .isNull key | .isNotNull key | .isTrue key => some key
  | .anyLabel _ => none

/-- The parameter a condition asks for. -/
def Condition.param? : Condition → Option String
  | .equals _ param => some param
  | .isNull _ | .isNotNull _ | .isTrue _ | .anyLabel _ => none

/-- The condition is true of an entity with these labels and properties; a comparison with null is not. -/
def Condition.holds (params : String → Option Json) (labels : List String) (props : Props) : Condition → Bool
  | .equals key param => decide ((props key).isSome ∧ props key = params param)
  | .isNull key => decide (props key = none)
  | .isNotNull key => (props key).isSome
  | .isTrue key => decide (props key = some (.bool true))
  | .anyLabel ls => ls.any fun l => labels.contains l

def Pattern.text (x : String) : Pattern → String
  | .node none => "(" ++ x ++ ")"
  | .node (some label) => "(" ++ x ++ ":" ++ label ++ ")"
  | .rel types => "()-[" ++ x ++ ":" ++ String.intercalate "|" types ++ "]->()"

variable (q : CountQuery) (params : String → Option Json) (g : Graph)

def text : String :=
  "MATCH " ++ q.pattern.text q.var ++ " WHERE " ++ String.intercalate " AND " (q.conditions.map (·.text q.var)) ++
    " RETURN count(" ++ q.var ++ ") AS c"

def admits (labels : List String) (props : Props) : Bool := q.conditions.all fun c => c.holds params labels props

/-- `rows[0]["c"]`. -/
def count : ℕ :=
  match q.pattern with
  | .node label => g.nodes.countP fun n => label.all (n.labels.contains ·) && q.admits params n.labels n.props
  | .rel types => g.rels.countP fun r => types.contains r.type && q.admits params [] r.props

variable {q params g}

theorem Condition.exists_text {c : Condition} {key : String} (h : c.key? = some key) (x : String) :
    ∃ rest, c.text x = x ++ "." ++ (key ++ rest) := by
  cases c with
  | anyLabel labels => cases h
  | equals k param =>
    obtain rfl := Option.some.inj h
    exact ⟨" = $" ++ param, by simp only [Condition.text, String.append_assoc]⟩
  | isNull k => exact ⟨" IS NULL", by rw [← Option.some.inj h, Condition.text, String.append_assoc]⟩
  | isNotNull k => exact ⟨" IS NOT NULL", by rw [← Option.some.inj h, Condition.text, String.append_assoc]⟩
  | isTrue k => exact ⟨" = true", by rw [← Option.some.inj h, Condition.text, String.append_assoc]⟩

theorem toList_infix_append (a b c : String) : b.toList <:+: (a ++ (b ++ c)).toList :=
  ⟨a.toList, c.toList, by rw [String.toList_append, String.toList_append, List.append_assoc]⟩

/-- The text names the property of its first condition. -/
theorem infix_text {key : String} (h : q.conditions.head?.bind Condition.key? = some key) :
    key.toList <:+: q.text.toList := by
  obtain ⟨c, hc, hkey⟩ := Option.bind_eq_some_iff.1 h
  obtain ⟨cs, hcs⟩ := List.head?_eq_some_iff.1 hc
  obtain ⟨rest, htext⟩ := Condition.exists_text hkey q.var
  have hsplit : q.text = ("MATCH " ++ q.pattern.text q.var ++ " WHERE " ++ (q.var ++ ".")) ++ (key ++
      (String.intercalate " AND " (rest :: cs.map (·.text q.var)) ++ (" RETURN count(" ++ q.var ++ ") AS c"))) := by
    rw [text, hcs, List.map_cons, htext, String.intercalate_cons_append, String.intercalate_cons_append]
    simp only [String.append_assoc]
  rw [hsplit]
  exact toList_infix_append _ key _

/-- Queries told apart by their texts. -/
theorem find?_text {l : List CountQuery} (hnodup : (l.map text).Nodup) (h : q ∈ l) :
    (l.find? fun r => r.text.toList = q.text.toList) = some q := by
  have hsome : (l.find? fun r => r.text.toList = q.text.toList).isSome = true := by
    rw [List.find?_isSome]
    exact ⟨q, h, decide_eq_true rfl⟩
  obtain ⟨r, hr⟩ := Option.isSome_iff_exists.1 hsome
  have htext := List.find?_some hr
  rw [decide_eq_true_iff] at htext
  rw [hr, List.inj_on_of_nodup_map hnodup (List.mem_of_find?_eq_some hr) h (String.toList_injective htext)]

theorem Condition.holds_congr {params params' : String → Option Json} {c : Condition}
    (h : ∀ p, c.param? = some p → params p = params' p) (labels : List String) (props : Props) :
    c.holds params labels props = c.holds params' labels props := by
  cases c with
  | equals key param => rw [holds, holds, h param rfl]
  | isNull key | isNotNull key | isTrue key | anyLabel ls => rfl

/-- The answer depends on the parameters that the conditions ask for. -/
theorem count_congr_params {params' : String → Option Json}
    (h : ∀ c ∈ q.conditions, ∀ p, c.param? = some p → params p = params' p) : q.count params g = q.count params' g := by
  have hadmits : q.admits params = q.admits params' := by
    funext labels props
    rw [admits, admits, Bool.eq_iff_iff, List.all_eq_true, List.all_eq_true]
    exact forall₂_congr fun c hc => by rw [Condition.holds_congr (h c hc) labels props]
  rw [count, count, hadmits]

/-- Only nodes that meet the conditions count. -/
theorem count_node {label : Option String} (h : q.pattern = .node label) (c : Condition) (hc : c ∈ q.conditions) :
    q.count params g = (g.nodes.filter fun n => c.holds params n.labels n.props).countP fun n =>
      label.all (n.labels.contains ·) && q.admits params n.labels n.props := by
  rw [count, h]
  dsimp only
  rw [List.countP_filter]
  refine List.countP_congr fun n _ => ?_
  rw [Bool.and_eq_true _ (c.holds _ _ _), iff_self_and, Bool.and_eq_true]
  exact fun hn => List.all_eq_true.1 hn.2 c hc

end CountQuery
