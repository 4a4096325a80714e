import Dgraphai.GraphBackend
import Dgraphai.Lib.PyDict

/-!
# Rows of the graph

What the driver returns, and what `Neo4jBackend.query` and `GraphClient.query` hand on: the client converts
every value with `_serialize`, the backend hands on the record as it is. `_extract_node` of the inventory and
the search read the rows of the backend.
-/

namespace Dgraphai.GraphRows

open Cypher GraphBackend

/-! ### Values of the driver -/

/-- A value without parts of its own; a point or a duration is a tuple. `σ` are numbers, booleans, null, dates. -/
inductive Atom (σ : Type*)
  | scalar (s : σ)
  | text (s : String)
  | tuple (items : List σ)
  deriving DecidableEq

/-- What a property holds. -/
inductive Property (σ : Type*)
  | atom (a : Atom σ)
  | list (items : List (Atom σ))
  deriving DecidableEq

structure Node (σ : Type*) where
  elementId : String
  labels : List String
  props : PyDict String (Property σ)

structure Relationship (σ : Type*) where
  elementId : String
  type : String
  props : PyDict String (Property σ)

structure Path (σ : Type*) where
  nodes : List (Node σ)
  relationships : List (Relationship σ)

inductive Value (σ : Type*)
  | atom (a : Atom σ)
  | list (items : List (Value σ))
  | dict (fields : List (String × Value σ))
  | node (n : Node σ)
  | relationship (r : Relationship σ)
  | path (p : Path σ)

/-- The columns of a record have different names. -/
abbrev Record (σ : Type*) := PyDict String (Value σ)

variable {σ : Type*}

def Value.text (s : String) : Value σ := .atom (.text s)

def Property.value : Property σ → Value σ
  | .atom a => .atom a
  | .list items => .list (items.map .atom)

/-! ### `_serialize` -/

/-- A point becomes a list. -/
def Atom.serialize : Atom σ → Value σ
  | .tuple items => .list (items.map fun s => .atom (.scalar s))
  | a => .atom a

/-- `{**d, **dict(val)}`: the properties are not converted. -/
def spread (d : Record σ) (props : PyDict String (Property σ)) : Record σ :=
  (props.entries.map fun e => (e.1, e.2.value)).foldl (fun d e => d.set e.1 e.2) d

def Node.serialize (n : Node σ) : Value σ :=
  .dict (spread ((PyDict.empty.set "id" (.text n.elementId)).set "labels" (.list (n.labels.map .text))) n.props).entries

def Relationship.serialize (r : Relationship σ) : Value σ :=
  .dict (spread ((PyDict.empty.set "id" (.text r.elementId)).set "type" (.text r.type)) r.props).entries

def Path.serialize (p : Path σ) : Value σ :=
  .dict [("nodes", .list (p.nodes.map Node.serialize)), ("edges", .list (p.relationships.map Relationship.serialize))]

mutual

def Value.serialize : Value σ → Value σ
  | .atom a => a.serialize
  | .list items => .list (serializeItems items)
  | .dict fields => .dict (serializeFields fields)
  | .node n => n.serialize
  | .relationship r => r.serialize
  | .path p => p.serialize

def serializeItems : List (Value σ) → List (Value σ)
  | [] => []
  | v :: items => v.serialize :: serializeItems items

def serializeFields : List (String × Value σ) → List (String × Value σ)
  | [] => []
  | f :: fields => serializeField f :: serializeFields fields

def serializeField : String × Value σ → String × Value σ
  | (k, v) => (k, v.serialize)

end

/-! ### The two paths -/

/-- `session.run`: the records, or `none` for an error. -/
abbrev Session (σ : Type*) := Text → Record σ → Option (List (Record σ))

namespace Neo4jBackend

/-- The text that is sent. -/
def sentText (cypher : Text) : Option String → Text
  | some _ => if Mentions cypher then cypher else injectTenantScope cypher
  | none => cypher

/-- The parameters that are sent. -/
def sentParams (params : Option (Record σ)) : Option String → Record σ
  | some tid => (params.getD PyDict.empty).set "__tid" (.text tid)
  | none => params.getD PyDict.empty

/-- `query`, with the entries of the rows. -/
def query (S : Session σ) (cypher : Text) (params : Option (Record σ)) (tenantId : Option String) :
    Option (List (List (String × Value σ))) :=
  (S (sentText cypher tenantId) (sentParams params tenantId)).map fun records => records.map PyDict.entries

end Neo4jBackend

namespace GraphClient

/-- `query`, with the entries of the rows. -/
def query (S : Session σ) (cypher : Text) (params : Option (Record σ)) : Option (List (List (String × Value σ))) :=
  (S cypher (params.getD PyDict.empty)).map fun records => records.map fun record => serializeFields record.entries

end GraphClient

/-! ### Consumers -/

def Value.asDict? : Value σ → Option (List (String × Value σ))
  | .dict fields => some fields
  | _ => none

/-- `isinstance(v, (dict, list))`. -/
def Value.isContainer : Value σ → Bool
  | .dict _ => true
  | .list _ => true
  | _ => false

/-- `row.get(k)`. -/
def rowGet? (row : List (String × Value σ)) (k : String) : Option (Value σ) :=
  (row.find? fun e => e.1 = k).map Prod.snd

/-- `_extract_node`. -/
def extractNode (row : List (String × Value σ)) : List (String × Value σ) :=
  (["f", "a", "p", "fc", "n"].findSome? fun key => (rowGet? row key).bind Value.asDict?).getD
    (row.filter fun e => !e.2.isContainer)

/-- `bool(val)`: a node and a relationship are mappings, the length of a path is that of its relationships. -/
def Value.truthy (truthy : σ → Bool) : Value σ → Bool
  | .atom (.scalar s) => truthy s
  | .atom (.text s) => s != ""
  | .atom (.tuple items) => !items.isEmpty
  | .list items => !items.isEmpty
  | .dict fields => !fields.isEmpty
  | .node n => !n.props.entries.isEmpty
  | .relationship r => !r.props.entries.isEmpty
  | .path p => !p.relationships.isEmpty

/-- `row.get("n") or next(iter(row.values()), {})` of `search_type`, and the dictionary found, if it is one. -/
def searchNode (truthy : σ → Bool) (row : List (String × Value σ)) : Option (List (String × Value σ)) :=
  (((rowGet? row "n").filter (Value.truthy truthy)).getD ((row.head?.map Prod.snd).getD (.dict []))).asDict?

/-! ### What `_serialize` leaves alone -/

mutual

/-- Lists and maps of atoms. -/
def Value.Built (P : Atom σ → Prop) : Value σ → Prop
  | .atom a => P a
  | .list items => BuiltItems P items
  | .dict fields => BuiltFields P fields
  | .node _ => False
  | .relationship _ => False
  | .path _ => False

def BuiltItems (P : Atom σ → Prop) : List (Value σ) → Prop
  | [] => True
  | v :: items => v.Built P ∧ BuiltItems P items

def BuiltFields (P : Atom σ → Prop) : List (String × Value σ) → Prop
  | [] => True
  | f :: fields => BuiltField P f ∧ BuiltFields P fields

def BuiltField (P : Atom σ → Prop) : String × Value σ → Prop
  | (_, v) => v.Built P

end

/-- Not a tuple. -/
def Atom.Flat : Atom σ → Prop
  | .tuple _ => False
  | _ => True

/-- Dictionaries, lists and scalars only. -/
def Value.Plain (v : Value σ) : Prop := v.Built Atom.Flat

theorem builtItems_iff {P : Atom σ → Prop} {items : List (Value σ)} :
    BuiltItems P items ↔ ∀ v ∈ items, v.Built P := by
  induction items with
  | nil => simp [BuiltItems]
  | cons v items ih => simp [BuiltItems, ih]

theorem builtFields_iff {P : Atom σ → Prop} {fields : List (String × Value σ)} :
    BuiltFields P fields ↔ ∀ v ∈ fields.map Prod.snd, v.Built P := by
  induction fields with
  | nil => simp [BuiltFields]
  | cons f fields ih =>
    obtain ⟨k, v⟩ := f
    rw [BuiltFields, BuiltField, ih, List.map_cons, List.forall_mem_cons]

theorem Atom.serialize_eq_iff (a : Atom σ) : a.serialize = .atom a ↔ a.Flat := by
  cases a with
  | scalar s => exact iff_of_true rfl trivial
  | text s => exact iff_of_true rfl trivial
  | tuple items => exact iff_of_false (nomatch ·) id

mutual

theorem Value.serialize_eq_iff : ∀ v : Value σ, v.serialize = v ↔ v.Plain
  | .atom a => a.serialize_eq_iff
  | .list items => by
    rw [Value.serialize, Value.list.injEq]
    exact serializeItems_eq_iff items
  | .dict fields => by
    rw [Value.serialize, Value.dict.injEq]
    exact serializeFields_eq_iff fields
  | .node _ => iff_of_false (nomatch ·) id
  | .relationship _ => iff_of_false (nomatch ·) id
  | .path _ => iff_of_false (nomatch ·) id

theorem serializeItems_eq_iff : ∀ items : List (Value σ), serializeItems items = items ↔ BuiltItems Atom.Flat items
  | [] => iff_of_true rfl trivial
  | v :: items => by
    rw [serializeItems, List.cons.injEq]
    exact and_congr v.serialize_eq_iff (serializeItems_eq_iff items)

theorem serializeFields_eq_iff :
    ∀ fields : List (String × Value σ), serializeFields fields = fields ↔ BuiltFields Atom.Flat fields
  | [] => iff_of_true rfl trivial
  | f :: fields => by
    rw [serializeFields, List.cons.injEq]
    exact and_congr (serializeField_eq_iff f) (serializeFields_eq_iff fields)

theorem serializeField_eq_iff : ∀ f : String × Value σ, serializeField f = f ↔ BuiltField Atom.Flat f
  | (k, v) => by
    rw [serializeField, Prod.mk.injEq, eq_self_iff_true, true_and]
    exact v.serialize_eq_iff

end

/-! ### No object of the graph leaves the client -/

theorem Property.built_value (p : Property σ) : p.value.Built fun _ => True := by
  cases p with
  | atom a => trivial
  | list items =>
    refine builtItems_iff.2 fun v hv => ?_
    obtain ⟨a, -, rfl⟩ := List.mem_map.1 hv
    trivial

theorem built_spread {d : Record σ} {props : PyDict String (Property σ)}
    (h : ∀ v ∈ d.values, v.Built fun _ => True) : BuiltFields (fun _ => True) (spread d props).entries := by
  refine builtFields_iff.2 fun v hv => ?_
  rcases PyDict.mem_values_foldl_set hv with hprop | hd
  · rw [List.map_map] at hprop
    obtain ⟨e, -, rfl⟩ := List.mem_map.1 hprop
    exact e.2.built_value
  · exact h v hd

theorem built_texts (texts : List String) : (Value.list (texts.map Value.text) : Value σ).Built fun _ => True := by
  refine builtItems_iff.2 fun v hv => ?_
  obtain ⟨s, -, rfl⟩ := List.mem_map.1 hv
  trivial

theorem built_header {k : String} {v w : Value σ} (hv : v.Built fun _ => True) (hw : w.Built fun _ => True) :
    ∀ u ∈ ((PyDict.empty.set "id" v).set k w).values, u.Built fun _ => True := by
  intro u hu
  rcases PyDict.mem_values_set hu with rfl | hu
  · exact hw
  · rcases PyDict.mem_values_set hu with rfl | hu
    · exact hv
    · nomatch hu

theorem Node.built_serialize (n : Node σ) : n.serialize.Built fun _ => True :=
  built_spread (built_header trivial (built_texts n.labels))

theorem Relationship.built_serialize (r : Relationship σ) : r.serialize.Built fun _ => True :=
  built_spread (built_header trivial trivial)

theorem Path.built_serialize (p : Path σ) : p.serialize.Built fun _ => True := by
  refine ⟨builtItems_iff.2 fun v hv => ?_, builtItems_iff.2 fun v hv => ?_, trivial⟩
  · obtain ⟨n, -, rfl⟩ := List.mem_map.1 hv
    exact n.built_serialize
  · obtain ⟨r, -, rfl⟩ := List.mem_map.1 hv
    exact r.built_serialize

theorem Atom.built_serialize (a : Atom σ) : a.serialize.Built fun _ => True := by
  cases a with
  | scalar s => trivial
  | text s => trivial
  | tuple items =>
    refine builtItems_iff.2 fun v hv => ?_
    obtain ⟨s, -, rfl⟩ := List.mem_map.1 hv
    trivial

mutual

theorem Value.built_serialize : ∀ v : Value σ, v.serialize.Built fun _ => True
  | .atom a => a.built_serialize
  | .list items => built_serializeItems items
  | .dict fields => built_serializeFields fields
  | .node n => n.built_serialize
  | .relationship r => r.built_serialize
  | .path p => p.built_serialize

theorem built_serializeItems : ∀ items : List (Value σ), BuiltItems (fun _ => True) (serializeItems items)
  | [] => trivial
  | v :: items => ⟨v.built_serialize, built_serializeItems items⟩

theorem built_serializeFields :
    ∀ fields : List (String × Value σ), BuiltFields (fun _ => True) (serializeFields fields)
  | [] => trivial
  | f :: fields => ⟨built_serializeField f, built_serializeFields fields⟩

theorem built_serializeField : ∀ f : String × Value σ, BuiltField (fun _ => True) (serializeField f)
  | (_, v) => v.built_serialize

end

theorem GraphClient.query_built {S : Session σ} {cypher : Text} {params : Option (Record σ)}
    {rows : List (List (String × Value σ))} (h : GraphClient.query S cypher params = some rows) :
    ∀ row ∈ rows, BuiltFields (fun _ => True) row := by
  obtain ⟨records, -, rfl⟩ := Option.map_eq_some_iff.1 h
  intro row hrow
  obtain ⟨record, -, rfl⟩ := List.mem_map.1 hrow
  exact built_serializeFields record.entries

/-! ### A node in a row -/

theorem extractNode_of_node {key : String} (hkey : key ∈ ["f", "a", "p", "fc", "n"]) (n : Node σ) :
    extractNode [(key, .node n)] = [(key, .node n)] ∧
      n.serialize = .dict (extractNode (serializeFields [(key, .node n)])) := by
  simp only [List.mem_cons, List.not_mem_nil, or_false] at hkey
  rcases hkey with rfl | rfl | rfl | rfl | rfl <;> exact ⟨rfl, rfl⟩

theorem searchNode_singleton (truthy : σ → Bool) (v : Value σ) : searchNode truthy [("n", v)] = v.asDict? := by
  have hget : rowGet? [("n", v)] "n" = some v := rfl
  unfold searchNode
  rw [hget, Option.filter_some]
  split <;> rfl

theorem searchNode_of_node (truthy : σ → Bool) (n : Node σ) :
    searchNode truthy [("n", .node n)] = none ∧
      (searchNode truthy (serializeFields [("n", .node n)])).map Value.dict = some n.serialize :=
  ⟨searchNode_singleton truthy _, congrArg (Option.map Value.dict) (searchNode_singleton truthy n.serialize)⟩

/-! ### The rows of the two paths -/

theorem Neo4jBackend.query_eq_iff (S : Session σ) (cypher : Text) (params : Option (Record σ))
    (tenantId : Option String) :
    Neo4jBackend.query S cypher params tenantId =
        GraphClient.query S (sentText cypher tenantId) (some (sentParams params tenantId)) ↔
      ∀ records, S (sentText cypher tenantId) (sentParams params tenantId) = some records →
        ∀ record ∈ records, ∀ v ∈ record.values, v.Plain := by
  unfold Neo4jBackend.query GraphClient.query
  rw [Option.getD_some]
  cases S (sentText cypher tenantId) (sentParams params tenantId) with
  | none => exact iff_of_true rfl fun _ h => nomatch h
  | some records =>
    rw [Option.map_some, Option.map_some, Option.some.injEq, List.map_inj_left]
    constructor
    · rintro h _ ⟨⟩ record hrecord
      exact builtFields_iff.1 ((serializeFields_eq_iff record.entries).1 (h record hrecord).symm)
    · intro h record hrecord
      exact ((serializeFields_eq_iff record.entries).2 (builtFields_iff.2 (h records rfl record hrecord))).symm

/-- What the database answers to `RETURN f`, where one file is stored. -/
def oneFile : Session ℕ := fun _ _ =>
  some [PyDict.empty.set "f" (.node {
    elementId := "4:0:7", labels := ["File"],
    props := (PyDict.empty.set "name" (.atom (.text "a.txt"))).set "size" (.atom (.scalar 5)) })]

/-- A query that returns a node, and what the inventory reads on the two paths. -/
theorem Neo4jBackend.query_ne_client : ∃ rows rows',
    Neo4jBackend.query oneFile "MATCH (f:File) RETURN f".toList none none = some rows ∧
      GraphClient.query oneFile "MATCH (f:File) RETURN f".toList none = some rows' ∧ rows ≠ rows' ∧
      rows.map (fun row => (extractNode row).map Prod.fst) = [["f"]] ∧
      rows'.map (fun row => (extractNode row).map Prod.fst) = [["id", "labels", "name", "size"]] := by
  refine ⟨_, _, rfl, rfl, fun h => ?_, rfl, rfl⟩
  nomatch h

end Dgraphai.GraphRows
