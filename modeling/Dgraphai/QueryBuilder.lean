import Dgraphai.Lib.CypherText
import Dgraphai.Lib.JsonChars
import Dgraphai.Lib.WebBase64

/-!
# The query builder (`web/src/pages/QueryBuilder.tsx`)

The state of the page, the Cypher it builds, and the link that holds the state. A link gives the state back exactly if
its strings are Latin-1; of any other state there is no link (`encodeState_decodeState_iff`).
-/

namespace Dgraphai.QueryBuilder

open Cypher (Text)
open JsonText (Representable dumpsWith escapeRaw loads)
open WebBase64 (Latin1)

/-! ### States -/

structure FilterClause where
  id : String
  field : String
  op : String
  value : String
  deriving DecidableEq

structure NodeClause where
  id : String
  type : String
  «alias» : String
  filters : List FilterClause
  deriving DecidableEq

/-- Its ends `from` and `to` are aliases. -/
structure RelationshipClause where
  id : String
  type : String
  source : String
  target : String
  directed : Bool
  deriving DecidableEq

/-- A finite number, as `JSON.stringify` writes it. -/
inductive Number where
  | int (n : ℤ)
  | real (text : String) (number : JsonText.number text.toList = some (.real text, []))
  deriving DecidableEq

structure BuilderState where
  nodes : List NodeClause
  relationships : List RelationshipClause
  returnAll : Bool
  limit : Number
  deriving DecidableEq

/-- `DEFAULT_STATE`. -/
def defaultState : BuilderState := ⟨[], [], true, .int 50⟩

/-! ### The Cypher -/

/-- `n.alias || n.id`. -/
def NodeClause.name (n : NodeClause) : String := if n.alias = "" then n.id else n.alias

def NodeClause.pattern (n : NodeClause) : Text := '(' :: n.name.toList ++ ':' :: n.type.toList ++ [')']

def RelationshipClause.arrow (r : RelationshipClause) : Text :=
  "-[:".toList ++ r.type.toList ++ (if r.directed then "]->".toList else "]-".toList)

def RelationshipClause.pattern (r : RelationshipClause) : Text :=
  '(' :: r.source.toList ++ ')' :: r.arrow ++ '(' :: r.target.toList ++ [')']

/-- White space of ECMAScript. -/
def isBlank (c : Char) : Bool :=
  let n := c.toNat
  (9 ≤ n && n ≤ 13) || n = 32 || n = 160 || n = 5760 || (8192 ≤ n && n ≤ 8202) || n = 8232 || n = 8233 || n = 8239 ||
    n = 8287 || n = 12288 || n = 65279

def trim (v : Text) : Text := ((v.dropWhile isBlank).reverse.dropWhile isBlank).reverse

/-- Digits with a point among, before or behind them. -/
def isMantissa (v : Text) : Bool :=
  let rest := v.dropWhile Char.isDigit
  match rest with
  | [] => v ≠ []
  | '.' :: fraction => fraction.all Char.isDigit && (rest.length < v.length || fraction ≠ [])
  | _ => false

def unsigned : Text → Text
  | '+' :: v | '-' :: v => v
  | v => v

/-- `StrUnsignedDecimalLiteral`. -/
def isDecimal (v : Text) : Bool :=
  v = "Infinity".toList ||
    match v.dropWhile fun c => c ≠ 'e' && c ≠ 'E' with
    | [] => isMantissa v
    | _ :: exponent =>
      isMantissa (v.takeWhile fun c => c ≠ 'e' && c ≠ 'E') && unsigned exponent ≠ [] &&
        (unsigned exponent).all Char.isDigit

/-- `NonDecimalIntegerLiteral`. -/
def isNonDecimal : Text → Bool
  | '0' :: base :: digits =>
    digits ≠ [] &&
      if base = 'x' ∨ base = 'X' then digits.all fun c => (Cypher.hexValue c).isSome
      else if base = 'o' ∨ base = 'O' then digits.all fun c => decide ('0' ≤ c ∧ c ≤ '7')
      else if base = 'b' ∨ base = 'B' then digits.all fun c => decide (c = '0' ∨ c = '1')
      else false
  | _ => false

/-- `!isNaN(Number(value))`: a text of nothing but white space is 0. -/
def isNumeric (value : Text) : Bool :=
  let v := trim value
  v = [] || isNonDecimal v || isDecimal (unsigned v)

/-- The WHERE clause of a filter; none without a field. -/
def FilterClause.clause (name : String) (f : FilterClause) : Option Text :=
  let left := name.toList ++ '.' :: f.field.toList ++ ' ' :: f.op.toList
  if f.field = "" then none
  else if f.op = "IS NULL" ∨ f.op = "IS NOT NULL" then some left
  else if f.op = "CONTAINS" ∨ f.op = "STARTS WITH" then some (left ++ " '".toList ++ f.value.toList ++ ['\''])
  else if f.value = "true" ∨ f.value = "false" ∨ isNumeric f.value.toList then some (left ++ ' ' :: f.value.toList)
  else some (left ++ " '".toList ++ f.value.toList ++ ['\''])

def NodeClause.clauses (n : NodeClause) : List Text := n.filters.filterMap (·.clause n.name)

/-- The digits of a limit; 0 is falsy. -/
def Number.limitText : Number → Text
  | .int n => if n = 0 then [] else "\nLIMIT ".toList ++ JsonText.intText n
  | .real text _ => "\nLIMIT ".toList ++ text.toList

def buildCypher (s : BuilderState) : Text :=
  match s.nodes with
  | [] => []
  | first :: _ =>
    let allMatch := s.nodes.map (·.pattern) ++ s.relationships.map (·.pattern)
    let whereClauses := (first.name.toList ++ ".tenant_id = $tid".toList) :: s.nodes.flatMap (·.clauses)
    "MATCH ".toList ++ List.intercalate ", ".toList allMatch ++
      "\nWHERE ".toList ++ List.intercalate "\n  AND ".toList whereClauses ++
      "\nRETURN ".toList ++ List.intercalate ", ".toList (s.nodes.map (·.name.toList)) ++ s.limit.limitText

/-! ### Values -/

def FilterClause.toJson (f : FilterClause) : Json :=
  .obj [("id", .str f.id), ("field", .str f.field), ("op", .str f.op), ("value", .str f.value)]

def NodeClause.toJson (n : NodeClause) : Json :=
  .obj [("id", .str n.id), ("type", .str n.type), ("alias", .str n.alias),
    ("filters", .arr (n.filters.map FilterClause.toJson))]

def RelationshipClause.toJson (r : RelationshipClause) : Json :=
  .obj [("id", .str r.id), ("type", .str r.type), ("from", .str r.source), ("to", .str r.target),
    ("directed", .bool r.directed)]

def Number.toJson : Number → Json
  | .int n => .num n
  | .real text _ => .real text

def BuilderState.toJson (s : BuilderState) : Json :=
  .obj [("nodes", .arr (s.nodes.map NodeClause.toJson)),
    ("relationships", .arr (s.relationships.map RelationshipClause.toJson)), ("returnAll", .bool s.returnAll),
    ("limit", s.limit.toJson)]

def FilterClause.ofJson? : Json → Option FilterClause
  | .obj [("id", .str id), ("field", .str field), ("op", .str op), ("value", .str value)] => some ⟨id, field, op, value⟩
  | _ => none

def NodeClause.ofJson? : Json → Option NodeClause
  | .obj [("id", .str id), ("type", .str type), ("alias", .str name), ("filters", .arr filters)] =>
    (filters.mapM FilterClause.ofJson?).map (⟨id, type, name, ·⟩)
  | _ => none

def RelationshipClause.ofJson? : Json → Option RelationshipClause
  | .obj [("id", .str id), ("type", .str type), ("from", .str source), ("to", .str target), ("directed", .bool directed)] =>
    some ⟨id, type, source, target, directed⟩
  | _ => none

def Number.ofJson? : Json → Option Number
  | .num n => some (.int n)
  | .real text => if h : JsonText.number text.toList = some (.real text, []) then some (.real text h) else none
  | _ => none

def BuilderState.ofJson? : Json → Option BuilderState
  | .obj [("nodes", .arr nodes), ("relationships", .arr relationships), ("returnAll", .bool returnAll), ("limit", limit)] =>
    (nodes.mapM NodeClause.ofJson?).bind fun nodes =>
      (relationships.mapM RelationshipClause.ofJson?).bind fun relationships =>
        (Number.ofJson? limit).map (⟨nodes, relationships, returnAll, ·⟩)
  | _ => none

theorem mapM_map {α : Type} {toJson : α → Json} {ofJson? : Json → Option α} (h : ∀ a, ofJson? (toJson a) = some a)
    (l : List α) : (l.map toJson).mapM ofJson? = some l := by
  induction l with
  | nil => rfl
  | cons a l ih =>
    rw [List.map_cons, List.mapM_cons, h a, ih]
    rfl

theorem FilterClause.ofJson?_toJson (f : FilterClause) : ofJson? f.toJson = some f := rfl

theorem RelationshipClause.ofJson?_toJson (r : RelationshipClause) : ofJson? r.toJson = some r := rfl

theorem NodeClause.ofJson?_toJson (n : NodeClause) : ofJson? n.toJson = some n := by
  rw [toJson, ofJson?, mapM_map FilterClause.ofJson?_toJson]
  rfl

theorem Number.ofJson?_toJson (n : Number) : ofJson? n.toJson = some n := by
  cases n with
  | int n => rfl
  | real text number => exact dif_pos number

/-- The value of a state is that of no other state. -/
theorem BuilderState.ofJson?_toJson (s : BuilderState) : ofJson? s.toJson = some s := by
  rw [toJson, ofJson?, mapM_map NodeClause.ofJson?_toJson, mapM_map RelationshipClause.ofJson?_toJson, Number.ofJson?_toJson]
  rfl

/-! ### Links -/

/-- `btoa(JSON.stringify(state))`; `none` is the error of `btoa`. -/
def encodeState (s : BuilderState) : Option Text := WebBase64.btoa (dumpsWith escapeRaw .compact s.toJson)

/-- The value that `decodeState` returns. -/
def decodeState (encoded : Text) : Json := ((WebBase64.atob encoded).bind loads).getD defaultState.toJson

/-- All strings of a state. -/
def BuilderState.strings (s : BuilderState) : List String :=
  (s.nodes.flatMap fun n => n.id :: n.type :: n.alias :: n.filters.flatMap fun f => [f.id, f.field, f.op, f.value]) ++
    s.relationships.flatMap fun r => [r.id, r.type, r.source, r.target]

/-- Every string is a text of bytes. -/
def BuilderState.Plain (s : BuilderState) : Prop := ∀ x ∈ s.strings, ∀ c ∈ x.toList, Latin1 c

theorem BuilderState.plain_iff_all (s : BuilderState) :
    (s.strings.all fun x => x.toList.all fun c => decide (Latin1 c)) = true ↔ s.Plain := by
  simp only [List.all_eq_true, decide_eq_true_iff, Plain]

instance (s : BuilderState) : Decidable s.Plain := decidable_of_iff _ s.plain_iff_all

theorem Number.representable_toJson (n : Number) : Representable n.toJson := by
  cases n with
  | int n => trivial
  | real text number => exact number

theorem representableItems_map {α : Type} {toJson : α → Json} (h : ∀ a, Representable (toJson a)) (l : List α) :
    JsonText.RepresentableItems (l.map toJson) := by
  induction l with
  | nil => trivial
  | cons a l ih => exact ⟨h a, ih⟩

theorem FilterClause.representable_toJson (f : FilterClause) : Representable f.toJson :=
  ⟨trivial, trivial, trivial, trivial, trivial⟩

theorem RelationshipClause.representable_toJson (r : RelationshipClause) : Representable r.toJson :=
  ⟨trivial, trivial, trivial, trivial, trivial, trivial⟩

theorem NodeClause.representable_toJson (n : NodeClause) : Representable n.toJson := by
  have hfilters : JsonText.RepresentableItems (n.filters.map FilterClause.toJson) :=
    representableItems_map FilterClause.representable_toJson _
  exact ⟨trivial, trivial, trivial, hfilters, trivial⟩

theorem BuilderState.representable_toJson (s : BuilderState) : Representable s.toJson := by
  have hnodes : JsonText.RepresentableItems (s.nodes.map NodeClause.toJson) :=
    representableItems_map NodeClause.representable_toJson _
  have hrels : JsonText.RepresentableItems (s.relationships.map RelationshipClause.toJson) :=
    representableItems_map RelationshipClause.representable_toJson _
  exact ⟨hnodes, hrels, trivial, s.limit.representable_toJson, trivial⟩

section
variable {P : String → Prop} (hP : ∀ k : String, (k.toList.all fun c => decide (JsonText.Ascii c)) = true → P k)
include hP

theorem FilterClause.strings_toJson (f : FilterClause) :
    f.toJson.Strings P ↔ ∀ x ∈ [f.id, f.field, f.op, f.value], P x := by
  have hid := hP "id" (by decide)
  have hfield := hP "field" (by decide)
  have hop := hP "op" (by decide)
  have hvalue := hP "value" (by decide)
  simp [toJson, Json.Strings, Json.StringsFields, hid, hfield, hop, hvalue]

theorem NodeClause.strings_toJson (n : NodeClause) : n.toJson.Strings P ↔
    ∀ x ∈ n.id :: n.type :: n.alias :: n.filters.flatMap fun f => [f.id, f.field, f.op, f.value], P x := by
  have hid := hP "id" (by decide)
  have htype := hP "type" (by decide)
  have halias := hP "alias" (by decide)
  have hfilters := hP "filters" (by decide)
  simp only [toJson, Json.Strings, Json.StringsFields, Json.stringsItems_iff, List.forall_mem_map,
    FilterClause.strings_toJson hP, List.forall_mem_cons, List.forall_mem_flatMap, hid, htype, halias, hfilters,
    true_and, and_true]

theorem RelationshipClause.strings_toJson (r : RelationshipClause) :
    r.toJson.Strings P ↔ ∀ x ∈ [r.id, r.type, r.source, r.target], P x := by
  have hid := hP "id" (by decide)
  have htype := hP "type" (by decide)
  have hfrom := hP "from" (by decide)
  have hto := hP "to" (by decide)
  have hdirected := hP "directed" (by decide)
  simp [toJson, Json.Strings, Json.StringsFields, hid, htype, hfrom, hto, hdirected]

theorem BuilderState.strings_toJson (s : BuilderState) : s.toJson.Strings P ↔ ∀ x ∈ s.strings, P x := by
  have hnodes := hP "nodes" (by decide)
  have hrels := hP "relationships" (by decide)
  have hall := hP "returnAll" (by decide)
  have hlimit := hP "limit" (by decide)
  have hnumber : s.limit.toJson.Strings P := by
    rcases s.limit with n | ⟨text, number⟩ <;> trivial
  simp only [toJson, strings, Json.Strings, Json.StringsFields, Json.stringsItems_iff, List.forall_mem_map,
    NodeClause.strings_toJson hP, RelationshipClause.strings_toJson hP, List.forall_mem_append,
    List.forall_mem_flatMap, hnodes, hrels, hall, hlimit, hnumber, true_and, and_true]

end

/-- The text of a state is one of bytes exactly if its strings are. -/
theorem BuilderState.plain_iff (s : BuilderState) :
    (∀ c ∈ dumpsWith escapeRaw .compact s.toJson, Latin1 c) ↔ s.Plain := by
  have hascii : ∀ c, JsonText.Ascii c → Latin1 c := fun c hc => by
    have hlt : c.toNat < 128 := hc
    show c.toNat ≤ 0xff
    omega
  rw [JsonText.forall_mem_dumpsWith hascii (JsonText.forall_mem_escapeRaw hascii) _ s.representable_toJson,
    s.strings_toJson fun k hk c hc => hascii c (JsonText.ascii_of_all hk c hc)]
  rfl

variable {s : BuilderState}

theorem encodeState_isSome : (encodeState s).isSome ↔ s.Plain := by
  rw [← s.plain_iff, Option.isSome_iff_ne_none, encodeState, ne_eq, WebBase64.btoa_eq_none_iff, not_not]

theorem decodeState_of_encodeState {encoded : Text} (h : encodeState s = some encoded) :
    decodeState encoded = s.toJson := by
  have hplain : s.Plain := encodeState_isSome.1 (by rw [h]; rfl)
  obtain ⟨t, ht, hatob⟩ := (WebBase64.atob_btoa _).2 (s.plain_iff.2 hplain)
  obtain rfl : encoded = t := Option.some.inj (h.symm.trans ht)
  rw [decodeState, hatob, Option.bind_some, JsonText.loads_dumpsWith JsonText.escapes_escapeRaw s.representable_toJson]
  rfl

theorem encodeState_decodeState_iff (s : BuilderState) :
    (∃ encoded, encodeState s = some encoded ∧ decodeState encoded = s.toJson) ↔ s.Plain := by
  rw [← encodeState_isSome, Option.isSome_iff_exists]
  exact ⟨fun ⟨encoded, h, _⟩ => ⟨encoded, h⟩, fun ⟨encoded, h⟩ => ⟨encoded, h, decodeState_of_encodeState h⟩⟩

/-- A node with a filter on a name in Japanese. -/
def named : BuilderState := ⟨[⟨"n0", "File", "f1", [⟨"f0", "name", "=", "報告"⟩]⟩], [], true, .int 50⟩

theorem named_has_no_link : ¬ ∃ encoded, encodeState named = some encoded ∧ decodeState encoded = named.toJson := by
  rintro ⟨encoded, h, -⟩
  have hplain : named.Plain := encodeState_isSome.1 (by rw [h]; rfl)
  exact absurd hplain (by decide)

end Dgraphai.QueryBuilder
