import Dgraphai.ProxyStore

/-!
# Local queries of dgraph-proxy (`internal/query/engine.go`, `ScanNodes`)

A query scans the node records in key order. Its callback stops the scan at the first matching node that
finds no room, with an error that the query tells from others by its text. `ScanNodes` passes over a record
it cannot read or decode and returns no error for it, so what a query answers is a prefix of the nodes that
can be read (`local_queries_exact`).
-/

namespace Dgraphai.LocalQueries

open Proxy (NodeRecord)

/-- Go's library, as the engine uses it. -/
structure Env where
  /-- `json.Unmarshal` into a `NodeRecord`, with the text of its error. -/
  unmarshal : List UInt8 → Except String NodeRecord
  /-- `fmt.Sprintf("%v", v)`. -/
  sprint : Json → String
  /-- `strings.ToLower`. -/
  toLower : String → String
  /-- The verb `%q`. -/
  quote : String → String

/-- What `item.Value` hands to its callback: the bytes of the value, or the error of reading them. -/
abbrev Item := Except String (List UInt8)

/-- The database as a read transaction sees it. `closed` is the error `db.View` fails with itself. -/
structure Db where
  tenantID : String
  items : Std.TreeMap String Item
  closed : Option String

variable (E : Env) {σ : Type*}

/-! ### `store.go` -/

/-- Reading and decoding one record. -/
def decode (item : Item) : Except String NodeRecord := item.bind E.unmarshal

/-- The keys an iterator with the prefix of the nodes visits. -/
def isNodeKey (tenantID key : String) : Bool := ("n:" ++ tenantID ++ ":").toList.isPrefixOf key.toList

/-- The loop of `ScanNodes`: the error it returns and what the callback has collected. A record that cannot
be decoded is logged as corrupt and skipped. -/
def scanItems (fn : NodeRecord → σ → Option String × σ) : List (String × Item) → σ → Option String × σ
  | [], s => (none, s)
  | (_, item) :: items, s =>
    match decode E item with
    | .error _ => scanItems fn items s
    | .ok node =>
      match fn node s with
      | (some err, s') => (some err, s')
      | (none, s') => scanItems fn items s'

def Db.scanNodes (db : Db) (fn : NodeRecord → σ → Option String × σ) (s : σ) : Option String × σ :=
  match db.closed with
  | some err => (some err, s)
  | none => scanItems E fn (db.items.toList.filter fun e => isNodeKey db.tenantID e.1) s

/-- `GetNode`; an absent key is no error. -/
def Db.getNode (db : Db) (id : String) : Except String (Option NodeRecord) :=
  match db.closed with
  | some err => .error err
  | none =>
    match db.items[Proxy.nodeKey db.tenantID id]? with
    | none => .ok none
    | some item => (decode E item).map some

/-! ### `engine.go` -/

/-- The map `nodeToRow` builds. -/
structure Row where
  id : String
  labels : List String
  properties : List (String × Json)
  createdAt : Proxy.Time
  updatedAt : Proxy.Time
  syncedAt : Option Proxy.Time
  deriving DecidableEq, Repr

structure Result where
  columns : List String
  rows : List Row
  count : ℕ
  capped : Bool
  deriving DecidableEq, Repr

def nodeToRow (n : NodeRecord) : Row :=
  { id := n.id
    labels := n.labels
    properties := n.properties
    createdAt := n.createdAt
    updatedAt := n.updatedAt
    syncedAt := n.syncedAt }

def hasLabel (labels : List String) (label : String) : Bool := labels.any (· = label)

def isAllowedOp (op : String) : Bool := ["=", "!=", "contains", "starts_with", "ends_with"].contains op

def matchOp (actual op value : String) : Bool :=
  let a := (E.toLower actual).toList
  let v := (E.toLower value).toList
  if op = "=" then actual = value
  else if op = "!=" then actual ≠ value
  else if op = "contains" then decide (v <:+: a)
  else if op = "starts_with" then v.isPrefixOf a
  else if op = "ends_with" then v.isSuffixOf a
  else false

def limitReached : String := "limit reached"

structure Found where
  rows : List Row
  capped : Bool
  deriving DecidableEq, Repr

/-- The callback of both queries, for the nodes that satisfy `p`. -/
def collect (p : NodeRecord → Bool) (limit : ℤ) (n : NodeRecord) (q : Found) : Option String × Found :=
  if ¬ p n then (none, q)
  else if (q.rows.length : ℤ) ≥ limit then (some limitReached, { q with capped := true })
  else (none, { q with rows := q.rows ++ [nodeToRow n] })

/-- A limit out of bounds is replaced by 1000. -/
def bounded (limit : ℤ) : ℤ := if limit ≤ 0 ∨ limit > 10000 then 1000 else limit

/-- What a query makes of a scan: the stop at the limit is no error. -/
def answer (columns : List String) : Option String × Found → Except String Result
  | (none, q) => .ok ⟨columns, q.rows, q.rows.length, q.capped⟩
  | (some err, q) => if err ≠ limitReached then .error err else .ok ⟨columns, q.rows, q.rows.length, q.capped⟩

def Db.query (db : Db) (columns : List String) (p : NodeRecord → Bool) (limit : ℤ) : Except String Result :=
  answer columns (db.scanNodes E (collect p (bounded limit)) ⟨[], false⟩)

def Db.nodesByLabel (db : Db) (label : String) (limit : ℤ) : Except String Result :=
  db.query E ["id", "labels", "properties", "created_at", "updated_at"] (fun n => hasLabel n.labels label) limit

def hasProperty (key op value : String) (n : NodeRecord) : Bool :=
  match Json.field? n.properties key with
  | none => false
  | some v => matchOp E (E.sprint v) op value

def Db.nodesByProperty (db : Db) (key op value : String) (limit : ℤ) : Except String Result :=
  if ¬ isAllowedOp op then .error ("unsupported operator " ++ E.quote op)
  else db.query E ["id", "labels", "properties"] (hasProperty E key op value) limit

/-! ### What a query answers -/

/-- `node` is stored under `key`, and can be read. -/
def Db.Holds (db : Db) (key : String) (node : NodeRecord) : Prop :=
  isNodeKey db.tenantID key ∧ ∃ item, db.items[key]? = some item ∧ decode E item = .ok node

/-- The nodes that satisfy `p` and can be read, each once and in the order of their keys. -/
structure Db.Matching (db : Db) (p : NodeRecord → Prop) (ms : List (String × NodeRecord)) : Prop where
  sorted : ms.Pairwise fun a b => a.1 < b.1
  mem_iff : ∀ key node, (key, node) ∈ ms ↔ db.Holds E key node ∧ p node

/-- The answer is the first `limit` matching nodes, counted, and says whether there are more; the error of a
scan that did not run is reported. -/
structure Db.ExactPrefix (db : Db) (p : NodeRecord → Prop) (limit : ℕ) (answer : Except String Result) : Prop where
  failed : ∀ err, db.closed = some err → err ≠ limitReached → answer = .error err
  ran : db.closed = none → ∃ ms r, db.Matching E p ms ∧ answer = .ok r ∧
    r.rows = (ms.take limit).map (fun m => nodeToRow m.2) ∧ r.count = r.rows.length ∧
    r.rows.length = min limit ms.length ∧ (r.capped ↔ limit < ms.length)

variable {E}

/-- The node of an item under its key, for the items that can be read. -/
def nodeOf? (E : Env) (e : String × Item) : Option (String × NodeRecord) :=
  (decode E e.2).toOption.map fun node => (e.1, node)

theorem nodeOf?_eq_some {e : String × Item} {key : String} {node : NodeRecord} :
    nodeOf? E e = some (key, node) ↔ e.1 = key ∧ decode E e.2 = .ok node := by
  rw [nodeOf?]
  cases decode E e.2 with
  | error err => simp [Except.toOption]
  | ok n => simp [Except.toOption]

/-- One record more: the callback passes over it, takes it, or stops the scan. -/
theorem scanItems_collect (p : NodeRecord → Bool) (limit : ℕ) (items : List (String × Item)) (q : Found)
    (hroom : q.rows.length ≤ limit) (hq : q.capped = false) :
    let ms := (items.filterMap (nodeOf? E)).filter fun m => p m.2
    let more := decide (limit < q.rows.length + ms.length)
    scanItems E (collect p limit) items q =
      (if more then some limitReached else none,
        ⟨q.rows ++ (ms.take (limit - q.rows.length)).map (fun m => nodeToRow m.2), more⟩) := by
  induction items generalizing q with
  | nil =>
    obtain ⟨rows, capped⟩ := q
    obtain rfl : capped = false := hq
    have hmore : ¬ limit < rows.length := Nat.not_lt.2 hroom
    simp [scanItems, hmore]
  | cons e items ih =>
    obtain ⟨key, item⟩ := e
    cases hdec : decode E item with
    | error err =>
      have hnode : nodeOf? E (key, item) = none := by rw [nodeOf?, hdec]; rfl
      simp only [scanItems, hdec, List.filterMap_cons_none hnode]
      exact ih q hroom hq
    | ok node =>
      have hnode : nodeOf? E (key, item) = some (key, node) := nodeOf?_eq_some.2 ⟨rfl, hdec⟩
      simp only [scanItems, hdec, List.filterMap_cons_some hnode]
      by_cases hp : p node = true
      · rw [List.filter_cons_of_pos (by exact hp)]
        rcases hroom.lt_or_eq with hlt | heq
        · have hcollect : collect p limit node q = (none, { q with rows := q.rows ++ [nodeToRow node] }) := by
            rw [collect, if_neg (by simp [hp]), if_neg (by omega)]
          obtain ⟨k, hk⟩ : ∃ k, limit - q.rows.length = k + 1 := ⟨limit - q.rows.length - 1, by omega⟩
          have hk' : limit - (q.rows.length + 1) = k := by omega
          have hrec := ih { q with rows := q.rows ++ [nodeToRow node] }
            (by rw [List.length_append, List.length_singleton]; omega) hq
          simp only [List.length_append, List.length_singleton, hk'] at hrec
          simp only [hcollect, hrec, hk, List.take_succ_cons, List.map_cons, List.length_cons,
            List.append_assoc, List.singleton_append, Nat.add_assoc, Nat.add_comm 1]
        · have hcollect : collect p limit node q = (some limitReached, { q with capped := true }) := by
            rw [collect, if_neg (by simp [hp]), if_pos (by omega)]
          simp [hcollect, heq]
      · have hcollect : collect p limit node q = (none, q) := by rw [collect, if_pos hp]
        rw [List.filter_cons_of_neg (by exact hp)]
        simp only [hcollect]
        exact ih q hroom hq

/-- The matching nodes of the store, as the scan meets them. -/
def Db.matched (E : Env) (db : Db) (p : NodeRecord → Bool) : List (String × NodeRecord) :=
  ((db.items.toList.filter fun e => isNodeKey db.tenantID e.1).filterMap (nodeOf? E)).filter fun m => p m.2

theorem Db.matching_matched (db : Db) (p : NodeRecord → Bool) : db.Matching E (p · = true) (db.matched E p) := by
  constructor
  · have hkeys := (Std.TreeMap.ordered_keys_toList (t := db.items)).filter fun e => isNodeKey db.tenantID e.1
    refine (List.Pairwise.filterMap _ ?_ hkeys).filter _
    rintro e e' hlt ⟨k, n⟩ hn ⟨k', n'⟩ hn'
    obtain ⟨rfl, -⟩ := nodeOf?_eq_some.1 hn
    obtain ⟨rfl, -⟩ := nodeOf?_eq_some.1 hn'
    exact compareOfLessAndEq_eq_lt.1 hlt
  · intro key node
    rw [matched, List.mem_filter, List.mem_filterMap, Db.Holds]
    constructor
    · rintro ⟨⟨e, he, hnode⟩, hp⟩
      obtain ⟨hitem, hkey⟩ := List.mem_filter.1 he
      obtain ⟨rfl, hdec⟩ := nodeOf?_eq_some.1 hnode
      exact ⟨⟨hkey, e.2, Std.TreeMap.mem_toList_iff_getElem?_eq_some.1 hitem, hdec⟩, hp⟩
    · rintro ⟨⟨hkey, item, hitem, hdec⟩, hp⟩
      exact ⟨⟨(key, item), List.mem_filter.2 ⟨Std.TreeMap.mem_toList_iff_getElem?_eq_some.2 hitem, hkey⟩,
        nodeOf?_eq_some.2 ⟨rfl, hdec⟩⟩, hp⟩

theorem bounded_of_le {limit : ℕ} (hpos : 1 ≤ limit) (hmax : limit ≤ 10000) : bounded limit = limit :=
  if_neg (by omega)

theorem answer_stop (columns : List String) (q : Found) :
    answer columns (if q.capped then some limitReached else none, q) =
      .ok ⟨columns, q.rows, q.rows.length, q.capped⟩ := by
  cases hq : q.capped <;> simp [answer, hq]

def Db.found (E : Env) (db : Db) (p : NodeRecord → Bool) (limit : ℕ) : Found :=
  ⟨((db.matched E p).take limit).map fun m => nodeToRow m.2, limit < (db.matched E p).length⟩

theorem Db.scanNodes_collect {db : Db} (hclosed : db.closed = none) (p : NodeRecord → Bool) (limit : ℕ) :
    db.scanNodes E (collect p limit) ⟨[], false⟩ =
      (if (db.found E p limit).capped then some limitReached else none, db.found E p limit) := by
  have hscan := scanItems_collect (E := E) p limit
    (db.items.toList.filter fun e => isNodeKey db.tenantID e.1) ⟨[], false⟩ (Nat.zero_le _) rfl
  simp only [List.length_nil, Nat.zero_add, Nat.sub_zero, List.nil_append] at hscan
  rw [scanNodes, hclosed]
  exact hscan

theorem Db.query_exactPrefix (db : Db) (columns : List String) (p : NodeRecord → Bool) {limit : ℕ}
    (hpos : 1 ≤ limit) (hmax : limit ≤ 10000) :
    db.ExactPrefix E (p · = true) limit (db.query E columns p limit) := by
  constructor
  · intro err hclosed hne
    rw [query, scanNodes, hclosed]
    exact if_pos hne
  · intro hclosed
    have hquery : db.query E columns p limit = .ok ⟨columns, (db.found E p limit).rows,
        (db.found E p limit).rows.length, (db.found E p limit).capped⟩ := by
      rw [query, bounded_of_le hpos hmax, scanNodes_collect hclosed, answer_stop]
    refine ⟨db.matched E p, _, db.matching_matched p, hquery, rfl, rfl, ?_, decide_eq_true_iff⟩
    exact (List.length_map ..).trans List.length_take

theorem hasLabel_iff {labels : List String} {label : String} : hasLabel labels label = true ↔ label ∈ labels := by
  simp [hasLabel]

theorem hasProperty_iff {key op value : String} {n : NodeRecord} : hasProperty E key op value n = true ↔
    ∃ v, Json.field? n.properties key = some v ∧ matchOp E (E.sprint v) op value = true := by
  rw [hasProperty]
  cases Json.field? n.properties key with
  | none => simp
  | some v => simp

/-- Both queries answer the first `limit` of the matching nodes that can be read. -/
theorem local_queries_exact (E : Env) (db : Db) {limit : ℕ} (hpos : 1 ≤ limit) (hmax : limit ≤ 10000) :
    (∀ label, db.ExactPrefix E (fun n => label ∈ n.labels) limit (db.nodesByLabel E label limit)) ∧
    ∀ key op value, isAllowedOp op → db.ExactPrefix E
      (fun n => ∃ v, Json.field? n.properties key = some v ∧ matchOp E (E.sprint v) op value = true)
      limit (db.nodesByProperty E key op value limit) := by
  constructor
  · intro label
    have h := db.query_exactPrefix (E := E) ["id", "labels", "properties", "created_at", "updated_at"]
      (fun n => hasLabel n.labels label) hpos hmax
    simp only [hasLabel_iff] at h
    exact h
  · intro key op value hop
    have h := db.query_exactPrefix (E := E) ["id", "labels", "properties"] (hasProperty E key op value) hpos hmax
    rw [Db.nodesByProperty, if_neg (not_not.2 hop)]
    simp only [hasProperty_iff] at h
    exact h

/-! ### A corrupt record -/

def report : NodeRecord :=
  { id := "a"
    tenantID := "t"
    labels := ["File", "Document"]
    properties := [("name", .str "report.txt")]
    createdAt := 0
    updatedAt := 0
    syncedAt := none
    checksum := "" }

def reportBytes : List UInt8 :=
  ("\x7b\"id\":\"a\",\"tenant_id\":\"t\",\"labels\":[\"File\",\"Document\"]," ++
    "\"properties\":\x7b\"name\":\"report.txt\"\x7d\x7d").toUTF8.toList

def sample : Env where
  unmarshal
    | [] => .error "unexpected end of JSON input"
    | _ => .ok report
  sprint
    | .str s => s
    | _ => ""
  toLower s := String.ofList (s.toList.map Char.toLower)
  quote s := "\"" ++ s ++ "\""

def oneCorrupt : Db where
  tenantID := "t"
  items := .ofList [("n:t:a", Except.ok reportBytes), ("n:t:b", Except.ok [])]
  closed := none

theorem oneCorrupt_exact : (1 ≤ 10 ∧ 10 ≤ 10000 ∧ isAllowedOp "=" = true) ∧
    oneCorrupt.ExactPrefix sample (fun n => "File" ∈ n.labels) 10 (oneCorrupt.nodesByLabel sample "File" 10) ∧
    oneCorrupt.ExactPrefix sample
      (fun n => ∃ v, Json.field? n.properties "name" = some v ∧
        matchOp sample (sample.sprint v) "=" "report.txt" = true)
      10 (oneCorrupt.nodesByProperty sample "name" "=" "report.txt" 10) :=
  ⟨by decide, (local_queries_exact sample oneCorrupt (by decide) (by decide)).1 "File",
    (local_queries_exact sample oneCorrupt (by decide) (by decide)).2 "name" "=" "report.txt" (by decide)⟩

/-- The second record cannot be decoded, which a lookup reports and a query does not. -/
theorem corrupt_record_skipped :
    oneCorrupt.getNode sample "b" = .error "unexpected end of JSON input" ∧
      oneCorrupt.nodesByLabel sample "File" 10 =
        .ok ⟨["id", "labels", "properties", "created_at", "updated_at"], [nodeToRow report], 1, false⟩ :=
  ⟨rfl, by decide +kernel⟩

end Dgraphai.LocalQueries
