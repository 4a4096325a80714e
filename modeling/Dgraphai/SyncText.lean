import Dgraphai.Lib.CypherUpdate
import Dgraphai.Lib.Runs
import Dgraphai.SyncDelta

/-!
# The statements `sync_delta` sends

`upsert_node` and `upsert_rel` (`graph/backends/neo4j.py`) splice the type into the text of their statement and
pass the rest as parameters. `syncDelta` is `sync_delta` with these texts run by a database; where every type is
an identifier it is the one over label names (`syncDelta_eq`).
-/

namespace Dgraphai.SyncText

open Cypher (Text Params Database)
open Dedup (Env Scanner DeltaChunk Outcome State Statement SyncResponse Tally labelText withTenant)
open PropertyGraph (Graph)
open Auth (HttpError serverError)

/-- A call of `upsert_node` or `upsert_rel`. -/
inductive Call where
  | node (type : String) (id : Json) (props : Json.Fields)
  | rel (type : String) (source target : Json) (props : Json.Fields)
  deriving DecidableEq, Repr

namespace Call

def type : Call → String
  | node type _ _ => type
  | rel type _ _ _ => type

/-- The statement up to the type. -/
def before : Call → Text
  | node _ _ _ => "MERGE (n:".toList
  | rel _ _ _ _ => ("MATCH (a \x7bid: $from_id, tenant_id: $tid\x7d) " ++
    "MATCH (b \x7bid: $to_id,   tenant_id: $tid\x7d) MERGE (a)-[r:").toList

/-- The statement after the type. -/
def after : Call → Text
  | node _ _ _ => " \x7bid: $id, tenant_id: $tenant_id\x7d) SET n += $props".toList
  | rel _ _ _ _ => "]->(b) SET r += $props".toList

def text (call : Call) : Text := call.before ++ call.type.toList ++ call.after

def params (tenantID : String) : Call → Params
  | node _ id props => fun p =>
    [("id".toList, id), ("tenant_id".toList, .str tenantID), ("props".toList, .obj (withTenant props tenantID))].lookup p
  | rel _ source target props => fun p =>
    [("from_id".toList, source), ("to_id".toList, target), ("tid".toList, .str tenantID), ("props".toList, .obj props)].lookup p

end Call

/-- One pass of a loop of `sync_delta`. -/
inductive Pass where
  | raises
  | skipped
  | calls (call : Call)

def nodePass (node : Json.Fields) : Pass :=
  match Json.field? node "op" with
  | none => .raises
  | some op =>
    if op ≠ .str "upsert" then .skipped
    else match (Json.field? node "type").bind labelText, Json.field? node "id",
        (Json.getD node "props" (.obj [])).asDict with
      | some label, some id, some props => .calls (.node label id props)
      | _, _, _ => .raises

def edgePass (edge : Json.Fields) : Pass :=
  match Json.field? edge "op" with
  | none => .raises
  | some op =>
    if op ≠ .str "upsert" then .skipped
    else match (Json.field? edge "type").bind labelText, Json.field? edge "from", Json.field? edge "to",
        (Json.getD edge "props" (.obj [])).asDict with
      | some type, some source, some target, some props => .calls (.rel type source target props)
      | _, _, _, _ => .raises

def Pass.call? : Pass → Option Call
  | calls call => some call
  | _ => none

def Pass.statement (D : Database) (tenantID : String) : Pass → Statement
  | raises => .raises
  | skipped => .skipped
  | calls call =>
    match D.exec (call.params tenantID) call.text with
    | some effect => .runs effect
    | none => .raises

variable (D : Database) (E : Env)

def syncBackend (chunk : DeltaChunk) (O : Outcome) (others : List Json.Fields) (g : Graph) (tally : Tally) :
    Graph × Tally :=
  let (g₁, nodes, nodeErrors) :=
    Dedup.runStatements O.accepted 0 (others.map fun node => (nodePass node).statement D chunk.tenantID) g
  let (g₂, edges, edgeErrors) := Dedup.runStatements O.accepted others.length
    (chunk.edges.map fun edge => (edgePass edge).statement D chunk.tenantID) g₁
  (g₂, ⟨tally.nodesMerged + nodes, tally.edgesMerged + edges, tally.errors + nodeErrors + edgeErrors⟩)

/-- `sync_delta` over the texts it sends. -/
def syncDelta (scanner : Scanner) (chunk : DeltaChunk) (O : Outcome) (s : State) : Except HttpError SyncResponse × State :=
  if scanner.tenantID ≠ chunk.tenantID then (.error ⟨403, "tenant_id mismatch"⟩, s)
  else if O.tenantFound = false then (.error ⟨404, "Tenant not found"⟩, s)
  else if O.backendKnown = false then (.error serverError, s)
  else match Dedup.splitNodes E chunk.nodes with
    | none => (.error serverError, s)
    | some (files, others) =>
      let (g₁, tally) := Dedup.syncFiles E scanner chunk O files s.graph
      if O.connects = false then (.error serverError, { s with graph := g₁ })
      else
        let (g₂, tally) := syncBackend D chunk O others g₁ tally
        let lastHealth := if chunk.isFinal then
          Function.update s.lastHealth scanner.id (some (Dedup.health chunk tally.errors)) else s.lastHealth
        (.ok ⟨"accepted", chunk.chunkIndex, tally, chunk.isFinal⟩, ⟨g₂, lastHealth⟩)

/-- The calls `sync_delta` makes. -/
def calls (scanner : Scanner) (chunk : DeltaChunk) (O : Outcome) : List Call :=
  if scanner.tenantID = chunk.tenantID ∧ O.tenantFound = true ∧ O.backendKnown = true ∧ O.connects = true then
    match Dedup.splitNodes E chunk.nodes with
    | none => []
    | some (_, others) => (others.map nodePass ++ chunk.edges.map edgePass).filterMap Pass.call?
  else []

/-! ### A type that is an identifier -/

variable {D} {call : Call}

/-- The entries of a key. -/
def keyEntries (id tenantID : String) : Cypher.Entries :=
  [("id".toList, .param id.toList), ("tenant_id".toList, .param tenantID.toList)]

/-- The tokens behind the label. -/
def nodeTokens : List Cypher.Token :=
  [.sym '\x7b', .word "id".toList, .sym ':', .sym '$', .name "id".toList, .sym ',', .word "tenant_id".toList, .sym ':',
    .sym '$', .name "tenant_id".toList, .sym '\x7d', .sym ')', .kw .set, .word ['n'], .sym '+', .sym '=', .sym '$',
    .name "props".toList]

theorem parseMergeNode_label {l : Text} (h : Cypher.isNumber l = false) :
    Cypher.parseMergeNode (.sym '(' :: .word ['n'] :: .sym ':' :: .name l :: nodeTokens) =
      some (.node l (keyEntries "id" "tenant_id") [.add "props".toList]) := by
  have hnode : Cypher.parseNode (.sym '(' :: .word ['n'] :: .sym ':' :: .name l :: nodeTokens) =
      some (⟨some ['n'], [l], keyEntries "id" "tenant_id"⟩, nodeTokens.drop 12) := rfl
  have hlabel : Cypher.asLabel [l] = some l := if_neg (by simp [h])
  rw [Cypher.parseMergeNode, hnode]
  show (Cypher.asLabel [l]).bind _ = _
  rw [hlabel]
  rfl

theorem readUpdate_node {type : String} {id : Json} {props : Json.Fields} (h : Cypher.Identifier type.toList) :
    Cypher.readUpdate (Call.node type id props).text =
      some (.node type.toList (keyEntries "id" "tenant_id") [.add "props".toList]) := by
  have hpre : Cypher.scan .code "MERGE (n:".toList = ([.kw .merge, .sym '(', .word ['n'], .sym ':'], .dot) := by
    decide +kernel
  have hpost : Cypher.lex (' ' :: "\x7bid: $id, tenant_id: $tenant_id\x7d) SET n += $props".toList) = some nodeTokens := by
    decide +kernel
  have hlex := Cypher.lex_name_between hpre h.1 h.2.2 (by decide) hpost
  have htext : (Call.node type id props).text =
      "MERGE (n:".toList ++ type.toList ++ ' ' :: "\x7bid: $id, tenant_id: $tenant_id\x7d) SET n += $props".toList := rfl
  rw [Cypher.readUpdate, htext, hlex]
  exact parseMergeNode_label h.2.1

/-- The tokens between `MATCH` and `MERGE`. -/
def matchTokens (x param : Text) : List Cypher.Token :=
  [.kw .match, .sym '(', .word x, .sym '\x7b', .word "id".toList, .sym ':', .sym '$', .name param, .sym ',',
    .word "tenant_id".toList, .sym ':', .sym '$', .name "tid".toList, .sym '\x7d', .sym ')']

/-- The tokens behind the type. -/
def relTokens : List Cypher.Token :=
  [.sym ']', .sym '-', .sym '>', .sym '(', .word ['b'], .sym ')', .kw .set, .word ['r'], .sym '+', .sym '=', .sym '$',
    .name "props".toList]

theorem parseMergeRel_label {l : Text} {source target : Cypher.Entries} (h : Cypher.isNumber l = false) :
    Cypher.parseMergeRel ['a'] ['b'] source target ([.sym '(', .word ['a'], .sym ')', .sym '-', .sym '[', .word ['r'],
      .sym ':', .name l] ++ relTokens) = some (.rel source target l "props".toList) := by
  have ha : Cypher.parseNode ([.sym '(', .word ['a'], .sym ')', .sym '-', .sym '[', .word ['r'], .sym ':', .name l] ++
      relTokens) = some (⟨some ['a'], [], []⟩, [.sym '-', .sym '[', .word ['r'], .sym ':', .name l] ++ relTokens) := rfl
  have hr : Cypher.parseRel ([.sym '-', .sym '[', .word ['r'], .sym ':', .name l] ++ relTokens) =
      some (⟨some ['r'], [l], [], .right⟩, relTokens.drop 3) := rfl
  have hlabel : Cypher.asLabel [l] = some l := if_neg (by simp [h])
  simp only [Cypher.parseMergeRel, ha, hr, Option.bind_eq_bind, Option.bind_some]
  rw [show Cypher.parseNode (relTokens.drop 3) = some (⟨some ['b'], [], []⟩, relTokens.drop 6) from rfl, Option.bind_some,
    hlabel]
  rfl

theorem readUpdate_rel {type : String} {source target : Json} {props : Json.Fields}
    (h : Cypher.Identifier type.toList) : Cypher.readUpdate (Call.rel type source target props).text =
      some (.rel (keyEntries "from_id" "tid") (keyEntries "to_id" "tid") type.toList "props".toList) := by
  have hpre : Cypher.scan .code (Call.rel "" .null .null []).before =
      (matchTokens ['a'] "from_id".toList ++ matchTokens ['b'] "to_id".toList ++ [.kw .merge, .sym '(', .word ['a'],
        .sym ')', .sym '-', .sym '[', .word ['r'], .sym ':'], .dot) := by
    decide +kernel
  have hpost : Cypher.lex (']' :: "->(b) SET r += $props".toList) = some relTokens := by
    decide +kernel
  have hlex := Cypher.lex_name_between hpre h.1 h.2.2 (by decide) hpost
  have htext : (Call.rel type source target props).text =
      (Call.rel "" .null .null []).before ++ type.toList ++ ']' :: "->(b) SET r += $props".toList := rfl
  rw [Cypher.readUpdate, htext, hlex]
  exact parseMergeRel_label h.2.1

theorem exec_node (D : Database) {type : String} {id : Json} {props : Json.Fields} (tenantID : String)
    (h : Cypher.Identifier type.toList) :
    D.exec ((Call.node type id props).params tenantID) (Call.node type id props).text =
      if id = .null then none else some (Dedup.upsertNode tenantID type id props) := by
  have hkey : Cypher.fieldsOf D ((Call.node type id props).params tenantID) (keyEntries "id" "tenant_id") =
      some [("id", id), ("tenant_id", .str tenantID)] := rfl
  have hsets : [Cypher.Assignment.add "props".toList].mapM
      (Cypher.Assignment.apply D ((Call.node type id props).params tenantID)) =
      some [fun n : PropertyGraph.Props => n.add (withTenant props tenantID)] := rfl
  have hany : ([("id", id), ("tenant_id", .str tenantID)] : Json.Fields).any (·.2 = .null) = decide (id = .null) := by
    simp
  rw [Database.exec, readUpdate_node h]
  simp only [Cypher.Update.effect, hkey, hsets, Option.bind_eq_bind, Option.bind_some, hany, decide_eq_true_eq,
    String.ofList_toList]
  rfl

theorem exec_rel (D : Database) {type : String} {source target : Json} {props : Json.Fields} (tenantID : String)
    (h : Cypher.Identifier type.toList) :
    D.exec ((Call.rel type source target props).params tenantID) (Call.rel type source target props).text =
      some fun g => g.mergeRels type props [("id", source), ("tenant_id", .str tenantID)]
        [("id", target), ("tenant_id", .str tenantID)] := by
  have hsource : Cypher.fieldsOf D ((Call.rel type source target props).params tenantID) (keyEntries "from_id" "tid") =
      some [("id", source), ("tenant_id", .str tenantID)] := rfl
  have htarget : Cypher.fieldsOf D ((Call.rel type source target props).params tenantID) (keyEntries "to_id" "tid") =
      some [("id", target), ("tenant_id", .str tenantID)] := rfl
  rw [Database.exec, readUpdate_rel h]
  simp only [Cypher.Update.effect, hsource, htarget, Option.bind_eq_bind, Option.bind_some, String.ofList_toList]
  rfl

/-- A pass over label names. -/
def Pass.labelled (tenantID : String) : Pass → Statement
  | raises => .raises
  | skipped => .skipped
  | calls (.node type id props) => if id = .null then .raises else .runs (Dedup.upsertNode tenantID type id props)
  | calls (.rel type source target props) => .runs fun g => g.mergeRels type props
      [("id", source), ("tenant_id", .str tenantID)] [("id", target), ("tenant_id", .str tenantID)]

theorem nodeStatement_eq (tenantID : String) (node : Json.Fields) :
    Dedup.nodeStatement tenantID node = (nodePass node).labelled tenantID := by
  unfold Dedup.nodeStatement nodePass
  cases Json.field? node "op" with
  | none => rfl
  | some op =>
    dsimp only
    split_ifs
    · rfl
    · generalize (Json.field? node "type").bind labelText = type, Json.field? node "id" = id,
        (Json.getD node "props" (.obj [])).asDict = props
      rcases type with _ | type <;> rcases id with _ | id <;> rcases props with _ | props <;> rfl

theorem edgeStatement_eq (tenantID : String) (edge : Json.Fields) :
    Dedup.edgeStatement tenantID edge = (edgePass edge).labelled tenantID := by
  unfold Dedup.edgeStatement edgePass
  cases Json.field? edge "op" with
  | none => rfl
  | some op =>
    dsimp only
    split_ifs
    · rfl
    · generalize (Json.field? edge "type").bind labelText = type, Json.field? edge "from" = source,
        Json.field? edge "to" = target, (Json.getD edge "props" (.obj [])).asDict = props
      rcases type with _ | type <;> rcases source with _ | source <;> rcases target with _ | target <;>
        rcases props with _ | props <;> rfl

/-- What a row and a pass over label names keep, `sync_delta` over label names keeps. -/
theorem inv_syncDelta (P : Graph → Prop) (E : Env) (scanner : Scanner) (chunk : DeltaChunk) (O : Outcome) {s : State}
    (hrow : ∀ g row, P g → P (Dedup.upsertRow chunk.tenantID scanner.id O.datetime g row))
    (hpass : ∀ g (pass : Pass) effect, pass.labelled chunk.tenantID = .runs effect → P g → P (effect g))
    (hs : P s.graph) : P (Dedup.syncDelta E scanner chunk O s).2.graph := by
  have hfiles : ∀ files, P (Dedup.syncFiles E scanner chunk O files s.graph).1 := by
    intro files
    unfold Dedup.syncFiles
    split_ifs
    · exact hs
    · split
      · exact Runs.inv_foldl (Dedup.upsertRow chunk.tenantID scanner.id O.datetime) P (fun g row => hrow g row) hs _
      · exact hs
  have hloop : ∀ (passes : List Pass) (i : Nat) (g : Graph), P g →
      P (Dedup.runStatements O.accepted i (passes.map (Pass.labelled chunk.tenantID)) g).1 := by
    refine fun passes i g hg => Dedup.runStatements_inv P O.accepted (fun effect heffect g hg => ?_) i hg
    obtain ⟨pass, -, h⟩ := List.mem_map.1 heffect
    exact hpass g pass effect h hg
  have hbackend : ∀ others g tally, P g → P (Dedup.syncBackend chunk O others g tally).1 := by
    intro others g tally hg
    have hnodes : others.map (Dedup.nodeStatement chunk.tenantID) =
        (others.map nodePass).map (Pass.labelled chunk.tenantID) := by
      rw [List.map_map]
      exact List.map_congr_left fun node _ => nodeStatement_eq chunk.tenantID node
    have hedges : chunk.edges.map (Dedup.edgeStatement chunk.tenantID) =
        (chunk.edges.map edgePass).map (Pass.labelled chunk.tenantID) := by
      rw [List.map_map]
      exact List.map_congr_left fun edge _ => edgeStatement_eq chunk.tenantID edge
    rw [Dedup.syncBackend, hnodes, hedges]
    exact hloop _ _ _ (hloop _ _ _ hg)
  rcases Dedup.syncDelta_cases E scanner chunk O s with ⟨⟨e, hr⟩, -⟩ | ⟨files, others, -, -, hr⟩
  · rw [hr]
    exact hs
  · rcases hr with ⟨-, hr⟩ | ⟨-, response, lastHealth, hr, -⟩ <;> rw [hr]
    · exact hfiles files
    · exact hbackend others _ (Dedup.syncFiles E scanner chunk O files s.graph).2 (hfiles files)

theorem statement_eq (D : Database) (tenantID : String) {pass : Pass}
    (h : ∀ call ∈ pass.call?, Cypher.Identifier call.type.toList) :
    pass.statement D tenantID = pass.labelled tenantID := by
  rcases pass with _ | _ | (⟨type, id, props⟩ | ⟨type, source, target, props⟩)
  · rfl
  · rfl
  · have hid : Cypher.Identifier type.toList := h _ rfl
    rw [Pass.statement, exec_node D tenantID hid, Pass.labelled]
    split_ifs <;> rfl
  · have hid : Cypher.Identifier type.toList := h _ rfl
    rw [Pass.statement, exec_rel D tenantID hid, Pass.labelled]

/-- Over label names the database only gets statements that were read here. -/
theorem syncDelta_eq (D : Database) (E : Env) (scanner : Scanner) (chunk : DeltaChunk) (O : Outcome) (s : State)
    (h : ∀ call ∈ calls E scanner chunk O, Cypher.Identifier call.type.toList) :
    syncDelta D E scanner chunk O s = Dedup.syncDelta E scanner chunk O s := by
  unfold syncDelta Dedup.syncDelta
  by_cases htenant : scanner.tenantID ≠ chunk.tenantID
  · rw [if_pos htenant, if_pos htenant]
  rw [if_neg htenant, if_neg htenant]
  by_cases hfound : O.tenantFound = false
  · rw [if_pos hfound, if_pos hfound]
  rw [if_neg hfound, if_neg hfound]
  by_cases hknown : O.backendKnown = false
  · rw [if_pos hknown, if_pos hknown]
  rw [if_neg hknown, if_neg hknown]
  cases hsplit : Dedup.splitNodes E chunk.nodes with
  | none => rfl
  | some p =>
    obtain ⟨files, others⟩ := p
    dsimp only
    by_cases hconnects : O.connects = false
    · rw [if_pos hconnects, if_pos hconnects]
    rw [if_neg hconnects, if_neg hconnects]
    have hcalls : ∀ pass ∈ others.map nodePass ++ chunk.edges.map edgePass, ∀ call ∈ pass.call?,
        Cypher.Identifier call.type.toList := by
      intro pass hpass call hcall
      refine h call ?_
      rw [calls, if_pos ⟨not_not.1 htenant, eq_true_of_ne_false hfound, eq_true_of_ne_false hknown,
        eq_true_of_ne_false hconnects⟩, hsplit]
      exact List.mem_filterMap.2 ⟨pass, hpass, hcall⟩
    have hnodes : (others.map fun node => (nodePass node).statement D chunk.tenantID) =
        others.map (Dedup.nodeStatement chunk.tenantID) := List.map_congr_left fun node hnode => by
      rw [nodeStatement_eq]
      exact statement_eq D chunk.tenantID (hcalls _ (List.mem_append_left _ (List.mem_map_of_mem hnode)))
    have hedges : (chunk.edges.map fun edge => (edgePass edge).statement D chunk.tenantID) =
        chunk.edges.map (Dedup.edgeStatement chunk.tenantID) := List.map_congr_left fun edge hedge => by
      rw [edgeStatement_eq]
      exact statement_eq D chunk.tenantID (hcalls _ (List.mem_append_right _ (List.mem_map_of_mem hedge)))
    have hbackend : ∀ g tally, syncBackend D chunk O others g tally = Dedup.syncBackend chunk O others g tally := by
      intro g tally
      rw [syncBackend, Dedup.syncBackend, hnodes, hedges]
    rw [hbackend]

end Dgraphai.SyncText
