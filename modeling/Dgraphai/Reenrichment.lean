import Dgraphai.Lib.CypherSet
import Dgraphai.Lib.PyDict

/-!
# Re-enriching a node (`tasks/reenrichment.py`)

`_reenrich_node_async` sets the status of a file to processing, runs the enrichment, and sets the status to done or,
where something is raised, to error. The properties the enrichment returns are spliced into the statement that sets
the status to done, and among its parameters they come behind the id and the tenant that select the node.
-/

namespace Dgraphai.Reenrichment

open Cypher (Text Params Database Identifier)
open PropertyGraph (Graph Node Props)

/-- What is raised, with its text; `isException` says whether `except Exception` catches it. -/
structure Exn where
  text : String
  isException : Bool
  deriving DecidableEq

/-- How the call of the backend goes, from its `async with` on; one that fails may have been carried out. -/
inductive Outcome
  | answers
  | fails (applied : Bool) (e : Exn)

def Outcome.applied : Outcome → Bool
  | .answers => true
  | .fails applied _ => applied

inductive Enrichment
  | returns (props : Option (PyDict String Json))
  | raises (e : Exn)

/-- The stub `_run_enrichment`. -/
def runEnrichment : Enrichment := .returns none

/-- The arguments, and what the run meets. -/
structure Job where
  tenantID : String
  nodeID : String
  /-- `str(tenant.id)` of the row, if there is one. -/
  tenant : Option String
  enrichment : Enrichment
  processing : Outcome
  done : Outcome
  error : Outcome
  /-- The text of an error of the database. -/
  refusal : String

/-! ### The statements -/

def matchText : Text := "MATCH (f:File) WHERE f.id = $id AND f.tenant_id = $tid SET ".toList

def processingText : Text := matchText ++ "f.enrichment_status = 'processing'".toList

def doneText (props : PyDict String Json) : Text :=
  matchText ++ List.intercalate ", ".toList (props.keys.map fun k => Cypher.putText k.toList) ++
    ", f.enrichment_status = 'done'".toList

def errorText : Text := matchText ++ "f.enrichment_status = 'error', f.enrichment_error = $err".toList

/-- `{"id": node_id, "tid": tenant_id, **rest}`. -/
def params (job : Job) (rest : PyDict String Json) : PyDict String Json :=
  ((PyDict.empty.set "id" (.str job.nodeID)).set "tid" (.str job.tenantID)).update rest

/-- The parameters the backend sends: `p["__tid"] = str(tenant_id)`. -/
def sent (tenant : String) (p : PyDict String Json) : Params := fun k => (p.set "__tid" (.str tenant)).get? (String.ofList k)

/-- `str(e)[:200]`. -/
def errParams (job : Job) (e : Exn) : PyDict String Json :=
  params job (PyDict.empty.set "err" (.str (String.ofList (e.text.toList.take 200))))

/-! ### `_reenrich_node_async` -/

variable (D : Database)

/-- `async with backend: await backend.query(…)`: the graph, and what is raised. -/
def call (refusal : String) (text : Text) (P : Params) (o : Outcome) (g : Graph) : Graph × Option Exn :=
  match D.execSet P text, o with
  | some f, .answers => (f g, none)
  | none, .answers => (g, some ⟨refusal, true⟩)
  | some f, .fails applied e => (if applied then f g else g, some e)
  | none, .fails _ e => (g, some e)

/-- The handler of what the enrichment or the statement behind it raises. -/
def handle (job : Job) (tenant : String) (e : Exn) (g : Graph) : Graph × Option Exn :=
  if e.isException then
    let (g, e') := call D job.refusal errorText (sent tenant (errParams job e)) job.error g
    (g, some ((e'.filter fun e' => !e'.isException).getD e))
  else (g, some e)

def enrich (job : Job) (tenant : String) (g : Graph) : Graph × Option Exn :=
  match job.enrichment with
  | .raises e => handle D job tenant e g
  | .returns none => (g, none)
  | .returns (some props) =>
    if props.entries = [] then (g, none)
    else
      match call D job.refusal (doneText props) (sent tenant (params job props)) job.done g with
      | (g, none) => (g, none)
      | (g, some e) => handle D job tenant e g

/-- The graph a run leaves, and what it raises. -/
def reenrichNode (job : Job) (g : Graph) : Graph × Option Exn :=
  match job.tenant with
  | none => (g, none)
  | some tenant =>
    match call D job.refusal processingText
        (sent tenant (params job PyDict.empty)) job.processing g with
    | (g, some e) => if e.isException then enrich D job tenant g else (g, some e)
    | (g, none) => enrich D job tenant g

/-! ### The node -/

def status (g : Graph) (eid : Nat) : Option Json := (g.node? eid).bind fun n => n.props "enrichment_status"

def Concluded (g : Graph) (eid : Nat) : Prop := status g eid = some (.str "done") ∨ status g eid = some (.str "error")

/-- What a node must have to be selected. -/
def selection (id tid : Json) : Json.Fields := [("id", id), ("tenant_id", tid)]

def Job.selection (job : Job) : Json.Fields := Reenrichment.selection (.str job.nodeID) (.str job.tenantID)

def Selected (g : Graph) (eid : Nat) (key : Json.Fields) : Prop := ∃ n, g.node? eid = some n ∧ n.Holds "File" key

/-- The graph after the first statement. -/
def started (job : Job) (g : Graph) : Graph :=
  g.setNodes "File" job.selection fun n => n.set "enrichment_status" (.str "processing")

/-- Every property name is an identifier. -/
def Named (props : PyDict String Json) : Prop := ∀ k ∈ props.keys, Identifier k.toList

instance (props : PyDict String Json) : Decidable (Named props) := List.decidableBAll _ props.keys

/-- An enriched property `id` or `tid` is the node's or the tenant's own. -/
def KeepsParams (job : Job) (props : PyDict String Json) : Prop :=
  (∀ v, props.get? "id" = some v → v = .str job.nodeID) ∧ ∀ v, props.get? "tid" = some v → v = .str job.tenantID

/-- The statement for the enriched properties gives the node its status: for identifiers if the parameters still select
it, for other names as the database reads the text. -/
def Reaches (job : Job) (tenant : String) (props : PyDict String Json) (g : Graph) (eid : Nat) : Prop :=
  if Named props then KeepsParams job props
  else ∃ f, D.execSet (sent tenant (params job props)) (doneText props) = some f ∧ Concluded (f g) eid

/-- The node is still selected where the statement has been carried out. -/
def Remains (job : Job) (tenant : String) (props : PyDict String Json) (applied : Bool) (g : Graph) (eid : Nat) : Prop :=
  Named props ∨ applied = false ∨ ∀ f, D.execSet (sent tenant (params job props)) (doneText props) = some f →
    Selected (f g) eid job.selection

/-- What has to happen behind the first statement, which leaves `g`. -/
def Finishes (job : Job) (tenant : String) (g : Graph) (eid : Nat) : Prop :=
  match job.enrichment with
  | .raises e => e.isException = true ∧ job.error.applied = true
  | .returns none => False
  | .returns (some props) => props.entries ≠ [] ∧
    match job.done with
    | .answers =>
      if D.execSet (sent tenant (params job props)) (doneText props) = none then job.error.applied = true
      else Reaches D job tenant props g eid
    | .fails applied e => applied = true ∧ Reaches D job tenant props g eid ∨
      (e.isException = true ∧ job.error.applied = true) ∧ Remains D job tenant props applied g eid

/-- No exception but an `Exception` of the first statement, and what has to happen behind it. -/
def Settles (job : Job) (tenant : String) (g : Graph) (eid : Nat) : Prop :=
  (∀ applied e, job.processing = .fails applied e → e.isException = true) ∧ Finishes D job tenant g eid

/-! ### The statements as the database reads them -/

variable {D} {job : Job} {tenant : String} {g : Graph} {eid : Nat} {props : PyDict String Json}

def selectionEntries : Cypher.Entries :=
  [("id".toList, .param "id".toList), ("tenant_id".toList, .param "tid".toList)]

/-- The tokens up to the items of SET. -/
def matchTokens : List Cypher.Token :=
  [.kw .match, .sym '(', .word ['f'], .sym ':', .name "File".toList, .sym ')', .kw .where,
    .word ['f'], .sym '.', .name "id".toList, .sym '=', .sym '$', .name "id".toList, .kw .and,
    .word ['f'], .sym '.', .name "tenant_id".toList, .sym '=', .sym '$', .name "tid".toList, .kw .set]

set_option maxRecDepth 2000 in
theorem scan_matchText : Cypher.scan .code matchText = (matchTokens, .code) := rfl

theorem readSet_matchText {text : Text} {items : List Cypher.Token} {sets : List Cypher.Assignment}
    (hlex : Cypher.lex text = some items)
    (hsets : (items.splitOn (.sym ',')).mapM (Cypher.parseAssignment ['f']) = some sets)
    (hnamed : sets.all Cypher.Assignment.named = true) :
    Cypher.readSet (matchText ++ text) = some ⟨"File".toList, selectionEntries, sets⟩ := by
  rw [Cypher.readSet, Cypher.lex_append_of_code scan_matchText, hlex]
  have hparse : Cypher.parseSet (matchTokens ++ items) = (do
      let sets ← (items.splitOn (.sym ',')).mapM (Cypher.parseAssignment ['f'])
      if sets.all Cypher.Assignment.named then some ⟨"File".toList, selectionEntries, sets⟩ else none) := rfl
  rw [Option.map_some, Option.bind_some, hparse, hsets]
  exact if_pos hnamed

theorem fieldsOf_selection {P : Params} {id tid : Json} (hid : P "id".toList = some id) (htid : P "tid".toList = some tid) :
    Cypher.fieldsOf D P selectionEntries = some (selection id tid) := by
  unfold Cypher.fieldsOf selectionEntries
  rw [List.mapM_cons, List.mapM_cons, Cypher.Operand.value, Cypher.Operand.value, hid, htid]
  rfl

theorem sent_apply (p : PyDict String Json) {k : String} (h : k ≠ "__tid") : sent tenant p k.toList = p.get? k := by
  rw [sent, String.ofList_toList, PyDict.get?_set_of_ne h]

theorem params_id : (params job props).get? "id" = some ((props.get? "id").getD (.str job.nodeID)) := by
  have hid : (((PyDict.empty : PyDict String Json).set "id" (.str job.nodeID)).set "tid" (.str job.tenantID)).get? "id" =
      some (.str job.nodeID) := by
    rw [PyDict.get?_set_of_ne (by decide), PyDict.get?_set_self]
  rw [params, PyDict.get?_update, hid]
  cases props.get? "id" <;> rfl

theorem params_tid : (params job props).get? "tid" = some ((props.get? "tid").getD (.str job.tenantID)) := by
  rw [params, PyDict.get?_update, PyDict.get?_set_self]
  cases props.get? "tid" <;> rfl

theorem sent_id : sent tenant (params job props) "id".toList = some ((props.get? "id").getD (.str job.nodeID)) := by
  rw [sent_apply _ (by decide), params_id]

theorem sent_tid : sent tenant (params job props) "tid".toList = some ((props.get? "tid").getD (.str job.tenantID)) := by
  rw [sent_apply _ (by decide), params_tid]

theorem execSet_matchText {P : Params} {text : Text} {sets : List Cypher.Assignment} {fs : List (Props → Props)}
    {id tid : Json} (hread : Cypher.readSet text = some ⟨"File".toList, selectionEntries, sets⟩)
    (hid : P "id".toList = some id) (htid : P "tid".toList = some tid)
    (hsets : sets.mapM (Cypher.Assignment.apply D P) = some fs) :
    D.execSet P text = some fun g => g.setNodes "File" (selection id tid) (Cypher.setAll fs) := by
  have hlabel : String.ofList "File".toList = "File" := String.ofList_toList
  rw [Database.execSet, hread]
  dsimp only
  rw [Cypher.SetStatement.effect, fieldsOf_selection hid htid, hsets, hlabel]
  rfl

theorem apply_status {P : Params} (v : String) :
    Cypher.Assignment.apply D P (.put "enrichment_status".toList (.str v.toList)) =
      some fun n => n.set "enrichment_status" (.str v) := by
  rw [Cypher.Assignment.apply, Cypher.Operand.value, Option.map_some, String.ofList_toList, String.ofList_toList]

theorem set_status (n : Props) (v : String) : n.set "enrichment_status" (.str v) "enrichment_status" = some (.str v) :=
  Props.set_self (by simp)

theorem execSet_processing : D.execSet (sent tenant (params job PyDict.empty)) processingText = some (started job) := by
  have hread : Cypher.readSet processingText =
      some ⟨"File".toList, selectionEntries, [.put "enrichment_status".toList (.str "processing".toList)]⟩ :=
    readSet_matchText rfl rfl rfl
  have hsets : [Cypher.Assignment.put "enrichment_status".toList (.str "processing".toList)].mapM
      (Cypher.Assignment.apply D (sent tenant (params job PyDict.empty))) =
        some [fun n => n.set "enrichment_status" (.str "processing")] := by
    rw [List.mapM_cons, apply_status]
    rfl
  exact execSet_matchText hread sent_id sent_tid hsets

/-- The statement of the handler. -/
theorem execSet_error (e : Exn) : ∃ set : Props → Props, (∀ n, set n "enrichment_status" = some (.str "error")) ∧
    D.execSet (sent tenant (errParams job e)) errorText = some fun g => g.setNodes "File" job.selection set := by
  have hread : Cypher.readSet errorText = some ⟨"File".toList, selectionEntries,
      [.put "enrichment_status".toList (.str "error".toList), .put "enrichment_error".toList (.param "err".toList)]⟩ :=
    readSet_matchText rfl rfl rfl
  have herr : sent tenant (errParams job e) "err".toList = some (.str (String.ofList (e.text.toList.take 200))) := by
    rw [sent_apply _ (by decide), errParams, params, PyDict.get?_update, PyDict.get?_set_self]
    rfl
  have happly : Cypher.Assignment.apply D (sent tenant (errParams job e)) (.put "enrichment_error".toList (.param "err".toList)) =
      some fun n => n.set "enrichment_error" (.str (String.ofList (e.text.toList.take 200))) := by
    rw [Cypher.Assignment.apply, Cypher.Operand.value, herr, Option.map_some, String.ofList_toList]
  have hsets : [Cypher.Assignment.put "enrichment_status".toList (.str "error".toList),
      .put "enrichment_error".toList (.param "err".toList)].mapM
      (Cypher.Assignment.apply D (sent tenant (errParams job e))) =
        some [fun n => n.set "enrichment_status" (.str "error"),
          fun n => n.set "enrichment_error" (.str (String.ofList (e.text.toList.take 200)))] := by
    rw [List.mapM_cons, apply_status, List.mapM_cons, happly]
    rfl
  refine ⟨_, fun n => ?_, execSet_matchText hread sent_id sent_tid hsets⟩
  have hlater : ∀ v, Props.set (n.set "enrichment_status" (.str "error")) "enrichment_error" v "enrichment_status" =
      some (.str "error") := by
    intro v
    rw [Props.set_ne (by decide), set_status]
  exact hlater (.str (String.ofList (e.text.toList.take 200)))

theorem intercalate_append (sep rest : Text) {ls : List Text} (h : ls ≠ []) :
    List.intercalate sep ls ++ (sep ++ rest) = ls.flatMap (· ++ sep) ++ rest := by
  induction ls with
  | nil => exact absurd rfl h
  | cons l ls ih =>
    cases ls with
    | nil => simp
    | cons l' ls =>
      rw [List.intercalate_cons_cons, List.append_assoc, List.append_assoc, ih (List.cons_ne_nil l' ls)]
      simp only [List.flatMap_cons, List.append_assoc]

theorem doneText_eq (hne : props.entries ≠ []) : doneText props = matchText ++
    (((props.keys.map String.toList).flatMap fun k => Cypher.putText k ++ [',', ' ']) ++
      "f.enrichment_status = 'done'".toList) := by
  have hcomma : ", f.enrichment_status = 'done'".toList = ", ".toList ++ "f.enrichment_status = 'done'".toList := rfl
  have hks : props.keys.map (fun k => Cypher.putText k.toList) ≠ [] := by
    rw [PyDict.keys, List.map_map]
    exact fun hnil => hne (List.map_eq_nil_iff.1 hnil)
  rw [doneText, List.append_assoc, hcomma, intercalate_append _ _ hks, List.flatMap_map, List.flatMap_map]
  rfl

theorem readSet_done (hnamed : Named props) (hne : props.entries ≠ []) : Cypher.readSet (doneText props) =
    some ⟨"File".toList, selectionEntries, ((props.keys.map String.toList).map fun k => .put k (.param k)) ++
      [.put "enrichment_status".toList (.str "done".toList)]⟩ := by
  have hks : ∀ k ∈ props.keys.map String.toList, Identifier k := by
    intro k hk
    obtain ⟨name, hname, rfl⟩ := List.mem_map.1 hk
    exact hnamed name hname
  have hlast : Cypher.lex "f.enrichment_status = 'done'".toList = some
      [.word ['f'], .sym '.', .name "enrichment_status".toList, .sym '=', .str "done".toList] := rfl
  rw [doneText_eq hne]
  refine readSet_matchText (Cypher.lex_puts hks hlast) (Cypher.parse_puts rfl (by decide)) ?_
  rw [List.all_append, List.all_map, Bool.and_eq_true]
  refine ⟨List.all_eq_true.2 fun k hk => ?_, rfl⟩
  rw [Function.comp_apply, Cypher.Assignment.named, (hks k hk).2.1]
  rfl

/-- Every enriched property has its value among the parameters. -/
theorem sent_isSome {k : Text} (h : k ∈ props.keys.map String.toList) :
    sent tenant (params job props) k = some ((sent tenant (params job props) k).getD .null) := by
  obtain ⟨name, hname, rfl⟩ := List.mem_map.1 h
  by_cases htid : name = "__tid"
  · subst htid
    rw [sent, String.ofList_toList, PyDict.get?_set_self]
    rfl
  · obtain ⟨e, he, rfl⟩ := List.mem_map.1 hname
    rw [sent_apply _ htid, params, PyDict.get?_update, PyDict.get?_of_mem he]
    rfl

/-- The statement for properties that are named by identifiers. -/
theorem execSet_done (hnamed : Named props) (hne : props.entries ≠ []) : ∃ set : Props → Props,
    (∀ n, set n "enrichment_status" = some (.str "done")) ∧
      D.execSet (sent tenant (params job props)) (doneText props) = some fun g =>
        g.setNodes "File" (selection ((props.get? "id").getD (.str job.nodeID)) ((props.get? "tid").getD (.str job.tenantID)))
          set := by
  have hvalues : ∀ k ∈ props.keys.map String.toList,
      sent tenant (params job props) k = some ((sent tenant (params job props) k).getD .null) := fun k hk => sent_isSome hk
  have hsets := Cypher.mapM_apply_puts hvalues (apply_status (D := D) "done")
  refine ⟨_, fun n => ?_, execSet_matchText (readSet_done hnamed hne) sent_id sent_tid hsets⟩
  rw [Cypher.setAll_append, set_status]

/-! ### What a statement does to the status -/

variable {key : Json.Fields} {set : Props → Props}

theorem status_of_selected {v : Json} (hset : ∀ n, set n "enrichment_status" = some v) (h : Selected g eid key) :
    status (g.setNodes "File" key set) eid = some v := by
  obtain ⟨n, hn, hholds⟩ := h
  rw [status, PropertyGraph.Graph.node?_setNodes, hn, Option.map_some, if_pos hholds, Option.bind_some]
  exact hset n.props

theorem node?_of_not_selected (h : ¬ Selected g eid key) : (g.setNodes "File" key set).node? eid = g.node? eid := by
  rw [PropertyGraph.Graph.node?_setNodes]
  cases hn : g.node? eid with
  | none => rfl
  | some n => rw [Option.map_some, if_neg fun hholds => h ⟨n, hn, hholds⟩]

theorem concluded_congr {g g' : Graph} (h : g'.node? eid = g.node? eid) : Concluded g' eid ↔ Concluded g eid := by
  rw [Concluded, Concluded, status, status, h]

theorem selected_congr {g g' : Graph} (h : g'.node? eid = g.node? eid) : Selected g' eid key ↔ Selected g eid key := by
  rw [Selected, Selected, h]

/-- A statement that sets the status of the nodes it selects to done or error. -/
theorem concluded_setNodes {v : String} (hv : v = "done" ∨ v = "error")
    (hset : ∀ n, set n "enrichment_status" = some (.str v)) :
    Concluded (g.setNodes "File" key set) eid ↔ Concluded g eid ∨ Selected g eid key := by
  by_cases h : Selected g eid key
  · refine iff_of_true ?_ (.inr h)
    have hstatus := status_of_selected hset h
    rcases hv with rfl | rfl
    · exact .inl hstatus
    · exact .inr hstatus
  · rw [concluded_congr (node?_of_not_selected h), or_iff_left h]

theorem started_selected (h : Selected g eid job.selection) : Selected (started job g) eid job.selection := by
  obtain ⟨n, hn, hholds⟩ := h
  refine ⟨{ n with props := n.props.set "enrichment_status" (.str "processing") }, ?_, hholds.1, fun kv hkv => ?_⟩
  · rw [started, PropertyGraph.Graph.node?_setNodes, hn, Option.map_some, if_pos hholds]
  · have hkey : kv.1 = "id" ∨ kv.1 = "tenant_id" := by
      rcases List.mem_cons.1 hkv with rfl | hkv
      · exact .inl rfl
      · exact .inr (List.mem_singleton.1 hkv ▸ rfl)
    have hne : kv.1 ≠ "enrichment_status" := by rcases hkey with hkey | hkey <;> rw [hkey] <;> decide
    obtain ⟨hnull, hprop⟩ := hholds.2 kv hkv
    exact ⟨hnull, (Props.set_ne hne).trans hprop⟩

theorem started_not_concluded (h : Selected g eid job.selection) : ¬ Concluded (started job g) eid := by
  have hstatus : status (started job g) eid = some (.str "processing") :=
    status_of_selected (fun n => set_status n "processing") h
  rw [Concluded, hstatus]
  decide

/-! ### The run -/

theorem getD_eq_iff {o : Option Json} {d : Json} : o.getD d = d ↔ ∀ v, o = some v → v = d := by
  cases o with
  | none => exact iff_of_true rfl fun _ h => nomatch h
  | some v => exact ⟨fun h _ hv => Option.some.inj hv ▸ h, fun h => h v rfl⟩

/-- The parameters select the node exactly if they are its own. -/
theorem selected_started_iff (h : Selected g eid job.selection) :
    Selected (started job g) eid
      (selection ((props.get? "id").getD (.str job.nodeID)) ((props.get? "tid").getD (.str job.tenantID))) ↔
        KeepsParams job props := by
  have hstarted := started_selected h
  rw [KeepsParams, ← getD_eq_iff, ← getD_eq_iff]
  constructor
  · rintro ⟨n, hn, hholds⟩
    obtain ⟨n', hn', hholds'⟩ := hstarted
    obtain rfl := Option.some.inj (hn.symm.trans hn')
    have hid := (hholds.2 _ (.head _)).2.symm.trans (hholds'.2 _ (.head _)).2
    have htid := (hholds.2 _ (.tail _ (.head _))).2.symm.trans (hholds'.2 _ (.tail _ (.head _))).2
    exact ⟨Option.some.inj hid, Option.some.inj htid⟩
  · rintro ⟨hid, htid⟩
    rw [hid, htid]
    exact hstarted

section
variable {text : Text} {P : Params} {refusal : String} {f : Graph → Graph}

theorem call_answers (h : D.execSet P text = some f) : call D refusal text P .answers g = (f g, none) := by
  unfold call
  rw [h]

theorem call_refused (h : D.execSet P text = none) :
    call D refusal text P .answers g = (g, some ⟨refusal, true⟩) := by
  unfold call
  rw [h]

theorem call_fails (h : D.execSet P text = some f) (applied : Bool) (e : Exn) :
    call D refusal text P (.fails applied e) g = (if applied then f g else g, some e) := by
  unfold call
  rw [h]

theorem call_fails_unread (h : D.execSet P text = none) (applied : Bool) (e : Exn) :
    call D refusal text P (.fails applied e) g = (g, some e) := by
  unfold call
  rw [h]

theorem call_fst (h : D.execSet P text = some f) (o : Outcome) :
    (call D refusal text P o g).1 = if o.applied then f g else g := by
  cases o with
  | answers => rw [call_answers h, Outcome.applied, if_pos rfl]
  | fails applied e => rw [call_fails h, Outcome.applied]

end

/-- The handler puts the node right if what was raised is caught and the node still there. -/
theorem concluded_handle (e : Exn) : Concluded (handle D job tenant e g).1 eid ↔
    Concluded g eid ∨ (e.isException = true ∧ job.error.applied = true) ∧ Selected g eid job.selection := by
  obtain ⟨set, hset, hexec⟩ := execSet_error e
  unfold handle
  by_cases hcaught : e.isException = true
  · rw [if_pos hcaught]
    dsimp only
    rw [call_fst hexec job.error]
    by_cases happlied : job.error.applied = true
    · rw [if_pos happlied, concluded_setNodes (.inr rfl) hset, and_iff_right ⟨hcaught, happlied⟩]
    · rw [if_neg happlied, or_iff_left fun h => happlied h.1.2]
  · rw [if_neg hcaught, or_iff_left fun h => hcaught h.1.1]

variable {f : Graph → Graph}

theorem concluded_iff_reaches (h : Selected g eid job.selection) (hne : props.entries ≠ [])
    (hexec : D.execSet (sent tenant (params job props)) (doneText props) = some f) :
    Concluded (f (started job g)) eid ↔ Reaches D job tenant props (started job g) eid := by
  unfold Reaches
  by_cases hnamed : Named props
  · obtain ⟨set, hset, hdone⟩ := execSet_done hnamed hne
    obtain rfl := Option.some.inj (hexec.symm.trans hdone)
    rw [if_pos hnamed, concluded_setNodes (.inl rfl) hset, or_iff_right (started_not_concluded h),
      selected_started_iff h]
  · rw [if_neg hnamed]
    constructor
    · exact fun hconcluded => ⟨f, hexec, hconcluded⟩
    · rintro ⟨f', hexec', hconcluded⟩
      obtain rfl := Option.some.inj (hexec.symm.trans hexec')
      exact hconcluded

theorem selected_iff_remains (h : Selected g eid job.selection) (hne : props.entries ≠ [])
    (hexec : D.execSet (sent tenant (params job props)) (doneText props) = some f)
    (hopen : ¬ Concluded (f (started job g)) eid) :
    Selected (f (started job g)) eid job.selection ↔ Remains D job tenant props true (started job g) eid := by
  constructor
  · intro hselected
    refine .inr (.inr fun f' hexec' => ?_)
    obtain rfl := Option.some.inj (hexec.symm.trans hexec')
    exact hselected
  · rintro (hnamed | hfalse | hall)
    · obtain ⟨set, hset, hdone⟩ := execSet_done hnamed hne
      obtain rfl := Option.some.inj (hexec.symm.trans hdone)
      rw [concluded_setNodes (.inl rfl) hset, not_or] at hopen
      exact (selected_congr (node?_of_not_selected hopen.2)).2 (started_selected h)
    · nomatch hfalse
    · exact hall f hexec

theorem execSet_done_ne (hnamed : Named props) (hne : props.entries ≠ []) :
    D.execSet (sent tenant (params job props)) (doneText props) ≠ none := by
  obtain ⟨set, -, hexec⟩ := execSet_done hnamed hne
  rw [hexec]
  exact nofun

/-- A text the database does not run. -/
theorem not_reaches (hne : props.entries ≠ [])
    (hexec : D.execSet (sent tenant (params job props)) (doneText props) = none) :
    ¬ Reaches D job tenant props g eid := by
  unfold Reaches
  rw [if_neg, hexec]
  · exact fun ⟨f, hf, _⟩ => nomatch hf
  · exact fun hnamed => execSet_done_ne hnamed hne hexec

/-- What comes behind the first statement. -/
theorem concluded_enrich (h : Selected g eid job.selection) :
    Concluded (enrich D job tenant (started job g)).1 eid ↔ Finishes D job tenant (started job g) eid := by
  have hopen := started_not_concluded h
  have hselected := started_selected h
  unfold enrich Finishes
  cases job.enrichment with
  | raises e => exact (concluded_handle e).trans (by rw [or_iff_right hopen, and_iff_left hselected])
  | returns props =>
    cases props with
    | none => exact iff_of_false hopen id
    | some props =>
      dsimp only
      by_cases hne : props.entries = []
      · rw [if_pos hne]
        exact iff_of_false hopen fun hcond => hcond.1 hne
      rw [if_neg hne, and_iff_right hne]
      cases hexec : D.execSet (sent tenant (params job props)) (doneText props) with
      | none =>
        cases job.done with
        | answers =>
          rw [call_refused hexec]
          refine (concluded_handle _).trans ?_
          rw [or_iff_right hopen, and_iff_left hselected, if_pos rfl, and_iff_right rfl]
        | fails applied e =>
          rw [call_fails_unread hexec]
          refine (concluded_handle e).trans ?_
          have hremains : Remains D job tenant props applied (started job g) eid :=
            .inr (.inr fun f hf => nomatch hexec.symm.trans hf)
          rw [or_iff_right hopen, and_iff_left hselected]
          exact (or_iff_right fun hcond => not_reaches hne hexec hcond.2).symm.trans
            (or_congr_right (and_iff_left hremains).symm)
      | some f =>
        have hreaches := concluded_iff_reaches h hne hexec
        cases job.done with
        | answers =>
          rw [call_answers hexec]
          exact hreaches.trans (by rw [if_neg (nomatch ·)])
        | fails applied e =>
          rw [call_fails hexec]
          refine (concluded_handle e).trans ?_
          cases applied with
          | false =>
            have hremains : Remains D job tenant props false (started job g) eid := .inr (.inl rfl)
            rw [if_neg Bool.false_ne_true, or_iff_right hopen, and_iff_left hselected]
            exact (or_iff_right fun hcond => nomatch hcond.1).symm.trans (or_congr_right (and_iff_left hremains).symm)
          | true =>
            rw [if_pos rfl]
            by_cases hconcluded : Concluded (f (started job g)) eid
            · exact iff_of_true (.inl hconcluded) (.inl ⟨rfl, hreaches.1 hconcluded⟩)
            · rw [or_iff_right hconcluded, selected_iff_remains h hne hexec hconcluded]
              exact (or_iff_right fun hcond => hconcluded (hreaches.2 hcond.2)).symm

variable (D) in
/-- A run that has set the status to processing leaves it done or error exactly if the rest goes this way. -/
theorem concluded_iff (htenant : job.tenant = some tenant) (happlied : job.processing.applied = true)
    (hnode : Selected g eid job.selection) :
    Concluded (reenrichNode D job g).1 eid ↔ Settles D job tenant (started job g) eid := by
  unfold reenrichNode Settles
  rw [htenant]
  dsimp only
  cases hprocessing : job.processing with
  | answers =>
    rw [call_answers execSet_processing, and_iff_right fun _ _ h => nomatch h]
    exact concluded_enrich hnode
  | fails applied e =>
    rw [hprocessing] at happlied
    obtain rfl : applied = true := happlied
    rw [call_fails execSet_processing, if_pos rfl]
    dsimp only
    by_cases hcaught : e.isException = true
    · rw [if_pos hcaught, and_iff_right]
      · exact concluded_enrich hnode
      · rintro _ _ ⟨⟩
        exact hcaught
    · rw [if_neg hcaught]
      exact iff_of_false (started_not_concluded hnode) fun hcond => hcaught (hcond.1 true e rfl)

def oneFile : Graph :=
  ⟨[⟨0, ["File"], Props.ofMap [("id", .str "f"), ("tenant_id", .str "t"), ("enrichment_status", .str "error")]⟩], [], 1⟩

/-- No statement raises. -/
def smooth (enrichment : Enrichment) : Job where
  tenantID := "t"
  nodeID := "f"
  tenant := some "t"
  enrichment := enrichment
  processing := .answers
  done := .answers
  error := .answers
  refusal := "Neo.ClientError"

/-- A database that runs no other text. -/
def strict : Database where
  literal _ := none
  compare _ _ _ := none
  accepts _ _ := false
  other _ _ _ _ := none
  run _ _ := none

theorem oneFile_selected (enrichment : Enrichment) : Selected oneFile 0 (smooth enrichment).selection := by
  refine ⟨_, rfl, .head _, fun kv hkv => ?_⟩
  rcases List.mem_cons.1 hkv with rfl | hkv
  · exact ⟨nofun, rfl⟩
  · obtain rfl := List.mem_singleton.1 hkv
    exact ⟨nofun, rfl⟩

def noted : PyDict String Json := PyDict.empty.set "summary" (.str "a note")

theorem noted_concluded : Concluded (reenrichNode strict (smooth (.returns (some noted))) oneFile).1 0 := by
  have hnamed : Named noted := by decide
  have hkeeps : KeepsParams (smooth (.returns (some noted))) noted := ⟨fun _ h => (nomatch h), fun _ h => (nomatch h)⟩
  have hreaches : Reaches strict (smooth (.returns (some noted))) "t" noted
      (started (smooth (.returns (some noted))) oneFile) 0 := by
    rw [Reaches, if_pos hnamed]
    exact hkeeps
  have hruns : strict.execSet (sent "t" (params (smooth (.returns (some noted))) noted)) (doneText noted) ≠ none :=
    execSet_done_ne hnamed (nomatch ·)
  refine (concluded_iff strict rfl rfl (oneFile_selected _)).2 ⟨fun _ _ h => (nomatch h), (nomatch ·), ?_⟩
  show ite _ _ _
  rw [if_neg hruns]
  exact hreaches

/-- Nothing is raised, and the status stays. -/
theorem stub_stays_processing :
    reenrichNode strict (smooth runEnrichment) oneFile = (started (smooth runEnrichment) oneFile, none) ∧
      status (started (smooth runEnrichment) oneFile) 0 = some (.str "processing") ∧
      ¬ Concluded (reenrichNode strict (smooth runEnrichment) oneFile).1 0 := by
  have hrun : reenrichNode strict (smooth runEnrichment) oneFile = (started (smooth runEnrichment) oneFile, none) := by
    rw [reenrichNode]
    dsimp only [smooth]
    rw [call_answers execSet_processing]
    rfl
  refine ⟨hrun, status_of_selected (fun n => set_status n "processing") (oneFile_selected runEnrichment), ?_⟩
  rw [hrun]
  exact started_not_concluded (oneFile_selected runEnrichment)

end Dgraphai.Reenrichment
