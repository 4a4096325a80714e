import Dgraphai.AuthContext
import Dgraphai.Lib.PyJson

/-!
# The workflow engine (`workflows/engine.py`) and its API (`api/workflows.py`)

A run walks the steps of its template until an approval step makes it wait. Inside a request the
context of a run also holds `action_results`; the column does not track that write, so `Db.saveRun`
keeps the stored context. `Event.run` is one request in the `get_db` scope.
-/

namespace Dgraphai.Workflows

open Auth (Uuid Time AuthContext HttpError serverError hours)

/-! ### Rows -/

inductive TriggerType where
  | manual | queryResult | schedule | threshold
  deriving DecidableEq, Repr

def TriggerType.ofString? : String → Option TriggerType
  | "manual" => some .manual
  | "query_result" => some .queryResult
  | "schedule" => some .schedule
  | "threshold" => some .threshold
  | _ => none

inductive RunStatus where
  | pending | running | complete | rejected | error
  deriving DecidableEq, Repr

inductive ApprovalStatus where
  | pending | approved | rejected | expired | cancelled
  deriving DecidableEq, Repr

/-- The decisions `decide_approval` lets through. -/
def ApprovalStatus.ofDecision? : String → Option ApprovalStatus
  | "approved" => some .approved
  | "rejected" => some .rejected
  | _ => none

structure WorkflowTemplate where
  tenantID : Uuid
  createdBy : Option Uuid
  name : String
  description : String
  triggerType : TriggerType
  triggerConfig : Json.Fields
  steps : List Json.Fields
  isActive : Bool
  deriving DecidableEq, Repr

structure WorkflowRun where
  templateID : Uuid
  tenantID : Uuid
  triggeredBy : String
  triggeredByUser : Option Uuid
  status : RunStatus
  currentStep : Int
  context : Json.Fields
  result : Json
  startedAt : Time
  completedAt : Option Time
  deriving DecidableEq, Repr

structure ApprovalRequest where
  runID : Uuid
  tenantID : Uuid
  stepID : Option String
  stepName : Option String
  description : Option String
  context : Json.Fields
  status : ApprovalStatus
  approverID : Option Uuid
  decisionNote : Option String
  expiresAt : Option Time
  decidedAt : Option Time
  createdAt : Time
  deriving DecidableEq, Repr

structure Db where
  templates : Uuid → Option WorkflowTemplate
  runs : Uuid → Option WorkflowRun
  approvals : Uuid → Option ApprovalRequest
  /-- The unique index on `(tenant_id, name)` of the templates. -/
  templateNames : List (Uuid × String)
  /-- How many outside answers have been drawn. -/
  ticks : Nat

def emptyDb : Db := ⟨fun _ => none, fun _ => none, fun _ => none, [], 0⟩

def Db.setRun (db : Db) (id : Uuid) (run : WorkflowRun) : Db :=
  { db with runs := Function.update db.runs id (some run) }

def Db.setApproval (db : Db) (id : Uuid) (approval : ApprovalRequest) : Db :=
  { db with approvals := Function.update db.approvals id (some approval) }

def ApprovalRequest.Expired (approval : ApprovalRequest) (now : Time) : Prop :=
  ∃ t ∈ approval.expiresAt, t < now

instance (approval : ApprovalRequest) (now : Time) : Decidable (approval.Expired now) :=
  inferInstanceAs (Decidable (∃ t ∈ approval.expiresAt, t < now))

/-! ### What the engine calls outside the repository -/

/-- A call through `protocol_factory`. -/
inductive ProtocolCall where
  | move (source destination : Json)
  | delete (source : Json)
  deriving DecidableEq, Repr

structure Env where
  now : Time
  /-- The `uuid4()` drawn at a tick. -/
  uuid4 : Nat → Uuid
  /-- `uuid.UUID(text)`, or the text of its `ValueError`. -/
  parseUuid : String → Except String Uuid
  /-- Whether the text of a float is zero, and that many hours in microseconds. -/
  isZero : String → Bool
  floatHours : String → Option Int
  /-- `str()` of a decoded JSON value. -/
  pyStr : Json → String
  /-- `bool(eval(expression, …))` from `file_count`, `approval_count` and `error_count`; `none` raises. -/
  eval : String → Nat → Nat → Nat → Option Bool
  /-- What the call at a tick raises, if anything. -/
  protocolCall : Nat → ProtocolCall → Option String
  /-- How deep `_advance` can call itself before `RecursionError`. -/
  recursionLimit : Nat

/-- `ValueError(message)`, or an exception the endpoints do not catch. -/
inductive Exc where
  | value (message : String)
  | other
  deriving DecidableEq, Repr

abbrev Engine := Txn Db Exc

def draw {α : Type} (answer : Nat → α) : Engine α := do
  let ticks ← Txn.read Db.ticks
  Txn.write fun db => { db with ticks := db.ticks + 1 }
  pure (answer ticks)

/-- The primary key of a new row; a key in use violates the constraint. -/
def freshID (E : Env) (used : Db → Uuid → Bool) : Engine Uuid := do
  let id ← draw E.uuid4
  let taken ← Txn.read fun db => used db id
  Txn.raiseIf (taken = true) .other
  pure id

/-! ### Column types -/

/-- A value for a `Text` column: PostgreSQL refuses the character 0. -/
def text : Json → Option (Option String)
  | .null => some none
  | .str s => if Char.ofNat 0 ∈ s.toList then none else some (some s)
  | _ => none

/-- A value for a `String(n)` column. -/
def varchar (n : Nat) (j : Json) : Option (Option String) :=
  (text j).filter fun s => (s.getD "").length ≤ n

/-- A value for an `Integer` column. -/
def IsInt4 (n : Int) : Prop := -2147483648 ≤ n ∧ n ≤ 2147483647

instance (n : Int) : Decidable (IsInt4 n) := inferInstanceAs (Decidable (_ ∧ _))

/-! ### Steps -/

def WorkflowRun.next (run : WorkflowRun) : WorkflowRun := { run with currentStep := run.currentStep + 1 }

def WorkflowRun.complete (run : WorkflowRun) (now : Time) : WorkflowRun :=
  { run with status := .complete, completedAt := some now }

/-- `run.context.get("files", [])`. -/
def WorkflowRun.files (run : WorkflowRun) : Json := Json.getD run.context "files" (.arr [])

/-- `datetime.now(timezone.utc) + timedelta(hours=timeout_hours)`, before the year 10000. -/
def deadline (E : Env) (timeoutHours : Json) : Option Time := do
  let delta ← match timeoutHours with
    | .real text => E.floatHours text
    | j => j.int?.map (· * hours 1)
  let t : Int := E.now + delta
  if 0 ≤ t ∧ t < 315537897600000000 then some t.toNat else none

/-- The description of an approval request, where `len(context_files)` does not raise. -/
def approvalDescription (E : Env) (config : Json.Fields) (files : Json) : Option Json :=
  let description := Json.getD config "description" .null
  if description.truthy E.isZero then some description
  else if files.truthy E.isZero then
    files.len?.map fun n => .str ("Approval required for " ++ toString n ++ " file action(s)")
  else some (.str "Approval required to proceed")

def createApprovalRequest (E : Env) (runID : Uuid) (run : WorkflowRun) (stepID stepName config : Json) :
    Engine Unit := do
  let config ← Txn.ofOption .other config.asDict
  let expiresAt ← Txn.ofOption .other (deadline E (Json.getD config "timeout_hours" (.num 48)))
  let description ← Txn.ofOption .other (approvalDescription E config run.files)
  let files ← Txn.ofOption .other (run.files.take? 50)
  let stepID ← Txn.ofOption .other (varchar 64 stepID)
  let stepName ← Txn.ofOption .other (varchar 256 stepName)
  let description ← Txn.ofOption .other (text description)
  let id ← freshID E fun db id => (db.approvals id).isSome
  let approval : ApprovalRequest :=
    { runID := runID, tenantID := run.tenantID, stepID := stepID, stepName := stepName
      description := description
      context := [("files", files), ("actions", Json.getD run.context "pending_actions" (.arr []))]
      status := .pending, approverID := none, decisionNote := none
      expiresAt := some expiresAt, decidedAt := none, createdAt := E.now }
  Txn.write fun db => db.setApproval id approval

/-- `{"status": "error", "error": error}`. -/
def errorResult (error : String) : Json.Fields := [("status", .str "error"), ("error", .str error)]

def doMove (E : Env) (source destination : Json) (dryRun : Bool) : Engine Json :=
  if dryRun then
    pure (.obj [("status", .str "dry_run"), ("source", source), ("destination", destination)])
  else do
    let raised ← draw fun n => E.protocolCall n (.move source destination)
    match raised with
    | none => pure (.obj [("status", .str "moved"), ("source", source), ("destination", destination)])
    | some error => pure (.obj (errorResult error))

def doDelete (E : Env) (source : Json) (dryRun : Bool) : Engine Json :=
  if dryRun then pure (.obj [("status", .str "dry_run"), ("path", source)])
  else do
    let raised ← draw fun n => E.protocolCall n (.delete source)
    match raised with
    | none => pure (.obj [("status", .str "deleted"), ("path", source)])
    | some error => pure (.obj (errorResult error))

/-- What the `try` of `_execute_action` calls for a file entry; an error is the text of an exception
raised before the call. -/
def fileAction (E : Env) (actionType params : Json) (dryRun : Bool) (entry : Json) :
    Except String (Engine Json) :=
  match actionType with
  | .str "move" => do
    let source ← entry.attrGet "path" (.str "")
    let destination ← params.attrGet "destination" (.str "")
    pure (doMove E source destination dryRun)
  | .str "delete" => do
    let source ← entry.attrGet "path" (.str "")
    pure (doDelete E source dryRun)
  | .str "tag" => do
    let tags ← params.attrGet "tags" (.arr [])
    let path ← entry.attrGet "path" .null
    pure (pure (.obj [("status", .str "tagged"), ("path", path), ("tags", tags)]))
  | _ => pure (pure (.obj [("status", .str "unknown_action"), ("action", actionType)]))

/-- One pass of the loop of `_execute_action`. -/
def fileResult (E : Env) (actionType params : Json) (dryRun : Bool) (entry : Json) : Engine Json :=
  match fileAction E actionType params dryRun entry with
  | .ok action => action
  | .error e => pure (.obj (errorResult e ++ [("file", .str (E.pyStr entry))]))

def fileResults (E : Env) (actionType params : Json) (dryRun : Bool) : List Json → Engine (List Json)
  | [] => pure []
  | entry :: entries => do
    let result ← fileResult E actionType params dryRun entry
    let results ← fileResults E actionType params dryRun entries
    pure (result :: results)

/-- `d[k] = v`. -/
def setKey (fields : Json.Fields) (k : String) (v : Json) : Json.Fields :=
  if fields.any (·.1 = k) then fields.map fun f => if f.1 = k then (k, v) else f
  else fields ++ [(k, v)]

def executeAction (E : Env) (run : WorkflowRun) (config : Json) : Engine WorkflowRun := do
  let config ← Txn.ofOption .other config.asDict
  let entries ← Txn.ofOption .other run.files.iter?
  let results ← fileResults E (Json.getD config "action_type" .null) (Json.getD config "params" (.obj []))
    ((Json.getD config "dry_run" (.bool true)).truthy E.isZero) entries
  pure { run with context := setKey run.context "action_results" (.arr results) }

/-- What of `_send_notification` can raise; the posts are in a `try` that passes on every exception. -/
def sendNotification (run : WorkflowRun) (config : Json) : Engine Unit := do
  let config ← Txn.ofOption .other config.asDict
  let message := Json.getD config "message" (.str "Workflow step completed")
  Txn.raiseIf (message.typeName ≠ "str") .other
  let _fileCount ← Txn.ofOption .other run.files.len?
  let _channels ← Txn.ofOption .other (Json.getD config "channels" (.arr [])).iter?
  pure ()

/-- `len([x for x in j if x.get("status") == status])`. -/
def countStatus (j : Json) (status : String) : Option Nat := do
  let items ← j.iter?
  let statuses ← items.mapM fun x => x.asDict.map fun d => Json.getD d "status" .null
  pure (statuses.count (.str status))

def evaluateCondition (E : Env) (context : Json.Fields) (expression : Json) : Option Bool := do
  let fileCount ← (Json.getD context "files" (.arr [])).len?
  let approvalCount ← countStatus (Json.getD context "approvals" (.arr [])) "approved"
  let errorCount ← countStatus (Json.getD context "action_results" (.arr [])) "error"
  match expression with
  | .str e => pure ((E.eval e fileCount approvalCount errorCount).getD true)
  | _ => pure true

/-- `_advance`, and the run as it leaves it. -/
def advance (E : Env) (template : WorkflowTemplate) (runID : Uuid) :
    Nat → WorkflowRun → Engine WorkflowRun
  | 0, _ => Txn.raise .other
  | fuel + 1, run =>
    if template.steps.length ≤ run.currentStep then pure (run.complete E.now)
    else do
      let step ← Txn.ofOption .other (template.steps.pyGet? run.currentStep)
      let stepType := Json.getD step "type" .null
      let config := Json.getD step "config" (.obj [])
      let stepID := Json.getD step "id" (.str ("step_" ++ toString run.currentStep))
      let stepName := Json.getD step "name" stepType
      if stepType = .str "approval" then do
        createApprovalRequest E runID run stepID stepName config
        pure run
      else if stepType = .str "action" then do
        let run ← executeAction E run config
        advance E template runID fuel run.next
      else if stepType = .str "notify" then do
        sendNotification run config
        advance E template runID fuel run.next
      else if stepType = .str "condition" then do
        let config ← Txn.ofOption .other config.asDict
        let result ← Txn.ofOption .other
          (evaluateCondition E run.context (Json.getD config "expression" (.str "true")))
        if result then advance E template runID fuel run.next
        else if Json.getD config "else_step" .null = .null then pure (run.complete E.now)
        else do
          -- what is no integer fails the comparison, the index or the column
          let elseStep ← Txn.ofOption .other (Json.getD config "else_step" .null).int?
          advance E template runID fuel { run with currentStep := elseStep }
      else pure run

/-! ### `WorkflowEngine` -/

/-- The update of a run row at the flush after `_advance`. -/
def saveRun (id : Uuid) (stored run : WorkflowRun) : Engine Unit := do
  Txn.raiseIf (¬ IsInt4 run.currentStep) .other
  Txn.write fun db => db.setRun id { run with context := stored.context }

def parseID (E : Env) (text : String) : Engine Uuid :=
  match E.parseUuid text with
  | .ok id => pure id
  | .error message => Txn.raise (.value message)

/-- `uuid.UUID(str(user_id))`. -/
def userUuid (userID : Option Uuid) : Engine Uuid :=
  Txn.ofOption (.value "badly formed hexadecimal UUID string") userID

def startRun (E : Env) (templateID : String) (tenantID : Uuid) (context : Json.Fields)
    (triggeredBy : String) (triggeredByUser : Option Uuid) : Engine (Uuid × WorkflowRun) := do
  let key ← parseID E templateID
  let template ← Txn.read fun db => (db.templates key).filter fun t =>
    t.tenantID = tenantID ∧ t.isActive = true
  let template ← Txn.ofOption (.value ("Workflow template '" ++ templateID ++ "' not found or inactive"))
    template
  let user ← userUuid triggeredByUser
  let run : WorkflowRun :=
    { templateID := key, tenantID := tenantID, triggeredBy := triggeredBy
      triggeredByUser := some user, status := .running, currentStep := 0, context := context
      result := .null, startedAt := E.now, completedAt := none }
  let id ← freshID E fun db id => (db.runs id).isSome
  Txn.write fun db => db.setRun id run
  let run' ← advance E template id E.recursionLimit run
  saveRun id run run'
  pure (id, run')

/-- The branch for a request past its deadline; `ValueError` rolls the write back. -/
def expire (id : Uuid) (approval : ApprovalRequest) (now : Time) : Engine Unit :=
  if approval.Expired now then do
    Txn.write fun db => db.setApproval id { approval with status := .expired }
    Txn.raise (.value "Approval request has expired")
  else pure ()

def ApprovalRequest.decide (approval : ApprovalRequest) (decision : ApprovalStatus) (approver : Uuid)
    (note : Option String) (now : Time) : ApprovalRequest :=
  { approval with
    status := decision, approverID := some approver, decisionNote := note, decidedAt := some now }

def WorkflowRun.reject (run : WorkflowRun) (stepID : Option String) (note : String) (now : Time) :
    WorkflowRun :=
  { run with
    status := .rejected, completedAt := some now
    result := .obj [("rejected_at_step", (stepID.map Json.str).getD .null), ("note", .str note)] }

/-- The run after the decision, in memory. -/
def decideRun (E : Env) (approval : ApprovalRequest) (decision : ApprovalStatus) (note : String)
    (run : WorkflowRun) : Engine WorkflowRun :=
  if decision = .rejected then pure (run.reject approval.stepID note E.now)
  else do
    let template ← Txn.read fun db => db.templates run.templateID
    let template ← Txn.ofOption .other template
    advance E template approval.runID E.recursionLimit run.next

def processApproval (E : Env) (approvalID : String) (approverID : Option Uuid) (decision : ApprovalStatus)
    (note : String) : Engine (Uuid × WorkflowRun) := do
  let id ← parseID E approvalID
  let approval ← Txn.read fun db => (db.approvals id).filter fun a => a.status = .pending
  let approval ← Txn.ofOption (.value "Approval not found or already decided") approval
  expire id approval E.now
  let approver ← userUuid approverID
  let note' ← Txn.ofOption .other (text (.str note))
  Txn.write fun db => db.setApproval id (approval.decide decision approver note' E.now)
  let run ← Txn.read fun db => db.runs approval.runID
  let run ← Txn.ofOption .other run
  let run' ← decideRun E approval decision note run
  saveRun approval.runID run run'
  pure (approval.runID, run')

/-! ### Endpoints -/

/-- The test of every endpoint below. -/
def HasPermission (auth : AuthContext) (permission : String) : Prop :=
  permission ∈ auth.permissions ∨ "admin:*" ∈ auth.permissions

instance (auth : AuthContext) (permission : String) : Decidable (HasPermission auth permission) :=
  inferInstanceAs (Decidable (_ ∨ _))

structure CreateTemplateRequest where
  name : String
  description : String
  triggerType : String
  triggerConfig : Json.Fields
  steps : List Json.Fields
  deriving DecidableEq, Repr

def addTemplate (E : Env) (auth : AuthContext) (req : CreateTemplateRequest) :
    Engine (Uuid × WorkflowTemplate) := do
  let name ← Txn.ofOption .other ((varchar 256 (.str req.name)).bind id)
  let description ← Txn.ofOption .other ((text (.str req.description)).bind id)
  let triggerType ← Txn.ofOption .other (TriggerType.ofString? req.triggerType)
  let names ← Txn.read Db.templateNames
  Txn.raiseIf ((auth.tenantID, name) ∈ names) .other
  let template : WorkflowTemplate :=
    { tenantID := auth.tenantID, createdBy := auth.userID, name := name, description := description
      triggerType := triggerType, triggerConfig := req.triggerConfig, steps := req.steps
      isActive := true }
  let id ← freshID E fun db id => (db.templates id).isSome
  Txn.write fun db =>
    { db with
      templates := Function.update db.templates id (some template)
      templateNames := (auth.tenantID, name) :: db.templateNames }
  pure (id, template)

def forbidden (permission : String) : HttpError := ⟨403, "Permission required: " ++ permission⟩

def createTemplateEndpoint (E : Env) (auth : AuthContext) (req : CreateTemplateRequest) :
    Txn Db HttpError (Uuid × WorkflowTemplate) := do
  Txn.raiseIf (¬ HasPermission auth "actions:approve") (forbidden "actions:approve")
  Txn.mapErr (fun _ => serverError) (addTemplate E auth req)

def startRunEndpoint (E : Env) (auth : AuthContext) (templateID : String) (context : Json.Fields) :
    Txn Db HttpError (Uuid × WorkflowRun) := do
  Txn.raiseIf (¬ HasPermission auth "actions:propose") (forbidden "actions:propose")
  Txn.mapErr (fun _ => serverError) (startRun E templateID auth.tenantID context "manual" auth.userID)

/-- `except ValueError as e: raise HTTPException(400, str(e))`. -/
def Exc.toHttp : Exc → HttpError
  | .value message => ⟨400, message⟩
  | .other => serverError

def decideApproval (E : Env) (auth : AuthContext) (approvalID decision note : String) :
    Txn Db HttpError (Uuid × WorkflowRun) := do
  let decision ← Txn.ofOption ⟨400, "decision must be 'approved' or 'rejected'"⟩
    (ApprovalStatus.ofDecision? decision)
  Txn.raiseIf (¬ HasPermission auth "actions:approve") (forbidden "actions:approve")
  Txn.mapErr Exc.toHttp (processApproval E approvalID auth.userID decision note)

inductive WorkflowRequest where
  | createTemplate (req : CreateTemplateRequest)
  | startRun (templateID : String) (context : Json.Fields)
  | decide (approvalID decision note : String)
  deriving DecidableEq, Repr

/-- A request by the user of a context, and the outside answers it meets. -/
structure Event where
  env : Env
  auth : AuthContext
  request : WorkflowRequest

def Event.body (e : Event) : Txn Db HttpError Unit :=
  match e.request with
  | .createTemplate req => do
    let _template ← createTemplateEndpoint e.env e.auth req
    pure ()
  | .startRun templateID context => do
    let _run ← startRunEndpoint e.env e.auth templateID context
    pure ()
  | .decide approvalID decision note => do
    let _run ← decideApproval e.env e.auth approvalID decision note
    pure ()

def Event.run (db : Db) (e : Event) : Db := (e.body.exec db).2

end Dgraphai.Workflows
