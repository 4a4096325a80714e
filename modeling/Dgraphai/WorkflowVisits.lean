import Dgraphai.WorkflowIsolation

/-!
# The steps a request looks at

`Event.entry` is the state in which a request first calls `_advance`, `Event.visits` the states the
engine is in when it looks at a step, those of a request that is rolled back included: what a step did
outside the database stays done. `Event.run_shape` says what a request commits.
-/

namespace Dgraphai.Workflows

open Auth (Uuid Time AuthContext HttpError serverError)

variable {E : Env} {db db' db₁ : Db} {run run' : WorkflowRun} {template : WorkflowTemplate}
  {id runID : Uuid}

/-! ### Visits -/

structure Visit where
  run : WorkflowRun
  db : Db
  /-- The errors of the action step this request executed last. -/
  errors : Option Nat

/-- `r.get("status") == "error"`. -/
def isError (r : Json) : Bool := r.asDict.map (fun d => Json.getD d "status" .null) = some (.str "error")

namespace Visit

def step (template : WorkflowTemplate) (v : Visit) : Option Json.Fields := template.stepAt v.run.currentStep

/-- The step is an action, with this config. -/
def action? (template : WorkflowTemplate) (v : Visit) : Option Json :=
  ((v.step template).filter fun s => stepType s = .str "action").map stepConfig

def errorsAfter (E : Env) (template : WorkflowTemplate) (v : Visit) : Option Nat :=
  match v.action? template with
  | some config => (((actionResults E v.run config).value? v.db).map (List.countP isError)).or v.errors
  | none => v.errors

def next (E : Env) (template : WorkflowTemplate) (runID : Uuid) (v : Visit) : Option Visit :=
  match advanceStep E template runID v.run v.db with
  | (.ok (.next run), db) => some ⟨run, db, v.errorsAfter E template⟩
  | _ => none

theorem next_eq_some {v w : Visit} : v.next E template runID = some w ↔
    advanceStep E template runID v.run v.db = (.ok (.next w.run), w.db) ∧
      w.errors = v.errorsAfter E template := by
  unfold next
  rcases h : advanceStep E template runID v.run v.db with ⟨e | o, db'⟩
  · simp
  · cases o with
    | stop run' => simp
    | next run' =>
      obtain ⟨run₁, db₁, errors⟩ := w
      simp only [Option.some.injEq, Visit.mk.injEq, Prod.mk.injEq, Except.ok.injEq, Outcome.next.injEq]
      tauto

/-- One step of the walk follows a move of the template. -/
theorem leadsTo_of_next {v w : Visit} (h : v.next E template runID = some w) :
    template.LeadsTo v.run.currentStep w.run.currentStep ∧ v.db.Ticked w.db ∧
      w.run = { v.run with currentStep := w.run.currentStep, context := w.run.context } :=
  leadsTo_of_advanceStep (next_eq_some.1 h).1

end Visit

/-! ### Where a request enters `_advance` -/

structure Entry where
  template : WorkflowTemplate
  runID : Uuid
  run : WorkflowRun
  db : Db

/-- `start_run` before it calls `_advance`. -/
def beginRun (E : Env) (templateID : String) (tenantID : Uuid) (context : Json.Fields) (triggeredBy : String)
    (triggeredByUser : Option Uuid) : Engine (Uuid × WorkflowTemplate × WorkflowRun) := do
  let key ← parseID E templateID
  let template ← Txn.read fun db => (db.templates key).filter fun t =>
    t.tenantID = tenantID ∧ t.isActive = true
  let template ← Txn.ofOption (.value ("Workflow template '" ++ templateID ++ "' not found or inactive"))
    template
  let user ← userUuid triggeredByUser
  let run : WorkflowRun :=
    { templateID := key, tenantID := tenantID, triggeredBy := triggeredBy
      triggeredByUser := some user, status := .running, currentStep := 0, context := context
      result := .null, startedAt := E.now, completedAt := none }
  let id ← freshID E fun db id => (db.runs id).isSome
  Txn.write fun db => db.setRun id run
  pure (id, template, run)

theorem startRun_eq {templateID triggeredBy : String} {tenantID : Uuid} {context : Json.Fields}
    {user : Option Uuid} :
    startRun E templateID tenantID context triggeredBy user =
      (beginRun E templateID tenantID context triggeredBy user >>= fun (id, template, run) => do
        let run' ← advance E template id E.recursionLimit run
        saveRun id run run'
        pure (id, run')) := by
  simp only [startRun, beginRun, Txn.bind_assoc, Txn.pure_bind]

/-- `process_approval` before the decision is carried out. -/
def beginApproval (E : Env) (approvalID : String) (approverID : Option Uuid) (decision : ApprovalStatus)
    (note : String) : Engine (ApprovalRequest × WorkflowRun) := do
  let id ← parseID E approvalID
  let approval ← Txn.read fun db => (db.approvals id).filter fun a => a.status = .pending
  let approval ← Txn.ofOption (.value "Approval not found or already decided") approval
  expire id approval E.now
  let approver ← userUuid approverID
  let note' ← Txn.ofOption .other (text (.str note))
  Txn.write fun db => db.setApproval id (approval.decide decision approver note' E.now)
  let run ← Txn.read fun db => db.runs approval.runID
  let run ← Txn.ofOption .other run
  pure (approval, run)

theorem processApproval_eq {approvalID note : String} {user : Option Uuid} {decision : ApprovalStatus} :
    processApproval E approvalID user decision note =
      (beginApproval E approvalID user decision note >>= fun (approval, run) => do
        let run' ← decideRun E approval decision note run
        saveRun approval.runID run run'
        pure (approval.runID, run')) := by
  simp only [processApproval, beginApproval, Txn.bind_assoc, Txn.pure_bind]

def Event.entry (e : Event) (db : Db) : Option Entry :=
  match e.request with
  | .createTemplate _ => none
  | .startRun templateID context =>
    if HasPermission e.auth "actions:propose" then
      match beginRun e.env templateID e.auth.tenantID context "manual" e.auth.userID db with
      | (.ok (id, template, run), db') => some ⟨template, id, run, db'⟩
      | _ => none
    else none
  | .decide approvalID decision note =>
    if ApprovalStatus.ofDecision? decision = some .approved ∧ HasPermission e.auth "actions:approve" then
      match beginApproval e.env approvalID e.auth.userID .approved note db with
      | (.ok (approval, run), db') =>
        (db'.templates run.templateID).map fun template => ⟨template, approval.runID, run.next, db'⟩
      | _ => none
    else none

def Event.visits (e : Event) (db : Db) : List Visit :=
  match e.entry db with
  | some en => Walk.walk (Visit.next e.env en.template en.runID) e.env.recursionLimit ⟨en.run, en.db, none⟩
  | none => []

theorem Event.mem_visits {e : Event} {v : Visit} : v ∈ e.visits db ↔ ∃ en, e.entry db = some en ∧
    v ∈ Walk.walk (Visit.next e.env en.template en.runID) e.env.recursionLimit ⟨en.run, en.db, none⟩ := by
  unfold visits
  rcases e.entry db with _ | en <;> simp

/-! ### What holds at the entry -/

/-- `start_run` enters with a new row, at the first step. -/
structure Entry.Starts (en : Entry) (db : Db) (context : Json.Fields) : Prop where
  row : ∃ db₁, db.Ticked db₁ ∧ db₁.runs en.runID = none ∧ en.db = db₁.setRun en.runID en.run
  template : db.templates en.run.templateID = some en.template
  status : en.run.status = .running
  first : en.run.currentStep = 0
  context : en.run.context = context

/-- An approval enters at the step after the one that waited. -/
structure Entry.Approves (en : Entry) (db : Db) (id : Uuid) (a : ApprovalRequest) (run : WorkflowRun) : Prop
    where
  found : db.approvals id = some a
  pending : a.status = .pending
  runID : en.runID = a.runID
  row : db.runs a.runID = some run
  next : en.run = run.next
  template : db.templates run.templateID = some en.template
  decided : ∃ approver note now, en.db = db.setApproval id (a.decide .approved approver note now)

theorem beginRun_eq_ok {templateID triggeredBy : String} {tenantID : Uuid} {context : Json.Fields}
    {user : Option Uuid}
    (h : beginRun E templateID tenantID context triggeredBy user db = (.ok (id, template, run), db')) :
    Entry.Starts ⟨template, id, run, db'⟩ db context ∧ E.parseUuid templateID = .ok run.templateID := by
  obtain ⟨key, db₀, hkey, h⟩ := Txn.bind_eq_ok.1 h
  obtain ⟨hparse, rfl⟩ := parseID_eq_ok.1 hkey
  rw [Txn.read_bind_eq_ok] at h
  obtain ⟨t, ht, h⟩ := Txn.ofOption_bind_eq_ok.1 h
  obtain ⟨user, -, h⟩ := Txn.ofOption_bind_eq_ok.1 h
  obtain ⟨id', db₁, hid, h⟩ := Txn.bind_eq_ok.1 h
  obtain ⟨hdraws, hfree⟩ := freshID_eq_ok hid
  rw [Txn.write_bind_eq_ok] at h
  obtain ⟨hres, rfl⟩ := Txn.pure_eq_ok.1 h
  cases hres
  exact ⟨⟨⟨db₁, hdraws, by simpa using hfree, rfl⟩, (Option.filter_eq_some_iff.1 ht).1, rfl, rfl, rfl⟩, hparse⟩

theorem beginApproval_eq_ok {approvalID note : String} {user : Option Uuid} {decision : ApprovalStatus}
    {a : ApprovalRequest} (h : beginApproval E approvalID user decision note db = (.ok (a, run), db')) :
    ∃ id approver note', user = some approver ∧ db.openApproval E approvalID = some (id, a) ∧
      db.runs a.runID = some run ∧ db' = db.setApproval id (a.decide decision approver note' E.now) := by
  obtain ⟨id, db₀, hparse, h⟩ := Txn.bind_eq_ok.1 h
  obtain ⟨hid, rfl⟩ := parseID_eq_ok.1 hparse
  rw [Txn.read_bind_eq_ok] at h
  obtain ⟨a', ha, h⟩ := Txn.ofOption_bind_eq_ok.1 h
  rw [Option.filter_eq_some_iff, decide_eq_true_iff] at ha
  obtain ⟨u, db₁, hexpire, h⟩ := Txn.bind_eq_ok.1 h
  obtain ⟨hopen, rfl⟩ := expire_eq_ok.1 hexpire
  obtain ⟨approver, happrover, h⟩ := Txn.ofOption_bind_eq_ok.1 h
  obtain ⟨note', -, h⟩ := Txn.ofOption_bind_eq_ok.1 h
  rw [Txn.write_bind_eq_ok, Txn.read_bind_eq_ok] at h
  obtain ⟨run', hrun, h⟩ := Txn.ofOption_bind_eq_ok.1 h
  obtain ⟨hres, rfl⟩ := Txn.pure_eq_ok.1 h
  cases hres
  exact ⟨id, approver, note', happrover, Db.openApproval_eq_some.2 ⟨hid, ha.1, ha.2, hopen⟩, hrun, rfl⟩

/-- A request enters `_advance` as a start or as an approval. -/
theorem Event.entry_cases {e : Event} {en : Entry} (h : e.entry db = some en) :
    (∃ templateID context, e.request = .startRun templateID context ∧ en.Starts db context ∧
      e.env.parseUuid templateID = .ok en.run.templateID) ∨
      ∃ approvalID decision note id a run, e.request = .decide approvalID decision note ∧
        db.openApproval e.env approvalID = some (id, a) ∧ en.Approves db id a run := by
  obtain ⟨E, auth, request⟩ := e
  cases request with
  | createTemplate req => cases h
  | startRun templateID context =>
    simp only [entry] at h
    split_ifs at h with hauth
    split at h
    · rename_i id template run db' hbegin
      cases h
      exact .inl ⟨templateID, context, rfl, beginRun_eq_ok hbegin⟩
    · cases h
  | decide approvalID decision note =>
    simp only [entry] at h
    split_ifs at h with hauth
    split at h
    · rename_i a run db' hbegin
      obtain ⟨template, htemplate, rfl⟩ := Option.map_eq_some_iff.1 h
      obtain ⟨id, approver, note', -, hopen, hrun, rfl⟩ := beginApproval_eq_ok hbegin
      obtain ⟨-, ha, hpending, -⟩ := Db.openApproval_eq_some.1 hopen
      exact .inr ⟨approvalID, decision, note, id, a, run, rfl, hopen, ha, hpending, rfl, hrun, rfl,
        htemplate, approver, note', E.now, rfl⟩
    · cases h

/-- Wherever a walk is, it came there by moves of the template, and only answers were drawn. -/
theorem Visit.reach_of_mem {en : Entry} {v : Visit} {n : Nat}
    (h : v ∈ Walk.walk (Visit.next E en.template en.runID) n ⟨en.run, en.db, none⟩) :
    Relation.ReflTransGen en.template.LeadsTo en.run.currentStep v.run.currentStep ∧ en.db.Ticked v.db := by
  have hreach := Walk.reach_of_mem h
  clear h
  induction hreach with
  | refl => exact ⟨.refl, .refl en.db⟩
  | tail _ hlast ih =>
    obtain ⟨hmoves, hticked⟩ := ih
    obtain ⟨hmove, htick, -⟩ := Visit.leadsTo_of_next hlast
    exact ⟨hmoves.tail hmove, hticked.trans htick⟩

theorem Entry.Approves.decided_found {en : Entry} {a : ApprovalRequest} (h : en.Approves db id a run) :
    ∃ a', en.db.approvals id = some a' ∧ a'.runID = en.runID ∧ a'.status = .approved := by
  obtain ⟨approver, note, now, hdb⟩ := h.decided
  refine ⟨a.decide .approved approver note now, ?_, h.runID.symm, rfl⟩
  rw [hdb]
  exact Db.setApproval_self

/-- A run that starts has no approval request yet. -/
theorem Entry.Starts.no_approval {en : Entry} {context : Json.Fields} (h : en.Starts db context)
    (hdb : db.WellFormed) {a : ApprovalRequest} (ha : en.db.approvals id = some a) : a.runID ≠ en.runID := by
  obtain ⟨db₁, ⟨n, rfl⟩, hnone, hrow⟩ := h.row
  rw [hrow] at ha
  intro hrun
  obtain ⟨run, hfound, -⟩ := hdb.owner id a ha
  have hempty : db.runs en.runID = none := hnone
  rw [hrun, hempty] at hfound
  cases hfound

/-! ### What a request commits -/

inductive Event.Commits (e : Event) (db : Db) : Db → Prop
  /-- Nothing, or the request raised. -/
  | nothing : Commits e db db
  | template {n : Nat} {id : Uuid} {t : WorkflowTemplate} {names : List (Uuid × String)}
      (hfree : db.templates id = none) :
      Commits e db
        { db with ticks := n, templates := Function.update db.templates id (some t), templateNames := names }
  | rejection {id approver : Uuid} {a : ApprovalRequest} {run : WorkflowRun} {note' : Option String}
      {approvalID note : String} (hopen : db.openApproval e.env approvalID = some (id, a))
      (hrun : db.runs a.runID = some run) :
      Commits e db
        ((db.setApproval id (a.decide .rejected approver note' e.env.now)).setRun a.runID
          (run.reject a.stepID note e.env.now))
  | walk {en : Entry} {run' : WorkflowRun} {db₂ : Db} (hentry : e.entry db = some en)
      (hadvance : advance e.env en.template en.runID e.env.recursionLimit en.run en.db = (.ok run', db₂)) :
      Commits e db (db₂.setRun en.runID { run' with context := en.run.context })

theorem addTemplate_commits {auth : AuthContext} {req : CreateTemplateRequest} {e : Event}
    {r : Uuid × WorkflowTemplate} (h : addTemplate E auth req db = (.ok r, db')) : e.Commits db db' := by
  simp only [addTemplate, Txn.ofOption_bind_eq_ok, Txn.read_bind_eq_ok, Txn.raiseIf_bind_eq_ok] at h
  obtain ⟨name, -, description, -, triggerType, -, -, h⟩ := h
  obtain ⟨id, db₁, hid, h⟩ := Txn.bind_eq_ok.1 h
  obtain ⟨⟨n, rfl⟩, hfree⟩ := freshID_eq_ok hid
  rw [Txn.write_bind_eq_ok] at h
  obtain ⟨-, rfl⟩ := Txn.pure_eq_ok.1 h
  have hnone : db.templates id = none := by simpa using hfree
  exact .template hnone

theorem Event.run_commits (e : Event) (db : Db) : e.Commits db (e.run db) := by
  rcases e.run_cases db with hrun | hbody
  · rw [hrun]
    exact .nothing
  obtain ⟨E, auth, request⟩ := e
  cases request with
  | createTemplate req =>
    obtain ⟨r, db₁, hok, hp⟩ := Txn.bind_eq_ok.1 hbody
    obtain ⟨-, hdb⟩ := Txn.pure_eq_ok.1 hp
    obtain ⟨-, hok⟩ := Txn.raiseIf_bind_eq_ok.1 hok
    rw [← hdb]
    exact addTemplate_commits (Txn.mapErr_eq_ok.1 hok)
  | startRun templateID context =>
    obtain ⟨r, db₁, hok, hp⟩ := Txn.bind_eq_ok.1 hbody
    obtain ⟨-, hdb⟩ := Txn.pure_eq_ok.1 hp
    obtain ⟨hauth, hok⟩ := Txn.raiseIf_bind_eq_ok.1 hok
    have hstart := Txn.mapErr_eq_ok.1 hok
    rw [startRun_eq] at hstart
    obtain ⟨⟨id, template, run⟩, db₂, hbegin, hstart⟩ := Txn.bind_eq_ok.1 hstart
    obtain ⟨run', db₃, hadvance, hstart⟩ := Txn.bind_eq_ok.1 hstart
    obtain ⟨u, db₄, hsave, hstart⟩ := Txn.bind_eq_ok.1 hstart
    obtain ⟨-, rfl⟩ := Txn.pure_eq_ok.1 hstart
    obtain ⟨-, rfl⟩ := saveRun_eq_ok.1 hsave
    have hentry : Event.entry ⟨E, auth, .startRun templateID context⟩ db = some ⟨template, id, run, db₂⟩ := by
      simp only [entry]
      rw [if_pos (not_not.1 hauth), hbegin]
    rw [← hdb]
    exact .walk hentry hadvance
  | decide approvalID decision note =>
    obtain ⟨d, hd, hauth, r, hok⟩ := body_decide_eq_ok.1 hbody
    rw [processApproval_eq] at hok
    obtain ⟨⟨a, run⟩, db₂, hbegin, hok⟩ := Txn.bind_eq_ok.1 hok
    obtain ⟨run', db₃, hdecide, hok⟩ := Txn.bind_eq_ok.1 hok
    obtain ⟨u, db₄, hsave, hok⟩ := Txn.bind_eq_ok.1 hok
    obtain ⟨-, hdb⟩ := Txn.pure_eq_ok.1 hok
    obtain ⟨-, rfl⟩ := saveRun_eq_ok.1 hsave
    rw [← hdb]
    obtain ⟨id, approver, note', -, hopen, hrun, rfl⟩ := beginApproval_eq_ok hbegin
    unfold decideRun at hdecide
    split_ifs at hdecide with hrejected
    · obtain ⟨rfl, rfl⟩ := Txn.pure_eq_ok.1 hdecide
      subst hrejected
      have hcommits : Event.Commits ⟨E, auth, .decide approvalID decision note⟩ db
          ((db.setApproval id (a.decide .rejected approver note' E.now)).setRun a.runID
            (run.reject a.stepID note E.now)) := .rejection hopen hrun
      exact hcommits
    · rw [Txn.read_bind_eq_ok] at hdecide
      obtain ⟨template, htemplate, hadvance⟩ := Txn.ofOption_bind_eq_ok.1 hdecide
      have happroved : d = .approved := by
        unfold ApprovalStatus.ofDecision? at hd
        split at hd
        · cases hd; rfl
        · cases hd; exact absurd rfl hrejected
        · cases hd
      subst happroved
      have hentry : Event.entry ⟨E, auth, .decide approvalID decision note⟩ db = some
          ⟨template, a.runID, run.next, db.setApproval id (a.decide .approved approver note' E.now)⟩ := by
        simp only [entry]
        rw [if_pos ⟨hd, hauth⟩, hbegin]
        show (Option.map _ _) = _
        rw [htemplate]
        rfl
      exact .walk hentry hadvance

end Dgraphai.Workflows
