import Dgraphai.Lib.Runs
import Dgraphai.WorkflowSteps

/-!
# Which tenants a decision touches

`processApproval` finds the approval request by its id alone. What it then writes stays in the tenant
of that request: every request belongs to the tenant of its run (`Scoped`), in every history. So a
decision leaves the other tenants alone exactly where the request it reaches is its own tenant's, or it
reaches none (`decisions_isolated_iff`).
-/

namespace Dgraphai.Workflows

open Auth (Uuid AuthContext)

variable {E : Env} {db db' db₁ db₂ : Db} {run run' : WorkflowRun} {template : WorkflowTemplate}
  {approval approval' : ApprovalRequest}  {id T runID : Uuid} {config : Json}

/-! ### What the engine writes while it walks -/

/-- Nothing but outside answers was drawn. -/
structure Db.OnlyDraws (db db' : Db) : Prop where
  runs : db'.runs = db.runs
  approvals : db'.approvals = db.approvals

theorem Db.OnlyDraws.refl (db : Db) : db.OnlyDraws db := ⟨rfl, rfl⟩

theorem Db.OnlyDraws.trans (h : db.OnlyDraws db₁) (h' : db₁.OnlyDraws db₂) : db.OnlyDraws db₂ :=
  ⟨h'.runs.trans h.runs, h'.approvals.trans h.approvals⟩

theorem Db.Ticked.onlyDraws (h : db.Ticked db') : db.OnlyDraws db' := by
  obtain ⟨n, rfl⟩ := h
  exact ⟨rfl, rfl⟩

/-- Approval requests of a run were added, all in one tenant. -/
structure Db.AddsApprovals (runID T : Uuid) (db db' : Db) : Prop where
  runs : db'.runs = db.runs
  kept : ∀ id a, db.approvals id = some a → db'.approvals id = some a
  new : ∀ id a, db'.approvals id = some a → db.approvals id = some a ∨ a.runID = runID ∧ a.tenantID = T

theorem Db.OnlyDraws.addsApprovals (h : db.OnlyDraws db') : db.AddsApprovals runID T db' :=
  ⟨h.runs, fun _ _ ha => h.approvals ▸ ha, fun _ _ ha => .inl (h.approvals ▸ ha)⟩

theorem Db.AddsApprovals.refl (db : Db) : db.AddsApprovals runID T db := (OnlyDraws.refl db).addsApprovals

theorem Db.AddsApprovals.trans (h : db.AddsApprovals runID T db₁) (h' : db₁.AddsApprovals runID T db₂) :
    db.AddsApprovals runID T db₂ := by
  refine ⟨h'.runs.trans h.runs, fun id a ha => h'.kept id a (h.kept id a ha), fun id a ha => ?_⟩
  rcases h'.new id a ha with ha | ha
  · exact h.new id a ha
  · exact .inr ha

theorem addsApprovals_of_createApprovalRequest {stepID stepName : Json}
    (h : createApprovalRequest E runID run stepID stepName config db = (.ok (), db')) :
    db.AddsApprovals runID run.tenantID db' := by
  obtain ⟨db₁, id, approval, hticked, hnone, rfl, hrun, htenant, -⟩ := createApprovalRequest_eq_ok h
  refine hticked.onlyDraws.addsApprovals.trans ⟨rfl, fun k a ha => ?_, fun k a ha => ?_⟩
  · have hk : k ≠ id := by
      rintro rfl
      rw [hnone] at ha
      cases ha
    rw [Db.setApproval_ne hk, ha]
  · by_cases hk : k = id
    · subst hk
      rw [Db.setApproval_self] at ha
      cases ha
      exact .inr ⟨hrun, htenant⟩
    · rw [Db.setApproval_ne hk] at ha
      exact .inl ha

theorem addsApprovals_of_advanceStep (h : advanceStep E template runID run db = (.ok (.stop run'), db')) :
    db.AddsApprovals runID run.tenantID db' ∧ run'.tenantID = run.tenantID := by
  rcases advanceStep_eq_stop h with ⟨rfl, rfl⟩ | ⟨step, -, rfl, ⟨-, hcreate⟩ | ⟨-, rfl⟩⟩
  · exact ⟨.refl db, rfl⟩
  · exact ⟨addsApprovals_of_createApprovalRequest hcreate, rfl⟩
  · exact ⟨.refl db, rfl⟩

/-- However long the engine walks, it adds requests for the run it walks and changes no run row; by
induction on the depth of `_advance`. -/
theorem advance_eq_ok {fuel : Nat} (h : advance E template runID fuel run db = (.ok run', db')) :
    db.AddsApprovals runID run.tenantID db' ∧ run'.tenantID = run.tenantID := by
  induction fuel generalizing run db with
  | zero => exact absurd h Txn.raise_ne_ok
  | succ fuel ih =>
    rw [advance_succ] at h
    obtain ⟨o, db₁, hstep, h⟩ := Txn.bind_eq_ok.1 h
    cases o with
    | stop run₁ =>
      obtain ⟨rfl, rfl⟩ := Txn.pure_eq_ok.1 h
      exact addsApprovals_of_advanceStep hstep
    | next run₁ =>
      obtain ⟨-, hticked, hrun₁⟩ := leadsTo_of_advanceStep hstep
      have htenant : run₁.tenantID = run.tenantID := by rw [hrun₁]
      obtain ⟨hadds, hrun⟩ := ih h
      rw [htenant] at hadds hrun
      exact ⟨hticked.onlyDraws.addsApprovals.trans hadds, hrun⟩

/-! ### Every approval request belongs to the tenant of its run -/

structure Db.WellFormed (db : Db) : Prop where
  owner : ∀ id a, db.approvals id = some a → ∃ run, db.runs a.runID = some run ∧ run.tenantID = a.tenantID
  step : ∀ id run, db.runs id = some run → IsInt4 run.currentStep

theorem emptyDb_wellFormed : emptyDb.WellFormed :=
  ⟨fun _ _ h => (Option.some_ne_none _ h.symm).elim, fun _ _ h => (Option.some_ne_none _ h.symm).elim⟩

namespace Db.WellFormed

theorem onlyDraws (h : db.WellFormed) (hd : db.OnlyDraws db') : db'.WellFormed := by
  obtain ⟨hruns, happrovals⟩ := hd
  refine ⟨fun id a ha => ?_, fun id run hrun => ?_⟩
  · rw [happrovals] at ha
    rw [hruns]
    exact h.owner id a ha
  · rw [hruns] at hrun
    exact h.step id run hrun

theorem addsApprovals (h : db.WellFormed) (hadds : db.AddsApprovals runID T db')
    (hrun : db.runs runID = some run) (hT : run.tenantID = T) : db'.WellFormed := by
  refine ⟨fun id a ha => ?_, fun id run hrun => ?_⟩
  · rw [hadds.runs]
    rcases hadds.new id a ha with ha | ⟨hid, htenant⟩
    · exact h.owner id a ha
    · exact ⟨run, by rw [hid, hrun], hT.trans htenant.symm⟩
  · rw [hadds.runs] at hrun
    exact h.step id run hrun

theorem setApproval (h : db.WellFormed) (ha : db.approvals id = some approval)
    (hrun : approval'.runID = approval.runID) (htenant : approval'.tenantID = approval.tenantID) :
    (db.setApproval id approval').WellFormed := by
  refine ⟨fun k b hb => ?_, fun k run hk => h.step k run hk⟩
  rw [setApproval_runs]
  by_cases hk : k = id
  · subst hk
    rw [setApproval_self] at hb
    cases hb
    rw [hrun, htenant]
    exact h.owner k approval ha
  · rw [setApproval_ne hk] at hb
    exact h.owner k b hb

theorem setRun (h : db.WellFormed) (hT : ∀ r, db.runs id = some r → r.tenantID = run.tenantID)
    (hstep : IsInt4 run.currentStep) : (db.setRun id run).WellFormed := by
  refine ⟨fun k a ha => ?_, fun k r hr => ?_⟩
  · obtain ⟨r, hr, htenant⟩ := h.owner k a ha
    by_cases hk : a.runID = id
    · rw [hk] at hr ⊢
      exact ⟨run, setRun_self, (hT r hr).symm.trans htenant⟩
    · exact ⟨r, (setRun_ne hk).trans hr, htenant⟩
  · by_cases hk : k = id
    · subst hk
      rw [setRun_self] at hr
      cases hr
      exact hstep
    · rw [setRun_ne hk] at hr
      exact h.step k r hr

end Db.WellFormed

/-! ### The three requests -/

theorem parseID_eq_ok {text : String} :
    parseID E text db = (.ok id, db') ↔ E.parseUuid text = .ok id ∧ db = db' := by
  unfold parseID
  rcases E.parseUuid text with e | id'
  · simp
  · simp

theorem saveRun_eq_ok {stored : WorkflowRun} {u : Unit} :
    saveRun id stored run db = (.ok u, db') ↔
      IsInt4 run.currentStep ∧ db.setRun id { run with context := stored.context } = db' := by
  rw [saveRun, Txn.raiseIf_bind_eq_ok, Txn.write_eq_ok, not_not]

theorem expire_eq_ok {now : Auth.Time} {u : Unit} :
    expire id approval now db = (.ok u, db') ↔ ¬ approval.Expired now ∧ db = db' := by
  unfold expire
  split_ifs with h
  · rw [Txn.write_bind_eq_ok]
    exact iff_of_false Txn.raise_ne_ok fun hn => hn.1 h
  · rw [Txn.pure_eq_ok]
    exact ⟨fun hp => ⟨h, hp.2⟩, fun hp => ⟨rfl, hp.2⟩⟩

theorem startRun_eq_ok {templateID triggeredBy : String} {context : Json.Fields} {user : Option Uuid}
    {r : Uuid × WorkflowRun} (h : startRun E templateID T context triggeredBy user db = (.ok r, db')) :
    ∃ db₁ id run run' db₂, db.OnlyDraws db₁ ∧ db₁.runs id = none ∧ run.tenantID = T ∧
      IsInt4 run.currentStep ∧ (db₁.setRun id run).AddsApprovals id T db₂ ∧ run'.tenantID = T ∧
      IsInt4 run'.currentStep ∧ db₂.setRun id run' = db' := by
  obtain ⟨key, db₀, hkey, h⟩ := Txn.bind_eq_ok.1 h
  obtain ⟨-, rfl⟩ := parseID_eq_ok.1 hkey
  rw [Txn.read_bind_eq_ok] at h
  obtain ⟨template, -, h⟩ := Txn.ofOption_bind_eq_ok.1 h
  obtain ⟨user, -, h⟩ := Txn.ofOption_bind_eq_ok.1 h
  obtain ⟨id, db₁, hid, h⟩ := Txn.bind_eq_ok.1 h
  obtain ⟨hdraws, hfree⟩ := freshID_eq_ok hid
  rw [Txn.write_bind_eq_ok] at h
  obtain ⟨run', db₂, hadvance, h⟩ := Txn.bind_eq_ok.1 h
  obtain ⟨hadds, htenant⟩ := advance_eq_ok hadvance
  obtain ⟨u, db₃, hsave, h⟩ := Txn.bind_eq_ok.1 h
  obtain ⟨-, rfl⟩ := Txn.pure_eq_ok.1 h
  obtain ⟨hint, rfl⟩ := saveRun_eq_ok.1 hsave
  have hzero : IsInt4 0 := by decide
  exact ⟨db₁, id, _, { run' with context := context }, db₂, hdraws.onlyDraws, by simpa using hfree, rfl, hzero,
    hadds, htenant, hint, rfl⟩

theorem startRun_wellFormed {templateID triggeredBy : String} {context : Json.Fields} {user : Option Uuid}
    {r : Uuid × WorkflowRun} (hdb : db.WellFormed)
    (h : startRun E templateID T context triggeredBy user db = (.ok r, db')) : db'.WellFormed := by
  obtain ⟨db₁, id, run, run', db₂, hdraws, hfree, hT, hint, hadds, hT', hint', rfl⟩ := startRun_eq_ok h
  have h₁ : (db₁.setRun id run).WellFormed :=
    (hdb.onlyDraws hdraws).setRun (fun r hr => by rw [hfree] at hr; cases hr) hint
  have h₂ : db₂.WellFormed := h₁.addsApprovals hadds Db.setRun_self hT
  refine h₂.setRun (fun r hr => ?_) hint'
  rw [hadds.runs, Db.setRun_self] at hr
  cases hr
  exact hT.trans hT'.symm

theorem addTemplate_eq_ok {auth : AuthContext} {req : CreateTemplateRequest}
    {r : Uuid × WorkflowTemplate} (h : addTemplate E auth req db = (.ok r, db')) : db.OnlyDraws db' := by
  simp only [addTemplate, Txn.ofOption_bind_eq_ok, Txn.read_bind_eq_ok, Txn.raiseIf_bind_eq_ok] at h
  obtain ⟨name, -, description, -, triggerType, -, -, h⟩ := h
  obtain ⟨id, db₁, hid, h⟩ := Txn.bind_eq_ok.1 h
  obtain ⟨hdraws, -⟩ := freshID_eq_ok hid
  rw [Txn.write_bind_eq_ok] at h
  obtain ⟨-, rfl⟩ := Txn.pure_eq_ok.1 h
  exact hdraws.onlyDraws.trans ⟨rfl, rfl⟩

/-- The approval request a decision reaches: pending, and before its deadline. -/
def Db.openApproval (E : Env) (db : Db) (approvalID : String) : Option (Uuid × ApprovalRequest) :=
  match E.parseUuid approvalID with
  | .ok id => (db.approvals id).bind fun a =>
    if a.status = .pending ∧ ¬ a.Expired E.now then some (id, a) else none
  | .error _ => none

theorem Db.openApproval_eq_some {approvalID : String} :
    db.openApproval E approvalID = some (id, approval) ↔
      E.parseUuid approvalID = .ok id ∧ db.approvals id = some approval ∧ approval.status = .pending ∧
        ¬ approval.Expired E.now := by
  unfold openApproval
  rcases E.parseUuid approvalID with e | id'
  · simp
  · rw [Option.bind_eq_some_iff]
    constructor
    · rintro ⟨a, ha, h⟩
      split_ifs at h with hopen
      cases h
      exact ⟨rfl, ha, hopen⟩
    · rintro ⟨hid, ha, hopen⟩
      cases hid
      exact ⟨approval, ha, if_pos hopen⟩

theorem decideRun_eq_ok {decision : ApprovalStatus} {note : String}
    (h : decideRun E approval decision note run db = (.ok run', db')) :
    db.AddsApprovals approval.runID run.tenantID db' ∧ run'.tenantID = run.tenantID := by
  unfold decideRun at h
  split_ifs at h with hrejected
  · obtain ⟨rfl, rfl⟩ := Txn.pure_eq_ok.1 h
    exact ⟨.refl db, rfl⟩
  · rw [Txn.read_bind_eq_ok] at h
    obtain ⟨template, -, h⟩ := Txn.ofOption_bind_eq_ok.1 h
    have hadvance := advance_eq_ok h
    exact hadvance

/-- A decision that goes through writes the request it reaches and its run, and adds requests for that
run. -/
theorem processApproval_eq_ok {approvalID note : String} {user : Option Uuid} {decision : ApprovalStatus}
    {r : Uuid × WorkflowRun} (h : processApproval E approvalID user decision note db = (.ok r, db')) :
    ∃ id a a' run run' db₂, db.openApproval E approvalID = some (id, a) ∧ user.isSome = true ∧
      a'.runID = a.runID ∧ a'.tenantID = a.tenantID ∧ db.runs a.runID = some run ∧
      (db.setApproval id a').AddsApprovals a.runID run.tenantID db₂ ∧ run'.tenantID = run.tenantID ∧
      IsInt4 run'.currentStep ∧ db₂.setRun a.runID run' = db' := by
  obtain ⟨id, db₀, hparse, h⟩ := Txn.bind_eq_ok.1 h
  obtain ⟨hid, rfl⟩ := parseID_eq_ok.1 hparse
  rw [Txn.read_bind_eq_ok] at h
  obtain ⟨a, ha, h⟩ := Txn.ofOption_bind_eq_ok.1 h
  rw [Option.filter_eq_some_iff, decide_eq_true_iff] at ha
  obtain ⟨u, db₁, hexpire, h⟩ := Txn.bind_eq_ok.1 h
  obtain ⟨hopen, rfl⟩ := expire_eq_ok.1 hexpire
  obtain ⟨approver, happrover, h⟩ := Txn.ofOption_bind_eq_ok.1 h
  obtain ⟨note', -, h⟩ := Txn.ofOption_bind_eq_ok.1 h
  rw [Txn.write_bind_eq_ok, Txn.read_bind_eq_ok] at h
  obtain ⟨run, hrun, h⟩ := Txn.ofOption_bind_eq_ok.1 h
  obtain ⟨run', db₂, hdecide, h⟩ := Txn.bind_eq_ok.1 h
  obtain ⟨hadds, htenant⟩ := decideRun_eq_ok hdecide
  obtain ⟨u, db₃, hsave, h⟩ := Txn.bind_eq_ok.1 h
  obtain ⟨-, rfl⟩ := Txn.pure_eq_ok.1 h
  obtain ⟨hint, rfl⟩ := saveRun_eq_ok.1 hsave
  exact ⟨id, a, a.decide decision approver note' E.now, run, { run' with context := run.context }, db₂,
    Db.openApproval_eq_some.2 ⟨hid, ha.1, ha.2, hopen⟩, happrover ▸ rfl, rfl, rfl, hrun, hadds, htenant,
    hint, rfl⟩

theorem processApproval_wellFormed {approvalID note : String} {user : Option Uuid}
    {decision : ApprovalStatus} {r : Uuid × WorkflowRun} (hdb : db.WellFormed)
    (h : processApproval E approvalID user decision note db = (.ok r, db')) : db'.WellFormed := by
  obtain ⟨id, a, a', run, run', db₂, hopen, -, hid, hT, hrun, hadds, hT', hint, rfl⟩ :=
    processApproval_eq_ok h
  obtain ⟨-, ha, -⟩ := Db.openApproval_eq_some.1 hopen
  have h₁ := hdb.setApproval ha hid hT
  have h₂ : db₂.WellFormed := h₁.addsApprovals hadds hrun rfl
  refine h₂.setRun (fun r hr => ?_) hint
  rw [hadds.runs, Db.setApproval_runs, hrun] at hr
  cases hr
  exact hT'.symm

/-- A rejection goes through on every request that is open. -/
theorem processApproval_rejected {approvalID : String} (user : Uuid) (hdb : db.WellFormed)
    (h : db.openApproval E approvalID = some (id, approval)) :
    ∃ r db', processApproval E approvalID (some user) .rejected "" db = (.ok r, db') ∧
      ∃ a, db'.approvals id = some a ∧ a.status = .rejected := by
  obtain ⟨hid, ha, hpending, hopen⟩ := Db.openApproval_eq_some.1 h
  obtain ⟨run, hrun, -⟩ := hdb.owner id approval ha
  have hint : IsInt4 run.currentStep := hdb.step _ run hrun
  have hfilter : (db.approvals id).filter (fun a => a.status = .pending) = some approval := by
    rw [Option.filter_eq_some_iff]
    exact ⟨ha, decide_eq_true hpending⟩
  let run' := run.reject approval.stepID "" E.now
  let db₁ := db.setApproval id (approval.decide .rejected user (some "") E.now)
  refine ⟨(approval.runID, run'), db₁.setRun approval.runID { run' with context := run.context }, ?_,
    approval.decide .rejected user (some "") E.now, Db.setApproval_self, rfl⟩
  refine Txn.bind_eq_ok.2 ⟨id, db, parseID_eq_ok.2 ⟨hid, rfl⟩, ?_⟩
  rw [Txn.read_bind_eq_ok]
  refine Txn.ofOption_bind_eq_ok.2 ⟨approval, hfilter, ?_⟩
  refine Txn.bind_eq_ok.2 ⟨(), db, expire_eq_ok.2 ⟨hopen, rfl⟩, ?_⟩
  refine Txn.ofOption_bind_eq_ok.2 ⟨user, rfl, ?_⟩
  refine Txn.ofOption_bind_eq_ok.2 ⟨some "", rfl, ?_⟩
  rw [Txn.write_bind_eq_ok, Txn.read_bind_eq_ok]
  refine Txn.ofOption_bind_eq_ok.2 ⟨run, hrun, ?_⟩
  refine Txn.bind_eq_ok.2 ⟨run', db₁, rfl, ?_⟩
  refine Txn.bind_eq_ok.2 ⟨(), _, saveRun_eq_ok.2 ⟨hint, rfl⟩, ?_⟩
  exact Txn.pure_eq_ok.2 ⟨rfl, rfl⟩

/-! ### Histories -/

def afterEvents (events : List Event) : Db := events.foldl Event.run emptyDb

/-- A request leaves the tables as they were, or its body went through. -/
theorem Event.run_cases (e : Event) (db : Db) : e.run db = db ∨ e.body db = (.ok (), e.run db) := by
  unfold Event.run
  rcases Txn.exec_state_cases e.body db with ⟨u, hok⟩ | ⟨hsame, -⟩
  · exact .inr hok
  · exact .inl hsame

theorem body_decide_eq_ok {auth : AuthContext} {approvalID decision note : String} {u : Unit} :
    (Event.mk E auth (.decide approvalID decision note)).body db = (.ok u, db') ↔
      ∃ d, ApprovalStatus.ofDecision? decision = some d ∧ HasPermission auth "actions:approve" ∧
        ∃ r, processApproval E approvalID auth.userID d note db = (.ok r, db') := by
  show (decideApproval E auth approvalID decision note >>= fun _ => pure ()) db = _ ↔ _
  rw [Txn.bind_eq_ok]
  unfold decideApproval
  constructor
  · rintro ⟨r, db₁, h, hp⟩
    obtain ⟨-, rfl⟩ := Txn.pure_eq_ok.1 hp
    obtain ⟨d, hd, h⟩ := Txn.ofOption_bind_eq_ok.1 h
    rw [Txn.raiseIf_bind_eq_ok, not_not, Txn.mapErr_eq_ok] at h
    exact ⟨d, hd, h.1, r, h.2⟩
  · rintro ⟨d, hd, hauth, r, h⟩
    refine ⟨r, db', Txn.ofOption_bind_eq_ok.2 ⟨d, hd, ?_⟩, rfl⟩
    rw [Txn.raiseIf_bind_eq_ok, not_not, Txn.mapErr_eq_ok]
    exact ⟨hauth, h⟩

/-- The step lemma of the invariant. -/
theorem Event.run_wellFormed (h : db.WellFormed) (e : Event) : (e.run db).WellFormed := by
  rcases e.run_cases db with hrun | hbody
  · rw [hrun]
    exact h
  · obtain ⟨E, auth, request⟩ := e
    cases request with
    | createTemplate req =>
      obtain ⟨r, db₁, hok, hp⟩ := Txn.bind_eq_ok.1 hbody
      obtain ⟨-, rfl⟩ := Txn.pure_eq_ok.1 hp
      obtain ⟨-, hok⟩ := Txn.raiseIf_bind_eq_ok.1 hok
      exact h.onlyDraws (addTemplate_eq_ok (Txn.mapErr_eq_ok.1 hok))
    | startRun templateID context =>
      obtain ⟨r, db₁, hok, hp⟩ := Txn.bind_eq_ok.1 hbody
      obtain ⟨-, rfl⟩ := Txn.pure_eq_ok.1 hp
      obtain ⟨-, hok⟩ := Txn.raiseIf_bind_eq_ok.1 hok
      exact startRun_wellFormed h (Txn.mapErr_eq_ok.1 hok)
    | decide approvalID decision note =>
      obtain ⟨d, -, -, r, hok⟩ := body_decide_eq_ok.1 hbody
      exact processApproval_wellFormed h hok

theorem afterEvents_wellFormed (events : List Event) : (afterEvents events).WellFormed :=
  Runs.inv_foldl Event.run Db.WellFormed (fun _ e h => e.run_wellFormed h) emptyDb_wellFormed events

/-- No row of a tenant other than `T` changed its status, context or step. -/
structure OthersUnchanged (T : Uuid) (db db' : Db) : Prop where
  runs : ∀ id run, db.runs id = some run → run.tenantID ≠ T → ∃ run', db'.runs id = some run' ∧
    run'.status = run.status ∧ run'.context = run.context ∧ run'.currentStep = run.currentStep
  approvals : ∀ id a, db.approvals id = some a → a.tenantID ≠ T → ∃ a', db'.approvals id = some a' ∧
    a'.status = a.status ∧ a'.context = a.context ∧ a'.stepID = a.stepID

theorem OthersUnchanged.refl (T : Uuid) (db : Db) : OthersUnchanged T db db :=
  ⟨fun _ run h _ => ⟨run, h, rfl, rfl, rfl⟩, fun _ a h _ => ⟨a, h, rfl, rfl, rfl⟩⟩

/-- A decision leaves the other tenants alone; other requests are not asked. -/
def Event.Isolated (e : Event) (db : Db) : Prop :=
  match e.request with
  | .decide _ _ _ => OthersUnchanged e.auth.tenantID db (e.run db)
  | _ => True

/-- The open request a decision reaches, if it passes the endpoint, is of the user's own tenant. -/
def Event.AtHome (e : Event) (db : Db) : Prop :=
  match e.request with
  | .decide approvalID decision _ =>
    (ApprovalStatus.ofDecision? decision).isSome → HasPermission e.auth "actions:approve" →
      e.auth.userID.isSome → ∀ p ∈ db.openApproval e.env approvalID, p.2.tenantID = e.auth.tenantID
  | _ => True

theorem processApproval_othersUnchanged {approvalID note : String} {user : Option Uuid}
    {decision : ApprovalStatus} {r : Uuid × WorkflowRun} (hdb : db.WellFormed)
    (hhome : ∀ p ∈ db.openApproval E approvalID, p.2.tenantID = T)
    (h : processApproval E approvalID user decision note db = (.ok r, db')) : OthersUnchanged T db db' := by
  obtain ⟨id, a, a', run, run', db₂, hopen, -, hid, hT, hrun, hadds, hT', hint, rfl⟩ :=
    processApproval_eq_ok h
  obtain ⟨-, ha, -⟩ := Db.openApproval_eq_some.1 hopen
  have haT : a.tenantID = T := hhome (id, a) hopen
  obtain ⟨run₀, hrun₀, hrunT⟩ := hdb.owner id a ha
  obtain rfl : run = run₀ := Option.some.inj (hrun.symm.trans hrun₀)
  refine ⟨fun k r hr hne => ⟨r, ?_, rfl, rfl, rfl⟩, fun k b hb hne => ⟨b, ?_, rfl, rfl, rfl⟩⟩
  · have hk : k ≠ a.runID := by
      rintro rfl
      rw [hrun] at hr
      cases hr
      exact hne (hrunT.trans haT)
    rw [Db.setRun_ne hk, hadds.runs, Db.setApproval_runs, hr]
  · have hk : k ≠ id := by
      rintro rfl
      rw [ha] at hb
      cases hb
      exact hne haT
    rw [Db.setRun_approvals]
    exact hadds.kept k b ((Db.setApproval_ne hk).trans hb)

theorem Event.isolated_of_atHome {e : Event} (hdb : db.WellFormed) (h : e.AtHome db) : e.Isolated db := by
  obtain ⟨E, auth, request⟩ := e
  cases request with
  | createTemplate req => trivial
  | startRun templateID context => trivial
  | decide approvalID decision note =>
    show OthersUnchanged auth.tenantID db (Event.run db _)
    rcases Event.run_cases ⟨E, auth, .decide approvalID decision note⟩ db with hrun | hbody
    · rw [hrun]
      exact .refl _ db
    · obtain ⟨d, hd, hauth, r, hok⟩ := body_decide_eq_ok.1 hbody
      obtain ⟨-, -, -, -, -, -, -, huser, -⟩ := processApproval_eq_ok hok
      have hhome := h (hd ▸ rfl) hauth huser
      exact processApproval_othersUnchanged hdb hhome hok

theorem atHome_of_isolated {auth : AuthContext} {approvalID : String} (hdb : db.WellFormed)
    (h : (Event.mk E auth (.decide approvalID "rejected" "")).Isolated db) (decision note : String) :
    (Event.mk E auth (.decide approvalID decision note)).AtHome db := by
  rintro - hauth huser ⟨id, a⟩ hopen
  obtain ⟨user, huser⟩ := Option.isSome_iff_exists.1 huser
  obtain ⟨r, db', hok, a', ha', hstatus⟩ := processApproval_rejected user hdb hopen
  have hbody : (Event.mk E auth (.decide approvalID "rejected" "")).body db = (.ok (), db') :=
    body_decide_eq_ok.2 ⟨.rejected, rfl, hauth, r, by rw [show auth.userID = some user from huser]; exact hok⟩
  have hrun : (Event.mk E auth (.decide approvalID "rejected" "")).run db = db' := by
    rw [Event.run, Txn.exec_of_ok hbody]
  obtain ⟨-, ha, hpending, -⟩ := Db.openApproval_eq_some.1 hopen
  by_contra hne
  obtain ⟨a'', ha'', hsame, -⟩ := h.approvals id a ha hne
  rw [hrun, ha'] at ha''
  cases ha''
  rw [hstatus, hpending] at hsame
  cases hsame

/-- In every history whose decisions stay at home, every decision leaves the other tenants alone. And
after any history, a user's decisions on a request leave them alone only if that request is no open
request of another tenant: there a rejection goes through. -/
theorem decisions_isolated_iff (events : List Event) :
    ((∀ pre e post, events = pre ++ e :: post → e.AtHome (afterEvents pre)) →
      ∀ pre e post, events = pre ++ e :: post → e.Isolated (afterEvents pre)) ∧
    ∀ (E : Env) (auth : AuthContext) (approvalID : String),
      (∀ decision note, (Event.mk E auth (.decide approvalID decision note)).Isolated (afterEvents events)) ↔
        ∀ decision note, (Event.mk E auth (.decide approvalID decision note)).AtHome (afterEvents events) := by
  refine ⟨fun h pre e post hsplit => ?_, fun E auth approvalID => ⟨fun h => ?_, fun h decision note => ?_⟩⟩
  · exact Event.isolated_of_atHome (afterEvents_wellFormed pre) (h pre e post hsplit)
  · exact atHome_of_isolated (afterEvents_wellFormed events) (h "rejected" "")
  · exact Event.isolated_of_atHome (afterEvents_wellFormed events) (h decision note)

/-! ### A decision of another tenant -/

def plainEnv : Env where
  now := 0
  uuid4 := fun n => if n = 0 then "template" else if n = 1 then "run" else "approval"
  parseUuid := .ok
  isZero := fun _ => false
  floatHours := fun _ => none
  pyStr := fun _ => ""
  eval := fun _ _ _ _ => none
  protocolCall := fun _ _ => none
  recursionLimit := 1000

/-- An administrator of a tenant. -/
def adminOf (tenantID : Uuid) : AuthContext := ⟨some "user", tenantID, "user@example.com", [], ["admin:*"]⟩

/-- Tenant `b` starts a run that waits for an approval. -/
def waitingRun : List Event :=
  [⟨plainEnv, adminOf "b", .createTemplate
      ⟨"Move files", "", "manual", [], [[("id", .str "step_1"), ("type", .str "approval")]]⟩⟩,
   ⟨plainEnv, adminOf "b", .startRun "template" []⟩]

def foreignRejection : Event := ⟨plainEnv, adminOf "a", .decide "approval" "rejected" ""⟩

/-- An administrator of tenant `a` rejects the approval tenant `b` waits for. -/
theorem approval_crosses_tenants :
    ¬ ∀ (events : List Event) (e : Event), e.Isolated (afterEvents events) := by
  intro h
  have hiso : OthersUnchanged "a" (afterEvents waitingRun) (foreignRejection.run (afterEvents waitingRun)) :=
    h waitingRun foreignRejection
  have hbefore : ((afterEvents waitingRun).runs "run").map (fun r => (r.tenantID, r.status)) =
      some ("b", .running) := by decide
  have hafter : ((foreignRejection.run (afterEvents waitingRun)).runs "run").map (·.status) =
      some .rejected := by decide
  obtain ⟨run, hrun, hb⟩ := Option.map_eq_some_iff.1 hbefore
  obtain ⟨hT, hstatus⟩ := Prod.mk.inj hb
  obtain ⟨run', hrun', hsame, -⟩ := hiso.runs "run" run hrun (by rw [hT]; decide)
  rw [hrun', Option.map_some, hsame, hstatus] at hafter
  cases hafter

end Dgraphai.Workflows
