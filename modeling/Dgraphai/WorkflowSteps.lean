import Dgraphai.Lib.Walk
import Dgraphai.Workflows

/-!
# `_advance`, one step at a time

`advanceStep` is the body of `_advance` up to its call of itself, `advance` its repetition
(`advance_succ`). `Visit.next` is that step on the states the engine is in when it looks at a step, so the
walk of a request is the list of its visits; `Template.LeadsTo` are the moves a template allows.
-/

namespace Dgraphai.Workflows

open Auth (Uuid Time AuthContext HttpError)

variable {E : Env} {db db' db₁ : Db} {run run' : WorkflowRun} {template : WorkflowTemplate}
  {approval : ApprovalRequest} {id runID : Uuid} {config : Json}

/-! ### Single rows -/

namespace Db

theorem setRun_self : (db.setRun id run).runs id = some run := Function.update_self ..

theorem setRun_ne {k : Uuid} (hk : k ≠ id) : (db.setRun id run).runs k = db.runs k :=
  Function.update_of_ne hk ..

@[simp] theorem setRun_approvals : (db.setRun id run).approvals = db.approvals := rfl

theorem setApproval_self : (db.setApproval id approval).approvals id = some approval :=
  Function.update_self ..

theorem setApproval_ne {k : Uuid} (hk : k ≠ id) :
    (db.setApproval id approval).approvals k = db.approvals k :=
  Function.update_of_ne hk ..

@[simp] theorem setApproval_runs : (db.setApproval id approval).runs = db.runs := rfl

end Db

/-! ### What the functions a step calls do -/

/-- Nothing but outside answers was drawn. -/
def Db.Ticked (db db' : Db) : Prop := ∃ n, db' = { db with ticks := n }

theorem Db.Ticked.refl (db : Db) : db.Ticked db := ⟨db.ticks, rfl⟩

theorem Db.Ticked.trans (h : db.Ticked db₁) (h' : db₁.Ticked db') : db.Ticked db' := by
  obtain ⟨n, rfl⟩ := h
  obtain ⟨m, rfl⟩ := h'
  exact ⟨m, rfl⟩

theorem draw_eq_ok {α : Type} {answer : Nat → α} {a : α} (h : draw answer db = (.ok a, db')) :
    db.Ticked db' := by
  rw [draw, Txn.read_bind_eq_ok, Txn.write_bind_eq_ok, Txn.pure_eq_ok] at h
  obtain ⟨-, rfl⟩ := h
  exact ⟨_, rfl⟩

theorem freshID_eq_ok {used : Db → Uuid → Bool} (h : freshID E used db = (.ok id, db')) :
    db.Ticked db' ∧ used db' id = false := by
  obtain ⟨id', db₁, hdraw, h⟩ := Txn.bind_eq_ok.1 h
  rw [Txn.read_bind_eq_ok, Txn.raiseIf_bind_eq_ok, Txn.pure_eq_ok] at h
  obtain ⟨hfree, rfl, rfl⟩ := h
  exact ⟨draw_eq_ok hdraw, by simpa using hfree⟩

/-- A new request: pending, for its run and the step it is asked for. -/
theorem createApprovalRequest_eq_ok {stepID stepName : Json}
    (h : createApprovalRequest E runID run stepID stepName config db = (.ok (), db')) :
    ∃ db₁ id approval, db.Ticked db₁ ∧ db₁.approvals id = none ∧ db' = db₁.setApproval id approval ∧
      approval.runID = runID ∧ approval.tenantID = run.tenantID ∧ approval.status = .pending ∧
      varchar 64 stepID = some approval.stepID := by
  simp only [createApprovalRequest, Txn.ofOption_bind_eq_ok] at h
  obtain ⟨config, -, expiresAt, -, description, -, files, -, stepID, hstep, stepName, -, text, -, h⟩ := h
  obtain ⟨id, db₁, hid, h⟩ := Txn.bind_eq_ok.1 h
  obtain ⟨hdraws, hfree⟩ := freshID_eq_ok hid
  rw [Txn.write_eq_ok] at h
  exact ⟨db₁, id, _, hdraws, by simpa using hfree, h.symm, rfl, rfl, rfl, hstep⟩

theorem doMove_eq_ok {source destination r : Json} {dryRun : Bool}
    (h : doMove E source destination dryRun db = (.ok r, db')) : db.Ticked db' := by
  unfold doMove at h
  split_ifs at h with hdry
  · obtain ⟨-, rfl⟩ := Txn.pure_eq_ok.1 h
    exact .refl db
  · obtain ⟨raised, db₁, hdraw, h⟩ := Txn.bind_eq_ok.1 h
    cases raised <;> obtain ⟨-, rfl⟩ := Txn.pure_eq_ok.1 h <;> exact draw_eq_ok hdraw

theorem doDelete_eq_ok {source r : Json} {dryRun : Bool}
    (h : doDelete E source dryRun db = (.ok r, db')) : db.Ticked db' := by
  unfold doDelete at h
  split_ifs at h with hdry
  · obtain ⟨-, rfl⟩ := Txn.pure_eq_ok.1 h
    exact .refl db
  · obtain ⟨raised, db₁, hdraw, h⟩ := Txn.bind_eq_ok.1 h
    cases raised <;> obtain ⟨-, rfl⟩ := Txn.pure_eq_ok.1 h <;> exact draw_eq_ok hdraw

theorem fileAction_eq_ok {actionType params entry r : Json} {dryRun : Bool} {action : Engine Json}
    (haction : fileAction E actionType params dryRun entry = .ok action)
    (h : action db = (.ok r, db')) : db.Ticked db' := by
  unfold fileAction at haction
  split at haction
  · rcases hsource : entry.attrGet "path" (.str "") with e | source
    · rw [hsource] at haction; cases haction
    · rcases hdest : params.attrGet "destination" (.str "") with e | destination
      · rw [hsource, hdest] at haction; cases haction
      · rw [hsource, hdest] at haction
        cases haction
        exact doMove_eq_ok h
  · rcases hsource : entry.attrGet "path" (.str "") with e | source
    · rw [hsource] at haction; cases haction
    · rw [hsource] at haction
      cases haction
      exact doDelete_eq_ok h
  · rcases htags : params.attrGet "tags" (.arr []) with e | tags
    · rw [htags] at haction; cases haction
    · rcases hpath : entry.attrGet "path" .null with e | path
      · rw [htags, hpath] at haction; cases haction
      · rw [htags, hpath] at haction
        cases haction
        obtain ⟨-, rfl⟩ := Txn.pure_eq_ok.1 h
        exact .refl db
  · cases haction
    obtain ⟨-, rfl⟩ := Txn.pure_eq_ok.1 h
    exact .refl db

theorem fileResult_eq_ok {actionType params entry r : Json} {dryRun : Bool}
    (h : fileResult E actionType params dryRun entry db = (.ok r, db')) : db.Ticked db' := by
  unfold fileResult at h
  rcases haction : fileAction E actionType params dryRun entry with e | action
  · rw [haction] at h
    obtain ⟨-, rfl⟩ := Txn.pure_eq_ok.1 h
    exact .refl db
  · rw [haction] at h
    exact fileAction_eq_ok haction h

theorem fileResults_eq_ok {actionType params : Json} {dryRun : Bool} {entries rs : List Json}
    (h : fileResults E actionType params dryRun entries db = (.ok rs, db')) : db.Ticked db' := by
  induction entries generalizing db rs with
  | nil =>
    obtain ⟨-, rfl⟩ := Txn.pure_eq_ok.1 h
    exact .refl db
  | cons entry entries ih =>
    obtain ⟨r, db₁, hr, h⟩ := Txn.bind_eq_ok.1 h
    obtain ⟨rs', db₂, hrs, h⟩ := Txn.bind_eq_ok.1 h
    obtain ⟨-, rfl⟩ := Txn.pure_eq_ok.1 h
    exact (fileResult_eq_ok hr).trans (ih hrs)

/-- The loop of `_execute_action`. -/
def actionResults (E : Env) (run : WorkflowRun) (config : Json) : Engine (List Json) := do
  let config ← Txn.ofOption .other config.asDict
  let entries ← Txn.ofOption .other run.files.iter?
  fileResults E (Json.getD config "action_type" .null) (Json.getD config "params" (.obj []))
    ((Json.getD config "dry_run" (.bool true)).truthy E.isZero) entries

def WorkflowRun.withResults (run : WorkflowRun) (results : List Json) : WorkflowRun :=
  { run with context := setKey run.context "action_results" (.arr results) }

theorem executeAction_eq :
    executeAction E run config = actionResults E run config >>= fun results => pure (run.withResults results) := by
  simp only [executeAction, actionResults, Txn.bind_assoc]
  rfl

theorem actionResults_eq_ok {results : List Json} (h : actionResults E run config db = (.ok results, db')) :
    db.Ticked db' := by
  simp only [actionResults, Txn.ofOption_bind_eq_ok] at h
  obtain ⟨config, -, entries, -, h⟩ := h
  exact fileResults_eq_ok h

theorem sendNotification_eq_ok (h : sendNotification run config db = (.ok (), db')) : db = db' := by
  simp only [sendNotification, Txn.ofOption_bind_eq_ok, Txn.raiseIf_bind_eq_ok, Txn.pure_eq_ok] at h
  obtain ⟨-, -, -, -, -, -, -, -, h⟩ := h
  exact h

/-! ### One step -/

namespace WorkflowTemplate

/-- The step at a position that is not past the end. -/
def stepAt (template : WorkflowTemplate) (p : Int) : Option Json.Fields :=
  if template.steps.length ≤ p then none else template.steps.pyGet? p

end WorkflowTemplate

def stepType (step : Json.Fields) : Json := Json.getD step "type" .null

def stepConfig (step : Json.Fields) : Json := Json.getD step "config" (.obj [])

/-- `step.get("id", f"step_{run.current_step}")`. -/
def stepID (step : Json.Fields) (p : Int) : Json := Json.getD step "id" (.str ("step_" ++ toString p))

inductive Outcome where
  | stop (run : WorkflowRun)
  | next (run : WorkflowRun)

def advanceStep (E : Env) (template : WorkflowTemplate) (runID : Uuid) (run : WorkflowRun) : Engine Outcome :=
  if template.steps.length ≤ run.currentStep then pure (.stop (run.complete E.now))
  else do
    let step ← Txn.ofOption .other (template.steps.pyGet? run.currentStep)
    let stepType := Json.getD step "type" .null
    let config := Json.getD step "config" (.obj [])
    let stepID := Json.getD step "id" (.str ("step_" ++ toString run.currentStep))
    let stepName := Json.getD step "name" stepType
    if stepType = .str "approval" then do
      createApprovalRequest E runID run stepID stepName config
      pure (.stop run)
    else if stepType = .str "action" then do
      let run ← executeAction E run config
      pure (.next run.next)
    else if stepType = .str "notify" then do
      sendNotification run config
      pure (.next run.next)
    else if stepType = .str "condition" then do
      let config ← Txn.ofOption .other config.asDict
      let result ← Txn.ofOption .other
        (evaluateCondition E run.context (Json.getD config "expression" (.str "true")))
      if result then pure (.next run.next)
      else if Json.getD config "else_step" .null = .null then pure (.stop (run.complete E.now))
      else do
        let elseStep ← Txn.ofOption .other (Json.getD config "else_step" .null).int?
        pure (.next { run with currentStep := elseStep })
    else pure (.stop run)

theorem advance_succ (n : Nat) :
    advance E template runID (n + 1) run = advanceStep E template runID run >>= fun
      | .stop run => pure run
      | .next run => advance E template runID n run := by
  simp only [advance, advanceStep]
  by_cases hdone : template.steps.length ≤ run.currentStep
  · rw [if_pos hdone, if_pos hdone]
    rfl
  rw [if_neg hdone, if_neg hdone, Txn.bind_assoc]
  congr 1
  funext step
  by_cases happroval : Json.getD step "type" .null = .str "approval"
  · rw [if_pos happroval, if_pos happroval, Txn.bind_assoc]
    rfl
  rw [if_neg happroval, if_neg happroval]
  by_cases haction : Json.getD step "type" .null = .str "action"
  · rw [if_pos haction, if_pos haction, Txn.bind_assoc]
    rfl
  rw [if_neg haction, if_neg haction]
  by_cases hnotify : Json.getD step "type" .null = .str "notify"
  · rw [if_pos hnotify, if_pos hnotify, Txn.bind_assoc]
    rfl
  rw [if_neg hnotify, if_neg hnotify]
  by_cases hcondition : Json.getD step "type" .null = .str "condition"
  · rw [if_pos hcondition, if_pos hcondition, Txn.bind_assoc]
    congr 1
    funext config
    rw [Txn.bind_assoc]
    congr 1
    funext result
    split_ifs
    · rfl
    · rfl
    · rw [Txn.bind_assoc]
      rfl
  · rw [if_neg hcondition, if_neg hcondition]
    rfl

/-! ### What a step can do -/

theorem stepAt_eq_some {p : Int} {step : Json.Fields} :
    template.stepAt p = some step ↔ ¬ template.steps.length ≤ p ∧ template.steps.pyGet? p = some step := by
  unfold WorkflowTemplate.stepAt
  split_ifs with h <;> simp [h]

/-- The step a run is at, for the branches of `advanceStep` that take one. -/
theorem advanceStep_of_stepAt {step : Json.Fields} (h : template.stepAt run.currentStep = some step) :
    advanceStep E template runID run =
      if stepType step = .str "approval" then do
        createApprovalRequest E runID run (stepID step run.currentStep)
          (Json.getD step "name" (stepType step)) (stepConfig step)
        pure (.stop run)
      else if stepType step = .str "action" then do
        let run ← executeAction E run (stepConfig step)
        pure (.next run.next)
      else if stepType step = .str "notify" then do
        sendNotification run (stepConfig step)
        pure (.next run.next)
      else if stepType step = .str "condition" then do
        let config ← Txn.ofOption .other (stepConfig step).asDict
        let result ← Txn.ofOption .other
          (evaluateCondition E run.context (Json.getD config "expression" (.str "true")))
        if result then pure (.next run.next)
        else if Json.getD config "else_step" .null = .null then pure (.stop (run.complete E.now))
        else do
          let elseStep ← Txn.ofOption .other (Json.getD config "else_step" .null).int?
          pure (.next { run with currentStep := elseStep })
      else pure (.stop run) := by
  obtain ⟨hlen, hget⟩ := stepAt_eq_some.1 h
  rw [advanceStep, if_neg hlen, hget]
  rfl

theorem advanceStep_of_le (h : template.steps.length ≤ run.currentStep) :
    advanceStep E template runID run = pure (.stop (run.complete E.now)) := if_pos h

/-- A step is there, if the walk is not past the end and does not fail. -/
theorem exists_stepAt {o : Outcome} (hlen : ¬ template.steps.length ≤ run.currentStep)
    (h : advanceStep E template runID run db = (.ok o, db')) :
    ∃ step, template.stepAt run.currentStep = some step := by
  rw [advanceStep, if_neg hlen] at h
  obtain ⟨step, hget, -⟩ := Txn.ofOption_bind_eq_ok.1 h
  exact ⟨step, stepAt_eq_some.2 ⟨hlen, hget⟩⟩

def StepKnown (step : Json.Fields) : Prop :=
  stepType step ∈ [.str "approval", .str "action", .str "notify", .str "condition"]

instance (step : Json.Fields) : Decidable (StepKnown step) := inferInstanceAs (Decidable (_ ∈ _))

/-- Where the walk goes on. -/
theorem advanceStep_eq_next (h : advanceStep E template runID run db = (.ok (.next run'), db')) :
    ∃ step, template.stepAt run.currentStep = some step ∧
      ((stepType step = .str "action" ∧ ∃ results,
          actionResults E run (stepConfig step) db = (.ok results, db') ∧ run' = (run.withResults results).next) ∨
        (stepType step = .str "notify" ∧ db = db' ∧ run' = run.next) ∨
        stepType step = .str "condition" ∧ db = db' ∧
          (run' = run.next ∨ ∃ config p, (stepConfig step).asDict = some config ∧
            (Json.getD config "else_step" .null).int? = some p ∧ run' = { run with currentStep := p })) := by
  by_cases hlen : template.steps.length ≤ run.currentStep
  · rw [advanceStep_of_le hlen] at h
    cases (Txn.pure_eq_ok.1 h).1
  obtain ⟨step, hstep⟩ := exists_stepAt hlen h
  refine ⟨step, hstep, ?_⟩
  rw [advanceStep_of_stepAt hstep] at h
  split_ifs at h with happroval haction hnotify hcondition
  · obtain ⟨u, db₁, -, h⟩ := Txn.bind_eq_ok.1 h
    cases (Txn.pure_eq_ok.1 h).1
  · rw [executeAction_eq, Txn.bind_assoc] at h
    obtain ⟨results, db₁, hresults, h⟩ := Txn.bind_eq_ok.1 h
    obtain ⟨hrun, rfl⟩ := Txn.pure_eq_ok.1 h
    cases hrun
    exact .inl ⟨haction, results, hresults, rfl⟩
  · obtain ⟨u, db₁, hsend, h⟩ := Txn.bind_eq_ok.1 h
    obtain ⟨hrun, rfl⟩ := Txn.pure_eq_ok.1 h
    cases hrun
    exact .inr (.inl ⟨hnotify, sendNotification_eq_ok hsend, rfl⟩)
  · obtain ⟨config, hconfig, h⟩ := Txn.ofOption_bind_eq_ok.1 h
    obtain ⟨result, -, h⟩ := Txn.ofOption_bind_eq_ok.1 h
    refine .inr (.inr ⟨hcondition, ?_⟩)
    split_ifs at h with hresult helse
    · obtain ⟨hrun, rfl⟩ := Txn.pure_eq_ok.1 h
      cases hrun
      exact ⟨rfl, .inl rfl⟩
    · cases (Txn.pure_eq_ok.1 h).1
    · obtain ⟨p, hp, h⟩ := Txn.ofOption_bind_eq_ok.1 h
      obtain ⟨hrun, rfl⟩ := Txn.pure_eq_ok.1 h
      cases hrun
      exact ⟨rfl, .inr ⟨config, p, hconfig, hp, rfl⟩⟩
  · cases (Txn.pure_eq_ok.1 h).1

/-- Where the walk stops by itself: past the end, at an approval, at a condition, or at a step of no
known type. -/
theorem advanceStep_eq_stop (h : advanceStep E template runID run db = (.ok (.stop run'), db')) :
    (run' = run.complete E.now ∧ db = db') ∨
      ∃ step, template.stepAt run.currentStep = some step ∧ run' = run ∧
        ((stepType step = .str "approval" ∧
            createApprovalRequest E runID run (stepID step run.currentStep)
              (Json.getD step "name" (stepType step)) (stepConfig step) db = (.ok (), db')) ∨
          ¬ StepKnown step ∧ db = db') := by
  by_cases hlen : template.steps.length ≤ run.currentStep
  · rw [advanceStep_of_le hlen] at h
    obtain ⟨hrun, rfl⟩ := Txn.pure_eq_ok.1 h
    cases hrun
    exact .inl ⟨rfl, rfl⟩
  obtain ⟨step, hstep⟩ := exists_stepAt hlen h
  rw [advanceStep_of_stepAt hstep] at h
  split_ifs at h with happroval haction hnotify hcondition
  · obtain ⟨u, db₁, hcreate, h⟩ := Txn.bind_eq_ok.1 h
    obtain ⟨hrun, rfl⟩ := Txn.pure_eq_ok.1 h
    cases hrun
    exact .inr ⟨step, hstep, rfl, .inl ⟨happroval, hcreate⟩⟩
  · obtain ⟨run₁, db₁, -, h⟩ := Txn.bind_eq_ok.1 h
    cases (Txn.pure_eq_ok.1 h).1
  · obtain ⟨u, db₁, -, h⟩ := Txn.bind_eq_ok.1 h
    cases (Txn.pure_eq_ok.1 h).1
  · obtain ⟨config, -, h⟩ := Txn.ofOption_bind_eq_ok.1 h
    obtain ⟨result, -, h⟩ := Txn.ofOption_bind_eq_ok.1 h
    split_ifs at h with hresult helse
    · cases (Txn.pure_eq_ok.1 h).1
    · obtain ⟨hrun, rfl⟩ := Txn.pure_eq_ok.1 h
      cases hrun
      exact .inl ⟨rfl, rfl⟩
    · obtain ⟨p, -, h⟩ := Txn.ofOption_bind_eq_ok.1 h
      cases (Txn.pure_eq_ok.1 h).1
  · obtain ⟨hrun, rfl⟩ := Txn.pure_eq_ok.1 h
    cases hrun
    have hunknown : ¬ StepKnown step := by simp [StepKnown, happroval, haction, hnotify, hcondition]
    exact .inr ⟨step, hstep, rfl, .inr ⟨hunknown, rfl⟩⟩

/-! ### The moves of a template -/

/-- The walk can go on from `p` at `q`: the next position after an action, a notification or a condition,
and the `else_step` of a condition. -/
def WorkflowTemplate.LeadsTo (template : WorkflowTemplate) (p q : Int) : Prop :=
  ∃ step, template.stepAt p = some step ∧
    ((stepType step ∈ [.str "action", .str "notify", .str "condition"] ∧ q = p + 1) ∨
      stepType step = .str "condition" ∧
        ∃ config, (stepConfig step).asDict = some config ∧ (Json.getD config "else_step" .null).int? = some q)

/-- A step that goes on follows a move of the template, and of the run it changes the position and the
context. -/
theorem leadsTo_of_advanceStep (h : advanceStep E template runID run db = (.ok (.next run'), db')) :
    template.LeadsTo run.currentStep run'.currentStep ∧ db.Ticked db' ∧
      run' = { run with currentStep := run'.currentStep, context := run'.context } := by
  obtain ⟨step, hstep, hcase⟩ := advanceStep_eq_next h
  rcases hcase with ⟨haction, results, hresults, rfl⟩ | ⟨hnotify, rfl, rfl⟩ | ⟨hcondition, rfl, hrun⟩
  · exact ⟨⟨step, hstep, .inl ⟨by simp [haction], rfl⟩⟩, actionResults_eq_ok hresults, rfl⟩
  · exact ⟨⟨step, hstep, .inl ⟨by simp [hnotify], rfl⟩⟩, .refl db, rfl⟩
  · rcases hrun with rfl | ⟨config, p, hconfig, hp, rfl⟩
    · exact ⟨⟨step, hstep, .inl ⟨by simp [hcondition], rfl⟩⟩, .refl db, rfl⟩
    · exact ⟨⟨step, hstep, .inr ⟨hcondition, config, hconfig, hp⟩⟩, .refl db, rfl⟩

end Dgraphai.Workflows
