import Dgraphai.WorkflowVisits
import Mathlib.Order.Interval.Finset.Defs
import Mathlib.Data.Int.Interval

/-!
# Whether `_advance` comes to an end

A condition may jump anywhere, so the position of a run is no measure of the steps left. The walk ends
where no position that can be reached leads back to itself; a loop that some outcome of the condition
expressions keeps going never ends, and only the recursion limit of the interpreter cuts it off.
-/

namespace Dgraphai.Workflows

open Auth (Uuid)

variable {E : Env} {db : Db} {run run' : WorkflowRun} {template : WorkflowTemplate} {runID : Uuid}

/-- `_advance` returns by itself: at the end, at an approval or with a failure of a step. -/
def Returns (E : Env) (template : WorkflowTemplate) (runID : Uuid) (v : Visit) : Prop :=
  Walk.Ends (Visit.next E template runID) v

/-- No position that can be reached from `p` leads back to itself. -/
def WorkflowTemplate.NoLoop (template : WorkflowTemplate) (p : Int) : Prop :=
  ∀ q, Relation.ReflTransGen template.LeadsTo p q → ¬ Relation.TransGen template.LeadsTo q q

theorem stepAt_bounds {p : Int} {step : Json.Fields} (h : template.stepAt p = some step) :
    -(template.steps.length : Int) ≤ p ∧ p < template.steps.length := by
  obtain ⟨hlen, hget⟩ := stepAt_eq_some.1 h
  refine ⟨?_, by omega⟩
  unfold List.pyGet? at hget
  split_ifs at hget <;> omega

theorem leadsTo_finite (template : WorkflowTemplate) : {p | ∃ q, template.LeadsTo p q}.Finite := by
  refine (Set.finite_Ico (-(template.steps.length : Int)) template.steps.length).subset ?_
  rintro p ⟨q, step, hstep, -⟩
  exact stepAt_bounds hstep

theorem returns_of_noLoop {v : Visit} (h : template.NoLoop v.run.currentStep) : Returns E template runID v :=
  Walk.ends_of_acc (fun v => v.run.currentStep) (fun _ _ hnext => (Visit.leadsTo_of_next hnext).1)
    (Walk.acc_of_acyclic (leadsTo_finite template) h)

/-! ### Cut off at every depth -/

/-- A walk that does not end is cut off, however deep `_advance` may call itself. -/
theorem advance_of_not_returns {v : Visit} (h : ¬ Returns E template runID v) (depth : Nat) :
    (advance E template runID depth v.run v.db).1 = .error .other := by
  induction depth generalizing v with
  | zero => rfl
  | succ depth ih =>
    rcases hnext : v.next E template runID with _ | w
    · exact absurd ⟨2, by rw [Walk.walk_succ_of_none hnext]; simp⟩ h
    · have hw : ¬ Returns E template runID w := by
        rintro ⟨n, hn⟩
        refine h ⟨n + 1, ?_⟩
        rw [Walk.walk_succ_of_some hnext, List.length_cons]
        omega
      obtain ⟨hstep, -⟩ := Visit.next_eq_some.1 hnext
      rw [advance_succ, Txn.bind_of_ok hstep]
      exact ih hw

/-! ### Loops that an outcome of the conditions keeps going -/

/-- The move at `p` where every condition expression has this outcome, of a step whose config reads well. -/
def WorkflowTemplate.Moves (template : WorkflowTemplate) (outcome : String → Bool) (p q : Int) : Prop :=
  ∃ step config, template.stepAt p = some step ∧ (stepConfig step).asDict = some config ∧
    ((stepType step = .str "action" ∧ q = p + 1) ∨
      (stepType step = .str "notify" ∧ q = p + 1 ∧
        (Json.getD config "message" (.str "Workflow step completed")).typeName = "str" ∧
          (Json.getD config "channels" (.arr [])).iter?.isSome) ∨
      stepType step = .str "condition" ∧ ∃ e, Json.getD config "expression" (.str "true") = .str e ∧
        if outcome e then q = p + 1 else (Json.getD config "else_step" .null).int? = some q)

def WorkflowTemplate.LoopsUnder (template : WorkflowTemplate) (outcome : String → Bool) (p : Int) : Prop :=
  ∃ C : Int → Prop, C p ∧ ∀ a, C a → ∃ b, C b ∧ template.Moves outcome a b

def evalEnv (outcome : String → Bool) : Env := { plainEnv with eval := fun e _ _ _ => some (outcome e) }

/-- A context without files, as a run without files carries it. -/
def NoFiles (context : Json.Fields) : Prop := context = [] ∨ context = [("action_results", .arr [])]

theorem evaluateCondition_of_noFiles {outcome : String → Bool} {context : Json.Fields} {e : String}
    (h : NoFiles context) : evaluateCondition (evalEnv outcome) context (.str e) = some (outcome e) := by
  rcases h with rfl | rfl <;> rfl

theorem actionResults_of_noFiles {config : Json} {fields : Json.Fields} (h : NoFiles run.context)
    (hconfig : config.asDict = some fields) : actionResults E run config db = (.ok [], db) := by
  have hfiles : run.files.iter? = some [] := by
    unfold WorkflowRun.files
    rcases h with h | h <;> rw [h] <;> rfl
  rw [actionResults, hconfig, hfiles]
  rfl

theorem noFiles_withResults (h : NoFiles run.context) : NoFiles (run.withResults []).context := by
  rcases h with h | h
  · right
    show setKey run.context _ _ = _
    rw [h]
    rfl
  · right
    show setKey run.context _ _ = _
    rw [h]
    rfl

theorem advanceStep_of_moves {outcome : String → Bool} {q : Int} (hfiles : NoFiles run.context)
    (h : template.Moves outcome run.currentStep q) :
    ∃ run', advanceStep (evalEnv outcome) template runID run db = (.ok (.next run'), db) ∧
      run'.currentStep = q ∧ NoFiles run'.context := by
  obtain ⟨step, config, hstep, hconfig, hcase⟩ := h
  rw [advanceStep_of_stepAt hstep]
  rcases hcase with ⟨htype, rfl⟩ | ⟨htype, rfl, hmessage, hchannels⟩ | ⟨htype, e, he, hmove⟩
  · refine ⟨(run.withResults []).next, ?_, rfl, noFiles_withResults hfiles⟩
    rw [htype, if_neg (by decide), if_pos rfl, executeAction_eq, Txn.bind_assoc,
      Txn.bind_of_ok (actionResults_of_noFiles hfiles hconfig)]
    rfl
  · obtain ⟨channels, hchannels⟩ := Option.isSome_iff_exists.1 hchannels
    have hsend : sendNotification run (stepConfig step) db = (.ok (), db) := by
      have hlen : run.files.len? = some 0 := by
        unfold WorkflowRun.files
        rcases hfiles with h | h <;> rw [h] <;> rfl
      rw [sendNotification, hconfig, Txn.ofOption_bind_eq_ok]
      refine ⟨config, rfl, ?_⟩
      rw [Txn.raiseIf_bind_eq_ok, not_not]
      refine ⟨hmessage, ?_⟩
      rw [hlen, hchannels]
      rfl
    refine ⟨run.next, ?_, rfl, hfiles⟩
    rw [htype, if_neg (by decide), if_neg (by decide), if_pos rfl, Txn.bind_of_ok hsend]
    rfl
  · rw [htype, if_neg (by decide), if_neg (by decide), if_neg (by decide), if_pos rfl, hconfig]
    rw [Txn.ofOption_some, Txn.pure_bind, he, evaluateCondition_of_noFiles hfiles, Txn.ofOption_some,
      Txn.pure_bind]
    by_cases houtcome : outcome e = true
    · rw [if_pos houtcome] at hmove
      rw [if_pos houtcome]
      exact ⟨run.next, rfl, hmove.symm, hfiles⟩
    · rw [if_neg houtcome] at hmove
      have hsome : Json.getD config "else_step" .null ≠ .null := by
        intro hnull
        rw [hnull] at hmove
        cases hmove
      rw [if_neg houtcome, if_neg hsome, hmove]
      exact ⟨{ run with currentStep := q }, rfl, rfl, hfiles⟩

theorem not_returns_of_loopsUnder {outcome : String → Bool} {v : Visit}
    (h : template.LoopsUnder outcome v.run.currentStep) (hcontext : v.run.context = []) :
    ¬ Returns (evalEnv outcome) template runID v := by
  obtain ⟨C, hC, hmoves⟩ := h
  let Inv := fun v : Visit => C v.run.currentStep ∧ NoFiles v.run.context
  have hstep : ∀ v, Inv v → ∃ w, v.next (evalEnv outcome) template runID = some w ∧ Inv w := by
    rintro v ⟨hv, hfiles⟩
    obtain ⟨q, hq, hmove⟩ := hmoves _ hv
    obtain ⟨run', hadvance, rfl, hfiles'⟩ := advanceStep_of_moves hfiles hmove
    exact ⟨⟨run', v.db, v.errorsAfter _ template⟩, Visit.next_eq_some.2 ⟨hadvance, rfl⟩, hq, hfiles'⟩
  exact Walk.not_ends hstep ⟨hC, .inl hcontext⟩

/-- A condition that is false and goes on at itself. -/
def loopingTemplate : WorkflowTemplate where
  tenantID := "a"
  createdBy := some "user"
  name := "Loop"
  description := ""
  triggerType := .manual
  triggerConfig := []
  steps := [[("id", .str "step_1"), ("type", .str "condition"),
    ("config", .obj [("expression", .str "false"), ("else_step", .num 0)])]]
  isActive := true

end Dgraphai.Workflows
