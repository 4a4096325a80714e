import Dgraphai.WorkflowVisits

/-!
# The variables of a condition

`_evaluate_condition` reads its variables from the context. Nobody writes `approvals` there, and the
`action_results` an action leaves are lost when the run waits: the write in place is not stored. So
`file_count` is always right, `approval_count` only where the trigger context says it, and `error_count`
only after an action of the same request or where the trigger context says it
(`condition_variables_faithful_iff`).
-/

namespace Dgraphai.Workflows

open Auth (Uuid)

variable {E : Env} {db db' : Db} {run run' : WorkflowRun} {template : WorkflowTemplate} {id runID : Uuid}

/-! ### What a history is about -/

structure Ghost where
  /-- The context each run was started with. -/
  trigger : Uuid → Json.Fields
  /-- The errors of the action step of the run that was executed last. -/
  errors : Uuid → Option Nat

/-- The errors of the action step a request executed last, a request that is rolled back included. -/
def Event.executed (e : Event) (db : Db) : Option Nat :=
  (e.entry db).bind fun en => (e.visits db).getLast?.bind fun v => v.errorsAfter e.env en.template

/-- A start begins a run, of which no action step has been executed. -/
def Event.enter (e : Event) (db : Db) (ghost : Ghost) : Ghost :=
  match e.entry db, e.request with
  | some en, .startRun _ context =>
    ⟨Function.update ghost.trigger en.runID context, Function.update ghost.errors en.runID none⟩
  | _, _ => ghost

def Event.observe (e : Event) (db : Db) (ghost : Ghost) : Ghost :=
  match e.entry db with
  | none => ghost
  | some en =>
    let ghost := e.enter db ghost
    { ghost with errors := Function.update ghost.errors en.runID ((e.executed db).or (ghost.errors en.runID)) }

def Event.record (p : Db × Ghost) (e : Event) : Db × Ghost := (e.run p.1, e.observe p.1 p.2)

def observed (events : List Event) : Db × Ghost :=
  events.foldl Event.record (emptyDb, ⟨fun _ => [], fun _ => none⟩)

theorem observed_append {events : List Event} {e : Event} :
    observed (events ++ [e]) = Event.record (observed events) e := by
  rw [observed, List.foldl_append]
  rfl

theorem observed_fst (events : List Event) : (observed events).1 = afterEvents events := by
  induction events using List.reverseRecOn with
  | nil => rfl
  | append_singleton events e ih =>
    rw [observed_append, afterEvents, List.foldl_append]
    show e.run (observed events).1 = e.run _
    rw [ih]
    rfl

/-! ### The variables -/

/-- `file_count`, `approval_count` and `error_count`. -/
structure ConditionVars where
  fileCount : Nat
  approvalCount : Nat
  errorCount : Nat
  deriving DecidableEq

/-- `SAFE_VARS`, where no lookup raises. -/
def conditionVars (context : Json.Fields) : Option ConditionVars := do
  let fileCount ← (Json.getD context "files" (.arr [])).len?
  let approvalCount ← countStatus (Json.getD context "approvals" (.arr [])) "approved"
  let errorCount ← countStatus (Json.getD context "action_results" (.arr [])) "error"
  pure ⟨fileCount, approvalCount, errorCount⟩

theorem evaluateCondition_eq {context : Json.Fields} {e : String} :
    evaluateCondition E context (.str e) =
      (conditionVars context).map fun vars =>
        (E.eval e vars.fileCount vars.approvalCount vars.errorCount).getD true := by
  unfold evaluateCondition conditionVars
  rcases (Json.getD context "files" (.arr [])).len? with _ | f
  · rfl
  rcases countStatus (Json.getD context "approvals" (.arr [])) "approved" with _ | a
  · rfl
  rcases countStatus (Json.getD context "action_results" (.arr [])) "error" with _ | r <;> rfl

theorem conditionVars_eq_some {context : Json.Fields} {vars : ConditionVars} :
    conditionVars context = some vars ↔
      (Json.getD context "files" (.arr [])).len? = some vars.fileCount ∧
        countStatus (Json.getD context "approvals" (.arr [])) "approved" = some vars.approvalCount ∧
          countStatus (Json.getD context "action_results" (.arr [])) "error" = some vars.errorCount := by
  obtain ⟨f, a, r⟩ := vars
  unfold conditionVars
  simp only [Option.bind_eq_bind, Option.bind_eq_some_iff, Option.pure_def, Option.some.injEq,
    ConditionVars.mk.injEq]
  constructor
  · rintro ⟨f', hf, a', ha, r', hr, rfl, rfl, rfl⟩
    exact ⟨hf, ha, hr⟩
  · rintro ⟨hf, ha, hr⟩
    exact ⟨f, hf, a, ha, r, hr, rfl, rfl, rfl⟩

/-- So many approval requests of the run are approved. -/
def Db.ApprovedCount (db : Db) (runID : Uuid) (n : Nat) : Prop :=
  ∃ ids : List Uuid, ids.Nodup ∧ ids.length = n ∧
    ∀ id, id ∈ ids ↔ ∃ a, db.approvals id = some a ∧ a.runID = runID ∧ a.status = .approved

/-- The step is a condition, and its variables are read. -/
def Visit.Evaluates (template : WorkflowTemplate) (v : Visit) (vars : ConditionVars) : Prop :=
  ∃ step, v.step template = some step ∧ stepType step = .str "condition" ∧
    (stepConfig step).asDict.isSome ∧ conditionVars v.run.context = some vars

/-- The variables say what they are named after. -/
structure Faithful (ghost : Ghost) (runID : Uuid) (v : Visit) (vars : ConditionVars) : Prop where
  files : (Json.getD (ghost.trigger runID) "files" (.arr [])).len? = some vars.fileCount
  approvals : v.db.ApprovedCount runID vars.approvalCount
  errors : vars.errorCount = (v.errors.or (ghost.errors runID)).getD 0

/-- The trigger context counts as many approvals as there were, and as many errors as the action step
executed last had, unless an action step of the same request came in between. -/
def TriggerAgrees (ghost : Ghost) (runID : Uuid) (v : Visit) : Prop :=
  (∃ n, countStatus (Json.getD (ghost.trigger runID) "approvals" (.arr [])) "approved" = some n ∧
    v.db.ApprovedCount runID n) ∧
  (v.errors = none →
    countStatus (Json.getD (ghost.trigger runID) "action_results" (.arr [])) "error" =
      some ((ghost.errors runID).getD 0))

/-! ### Reading and writing a context -/

theorem find?_map_setKey {l : Json.Fields} {k k' : String} {x : Json} :
    (l.map fun f => if f.1 = k then (k, x) else f).find? (fun f => f.1 = k') =
      (l.find? fun f => f.1 = k').map fun f => if f.1 = k then (k, x) else f := by
  induction l with
  | nil => rfl
  | cons f l ih =>
    have hname : (if f.1 = k then (k, x) else f).1 = f.1 := by
      split_ifs with h
      · exact h.symm
      · rfl
    rw [List.map_cons, List.find?_cons, List.find?_cons, hname]
    rcases decide (f.1 = k') with _ | _
    · exact ih
    · rfl

theorem field?_setKey {fields : Json.Fields} {k k' : String} {x : Json} :
    Json.field? (setKey fields k x) k' = if k = k' then some x else Json.field? fields k' := by
  unfold setKey
  split_ifs with hany heq heq
  · subst heq
    obtain ⟨f, hf, hk⟩ := List.any_eq_true.1 hany
    unfold Json.field?
    rw [← List.map_reverse, find?_map_setKey]
    rcases hfind : fields.reverse.find? (fun g => g.1 = k) with _ | g
    · have hnone := List.find?_eq_none.1 hfind f (List.mem_reverse.2 hf)
      exact absurd hk hnone
    · have hg : g.1 = k := by simpa using List.find?_some hfind
      rw [hfind, Option.map_some, if_pos hg]
      rfl
  · unfold Json.field?
    rw [← List.map_reverse, find?_map_setKey]
    rcases hfind : fields.reverse.find? (fun g => g.1 = k') with _ | g
    · rw [hfind]
      rfl
    · have hg : g.1 = k' := by simpa using List.find?_some hfind
      have hne : ¬ g.1 = k := fun h => heq (h.symm.trans hg)
      rw [hfind, Option.map_some, if_neg hne]
  · rw [Json.field?_concat, if_pos heq]
  · rw [Json.field?_concat, if_neg heq]

theorem getD_setKey_self {fields : Json.Fields} {k : String} {x d : Json} :
    Json.getD (setKey fields k x) k d = x := by
  rw [Json.getD, field?_setKey, if_pos rfl]
  rfl

theorem getD_setKey_ne {fields : Json.Fields} {k k' : String} {x d : Json} (h : k ≠ k') :
    Json.getD (setKey fields k x) k' d = Json.getD fields k' d := by
  rw [Json.getD, field?_setKey, if_neg h]
  rfl

/-- The errors in a list of results, where each has a status. -/
theorem countStatus_results {results : List Json} {n : Nat}
    (h : countStatus (.arr results) "error" = some n) : n = results.countP isError := by
  have hmap : ∀ (l : List Json) (statuses : List Json),
      l.mapM (fun x => x.asDict.map fun d => Json.getD d "status" .null) = some statuses →
        statuses.count (.str "error") = l.countP isError := by
    intro l
    induction l with
    | nil =>
      intro statuses hs
      cases hs
      rfl
    | cons r l ih =>
      intro statuses hs
      rw [List.mapM_cons] at hs
      obtain ⟨status, hstatus, hs⟩ := Option.bind_eq_some_iff.1 hs
      obtain ⟨rest, hrest, hs⟩ := Option.bind_eq_some_iff.1 hs
      cases hs
      rw [List.count_cons, List.countP_cons, ih rest hrest]
      have herror : isError r = (status == .str "error") := by
        unfold isError
        rw [hstatus]
        by_cases hs : status = .str "error" <;> simp [hs]
      rw [herror]
  obtain ⟨statuses, hstatuses, h⟩ := Option.bind_eq_some_iff.1 h
  cases h
  exact hmap results statuses hstatuses

/-! ### Contexts during a walk -/

/-- The context of a visit is that of the trigger, but for the results of an action of this request. -/
structure Visit.From (trigger : Json.Fields) (v : Visit) : Prop where
  others : ∀ k d, k ≠ "action_results" → Json.getD v.run.context k d = Json.getD trigger k d
  unwritten : v.errors = none → v.run.context = trigger
  written : ∀ n, v.errors = some n → ∀ r,
    countStatus (Json.getD v.run.context "action_results" (.arr [])) "error" = some r → r = n

theorem Visit.action?_eq_some {v : Visit} {config : Json} : v.action? template = some config ↔
    ∃ step, template.stepAt v.run.currentStep = some step ∧ stepType step = .str "action" ∧
      stepConfig step = config := by
  unfold action? Visit.step
  rw [Option.map_eq_some_iff]
  constructor
  · rintro ⟨step, hstep, hconfig⟩
    rw [Option.filter_eq_some_iff, decide_eq_true_iff] at hstep
    exact ⟨step, hstep.1, hstep.2, hconfig⟩
  · rintro ⟨step, hstep, htype, hconfig⟩
    refine ⟨step, ?_, hconfig⟩
    rw [Option.filter_eq_some_iff, decide_eq_true_iff]
    exact ⟨hstep, htype⟩

/-- One step of the walk. -/
theorem Visit.From.next {trigger : Json.Fields} {v w : Visit} (h : v.From trigger)
    (hnext : v.next E template runID = some w) : w.From trigger := by
  obtain ⟨hadvance, herrors⟩ := Visit.next_eq_some.1 hnext
  obtain ⟨step, hstep, hcase⟩ := advanceStep_eq_next hadvance
  rcases hcase with ⟨htype, results, hresults, hrun⟩ | hcase
  · have haction : v.action? template = some (stepConfig step) :=
      Visit.action?_eq_some.2 ⟨step, hstep, htype, rfl⟩
    have hafter : w.errors = some (results.countP isError) := by
      rw [herrors, errorsAfter, haction]
      show (((actionResults E v.run (stepConfig step)).value? v.db).map _).or _ = _
      rw [Txn.value?_of_ok hresults]
      rfl
    have hcontext : w.run.context = setKey v.run.context "action_results" (.arr results) := by
      rw [hrun]
      rfl
    refine ⟨fun k d hk => ?_, fun hnone => ?_, fun n hn r hr => ?_⟩
    · rw [hcontext, getD_setKey_ne hk.symm, h.others k d hk]
    · rw [hafter] at hnone
      cases hnone
    · rw [hafter] at hn
      rw [hcontext, getD_setKey_self] at hr
      rw [countStatus_results hr]
      exact Option.some.inj hn
  · have hnot : stepType step ≠ .str "action" := by
      intro haction
      rcases hcase with ⟨htype, -⟩ | ⟨htype, -⟩ <;> rw [haction] at htype <;> simp at htype
    have hkeep : w.run.context = v.run.context := by
      rcases hcase with ⟨-, -, hrun⟩ | ⟨-, -, hrun | ⟨config, p, -, -, hrun⟩⟩ <;> rw [hrun] <;> rfl
    have hsame : w.errors = v.errors := by
      have hnone : v.action? template = none := by
        rcases haction : v.action? template with _ | config
        · rfl
        · obtain ⟨step', hstep', htype', -⟩ := Visit.action?_eq_some.1 haction
          rw [hstep] at hstep'
          cases hstep'
          exact absurd htype' hnot
      rw [herrors, errorsAfter, hnone]
    refine ⟨fun k d hk => ?_, fun hnone => ?_, fun n hn r hr => ?_⟩
    · rw [hkeep, h.others k d hk]
    · rw [hkeep]
      exact h.unwritten (hsame ▸ hnone)
    · rw [hkeep] at hr
      exact h.written n (hsame ▸ hn) r hr

/-! ### The stored context -/

/-- The context stored for a run is the one it was started with. -/
def Stored (p : Db × Ghost) : Prop := ∀ id run, p.1.runs id = some run → run.context = p.2.trigger id

theorem Event.trigger_observe {e : Event} {ghost : Ghost} :
    (e.observe db ghost).trigger = (e.enter db ghost).trigger := by
  unfold observe enter
  rcases e.entry db with _ | en <;> rfl

theorem Event.trigger_enter {e : Event} {ghost : Ghost} (hrow : db.runs id = some run) :
    (e.enter db ghost).trigger id = ghost.trigger id := by
  unfold enter
  rcases hentry : e.entry db with _ | en
  · rfl
  · rcases Event.entry_cases hentry with ⟨_, _, hrequest, hstarts, -⟩ | ⟨_, _, _, _, _, _, hrequest, -⟩
    · obtain ⟨db₁, ⟨n, rfl⟩, hfree, -⟩ := hstarts.row
      have hne : id ≠ en.runID := by
        rintro rfl
        have hnone : db.runs en.runID = none := hfree
        rw [hnone] at hrow
        cases hrow
      rw [hrequest]
      exact Function.update_of_ne hne ..
    · rw [hrequest]

/-- The context a request enters `_advance` with is the trigger context of its run. -/
theorem Event.context_entry {e : Event} {en : Entry} {ghost : Ghost} (h : Stored (db, ghost))
    (hentry : e.entry db = some en) : en.run.context = (e.enter db ghost).trigger en.runID := by
  rcases Event.entry_cases hentry with ⟨_, _, hrequest, hstarts, -⟩ | ⟨_, _, _, _, a, run, hrequest, -, happroves⟩
  · unfold enter
    rw [hentry, hrequest, hstarts.context]
    show _ = Function.update ghost.trigger en.runID _ en.runID
    rw [Function.update_self]
  · rw [Event.trigger_enter (happroves.runID ▸ happroves.row), happroves.next, happroves.runID]
    exact h a.runID run happroves.row

/-- The step lemma of `Stored`. -/
theorem Event.record_stored {e : Event} {p : Db × Ghost} (h : Stored p) : Stored (e.record p) := by
  obtain ⟨db, ghost⟩ := p
  show ∀ id run, (e.run db).runs id = some run → run.context = (e.observe db ghost).trigger id
  rw [Event.trigger_observe]
  have hkept : ∀ id run, db.runs id = some run → run.context = (e.enter db ghost).trigger id := by
    intro id run hrun
    rw [Event.trigger_enter hrun]
    exact h id run hrun
  have hcommits := e.run_commits db
  generalize e.run db = db' at hcommits
  cases hcommits with
  | nothing => exact hkept
  | template hfree => exact hkept
  | rejection hopen hrun =>
    rename_i _ _ a run _ _ _
    intro k r hr
    by_cases hk : k = a.runID
    · subst hk
      rw [Db.setRun_self] at hr
      cases hr
      exact hkept a.runID run hrun
    · rw [Db.setRun_ne hk] at hr
      exact hkept k r hr
  | walk hentry hadvance =>
    rename_i en run' db₂
    intro k r hr
    by_cases hk : k = en.runID
    · subst hk
      rw [Db.setRun_self] at hr
      cases hr
      exact Event.context_entry h hentry
    · rw [Db.setRun_ne hk, (advance_eq_ok hadvance).1.runs] at hr
      refine hkept k r ?_
      rcases Event.entry_cases hentry with ⟨_, _, -, hstarts, -⟩ | ⟨_, _, _, _, _, _, -, -, happroves⟩
      · obtain ⟨db₁, ⟨n, rfl⟩, -, hrow⟩ := hstarts.row
        rw [hrow, Db.setRun_ne hk] at hr
        exact hr
      · obtain ⟨approver, note, now, hdecided⟩ := happroves.decided
        rw [hdecided] at hr
        exact hr

theorem observed_stored (events : List Event) : Stored (observed events) :=
  Runs.inv_foldl Event.record Stored (fun _ _ h => Event.record_stored h)
    (fun _ _ hrun => (Option.some_ne_none _ hrun.symm).elim) events

/-! ### Faithful variables -/

theorem Db.ApprovedCount.unique {n m : Nat} (h : db.ApprovedCount runID n) (h' : db.ApprovedCount runID m) :
    n = m := by
  obtain ⟨ids, hnodup, rfl, hmem⟩ := h
  obtain ⟨ids', hnodup', rfl, hmem'⟩ := h'
  have hperm : ids.Perm ids' :=
    (List.perm_ext_iff_of_nodup hnodup hnodup').2 fun id => (hmem id).trans (hmem' id).symm
  exact hperm.length_eq

theorem faithful_iff_of_from {ghost : Ghost} {v : Visit} {vars : ConditionVars}
    (h : v.From (ghost.trigger runID)) (hvars : conditionVars v.run.context = some vars) :
    Faithful ghost runID v vars ↔ TriggerAgrees ghost runID v := by
  obtain ⟨hfiles, happrovals, herrors⟩ := conditionVars_eq_some.1 hvars
  rw [h.others "files" _ (by decide)] at hfiles
  rw [h.others "approvals" _ (by decide)] at happrovals
  constructor
  · rintro ⟨-, hcount, herr⟩
    refine ⟨⟨vars.approvalCount, happrovals, hcount⟩, fun hnone => ?_⟩
    rw [h.unwritten hnone] at herrors
    rw [herrors, herr, hnone]
    rfl
  · rintro ⟨⟨n, hn, hcount⟩, htrigger⟩
    have hvalue : n = vars.approvalCount := Option.some.inj (hn.symm.trans happrovals)
    refine ⟨hfiles, hvalue ▸ hcount, ?_⟩
    rcases hv : v.errors with _ | m
    · have hsome := htrigger hv
      rw [h.unwritten hv, hsome] at herrors
      exact (Option.some.inj herrors).symm
    · exact h.written m hv _ herrors

/-- Wherever a condition of any run reads its variables, they say what they are named after exactly where
the trigger context agrees; `file_count` always does. -/
theorem condition_variables_faithful_iff (events : List Event) (e : Event) :
    ∀ en ∈ e.entry (afterEvents events), ∀ v ∈ e.visits (afterEvents events),
      ∀ vars, v.Evaluates en.template vars →
        let ghost := e.enter (afterEvents events) (observed events).2
        (Json.getD (ghost.trigger en.runID) "files" (.arr [])).len? = some vars.fileCount ∧
          (Faithful ghost en.runID v vars ↔ TriggerAgrees ghost en.runID v) := by
  intro en hen v hv vars hevaluates
  obtain ⟨en', hen', hwalk⟩ := Event.mem_visits.1 hv
  obtain rfl : en = en' := Option.some.inj (hen.symm.trans hen')
  have hstored : Stored (afterEvents events, (observed events).2) := by
    have hobserved := observed_stored events
    rw [← observed_fst]
    exact hobserved
  have hcontext := Event.context_entry hstored hen
  have hfrom : v.From ((e.enter (afterEvents events) (observed events).2).trigger en.runID) := by
    refine Walk.inv_walk (fun a b ha hnext => Visit.From.next ha hnext) ?_ hwalk
    rw [← hcontext]
    exact ⟨fun _ _ _ => rfl, fun _ => rfl, fun _ hn => by cases hn⟩
  obtain ⟨step, -, -, -, hvars⟩ := hevaluates
  refine ⟨?_, faithful_iff_of_from hfrom hvars⟩
  obtain ⟨hfiles, -⟩ := conditionVars_eq_some.1 hvars
  rw [hfrom.others "files" _ (by decide)] at hfiles
  exact hfiles

/-! ### A condition on approvals -/

def approvalCondition : Json.Fields :=
  [("type", .str "condition"), ("config", .obj [("expression", .str "approval_count >= 1")])]

/-- An approval step, and a condition that wants one approval. -/
def approvedRun : List Event :=
  [⟨plainEnv, adminOf "a", .createTemplate ⟨"Move files", "", "manual", [],
      [[("type", .str "approval")], approvalCondition]⟩⟩,
   ⟨plainEnv, adminOf "a", .startRun "template" []⟩]

def approve : Event := ⟨plainEnv, adminOf "a", .decide "approval" "approved" ""⟩

theorem approve_evaluates : ∃ en ∈ approve.entry (afterEvents approvedRun),
    ⟨en.run, en.db, none⟩ ∈ approve.visits (afterEvents approvedRun) ∧
      Visit.Evaluates en.template ⟨en.run, en.db, none⟩ ⟨0, 0, 0⟩ := by
  have hentry : (approve.entry (afterEvents approvedRun)).map
      (fun en => (en.template.stepAt en.run.currentStep, en.run.context)) =
      some (some approvalCondition, []) := by decide
  obtain ⟨en, hen, hproj⟩ := Option.map_eq_some_iff.1 hentry
  obtain ⟨hstep, hcontext⟩ := Prod.mk.inj hproj
  have hvars : conditionVars en.run.context = some ⟨0, 0, 0⟩ := by
    rw [hcontext]
    rfl
  exact ⟨en, hen, Event.mem_visits.2 ⟨en, hen, List.mem_cons_self⟩, approvalCondition, hstep, rfl, rfl, hvars⟩

theorem approve_faithful_iff : ∃ (en : Entry) (v : Visit) (vars : ConditionVars), v.Evaluates en.template vars ∧
    let ghost := approve.enter (afterEvents approvedRun) (observed approvedRun).2
    (Json.getD (ghost.trigger en.runID) "files" (.arr [])).len? = some vars.fileCount ∧
      (Faithful ghost en.runID v vars ↔ TriggerAgrees ghost en.runID v) := by
  obtain ⟨en, hen, hvisit, hevaluates⟩ := approve_evaluates
  exact ⟨en, _, _, hevaluates,
    condition_variables_faithful_iff approvedRun approve en hen _ hvisit _ hevaluates⟩

/-- The condition counts no approval, right after one. -/
theorem approval_uncounted : ¬ ∀ (events : List Event) (e : Event),
    ∀ en ∈ e.entry (afterEvents events), ∀ v ∈ e.visits (afterEvents events),
      ∀ vars, v.Evaluates en.template vars →
        Faithful (e.enter (afterEvents events) (observed events).2) en.runID v vars := by
  intro h
  obtain ⟨en, hen, hvisit, hevaluates⟩ := approve_evaluates
  obtain ⟨-, ⟨ids, -, hlength, hmem⟩, -⟩ := h approvedRun approve en hen _ hvisit _ hevaluates
  rcases Event.entry_cases hen with ⟨_, _, hstart, -⟩ | ⟨_, _, _, id, a, run, -, -, happroves⟩
  · cases hstart
  · obtain ⟨a', ha', hrun, hstatus⟩ := happroves.decided_found
    have hid : id ∈ ids := (hmem id).2 ⟨a', ha', hrun, hstatus⟩
    rw [List.length_eq_zero_iff.1 hlength] at hid
    cases hid

end Dgraphai.Workflows
