import Dgraphai.WorkflowVisits

/-!
# Live actions and approvals

An action step with `dry_run` false is live. A walk that begins at an approval has that approval behind it;
the walk of `start_run` has none. So live actions are gated exactly as far as the walks of `start_run` meet
none (`live_actions_gated`).
-/

namespace Dgraphai.Workflows

open Auth (Uuid)

variable {E : Env} {db : Db}

/-- The step at a position is an action with `dry_run` false. -/
def WorkflowTemplate.LiveAt (template : WorkflowTemplate) (isZero : String → Bool) (p : Int) : Prop :=
  ∃ step config, template.stepAt p = some step ∧ stepType step = .str "action" ∧
    (stepConfig step).asDict = some config ∧ (Json.getD config "dry_run" (.bool true)).truthy isZero = false

/-- No live action can be reached from the first step without an approval step in between. -/
def WorkflowTemplate.Gated (template : WorkflowTemplate) (isZero : String → Bool) : Prop :=
  ∀ p, Relation.ReflTransGen template.LeadsTo 0 p → ¬ template.LiveAt isZero p

/-- At every live action the request executes, an approval request of the run is approved. -/
def Event.ActionsGated (e : Event) (db : Db) : Prop :=
  ∀ en ∈ e.entry db, ∀ v ∈ e.visits db, en.template.LiveAt e.env.isZero v.run.currentStep →
    ∃ id a, v.db.approvals id = some a ∧ a.runID = en.runID ∧ a.status = .approved

/-- The template a request starts is gated. -/
def Event.StartsGated (e : Event) (db : Db) : Prop :=
  ∀ templateID context, e.request = .startRun templateID context →
    ∀ id template, e.env.parseUuid templateID = .ok id → db.templates id = some template →
      template.Gated e.env.isZero

theorem Event.actionsGated_of_approves {e : Event} {en : Entry} {id : Uuid} {a : ApprovalRequest}
    {run : WorkflowRun} (hentry : e.entry db = some en) (h : en.Approves db id a run) : e.ActionsGated db := by
  intro en' hen v hv _
  obtain rfl : en = en' := Option.some.inj (hentry.symm.trans hen)
  obtain ⟨en'', hen'', hwalk⟩ := Event.mem_visits.1 hv
  obtain rfl : en = en'' := Option.some.inj (hentry.symm.trans hen'')
  obtain ⟨-, n, hticked⟩ := Visit.reach_of_mem hwalk
  obtain ⟨a', ha', hrun, hstatus⟩ := h.decided_found
  refine ⟨id, a', ?_, hrun, hstatus⟩
  rw [hticked]
  exact ha'

/-- A start is gated exactly where its walk meets no live action. -/
theorem Event.actionsGated_iff_of_starts {e : Event} {en : Entry} {context : Json.Fields}
    (hdb : db.WellFormed) (hentry : e.entry db = some en) (h : en.Starts db context) :
    e.ActionsGated db ↔ ∀ v ∈ e.visits db, ¬ en.template.LiveAt e.env.isZero v.run.currentStep := by
  constructor
  · intro hgated v hv hlive
    obtain ⟨id, a, ha, hrun, -⟩ := hgated en hentry v hv hlive
    obtain ⟨en', hen', hwalk⟩ := Event.mem_visits.1 hv
    obtain rfl : en = en' := Option.some.inj (hentry.symm.trans hen')
    obtain ⟨-, n, hticked⟩ := Visit.reach_of_mem hwalk
    rw [hticked] at ha
    exact h.no_approval hdb ha hrun
  · intro hnone en' hen v hv hlive
    obtain rfl : en = en' := Option.some.inj (hentry.symm.trans hen)
    exact absurd hlive (hnone v hv)

theorem Event.actionsGated_of_startsGated {e : Event} (hdb : db.WellFormed) (h : e.StartsGated db) :
    e.ActionsGated db := by
  intro en hen
  rcases Event.entry_cases hen with ⟨templateID, context, hrequest, hstarts, hid⟩ | ⟨_, _, _, id, a, run, -, -, happroves⟩
  · have hgated : ∀ v ∈ e.visits db, ¬ en.template.LiveAt e.env.isZero v.run.currentStep := by
      intro v hv
      obtain ⟨en', hen', hwalk⟩ := Event.mem_visits.1 hv
      obtain rfl : en = en' := Option.some.inj (hen.symm.trans hen')
      obtain ⟨hmoves, -⟩ := Visit.reach_of_mem hwalk
      rw [hstarts.first] at hmoves
      exact h templateID context hrequest en.run.templateID en.template hid hstarts.template _ hmoves
    exact (Event.actionsGated_iff_of_starts hdb hen hstarts).2 hgated en hen
  · exact Event.actionsGated_of_approves hen happroves en hen

/-- In every history whose starts are of gated templates, every live action is executed behind an approval
of its run. And a start executes its actions with no approval behind it: it is gated exactly where its walk
meets no live action. -/
theorem live_actions_gated (events : List Event) :
    ((∀ pre e post, events = pre ++ e :: post → e.StartsGated (afterEvents pre)) →
      ∀ pre e post, events = pre ++ e :: post → e.ActionsGated (afterEvents pre)) ∧
    ∀ (e : Event) (templateID : String) (context : Json.Fields), e.request = .startRun templateID context →
      (e.ActionsGated (afterEvents events) ↔ ∀ en ∈ e.entry (afterEvents events),
        ∀ v ∈ e.visits (afterEvents events), ¬ en.template.LiveAt e.env.isZero v.run.currentStep) := by
  refine ⟨fun h pre e post hsplit => ?_, fun e templateID context hrequest => ?_⟩
  · exact Event.actionsGated_of_startsGated (afterEvents_wellFormed pre) (h pre e post hsplit)
  · rcases hentry : e.entry (afterEvents events) with _ | en
    · refine iff_of_true (fun en hen => ?_) fun en hen => ?_
      · rw [hentry] at hen
        cases hen
      · cases hen
    · rcases Event.entry_cases hentry with ⟨_, _, -, hstarts, -⟩ | ⟨_, _, _, _, _, _, hdecide, -⟩
      · rw [Event.actionsGated_iff_of_starts (afterEvents_wellFormed events) hentry hstarts]
        simp
      · rw [hrequest] at hdecide
        cases hdecide

/-! ### A template that deletes without an approval -/

def deletingStep : Json.Fields :=
  [("id", .str "step_1"), ("type", .str "action"),
    ("config", .obj [("action_type", .str "delete"), ("dry_run", .bool false)])]

def deletingTemplate : List Event :=
  [⟨plainEnv, adminOf "a", .createTemplate ⟨"Clean up", "", "manual", [], [deletingStep]⟩⟩]

def startDeleting : Event :=
  ⟨plainEnv, adminOf "a", .startRun "template" [("files", .arr [.obj [("path", .str "smb://nas/a")]])]⟩

/-- A run of that template deletes a file, and nobody approved anything. -/
theorem deletes_unapproved : ¬ ∀ (events : List Event) (e : Event), e.ActionsGated (afterEvents events) := by
  intro h
  have hentry : (startDeleting.entry (afterEvents deletingTemplate)).map
      (fun en => (en.run.currentStep, en.template.steps)) = some (0, [deletingStep]) := by decide
  obtain ⟨en, hen, hproj⟩ := Option.map_eq_some_iff.1 hentry
  obtain ⟨hfirst, hsteps⟩ := Prod.mk.inj hproj
  have hvisit : (⟨en.run, en.db, none⟩ : Visit) ∈ startDeleting.visits (afterEvents deletingTemplate) :=
    Event.mem_visits.2 ⟨en, hen, List.mem_cons_self⟩
  have hlive : en.template.LiveAt startDeleting.env.isZero en.run.currentStep := by
    refine ⟨deletingStep, [("action_type", .str "delete"), ("dry_run", .bool false)], ?_, rfl, rfl, rfl⟩
    rw [hfirst, stepAt_eq_some, hsteps]
    decide
  rcases Event.entry_cases hen with ⟨_, _, -, hstarts, -⟩ | ⟨_, _, _, _, _, _, hdecide, -⟩
  · have hwell := afterEvents_wellFormed deletingTemplate
    exact (Event.actionsGated_iff_of_starts hwell hen hstarts).1 (h deletingTemplate startDeleting) _ hvisit hlive
  · cases hdecide

end Dgraphai.Workflows
