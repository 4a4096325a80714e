import Dgraphai.WorkflowVisits

/-!
# What a running run waits for

A running run waits for exactly one approval request, of the step it is at. `Consistent` is the invariant
behind it, kept by every request as long as the templates that are started lead to no step of unknown
type: there `_advance` leaves the run running and asks nobody. A decision past the deadline raises, so what
it wrote is rolled back.
-/

namespace Dgraphai.Workflows

open Auth (Uuid)

variable {E : Env} {db db' db₁ : Db} {run run' : WorkflowRun} {template : WorkflowTemplate}
  {approval : ApprovalRequest} {id runID k : Uuid}

/-! ### Waiting -/

def Db.PendingOf (db : Db) (runID id : Uuid) (approval : ApprovalRequest) : Prop :=
  db.approvals id = some approval ∧ approval.runID = runID ∧ approval.status = .pending

/-- The request is for the step the run is at, an approval step. -/
def Db.AtStep (db : Db) (run : WorkflowRun) (approval : ApprovalRequest) : Prop :=
  ∃ template step, db.templates run.templateID = some template ∧
    template.stepAt run.currentStep = some step ∧ stepType step = .str "approval" ∧
      varchar 64 (stepID step run.currentStep) = some approval.stepID

/-- Exactly one request of the run is pending, and it is for its current step. -/
def Db.Waits (db : Db) (runID : Uuid) (run : WorkflowRun) : Prop :=
  ∃ id approval, db.PendingOf runID id approval ∧ db.AtStep run approval ∧
    ∀ id' approval', db.PendingOf runID id' approval' → id' = id

def Db.NotStuck (db : Db) : Prop :=
  ∀ id run, db.runs id = some run → run.status = .running → db.Waits id run

/-- A decision that passes the endpoint and reaches a pending request past its deadline. -/
def Event.Late (e : Event) (db : Db) (id : Uuid) (approval : ApprovalRequest) : Prop :=
  ∃ approvalID decision note, e.request = .decide approvalID decision note ∧
    (ApprovalStatus.ofDecision? decision).isSome ∧ HasPermission e.auth "actions:approve" ∧
      e.env.parseUuid approvalID = .ok id ∧ db.approvals id = some approval ∧ approval.status = .pending ∧
        approval.Expired e.env.now

def RunStatus.Terminal (status : RunStatus) : Prop := status ∈ [.complete, .rejected, .error]

/-- A late decision leaves its run in a terminal state. -/
def Event.LateEnds (e : Event) (db : Db) : Prop :=
  ∀ id approval, e.Late db id approval →
    ∀ run, (e.run db).runs approval.runID = some run → run.status.Terminal

/-! ### Templates without steps of unknown type -/

/-- The moves of a template, and from an approval step to the next. -/
def WorkflowTemplate.Follows (template : WorkflowTemplate) (p q : Int) : Prop :=
  template.LeadsTo p q ∨ ∃ step, template.stepAt p = some step ∧ stepType step = .str "approval" ∧ q = p + 1

/-- No step of unknown type can be reached from the first. -/
def WorkflowTemplate.AllKnown (template : WorkflowTemplate) : Prop :=
  ∀ p, Relation.ReflTransGen template.Follows 0 p → ∀ step, template.stepAt p = some step → StepKnown step

theorem allKnown_of_forall (h : ∀ step ∈ template.steps, StepKnown step) : template.AllKnown := by
  intro p _ step hstep
  obtain ⟨-, hget⟩ := stepAt_eq_some.1 hstep
  refine h step ?_
  unfold List.pyGet? at hget
  split_ifs at hget <;> exact List.mem_of_getElem? hget

/-- The template a request starts has no step of unknown type. -/
def Event.StartsKnown (e : Event) (db : Db) : Prop :=
  ∀ templateID context, e.request = .startRun templateID context →
    ∀ id template, e.env.parseUuid templateID = .ok id → db.templates id = some template → template.AllKnown

/-! ### The invariant -/

/-- The rows of the runs with this property are consistent. -/
structure Db.Consistent (P : Uuid → Prop) (db : Db) : Prop where
  waits : ∀ id run, P id → db.runs id = some run → run.status = .running → db.Waits id run
  running : ∀ id a, P a.runID → db.approvals id = some a → a.status = .pending →
    ∃ run, db.runs a.runID = some run ∧ run.status = .running
  known : ∀ id run, P id → db.runs id = some run → run.status = .running →
    ∃ template, db.templates run.templateID = some template ∧ template.AllKnown ∧
      Relation.ReflTransGen template.Follows 0 run.currentStep

/-- No request of the run is pending. -/
def Db.Idle (db : Db) (runID : Uuid) : Prop := ∀ id a, ¬ db.PendingOf runID id a

namespace Db.Consistent

variable {P : Uuid → Prop}

theorem ticked (h : db.Consistent P) (hticked : db.Ticked db') : db'.Consistent P := by
  obtain ⟨n, rfl⟩ := hticked
  exact ⟨h.waits, h.running, h.known⟩

/-- A new template. -/
theorem addTemplate {n : Nat} {names : List (Uuid × String)} (h : db.Consistent P)
    (hfree : db.templates id = none) :
    Db.Consistent P
      { db with ticks := n, templates := Function.update db.templates id (some template)
                templateNames := names } := by
  have hkept : ∀ k t, db.templates k = some t →
      Function.update db.templates id (some template) k = some t := by
    intro k t hk
    have hne : k ≠ id := by
      rintro rfl
      rw [hfree] at hk
      cases hk
    rw [Function.update_of_ne hne, hk]
  refine ⟨fun k run hP hrun hstatus => ?_, h.running, fun k run hP hrun hstatus => ?_⟩
  · obtain ⟨k', a, hpending, ⟨t, step, ht, hat⟩, hunique⟩ := h.waits k run hP hrun hstatus
    exact ⟨k', a, hpending, ⟨t, step, hkept _ t ht, hat⟩, hunique⟩
  · obtain ⟨t, ht, hknown⟩ := h.known k run hP hrun hstatus
    exact ⟨t, hkept _ t ht, hknown⟩

theorem except (h : db.Consistent P) : db.Consistent fun k => P k ∧ k ≠ runID :=
  ⟨fun k run hP => h.waits k run hP.1, fun k a hP => h.running k a hP.1, fun k run hP => h.known k run hP.1⟩

/-- A row that belongs to one run is no row of the others. -/
theorem setApproval (h : db.Consistent fun k => P k ∧ k ≠ runID)
    (hold : ∀ a, db.approvals id = some a → a.runID = runID) (hnew : approval.runID = runID) :
    (db.setApproval id approval).Consistent fun k => P k ∧ k ≠ runID := by
  have hpending : ∀ r, r ≠ runID → ∀ k a, (db.setApproval id approval).PendingOf r k a ↔ db.PendingOf r k a := by
    intro r hr k a
    by_cases hk : k = id
    · subst hk
      constructor
      · rintro ⟨ha, hrun, -⟩
        rw [Db.setApproval_self] at ha
        cases ha
        exact absurd (hrun.symm.trans hnew) hr
      · rintro ⟨ha, hrun, -⟩
        exact absurd (hrun.symm.trans (hold a ha)) hr
    · unfold Db.PendingOf
      rw [Db.setApproval_ne hk]
  refine ⟨fun k run hP hrun hstatus => ?_, fun k a hP ha hstatus => ?_, fun k run hP hrun => h.known k run hP hrun⟩
  · obtain ⟨k', a, hp, hat, hunique⟩ := h.waits k run hP hrun hstatus
    refine ⟨k', a, (hpending k hP.2 k' a).2 hp, hat, fun k'' a'' hp'' => ?_⟩
    exact hunique k'' a'' ((hpending k hP.2 k'' a'').1 hp'')
  · obtain ⟨ha', -, -⟩ := (hpending a.runID hP.2 k a).1 ⟨ha, rfl, hstatus⟩
    exact h.running k a hP ha' hstatus

theorem setRun (h : db.Consistent fun k => P k ∧ k ≠ runID) :
    (db.setRun runID run).Consistent fun k => P k ∧ k ≠ runID := by
  refine ⟨fun k r hP hr => ?_, fun k a hP ha hstatus => ?_, fun k r hP hr => ?_⟩
  · rw [Db.setRun_ne hP.2] at hr
    exact h.waits k r hP hr
  · obtain ⟨r, hr, hrunning⟩ := h.running k a hP ha hstatus
    exact ⟨r, (Db.setRun_ne hP.2).trans hr, hrunning⟩
  · rw [Db.setRun_ne hP.2] at hr
    exact h.known k r hP hr

/-- A run that ends, with no request pending. -/
theorem finish (h : db.Consistent fun k => P k ∧ k ≠ runID) (hidle : db.Idle runID)
    (hstatus : run.status ≠ .running) : (db.setRun runID run).Consistent P := by
  have hrest : (db.setRun runID run).Consistent fun k => P k ∧ k ≠ runID := h.setRun
  refine ⟨fun k r hP hr hrunning => ?_, fun k a hP ha hpending => ?_, fun k r hP hr hrunning => ?_⟩
  · by_cases hk : k = runID
    · subst hk
      rw [Db.setRun_self] at hr
      cases hr
      exact absurd hrunning hstatus
    · exact hrest.waits k r ⟨hP, hk⟩ hr hrunning
  · by_cases hk : a.runID = runID
    · exact absurd ⟨ha, hk, hpending⟩ (hidle k a)
    · exact hrest.running k a ⟨hP, hk⟩ ha hpending
  · by_cases hk : k = runID
    · subst hk
      rw [Db.setRun_self] at hr
      cases hr
      exact absurd hrunning hstatus
    · exact hrest.known k r ⟨hP, hk⟩ hr hrunning

/-- A run that asks for an approval of the step it is at. -/
theorem ask (h : db.Consistent fun k => P k ∧ k ≠ runID) (hidle : db.Idle runID)
    (hfree : db.approvals id = none) (hrun : approval.runID = runID) (hpending : approval.status = .pending)
    (hat : db.AtStep run approval) (hrunning : run.status = .running)
    (hknown : ∃ template, db.templates run.templateID = some template ∧ template.AllKnown ∧
      Relation.ReflTransGen template.Follows 0 run.currentStep) :
    ((db.setApproval id approval).setRun runID run).Consistent P := by
  have hold : ∀ a, db.approvals id = some a → a.runID = runID := by
    intro a ha
    rw [hfree] at ha
    cases ha
  have hrest : ((db.setApproval id approval).setRun runID run).Consistent fun k => P k ∧ k ≠ runID :=
    (h.setApproval hold hrun).setRun
  have hunique : ∀ k a, ((db.setApproval id approval).setRun runID run).PendingOf runID k a → k = id := by
    rintro k a ⟨ha, har, has⟩
    by_contra hk
    rw [Db.setRun_approvals, Db.setApproval_ne hk] at ha
    exact hidle k a ⟨ha, har, has⟩
  refine ⟨fun k r hP hr hr' => ?_, fun k a hP ha ha' => ?_, fun k r hP hr hr' => ?_⟩
  · by_cases hk : k = runID
    · subst hk
      rw [Db.setRun_self] at hr
      cases hr
      exact ⟨id, approval, ⟨Db.setApproval_self, hrun, hpending⟩, hat, hunique⟩
    · exact hrest.waits k r ⟨hP, hk⟩ hr hr'
  · by_cases hk : a.runID = runID
    · exact ⟨run, by rw [hk]; exact Db.setRun_self, hrunning⟩
    · exact hrest.running k a ⟨hP, hk⟩ ha ha'
  · by_cases hk : k = runID
    · subst hk
      rw [Db.setRun_self] at hr
      cases hr
      exact hknown
    · exact hrest.known k r ⟨hP, hk⟩ hr hr'

end Db.Consistent

/-! ### The walk of a request -/

/-- A walk that returns stopped at a step it came to by moves of the template. -/
theorem advance_stops {n : Nat} (h : advance E template runID n run db = (.ok run', db')) :
    ∃ p c db₁, Relation.ReflTransGen template.LeadsTo run.currentStep p ∧ db.Ticked db₁ ∧
      advanceStep E template runID { run with currentStep := p, context := c } db₁ = (.ok (.stop run'), db') := by
  induction n generalizing run db with
  | zero => exact absurd h Txn.raise_ne_ok
  | succ n ih =>
    rw [advance_succ] at h
    obtain ⟨o, db₁, hstep, h⟩ := Txn.bind_eq_ok.1 h
    cases o with
    | stop run₁ =>
      obtain ⟨rfl, rfl⟩ := Txn.pure_eq_ok.1 h
      exact ⟨run.currentStep, run.context, db, .refl, .refl db, hstep⟩
    | next run₁ =>
      obtain ⟨hmove, hticked, hrun₁⟩ := leadsTo_of_advanceStep hstep
      obtain ⟨p, c, db₂, hmoves, hticked₂, hstop⟩ := ih h
      refine ⟨p, c, db₂, .head hmove hmoves, hticked.trans hticked₂, ?_⟩
      rw [hrun₁] at hstop
      exact hstop

theorem reach_follows {p q : Int} (h : Relation.ReflTransGen template.LeadsTo p q) :
    Relation.ReflTransGen template.Follows p q := h.lift id fun _ _ hmove => .inl hmove

theorem Db.Idle.ticked (h : db.Idle runID) (hticked : db.Ticked db') : db'.Idle runID := by
  obtain ⟨n, rfl⟩ := hticked
  exact h

/-- What a request commits at the end of its walk is consistent again. -/
theorem consistent_of_advance {P : Uuid → Prop} {n : Nat} (h : db.Consistent fun k => P k ∧ k ≠ runID)
    (hidle : db.Idle runID) (hrunning : run.status = .running)
    (htemplate : db.templates run.templateID = some template) (hknown : template.AllKnown)
    (hreach : Relation.ReflTransGen template.Follows 0 run.currentStep)
    (hadvance : advance E template runID n run db = (.ok run', db')) (c : Json.Fields) :
    (db'.setRun runID { run' with context := c }).Consistent P := by
  obtain ⟨p, c', db₁, hmoves, hticked, hstop⟩ := advance_stops hadvance
  have hreach' : Relation.ReflTransGen template.Follows 0 p := hreach.trans (reach_follows hmoves)
  have h₁ := h.ticked hticked
  have hidle₁ := hidle.ticked hticked
  rcases advanceStep_eq_stop hstop with ⟨rfl, rfl⟩ | ⟨step, hstep, rfl, ⟨htype, hcreate⟩ | ⟨hunknown, -⟩⟩
  · refine h₁.finish hidle₁ ?_
    show RunStatus.complete ≠ .running
    decide
  · obtain ⟨db₂, id, approval, hticked₂, hfree, rfl, hrun, -, hpending, hstepID⟩ :=
      createApprovalRequest_eq_ok hcreate
    have htemplates : db₂.templates run.templateID = some template := by
      obtain ⟨n₁, rfl⟩ := hticked
      obtain ⟨n₂, rfl⟩ := hticked₂
      exact htemplate
    exact (h₁.ticked hticked₂).ask (hidle₁.ticked hticked₂) hfree hrun hpending
      ⟨template, step, htemplates, hstep, htype, hstepID⟩ hrunning ⟨template, htemplates, hknown, hreach'⟩
  · exact absurd (hknown p hreach' step hstep) hunknown

/-! ### Requests -/

theorem Db.Consistent.idle_of_setApproval {a : ApprovalRequest} (h : db.Consistent fun _ => True)
    (ha : db.approvals id = some a) (hpending : a.status = .pending)
    (hdecided : approval.status ≠ .pending) : (db.setApproval id approval).Idle a.runID := by
  obtain ⟨run, hrow, hrunning⟩ := h.running id a trivial ha hpending
  obtain ⟨k', b, hb, -, hunique⟩ := h.waits a.runID run trivial hrow hrunning
  have hid : id = k' := hunique id a ⟨ha, rfl, hpending⟩
  rintro k c ⟨hc, hcr, hcs⟩
  by_cases hk : k = id
  · subst hk
    rw [Db.setApproval_self] at hc
    cases hc
    exact hdecided hcs
  · rw [Db.setApproval_ne hk] at hc
    exact hk ((hunique k c ⟨hc, hcr, hcs⟩).trans hid.symm)

/-- The step lemma of the invariant. -/
theorem Event.run_consistent {e : Event} (hdb : db.WellFormed) (h : db.Consistent fun _ => True)
    (hknown : e.StartsKnown db) : (e.run db).Consistent fun _ => True := by
  have hcommits := e.run_commits db
  generalize e.run db = db' at hcommits
  cases hcommits with
  | nothing => exact h
  | template hfree => exact h.addTemplate hfree
  | rejection hopen hrun =>
    rename_i id approver a run note' approvalID note
    obtain ⟨-, ha, hpending, -⟩ := Db.openApproval_eq_some.1 hopen
    have hdecided : (a.decide .rejected approver note' e.env.now).status ≠ .pending := by
      show ApprovalStatus.rejected ≠ .pending
      decide
    have hidle := h.idle_of_setApproval ha hpending hdecided
    refine (h.except.setApproval ?_ rfl).finish hidle ?_
    · intro b hb
      rw [ha] at hb
      cases hb
      rfl
    · show RunStatus.rejected ≠ .running
      decide
  | walk hentry hadvance =>
    rename_i en run' db₂
    rcases Event.entry_cases hentry with
      ⟨templateID, context, hrequest, hstarts, hid⟩ | ⟨_, _, _, id, a, run, -, -, happroves⟩
    · obtain ⟨db₁, ⟨n, rfl⟩, hfree, hrow⟩ := hstarts.row
      have htemplate := hstarts.template
      have hall : en.template.AllKnown := hknown templateID context hrequest _ _ hid htemplate
      refine consistent_of_advance ?_ ?_ hstarts.status (by rw [hrow]; exact htemplate) hall ?_ hadvance _
      · rw [hrow]
        exact (h.ticked ⟨n, rfl⟩).except.setRun
      · rintro k b ⟨hb, hbr, -⟩
        exact hstarts.no_approval hdb hb hbr
      · rw [hstarts.first]
    · obtain ⟨approver, note, now, hdecided⟩ := happroves.decided
      have ha := happroves.found
      have hrunID := happroves.runID
      obtain ⟨run₁, hrun₁, hrunning⟩ := h.running id a trivial ha happroves.pending
      obtain rfl : run = run₁ := Option.some.inj (happroves.row.symm.trans hrun₁)
      obtain ⟨k, b, hb, ⟨t, step, ht, hstep, htype, -⟩, -⟩ := h.waits _ run trivial hrun₁ hrunning
      obtain ⟨t', ht', hall, hreach⟩ := h.known _ run trivial hrun₁ hrunning
      obtain rfl : t = t' := Option.some.inj (ht.symm.trans ht')
      obtain rfl : t = en.template := Option.some.inj (ht.symm.trans happroves.template)
      have hnext : en.run = run.next := happroves.next
      refine consistent_of_advance ?_ ?_ ?_ ?_ hall ?_ hadvance _
      · rw [hdecided, hrunID]
        refine h.except.setApproval ?_ rfl
        intro b hb
        rw [ha] at hb
        cases hb
        rfl
      · rw [hdecided, hrunID]
        refine h.idle_of_setApproval ha happroves.pending ?_
        show ApprovalStatus.approved ≠ .pending
        decide
      · rw [hnext]
        exact hrunning
      · rw [hnext, hdecided]
        exact happroves.template
      · rw [hnext]
        exact hreach.tail (.inr ⟨step, hstep, htype, rfl⟩)

theorem afterEvents_consistent {events : List Event}
    (h : ∀ pre e post, events = pre ++ e :: post → e.StartsKnown (afterEvents pre)) :
    (afterEvents events).Consistent fun _ => True := by
  induction events using List.reverseRecOn with
  | nil =>
    have hnone : ∀ id (run : WorkflowRun), ¬ (emptyDb.runs id = some run) := fun id run hrun => by cases hrun
    refine ⟨fun id run _ hrun => absurd hrun (hnone id run), fun id a _ ha => ?_,
      fun id run _ hrun => absurd hrun (hnone id run)⟩
    cases ha
  | append_singleton events e ih =>
    have hpre : (afterEvents events).Consistent fun _ => True := by
      refine ih fun pre e' post hsplit => h pre e' (post ++ [e]) ?_
      rw [hsplit, List.append_assoc, List.cons_append]
    have hrun : afterEvents (events ++ [e]) = e.run (afterEvents events) := by
      rw [afterEvents, List.foldl_append]
      rfl
    rw [hrun]
    exact Event.run_consistent (afterEvents_wellFormed events) hpre (h events e [] rfl)

/-! ### Late decisions -/

/-- A late decision raises, and everything it wrote is rolled back. -/
theorem Event.run_of_late {e : Event} {a : ApprovalRequest} (h : e.Late db id a) : e.run db = db := by
  obtain ⟨approvalID, decision, note, hrequest, -, -, hid, ha, hpending, hexpired⟩ := h
  rcases e.run_cases db with hrun | hbody
  · exact hrun
  · obtain ⟨E, auth, request⟩ := e
    cases hrequest
    obtain ⟨d, -, -, r, hok⟩ := body_decide_eq_ok.1 hbody
    obtain ⟨id', a', -, -, -, -, hopen, -⟩ := processApproval_eq_ok hok
    obtain ⟨hid', ha', -, hnot⟩ := Db.openApproval_eq_some.1 hopen
    cases hid.symm.trans hid'
    cases ha.symm.trans ha'
    exact absurd hexpired hnot

theorem consistent_of_append {events pre post : List Event} (hsplit : events = pre ++ post)
    (h : ∀ pre e post, events = pre ++ e :: post → e.StartsKnown (afterEvents pre)) :
    (afterEvents pre).Consistent fun _ => True := by
  refine afterEvents_consistent fun pre' e post' hpre => h pre' e (post' ++ post) ?_
  rw [hsplit, hpre, List.append_assoc, List.cons_append]

/-- In every history whose starts are of templates that lead to no step of unknown type, every running run
waits for exactly one request, of the step it is at. A decision leaves its run in a terminal state unless
it is late; late decisions never do. -/
theorem running_runs_wait (events : List Event)
    (h : ∀ pre e post, events = pre ++ e :: post → e.StartsKnown (afterEvents pre)) :
    (∀ pre post, events = pre ++ post → (afterEvents pre).NotStuck) ∧
      ∀ e : Event, e.LateEnds (afterEvents events) ↔ ∀ id a, ¬ e.Late (afterEvents events) id a := by
  refine ⟨fun pre post hsplit id run hrun hstatus => ?_, fun e => ⟨fun hends id a hlate => ?_, fun hnot id a hlate => ?_⟩⟩
  · exact (consistent_of_append hsplit h).waits id run trivial hrun hstatus
  · have hunchanged := Event.run_of_late hlate
    have hfound := hlate
    obtain ⟨_, _, _, -, -, -, -, ha, hpending, -⟩ := hfound
    obtain ⟨run, hrun, hrunning⟩ := (afterEvents_consistent h).running id a trivial ha hpending
    have hterminal := hends id a hlate run (by rw [hunchanged]; exact hrun)
    rw [hrunning] at hterminal
    simp [RunStatus.Terminal] at hterminal
  · exact absurd hlate (hnot id a)

/-- A run of one approval step. -/
theorem waitingRun_waits : (∀ pre post, waitingRun = pre ++ post → (afterEvents pre).NotStuck) ∧
    ∀ e : Event, e.LateEnds (afterEvents waitingRun) ↔ ∀ id a, ¬ e.Late (afterEvents waitingRun) id a := by
  refine running_runs_wait waitingRun ?_
  intro pre e post hsplit templateID context hrequest id template hid htemplate
  rcases pre with _ | ⟨e₁, _ | ⟨e₂, pre⟩⟩
  · cases hsplit
    cases hrequest
  · cases hsplit
    cases hrequest
    cases hid
    have hsteps : ((afterEvents (waitingRun.take 1)).templates "template").map (·.steps) =
        some [[("id", .str "step_1"), ("type", .str "approval")]] := by decide
    have hknown : ((afterEvents (waitingRun.take 1)).templates "template").map (·.steps) = some template.steps :=
      congrArg (Option.map (·.steps)) htemplate
    rw [hsteps] at hknown
    refine allKnown_of_forall ?_
    rw [← Option.some.inj hknown]
    decide
  · have hlength := congrArg List.length hsplit
    simp only [waitingRun, List.length_cons, List.length_append, List.length_nil] at hlength
    omega

/-! ### A step of unknown type -/

def startUnknown : List Event :=
  [⟨plainEnv, adminOf "a", .createTemplate ⟨"Wait", "", "manual", [], [[("type", .str "aproval")]]⟩⟩,
   ⟨plainEnv, adminOf "a", .startRun "template" []⟩]

theorem run_stuck : ¬ ∀ events : List Event, (afterEvents events).NotStuck ∧
    ∀ e : Event, e.LateEnds (afterEvents events) := by
  intro h
  have hrow : ((afterEvents startUnknown).runs "run").map (·.status) = some .running := by decide
  have hnone : (afterEvents startUnknown).approvals = emptyDb.approvals := rfl
  obtain ⟨run, hrun, hstatus⟩ := Option.map_eq_some_iff.1 hrow
  obtain ⟨id, a, ⟨ha, -⟩, -⟩ := (h startUnknown).1 "run" run hrun hstatus
  rw [hnone] at ha
  cases ha

end Dgraphai.Workflows
