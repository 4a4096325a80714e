import Dgraphai.WorkflowPending

/-!
# Templates without jumps

Where no condition names an `else_step`, a walk goes from each step to the next, and no further than the first
step of unknown type. There it stops with the run as it is and nobody asked, so nothing takes the run on. `Held`
says it of all runs of such a template (`afterEvents_held`), `run_runs_of_idle` that only a pending request lets a
run go on.
-/

namespace Dgraphai.Workflows

open Auth (Uuid)

variable {E : Env} {db db' : Db} {t template : WorkflowTemplate} {run run' : WorkflowRun} {approval : ApprovalRequest}
  {p q : ℤ} {id runID τ k r : Uuid} {P : Uuid → Prop}

/-! ### Where a walk can be -/

/-- No condition names an `else_step`. -/
def WorkflowTemplate.Straight (t : WorkflowTemplate) : Prop :=
  ∀ step ∈ t.steps, ∀ config, (stepConfig step).asDict = some config → Json.getD config "else_step" .null = .null

/-- How many steps stand in front of the first of unknown type. -/
def WorkflowTemplate.front (t : WorkflowTemplate) : ℕ := (t.steps.takeWhile fun s => StepKnown s).length

theorem stepAt_natCast (n : ℕ) : t.stepAt n = t.steps[n]? := by
  unfold WorkflowTemplate.stepAt List.pyGet?
  by_cases h : t.steps.length ≤ n
  · rw [if_pos (by exact_mod_cast h), List.getElem?_eq_none h]
  · rw [if_neg (by exact_mod_cast h)]
    simp

theorem front_le : t.front ≤ t.steps.length := (List.takeWhile_prefix _).length_le

/-- The steps in front of the first of unknown type are known, and it is not. -/
theorem known_iff_lt_front {n : ℕ} (hn : n ≤ t.front) {step : Json.Fields} (h : t.stepAt n = some step) :
    StepKnown step ↔ n < t.front := by
  rw [stepAt_natCast] at h
  unfold WorkflowTemplate.front at hn ⊢
  generalize t.steps = steps at h hn ⊢
  induction steps generalizing n with
  | nil => cases h
  | cons s steps ih =>
    by_cases hs : StepKnown s
    · rw [List.takeWhile_cons_of_pos (by simpa using hs)] at hn ⊢
      cases n with
      | zero =>
        cases h
        simpa using hs
      | succ n => simpa using ih h (by simpa using hn)
    · rw [List.takeWhile_cons_of_neg (by simpa using hs)] at hn ⊢
      obtain rfl : n = 0 := by simpa using hn
      cases h
      simpa using hs

theorem exists_stepAt_front (h : t.front < t.steps.length) :
    ∃ step, t.stepAt t.front = some step ∧ ¬ StepKnown step := by
  have hstep : t.stepAt t.front = some t.steps[t.front] := by
    rw [stepAt_natCast, List.getElem?_eq_getElem h]
  exact ⟨_, hstep, fun hknown => Nat.lt_irrefl _ ((known_iff_lt_front le_rfl hstep).1 hknown)⟩

/-- Every move is to the next position, from a step of known type. -/
theorem WorkflowTemplate.Straight.of_leadsTo (h : t.Straight) (hmove : t.LeadsTo p q) (hp : 0 ≤ p)
    (hfront : p ≤ t.front) : p < t.front ∧ q = p + 1 := by
  obtain ⟨step, hstep, hnext⟩ := hmove
  obtain ⟨n, rfl⟩ := Int.eq_ofNat_of_zero_le hp
  have hknown : StepKnown step := by
    rcases hnext with ⟨htype, -⟩ | ⟨htype, -⟩
    · exact List.mem_cons_of_mem _ htype
    · simp [StepKnown, htype]
  have hlt := (known_iff_lt_front (by exact_mod_cast hfront) hstep).1 hknown
  refine ⟨by exact_mod_cast hlt, ?_⟩
  rcases hnext with ⟨-, hq⟩ | ⟨-, config, hconfig, helse⟩
  · exact hq
  · rw [stepAt_natCast] at hstep
    rw [h step (List.mem_of_getElem? hstep) config hconfig] at helse
    cases helse

theorem WorkflowTemplate.Straight.of_reach (h : t.Straight) (hmoves : Relation.ReflTransGen t.LeadsTo p q)
    (hp : 0 ≤ p) (hfront : p ≤ t.front) : p ≤ q ∧ q ≤ t.front := by
  induction hmoves with
  | refl => exact ⟨le_rfl, hfront⟩
  | tail _ hmove ih =>
    obtain ⟨hle, hq⟩ := ih
    obtain ⟨hlt, rfl⟩ := h.of_leadsTo hmove (by omega) hq
    omega

/-! ### What a request changes of other runs -/

/-- A request that belongs to one run is none of the others. -/
theorem Db.pendingOf_setApproval (hold : ∀ a, db.approvals id = some a → a.runID = runID)
    (hnew : approval.runID = runID) (hr : r ≠ runID) {a : ApprovalRequest} :
    (db.setApproval id approval).PendingOf r k a ↔ db.PendingOf r k a := by
  by_cases hk : k = id
  · subst hk
    refine iff_of_false ?_ ?_
    · rintro ⟨ha, hrun, -⟩
      rw [Db.setApproval_self] at ha
      cases ha
      exact hr (hrun.symm.trans hnew)
    · rintro ⟨ha, hrun, -⟩
      exact hr (hrun.symm.trans (hold a ha))
  · unfold Db.PendingOf
    rw [Db.setApproval_ne hk]

theorem Db.pendingOf_decide {a b : ApprovalRequest} {decision : ApprovalStatus} {approver : Uuid} {note : Option String}
    {now : Auth.Time} (ha : db.approvals id = some a) (hr : r ≠ a.runID) :
    (db.setApproval id (a.decide decision approver note now)).PendingOf r k b ↔ db.PendingOf r k b := by
  have hold : ∀ c, db.approvals id = some c → c.runID = a.runID := by
    intro c hc
    rw [ha] at hc
    cases hc
    rfl
  exact Db.pendingOf_setApproval hold (show (a.decide decision approver note now).runID = a.runID from rfl) hr

/-- A walk changes its own run and may ask for an approval of it. -/
theorem advance_frame {n : ℕ} (h : advance E template runID n run db = (.ok run', db')) :
    run'.templateID = run.templateID ∧ db'.runs = db.runs ∧ db'.templates = db.templates ∧
      ∀ r, r ≠ runID → ∀ k a, db'.PendingOf r k a ↔ db.PendingOf r k a := by
  obtain ⟨p, c, db₁, -, ⟨m, rfl⟩, hstop⟩ := advance_stops h
  rcases advanceStep_eq_stop hstop with ⟨rfl, rfl⟩ | ⟨step, -, rfl, ⟨-, hcreate⟩ | ⟨-, rfl⟩⟩
  · exact ⟨rfl, rfl, rfl, fun _ _ _ _ => .rfl⟩
  · obtain ⟨db₂, id, approval, ⟨m', rfl⟩, hfree, rfl, hrun, -⟩ := createApprovalRequest_eq_ok hcreate
    refine ⟨rfl, rfl, rfl, fun r hr k a => ?_⟩
    refine Db.pendingOf_setApproval (fun b hb => ?_) hrun hr
    rw [hfree] at hb
    cases hb
  · exact ⟨rfl, rfl, rfl, fun _ _ _ _ => .rfl⟩

/-- A run that waits for nothing keeps its row, and waits for nothing after it. -/
theorem Event.run_runs_of_idle {e : Event} (hrow : db.runs id = some run)
    (hidle : db.Idle id) : (e.run db).runs id = some run ∧ (e.run db).Idle id := by
  have hcommits := e.run_commits db
  generalize e.run db = db' at hcommits
  cases hcommits with
  | nothing => exact ⟨hrow, hidle⟩
  | template hfree => exact ⟨hrow, hidle⟩
  | rejection hopen hrun =>
    rename_i k approver a run₁ note' approvalID note
    obtain ⟨-, ha, hpending, -⟩ := Db.openApproval_eq_some.1 hopen
    have hne : id ≠ a.runID := fun hid => hidle k a ⟨ha, hid.symm, hpending⟩
    exact ⟨(Db.setRun_ne hne).trans hrow, fun k' b hb => hidle k' b ((Db.pendingOf_decide ha hne).1 hb)⟩
  | walk hentry hadvance =>
    rename_i en run' db₂
    obtain ⟨-, hruns, -, hpending⟩ := advance_frame hadvance
    rcases Event.entry_cases hentry with ⟨templateID, context, -, hstarts, -⟩ | ⟨_, _, _, k, a, run₁, -, -, happroves⟩
    · obtain ⟨db₁, ⟨n, rfl⟩, hfree, hstart⟩ := hstarts.row
      have hne : id ≠ en.runID := by
        rintro rfl
        cases hrow.symm.trans hfree
      refine ⟨?_, fun k b hb => hidle k b ?_⟩
      · rw [Db.setRun_ne hne, hruns, hstart, Db.setRun_ne hne]
        exact hrow
      · have hold := (hpending id hne k b).1 hb
        rw [hstart] at hold
        exact hold
    · obtain ⟨approver, note, now, hdecided⟩ := happroves.decided
      have ha := happroves.found
      have hne : id ≠ en.runID := by
        rintro rfl
        exact hidle k a ⟨ha, happroves.runID.symm, happroves.pending⟩
      refine ⟨?_, fun k' b hb => ?_⟩
      · rw [Db.setRun_ne hne, hruns, hdecided]
        exact hrow
      · have hold := (hpending id hne k' b).1 hb
        rw [hdecided] at hold
        exact hidle k' b ((Db.pendingOf_decide ha (happroves.runID ▸ hne)).1 hold)

/-! ### The invariant -/

/-- A run of a straight template: at the first step of unknown type it is running, and it waits for nothing but
one request of a step in front of that. -/
structure Db.HoldsRun (db : Db) (t : WorkflowTemplate) (id : Uuid) (run : WorkflowRun) : Prop where
  lower : 0 ≤ run.currentStep
  upper : run.currentStep ≤ t.front
  running : run.currentStep = t.front → t.front < t.steps.length → run.status = .running
  asks : ∀ k a, db.PendingOf id k a →
    run.currentStep < t.front ∧ run.status = .running ∧ ∀ k' a', db.PendingOf id k' a' → k' = k

/-- The rows of the runs of a template, as far as the runs have a property. -/
structure Db.Held (τ : Uuid) (t : WorkflowTemplate) (P : Uuid → Prop) (db : Db) : Prop where
  template : db.templates τ = some t
  runs : ∀ id run, P id → db.runs id = some run → run.templateID = τ → db.HoldsRun t id run

namespace Db.HoldsRun

theorem congr (h : db.HoldsRun t id run) (hpending : ∀ k a, db'.PendingOf id k a ↔ db.PendingOf id k a) :
    db'.HoldsRun t id run := by
  refine ⟨h.lower, h.upper, h.running, fun k a ha => ?_⟩
  obtain ⟨hlt, hrunning, hunique⟩ := h.asks k a ((hpending k a).1 ha)
  exact ⟨hlt, hrunning, fun k' a' ha' => hunique k' a' ((hpending k' a').1 ha')⟩

theorem of_idle (hidle : db.Idle id) (hlower : 0 ≤ run.currentStep) (hupper : run.currentStep ≤ t.front)
    (hrunning : run.currentStep = t.front → t.front < t.steps.length → run.status = .running) :
    db.HoldsRun t id run :=
  ⟨hlower, hupper, hrunning, fun k a ha => absurd ha (hidle k a)⟩

/-- At the first step of unknown type a run waits for nothing. -/
theorem idle (h : db.HoldsRun t id run) (hfront : run.currentStep = t.front) : db.Idle id := by
  intro k a ha
  obtain ⟨hlt, -⟩ := h.asks k a ha
  omega

/-- A decision leaves nothing else to wait for. -/
theorem idle_of_setApproval {a : ApprovalRequest} (h : db.HoldsRun t runID run) (ha : db.PendingOf runID id a)
    (hdecided : approval.status ≠ .pending) : (db.setApproval id approval).Idle runID := by
  obtain ⟨-, -, hunique⟩ := h.asks id a ha
  rintro k b ⟨hb, hbr, hbs⟩
  by_cases hk : k = id
  · subst hk
    rw [Db.setApproval_self] at hb
    cases hb
    exact hdecided hbs
  · rw [Db.setApproval_ne hk] at hb
    exact hk (hunique k b ⟨hb, hbr, hbs⟩)

end Db.HoldsRun

namespace Db.Held

theorem except (h : db.Held τ t P) : db.Held τ t fun k => P k ∧ k ≠ runID :=
  ⟨h.template, fun id run hP => h.runs id run hP.1⟩

/-- Rows of one run may change. -/
theorem frame (h : db.Held τ t fun k => P k ∧ k ≠ runID) (htemplate : db'.templates τ = some t)
    (hruns : ∀ r, r ≠ runID → db'.runs r = db.runs r)
    (hpending : ∀ r, r ≠ runID → ∀ k a, db'.PendingOf r k a ↔ db.PendingOf r k a) :
    db'.Held τ t fun k => P k ∧ k ≠ runID := by
  refine ⟨htemplate, fun id run hP hrun hτ => ?_⟩
  rw [hruns id hP.2] at hrun
  exact (h.runs id run hP hrun hτ).congr (hpending id hP.2)

theorem setRun (h : db.Held τ t fun k => P k ∧ k ≠ runID) :
    (db.setRun runID run).Held τ t fun k => P k ∧ k ≠ runID :=
  h.frame h.template (fun _ hr => Db.setRun_ne hr) fun _ _ _ _ => .rfl

theorem decide {a : ApprovalRequest} {decision : ApprovalStatus} {approver : Uuid} {note : Option String}
    {now : Auth.Time} (h : db.Held τ t fun k => P k ∧ k ≠ a.runID) (ha : db.approvals id = some a) :
    (db.setApproval id (a.decide decision approver note now)).Held τ t fun k => P k ∧ k ≠ a.runID :=
  h.frame h.template (fun _ _ => rfl) fun _ hr _ _ => Db.pendingOf_decide ha hr

/-- The run that was left out. -/
theorem join (h : db.Held τ t fun k => P k ∧ k ≠ runID)
    (hrun : ∀ run, db.runs runID = some run → run.templateID = τ → db.HoldsRun t runID run) : db.Held τ t P := by
  refine ⟨h.template, fun id run hP hrow hτ => ?_⟩
  by_cases hid : id = runID
  · subst hid
    exact hrun run hrow hτ
  · exact h.runs id run ⟨hP, hid⟩ hrow hτ

end Db.Held

/-! ### One request -/

/-- Where the walk of a run that waits for nothing leaves it. -/
theorem holdsRun_of_advance {n : ℕ} (hstraight : t.Straight) (hidle : db.Idle runID)
    (hrunning : run.status = .running) (hlower : 0 ≤ run.currentStep) (hupper : run.currentStep ≤ t.front)
    (h : advance E t runID n run db = (.ok run', db')) : db'.HoldsRun t runID run' := by
  obtain ⟨p, c, db₁, hmoves, hticked, hstop⟩ := advance_stops h
  obtain ⟨hle, hfront⟩ := hstraight.of_reach hmoves hlower hupper
  have hidle₁ := hidle.ticked hticked
  rcases advanceStep_eq_stop hstop with ⟨rfl, rfl⟩ | ⟨step, hstep, rfl, ⟨htype, hcreate⟩ | ⟨-, rfl⟩⟩
  · refine .of_idle hidle₁ (hlower.trans hle) hfront fun hp hlen => ?_
    -- at a step of unknown type the walk does not complete the run
    obtain ⟨step, hstep, hunknown⟩ := exists_stepAt_front hlen
    replace hp : p = t.front := hp
    subst hp
    simp only [StepKnown, List.mem_cons, List.not_mem_nil, or_false, not_or] at hunknown
    obtain ⟨happroval, haction, hnotify, hcondition⟩ := hunknown
    rw [advanceStep_of_stepAt hstep, if_neg happroval, if_neg haction, if_neg hnotify, if_neg hcondition] at hstop
    obtain ⟨hstopped, -⟩ := Txn.pure_eq_ok.1 hstop
    have hstatus := congrArg WorkflowRun.status (Outcome.stop.inj hstopped)
    exact hstatus.symm.trans hrunning
  · obtain ⟨db₂, id, approval, hticked₂, -, rfl, hrun, -⟩ := createApprovalRequest_eq_ok hcreate
    have hidle₂ := hidle₁.ticked hticked₂
    obtain ⟨m, rfl⟩ := Int.eq_ofNat_of_zero_le (hlower.trans hle)
    have hlt : m < t.front :=
      (known_iff_lt_front (by exact_mod_cast hfront) hstep).1 (by simp [StepKnown, htype])
    have hid : ∀ k a, (db₂.setApproval id approval).PendingOf runID k a → k = id := by
      rintro k a ⟨ha, har, has⟩
      by_contra hk
      rw [Db.setApproval_ne hk] at ha
      exact hidle₂ k a ⟨ha, har, has⟩
    refine ⟨hlower.trans hle, hfront, fun _ _ => hrunning, fun k a ha => ⟨Int.ofNat_lt.2 hlt, hrunning, ?_⟩⟩
    intro k' a' ha'
    exact (hid k' a' ha').trans (hid k a ha).symm
  · exact .of_idle hidle₁ (hlower.trans hle) hfront fun _ _ => hrunning

/-- What a request commits at the end of its walk. -/
theorem held_of_advance {n : ℕ} (hstraight : t.Straight) (h : db.Held τ t fun k => P k ∧ k ≠ runID)
    (hadvance : advance E template runID n run db = (.ok run', db'))
    (hrun : run.templateID = τ → template = t ∧ db.Idle runID ∧ run.status = .running ∧ 0 ≤ run.currentStep ∧
      run.currentStep ≤ t.front) (c : Json.Fields) :
    (db'.setRun runID { run' with context := c }).Held τ t P := by
  obtain ⟨hkept, hruns, htemplates, hpending⟩ := advance_frame hadvance
  have hrest : db'.Held τ t fun k => P k ∧ k ≠ runID :=
    h.frame (htemplates ▸ h.template) (fun r _ => by rw [hruns]) hpending
  refine hrest.setRun.join fun row hrow hτ => ?_
  rw [Db.setRun_self] at hrow
  cases hrow
  obtain ⟨rfl, hidle, hrunning, hlower, hupper⟩ := hrun (hkept.symm.trans hτ)
  have hleft := holdsRun_of_advance hstraight hidle hrunning hlower hupper hadvance
  exact ⟨hleft.lower, hleft.upper, hleft.running, hleft.asks⟩

/-- The step lemma of the invariant. -/
theorem Event.run_held {e : Event} (hstraight : t.Straight) (hdb : db.WellFormed) (h : db.Held τ t fun _ => True) :
    (e.run db).Held τ t fun _ => True := by
  have hcommits := e.run_commits db
  generalize e.run db = db' at hcommits
  cases hcommits with
  | nothing => exact h
  | template hfree =>
    rename_i n id t' names
    have hne : τ ≠ id := by
      rintro rfl
      cases hfree.symm.trans h.template
    refine ⟨(Function.update_of_ne hne _ _).trans h.template, fun k run hP hrun hτ => ?_⟩
    exact (h.runs k run hP hrun hτ).congr fun _ _ => .rfl
  | rejection hopen hrun =>
    rename_i id approver a run note' approvalID note
    obtain ⟨-, ha, hpending, -⟩ := Db.openApproval_eq_some.1 hopen
    refine (h.except.decide ha).setRun.join fun row hrow hτ => ?_
    rw [Db.setRun_self] at hrow
    cases hrow
    have hheld := h.runs a.runID run trivial hrun hτ
    obtain ⟨hlt, -⟩ := hheld.asks id a ⟨ha, rfl, hpending⟩
    refine .of_idle ?_ hheld.lower hheld.upper fun hfront _ => absurd hfront hlt.ne
    refine hheld.idle_of_setApproval ⟨ha, rfl, hpending⟩ ?_
    show ApprovalStatus.rejected ≠ .pending
    decide
  | walk hentry hadvance =>
    rename_i en run' db₂
    rcases Event.entry_cases hentry with ⟨templateID, context, -, hstarts, -⟩ | ⟨_, _, _, id, a, run, -, -, happroves⟩
    · obtain ⟨db₁, ⟨n, rfl⟩, -, hrow⟩ := hstarts.row
      have hbegun : en.db.Held τ t fun k => True ∧ k ≠ en.runID := by
        have hticked : Db.Held τ t (fun k => True ∧ k ≠ en.runID) { db with ticks := n } :=
          h.except.frame h.template (fun _ _ => rfl) fun _ _ _ _ => .rfl
        rw [hrow]
        exact hticked.setRun
      refine held_of_advance hstraight hbegun hadvance (fun hτ => ?_) _
      have htemplate := hstarts.template
      rw [hτ, h.template] at htemplate
      refine ⟨(Option.some.inj htemplate).symm, fun k b hb => ?_, hstarts.status, hstarts.first.ge, ?_⟩
      · exact hstarts.no_approval hdb hb.1 hb.2.1
      · rw [hstarts.first]
        exact Int.natCast_nonneg _
    · obtain ⟨approver, note, now, hdecided⟩ := happroves.decided
      have ha : db.PendingOf en.runID id a := ⟨happroves.found, happroves.runID.symm, happroves.pending⟩
      have hnext : en.run = run.next := happroves.next
      have hbegun : en.db.Held τ t fun k => True ∧ k ≠ en.runID := by
        rw [hdecided, happroves.runID]
        exact h.except.decide happroves.found
      refine held_of_advance hstraight hbegun hadvance (fun hτ => ?_) _
      rw [hnext] at hτ
      have htemplate := happroves.template
      have hrow := happroves.row
      rw [show run.templateID = τ from hτ, h.template] at htemplate
      rw [← happroves.runID] at hrow
      have hheld := h.runs en.runID run trivial hrow hτ
      obtain ⟨hlt, hrunning, -⟩ := hheld.asks id a ha
      refine ⟨(Option.some.inj htemplate).symm, ?_, ?_, ?_, ?_⟩
      · rw [hdecided]
        refine hheld.idle_of_setApproval ha ?_
        show ApprovalStatus.approved ≠ .pending
        decide
      · rw [hnext]
        exact hrunning
      · rw [hnext]
        exact Int.le_add_one hheld.lower
      · rw [hnext]
        exact hlt

/-! ### Histories -/

/-- Every run is of a template that is there. -/
def Db.Referenced (db : Db) : Prop := ∀ id run, db.runs id = some run → (db.templates run.templateID).isSome

theorem Event.run_referenced {e : Event} (h : db.Referenced) : (e.run db).Referenced := by
  have hcommits := e.run_commits db
  generalize e.run db = db' at hcommits
  cases hcommits with
  | nothing => exact h
  | template hfree =>
    rename_i n id t' names
    intro k run hrun
    show (Function.update db.templates id (some t') run.templateID).isSome
    by_cases hk : run.templateID = id
    · rw [hk, Function.update_self]
      rfl
    · rw [Function.update_of_ne hk]
      exact h k run hrun
  | rejection hopen hrun =>
    rename_i id approver a run note' approvalID note
    intro k row hrow
    by_cases hk : k = a.runID
    · subst hk
      rw [Db.setRun_self] at hrow
      cases hrow
      exact h _ run hrun
    · rw [Db.setRun_ne hk] at hrow
      exact h k row hrow
  | walk hentry hadvance =>
    rename_i en run' db₂
    obtain ⟨hkept, hruns, htemplates, -⟩ := advance_frame hadvance
    intro k row hrow
    show (db₂.templates row.templateID).isSome
    rw [htemplates]
    rcases Event.entry_cases hentry with ⟨templateID, context, -, hstarts, -⟩ | ⟨_, _, _, id, a, run, -, -, happroves⟩
    · obtain ⟨db₁, ⟨n, rfl⟩, -, hstart⟩ := hstarts.row
      have hsame : en.db.templates = db.templates := by
        rw [hstart]
        rfl
      rw [hsame]
      by_cases hk : k = en.runID
      · subst hk
        rw [Db.setRun_self] at hrow
        cases hrow
        rw [show ({ run' with context := en.run.context } : WorkflowRun).templateID = en.run.templateID from hkept,
          hstarts.template]
        rfl
      · rw [Db.setRun_ne hk, hruns, hstart, Db.setRun_ne hk] at hrow
        exact h k row hrow
    · obtain ⟨approver, note, now, hdecided⟩ := happroves.decided
      have hsame : en.db.templates = db.templates := by
        rw [hdecided]
        rfl
      rw [hsame]
      by_cases hk : k = en.runID
      · subst hk
        rw [Db.setRun_self] at hrow
        cases hrow
        rw [show ({ run' with context := en.run.context } : WorkflowRun).templateID = en.run.templateID from hkept,
          happroves.next, show run.next.templateID = run.templateID from rfl, happroves.template]
        rfl
      · rw [Db.setRun_ne hk, hruns, hdecided] at hrow
        exact h k row hrow

theorem afterEvents_referenced (events : List Event) : (afterEvents events).Referenced :=
  Runs.inv_foldl Event.run Db.Referenced (fun _ _ h => Event.run_referenced h) (fun _ _ h => by cases h) events

/-- What `create_template` stores under a key that was free. -/
theorem Event.template_of_run {e : Event} {req : CreateTemplateRequest} (hrequest : e.request = .createTemplate req)
    (hfree : db.templates τ = none) (ht : (e.run db).templates τ = some t) :
    t.steps = req.steps ∧ (e.run db).runs = db.runs := by
  rcases e.run_cases db with hrun | hbody
  · rw [hrun] at ht
    cases hfree.symm.trans ht
  obtain ⟨E, auth, request⟩ := e
  cases hrequest
  obtain ⟨r, db₁, hok, hp⟩ := Txn.bind_eq_ok.1 hbody
  obtain ⟨-, hdb⟩ := Txn.pure_eq_ok.1 hp
  obtain ⟨-, hok⟩ := Txn.raiseIf_bind_eq_ok.1 hok
  have hadd := Txn.mapErr_eq_ok.1 hok
  simp only [addTemplate, Txn.ofOption_bind_eq_ok, Txn.read_bind_eq_ok, Txn.raiseIf_bind_eq_ok] at hadd
  obtain ⟨name, -, description, -, triggerType, -, -, hadd⟩ := hadd
  obtain ⟨id, db₂, hid, hadd⟩ := Txn.bind_eq_ok.1 hadd
  obtain ⟨⟨n, rfl⟩, -⟩ := freshID_eq_ok hid
  rw [Txn.write_bind_eq_ok] at hadd
  obtain ⟨-, rfl⟩ := Txn.pure_eq_ok.1 hadd
  rw [← hdb] at ht ⊢
  refine ⟨?_, rfl⟩
  by_cases hτ : τ = id
  · subst hτ
    have hnew := (Function.update_self _ _ _).symm.trans ht
    cases hnew
    rfl
  · have hold := (Function.update_of_ne hτ _ _).symm.trans ht
    cases hfree.symm.trans hold

theorem afterEvents_append (pre post : List Event) : afterEvents (pre ++ post) = post.foldl Event.run (afterEvents pre) :=
  List.foldl_append

/-- A template without jumps holds its runs from its creation on. -/
theorem afterEvents_held {pre post : List Event} {e : Event} {req : CreateTemplateRequest}
    (hrequest : e.request = .createTemplate req) (hfree : (afterEvents pre).templates τ = none)
    (ht : (e.run (afterEvents pre)).templates τ = some t) (hstraight : t.Straight) :
    (afterEvents (pre ++ e :: post)).Held τ t fun _ => True := by
  have hfirst : (e.run (afterEvents pre)).Held τ t fun _ => True := by
    refine ⟨ht, fun id run _ hrun hτ => ?_⟩
    rw [(Event.template_of_run hrequest hfree ht).2] at hrun
    have hthere := afterEvents_referenced pre id run hrun
    rw [hτ, hfree] at hthere
    cases hthere
  have hwell : (e.run (afterEvents pre)).WellFormed := Event.run_wellFormed (afterEvents_wellFormed pre) e
  rw [afterEvents_append, List.foldl_cons]
  exact (Runs.inv_foldl Event.run (fun db => db.WellFormed ∧ db.Held τ t fun _ => True)
    (fun _ _ h => ⟨Event.run_wellFormed h.1 _, Event.run_held hstraight h.1 h.2⟩) ⟨hwell, hfirst⟩ post).2

/-- A run that waits for nothing stays as it is. -/
theorem afterEvents_runs_of_idle {pre post : List Event} (hrow : (afterEvents pre).runs id = some run)
    (hidle : (afterEvents pre).Idle id) :
    (afterEvents (pre ++ post)).runs id = some run ∧ (afterEvents (pre ++ post)).Idle id := by
  rw [afterEvents_append]
  exact Runs.inv_foldl Event.run (fun db => db.runs id = some run ∧ db.Idle id)
    (fun _ _ h => Event.run_runs_of_idle h.1 h.2) ⟨hrow, hidle⟩ post

def Visit.Within (t : WorkflowTemplate) (v : Visit) : Prop := 0 ≤ v.run.currentStep ∧ v.run.currentStep ≤ t.front

/-- A request looks at the steps of such a template one after another, up to the first of unknown type. -/
theorem visits_of_held {e : Event} {en : Entry} (hstraight : t.Straight) (h : db.Held τ t fun _ => True)
    (hentry : e.entry db = some en) (hτ : en.run.templateID = τ) :
    en.template = t ∧ (e.visits db).IsChain (fun v w => w.run.currentStep = v.run.currentStep + 1) ∧
      ∀ v ∈ e.visits db, v.Within t := by
  have hstart : en.template = t ∧ 0 ≤ en.run.currentStep ∧ en.run.currentStep ≤ t.front := by
    rcases Event.entry_cases hentry with ⟨templateID, context, -, hstarts, -⟩ | ⟨_, _, _, id, a, run, -, -, happroves⟩
    · have htemplate := hstarts.template
      rw [hτ, h.template] at htemplate
      rw [hstarts.first]
      exact ⟨(Option.some.inj htemplate).symm, le_rfl, Int.natCast_nonneg _⟩
    · have hnext : en.run = run.next := happroves.next
      have htemplate := happroves.template
      rw [hnext] at hτ
      rw [show run.templateID = τ from hτ, h.template] at htemplate
      have hheld := h.runs a.runID run trivial happroves.row hτ
      obtain ⟨hlt, -⟩ := hheld.asks id a ⟨happroves.found, rfl, happroves.pending⟩
      rw [hnext]
      exact ⟨(Option.some.inj htemplate).symm, Int.le_add_one hheld.lower, hlt⟩
  obtain ⟨rfl, hlower, hupper⟩ := hstart
  have hstep : ∀ v w : Visit, v.Within en.template → v.next e.env en.template en.runID = some w →
      w.Within en.template ∧ w.run.currentStep = v.run.currentStep + 1 := by
    rintro v w ⟨hv, hv'⟩ hnext
    obtain ⟨hlt, hmove⟩ := hstraight.of_leadsTo (Visit.leadsTo_of_next hnext).1 hv hv'
    refine ⟨⟨?_, ?_⟩, hmove⟩
    · omega
    · omega
  have hfirst : Visit.Within en.template ⟨en.run, en.db, none⟩ := ⟨hlower, hupper⟩
  have hvisits : e.visits db =
      Walk.walk (Visit.next e.env en.template en.runID) e.env.recursionLimit ⟨en.run, en.db, none⟩ := by
    rw [Event.visits, hentry]
  rw [hvisits]
  exact ⟨rfl, Walk.isChain_walk_of_inv hstep hfirst,
    fun v hv => Walk.inv_walk (fun a b ha hab => (hstep a b ha hab).1) hfirst hv⟩

end Dgraphai.Workflows
