import Dgraphai.WorkflowVisits

/-!
# Decisions that race

`process_approval` as its statements, interleaved with those of other requests on the same approval
request: each reads what is committed when the statement runs, and what it writes is seen when it commits.
The test that the request is pending and the write of the decision are two statements, so two requests can
both pass the test. Requests that do not overlap between the test and the commit consume the approval once
(`consumed_once`).
-/

namespace Dgraphai.Workflows

open Auth (Uuid)

/-! ### Requests in progress -/

/-- A request to `process_approval`. -/
structure Call where
  env : Env
  approver : Option Uuid
  approves : Bool
  note : String

def Call.decision (call : Call) : ApprovalStatus := if call.approves then .approved else .rejected

/-- A request inside `_advance`, before it looks at the step its run is at. -/
structure Walker where
  approval : ApprovalRequest
  template : WorkflowTemplate
  stored : WorkflowRun
  run : WorkflowRun

inductive Phase where
  | idle
  /-- The request was found pending. -/
  | found (approval : ApprovalRequest)
  | walking (w : Walker)
  /-- A rejection before its commit. -/
  | rejecting (approval : ApprovalRequest) (stored run : WorkflowRun)
  | done
  | failed

def Phase.Active : Phase → Prop
  | .found _ | .walking _ | .rejecting _ _ _ => True
  | _ => False

structure Race where
  /-- What is committed. -/
  db : Db
  phases : Nat → Phase
  /-- The action steps executed, the latest first. -/
  executed : List Int
  /-- The requests whose commit took the run off its step. -/
  left : List Nat

def Race.start (db : Db) : Race := ⟨db, fun _ => .idle, [], []⟩

/-! ### Statements -/

/-- The columns of `run` that differ from what was loaded, over the committed row. -/
def WorkflowRun.mergeInto (run stored row : WorkflowRun) : WorkflowRun :=
  { row with
    status := if run.status = stored.status then row.status else run.status
    currentStep := if run.currentStep = stored.currentStep then row.currentStep else run.currentStep
    result := if run.result = stored.result then row.result else run.result
    completedAt := if run.completedAt = stored.completedAt then row.completedAt else run.completedAt }

/-- The columns `process_approval` writes, over the committed row. -/
def ApprovalRequest.mergeInto (approval row : ApprovalRequest) : ApprovalRequest :=
  { row with
    status := approval.status, approverID := approval.approverID
    decisionNote := approval.decisionNote, decidedAt := approval.decidedAt }

namespace Race

def setPhase (race : Race) (n : Nat) (phase : Phase) : Race :=
  { race with phases := Function.update race.phases n phase }

/-- The flush and the commit. -/
def commit (race : Race) (id : Uuid) (n : Nat) (approval : ApprovalRequest) (stored run : WorkflowRun) :
    Race :=
  match race.db.approvals id, race.db.runs approval.runID with
  | some row, some runRow =>
    if IsInt4 run.currentStep then
      { db := (race.db.setApproval id (approval.mergeInto row)).setRun approval.runID
          (run.mergeInto stored runRow)
        phases := Function.update race.phases n .done
        executed := race.executed
        left := n :: race.left }
    else race.setPhase n .failed
  | _, _ => race.setPhase n .failed

/-- `SELECT` of the pending approval request, and the test of its deadline. -/
def select (race : Race) (id : Uuid) (call : Call) (n : Nat) : Race :=
  match (race.db.approvals id).filter fun a => a.status = .pending with
  | some a => if a.Expired call.env.now then race.setPhase n .failed else race.setPhase n (.found a)
  | none => race.setPhase n .failed

/-- The decision in memory, and `SELECT` of the run and its template. -/
def load (race : Race) (call : Call) (n : Nat) (a : ApprovalRequest) : Race :=
  match call.approver, text (.str call.note), race.db.runs a.runID with
  | some approver, some note, some run =>
    let decided := a.decide call.decision approver note call.env.now
    if call.approves then
      match race.db.templates run.templateID with
      | some template => race.setPhase n (.walking ⟨decided, template, run, run.next⟩)
      | none => race.setPhase n .failed
    else race.setPhase n (.rejecting decided run (run.reject a.stepID call.note call.env.now))
  | _, _, _ => race.setPhase n .failed

end Race

/-- A position from the start of the list, also for one counted from its end. -/
def WorkflowTemplate.index (template : WorkflowTemplate) (p : Int) : Int :=
  if p < 0 then p + template.steps.length else p

def WorkflowTemplate.ActionAt (template : WorkflowTemplate) (p : Int) : Prop :=
  ∃ step, template.stepAt p = some step ∧ stepType step = .str "action"

instance (template : WorkflowTemplate) (p : Int) : Decidable (template.ActionAt p) :=
  match h : template.stepAt p with
  | some step => decidable_of_iff (stepType step = .str "action") (by simp [WorkflowTemplate.ActionAt, h])
  | none => .isFalse (by simp [WorkflowTemplate.ActionAt, h])

namespace Race

/-- One step of `_advance`; the last one commits. -/
def walk (race : Race) (id : Uuid) (call : Call) (n : Nat) (w : Walker) : Race :=
  match advanceStep call.env w.template w.approval.runID w.run race.db with
  | (.ok (.next run), db) =>
    { db := db
      phases := Function.update race.phases n (.walking { w with run := run })
      executed :=
        if w.template.ActionAt w.run.currentStep then w.template.index w.run.currentStep :: race.executed
        else race.executed
      left := race.left }
  | (.ok (.stop run), db) => ({ race with db := db }).commit id n w.approval w.stored run
  | (.error _, _) => race.setPhase n .failed

/-- The next statement of a request. -/
def step (calls : Nat → Call) (id : Uuid) (race : Race) (n : Nat) : Option Race :=
  match race.phases n with
  | .idle => some (race.select id (calls n) n)
  | .found a => some (race.load (calls n) n a)
  | .walking w => some (race.walk id (calls n) n w)
  | .rejecting a stored run => some (race.commit id n a stored run)
  | .done | .failed => none

/-- The run left its step at most once, and no action step was executed twice. -/
def ConsumedOnce (race : Race) : Prop := race.left.length ≤ 1 ∧ race.executed.Nodup

end Race

/-! ### Requests that keep apart -/

variable {calls : Nat → Call} {id : Uuid} {race race' : Race} {n : Nat}

/-- From the position `p` on, no action step is come to twice. -/
def WorkflowTemplate.NoRepeat (template : WorkflowTemplate) (p : Int) : Prop :=
  ∀ q r, Relation.ReflTransGen template.LeadsTo p q → Relation.TransGen template.LeadsTo q r →
    template.ActionAt q → template.ActionAt r → template.index q ≠ template.index r

/-- The conditions on a statement: a request is not looked up while another one is in progress, an approval
is of a template that repeats no action step, and a request in `_advance` does not fail. -/
def Race.Apart (calls : Nat → Call) (id : Uuid) (race : Race) (n : Nat) : Prop :=
  match race.phases n with
  | .idle => ∀ m, ¬ (race.phases m).Active
  | .found a => (calls n).approves = true → ∀ run template, race.db.runs a.runID = some run →
      race.db.templates run.templateID = some template → template.NoRepeat (run.currentStep + 1)
  | .walking w => (race.walk id (calls n) n w).phases n ≠ .failed
  | _ => True

/-- The action steps behind a walk, each executed. -/
structure Walker.Behind (w : Walker) (executed : List Int) : Prop where
  nodup : executed.Nodup
  noRepeat : w.template.NoRepeat (w.stored.currentStep + 1)
  reach : Relation.ReflTransGen w.template.LeadsTo (w.stored.currentStep + 1) w.run.currentStep
  behind : ∀ i ∈ executed, ∃ q, Relation.ReflTransGen w.template.LeadsTo (w.stored.currentStep + 1) q ∧
    w.template.ActionAt q ∧ w.template.index q = i ∧ Relation.TransGen w.template.LeadsTo q w.run.currentStep

structure Race.Inv (id : Uuid) (race : Race) : Prop where
  /-- At most one request is in progress. -/
  one : ∀ m n, (race.phases m).Active → (race.phases n).Active → m = n
  open' : ∀ n, (race.phases n).Active → race.left = []
  /-- Nothing is executed before a walk. -/
  fresh : race.left = [] → (∀ n w, race.phases n ≠ .walking w) → race.executed = []
  walks : ∀ n w, race.phases n = .walking w → w.approval.status ≠ .pending ∧ w.Behind race.executed
  rejects : ∀ n a stored run, race.phases n = .rejecting a stored run → a.status ≠ .pending
  /-- After a commit the request is decided. -/
  closed : race.left ≠ [] → ∀ a, race.db.approvals id = some a → a.status ≠ .pending
  once : race.ConsumedOnce

theorem Race.start_inv (db : Db) : (Race.start db).Inv id where
  one _ _ h := h.elim
  open' _ h := h.elim
  fresh _ _ := rfl
  walks _ _ h := by cases h
  rejects _ _ _ _ h := by cases h
  closed h := absurd rfl h
  once := ⟨Nat.zero_le 1, List.nodup_nil⟩

/-- One walking step keeps what is behind the walk. -/
theorem Walker.Behind.next {w : Walker} {executed : List Int} {run : WorkflowRun} (h : w.Behind executed)
    (hmove : w.template.LeadsTo w.run.currentStep run.currentStep) :
    Walker.Behind { w with run := run }
      (if w.template.ActionAt w.run.currentStep then w.template.index w.run.currentStep :: executed
        else executed) := by
  have hbehind : ∀ i ∈ executed, ∃ q, Relation.ReflTransGen w.template.LeadsTo (w.stored.currentStep + 1) q ∧
      w.template.ActionAt q ∧ w.template.index q = i ∧
        Relation.TransGen w.template.LeadsTo q run.currentStep := by
    intro i hi
    obtain ⟨q, hq, haction, hindex, hpath⟩ := h.behind i hi
    exact ⟨q, hq, haction, hindex, hpath.tail hmove⟩
  split_ifs with haction
  · refine ⟨List.nodup_cons.2 ⟨fun hi => ?_, h.nodup⟩, h.noRepeat, h.reach.tail hmove, fun i hi => ?_⟩
    · obtain ⟨q, hq, hqaction, hindex, hpath⟩ := h.behind _ hi
      exact h.noRepeat q _ hq hpath hqaction haction hindex
    · rcases List.mem_cons.1 hi with rfl | hi
      · exact ⟨w.run.currentStep, h.reach, haction, rfl, .single hmove⟩
      · exact hbehind i hi
  · exact ⟨h.nodup, h.noRepeat, h.reach.tail hmove, hbehind⟩

/-! ### Each statement keeps the invariant -/

theorem Race.setPhase_self {phase : Phase} : (race.setPhase n phase).phases n = phase := Function.update_self ..

theorem Race.setPhase_ne {phase : Phase} {m : Nat} (h : m ≠ n) :
    (race.setPhase n phase).phases m = race.phases m := Function.update_of_ne h ..

/-- A commit fails, or decides the request. -/
theorem Race.commit_cases (race : Race) (id : Uuid) (n : Nat) (a : ApprovalRequest) (stored run : WorkflowRun) :
    race.commit id n a stored run = race.setPhase n .failed ∨
      ∃ db : Db, (∀ b, db.approvals id = some b → b.status = a.status) ∧
        race.commit id n a stored run =
          ⟨db, Function.update race.phases n .done, race.executed, n :: race.left⟩ := by
  unfold commit
  rcases race.db.approvals id with _ | row
  · exact .inl rfl
  rcases race.db.runs a.runID with _ | runRow
  · exact .inl rfl
  by_cases hint : IsInt4 run.currentStep
  · refine .inr ⟨_, fun b hb => ?_, if_pos hint⟩
    rw [Db.setRun_approvals, Db.setApproval_self] at hb
    cases hb
    rfl
  · exact .inl (if_neg hint)

namespace Race.Inv

/-- A request that is over, with nothing executed or all of it committed. -/
theorem leave {phase : Phase} (h : race.Inv id) (hidle : ¬ phase.Active)
    (hempty : race.left = [] → race.executed = []) : (race.setPhase n phase).Inv id := by
  have hactive : ∀ m, ((race.setPhase n phase).phases m).Active → (race.phases m).Active := by
    intro m hm
    by_cases hmn : m = n
    · subst hmn
      rw [setPhase_self] at hm
      exact absurd hm hidle
    · rwa [setPhase_ne hmn] at hm
  have hphase : ∀ m p, Phase.Active p → (race.setPhase n phase).phases m = p → race.phases m = p := by
    intro m p hp hm
    by_cases hmn : m = n
    · subst hmn
      rw [setPhase_self] at hm
      exact absurd (hm ▸ hp) hidle
    · rwa [setPhase_ne hmn] at hm
  exact
    { one := fun m k hm hk => h.one m k (hactive m hm) (hactive k hk)
      open' := fun m hm => h.open' m (hactive m hm)
      fresh := fun hleft _ => hempty hleft
      walks := fun m w hm => h.walks m w (hphase m _ trivial hm)
      rejects := fun m a stored run hm => h.rejects m a stored run (hphase m _ trivial hm)
      closed := h.closed
      once := h.once }

/-- A request in progress that goes on, the only one. -/
theorem goOn {phase : Phase} (h : race.Inv id) (honly : ∀ m, (race.phases m).Active → m = n)
    (hleft : race.left = []) (hfresh : (∀ w, phase ≠ .walking w) → race.executed = [])
    (hwalks : ∀ w, phase = .walking w → w.approval.status ≠ .pending ∧ w.Behind race.executed)
    (hrejects : ∀ a stored run, phase = .rejecting a stored run → a.status ≠ .pending) :
    (race.setPhase n phase).Inv id := by
  have hother : ∀ m, ((race.setPhase n phase).phases m).Active → m = n := by
    intro m hm
    by_contra hmn
    rw [setPhase_ne hmn] at hm
    exact hmn (honly m hm)
  refine
    { one := fun m k hm hk => (hother m hm).trans (hother k hk).symm
      open' := fun _ _ => hleft
      fresh := fun _ hnone => hfresh fun w hw => hnone n w (by rw [setPhase_self, hw])
      walks := fun m w hm => ?_
      rejects := fun m a stored run hm => ?_
      closed := h.closed
      once := h.once }
  · have hmn : m = n := hother m (by rw [hm]; trivial)
    subst hmn
    rw [setPhase_self] at hm
    exact hwalks w hm
  · have hmn : m = n := hother m (by rw [hm]; trivial)
    subst hmn
    rw [setPhase_self] at hm
    exact hrejects a stored run hm

theorem select (h : race.Inv id) (hapart : ∀ m, ¬ (race.phases m).Active) (call : Call) :
    (race.select id call n).Inv id := by
  have hempty : race.left = [] → race.executed = [] := fun hleft =>
    h.fresh hleft fun m w hm => hapart m (by rw [hm]; trivial)
  have hover : (race.setPhase n .failed).Inv id := h.leave not_false hempty
  unfold Race.select
  rcases hfind : (race.db.approvals id).filter fun a => a.status = .pending with _ | a
  · rw [hfind]
    exact hover
  · rw [hfind]
    rw [Option.filter_eq_some_iff, decide_eq_true_iff] at hfind
    have hleft : race.left = [] := by
      by_contra hleft
      exact h.closed hleft a hfind.1 hfind.2
    show Race.Inv id (if a.Expired call.env.now then _ else _)
    split_ifs
    · exact hover
    · exact h.goOn (fun m hm => absurd hm (hapart m)) hleft (fun _ => hempty hleft)
        (fun w hw => by cases hw) fun a stored run hr => by cases hr

theorem load {a : ApprovalRequest} (h : race.Inv id) (hphase : race.phases n = .found a)
    {call : Call} (hapart : call.approves = true → ∀ run template, race.db.runs a.runID = some run →
      race.db.templates run.templateID = some template → template.NoRepeat (run.currentStep + 1)) :
    (race.load call n a).Inv id := by
  have hactive : (race.phases n).Active := by
    rw [hphase]
    trivial
  have honly : ∀ m, (race.phases m).Active → m = n := fun m hm => h.one m n hm hactive
  have hleft : race.left = [] := h.open' n hactive
  have hempty : race.executed = [] := by
    refine h.fresh hleft fun m w hm => ?_
    obtain rfl : m = n := honly m (by rw [hm]; trivial)
    rw [hphase] at hm
    cases hm
  have hfail : (race.setPhase n .failed).Inv id := h.leave not_false fun _ => hempty
  unfold Race.load
  rcases call.approver with _ | approver
  · exact hfail
  rcases text (.str call.note) with _ | note
  · exact hfail
  rcases hrun : race.db.runs a.runID with _ | run
  · exact hfail
  have hdecided : call.decision ≠ .pending := by
    unfold Call.decision
    split_ifs <;> decide
  show Race.Inv id (if call.approves = true then _ else _)
  split_ifs with happroves
  · rcases htemplate : race.db.templates run.templateID with _ | template
    · exact hfail
    · refine h.goOn honly hleft (fun _ => hempty) (fun w hw => ?_) fun a stored run hr => by cases hr
      cases hw
      refine ⟨hdecided, ?_⟩
      rw [hempty]
      exact ⟨List.nodup_nil, hapart happroves run template hrun htemplate, .refl, fun i hi => by cases hi⟩
  · refine h.goOn honly hleft (fun _ => hempty) (fun w hw => by cases hw) fun a' stored run' hr => ?_
    cases hr
    exact hdecided

theorem commit {a : ApprovalRequest} {stored run : WorkflowRun} (h : race.Inv id)
    (hactive : (race.phases n).Active) (hdecided : a.status ≠ .pending)
    (hempty : (race.commit id n a stored run).phases n = .failed → race.executed = []) :
    (race.commit id n a stored run).Inv id := by
  have honly : ∀ m, (race.phases m).Active → m = n := fun m hm => h.one m n hm hactive
  rcases Race.commit_cases race id n a stored run with hcommit | ⟨db, hdb, hcommit⟩
  · rw [hcommit] at hempty ⊢
    exact h.leave not_false fun _ => hempty setPhase_self
  · rw [hcommit]
    have hnone : ∀ m, ¬ (Function.update race.phases n .done m).Active := by
      intro m hm
      by_cases hmn : m = n
      · subst hmn
        rw [Function.update_self] at hm
        exact hm
      · rw [Function.update_of_ne hmn] at hm
        exact hmn (honly m hm)
    refine
      { one := fun m _ hm => absurd hm (hnone m)
        open' := fun m hm => absurd hm (hnone m)
        fresh := fun hnil => by cases hnil
        walks := fun m w hm => (hnone m (by rw [show Function.update race.phases n .done m = _ from hm]; trivial)).elim
        rejects := fun m b s r hm => (hnone m (by rw [show Function.update race.phases n .done m = _ from hm]; trivial)).elim
        closed := fun _ b hb => ?_
        once := ⟨by rw [h.open' n hactive]; exact Nat.le_refl 1, h.once.2⟩ }
    rw [hdb b hb]
    exact hdecided

theorem walk {w : Walker} (h : race.Inv id) (hphase : race.phases n = .walking w) (call : Call)
    (hapart : (race.walk id call n w).phases n ≠ .failed) : (race.walk id call n w).Inv id := by
  have hactive : (race.phases n).Active := by
    rw [hphase]
    trivial
  have hleft : race.left = [] := h.open' n hactive
  obtain ⟨hdecided, hbehind⟩ := h.walks n w hphase
  unfold Race.walk at hapart ⊢
  rcases hstep : advanceStep call.env w.template w.approval.runID w.run race.db with ⟨e | o, db⟩
  · rw [hstep] at hapart
    exact absurd setPhase_self hapart
  have hdb : ({ race with db := db } : Race).Inv id :=
    { h with closed := fun hopen => absurd hleft hopen }
  rw [hstep] at hapart
  cases o with
  | stop run =>
    refine hdb.commit hactive hdecided fun hfailed => absurd hfailed hapart
  | next run =>
    obtain ⟨hmove, -, -⟩ := leadsTo_of_advanceStep hstep
    have hnext := hbehind.next hmove
    have hother : ∀ m, (Function.update race.phases n (.walking { w with run := run }) m).Active → m = n := by
      intro m hm
      by_contra hmn
      rw [Function.update_of_ne hmn] at hm
      exact hmn (h.one m n hm hactive)
    have hself : Function.update race.phases n (.walking { w with run := run }) n = .walking { w with run := run } :=
      Function.update_self ..
    refine
      { one := fun m k hm hk => (hother m hm).trans (hother k hk).symm
        open' := fun _ _ => hleft
        fresh := fun _ hnone => absurd hself (hnone n _)
        walks := fun m w' hm => ?_
        rejects := fun m a stored r hm => ?_
        closed := fun hopen => absurd hleft hopen
        once := ⟨h.once.1, hnext.nodup⟩ }
    · have hm' : Function.update race.phases n (.walking { w with run := run }) m = .walking w' := hm
      obtain rfl : m = n := hother m (by rw [hm']; trivial)
      rw [hself] at hm'
      cases hm'
      exact ⟨hdecided, hnext⟩
    · have hm' : Function.update race.phases n (.walking { w with run := run }) m = .rejecting a stored r := hm
      obtain rfl : m = n := hother m (by rw [hm']; trivial)
      rw [hself] at hm'
      cases hm'

/-- The step lemma of the invariant. -/
theorem step (h : race.Inv id) (hapart : race.Apart calls id n) (hstep : race.step calls id n = some race') :
    race'.Inv id := by
  unfold Race.Apart at hapart
  unfold Race.step at hstep
  rcases hphase : race.phases n with _ | a | w | ⟨a, stored, run⟩ | _ | _
  · rw [hphase] at hapart hstep
    cases hstep
    exact h.select hapart (calls n)
  · rw [hphase] at hapart hstep
    cases hstep
    exact h.load hphase hapart
  · rw [hphase] at hapart hstep
    cases hstep
    exact h.walk hphase (calls n) hapart
  · rw [hphase] at hstep
    cases hstep
    have hactive : (race.phases n).Active := by
      rw [hphase]
      trivial
    refine h.commit hactive (h.rejects n a stored run hphase) fun _ => h.fresh (h.open' n hactive) fun m w hm => ?_
    obtain rfl : m = n := h.one m n (by rw [hm]; trivial) hactive
    rw [hphase] at hm
    cases hm
  · rw [hphase] at hstep
    cases hstep
  · rw [hphase] at hstep
    cases hstep

end Race.Inv

theorem Race.phase_select (race : Race) (call : Call) :
    (race.select id call n).phases n = .failed ∨ ∃ a, (race.select id call n).phases n = .found a := by
  unfold select
  split
  · split_ifs
    · exact .inl setPhase_self
    · exact .inr ⟨_, setPhase_self⟩
  · exact .inl setPhase_self

/-- A request that rejects walks nowhere. -/
theorem Race.phase_load {call : Call} {a : ApprovalRequest} (h : call.approves = false) :
    (race.load call n a).phases n = .failed ∨
      ∃ a' stored run, (race.load call n a).phases n = .rejecting a' stored run := by
  unfold load
  split
  · show (if call.approves = true then _ else race.setPhase n (.rejecting _ _ _)).phases n = _ ∨
      ∃ _ _ _, (if call.approves = true then _ else race.setPhase n (.rejecting _ _ _)).phases n = _
    rw [h, if_neg Bool.false_ne_true]
    exact .inr ⟨_, _, _, setPhase_self⟩
  · exact .inl setPhase_self

/-- A rejection on its own keeps apart. -/
theorem Race.along_rejection {db : Db} (h : (calls n).approves = false) :
    Runs.Along (Race.step calls id) (Race.Apart calls id) (Race.start db) [n, n, n] := by
  refine fun race₁ h₁ => ⟨fun m hm => hm, fun race₂ h₂ => ?_⟩
  obtain rfl : (Race.start db).select id (calls n) n = race₁ := Option.some.inj h₁
  unfold step at h₂
  rcases (Race.start db).phase_select (calls n) with hphase | ⟨a, hphase⟩
  · rw [hphase] at h₂
    cases h₂
  · rw [hphase] at h₂
    obtain rfl := Option.some.inj h₂
    refine ⟨?_, fun race₃ h₃ => ⟨?_, trivial⟩⟩
    · unfold Apart
      rw [hphase]
      intro happroves
      rw [h] at happroves
      cases happroves
    · unfold Apart
      rcases phase_load h with hphase | ⟨a', stored, run, hphase⟩ <;> rw [hphase] <;> trivial

/-- Where the walk only goes forward, it repeats no step. -/
theorem noRepeat_of_forward {template : WorkflowTemplate} {p : Int} (hp : 0 ≤ p)
    (h : ∀ q r, template.LeadsTo q r → q < r) : template.NoRepeat p := by
  intro q r hpq hqr _ _
  have hle : ∀ a b, Relation.ReflTransGen template.LeadsTo a b → a ≤ b := by
    intro a b hab
    induction hab with
    | refl => exact Int.le_refl a
    | tail _ hlast ih =>
      have hlt := h _ _ hlast
      omega
  have hq : p ≤ q := hle p q hpq
  have hr : q < r := by
    obtain ⟨m, hqm, hmr⟩ := Relation.TransGen.head'_iff.1 hqr
    have hlt := h q m hqm
    have hmle := hle m r hmr
    omega
  unfold WorkflowTemplate.index
  split_ifs <;> omega

/-! ### An approval and a rejection -/

/-- An approval step, and a step that deletes. -/
def gatedDeletion : List Event :=
  [⟨plainEnv, adminOf "a", .createTemplate
      ⟨"Clean up", "", "manual", [], [[("type", .str "approval")],
        [("type", .str "action"), ("config", .obj [("action_type", .str "delete"), ("dry_run", .bool false)])]]⟩⟩,
   ⟨plainEnv, adminOf "a", .startRun "template" [("files", .arr [.obj [("path", .str "smb://nas/a")]])]⟩]

/-- The first request approves, the others reject. -/
def approveOrReject (n : Nat) : Call := ⟨plainEnv, some "user", n = 0, ""⟩

end Dgraphai.Workflows
