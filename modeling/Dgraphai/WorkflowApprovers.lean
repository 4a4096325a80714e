import Dgraphai.WorkflowVisits

/-!
# Who decides on an approval step

A template may name the approvers of an approval step, and whether any of them suffices. `process_approval` reads
neither: one decision of any user with the permission settles the request, and a settled request stays as it is
(`Event.approvals_run`). So only the named approvers decide as long as the one approval of each such step comes from
one of them, and from the only one where all are asked (`named_approvers`).
-/

namespace Dgraphai.Workflows

open Auth (Uuid AuthContext)

variable {E : Env} {db db' : Db} {a b : ApprovalRequest} {config : Json.Fields} {e : Event} {id k user : Uuid}

/-! ### The law -/

/-- The run of a request is at an approval step with this config. -/
def Db.AsksAt (db : Db) (a : ApprovalRequest) (config : Json.Fields) : Prop :=
  ∃ run template step, db.runs a.runID = some run ∧ db.templates run.templateID = some template ∧
    template.stepAt run.currentStep = some step ∧ stepType step = .str "approval" ∧ stepConfig step = .obj config

/-- A run leaves its approval step as approved: the pending request for it is now approved. -/
def Event.Leaves (e : Event) (db : Db) (id : Uuid) (config : Json.Fields) : Prop :=
  ∃ a, db.approvals id = some a ∧ a.status = .pending ∧ db.AsksAt a config ∧
    ((e.run db).approvals id).map (·.status) = some .approved

/-- A user approves a request, and gets an answer. -/
def Event.Approved (e : Event) (db : Db) (id user : Uuid) : Prop :=
  ∃ approvalID decision note, e.request = .decide approvalID decision note ∧
    ApprovalStatus.ofDecision? decision = some .approved ∧ e.env.parseUuid approvalID = .ok id ∧
      e.auth.userID = some user ∧ e.body db = (.ok (), e.run db)

/-- In a history, a user approved a request. -/
def ApprovedBy (events : List Event) (id user : Uuid) : Prop :=
  ∃ pre e post, events = pre ++ e :: post ∧ e.Approved (afterEvents pre) id user

/-- A step with named approvers is left as approved by one of them, after any of them has approved it where
`any_of` is true and after all of them have where it is false. -/
def OnlyNamed (events : List Event) : Prop :=
  ∀ pre e post id config approvers, events = pre ++ e :: post → e.Leaves (afterEvents pre) id config →
    Json.getD config "approvers" .null = .arr approvers →
      (Json.getD config "any_of" .null = .bool true → ∃ user, .str user ∈ approvers ∧ ApprovedBy (pre ++ [e]) id user) ∧
      (Json.getD config "any_of" .null = .bool false →
        ∀ member ∈ approvers, ∃ user, member = .str user ∧ ApprovedBy (pre ++ [e]) id user) ∧
      ∀ user ∈ e.auth.userID, .str user ∈ approvers

/-- An approval that reaches an open request comes from a named approver, and from the only one where `any_of` is
false. -/
def Event.ByNamed (e : Event) (db : Db) : Prop :=
  match e.request with
  | .decide approvalID decision _ =>
    ApprovalStatus.ofDecision? decision = some .approved → HasPermission e.auth "actions:approve" →
      ∀ p ∈ db.openApproval e.env approvalID, ∀ config approvers, db.AsksAt p.2 config →
        Json.getD config "approvers" .null = .arr approvers → ∀ user ∈ e.auth.userID, .str user ∈ approvers ∧
          (Json.getD config "any_of" .null = .bool false → ∀ member ∈ approvers, member = .str user)
  | _ => True

/-! ### What a request does to an approval -/

theorem processApproval_decides {approvalID note : String} {user : Option Uuid} {decision : ApprovalStatus}
    {r : Uuid × WorkflowRun} (h : processApproval E approvalID user decision note db = (.ok r, db')) :
    ∃ id a approver note', db.openApproval E approvalID = some (id, a) ∧ user = some approver ∧
      db'.approvals id = some (a.decide decision approver note' E.now) ∧
        ∀ k b, k ≠ id → db.approvals k = some b → db'.approvals k = some b := by
  rw [processApproval_eq] at h
  obtain ⟨⟨a, run⟩, db₁, hbegin, h⟩ := Txn.bind_eq_ok.1 h
  obtain ⟨run', db₂, hdecide, h⟩ := Txn.bind_eq_ok.1 h
  obtain ⟨u, db₃, hsave, h⟩ := Txn.bind_eq_ok.1 h
  obtain ⟨-, rfl⟩ := Txn.pure_eq_ok.1 h
  obtain ⟨-, rfl⟩ := saveRun_eq_ok.1 hsave
  obtain ⟨id, user', note', huser, hopen, -, rfl⟩ := beginApproval_eq_ok hbegin
  obtain ⟨hadds, -⟩ := decideRun_eq_ok hdecide
  refine ⟨id, a, user', note', hopen, huser, ?_, fun k b hk hb => ?_⟩
  · rw [Db.setRun_approvals]
    exact hadds.kept id _ Db.setApproval_self
  · rw [Db.setRun_approvals]
    exact hadds.kept k b ((Db.setApproval_ne hk).trans hb)

/-- An approval request stays as it is, or was open and is decided. -/
theorem Event.approvals_run (e : Event) (h : db.approvals k = some b) : (e.run db).approvals k = some b ∨
    ∃ approvalID decision note d user note', e.request = .decide approvalID decision note ∧
      ApprovalStatus.ofDecision? decision = some d ∧ HasPermission e.auth "actions:approve" ∧ e.auth.userID = some user ∧
        db.openApproval e.env approvalID = some (k, b) ∧ e.body db = (.ok (), e.run db) ∧
          (e.run db).approvals k = some (b.decide d user note' e.env.now) := by
  rcases e.run_cases db with hrun | hbody
  · rw [hrun]
    exact .inl h
  obtain ⟨E, auth, request⟩ := e
  cases request with
  | createTemplate req =>
    obtain ⟨r, db₁, hok, hp⟩ := Txn.bind_eq_ok.1 hbody
    obtain ⟨-, hdb⟩ := Txn.pure_eq_ok.1 hp
    obtain ⟨-, hok⟩ := Txn.raiseIf_bind_eq_ok.1 hok
    rw [← hdb, (addTemplate_eq_ok (Txn.mapErr_eq_ok.1 hok)).approvals]
    exact .inl h
  | startRun templateID context =>
    obtain ⟨r, db₁, hok, hp⟩ := Txn.bind_eq_ok.1 hbody
    obtain ⟨-, hdb⟩ := Txn.pure_eq_ok.1 hp
    obtain ⟨-, hok⟩ := Txn.raiseIf_bind_eq_ok.1 hok
    obtain ⟨db₁, id, run, run', db₂, hdraws, -, -, -, hadds, -, -, hdb₂⟩ := startRun_eq_ok (Txn.mapErr_eq_ok.1 hok)
    rw [← hdb, ← hdb₂, Db.setRun_approvals]
    exact .inl (hadds.kept k b ((congrFun hdraws.approvals k).trans h))
  | decide approvalID decision note =>
    obtain ⟨d, hd, hauth, r, hok⟩ := body_decide_eq_ok.1 hbody
    obtain ⟨id, a, user, note', hopen, huser, hdecided, hkept⟩ := processApproval_decides hok
    by_cases hk : k = id
    · subst hk
      obtain ⟨-, ha, -⟩ := Db.openApproval_eq_some.1 hopen
      obtain rfl : a = b := Option.some.inj (ha.symm.trans h)
      exact .inr ⟨approvalID, decision, note, d, user, note', rfl, hd, hauth, huser, hopen, hbody, hdecided⟩
    · exact .inl (hkept k b hk h)

/-- A settled request stays settled. -/
theorem settled_foldl (events : List Event) (h : db.approvals k = some b) (hb : b.status ≠ .pending) :
    (events.foldl Event.run db).approvals k = some b := by
  induction events generalizing db with
  | nil => exact h
  | cons e events ih =>
    rcases e.approvals_run h with hkept | ⟨approvalID, decision, note, d, user, note', -, -, -, -, hopen, -⟩
    · exact ih hkept
    · obtain ⟨-, -, hpending, -⟩ := Db.openApproval_eq_some.1 hopen
      exact absurd hpending hb

/-- An approval settles the request it reaches. -/
theorem Event.Approved.settles (h : e.Approved db id user) :
    ∃ a note', db.approvals id = some a ∧ a.status = .pending ∧
      (e.run db).approvals id = some (a.decide .approved user note' e.env.now) := by
  obtain ⟨approvalID, decision, note, hrequest, hd, hparse, huser, hbody⟩ := h
  obtain ⟨E, auth, request⟩ := e
  subst hrequest
  obtain ⟨d, hd', -, r, hok⟩ := body_decide_eq_ok.1 hbody
  obtain rfl : ApprovalStatus.approved = d := Option.some.inj (hd.symm.trans hd')
  obtain ⟨id', a, approver, note', hopen, happrover, hdecided, -⟩ := processApproval_decides hok
  obtain ⟨hparse', ha, hpending, -⟩ := Db.openApproval_eq_some.1 hopen
  obtain rfl : id = id' := Except.ok.inj (hparse.symm.trans hparse')
  obtain rfl : user = approver := Option.some.inj (huser.symm.trans happrover)
  exact ⟨a, note', ha, hpending, hdecided⟩

/-- A request that is left as approved was approved by the user of this decision. -/
theorem Event.Leaves.approved (h : e.Leaves db id config) : ∃ user, e.auth.userID = some user ∧ e.Approved db id user := by
  obtain ⟨a, ha, hpending, -, hstatus⟩ := h
  rcases e.approvals_run ha with hkept | ⟨approvalID, decision, note, d, user, note', hrequest, hd, -, huser, hopen, hbody, hrow⟩
  · rw [hkept, Option.map_some, hpending] at hstatus
    cases hstatus
  · rw [hrow, Option.map_some] at hstatus
    obtain rfl : d = .approved := Option.some.inj hstatus
    exact ⟨user, huser, approvalID, decision, note, hrequest, hd, (Db.openApproval_eq_some.1 hopen).1, huser, hbody⟩

/-- No other user approved it before. -/
theorem approvedBy_iff {pre : List Event} (h : e.Leaves (afterEvents pre) id config) :
    ApprovedBy (pre ++ [e]) id user ↔ e.auth.userID = some user := by
  obtain ⟨user', huser, happroved⟩ := h.approved
  constructor
  · rintro ⟨pre', e', post', hsplit, happroved'⟩
    rcases List.eq_nil_or_concat post' with rfl | ⟨post, x, rfl⟩
    · obtain ⟨-, hlast⟩ := List.append_inj' hsplit rfl
      obtain rfl : e = e' := List.head_eq_of_cons_eq hlast
      obtain ⟨-, -, -, -, -, -, huser', -⟩ := happroved'
      exact huser'
    · -- an earlier approval has settled it
      have hassoc : pre ++ [e] = (pre' ++ e' :: post) ++ [x] := by
        rw [hsplit, List.concat_eq_append, List.append_assoc, List.cons_append]
      obtain ⟨rfl, -⟩ := List.append_inj' hassoc rfl
      obtain ⟨a', note', -, -, hdecided⟩ := happroved'.settles
      obtain ⟨a, ha, hpending, -⟩ := h
      have hsettled : (afterEvents (pre' ++ e' :: post)).approvals id =
          some (a'.decide .approved user note' e'.env.now) := by
        rw [afterEvents, List.foldl_append, List.foldl_cons]
        exact settled_foldl post hdecided (by simp [ApprovalRequest.decide])
      rw [hsettled] at ha
      obtain rfl := Option.some.inj ha
      cases hpending
  · intro huser'
    obtain rfl : user' = user := Option.some.inj (huser.symm.trans huser')
    exact ⟨pre, e, [], rfl, happroved⟩

/-! ### Histories -/

/-- A run leaves a step with named approvers only as they say, if each approval that reaches such a step comes from
one of them, and from the only one where all are asked; and of the approvals that go through, only if it does. -/
theorem named_approvers (events : List Event) :
    ((∀ pre e post, events = pre ++ e :: post → e.ByNamed (afterEvents pre)) → OnlyNamed events) ∧
      (OnlyNamed events → ∀ pre e post, events = pre ++ e :: post →
        e.body (afterEvents pre) = (.ok (), e.run (afterEvents pre)) → e.ByNamed (afterEvents pre)) := by
  constructor
  · intro h pre e post id config approvers hsplit hleaves hnames
    obtain ⟨user, huser, happroved⟩ := hleaves.approved
    have hby : .str user ∈ approvers ∧ (Json.getD config "any_of" .null = .bool false →
        ∀ member ∈ approvers, member = .str user) := by
      obtain ⟨approvalID, decision, note, hrequest, hd, hparse, -, hbody⟩ := happroved
      obtain ⟨a, ha, -, hasks, -⟩ := hleaves
      have hby := h pre e post hsplit
      obtain ⟨E, auth, request⟩ := e
      subst hrequest
      obtain ⟨d, -, hauth, r, hok⟩ := body_decide_eq_ok.1 hbody
      obtain ⟨id', a', -, -, hopen, -⟩ := processApproval_decides hok
      obtain ⟨hparse', ha', -⟩ := Db.openApproval_eq_some.1 hopen
      obtain rfl : id = id' := Except.ok.inj (hparse.symm.trans hparse')
      obtain rfl : a = a' := Option.some.inj (ha.symm.trans ha')
      exact hby hd hauth (id, a) hopen config approvers hasks hnames user huser
    have huser' : ApprovedBy (pre ++ [e]) id user := (approvedBy_iff hleaves).2 huser
    refine ⟨fun _ => ⟨user, hby.1, huser'⟩, fun hall member hmember => ⟨user, hby.2 hall member hmember, huser'⟩, ?_⟩
    rintro user'' huser''
    obtain rfl : user = user'' := Option.some.inj (huser.symm.trans huser'')
    exact hby.1
  · intro h pre e post hsplit hbody
    obtain ⟨E, auth, request⟩ := e
    cases request with
    | createTemplate req => trivial
    | startRun templateID context => trivial
    | decide approvalID decision note =>
      rintro hd - ⟨id, a⟩ hopen config approvers hasks hnames user huser
      obtain ⟨hparse, ha, hpending, -⟩ := Db.openApproval_eq_some.1 hopen
      have happroved : Event.Approved ⟨E, auth, .decide approvalID decision note⟩ (afterEvents pre) id user :=
        ⟨approvalID, decision, note, rfl, hd, hparse, huser, hbody⟩
      obtain ⟨a', note', ha', -, hdecided⟩ := happroved.settles
      have hleaves : Event.Leaves ⟨E, auth, .decide approvalID decision note⟩ (afterEvents pre) id config :=
        ⟨a, ha, hpending, hasks, by rw [hdecided]; rfl⟩
      obtain ⟨-, hall, hnamed⟩ := h pre _ post id config approvers hsplit hleaves hnames
      refine ⟨hnamed user huser, fun hfalse member hmember => ?_⟩
      obtain ⟨user', rfl, hby⟩ := hall hfalse member hmember
      obtain rfl : user = user' := Option.some.inj (huser.symm.trans ((approvedBy_iff hleaves).1 hby))
      rfl

/-! ### An approval by somebody else -/

/-- The step asks `alice`, and the run waits for her. -/
def namedRun : List Event :=
  [⟨plainEnv, adminOf "b", .createTemplate ⟨"Move files", "", "manual", [],
      [[("type", .str "approval"),
        ("config", .obj [("approvers", .arr [.str "alice"]), ("any_of", .bool true)])]]⟩⟩,
   ⟨plainEnv, adminOf "b", .startRun "template" []⟩]

/-- An administrator who is not named approves. -/
theorem unnamed_approves : ¬ ∀ events : List Event, OnlyNamed events := by
  intro h
  have hrow : ((afterEvents namedRun).approvals "approval").map (fun a => (a.status, a.runID)) =
      some (.pending, "run") := by decide
  have hrun : ((afterEvents namedRun).runs "run").map (fun r => (r.templateID, r.currentStep)) =
      some ("template", 0) := by decide
  have hsteps : ((afterEvents namedRun).templates "template").map (·.stepAt 0) = some (some
      [("type", .str "approval"), ("config", .obj [("approvers", .arr [.str "alice"]), ("any_of", .bool true)])]) := by
    decide
  have hafter : ((Event.run (afterEvents namedRun) ⟨plainEnv, adminOf "b", .decide "approval" "approved" ""⟩).approvals
      "approval").map (·.status) = some .approved := by decide
  obtain ⟨a, ha, hrow⟩ := Option.map_eq_some_iff.1 hrow
  obtain ⟨run, hr, hrun⟩ := Option.map_eq_some_iff.1 hrun
  obtain ⟨template, ht, hsteps⟩ := Option.map_eq_some_iff.1 hsteps
  obtain ⟨hpending, hrunID⟩ := Prod.mk.inj hrow
  obtain ⟨htemplate, hcurrent⟩ := Prod.mk.inj hrun
  have hasks : (afterEvents namedRun).AsksAt a [("approvers", .arr [.str "alice"]), ("any_of", .bool true)] :=
    ⟨run, template, _, by rw [hrunID, hr], by rw [htemplate, ht], by rw [hcurrent, hsteps], rfl, rfl⟩
  obtain ⟨-, -, hnamed⟩ := h (namedRun ++ [⟨plainEnv, adminOf "b", .decide "approval" "approved" ""⟩]) namedRun _ []
    "approval" _ [.str "alice"] rfl ⟨a, ha, hpending, hasks, hafter⟩ rfl
  exact absurd (hnamed "user" rfl) (by decide)

end Dgraphai.Workflows
