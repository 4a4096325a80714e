import Dgraphai.WorkflowStraight
import Dgraphai.WorkflowVariables

/-!
# The workflow canvas (`pages/WorkflowBuilder.tsx`)

`saveWorkflow` writes the nodes of the canvas in the order they were dropped; the edges drawn between them are not
saved, and no panel sets an `else_step`. So the engine takes the nodes one after another up to the first trigger, a
step of a type it does not know (`saved_in_order`). The canvas starts with a trigger: as long as it is there, no run of
what is saved leaves it (`starter_never_runs`).
-/

namespace Dgraphai.WorkflowCanvas

open Auth (Uuid)
open Workflows

/-! ### The canvas -/

/-- The two groups of `STEP_PALETTE`, with the labels. -/
def triggerTypes : List (String × String) :=
  [("trigger_manual", "Manual"), ("trigger_query", "Query Result"), ("trigger_schedule", "Schedule")]

def stepTypes : List (String × String) :=
  [("approval", "Approval"), ("action", "Action"), ("notify", "Notify"), ("condition", "Condition")]

/-- `toLowerCase` on the labels, which are ASCII. -/
def toLowerCase (label : String) : String := String.ofList (label.toList.map Char.toLower)

structure StepNode where
  id : String
  stepType : String
  name : String
  description : String
  config : Option Json.Fields
  positionX : Json
  positionY : Json

structure Edge where
  source : String
  target : String
  sourceHandle : Option String
  deriving DecidableEq

structure Canvas where
  nodes : List StepNode
  edges : List Edge
  /-- `nodeId.current`. -/
  nodeID : ℕ
  selectedNode : Option StepNode
  workflowName : String

/-- `INITIAL_NODES` and `INITIAL_EDGES`. -/
def starter : Canvas where
  nodes :=
    [⟨"1", "trigger_manual", "Manual trigger", "Start this workflow on demand", none, .num 250, .num 60⟩,
      ⟨"2", "approval", "Approval gate", "Security team must approve before proceeding", none, .num 250, .num 200⟩,
      ⟨"3", "action", "Move files", "Move selected files to archive", none, .num 250, .num 340⟩,
      ⟨"4", "notify", "Notify team", "Send Slack message on completion", none, .num 250, .num 480⟩]
  edges := [⟨"1", "2", none⟩, ⟨"2", "3", none⟩, ⟨"3", "4", none⟩]
  nodeID := 100
  selectedNode := none
  workflowName := "New workflow"

/-- The fields of `config` that the panel of a type has. -/
def panelKeys : String → List String
  | "approval" => ["timeout_hours", "any_of"]
  | "action" => ["action_type", "destination", "dry_run"]
  | "notify" => ["channel", "target", "message"]
  | "condition" => ["expression"]
  | "trigger_schedule" => ["cron"]
  | "trigger_query" => ["query_id"]
  | _ => []

inductive Edit where
  | drop (stepType : String) (x y : Json)
  | connect (e : Edge)
  | disconnect (es : List Edge)
  | drag (id : String) (x y : Json)
  | click (id : String)
  | clickPane
  | deleteSelected
  /-- The delete key of React Flow. -/
  | remove (ids : List String)
  | nameWorkflow (name : String)
  | nameStep (name : String)
  | describe (description : String)
  | configure (key : String) (value : Json)

/-- The canvas without some nodes, and the edges at them. -/
def Canvas.without (c : Canvas) (ids : List String) : Canvas :=
  { c with
    nodes := c.nodes.filter (·.id ∉ ids)
    edges := c.edges.filter fun e => e.source ∉ ids ∧ e.target ∉ ids }

/-- `updateNodeData`; what is selected may be gone from the canvas. -/
def Canvas.updateNodeData (c : Canvas) (selected : StepNode) (f : StepNode → StepNode) : Canvas :=
  { c with
    nodes := c.nodes.map fun n => if n.id = selected.id then f n else n
    selectedNode := some (f selected) }

def Canvas.step (c : Canvas) : Edit → Option Canvas
  | .drop stepType x y => ((triggerTypes ++ stepTypes).lookup stepType).map fun label =>
    { c with
      nodeID := c.nodeID + 1
      nodes := c.nodes ++ [⟨toString (c.nodeID + 1), stepType, "New " ++ toLowerCase label, "", none, x, y⟩] }
  | .connect e => some { c with edges := if e ∈ c.edges then c.edges else c.edges ++ [e] }
  | .disconnect es => some { c with edges := c.edges.filter (· ∉ es) }
  | .drag id x y => some
    { c with nodes := c.nodes.map fun n => if n.id = id then { n with positionX := x, positionY := y } else n }
  | .click id => (c.nodes.find? (·.id = id)).map fun n => { c with selectedNode := some n }
  | .clickPane => some { c with selectedNode := none }
  | .deleteSelected => c.selectedNode.map fun n => { c.without [n.id] with selectedNode := none }
  | .remove ids => some (c.without ids)
  | .nameWorkflow name => some { c with workflowName := name }
  | .nameStep name => c.selectedNode.map fun n => c.updateNodeData n fun n => { n with name := name }
  | .describe description => c.selectedNode.map fun n => c.updateNodeData n fun n => { n with description := description }
  | .configure key value => (c.selectedNode.filter fun n => key ∈ panelKeys n.stepType).map fun n =>
    c.updateNodeData n fun m => { m with config := some (setKey (n.config.getD []) key value) }

/-- A step of the body that `saveWorkflow` posts. -/
def StepNode.step (n : StepNode) : Json.Fields :=
  [("id", .str n.id), ("type", .str n.stepType), ("name", .str n.name), ("config", .obj (n.config.getD [])),
    ("position_x", n.positionX), ("position_y", n.positionY)]

def Canvas.saveWorkflow (c : Canvas) : CreateTemplateRequest :=
  ⟨c.workflowName, "", "manual", [], c.nodes.map StepNode.step⟩

/-- The nodes in front of the first trigger. -/
def Canvas.front (c : Canvas) : List StepNode := c.nodes.takeWhile fun n => n.stepType ∉ triggerTypes.map (·.1)

/-! ### What an edit does to the nodes -/

variable {c c' : Canvas} {n : StepNode} {edits : List Edit} {e : Edit}

/-- The node is of a type of the palette, and its config has no `else_step`. -/
structure StepNode.Plain (n : StepNode) : Prop where
  palette : n.stepType ∈ (triggerTypes ++ stepTypes).map (·.1)
  noElse : Json.getD (n.config.getD []) "else_step" .null = .null

inductive Redrawn (nodeID : ℕ) (nodes : List StepNode) : List StepNode → Prop
  | change {f : StepNode → StepNode} (hid : ∀ n, (f n).id = n.id) (htype : ∀ n, (f n).stepType = n.stepType)
      (hplain : ∀ n, n.Plain → (f n).Plain) : Redrawn nodeID nodes (nodes.map f)
  | remove (ids : List String) : Redrawn nodeID nodes (nodes.filter (·.id ∉ ids))
  | drop {n : StepNode} (hid : n.id = toString (nodeID + 1)) (hplain : n.Plain) : Redrawn nodeID nodes (nodes ++ [n])

theorem Redrawn.refl (nodeID : ℕ) (nodes : List StepNode) : Redrawn nodeID nodes nodes := by
  have hsame : Redrawn nodeID nodes (nodes.map id) := .change (fun _ => rfl) (fun _ => rfl) fun _ h => h
  rwa [List.map_id] at hsame

/-- The trigger "1", as long as it is there, is the first node. -/
def Headed (nodes : List StepNode) : Prop :=
  (∀ n ∈ nodes, n.id ≠ "1") ∨ ∃ n rest, nodes = n :: rest ∧ n.id = "1" ∧ n.stepType = "trigger_manual"

/-- The canvas and its selection hold plain nodes, and new ids come after 100. -/
structure Canvas.Drawn (c : Canvas) : Prop where
  nodes : ∀ n ∈ c.nodes, n.Plain
  selected : ∀ n, c.selectedNode = some n → n.Plain
  nodeID : 100 ≤ c.nodeID
  headed : Headed c.nodes

theorem mem_palette {stepType label : String} (h : (triggerTypes ++ stepTypes).lookup stepType = some label) :
    stepType ∈ (triggerTypes ++ stepTypes).map (·.1) := by
  obtain ⟨l₁, l₂, hsplit, -⟩ := List.lookup_eq_some_iff.1 h
  rw [hsplit]
  simp

theorem ne_else_of_mem_panelKeys {stepType key : String} (h : key ∈ panelKeys stepType) : key ≠ "else_step" := by
  rintro rfl
  unfold panelKeys at h
  split at h <;> simp at h

theorem Canvas.step_redrawn (hc : c.Drawn) (h : c.step e = some c') :
    Redrawn c.nodeID c.nodes c'.nodes ∧ (∀ n, c'.selectedNode = some n → n.Plain) ∧ c.nodeID ≤ c'.nodeID := by
  cases e with
  | drop stepType x y =>
    obtain ⟨label, hlabel, rfl⟩ := Option.map_eq_some_iff.1 h
    exact ⟨.drop rfl ⟨mem_palette hlabel, rfl⟩, hc.selected, Nat.le_succ _⟩
  | connect e | disconnect es | nameWorkflow name =>
    cases h
    exact ⟨.refl _ _, hc.selected, le_rfl⟩
  | drag id x y =>
    cases h
    refine ⟨.change (fun m => ?_) (fun m => ?_) fun m hm => ?_, hc.selected, le_rfl⟩
    · split_ifs <;> rfl
    · split_ifs <;> rfl
    · split_ifs
      · exact ⟨hm.palette, hm.noElse⟩
      · exact hm
  | click id =>
    obtain ⟨n, hn, rfl⟩ := Option.map_eq_some_iff.1 h
    refine ⟨.refl _ _, fun m hm => ?_, le_rfl⟩
    cases hm
    exact hc.nodes n (List.mem_of_find?_eq_some hn)
  | clickPane =>
    cases h
    refine ⟨.refl _ _, fun m hm => ?_, le_rfl⟩
    cases hm
  | deleteSelected =>
    obtain ⟨n, hn, rfl⟩ := Option.map_eq_some_iff.1 h
    refine ⟨.remove [n.id], fun m hm => ?_, le_rfl⟩
    cases hm
  | remove ids =>
    cases h
    exact ⟨.remove ids, hc.selected, le_rfl⟩
  | nameStep name | describe description =>
    obtain ⟨n, hn, rfl⟩ := Option.map_eq_some_iff.1 h
    refine ⟨.change (fun m => ?_) (fun m => ?_) fun m hm => ?_, fun m hm => ?_, le_rfl⟩
    · split_ifs <;> rfl
    · split_ifs <;> rfl
    · split_ifs
      · exact ⟨hm.palette, hm.noElse⟩
      · exact hm
    · cases hm
      exact ⟨(hc.selected n hn).palette, (hc.selected n hn).noElse⟩
  | configure key value =>
    obtain ⟨n, hn, rfl⟩ := Option.map_eq_some_iff.1 h
    obtain ⟨hn, hkey⟩ := Option.filter_eq_some_iff.1 hn
    have hsel := hc.selected n hn
    have hset : Json.getD (setKey (n.config.getD []) key value) "else_step" .null = .null :=
      (getD_setKey_ne (ne_else_of_mem_panelKeys (of_decide_eq_true hkey))).trans hsel.noElse
    refine ⟨.change (fun m => ?_) (fun m => ?_) fun m hm => ?_, fun m hm => ?_, le_rfl⟩
    · split_ifs <;> rfl
    · split_ifs <;> rfl
    · split_ifs
      · exact ⟨hm.palette, hset⟩
      · exact hm
    · cases hm
      exact ⟨hsel.palette, hset⟩

theorem toString_ne_one {k : ℕ} (h : 100 ≤ k) : toString (k + 1) ≠ "1" := by
  intro heq
  have hdigits : Nat.toDigits 10 (k + 1) = Nat.toDigits 10 1 := by
    rw [← Nat.toList_repr, ← Nat.toList_repr]
    exact congrArg String.toList heq
  have hvalue := congrArg (fun l => Nat.ofDigitChars 10 l 0) hdigits
  simp only [Nat.ofDigitChars_ten_toDigits] at hvalue
  omega

theorem Redrawn.headed {nodeID : ℕ} {nodes nodes' : List StepNode} (h : Redrawn nodeID nodes nodes')
    (hid : 100 ≤ nodeID) (hheaded : Headed nodes) : Headed nodes' := by
  cases h with
  | change hids htype hplain =>
    rename_i f
    rcases hheaded with hnone | ⟨n, rest, rfl, hn, htrigger⟩
    · refine .inl fun m hm => ?_
      obtain ⟨k, hk, rfl⟩ := List.mem_map.1 hm
      rw [hids]
      exact hnone k hk
    · exact .inr ⟨f n, rest.map f, rfl, (hids n).trans hn, (htype n).trans htrigger⟩
  | remove ids =>
    rcases hheaded with hnone | ⟨n, rest, rfl, hn, htrigger⟩
    · exact .inl fun m hm => hnone m (List.mem_of_mem_filter hm)
    · by_cases hgone : "1" ∈ ids
      · refine .inl fun m hm hone => ?_
        have hkept := of_decide_eq_true (List.mem_filter.1 hm).2
        rw [hone] at hkept
        exact hkept hgone
      · refine .inr ⟨n, rest.filter (·.id ∉ ids), ?_, hn, htrigger⟩
        rw [List.filter_cons_of_pos]
        rw [hn]
        exact decide_eq_true hgone
  | drop hnew hplain =>
    rename_i n
    have hone : n.id ≠ "1" := by
      rw [hnew]
      exact toString_ne_one hid
    rcases hheaded with hnone | ⟨m, rest, rfl, hm, htrigger⟩
    · refine .inl fun m hm => ?_
      rcases List.mem_append.1 hm with hm | hm
      · exact hnone m hm
      · rw [List.mem_singleton.1 hm]
        exact hone
    · exact .inr ⟨m, rest ++ [n], rfl, hm, htrigger⟩

theorem Canvas.step_drawn (hc : c.Drawn) (h : c.step e = some c') : c'.Drawn := by
  obtain ⟨hnodes, hselected, hle⟩ := Canvas.step_redrawn hc h
  refine ⟨?_, hselected, hc.nodeID.trans hle, hnodes.headed hc.nodeID hc.headed⟩
  generalize c'.nodes = nodes at hnodes
  intro n hn
  cases hnodes with
  | change hid htype hplain =>
    obtain ⟨m, hm, rfl⟩ := List.mem_map.1 hn
    exact hplain m (hc.nodes m hm)
  | remove ids => exact hc.nodes n (List.mem_of_mem_filter hn)
  | drop hid hplain =>
    rcases List.mem_append.1 hn with hn | hn
    · exact hc.nodes n hn
    · obtain rfl := List.mem_singleton.1 hn
      exact hplain

theorem starter_drawn : starter.Drawn := by
  refine ⟨fun n hn => ?_, fun n hn => ?_, le_rfl, .inr ⟨_, _, rfl, rfl, rfl⟩⟩
  · simp only [starter, List.mem_cons, List.not_mem_nil, or_false] at hn
    rcases hn with rfl | rfl | rfl | rfl <;> exact ⟨by decide, rfl⟩
  · cases hn

theorem drawn_of_run (hc : Runs.run Canvas.step starter edits = some c) : c.Drawn :=
  Runs.inv_run (fun _ _ _ hs h => Canvas.step_drawn hs h) hc starter_drawn

/-! ### The saved template -/

theorem StepNode.stepKnown_iff (hn : n.Plain) : StepKnown n.step ↔ n.stepType ∉ triggerTypes.map (·.1) := by
  have htype : Workflows.stepType n.step = .str n.stepType := rfl
  have hpalette := hn.palette
  unfold StepKnown
  rw [htype]
  simp only [triggerTypes, stepTypes, List.cons_append, List.nil_append, List.map_cons, List.map_nil, List.mem_cons,
    List.not_mem_nil, or_false, Json.str.injEq] at hpalette ⊢
  rcases hpalette with h | h | h | h | h | h | h <;> rw [h] <;> decide

variable {t : WorkflowTemplate}

theorem straight_of_drawn (hc : c.Drawn) (ht : t.steps = c.saveWorkflow.steps) : t.Straight := by
  intro step hstep config hconfig
  rw [ht] at hstep
  obtain ⟨n, hn, rfl⟩ := List.mem_map.1 hstep
  have hsaved : some (n.config.getD []) = some config := hconfig
  rw [← Option.some.inj hsaved]
  exact (hc.nodes n hn).noElse

theorem front_of_drawn (hc : c.Drawn) (ht : t.steps = c.saveWorkflow.steps) : t.front = c.front.length := by
  unfold WorkflowTemplate.front Canvas.front
  rw [ht]
  have hnodes := hc.nodes
  show ((c.nodes.map StepNode.step).takeWhile _).length = _
  generalize c.nodes = nodes at hnodes ⊢
  rw [List.takeWhile_map, List.length_map]
  congr 1
  induction nodes with
  | nil => rfl
  | cons n nodes ih =>
    have hsame := StepNode.stepKnown_iff (hnodes n List.mem_cons_self)
    rw [List.takeWhile_cons, List.takeWhile_cons, ih fun m hm => hnodes m (List.mem_cons_of_mem _ hm)]
    simp only [Function.comp_apply, hsame]

/-- While the starter's trigger is there, no node stands in front of the first trigger. -/
theorem front_of_headed (hc : c.Drawn) (hkept : ∃ n ∈ c.nodes, n.id = "1") :
    c.front.length = 0 ∧ 0 < c.nodes.length := by
  obtain ⟨m, hm, hone⟩ := hkept
  rcases hc.headed with hnone | ⟨n, rest, hnodes, -, htrigger⟩
  · exact absurd hone (hnone m hm)
  · refine ⟨?_, List.length_pos_of_mem hm⟩
    rw [Canvas.front, hnodes, List.takeWhile_cons_of_neg]
    · rfl
    · rw [htrigger]
      decide

/-- Whatever was drawn, a run of what is saved takes the nodes one after another in the order they were dropped, no
further than the first trigger; there it stays, and waits for nothing. -/
theorem saved_in_order (hc : Runs.run Canvas.step starter edits = some c) {pre post : List Event} {save : Event}
    (hsave : save.request = .createTemplate c.saveWorkflow) {τ : Uuid} (hfree : (afterEvents pre).templates τ = none)
    (ht : (save.run (afterEvents pre)).templates τ = some t) :
    (∀ (e : Event) (en : Entry), e.entry (afterEvents (pre ++ save :: post)) = some en → en.run.templateID = τ →
      (e.visits (afterEvents (pre ++ save :: post))).IsChain (fun v w => w.run.currentStep = v.run.currentStep + 1) ∧
        ∀ v ∈ e.visits (afterEvents (pre ++ save :: post)), ∃ p ≤ c.front.length, v.run.currentStep = p ∧
          v.step en.template = c.nodes[p]?.map StepNode.step) ∧
    ∀ id run, (afterEvents (pre ++ save :: post)).runs id = some run → run.templateID = τ →
      run.currentStep = c.front.length → c.front.length < c.nodes.length → run.status = .running ∧
        ∀ later, (afterEvents (pre ++ save :: post ++ later)).runs id = some run ∧
          (afterEvents (pre ++ save :: post ++ later)).Idle id := by
  have hdrawn := drawn_of_run hc
  have hsteps := (Event.template_of_run hsave hfree ht).1
  have hfront := front_of_drawn hdrawn hsteps
  have hstraight := straight_of_drawn hdrawn hsteps
  have hheld : (afterEvents (pre ++ save :: post)).Held τ t fun _ => True :=
    afterEvents_held hsave hfree ht hstraight
  have hlength : t.steps.length = c.nodes.length := by
    rw [hsteps]
    exact List.length_map _
  refine ⟨fun e en hentry hτ => ?_, fun id run hrun hτ hat hlen => ?_⟩
  · obtain ⟨rfl, hchain, hwithin⟩ := visits_of_held hstraight hheld hentry hτ
    refine ⟨hchain, fun v hv => ?_⟩
    obtain ⟨hlower, hupper⟩ := hwithin v hv
    obtain ⟨p, hp⟩ := Int.eq_ofNat_of_zero_le hlower
    refine ⟨p, ?_, hp, ?_⟩
    · rw [hp, hfront] at hupper
      exact Int.ofNat_le.1 hupper
    · rw [Visit.step, hp, stepAt_natCast, hsteps]
      exact List.getElem?_map
  · have hrow := hheld.runs id run trivial hrun hτ
    rw [← hfront] at hat hlen
    refine ⟨hrow.running hat (by omega), fun later => ?_⟩
    exact afterEvents_runs_of_idle hrun (hrow.idle hat)

/-- As long as the starter's trigger is on the canvas, what is saved does nothing: every run of it is at that trigger,
running and waiting for nothing, and no request for one executes an action. -/
theorem starter_never_runs (hc : Runs.run Canvas.step starter edits = some c) (hkept : ∃ n ∈ c.nodes, n.id = "1")
    {pre post : List Event} {save : Event} (hsave : save.request = .createTemplate c.saveWorkflow) {τ : Uuid}
    (hfree : (afterEvents pre).templates τ = none) (ht : (save.run (afterEvents pre)).templates τ = some t) :
    (∀ id run, (afterEvents (pre ++ save :: post)).runs id = some run → run.templateID = τ →
      run.status = .running ∧ run.currentStep = 0 ∧ (afterEvents (pre ++ save :: post)).Idle id) ∧
    ∀ (e : Event) (en : Entry), e.entry (afterEvents (pre ++ save :: post)) = some en → en.run.templateID = τ →
      ∀ v ∈ e.visits (afterEvents (pre ++ save :: post)), v.action? en.template = none := by
  have hdrawn := drawn_of_run hc
  have hsteps := (Event.template_of_run hsave hfree ht).1
  have hfront := front_of_drawn hdrawn hsteps
  have hstraight := straight_of_drawn hdrawn hsteps
  have hheld : (afterEvents (pre ++ save :: post)).Held τ t fun _ => True :=
    afterEvents_held hsave hfree ht hstraight
  obtain ⟨hzero, hpos⟩ := front_of_headed hdrawn hkept
  have hlen : t.front < t.steps.length := by
    rw [hfront, hzero, hsteps]
    exact hpos.trans_eq (List.length_map _).symm
  rw [hzero] at hfront
  refine ⟨fun id run hrun hτ => ?_, fun e en hentry hτ v hv => ?_⟩
  · have hrow := hheld.runs id run trivial hrun hτ
    have hlower := hrow.lower
    have hupper := hrow.upper
    have hat : run.currentStep = t.front := by omega
    exact ⟨hrow.running hat hlen, by omega, hrow.idle hat⟩
  · obtain ⟨rfl, -, hwithin⟩ := visits_of_held hstraight hheld hentry hτ
    obtain ⟨hlower, hupper⟩ := hwithin v hv
    have hat : v.run.currentStep = en.template.front := by omega
    obtain ⟨step, hstep, hunknown⟩ := exists_stepAt_front hlen
    have haction : stepType step ≠ .str "action" := fun h => hunknown (by simp [StepKnown, h])
    simp [Visit.action?, Visit.step, hat, hstep, haction]

/-! ### The canvas as it starts, and with the trigger at the end -/

def saveCanvas (c : Canvas) : Event := ⟨plainEnv, adminOf "a", .createTemplate c.saveWorkflow⟩

def startSaved : Event := ⟨plainEnv, adminOf "a", .startRun "template" []⟩

/-- The trigger and the approval are removed, and a trigger is dropped. -/
def triggerLast : List Edit := [.remove ["1", "2"], .drop "trigger_manual" (.num 250) (.num 600)]

def triggerLastCanvas : Canvas where
  nodes :=
    [⟨"3", "action", "Move files", "Move selected files to archive", none, .num 250, .num 340⟩,
      ⟨"4", "notify", "Notify team", "Send Slack message on completion", none, .num 250, .num 480⟩,
      ⟨"101", "trigger_manual", "New manual", "", none, .num 250, .num 600⟩]
  edges := [⟨"3", "4", none⟩]
  nodeID := 101
  selectedNode := none
  workflowName := "New workflow"

theorem run_triggerLast : Runs.run Canvas.step starter triggerLast = some triggerLastCanvas := rfl

/-- Its run goes on to the dropped trigger and is left there, whatever follows. -/
theorem saved_in_order_triggerLast : ∃ run, (afterEvents [saveCanvas triggerLastCanvas, startSaved]).runs "run" = some run ∧
    run.currentStep = 2 ∧ run.status = .running ∧
      ∀ later, (afterEvents ([saveCanvas triggerLastCanvas, startSaved] ++ later)).runs "run" = some run := by
  have hstores : ((saveCanvas triggerLastCanvas).run (afterEvents [])).templates "template" ≠ none := by decide
  obtain ⟨t, ht⟩ := Option.ne_none_iff_exists'.1 hstores
  have hrow : ((afterEvents [saveCanvas triggerLastCanvas, startSaved]).runs "run").map
      (fun run => (run.templateID, run.currentStep)) = some ("template", 2) := by decide
  obtain ⟨run, hrun, hproj⟩ := Option.map_eq_some_iff.1 hrow
  obtain ⟨hτ, hat⟩ := Prod.mk.inj hproj
  have hfree : (afterEvents []).templates "template" = none := rfl
  have hsave : (saveCanvas triggerLastCanvas).request = .createTemplate triggerLastCanvas.saveWorkflow := rfl
  have hends := (saved_in_order run_triggerLast hsave hfree ht).2 "run" run hrun hτ hat (by decide)
  exact ⟨run, hrun, hat, hends.1, fun later => (hends.2 later).1⟩

/-- A run of the canvas as it starts. -/
theorem starter_never_runs_started : ∃ run, (afterEvents [saveCanvas starter, startSaved]).runs "run" = some run ∧
    run.status = .running ∧ run.currentStep = 0 := by
  have hstores : ((saveCanvas starter).run (afterEvents [])).templates "template" ≠ none := by decide
  obtain ⟨t, ht⟩ := Option.ne_none_iff_exists'.1 hstores
  have hrow : ((afterEvents [saveCanvas starter, startSaved]).runs "run").map (·.templateID) = some "template" := by
    decide
  obtain ⟨run, hrun, hτ⟩ := Option.map_eq_some_iff.1 hrow
  have hc : Runs.run Canvas.step starter [] = some starter := rfl
  have hkept : ∃ n ∈ starter.nodes, n.id = "1" := ⟨_, List.mem_cons_self, rfl⟩
  have hfree : (afterEvents []).templates "template" = none := rfl
  have hsave : (saveCanvas starter).request = .createTemplate starter.saveWorkflow := rfl
  have hnever := (starter_never_runs hc hkept hsave hfree ht).1 "run" run hrun hτ
  exact ⟨run, hrun, hnever.1, hnever.2.1⟩

end Dgraphai.WorkflowCanvas
