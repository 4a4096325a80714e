import Dgraphai.StoredFiles

/-!
# Paths that are no longer seen (`prune_stale_paths_cypher`)

The prune removes the `stale_path` of a File node whose `path_updated_at` is older than the TTL. No statement sets
either property, so a prune changes nothing (`pruneStalePaths_eq`), and a stale path is removed by none: after every
prune the paths are those reported within the TTL exactly if none of the others was ever reported (`pruned_iff`).
-/

namespace Dgraphai.StalePaths

open AgentSync (createdProps)
open Dedup (Env Delivery Row State Tracks files)
open PropertyGraph (Graph Node Props)
open StoredFiles (fileProps)

/-- Times are in nanoseconds. -/
structure Clock where
  /-- `datetime()` at a time. -/
  text : Int → String
  /-- `datetime() > value + duration({days: ttl})` at a time. -/
  expired : Int → Json → Int → Bool

def day : Int := 86400 * 1000000000

variable (E : Env) (C : Clock)

/-! ### The prune -/

/-- The `MATCH` and its `WHERE`. -/
def Prunable (time : Int) (tenantID : String) (ttlDays : Int) (f : Node) : Prop :=
  ("File" ∈ f.labels ∧ f.props "tenant_id" = some (.str tenantID)) ∧
    (f.props "path_updated_at").any (C.expired time · ttlDays) = true

instance (time : Int) (tenantID : String) (ttlDays : Int) (f : Node) : Decidable (Prunable C time tenantID ttlDays f) :=
  inferInstanceAs (Decidable ((_ ∧ _) ∧ _))

/-- `[p IN f.paths WHERE p <> f.stale_path]`: nothing differs from null. `none` raises. -/
def prunedPaths (f : Props) : Option Json :=
  match f "paths" with
  | none => some .null
  | some (.arr paths) =>
    some (.arr (match f "stale_path" with
      | some stale => paths.filter (· ≠ stale)
      | none => []))
  | some _ => none

/-- The statement of `prune_stale_paths_cypher` with the count it returns; `none` raises. -/
def pruneStalePaths (time : Int) (tenantID : String) (ttlDays : Int) (g : Graph) : Option (Graph × Nat) :=
  (g.nodes.mapM fun f =>
    if Prunable C time tenantID ttlDays f then
      (prunedPaths f.props).map fun paths => { f with props := f.props.set "paths" paths }
    else some f).map fun nodes => ({ g with nodes := nodes }, g.nodes.countP (Prunable C time tenantID ttlDays ·))

/-! ### Histories -/

/-- A chunk, or a prune. -/
inductive Event where
  | sync (time : Int) (d : Delivery)
  | prune (time : Int) (tenantID : String) (ttlDays : Int)

def Event.time : Event → Int
  | sync time _ => time
  | prune time _ _ => time

def Event.run (s : State) : Event → State
  | sync time d => { d with outcome := { d.outcome with datetime := C.text time } }.run E s
  | prune time tenantID ttlDays =>
    match pruneStalePaths C time tenantID ttlDays s.graph with
    | some (g, _) => { s with graph := g }
    | none => s

def after (events : List Event) : State := events.foldl (Event.run E C) Dedup.emptyState

/-- A row of an accepted chunk: its content is at its path. -/
structure Report where
  time : Int
  tenantID : String
  agentID : String
  row : Row
  deriving DecidableEq

def Event.reports : Event → List Report
  | sync time d => (d.appliedRows E).map fun row => ⟨time, d.chunk.tenantID, d.scanner.id, row⟩
  | prune _ _ _ => []

/-- A path was reported for the content of a node, at a time or later. -/
def Reported (events : List Event) (tenantID : String) (since : Int) (f : Node) (path : Json) : Prop :=
  ∃ ρ ∈ events.flatMap (Event.reports E), (ρ.tenantID = tenantID ∧ since ≤ ρ.time) ∧
    f.props "node_id" = some (.str ρ.row.nodeID) ∧ path = .str ρ.row.canonPath

/-- A prune leaves the paths that were reported within the TTL, and no others. -/
structure Pruned (events : List Event) (time : Int) (tenantID : String) (ttlDays : Int) : Prop where
  fresh : ∀ f ∈ files (Event.run E C (after E C events) (.prune time tenantID ttlDays)).graph,
    f.props "tenant_id" = some (.str tenantID) → ∀ path ∈ f.props.items "paths",
      Reported E events tenantID (time - ttlDays * day) f path
  kept : ∀ f ∈ files (after E C events).graph, f.props "tenant_id" = some (.str tenantID) →
    ∀ path ∈ f.props.items "paths", Reported E events tenantID (time - ttlDays * day) f path →
      ∃ f' ∈ files (Event.run E C (after E C events) (.prune time tenantID ttlDays)).graph,
        f'.eid = f.eid ∧ path ∈ f'.props.items "paths"

/-- Every prune of a history. -/
def AlwaysPruned (events : List Event) : Prop :=
  ∀ pre time tenantID ttlDays post, events = pre ++ .prune time tenantID ttlDays :: post →
    Pruned E C pre time tenantID ttlDays

/-- At every prune, what its tenant reported before was reported again within the TTL. -/
def NothingStale (events : List Event) : Prop :=
  ∀ pre time tenantID ttlDays post, events = pre ++ .prune time tenantID ttlDays :: post →
    ∀ ρ ∈ pre.flatMap (Event.reports E), ρ.tenantID = tenantID →
      ∃ ρ' ∈ pre.flatMap (Event.reports E), (ρ'.tenantID = tenantID ∧ time - ttlDays * day ≤ ρ'.time) ∧
        ρ'.row.nodeID = ρ.row.nodeID ∧ ρ'.row.canonPath = ρ.row.canonPath

/-! ### What is stored -/

variable {E C} {g : Graph} {s : State} {reports : List Report}

def Report.props (C : Clock) (ρ : Report) : Props := createdProps ρ.row ρ.tenantID ρ.agentID (C.text ρ.time)

theorem Report.props_tenant_id (ρ : Report) : ρ.props C "tenant_id" = some (.str ρ.tenantID) := by
  rw [Report.props, createdProps, Props.set_ne (by decide), Props.set_ne (by decide), Props.set_ne (by decide)]
  exact Props.set_self (by simp)

theorem Report.props_node_id (ρ : Report) : ρ.props C "node_id" = some (.str ρ.row.nodeID) := by
  rw [Report.props, createdProps, Props.set_ne (by decide), Props.set_ne (by decide), Props.set_ne (by decide),
    Props.set_ne (by decide), Dedup.Row.toMap_node_id]

theorem Report.props_paths (ρ : Report) : (ρ.props C).items "paths" = [.str ρ.row.canonPath] := by
  rw [Report.props, createdProps, Props.items_congr (Props.set_ne (by decide)),
    Props.items_congr (Props.set_ne (by decide)), Props.items_set]

theorem Report.props_path_updated_at (ρ : Report) : ρ.props C "path_updated_at" = none := by
  have hrow : Json.field? ρ.row.toMap "path_updated_at" = none := by
    simp [Row.toMap, Json.field?]
  rw [Report.props, createdProps, Props.set_ne (by decide), Props.set_ne (by decide), Props.set_ne (by decide),
    Props.set_ne (by decide), Props.ofMap, hrow, Option.filter_none]

/-- The File nodes are one for each report. -/
structure Stored (C : Clock) (g : Graph) (reports : List Report) : Prop where
  tracks : ∃ log, Tracks g log
  props : fileProps g = reports.map (Report.props C)

theorem Stored.exists_report (h : Stored C g reports) {f : Node} (hf : f ∈ files g) :
    ∃ ρ ∈ reports, f.props = ρ.props C := by
  have hmem : f.props ∈ fileProps g := List.mem_map_of_mem hf
  rw [h.props] at hmem
  obtain ⟨ρ, hρ, heq⟩ := List.mem_map.1 hmem
  exact ⟨ρ, hρ, heq.symm⟩

theorem Stored.exists_file (h : Stored C g reports) {ρ : Report} (hρ : ρ ∈ reports) :
    ∃ f ∈ files g, f.props = ρ.props C := by
  have hmem : ρ.props C ∈ reports.map (Report.props C) := List.mem_map_of_mem hρ
  rw [← h.props] at hmem
  exact List.mem_map.1 hmem

/-- No File node has a time to prune it by. -/
theorem pruneStalePaths_eq (h : Stored C g reports) (time : Int) (tenantID : String) (ttlDays : Int) :
    pruneStalePaths C time tenantID ttlDays g = some (g, 0) := by
  have hnone : ∀ f ∈ g.nodes, ¬ Prunable C time tenantID ttlDays f := by
    rintro f hf ⟨⟨hlabel, -⟩, hexpired⟩
    obtain ⟨ρ, -, hprops⟩ := h.exists_report (List.mem_filter.2 ⟨hf, decide_eq_true hlabel⟩)
    rw [hprops, ρ.props_path_updated_at] at hexpired
    cases hexpired
  have hnodes : (g.nodes.mapM fun f => if Prunable C time tenantID ttlDays f then
      (prunedPaths f.props).map fun paths => { f with props := f.props.set "paths" paths } else some f) =
      some g.nodes := by
    generalize g.nodes = nodes at hnone
    induction nodes with
    | nil => rfl
    | cons f nodes ih =>
      rw [List.forall_mem_cons] at hnone
      rw [List.mapM_cons, if_neg hnone.1, ih hnone.2]
      rfl
  have hcount : g.nodes.countP (Prunable C time tenantID ttlDays ·) = 0 :=
    List.countP_eq_zero.2 fun f hf hp => hnone f hf (of_decide_eq_true hp)
  rw [pruneStalePaths, hnodes, hcount]
  rfl

theorem Stored.prune (h : Stored C s.graph reports) (time : Int) (tenantID : String) (ttlDays : Int) :
    Event.run E C s (.prune time tenantID ttlDays) = s := by
  show (match pruneStalePaths C time tenantID ttlDays s.graph with
    | some (g, _) => { s with graph := g }
    | none => s) = s
  rw [pruneStalePaths_eq h]

theorem Stored.run (h : Stored C s.graph reports) (e : Event) :
    Stored C (e.run E C s).graph (reports ++ e.reports E) := by
  cases e with
  | sync time d =>
    obtain ⟨log, htracks⟩ := h.tracks
    refine ⟨⟨_, (Delivery.run_appends _ htracks).tracks⟩, ?_⟩
    show fileProps (Delivery.run E _ s).graph = _
    rw [StoredFiles.fileProps_run htracks, h.props, List.map_append, Event.reports, List.map_map]
    rfl
  | prune time tenantID ttlDays =>
    rw [h.prune, Event.reports, List.append_nil]
    exact h

theorem stored_after (E : Env) (C : Clock) (events : List Event) :
    Stored C (after E C events).graph (events.flatMap (Event.reports E)) := by
  induction events using List.reverseRecOn with
  | nil => exact ⟨⟨[], Dedup.tracks_empty⟩, rfl⟩
  | append_singleton events e ih =>
    have hrun := ih.run (E := E) e
    rw [after, List.foldl_append, List.flatMap_append, List.flatMap_singleton]
    exact hrun

/-! ### The law -/

variable {events : List Event} {time : Int} {tenantID : String} {ttlDays : Int}

/-- One prune. -/
theorem pruned_iff_reported : Pruned E C events time tenantID ttlDays ↔
    ∀ ρ ∈ events.flatMap (Event.reports E), ρ.tenantID = tenantID →
      ∃ ρ' ∈ events.flatMap (Event.reports E), (ρ'.tenantID = tenantID ∧ time - ttlDays * day ≤ ρ'.time) ∧
        ρ'.row.nodeID = ρ.row.nodeID ∧ ρ'.row.canonPath = ρ.row.canonPath := by
  have hstored := stored_after E C events
  constructor
  · intro h ρ hρ htenant
    obtain ⟨f, hf, hprops⟩ := hstored.exists_file hρ
    have hfresh := h.fresh f
    rw [hstored.prune, hprops, ρ.props_tenant_id, ρ.props_paths, htenant] at hfresh
    obtain ⟨ρ', hρ', hwithin, hnode, hpath⟩ := hfresh hf rfl _ (List.mem_singleton_self _)
    rw [hprops, ρ.props_node_id] at hnode
    exact ⟨ρ', hρ', hwithin, (Json.str.inj (Option.some.inj hnode)).symm, (Json.str.inj hpath).symm⟩
  · intro h
    refine ⟨fun f hf htenant path hpath => ?_, fun f hf _ path hpath _ => ?_⟩
    · rw [hstored.prune] at hf
      obtain ⟨ρ, hρ, hprops⟩ := hstored.exists_report hf
      rw [hprops, ρ.props_tenant_id] at htenant
      rw [hprops, ρ.props_paths, List.mem_singleton] at hpath
      obtain ⟨ρ', hρ', hwithin, hnode, hsame⟩ := h ρ hρ (Json.str.inj (Option.some.inj htenant))
      refine ⟨ρ', hρ', hwithin, ?_, ?_⟩
      · rw [hprops, ρ.props_node_id, hnode]
      · rw [hpath, hsame]
    · rw [hstored.prune]
      exact ⟨f, hf, rfl, hpath⟩

/-- Stale paths are removed from a history exactly if it has none. -/
theorem pruned_iff (E : Env) (C : Clock) (events : List Event) : AlwaysPruned E C events ↔ NothingStale E events := by
  constructor
  · intro h pre time tenantID ttlDays post hsplit
    exact pruned_iff_reported.1 (h pre time tenantID ttlDays post hsplit)
  · intro h pre time tenantID ttlDays post hsplit
    exact pruned_iff_reported.2 (h pre time tenantID ttlDays post hsplit)

/-! ### A file that was moved -/

def plainClock : Clock := ⟨fun _ => "", fun _ _ _ => true⟩

/-- A file was seen once, and eight days later the paths are pruned with a TTL of seven days. -/
def seenOnce : List Event := [.sync 0 Dedup.oneFile, .prune (8 * day) "t" 7]

theorem stale_path_remains : ¬ ∀ (E : Env) (C : Clock) (events : List Event), (events.map Event.time).Pairwise (· ≤ ·) →
    AlwaysPruned E C events := by
  intro h
  have hpruned := h Dedup.plainEnv plainClock seenOnce (by decide) [.sync 0 Dedup.oneFile] (8 * day) "t" 7 [] rfl
  have hfile : ∃ f ∈ files (Event.run Dedup.plainEnv plainClock (after Dedup.plainEnv plainClock [.sync 0 Dedup.oneFile])
      (.prune (8 * day) "t" 7)).graph, f.props "tenant_id" = some (.str "t") ∧ f.props.items "paths" ≠ [] := by
    decide +kernel
  obtain ⟨f, hf, htenant, hpaths⟩ := hfile
  obtain ⟨path, hpath⟩ := List.exists_mem_of_ne_nil _ hpaths
  obtain ⟨ρ, hρ, ⟨-, hsince⟩, -⟩ := hpruned.fresh f hf htenant path hpath
  have hlate : ∀ ρ ∈ [Event.sync 0 Dedup.oneFile].flatMap (Event.reports Dedup.plainEnv), ρ.time < 8 * day - 7 * day := by
    decide +kernel
  exact absurd hsince (Int.not_le.2 (hlate ρ hρ))

end Dgraphai.StalePaths
