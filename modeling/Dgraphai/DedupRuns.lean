import Dgraphai.SyncDelta
import Mathlib.Data.List.Nodup

/-!
# Runs of deduplicating upserts

`ON CREATE` replaces the properties of the new node, its `id` among them, so no File node ever has an
`id` and no later `MERGE` finds one: the File nodes of a graph are the log of the rows applied to it
(`Tracks`). Hence a pair of node id and tenant has one node exactly while no row came twice, and a
chunk leaves the File nodes alone exactly if it applies no row (`dedup_idempotent_iff`).
-/

namespace Dgraphai.Dedup

open PropertyGraph (Graph Node Props)

variable {E : Env} {g g' : Graph} {log : List (String × String)} {nodeID tenantID agentID datetime : String}
  {s : State}

def files (g : Graph) : List Node := g.labelled "File"

/-- The File nodes are one node without `id` for each entry of the log. -/
structure Tracks (g : Graph) (log : List (String × String)) : Prop where
  label : ∀ n ∈ files g, n.labels = ["File"]
  noID : ∀ n ∈ files g, n.props "id" = none
  keys : (files g).map (fun n => (n.props "node_id", n.props "tenant_id")) =
    log.map fun p => (some (.str p.1), some (.str p.2))
  fresh : g.FreshEid

theorem tracks_empty : Tracks PropertyGraph.empty [] where
  label := fun n hn => by cases hn
  noID := fun n hn => by cases hn
  keys := rfl
  fresh := fun n hn => by cases hn

/-- From a tracked graph, `g'` is reached by adding File nodes for the entries `added`. -/
structure Appends (g g' : Graph) (log added : List (String × String)) : Prop where
  tracks : Tracks g' (log ++ added)
  nextEid : g.nextEid ≤ g'.nextEid
  files : ∃ new, files g' = files g ++ new ∧ new.length = added.length ∧ ∀ n ∈ new, g.nextEid ≤ n.eid

namespace Appends

variable {g₁ g₂ : Graph} {added₁ added₂ : List (String × String)}

theorem refl (h : Tracks g log) : Appends g g log [] where
  tracks := by rwa [List.append_nil]
  nextEid := Nat.le_refl _
  files := ⟨[], (List.append_nil _).symm, rfl, fun n hn => by cases hn⟩

theorem trans (h₁ : Appends g g₁ log added₁) (h₂ : Appends g₁ g₂ (log ++ added₁) added₂) :
    Appends g g₂ log (added₁ ++ added₂) := by
  obtain ⟨new₁, hfiles₁, hlen₁, heid₁⟩ := h₁.files
  obtain ⟨new₂, hfiles₂, hlen₂, heid₂⟩ := h₂.files
  refine ⟨?_, Nat.le_trans h₁.nextEid h₂.nextEid, new₁ ++ new₂, ?_, ?_, fun n hn => ?_⟩
  · rw [← List.append_assoc]
    exact h₂.tracks
  · rw [hfiles₂, hfiles₁, List.append_assoc]
  · rw [List.length_append, List.length_append, hlen₁, hlen₂]
  · rcases List.mem_append.1 hn with hn | hn
    · exact heid₁ n hn
    · exact Nat.le_trans h₁.nextEid (heid₂ n hn)

/-- A run of steps that each append. -/
theorem foldl {σ α : Type} (graph : σ → Graph) {step : σ → α → σ} {added : α → List (String × String)}
    (hstep : ∀ s log a, Tracks (graph s) log → Appends (graph s) (graph (step s a)) log (added a)) {s : σ}
    (h : Tracks (graph s) log) (as : List α) :
    Appends (graph s) (graph (as.foldl step s)) log (as.flatMap added) := by
  induction as generalizing s log with
  | nil => exact .refl h
  | cons a as ih =>
    have hone := hstep s log a h
    have hrest := ih hone.tracks
    exact hone.trans hrest

end Appends

/-! ### One row -/

theorem Tracks.matched_eq_nil (h : Tracks g log) (nodeID tenantID : String) :
    g.matched (some "File") (fileKey nodeID tenantID) = [] := by
  refine Graph.matched_eq_nil (k := "id") (v := .str nodeID) List.mem_cons_self fun n hn hv => ?_
  have hnone : n.props "id" = none := h.noID n hn
  rw [hnone] at hv
  cases hv

/-- `MERGE` on File with an `ON CREATE` that drops `id` and sets `node_id` and `tenant_id`. -/
theorem Tracks.merge (h : Tracks g log) {onCreate onMatch : Props → Props}
    (hid : ∀ p, onCreate p "id" = none) (hnode : ∀ p, onCreate p "node_id" = some (.str nodeID))
    (htenant : ∀ p, onCreate p "tenant_id" = some (.str tenantID)) :
    Appends g (g.merge "File" (fileKey nodeID tenantID) onCreate onMatch) log [(nodeID, tenantID)] := by
  have hmatched := h.matched_eq_nil nodeID tenantID
  have hfiles : files (g.merge "File" (fileKey nodeID tenantID) onCreate onMatch) =
      files g ++ [g.created "File" (fileKey nodeID tenantID) onCreate] :=
    Graph.labelled_merge_of_matched_eq_nil hmatched
  refine ⟨⟨?_, ?_, ?_, h.fresh.merge⟩, Graph.nextEid_le_merge, _, hfiles, rfl, fun n hn => ?_⟩
  · rw [hfiles]
    intro n hn
    rcases List.mem_append.1 hn with hn | hn
    · exact h.label n hn
    · obtain rfl := List.mem_singleton.1 hn
      rfl
  · rw [hfiles]
    intro n hn
    rcases List.mem_append.1 hn with hn | hn
    · exact h.noID n hn
    · obtain rfl := List.mem_singleton.1 hn
      exact hid _
  · rw [hfiles, List.map_append, h.keys, List.map_append]
    show _ ++ [(onCreate _ "node_id", onCreate _ "tenant_id")] = _
    rw [hnode, htenant]
    rfl
  · obtain rfl := List.mem_singleton.1 hn
    exact Nat.le_refl g.nextEid

theorem Row.toMap_id (row : Row) : Props.ofMap row.toMap "id" = none := by
  have h : Json.field? row.toMap "id" = none := by
    simp [Row.toMap, Json.field?]
  rw [Props.ofMap, h, Option.filter_none]

theorem Row.toMap_node_id (row : Row) : Props.ofMap row.toMap "node_id" = some (.str row.nodeID) := by
  have h : Json.field? row.toMap "node_id" = some (.str row.nodeID) := by
    simp [Row.toMap, Json.field?]
  rw [Props.ofMap, h]
  rfl

theorem Tracks.upsertRow (h : Tracks g log) (tenantID agentID datetime : String) (row : Row) :
    Appends g (upsertRow tenantID agentID datetime g row) log [(row.nodeID, tenantID)] := by
  refine h.merge (fun p => ?_) (fun p => ?_) fun p => ?_
  · rw [Props.set_ne (by decide), Props.set_ne (by decide), Props.set_ne (by decide),
      Props.set_ne (by decide), Row.toMap_id]
  · rw [Props.set_ne (by decide), Props.set_ne (by decide), Props.set_ne (by decide),
      Props.set_ne (by decide), Row.toMap_node_id]
  · rw [Props.set_ne (by decide), Props.set_ne (by decide), Props.set_ne (by decide),
      Props.set_self (by simp)]

theorem Tracks.upsertFile (h : Tracks g log) {props : Json.Fields} {p : UpsertParams} (datetime : String)
    (hp : upsertCypher E props agentID tenantID = some p) :
    Appends g (upsertFile p datetime g) log [(p.nodeID, p.tenantID)] := by
  obtain ⟨nodeID, -, hp⟩ := Option.bind_eq_some_iff.1 hp
  cases hp
  refine h.merge (fun q => ?_) (fun q => ?_) fun q => ?_
  · rw [Props.set_ne (by decide), Props.set_ne (by decide), Props.set_ne (by decide), Props.ofMap]
    simp [Json.field?]
  · rw [Props.set_ne (by decide), Props.set_ne (by decide), Props.set_ne (by decide), Props.ofMap]
    simp [Json.field?]
  · rw [Props.set_ne (by decide), Props.set_ne (by decide), Props.set_ne (by decide), Props.ofMap]
    simp [Json.field?]

/-! ### One chunk -/

/-- The log entries of rows. -/
def logged (tenantID : String) (rows : List Row) : List (String × String) :=
  rows.map fun r => (r.nodeID, tenantID)

theorem Tracks.bulkUpsert (h : Tracks g log) (tenantID agentID datetime : String) (rows : List Row) :
    Appends g (bulkUpsert rows tenantID agentID datetime g) log (logged tenantID rows) := by
  have hrun := Appends.foldl id (fun _ _ row h => h.upsertRow tenantID agentID datetime row) h rows
  rwa [← List.map_eq_flatMap] at hrun

/-- A statement that leaves the File nodes of a tracked graph as they are. -/
def KeepsFiles (effect : Graph → Graph) : Prop := ∀ g log, Tracks g log → Appends g (effect g) log []

theorem Tracks.of_files_eq (h : Tracks g log) (hfiles : files g' = files g) (hfresh : g'.FreshEid)
    (hnext : g.nextEid ≤ g'.nextEid) : Appends g g' log [] := by
  refine ⟨⟨?_, ?_, ?_, hfresh⟩, hnext, [], ?_, rfl, fun n hn => by cases hn⟩
  · rw [hfiles]
    exact h.label
  · rw [hfiles]
    exact h.noID
  · rw [hfiles, List.append_nil]
    exact h.keys
  · rw [hfiles, List.append_nil]

theorem upsertNode_keepsFiles {label : String} {id : Json} {props : Json.Fields} (hne : label ≠ "File") :
    KeepsFiles (upsertNode tenantID label id props) := by
  intro g log h
  have hfiles : files (upsertNode tenantID label id props g) = files g := by
    refine Graph.labelled_merge_of_ne hne fun n hn hlabel => ?_
    rw [h.label n hn, List.mem_singleton] at hlabel
    exact hne hlabel
  exact h.of_files_eq hfiles h.fresh.merge Graph.nextEid_le_merge

theorem mergeRels_keepsFiles {type : String} {props source target : Json.Fields} :
    KeepsFiles fun g => g.mergeRels type props source target := by
  intro g log h
  obtain ⟨hnodes, hnext⟩ := Graph.nodes_mergeRels (g := g) type props source target
  have hfiles : files (g.mergeRels type props source target) = files g := by
    rw [files, files, Graph.labelled, Graph.labelled, hnodes]
  refine h.of_files_eq hfiles (fun n hn => ?_) (Nat.le_of_eq hnext.symm)
  rw [hnodes] at hn
  rw [hnext]
  exact h.fresh n hn

def Statement.KeepsFiles : Statement → Prop
  | .runs effect => Dedup.KeepsFiles effect
  | _ => True

theorem nodeStatement_keepsFiles {node : Json.Fields} (h : isFileNode E node = some false) :
    (nodeStatement tenantID node).KeepsFiles := by
  unfold nodeStatement
  split
  · trivial
  · rename_i op hop
    split_ifs with hupsert
    · trivial
    · split
      · rename_i label id props hlabel hid hprops
        split_ifs with hnull
        · trivial
        · refine upsertNode_keepsFiles fun hfile => ?_
          obtain ⟨type, htype, htext⟩ := Option.bind_eq_some_iff.1 hlabel
          have hFile : type = .str "File" := by
            cases type <;> simp [labelText] at htext
            · exact absurd (htext.trans hfile) (by decide)
            · rename_i b
              cases b <;> exact absurd (htext.trans hfile) (by decide)
            · rw [htext, hfile]
          have hget : Json.getD node "type" .null = .str "File" := by
            rw [Json.getD, htype, hFile, Option.getD_some]
          rw [isFileNode, if_pos hget] at h
          cases h
      · trivial

theorem edgeStatement_keepsFiles {edge : Json.Fields} : (edgeStatement tenantID edge).KeepsFiles := by
  unfold edgeStatement
  split
  · trivial
  · split_ifs with hupsert
    · trivial
    · split
      · exact mergeRels_keepsFiles
      · trivial

theorem runStatements_appends (accepted : Nat → Bool) {stmts : List Statement} (i : Nat)
    (hall : ∀ st ∈ stmts, st.KeepsFiles) (h : Tracks g log) :
    Appends g (runStatements accepted i stmts g).1 log [] := by
  refine runStatements_inv (Appends g · log []) accepted (fun effect heffect g' hg' => ?_) i (.refl h)
  have hone : KeepsFiles effect := hall (.runs effect) heffect
  exact hg'.trans (hone g' _ hg'.tracks)

theorem splitNodes_others {nodes fs others : List Json.Fields} (h : splitNodes E nodes = some (fs, others)) :
    ∀ node ∈ others, isFileNode E node = some false := by
  induction nodes generalizing fs others with
  | nil =>
    cases h
    intro node hnode
    cases hnode
  | cons n nodes ih =>
    obtain ⟨isFile, hfile, h⟩ := Option.bind_eq_some_iff.1 h
    obtain ⟨⟨fs', others'⟩, hsplit, h⟩ := Option.bind_eq_some_iff.1 h
    cases isFile with
    | true =>
      cases h
      exact ih hsplit
    | false =>
      cases h
      intro node hnode
      rcases List.mem_cons.1 hnode with rfl | hnode
      · exact hfile
      · exact ih hsplit node hnode

/-! ### One delivery -/

theorem syncBackend_appends (chunk : DeltaChunk) (O : Outcome) (tally : Tally) {others : List Json.Fields}
    (hothers : ∀ node ∈ others, isFileNode E node = some false) (h : Tracks g log) :
    Appends g (syncBackend chunk O others g tally).1 log [] := by
  have hnodes : ∀ st ∈ others.map (nodeStatement chunk.tenantID), st.KeepsFiles := by
    intro st hst
    obtain ⟨node, hnode, rfl⟩ := List.mem_map.1 hst
    exact nodeStatement_keepsFiles (hothers node hnode)
  have hedges : ∀ st ∈ chunk.edges.map (edgeStatement chunk.tenantID), st.KeepsFiles := by
    intro st hst
    obtain ⟨edge, -, rfl⟩ := List.mem_map.1 hst
    exact edgeStatement_keepsFiles
  have h₁ := runStatements_appends O.accepted 0 hnodes h
  exact h₁.trans (runStatements_appends O.accepted others.length hedges h₁.tracks)

theorem syncFiles_appends (E : Env) (scanner : Scanner) (chunk : DeltaChunk) (O : Outcome)
    (fs : List Json.Fields) (h : Tracks g log) :
    Appends g (syncFiles E scanner chunk O fs g).1 log
      (logged chunk.tenantID (if O.filesAccepted = true then (fileRows E fs).getD [] else [])) := by
  unfold syncFiles
  split_ifs with hempty haccepted haccepted
  · subst hempty
    exact .refl h
  · exact .refl h
  · rw [haccepted]
    rcases fileRows E fs with _ | rows
    · exact .refl h
    · exact h.bulkUpsert chunk.tenantID scanner.id O.datetime rows
  · rw [eq_false_of_ne_true haccepted]
    rcases fileRows E fs with _ | rows
    · exact .refl h
    · exact .refl h

theorem appliedRows_of_split {d : Delivery} {fs others : List Json.Fields}
    (htenant : d.scanner.tenantID = d.chunk.tenantID) (hfound : d.outcome.tenantFound = true)
    (hknown : d.outcome.backendKnown = true) (hsplit : splitNodes E d.chunk.nodes = some (fs, others)) :
    d.appliedRows E = if d.outcome.filesAccepted = true then (fileRows E fs).getD [] else [] := by
  unfold Delivery.appliedRows
  rw [hsplit]
  by_cases haccepted : d.outcome.filesAccepted = true
  · rw [if_pos ⟨htenant, hfound, hknown, haccepted⟩, if_pos haccepted]
    rfl
  · rw [if_neg fun h => haccepted h.2.2.2, if_neg haccepted]

theorem appliedRows_of_refused {d : Delivery} (h : splitNodes E d.chunk.nodes = none ∨
    ¬ (d.scanner.tenantID = d.chunk.tenantID ∧ d.outcome.tenantFound = true ∧ d.outcome.backendKnown = true)) :
    d.appliedRows E = [] := by
  rcases h with hsplit | hno
  · rw [Delivery.appliedRows, hsplit, Option.bind_none, Option.getD_none, ite_self]
  · rw [Delivery.appliedRows, if_neg fun h => hno ⟨h.1, h.2.1, h.2.2.1⟩]

/-- A delivery adds a File node for each row it applies, whatever the databases answer after that. -/
theorem Delivery.run_appends (d : Delivery) (h : Tracks s.graph log) :
    Appends s.graph (d.run E s).graph log (logged d.chunk.tenantID (d.appliedRows E)) := by
  rcases syncDelta_cases E d.scanner d.chunk d.outcome s with
    ⟨⟨e, hr⟩, hrefused⟩ | ⟨fs, others, hsplit, ⟨htenant, hfound, hknown⟩, hr⟩
  · rw [Delivery.run, hr, appliedRows_of_refused hrefused]
    exact .refl h
  · rw [appliedRows_of_split htenant hfound hknown hsplit]
    have hfiles := syncFiles_appends E d.scanner d.chunk d.outcome fs h
    rcases hr with ⟨-, hr⟩ | ⟨-, response, lastHealth, hr, -⟩ <;> rw [Delivery.run, hr]
    · exact hfiles
    · have hbackend := hfiles.trans (syncBackend_appends d.chunk d.outcome
        (syncFiles E d.scanner d.chunk d.outcome fs s.graph).2 (splitNodes_others hsplit) hfiles.tracks)
      rw [List.append_nil] at hbackend
      exact hbackend

/-! ### The law -/

/-- The File nodes of a pair of node id and tenant, whichever property holds the node id. -/
def filesOf (g : Graph) (nodeID tenantID : String) : List Node :=
  (files g).filter fun n => n.props "tenant_id" = some (.str tenantID) ∧
    (n.props "id" = some (.str nodeID) ∨ n.props "node_id" = some (.str nodeID))

def AtMostOne (g : Graph) : Prop := ∀ nodeID tenantID, (filesOf g nodeID tenantID).length ≤ 1

/-- One node before and after, with the same `id`, paths and agents. -/
def SameFile (n n' : Node) : Prop :=
  n.eid = n'.eid ∧ n.props "id" = n'.props "id" ∧
    (∀ x, x ∈ n.props.items "paths" ↔ x ∈ n'.props.items "paths") ∧
    ∀ x, x ∈ n.props.items "agent_ids" ↔ x ∈ n'.props.items "agent_ids"

def SameFiles (g g' : Graph) : Prop :=
  (∀ n ∈ files g, ∃ n' ∈ files g', SameFile n n') ∧ ∀ n' ∈ files g', ∃ n ∈ files g, SameFile n n'

/-- Along a run from `s` no pair gets two nodes, and none of its requests sent again changes a File node. -/
structure Idempotent {σ α : Type} (graph : σ → Graph) (step : σ → α → σ) (s : σ) (as : List α) : Prop where
  atMostOne : ∀ pre, pre <+: as → AtMostOne (graph (pre.foldl step s))
  resend : ∀ a ∈ as, SameFiles (graph (as.foldl step s)) (graph (step (as.foldl step s) a))

theorem length_filesOf (h : Tracks g log) (nodeID tenantID : String) :
    (filesOf g nodeID tenantID).length = log.count (nodeID, tenantID) := by
  have hpair : ∀ n ∈ files g, (decide (n.props "tenant_id" = some (.str tenantID) ∧
      (n.props "id" = some (.str nodeID) ∨ n.props "node_id" = some (.str nodeID))) = true ↔
      ((n.props "node_id", n.props "tenant_id") == (some (.str nodeID), some (.str tenantID))) = true) := by
    intro n hn
    have hid : n.props "id" = none := h.noID n hn
    rw [decide_eq_true_iff, beq_iff_eq, Prod.mk.injEq, hid]
    simp [and_comm]
  have hinj : ∀ p : String × String,
      ((some (Json.str p.1), some (Json.str p.2)) == (some (Json.str nodeID), some (Json.str tenantID))) =
        (p == (nodeID, tenantID)) := by
    intro p
    rw [Bool.eq_iff_iff, beq_iff_eq, beq_iff_eq]
    simp [Prod.ext_iff]
  calc (filesOf g nodeID tenantID).length
      = (files g).countP (fun n => (n.props "node_id", n.props "tenant_id") ==
          (some (.str nodeID), some (.str tenantID))) := by
        rw [filesOf, ← List.countP_eq_length_filter]
        exact List.countP_congr hpair
    _ = ((files g).map fun n => (n.props "node_id", n.props "tenant_id")).count
          (some (.str nodeID), some (.str tenantID)) := by
        rw [List.count, List.countP_map]
        rfl
    _ = log.count (nodeID, tenantID) := by
        rw [h.keys, List.count, List.countP_map, List.count]
        exact List.countP_congr fun p _ => by rw [← hinj p]; rfl

theorem atMostOne_iff (h : Tracks g log) : AtMostOne g ↔ log.Nodup := by
  rw [List.nodup_iff_count_le_one]
  constructor
  · rintro hone ⟨nodeID, tenantID⟩
    rw [← length_filesOf h]
    exact hone nodeID tenantID
  · intro hnodup nodeID tenantID
    rw [length_filesOf h]
    exact hnodup (nodeID, tenantID)

theorem sameFiles_iff {added : List (String × String)} (h : Tracks g log) (happ : Appends g g' log added) :
    SameFiles g g' ↔ added = [] := by
  obtain ⟨new, hfiles, hlen, heid⟩ := happ.files
  constructor
  · rintro ⟨-, hback⟩
    rcases new with _ | ⟨n', new⟩
    · exact List.eq_nil_of_length_eq_zero hlen.symm
    · have hmem : n' ∈ files g' := by rw [hfiles]; simp
      obtain ⟨n, hn, hsame, -⟩ := hback n' hmem
      have hlt : n.eid < g.nextEid := h.fresh n (List.mem_filter.1 hn).1
      have hge : g.nextEid ≤ n'.eid := heid n' List.mem_cons_self
      omega
  · rintro rfl
    have hnil : new = [] := List.eq_nil_of_length_eq_zero hlen
    have hsame : files g' = files g := by rw [hfiles, hnil, List.append_nil]
    rw [SameFiles, hsame]
    exact ⟨fun n hn => ⟨n, hn, rfl, rfl, fun _ => .rfl, fun _ => .rfl⟩,
      fun n hn => ⟨n, hn, rfl, rfl, fun _ => .rfl, fun _ => .rfl⟩⟩

section Runs

variable {σ α : Type} (graph : σ → Graph) {step : σ → α → σ} {added : α → List (String × String)} {s₀ : σ}

/-- While the pairs of the applied rows are distinct, and no longer. -/
theorem atMostOne_run_iff
    (hstep : ∀ s log a, Tracks (graph s) log → Appends (graph s) (graph (step s a)) log (added a))
    (h₀ : Tracks (graph s₀) []) (as : List α) :
    (∀ pre, pre <+: as → AtMostOne (graph (pre.foldl step s₀))) ↔ (as.flatMap added).Nodup := by
  have htracks : ∀ pre : List α, Tracks (graph (pre.foldl step s₀)) (pre.flatMap added) := by
    intro pre
    have happ := (Appends.foldl graph hstep h₀ pre).tracks
    rwa [List.nil_append] at happ
  constructor
  · intro h
    exact (atMostOne_iff (htracks as)).1 (h as List.prefix_rfl)
  · rintro h pre ⟨post, rfl⟩
    rw [List.flatMap_append] at h
    exact (atMostOne_iff (htracks pre)).2 (h.sublist (List.sublist_append_left _ _))

/-- Sending anything that applies a row changes the File nodes. -/
theorem sameFiles_run_iff
    (hstep : ∀ s log a, Tracks (graph s) log → Appends (graph s) (graph (step s a)) log (added a))
    (h₀ : Tracks (graph s₀) []) (as : List α) (a : α) :
    SameFiles (graph (as.foldl step s₀)) (graph (step (as.foldl step s₀) a)) ↔ added a = [] := by
  have htracks := (Appends.foldl graph hstep h₀ as).tracks
  exact sameFiles_iff htracks (hstep _ _ a htracks)

theorem idempotent_iff
    (hstep : ∀ s log a, Tracks (graph s) log → Appends (graph s) (graph (step s a)) log (added a))
    (h₀ : Tracks (graph s₀) []) (as : List α) :
    Idempotent graph step s₀ as ↔ ∀ a ∈ as, added a = [] := by
  constructor
  · intro h a ha
    exact (sameFiles_run_iff graph hstep h₀ as a).1 (h.resend a ha)
  · intro h
    have hnil : as.flatMap added = [] := List.flatMap_eq_nil_iff.2 h
    refine ⟨(atMostOne_run_iff graph hstep h₀ as).2 ?_, fun a ha => ?_⟩
    · rw [hnil]
      exact List.nodup_nil
    · exact (sameFiles_run_iff graph hstep h₀ as a).2 (h a ha)

end Runs

/-- A statement of `upsert_cypher`, as one of its callers would run it. -/
structure Upsert where
  props : Json.Fields
  agentID : String
  tenantID : String
  datetime : String
  accepted : Bool

def Upsert.params (E : Env) (u : Upsert) : Option UpsertParams :=
  if u.accepted = true then upsertCypher E u.props u.agentID u.tenantID else none

def Upsert.run (E : Env) (g : Graph) (u : Upsert) : Graph :=
  match u.params E with
  | some p => upsertFile p u.datetime g
  | none => g

def Upsert.logged (E : Env) (u : Upsert) : List (String × String) :=
  ((u.params E).map fun p => (p.nodeID, p.tenantID)).toList

theorem Upsert.run_appends (u : Upsert) (h : Tracks g log) : Appends g (u.run E g) log (u.logged E) := by
  unfold Upsert.run Upsert.logged
  rcases hp : u.params E with _ | p
  · exact .refl h
  · unfold Upsert.params at hp
    split_ifs at hp with haccepted
    exact h.upsertFile u.datetime hp

def Delivery.logged (E : Env) (d : Delivery) : List (String × String) :=
  Dedup.logged d.chunk.tenantID (d.appliedRows E)

/-- The law holds of a run of deliveries exactly if they apply no File row at all: any chunk with an
applied row creates its nodes again when it is sent again. No pair gets two nodes exactly while all
applied pairs are distinct. The same for `upsert_cypher`, row by row. -/
theorem dedup_idempotent_iff (E : Env) :
    (∀ ds : List Delivery,
      (Idempotent State.graph (fun s d => d.run E s) emptyState ds ↔ ∀ d ∈ ds, d.appliedRows E = []) ∧
      ((∀ pre, pre <+: ds → AtMostOne (afterDeliveries E pre).graph) ↔ (ds.flatMap (·.logged E)).Nodup)) ∧
    ∀ us : List Upsert,
      (Idempotent id (fun g u => u.run E g) PropertyGraph.empty us ↔ ∀ u ∈ us, u.params E = none) ∧
      ((∀ pre, pre <+: us → AtMostOne (pre.foldl (fun g u => u.run E g) PropertyGraph.empty)) ↔
        (us.flatMap (·.logged E)).Nodup) := by
  have hdelivery : ∀ s log (d : Delivery), Tracks s.graph log →
      Appends s.graph (d.run E s).graph log (d.logged E) := fun s log d h => d.run_appends h
  have hupsert : ∀ g log (u : Upsert), Tracks (id g) log → Appends (id g) (id (u.run E g)) log (u.logged E) :=
    fun g log u h => u.run_appends h
  refine ⟨fun ds => ⟨?_, ?_⟩, fun us => ⟨?_, ?_⟩⟩
  · rw [idempotent_iff State.graph hdelivery tracks_empty ds]
    exact forall₂_congr fun d _ => by rw [Delivery.logged, logged, List.map_eq_nil_iff]
  · exact atMostOne_run_iff State.graph hdelivery tracks_empty ds
  · have hlaw : Idempotent id (fun g u => Upsert.run E g u) PropertyGraph.empty us ↔
        ∀ u ∈ us, u.logged E = [] := idempotent_iff id hupsert tracks_empty us
    refine hlaw.trans ?_
    exact forall₂_congr fun u _ => by
      rw [Upsert.logged, Option.toList_eq_nil_iff, Option.map_eq_none_iff]
  · exact atMostOne_run_iff id hupsert tracks_empty us

/-! ### A chunk that is sent twice -/

def plainEnv : Env := ⟨fun text => text, fun _ => "", fun _ => false⟩

/-- One File row, and every statement goes through. -/
def oneFile : Delivery where
  scanner := ⟨"agent", "t"⟩
  chunk :=
    { scannerID := "agent", tenantID := "t", scanJobID := "job", chunkIndex := 0, isFinal := true
      scannedAt := "2024-01-01", stats := []
      nodes := [[("type", .str "File"), ("props", .obj [("connector_id", .str "c"), ("path", .str "/a")])]]
      edges := [] }
  outcome := ⟨true, true, true, "2024-01-01", true, fun _ => true⟩

/-- The retry of a chunk with one file makes a second node of the file. -/
theorem retry_duplicates_file :
    ¬ ∀ (E : Env) (ds : List Delivery), Idempotent State.graph (fun s d => d.run E s) emptyState ds := by
  intro h
  have hone : AtMostOne (afterDeliveries plainEnv [oneFile, oneFile]).graph :=
    (h plainEnv [oneFile, oneFile]).atMostOne _ List.prefix_rfl
  have htwo : (filesOf (afterDeliveries plainEnv [oneFile, oneFile]).graph "path:c:/a" "t").length = 2 := by
    decide
  have hle := hone "path:c:/a" "t"
  omega

end Dgraphai.Dedup
