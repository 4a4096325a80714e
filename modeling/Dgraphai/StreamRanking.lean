import Dgraphai.Lib.StableSort
import Dgraphai.SilentAgents

/-!
# The best source and the ranked ones (`streaming/router.py`)

`select_source` leaves out the excluded agents and sorts the others, `ranked_sources` sorts all of them. Since the sort
is stable the two agree, ties included: over every topology that the methods of the router build, the selected agent is
the first in the ranking that is not excluded, and excluding each answer in turn walks down the ranking
(`selection_agrees`).
-/

namespace Dgraphai.Streaming

/-- `list.sort` is stable; it is asked to order numbers only. -/
def Library.Stable (L : Library) : Prop :=
  ∀ l, (∀ e ∈ l, e.2.isNaN = false) → L.sort l = l.mergeSort fun e e' => decide (e.2 ≤ e'.2)

/-! ### Topologies -/

/-- What `update_from_heartbeat` reads of the payload. -/
structure Health where
  bandwidthMbps : Option Float
  latencyMatrix : Option (PyDict String Float)

def StreamRouter.updateFromHeartbeat (r : StreamRouter) (agentID : String) (health : Health) : StreamRouter :=
  match r.topology.get? agentID with
  | some t => ⟨r.topology.set agentID { t with
      isOnline := true
      bandwidthMbps := health.bandwidthMbps.getD t.bandwidthMbps
      latencyMatrix := (health.latencyMatrix.map t.latencyMatrix.update).getD t.latencyMatrix }⟩
  | none => r

/-- A call of a method that writes to the topology. -/
inductive Update where
  | register (t : AgentTopology)
  | heartbeat (agentID : String) (health : Health)
  | offline (agentID : String)

def Update.run (r : StreamRouter) : Update → StreamRouter
  | register t => r.registerAgent t
  | heartbeat agentID health => r.updateFromHeartbeat agentID health
  | offline agentID => r.markOffline agentID

def routerOf (updates : List Update) : StreamRouter := updates.foldl Update.run .start

/-- Agents stand under their ids. -/
def StreamRouter.Keyed (r : StreamRouter) : Prop := ∀ e ∈ r.topology.entries, e.1 = e.2.agentID

/-! ### Agreement -/

/-- Excludes the answers one after the other; at most so many calls. -/
def StreamRouter.fallbacks (L : Library) (r : StreamRouter) (connectorIDs : List String) (region : String) :
    ℕ → List String → Option (List AgentTopology)
  | 0, _ => some []
  | calls + 1, excludeAgents => do
    match ← r.selectSource L connectorIDs region excludeAgents with
    | some t => (t :: ·) <$> r.fallbacks L connectorIDs region calls (excludeAgents ++ [t.agentID])
    | none => some []

/-- The selection is the first entry of the ranking that is not excluded. -/
structure StreamRouter.Agrees (L : Library) (r : StreamRouter) (connectorIDs : List String) (region : String)
    (ranked : List (AgentTopology × Float)) : Prop where
  selects : ∀ excludeAgents, r.selectSource L connectorIDs region excludeAgents =
    some ((ranked.find? fun e => decide (e.1.agentID ∉ excludeAgents)).map Prod.fst)
  none_iff : ∀ excludeAgents, r.selectSource L connectorIDs region excludeAgents = some none ↔
    ∀ e ∈ ranked, e.1.agentID ∈ excludeAgents
  walks : ∀ calls, r.fallbacks L connectorIDs region calls [] = some ((ranked.map Prod.fst).take calls)

/-- Every agent that a request may choose has a score, which is a number. -/
def StreamRouter.Scored (L : Library) (r : StreamRouter) (connectorIDs : List String) (region : String) : Prop :=
  ∀ t ∈ r.candidates connectorIDs [], ∃ score, t.routingScore L region = some score ∧ score.isNaN = false

variable {L : Library} {r : StreamRouter} {connectorIDs : List String} {region : String}
  {results : List (AgentTopology × Float)}

/-! ### Keys -/

namespace StreamRouter.Keyed

theorem set (h : r.Keyed) {agentID : String} {t : AgentTopology} (ht : agentID = t.agentID) :
    StreamRouter.Keyed ⟨r.topology.set agentID t⟩ := by
  rintro ⟨id, t'⟩ he
  rcases PyDict.mem_set he with heq | he
  · obtain ⟨rfl, rfl⟩ := Prod.mk.inj heq
    exact ht
  · exact h _ he

/-- A method that writes to the entry of an agent leaves its id. -/
theorem run (h : r.Keyed) (u : Update) : (u.run r).Keyed := by
  cases u with
  | register t => exact h.set rfl
  | heartbeat agentID health =>
    simp only [Update.run, StreamRouter.updateFromHeartbeat]
    split
    next t ht => exact h.set (h _ (PyDict.mem_of_get? ht))
    next => exact h
  | offline agentID =>
    simp only [Update.run, StreamRouter.markOffline]
    split
    next t ht => exact h.set (h _ (PyDict.mem_of_get? ht))
    next => exact h

theorem routerOf (updates : List Update) : (routerOf updates).Keyed := by
  have hrun : ∀ (updates : List Update) (r : StreamRouter), r.Keyed → (updates.foldl Update.run r).Keyed := by
    intro updates
    induction updates with
    | nil => exact fun r h => h
    | cons u updates ih => exact fun r h => ih _ (h.run u)
  exact hrun updates .start fun e he => by cases he

theorem nodup_agentIDs (h : r.Keyed) : (r.topology.values.map AgentTopology.agentID).Nodup := by
  have hkeys : r.topology.values.map AgentTopology.agentID = r.topology.entries.map Prod.fst := by
    rw [PyDict.values, List.map_map]
    exact List.map_congr_left fun e he => (h e he).symm
  rw [hkeys]
  exact r.topology.keyed

end StreamRouter.Keyed

/-! ### Scores and sorts -/

theorem scored_filter {agents : List AgentTopology} (h : scored L region agents = some results)
    (keep : AgentTopology → Bool) :
    scored L region (agents.filter keep) = some (results.filter fun e => keep e.1) := by
  induction agents generalizing results with
  | nil =>
    obtain rfl := Option.some.inj h
    rfl
  | cons t agents ih =>
    rw [scored_cons] at h
    obtain ⟨score, hscore, h⟩ := Option.bind_eq_some_iff.1 h
    obtain ⟨rest, hrest, rfl⟩ := Option.map_eq_some_iff.1 h
    rw [List.filter_cons, List.filter_cons]
    split_ifs with hkeep
    · rw [scored_cons, hscore, ih hrest]
      rfl
    · exact ih hrest

/-- Sorting and leaving out change places. -/
theorem Library.Stable.sort_filter (hL : L.Stable) (h : ∀ e ∈ results, e.2.isNaN = false)
    (keep : AgentTopology × Float → Bool) : L.sort (results.filter keep) = (L.sort results).filter keep := by
  have hrank : ∀ l : List (AgentTopology × Float), (∀ e ∈ l, e.2.isNaN = false) →
      L.sort l = l.mergeSort fun e e' => decide (PyFloat.rank (PyFloat.unpacked e.2) ≤ PyFloat.rank (PyFloat.unpacked e'.2)) := by
    intro l hl
    rw [hL l hl]
    refine StableSort.mergeSort_congr fun e he e' he' => ?_
    exact decide_eq_decide.2 (PyFloat.le_iff_rank_le (hl e he) (hl e' he'))
  rw [hrank _ fun e he => h e (List.mem_of_mem_filter he), hrank _ h, StableSort.filter_sortBy]

theorem candidates_eq_filter (excludeAgents : List String) : r.candidates connectorIDs excludeAgents =
    (r.candidates connectorIDs []).filter fun t => decide (t.agentID ∉ excludeAgents) := by
  rw [StreamRouter.candidates, StreamRouter.candidates, List.filter_filter]
  refine List.filter_congr fun t _ => ?_
  rw [← Bool.decide_and]
  exact decide_eq_decide.2 (by simp; tauto)

theorem Library.Stable.sort_perm (hL : L.Stable) (h : ∀ e ∈ results, e.2.isNaN = false) :
    (L.sort results).Perm results := by
  rw [hL results h]
  exact List.mergeSort_perm _ _

/-- The selected agent heads the sort of those that are not excluded. -/
theorem selectSource_eq_find? (hL : L.Stable) (hscored : scored L region (r.candidates connectorIDs []) = some results)
    (hnumbers : ∀ e ∈ results, e.2.isNaN = false) (excludeAgents : List String) :
    r.selectSource L connectorIDs region excludeAgents =
      some (((L.sort results).find? fun e => decide (e.1.agentID ∉ excludeAgents)).map Prod.fst) := by
  have hrest := scored_filter hscored fun t => decide (t.agentID ∉ excludeAgents)
  have hagents := map_fst_scored hrest
  have hsort := hL.sort_filter hnumbers fun e => decide (e.1.agentID ∉ excludeAgents)
  have hkept : ∀ e ∈ results.filter (fun e => decide (e.1.agentID ∉ excludeAgents)), e.2.isNaN = false :=
    fun e he => hnumbers e (List.mem_of_mem_filter he)
  have hperm := hL.sort_perm hkept
  rw [← candidates_eq_filter] at hrest hagents
  rw [← List.head?_filter, ← hsort]
  unfold StreamRouter.selectSource
  split
  next hnil =>
    rw [StreamRouter.candidates, hnil] at hagents
    have hsorted := hperm.trans (.of_eq (List.map_eq_nil_iff.1 hagents))
    rw [List.perm_nil.1 hsorted]
    rfl
  next hne =>
    rw [StreamRouter.candidates] at hrest hagents
    rw [hrest, Option.bind_eq_bind, Option.bind_some]
    -- the sort loses no candidate
    cases hhead : L.sort (results.filter fun e => decide (e.1.agentID ∉ excludeAgents)) with
    | nil =>
      have hnil : results.filter (fun e => decide (e.1.agentID ∉ excludeAgents)) = [] := List.nil_perm.1 (hhead ▸ hperm)
      rw [hnil] at hagents
      exact absurd hagents.symm hne
    | cons best rest => rfl

theorem rankedSources_eq (hscored : scored L region (r.candidates connectorIDs []) = some results) :
    r.rankedSources L connectorIDs region = some (L.sort results) := by
  have hcandidates : (r.topology.values.filter fun t => t.isOnline ∧ t.Has connectorIDs) = r.candidates connectorIDs [] :=
    List.filter_congr fun t _ => decide_eq_decide.2 (by simp)
  rw [StreamRouter.rankedSources, hcandidates, hscored]
  rfl

theorem exists_scored (h : r.Scored L connectorIDs region) :
    ∃ results, scored L region (r.candidates connectorIDs []) = some results ∧ ∀ e ∈ results, e.2.isNaN = false := by
  unfold StreamRouter.Scored at h
  generalize r.candidates connectorIDs [] = agents at h
  induction agents with
  | nil => exact ⟨[], rfl, by simp⟩
  | cons t agents ih =>
    obtain ⟨⟨score, hscore, hnumber⟩, hagents⟩ := List.forall_mem_cons.1 h
    obtain ⟨results, hresults, hnumbers⟩ := ih hagents
    refine ⟨(t, score) :: results, ?_, List.forall_mem_cons.2 ⟨hnumber, hnumbers⟩⟩
    rw [scored_cons, hscore, hresults]
    rfl

/-! ### Fallbacks -/

/-- With the agents of the first entries excluded the others follow in order. -/
theorem fallbacks_eq {ranked : List (AgentTopology × Float)}
    (hselects : ∀ excludeAgents, r.selectSource L connectorIDs region excludeAgents =
      some ((ranked.find? fun e => decide (e.1.agentID ∉ excludeAgents)).map Prod.fst))
    (hnodup : (ranked.map fun e => e.1.agentID).Nodup) (calls : ℕ) :
    ∀ tried rest, ranked = tried ++ rest → r.fallbacks L connectorIDs region calls (tried.map fun e => e.1.agentID) =
      some ((rest.map Prod.fst).take calls) := by
  induction calls with
  | zero => exact fun tried rest _ => rfl
  | succ calls ih =>
    rintro tried rest rfl
    have htried : tried.find? (fun e => decide (e.1.agentID ∉ tried.map fun e => e.1.agentID)) = none := by
      refine List.find?_eq_none.2 fun e he => ?_
      simpa using ⟨e.1, ⟨e.2, he⟩, rfl⟩
    rw [StreamRouter.fallbacks, hselects, List.find?_append, htried, Option.none_or]
    cases rest with
    | nil => simp
    | cons e rest =>
      rw [List.map_append, List.map_cons, List.nodup_append] at hnodup
      have hfresh : e.1.agentID ∉ tried.map fun e => e.1.agentID :=
        fun hmem => hnodup.2.2 _ hmem _ List.mem_cons_self rfl
      have hnext := ih (tried ++ [e]) rest (by simp)
      rw [List.map_append, List.map_singleton] at hnext
      simp [hfresh, hnext]

/-- In every topology whose agents have scores the selection is the first entry of the ranking that is not excluded. -/
theorem selection_agrees (L : Library) (hL : L.Stable) (updates : List Update) (connectorIDs : List String)
    (region : String) (hscores : (routerOf updates).Scored L connectorIDs region) :
    ∃ ranked, (routerOf updates).rankedSources L connectorIDs region = some ranked ∧
      (routerOf updates).Agrees L connectorIDs region ranked := by
  obtain ⟨results, hscored, hnumbers⟩ := exists_scored hscores
  have hselects := selectSource_eq_find? hL hscored hnumbers
  have hnodup : ((L.sort results).map fun e => e.1.agentID).Nodup := by
    have hperm := ((hL.sort_perm hnumbers).map Prod.fst).trans (.of_eq (map_fst_scored hscored))
    have hids := (hperm.map AgentTopology.agentID).nodup_iff
    rw [List.map_map] at hids
    refine hids.2 ((StreamRouter.Keyed.routerOf updates).nodup_agentIDs.sublist ?_)
    exact List.filter_sublist.map _
  refine ⟨L.sort results, rankedSources_eq hscored, hselects, fun excludeAgents => ?_, fun calls => ?_⟩
  · rw [hselects]
    simp [List.find?_eq_none]
  · exact fallbacks_eq hselects hnodup calls [] _ rfl

/-! ### A tie -/

/-- The stable sort, with a logarithm that is right for the bandwidth of the two agents below. -/
def stableLibrary : Library where
  logarithm _ := 1.0
  sort l := l.mergeSort fun e e' => decide (e.2 ≤ e'.2)

def idleAgent (id : String) : AgentTopology where
  agentID := id
  region := "us-east-1"
  datacenter := "unknown"
  latencyMatrix := .empty
  bandwidthMbps := 1.0
  isOnline := true
  indexedConnectors := []

/-- Two agents of one score are ranked, and selected, in the order of their registration. -/
theorem tied_agrees : ∃ ranked, (routerOf [.register (idleAgent "a"), .register (idleAgent "b")]).rankedSources
      stableLibrary [] "us-east-1" = some ranked ∧
    (routerOf [.register (idleAgent "a"), .register (idleAgent "b")]).Agrees stableLibrary [] "us-east-1" ranked := by
  have hvalues : (routerOf [.register (idleAgent "a"), .register (idleAgent "b")]).topology.values =
      [idleAgent "a", idleAgent "b"] := rfl
  have hsane : ∀ id, (idleAgent id).Sane := fun id => ⟨show (0 : Float) < 1.0 + 1 by decide, nofun⟩
  have hlawful : stableLibrary.Lawful := ⟨fun _ _ _ => (show (1.0 : Float).isFinite = true by decide), fun l => List.mergeSort_perm l _⟩
  refine selection_agrees stableLibrary (fun l _ => rfl) [.register (idleAgent "a"), .register (idleAgent "b")] []
    "us-east-1" fun t ht => ?_
  have hmem := (List.mem_filter.1 ht).1
  rw [hvalues] at hmem
  obtain ⟨id, rfl⟩ : ∃ id, t = idleAgent id := by
    rcases List.mem_pair.1 hmem with rfl | rfl
    · exact ⟨"a", rfl⟩
    · exact ⟨"b", rfl⟩
  obtain ⟨score, hscore, hnonneg⟩ := (hsane id).routingScore hlawful "us-east-1"
  exact ⟨score, hscore, PyFloat.isNaN_of_nonneg hnonneg⟩

end Dgraphai.Streaming
