import Dgraphai.Lib.Runs
import Dgraphai.StreamIsolation

/-!
# Routing scores

A score divides a latency by a logarithm, and both come from heartbeats that nobody checks. `routingScore_eq_none`
says whose score raises; since every request scores every agent, one such agent fails the requests of all
(`rankedSources_isSome_iff`). Along heartbeats with sane measurements every request is served (`served_always`).
-/

namespace Dgraphai.Streaming

/-- What `math.log2` and `list.sort` promise. -/
structure Library.Lawful (L : Library) : Prop where
  logarithm_finite : ∀ x : Float, 0 < x → x.isFinite = true → (L.logarithm x).isFinite = true
  sort_perm : ∀ l, (L.sort l).Perm l

/-- The logarithm of the bandwidth exists, latencies are not negative, and not both are infinite. -/
def AgentTopology.Sane (t : AgentTopology) : Prop :=
  0 < t.bandwidthMbps + 1 ∧ ∀ region l, t.latencyMatrix.get? region = some l → region ≠ t.region →
    0 ≤ l ∧ ¬ (l.isInf = true ∧ (t.bandwidthMbps + 1).isInf = true)

def Heartbeat.Sane (h : Heartbeat) : Prop := (h.payload.topology h.scanner).Sane

/-- No logarithm of the bandwidth raises. -/
def AgentTopology.HasLogarithm (t : AgentTopology) : Prop :=
  (t.bandwidthMbps + 1).isNaN = true ∨ 0 < t.bandwidthMbps + 1

def Heartbeat.HasLogarithm (h : Heartbeat) : Prop := (h.payload.topology h.scanner).HasLogarithm

/-- Every request is answered. -/
structure StreamRouter.Answers (L : Library) (r : StreamRouter) : Prop where
  selects : ∀ connectorIDs region excludeAgents, (r.selectSource L connectorIDs region excludeAgents).isSome = true
  ranks : ∀ connectorIDs region, (r.rankedSources L connectorIDs region).isSome = true

/-- Every request is answered, and every score is a nonnegative number. -/
structure StreamRouter.Serves (L : Library) (r : StreamRouter) : Prop extends r.Answers L where
  scores : ∀ t ∈ r.topology.values, ∀ region, ∃ score, t.routingScore L region = some score ∧ 0 ≤ score

variable {L : Library} {t : AgentTopology} {r r' : StreamRouter} {region : String}

/-! ### One score -/

theorem routingScore_isSome : (t.routingScore L region).isSome = true ↔ t.HasLogarithm := by
  have hnone : ¬ t.HasLogarithm ↔ PyFloat.log2 L.logarithm (t.bandwidthMbps + 1) = none := by
    rw [PyFloat.log2_eq_none, AgentTopology.HasLogarithm, not_or, Bool.not_eq_true]
  rw [AgentTopology.routingScore]
  cases hlog : PyFloat.log2 L.logarithm (t.bandwidthMbps + 1) with
  | none => exact iff_of_false (fun h => by cases h) (hnone.2 hlog)
  | some bonus =>
    refine iff_of_true rfl (not_not.1 fun h => ?_)
    rw [hnone.1 h] at hlog
    cases hlog

theorem AgentTopology.Sane.latencyTo (h : t.Sane) (region : String) :
    0 ≤ t.latencyTo region ∧ ¬ ((t.latencyTo region).isInf = true ∧ (t.bandwidthMbps + 1).isInf = true) := by
  unfold AgentTopology.latencyTo
  split_ifs with hsame
  · exact ⟨by decide, fun hinf => absurd hinf.1 (by decide)⟩
  · cases hl : t.latencyMatrix.get? region with
    | none => exact ⟨by decide, fun hinf => absurd hinf.1 (by decide)⟩
    | some l => exact h.2 region l hl (Ne.symm hsame)

/-- The score of sane measurements. -/
theorem AgentTopology.Sane.routingScore (hL : L.Lawful) (h : t.Sane) (region : String) :
    ∃ score, t.routingScore L region = some score ∧ 0 ≤ score := by
  obtain ⟨bonus, hbonus, hnan, hinf⟩ := PyFloat.log2_of_pos hL.logarithm_finite h.1
  obtain ⟨hlatency, hboth⟩ := h.latencyTo region
  refine ⟨t.latencyTo region / PyFloat.max bonus 1.0, ?_, ?_⟩
  · rw [AgentTopology.routingScore, hbonus]
    rfl
  · refine PyFloat.div_nonneg hlatency (PyFloat.max_pos hnan (by decide)) fun hinfinite => ?_
    refine hboth ⟨hinfinite.1, hinf ?_⟩
    rcases PyFloat.isInf_max hinfinite.2 with hbonus | hone
    · exact hbonus
    · exact absurd hone (by decide)

/-! ### One request -/

theorem scored_cons (L : Library) (region : String) (t : AgentTopology) (agents : List AgentTopology) :
    scored L region (t :: agents) =
      (t.routingScore L region).bind fun score => (scored L region agents).map ((t, score) :: ·) := by
  unfold scored
  rw [List.mapM_cons]
  cases t.routingScore L region with
  | none => rfl
  | some score => cases agents.mapM fun t => (t.routingScore L region).map fun score => (t, score) <;> rfl

theorem scored_isSome_iff {agents : List AgentTopology} :
    (scored L region agents).isSome = true ↔ ∀ t ∈ agents, (t.routingScore L region).isSome = true := by
  induction agents with
  | nil => exact iff_of_true rfl fun t ht => by cases ht
  | cons t agents ih =>
    rw [List.forall_mem_cons, ← ih, scored_cons]
    cases t.routingScore L region with
    | none => exact iff_of_false (fun h => by cases h) (fun h => by cases h.1)
    | some score =>
      rw [Option.isSome_some, and_iff_right rfl, Option.bind_some, Option.isSome_map]

theorem map_fst_scored {agents : List AgentTopology} {l : List (AgentTopology × Float)}
    (h : scored L region agents = some l) : l.map Prod.fst = agents := by
  induction agents generalizing l with
  | nil =>
    obtain rfl := Option.some.inj h
    rfl
  | cons t agents ih =>
    rw [scored_cons] at h
    obtain ⟨score, -, h⟩ := Option.bind_eq_some_iff.1 h
    obtain ⟨rest, hrest, rfl⟩ := Option.map_eq_some_iff.1 h
    rw [List.map_cons, ih hrest]

/-- A request scores every agent it may choose, whichever is the best. -/
theorem selectSource_isSome (hL : L.Lawful) (h : ∀ t ∈ r.topology.values, t.HasLogarithm)
    (connectorIDs excludeAgents : List String) : (r.selectSource L connectorIDs region excludeAgents).isSome = true := by
  unfold StreamRouter.selectSource
  split
  · rfl
  next candidates hne =>
    have hscored : ∀ t ∈ r.topology.values.filter fun t => t.isOnline ∧ t.agentID ∉ excludeAgents ∧ t.Has connectorIDs,
        (t.routingScore L region).isSome = true := fun t ht => routingScore_isSome.2 (h t (List.mem_filter.1 ht).1)
    obtain ⟨l, hl⟩ := Option.isSome_iff_exists.1 (scored_isSome_iff.2 hscored)
    cases hsorted : L.sort l with
    | nil =>
      -- the sort loses no candidate
      have hnil : l = [] := List.nil_perm.1 (hsorted ▸ hL.sort_perm l)
      have hagents := map_fst_scored hl
      rw [hnil] at hagents
      exact absurd hagents.symm hne
    | cons best rest =>
      rw [hl, Option.bind_eq_bind, Option.bind_some, hsorted]
      rfl

theorem rankedSources_isSome_iff {connectorIDs : List String} : (r.rankedSources L connectorIDs region).isSome = true ↔
    ∀ t ∈ r.topology.values, t.isOnline = true → t.Has connectorIDs → t.HasLogarithm := by
  have hiff : (r.rankedSources L connectorIDs region).isSome = true ↔ (scored L region
      (r.topology.values.filter fun t => t.isOnline ∧ t.Has connectorIDs)).isSome = true := by
    rw [StreamRouter.rankedSources]
    cases scored L region (r.topology.values.filter fun t => t.isOnline ∧ t.Has connectorIDs) <;> exact Iff.rfl
  rw [hiff, scored_isSome_iff]
  simp only [routingScore_isSome, List.mem_filter, decide_eq_true_iff]
  exact ⟨fun h t ht honline hhas => h t ⟨ht, honline, hhas⟩, fun h t ht => h t ht.1 ht.2.1 ht.2.2⟩

theorem answers_of_hasLogarithm (hL : L.Lawful) (h : ∀ t ∈ r.topology.values, t.HasLogarithm) : r.Answers L :=
  ⟨fun _ _ excludeAgents => selectSource_isSome hL h _ excludeAgents,
    fun _ _ => rankedSources_isSome_iff.2 fun t ht _ _ => h t ht⟩

/-- The bandwidth of one agent decides whether the requests of all are answered. -/
theorem answers_iff (hL : L.Lawful) (honline : ∀ t ∈ r.topology.values, t.isOnline = true) :
    r.Answers L ↔ ∀ t ∈ r.topology.values, t.HasLogarithm := by
  refine ⟨fun h t ht => ?_, answers_of_hasLogarithm hL⟩
  exact rankedSources_isSome_iff.1 (h.ranks [] "") t ht (honline t ht) (.inl rfl)

theorem serves_of_sane (hL : L.Lawful) (h : ∀ t ∈ r.topology.values, t.Sane) : r.Serves L where
  toAnswers := answers_of_hasLogarithm hL fun t ht => .inr (h t ht).1
  scores t ht := (h t ht).routingScore hL

/-! ### Runs -/

theorem mem_values_step {h : Heartbeat} (hstep : step r h = some r') :
    h.payload.topology h.scanner ∈ r'.topology.values ∧
      ∀ t ∈ r'.topology.values, t = h.payload.topology h.scanner ∨ t ∈ r.topology.values := by
  obtain rfl := Option.some.inj hstep
  exact ⟨List.mem_map.2 ⟨_, PyDict.mem_set_self _ _ _, rfl⟩, fun t ht => PyDict.mem_values_set ht⟩

theorem along_iff {ok : Heartbeat → Prop} {hs : List Heartbeat} :
    Runs.Along step (fun _ h => ok h) r hs ↔ ∀ h ∈ hs, ok h := by
  induction hs generalizing r with
  | nil => exact iff_of_true trivial fun h hh => by cases hh
  | cons h hs ih => rw [List.forall_mem_cons, Runs.along_cons_of_step rfl, ih]

theorem online_step {h : Heartbeat} (honline : ∀ t ∈ r.topology.values, t.isOnline = true) (hstep : step r h = some r') :
    ∀ t ∈ r'.topology.values, t.isOnline = true := by
  intro t ht
  rcases (mem_values_step hstep).2 t ht with rfl | ht
  · rfl
  · exact honline t ht

theorem sane_step {h : Heartbeat} (hvalues : ∀ t ∈ r.topology.values, t.Sane) (hsane : h.Sane)
    (hstep : step r h = some r') : ∀ t ∈ r'.topology.values, t.Sane := by
  intro t ht
  rcases (mem_values_step hstep).2 t ht with rfl | ht
  · exact hsane
  · exact hvalues t ht

/-- A heartbeat leaves all requests answered exactly if the bandwidth it reports has a logarithm. -/
theorem answers_step_iff (hL : L.Lawful) {h : Heartbeat} (honline : ∀ t ∈ r.topology.values, t.isOnline = true)
    (hanswers : r.Answers L) (hstep : step r h = some r') : r'.Answers L ↔ h.HasLogarithm := by
  obtain ⟨hnew, hvalues⟩ := mem_values_step hstep
  rw [answers_iff hL (online_step honline hstep)]
  constructor
  · intro hall
    exact hall _ hnew
  · intro hlog t ht
    rcases hvalues t ht with rfl | ht
    · exact hlog
    · exact (answers_iff hL honline).1 hanswers t ht

/-- Requests are always answered exactly along heartbeats whose bandwidth has a logarithm, and scores are
nonnegative numbers as well along sane ones. -/
theorem served_always (hL : L.Lawful) (hs : List Heartbeat) :
    (Runs.Always step (StreamRouter.Answers L) .start hs ↔ ∀ h ∈ hs, h.HasLogarithm) ∧
      ((∀ h ∈ hs, h.Sane) → Runs.Always step (StreamRouter.Serves L) .start hs) := by
  have hempty : ∀ {P : AgentTopology → Prop}, ∀ t ∈ StreamRouter.start.topology.values, P t :=
    fun t ht => by cases ht
  refine ⟨?_, fun hsane => ?_⟩
  · rw [← along_iff (r := .start)]
    exact Runs.always_iff_along (fun r h r' => online_step) (fun r h r' => answers_step_iff hL) hempty
      (answers_of_hasLogarithm hL hempty)
  · exact Runs.always_of_along (fun r h r' => sane_step) (fun r => serves_of_sane hL) hempty (along_iff.2 hsane)

/-! ### One agent fails all -/

theorem plainLibrary_lawful : plainLibrary.Lawful where
  logarithm_finite _ _ _ := show (1.0 : Float).isFinite = true by decide
  sort_perm _ := .refl _

theorem reports_served : Runs.Always step (StreamRouter.Serves plainLibrary) .start
    [report "s1" "t1", report "s2" "t2", report "s1" "t1"] := by
  refine (served_always plainLibrary_lawful _).2 fun h hmem => ?_
  have hone : ∀ id tenantID, (report id tenantID).Sane := by
    intro id tenantID
    exact ⟨show (0 : Float) < 1.0 + 1 by decide, fun region l hl => by cases hl⟩
  simp only [List.mem_cons, List.not_mem_nil, or_false] at hmem
  rcases hmem with rfl | rfl | rfl <;> exact hone _ _

/-- A scanner that reports minus two megabits. -/
def negativeReport : Heartbeat :=
  { report "s2" "t2" with payload := { (report "s2" "t2").payload with bandwidthMbps := -2.0 } }

/-- No request is answered, of whatever tenant. -/
theorem negativeReport_fails : ¬ ∀ (L : Library), L.Lawful → ∀ hs : List Heartbeat,
    Runs.Always step (StreamRouter.Serves L) .start hs := by
  intro h
  have halways := h plainLibrary plainLibrary_lawful [report "s1" "t1", negativeReport]
  have hserves := halways _ _ (List.prefix_refl _) rfl
  have hsome := hserves.selects [] "us-east-1" []
  have hraises : ((after [report "s1" "t1", negativeReport]).selectSource plainLibrary [] "us-east-1" []).isSome = false :=
    rfl
  exact Bool.false_ne_true (hraises.symm.trans hsome)

end Dgraphai.Streaming
