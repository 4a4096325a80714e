import Dgraphai.StreamScores

/-!
# Agents that went silent

The docstring of `heartbeat` promises that a scanner is marked offline after five minutes without a heartbeat. The one
method that does so, `mark_offline`, is called nowhere: every agent that ever reported stays a candidate. So a stale
agent is never named exactly while all agents with a score have reported in time (`routedFresh_iff`).
-/

namespace Dgraphai.Streaming

/-- Five minutes, in microseconds. -/
def offlineAfter : ℤ := 5 * 60 * 1000000

/-- A heartbeat that is let in, or the call of `select_source` of a stream request, at a time in microseconds. -/
inductive Event where
  | heartbeat (time : ℤ) (h : Heartbeat)
  | request (time : ℤ) (connectorIDs : List String) (requesterRegion : String) (excludeAgents : List String)

namespace Event

def time : Event → ℤ
  | heartbeat time _ => time
  | request time _ _ _ => time

/-- The heartbeat of a scanner. -/
def reportOf (id : String) : Event → Option ℤ
  | heartbeat time h => if h.scanner.id = id then some time else none
  | request _ _ _ _ => none

/-- The router after an event; a request reads it. -/
def route (r : StreamRouter) : Event → StreamRouter
  | heartbeat _ h => (Streaming.heartbeat h.now h.payload h.scanner r).2
  | request _ _ _ _ => r

end Event

def routerAfter (es : List Event) : StreamRouter := es.foldl Event.route .start

def lastReport (es : List Event) (id : String) : Option ℤ := es.reverse.findSome? (Event.reportOf id)

/-- The last heartbeat of the agent was sent less than five minutes before `now`. -/
def Fresh (es : List Event) (now : ℤ) (id : String) : Prop := ∃ time ∈ lastReport es id, now < time + offlineAfter

/-- The agents a request may choose. -/
def StreamRouter.candidates (r : StreamRouter) (connectorIDs excludeAgents : List String) : List AgentTopology :=
  r.topology.values.filter fun t => t.isOnline ∧ t.agentID ∉ excludeAgents ∧ t.Has connectorIDs

def StreamRouter.markOffline (r : StreamRouter) (agentID : String) : StreamRouter :=
  match r.topology.get? agentID with
  | some t => ⟨r.topology.set agentID { t with isOnline := false }⟩
  | none => r

/-- Every agent that a request of the history is given was fresh at that time. -/
def RoutedFresh (L : Library) (es : List Event) : Prop :=
  ∀ before now connectorIDs region excludeAgents later,
    es = before ++ .request now connectorIDs region excludeAgents :: later →
      ∀ t, (routerAfter before).selectSource L connectorIDs region excludeAgents = some (some t) →
        Fresh before now t.agentID

/-- Whenever the history has a request, every agent it may choose is fresh. -/
def NoneSilent (es : List Event) : Prop :=
  ∀ before now connectorIDs region excludeAgents later,
    es = before ++ .request now connectorIDs region excludeAgents :: later →
      ∀ t ∈ (routerAfter before).candidates connectorIDs excludeAgents, Fresh before now t.agentID

variable {L : Library} {r : StreamRouter} {es : List Event} {t : AgentTopology} {region : String}
  {connectorIDs excludeAgents : List String}

/-! ### The chosen agent -/

theorem mem_candidates_of_selectSource (hL : L.Lawful)
    (h : r.selectSource L connectorIDs region excludeAgents = some (some t)) :
    t ∈ r.candidates connectorIDs excludeAgents ∧ t.HasLogarithm := by
  unfold StreamRouter.selectSource at h
  split at h
  · cases Option.some.inj h
  next candidates hne =>
    obtain ⟨l, hl, h⟩ := Option.bind_eq_some_iff.1 h
    obtain ⟨best, hbest, h⟩ := Option.bind_eq_some_iff.1 h
    obtain rfl : best.1 = t := Option.some.inj (Option.some.inj h)
    have hmem : best ∈ l := (hL.sort_perm l).mem_iff.1 (List.mem_of_mem_head? hbest)
    have hagents : l.map Prod.fst = r.candidates connectorIDs excludeAgents := map_fst_scored hl
    have ht : best.1 ∈ r.candidates connectorIDs excludeAgents := hagents ▸ List.mem_map_of_mem hmem
    exact ⟨ht, routingScore_isSome.1 (scored_isSome_iff.1 (Option.isSome_iff_exists.2 ⟨l, hl⟩) best.1 ht)⟩

/-- One of the candidates is chosen if each has a score. -/
theorem exists_selectSource (hL : L.Lawful) (hne : r.candidates connectorIDs excludeAgents ≠ [])
    (h : ∀ t ∈ r.candidates connectorIDs excludeAgents, t.HasLogarithm) (region : String) :
    ∃ t, r.selectSource L connectorIDs region excludeAgents = some (some t) := by
  obtain ⟨l, hl⟩ := Option.isSome_iff_exists.1 (scored_isSome_iff.2 fun t ht => routingScore_isSome.2 (h t ht))
  have hagents : l.map Prod.fst = r.candidates connectorIDs excludeAgents := map_fst_scored hl
  have hsorted : L.sort l ≠ [] := by
    intro hnil
    have hl' : l = [] := List.nil_perm.1 (hnil ▸ hL.sort_perm l)
    exact hne (by rw [← hagents, hl']; rfl)
  obtain ⟨best, rest, hbest⟩ := List.exists_cons_of_ne_nil hsorted
  refine ⟨best.1, ?_⟩
  unfold StreamRouter.selectSource
  split
  next hnil => exact absurd hnil hne
  next =>
    refine Option.bind_eq_some_iff.2 ⟨l, hl, Option.bind_eq_some_iff.2 ⟨best, ?_, rfl⟩⟩
    rw [hbest]
    rfl

/-! ### The agents of the map -/

theorem routerAfter_concat (es : List Event) (e : Event) : routerAfter (es ++ [e]) = e.route (routerAfter es) := by
  rw [routerAfter, List.foldl_append]
  rfl

/-- Agents stand under their ids and are online, whenever they last reported. -/
theorem online_routerAfter (es : List Event) :
    ∀ e ∈ (routerAfter es).topology.entries, e.1 = e.2.agentID ∧ e.2.isOnline = true := by
  induction es using List.reverseRecOn with
  | nil => exact fun e he => by cases he
  | append_singleton es e ih =>
    rw [routerAfter_concat]
    cases e with
    | request time connectorIDs region excludeAgents => exact ih
    | heartbeat time h =>
      rintro ⟨id, t⟩ ht
      rcases PyDict.mem_set ht with heq | ht
      · obtain ⟨rfl, rfl⟩ := Prod.mk.inj heq
        exact ⟨rfl, rfl⟩
      · exact ih _ ht

theorem eq_of_agentID {t' : AgentTopology} (ht : t ∈ (routerAfter es).topology.values)
    (ht' : t' ∈ (routerAfter es).topology.values) (hid : t'.agentID = t.agentID) : t' = t := by
  obtain ⟨e, he, rfl⟩ := List.mem_map.1 ht
  obtain ⟨e', he', rfl⟩ := List.mem_map.1 ht'
  have hkey : e'.1 = e.1 := by
    rw [(online_routerAfter es e he).1, (online_routerAfter es e' he').1, hid]
  rw [List.inj_on_of_nodup_map (routerAfter es).topology.keyed he' he hkey]

/-- An agent that is marked offline is not chosen before it reports again. -/
theorem not_mem_candidates_markOffline {id : String} (h : t ∈ ((routerAfter es).markOffline id).candidates connectorIDs
    excludeAgents) : t.agentID ≠ id := by
  rintro rfl
  obtain ⟨ht, hcond⟩ := List.mem_filter.1 h
  obtain ⟨⟨id, t⟩, he, rfl⟩ := List.mem_map.1 ht
  have honline : t.isOnline = true := (of_decide_eq_true hcond).1
  unfold StreamRouter.markOffline at he
  split at he
  next t₀ ht₀ =>
    have hid : id = t.agentID := by
      rcases PyDict.mem_set he with heq | he
      · exact (Prod.mk.inj heq).1
      · exact (online_routerAfter es _ he).1
    have hself := PyDict.mem_set_self (routerAfter es).topology t.agentID { t₀ with isOnline := false }
    have heq := List.inj_on_of_nodup_map (PyDict.keyed _) he hself hid
    rw [(Prod.mk.inj heq).2] at honline
    exact Bool.false_ne_true honline
  next hnone =>
    have hfind := List.find?_eq_none.1 (Option.map_eq_none_iff.1 hnone) _ he
    exact hfind (decide_eq_true (online_routerAfter es _ he).1)

/-- A request that excludes all others has one candidate. -/
theorem mem_candidates_alone (ht : t ∈ (routerAfter es).topology.values) {t' : AgentTopology} :
    t' ∈ (routerAfter es).candidates [] ((routerAfter es).topology.keys.filter (· ≠ t.agentID)) ↔ t' = t := by
  rw [StreamRouter.candidates, List.mem_filter]
  constructor
  · rintro ⟨ht', hcond⟩
    obtain ⟨-, hnot, -⟩ := of_decide_eq_true hcond
    refine eq_of_agentID ht ht' (not_not.1 fun hne => hnot (List.mem_filter.2 ⟨?_, decide_eq_true hne⟩))
    obtain ⟨e, he, rfl⟩ := List.mem_map.1 ht'
    exact List.mem_map.2 ⟨e, he, (online_routerAfter es e he).1⟩
  · rintro rfl
    obtain ⟨e, he, rfl⟩ := List.mem_map.1 ht
    refine ⟨ht, decide_eq_true ⟨(online_routerAfter es e he).2, fun hmem => ?_, .inl rfl⟩⟩
    exact of_decide_eq_true (List.mem_filter.1 hmem).2 rfl

/-! ### Histories -/

/-- Along histories in which no candidate is silent every agent named is fresh. A history in which that was so can be
followed by every request at a time `now` exactly if all agents that have a score are fresh then. -/
theorem routedFresh_iff (hL : L.Lawful) (es : List Event) :
    (NoneSilent es → RoutedFresh L es) ∧
      ∀ now, (∀ connectorIDs region excludeAgents,
          RoutedFresh L (es ++ [.request now connectorIDs region excludeAgents])) ↔
        RoutedFresh L es ∧ ∀ t ∈ (routerAfter es).topology.values, t.HasLogarithm → Fresh es now t.agentID := by
  refine ⟨fun h before now connectorIDs region excludeAgents later heq t ht => ?_, fun now => ⟨fun h => ⟨?_, ?_⟩, ?_⟩⟩
  · exact h before now connectorIDs region excludeAgents later heq t (mem_candidates_of_selectSource hL ht).1
  · rintro before now' connectorIDs region excludeAgents later rfl
    refine h [] "" [] before now' connectorIDs region excludeAgents (later ++ [.request now [] "" []]) ?_
    rw [List.append_assoc, List.cons_append]
  · intro t ht hlog
    have hmem := @mem_candidates_alone es t ht
    obtain ⟨t', ht'⟩ := exists_selectSource hL (List.ne_nil_of_mem (hmem.2 rfl))
      (fun t' ht' => (hmem.1 ht').symm ▸ hlog) ""
    obtain rfl := hmem.1 (mem_candidates_of_selectSource hL ht').1
    exact h _ _ _ es now _ _ _ [] rfl t' ht'
  · rintro ⟨hbefore, hall⟩ connectorIDs region excludeAgents before now' connectorIDs' region' excludeAgents' later heq t ht
    rcases List.eq_nil_or_concat later with rfl | ⟨later, e, rfl⟩
    · -- the request is the last one
      obtain ⟨rfl, hlast⟩ := List.append_inj' heq rfl
      obtain ⟨hmem, hlog⟩ := mem_candidates_of_selectSource hL ht
      obtain ⟨rfl, -, -, -⟩ := Event.request.inj (List.cons.inj hlast).1
      exact hall t (List.mem_filter.1 hmem).1 hlog
    · refine hbefore before now' connectorIDs' region' excludeAgents' later ?_ t ht
      rw [List.concat_eq_append, ← List.cons_append, ← List.append_assoc] at heq
      exact (List.append_inj' heq rfl).1

/-! ### A day later -/

theorem minuteLater_fresh : RoutedFresh plainLibrary
    [.heartbeat 0 (report "s1" "t1"), .request 60000000 [] "us-east-1" []] := by
  refine (routedFresh_iff plainLibrary_lawful _).1 fun before now connectorIDs region excludeAgents later heq t ht => ?_
  rcases before with _ | ⟨e, _ | ⟨e', before⟩⟩
  · cases heq
  · obtain ⟨rfl, hrest⟩ := List.cons.inj heq
    obtain ⟨rfl, -, -, -⟩ := Event.request.inj (List.cons.inj hrest).1
    obtain rfl := List.mem_singleton.1 (List.mem_filter.1 ht).1
    exact ⟨0, rfl, by decide⟩
  · cases (List.append_eq_nil_iff.1 (List.cons.inj (List.cons.inj heq).2).2.symm).2

/-- A scanner that reported once is named a day later. -/
theorem dayLater_stale : ¬ ∀ (L : Library), L.Lawful → ∀ es : List Event,
    es.Pairwise (fun e e' => e.time ≤ e'.time) → RoutedFresh L es := by
  intro h
  have hfresh := h plainLibrary plainLibrary_lawful
    [.heartbeat 0 (report "s1" "t1"), .request 86400000000 [] "us-east-1" []]
    (List.pairwise_pair.2 (show (0 : ℤ) ≤ 86400000000 by decide))
  obtain ⟨time, htime, hlt⟩ := hfresh [.heartbeat 0 (report "s1" "t1")] 86400000000 [] "us-east-1" [] [] rfl
    ((report "s1" "t1").payload.topology (report "s1" "t1").scanner) rfl
  have hlast : lastReport [.heartbeat 0 (report "s1" "t1")] "s1" = some 0 := rfl
  obtain rfl : (0 : ℤ) = time := Option.some.inj (hlast.symm.trans htime)
  exact absurd hlt (by decide)

end Dgraphai.Streaming
