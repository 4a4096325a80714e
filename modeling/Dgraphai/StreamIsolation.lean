import Dgraphai.StreamRouter
import Mathlib.Data.List.Induction

/-!
# What stream routing shows of other tenants

The topology map knows no tenants. Requests of a tenant see what they would see if only its own scanners had reported
exactly if no scanner of another tenant has reported (`streamIsolated_iff`).
-/

namespace Dgraphai.Streaming

open Auth (Uuid)

/-- The primary key of a scanner names one row, whose tenant does not change. -/
def Keyed (hs : List Heartbeat) : Prop :=
  ∀ h ∈ hs, ∀ h' ∈ hs, h.scanner.id = h'.scanner.id → h.scanner.tenantID = h'.scanner.tenantID

/-- The heartbeats of a tenant's scanners. -/
def ofTenant (tenantID : Uuid) (hs : List Heartbeat) : List Heartbeat :=
  hs.filter fun h => h.scanner.tenantID = tenantID

/-- Sources and headers depend on the heartbeats of the tenant only. -/
def Isolated (L : Library) (tenantID : Uuid) (hs : List Heartbeat) : Prop :=
  listSources (after hs) = listSources (after (ofTenant tenantID hs)) ∧
    ∀ region, sourceHeaders L (after hs) region = sourceHeaders L (after (ofTenant tenantID hs)) region

variable {L : Library} {tenantID : Uuid} {hs : List Heartbeat} {h : Heartbeat}

/-! ### The map after heartbeats -/

theorem after_concat (hs : List Heartbeat) (h : Heartbeat) :
    after (hs ++ [h]) = (after hs).registerAgent (h.payload.topology h.scanner) := by
  rw [after, List.foldl_append]
  rfl

/-- An agent is in the map as its last heartbeat has it. -/
theorem mem_topology (hs : List Heartbeat) : ∀ e ∈ (after hs).topology.entries,
    e.1 = e.2.agentID ∧ e.2.isOnline = true ∧ ∃ h ∈ hs, e.2 = h.payload.topology h.scanner := by
  induction hs using List.reverseRecOn with
  | nil => exact fun e he => by cases he
  | append_singleton hs h ih =>
    rintro ⟨id, t⟩ he
    rw [after_concat] at he
    rcases PyDict.mem_set he with heq | he
    · obtain ⟨rfl, rfl⟩ := Prod.mk.inj heq
      exact ⟨rfl, rfl, h, List.mem_append_right _ (.head _), rfl⟩
    · obtain ⟨hid, honline, h', hmem, heq⟩ := ih _ he
      exact ⟨hid, honline, h', List.mem_append_left _ hmem, heq⟩

theorem mem_keys_topology {id : String} : id ∈ (after hs).topology.keys ↔ ∃ h ∈ hs, h.scanner.id = id := by
  induction hs using List.reverseRecOn with
  | nil => exact iff_of_false (fun h => by cases h) (fun ⟨_, h, _⟩ => by cases h)
  | append_singleton hs h ih =>
    rw [after_concat, StreamRouter.registerAgent, PyDict.mem_keys_set, ih]
    simp only [List.mem_append, List.mem_singleton, or_and_right, exists_or, exists_eq_left]
    rw [or_comm, eq_comm (a := id)]
    rfl

/-- The agents that are listed. -/
theorem mem_listSources {id : String} :
    id ∈ (listSources (after hs)).sources.map Source.agentID ↔ ∃ h ∈ hs, h.scanner.id = id := by
  rw [← mem_keys_topology, listSources, PyDict.keys, PyDict.values]
  simp only [List.map_map, List.mem_map, List.mem_filter, Function.comp_apply]
  constructor
  · rintro ⟨t, ⟨⟨e, he, rfl⟩, -⟩, rfl⟩
    exact ⟨e, he, (mem_topology hs e he).1⟩
  · rintro ⟨e, he, rfl⟩
    obtain ⟨hid, honline, -⟩ := mem_topology hs e he
    exact ⟨e.2, ⟨⟨e, he, rfl⟩, honline⟩, hid.symm⟩

/-! ### Isolation -/

/-- Stream routing is isolated exactly if all scanners that have reported are the tenant's. -/
theorem streamIsolated_iff (hk : Keyed hs) : Isolated L tenantID hs ↔ ∀ h ∈ hs, h.scanner.tenantID = tenantID := by
  constructor
  · rintro ⟨hlist, -⟩ h hmem
    have hlisted : h.scanner.id ∈ (listSources (after hs)).sources.map Source.agentID :=
      mem_listSources.2 ⟨h, hmem, rfl⟩
    rw [hlist, mem_listSources] at hlisted
    obtain ⟨h', hmem', hid⟩ := hlisted
    obtain ⟨hmem', htenant⟩ := List.mem_filter.1 hmem'
    exact (hk h hmem h' hmem' hid.symm).trans (of_decide_eq_true htenant)
  · intro hown
    have hall : ofTenant tenantID hs = hs := List.filter_eq_self.2 fun h hmem => decide_eq_true (hown h hmem)
    rw [Isolated, hall]
    exact ⟨rfl, fun _ => rfl⟩

/-! ### Two customers -/

/-- A sort that keeps the order, and a logarithm that is right for the two megabits reported. -/
def plainLibrary : Library where
  logarithm _ := 1.0
  sort l := l

def report (id tenantID : String) : Heartbeat where
  now := "2026-01-01T00:00:00+00:00"
  payload :=
    { version := "1.0", platform := "docker", uptimeSecs := 60, filesIndexed := 0, errors := 0, connectors := 0,
      scanning := false, region := "us-east-1", bandwidthMbps := 1.0 }
  scanner := ⟨id, tenantID, "1.0", "docker", none⟩

theorem ownReports_isolated : Isolated plainLibrary "t1" [report "s1" "t1", report "s2" "t1", report "s1" "t1"] := by
  refine (streamIsolated_iff ?_).2 ?_
  · intro h hmem h' hmem' _
    simp only [List.mem_cons, List.not_mem_nil, or_false] at hmem hmem'
    rcases hmem with rfl | rfl | rfl <;> rcases hmem' with rfl | rfl | rfl <;> rfl
  · intro h hmem
    simp only [List.mem_cons, List.not_mem_nil, or_false] at hmem
    rcases hmem with rfl | rfl | rfl <;> rfl

/-- A user of the first tenant sees the scanner of the second, which is named as the source as well. -/
theorem otherReport_shown : ¬ ∀ (L : Library) (tenantID : Uuid) (hs : List Heartbeat), Keyed hs →
    Isolated L tenantID hs := by
  intro h
  have hk : Keyed [report "s2" "t2"] := by
    intro h hmem h' hmem' _
    rw [List.mem_singleton.1 hmem, List.mem_singleton.1 hmem']
  obtain ⟨-, hheaders⟩ := h plainLibrary "t1" [report "s2" "t2"] hk
  have hshown : sourceHeaders plainLibrary (after [report "s2" "t2"]) none = some ("s2", "us-east-1") := rfl
  have hown : sourceHeaders plainLibrary (after (ofTenant "t1" [report "s2" "t2"])) none = some ("direct", "direct") :=
    rfl
  rw [hheaders none, hown] at hshown
  exact absurd hshown (by decide)

end Dgraphai.Streaming
