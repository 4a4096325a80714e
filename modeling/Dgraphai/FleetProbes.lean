import Dgraphai.Lib.Runs
import Mathlib.Algebra.Order.Ring.Nat
import Mathlib.Data.List.Perm.Basic

/-!
# The probes of an agent to its fleet (`internal/fleet/fleet.go`)

`ProbeAll` starts a goroutine for each other member, and takes one result less than there are members from their
channel. That is one result for each goroutine exactly if the agent is a member once (`reports_iff`): an agent that is
missing from its own list drops a result, one that is there twice waits for a result that nobody sends.
-/

namespace Dgraphai.FleetProbes

structure Member where
  agentID : String
  name : String
  hostname : String
  os : String
  peerAddr : String
  version : String
  capacity : Int
  joinedAt : String
  deriving DecidableEq, Repr

/-- A float is its text. -/
structure ProbeResult where
  peerAgentID : String
  peerAddr : String
  latencyMs : String := "0"
  bandwidthMbps : String := "0"
  reachable : Bool := false
  probeAt : String
  error : String := ""
  deriving DecidableEq, Repr

structure Manager where
  agentID : String
  fleetID : String := ""
  members : List Member := []
  probes : List ProbeResult := []
  isCoord : Bool := false
  deriving DecidableEq, Repr

def joinFleet (m : Manager) (fleetID : String) (members : List Member) (isCoordinator : Bool) : Manager :=
  { m with fleetID := fleetID, members := members, isCoord := isCoordinator }

/-- What comes of a dial: its error, or the latency, and the bandwidth where the peer answers. -/
inductive Dial where
  | failed (err : String)
  | connected (latencyMs : String) (bandwidthMbps : Option String)
  deriving DecidableEq, Repr

def probePeer (now : String) (dial : Dial) (peer : Member) : ProbeResult :=
  let res : ProbeResult := { peerAgentID := peer.agentID, peerAddr := peer.peerAddr, probeAt := now }
  if peer.peerAddr = "" then { res with error := "no peer address" }
  else match dial with
    | .failed err => { res with error := err }
    | .connected latency bandwidth =>
      { res with latencyMs := latency, reachable := true, bandwidthMbps := bandwidth.getD res.bandwidthMbps }

/-! ### A call of `ProbeAll` -/

/-- `time.After` sends once. -/
inductive Timer where
  | armed
  | fired
  | taken
  deriving DecidableEq, Repr

structure Call where
  manager : Manager
  /-- The peers whose goroutine has not sent yet. -/
  running : List Member
  channel : List ProbeResult := []
  capacity : ℕ
  results : List ProbeResult := []
  turns : ℕ
  timer : Timer := .armed
  cancelled : Bool := false
  returned : Option (List ProbeResult) := none
  deriving DecidableEq, Repr

def Manager.peers (m : Manager) : List Member := m.members.filter fun p => p.agentID ≠ m.agentID

/-- Up to the loop. -/
def probeAll (m : Manager) : Call :=
  if m.members = [] then { manager := m, running := [], capacity := 0, turns := 0, returned := some [] }
  else { manager := m, running := m.peers, capacity := m.members.length, turns := m.members.length - 1 }

inductive Event where
  /-- The goroutine of a peer sends what its dial has come to. -/
  | finish (k : ℕ) (now : String) (dial : Dial)
  | receive
  /-- The 10 s are over. -/
  | expire
  | timeout
  | cancel
  | done
  /-- The loop is over. -/
  | store
  deriving DecidableEq, Repr

/-- `break` leaves the `select`, so a turn without a result is a turn. -/
def step (c : Call) : Event → Option Call
  | .finish k now dial =>
    match c.running[k]? with
    | none => none
    | some peer =>
      if c.channel.length < c.capacity then
        some { c with running := c.running.eraseIdx k, channel := c.channel ++ [probePeer now dial peer] }
      else none
  | .receive =>
    match c.channel with
    | [] => none
    | r :: rest =>
      if c.turns = 0 then none
      else some { c with channel := rest, results := c.results ++ [r], turns := c.turns - 1 }
  | .expire => if c.timer = .armed then some { c with timer := .fired } else none
  | .timeout =>
    if c.turns = 0 ∨ c.timer ≠ .fired then none else some { c with timer := .taken, turns := c.turns - 1 }
  | .cancel => some { c with cancelled := true }
  | .done => if c.turns = 0 ∨ c.cancelled = false then none else some { c with turns := c.turns - 1 }
  | .store =>
    if c.turns = 0 ∧ c.returned = none then
      some { c with manager := { c.manager with probes := c.results }, returned := some c.results }
    else none

/-! ### What is reported -/

/-- Nobody cancels the context, and the 10 s are not over. -/
def InTime (e : Event) : Prop := e ≠ .expire ∧ e ≠ .cancel

def Reached (m : Manager) (es : List Event) (c : Call) : Prop :=
  (∀ e ∈ es, InTime e) ∧ Runs.run step (probeAll m) es = some c

/-- Nothing but the end of the 10 s or of the context can move the call. -/
def Final (c : Call) : Prop := ∀ e, InTime e → step c e = none

def Member.key (p : Member) : String × String := (p.agentID, p.peerAddr)

def ProbeResult.key (r : ProbeResult) : String × String := (r.peerAgentID, r.peerAddr)

/-- Every call comes to an end, and has then returned and stored one result for each peer. -/
structure Reports (m : Manager) : Prop where
  ends : ∃ n, ∀ es c, Reached m es c → es.length ≤ n
  whole : ∀ es c, Reached m es c → Final c → ∃ results,
    c.returned = some results ∧ (results.map ProbeResult.key).Perm (m.peers.map Member.key) ∧
      c.manager.probes = results

/-! ### The call on its way -/

theorem key_probePeer (now : String) (dial : Dial) (peer : Member) : (probePeer now dial peer).key = peer.key := by
  by_cases haddr : peer.peerAddr = ""
  · simp only [probePeer, if_pos haddr]
    rfl
  · simp only [probePeer, if_neg haddr]
    cases dial <;> rfl

theorem step_finish {c c' : Call} {k : ℕ} {now : String} {dial : Dial} (h : step c (.finish k now dial) = some c') :
    ∃ peer, c.running[k]? = some peer ∧ c.channel.length < c.capacity ∧
      c' = { c with running := c.running.eraseIdx k, channel := c.channel ++ [probePeer now dial peer] } := by
  rw [step] at h
  cases hk : c.running[k]? with
  | none =>
    rw [hk] at h
    cases h
  | some peer =>
    rw [hk] at h
    by_cases hroom : c.channel.length < c.capacity
    · exact ⟨peer, rfl, hroom, (Option.some.inj ((if_pos hroom).symm.trans h)).symm⟩
    · cases (if_neg hroom).symm.trans h

theorem step_receive {c c' : Call} (h : step c .receive = some c') :
    ∃ r rest, c.channel = r :: rest ∧ c.turns ≠ 0 ∧
      c' = { c with channel := rest, results := c.results ++ [r], turns := c.turns - 1 } := by
  rw [step] at h
  cases hchannel : c.channel with
  | nil =>
    rw [hchannel] at h
    cases h
  | cons r rest =>
    rw [hchannel] at h
    by_cases hturns : c.turns = 0
    · cases (if_pos hturns).symm.trans h
    · exact ⟨r, rest, rfl, hturns, (Option.some.inj ((if_neg hturns).symm.trans h)).symm⟩

theorem step_store {c c' : Call} (h : step c .store = some c') :
    c.turns = 0 ∧ c.returned = none ∧
      c' = { c with manager := { c.manager with probes := c.results }, returned := some c.results } := by
  rw [step] at h
  by_cases hover : c.turns = 0 ∧ c.returned = none
  · exact ⟨hover.1, hover.2, (Option.some.inj ((if_pos hover).symm.trans h)).symm⟩
  · cases (if_neg hover).symm.trans h

/-- The results of the peers are in one place each: to come, in the channel, or received. -/
structure Inv (m : Manager) (c : Call) : Prop where
  keys : (c.running.map Member.key ++ (c.channel ++ c.results).map ProbeResult.key).Perm (m.peers.map Member.key)
  room : c.capacity = m.members.length
  turns : c.turns + c.results.length = m.members.length - 1
  armed : c.timer = .armed
  live : c.cancelled = false
  stored : c.returned = none ∨ c.turns = 0 ∧ c.returned = some c.results ∧ c.manager.probes = c.results

theorem inv_probeAll {m : Manager} (h : m.members ≠ []) : Inv m (probeAll m) := by
  rw [probeAll, if_neg h]
  exact ⟨by simp, rfl, rfl, rfl, rfl, .inl rfl⟩

theorem Inv.length {m : Manager} {c : Call} (hi : Inv m c) :
    c.running.length + c.channel.length + c.results.length = m.peers.length := by
  have h := hi.keys.length_eq
  simp only [List.length_append, List.length_map] at h
  omega

theorem length_peers (m : Manager) :
    m.peers.length + m.members.countP (fun p => p.agentID = m.agentID) = m.members.length := by
  have h := List.length_eq_countP_add_countP (fun p : Member => decide (p.agentID = m.agentID)) (l := m.members)
  have hpeers : m.peers.length = m.members.countP fun p => !decide (p.agentID = m.agentID) := by
    rw [Manager.peers, List.countP_eq_length_filter]
    simp only [decide_not, ne_eq]
  simp only [Bool.decide_eq_true, decide_not] at h
  omega

theorem inv_step {m : Manager} {c c' : Call} {e : Event} (hi : Inv m c) (he : InTime e) (h : step c e = some c') :
    Inv m c' := by
  cases e with
  | finish k now dial =>
    obtain ⟨peer, hk, -, rfl⟩ := step_finish h
    obtain ⟨hlt, hget⟩ := List.getElem?_eq_some_iff.1 hk
    refine ⟨?_, hi.room, hi.turns, hi.armed, hi.live, hi.stored⟩
    have hperm := (List.getElem_cons_eraseIdx_perm hlt).map Member.key
    rw [hget, List.map_cons] at hperm
    refine List.Perm.trans ?_ ((hperm.append_right _).trans hi.keys)
    rw [List.append_assoc, List.singleton_append, List.map_append, List.map_cons, key_probePeer, ← List.append_assoc,
      List.cons_append, List.map_append, ← List.append_assoc]
    exact List.perm_middle
  | receive =>
    obtain ⟨r, rest, hchannel, hturns, rfl⟩ := step_receive h
    have hturn := hi.turns
    have hkeys := hi.keys
    rw [hchannel] at hkeys
    refine ⟨?_, hi.room, ?_, hi.armed, hi.live, .inl ?_⟩
    · refine List.Perm.trans (List.Perm.append_left _ ?_) hkeys
      rw [← List.append_assoc]
      exact (List.perm_append_singleton r _).map _
    · simp only [List.length_append, List.length_singleton]
      omega
    · exact hi.stored.resolve_right fun hstored => hturns hstored.1
  | expire => exact absurd rfl he.1
  | timeout =>
    rw [step, if_pos (.inr (by rw [hi.armed]; decide))] at h
    cases h
  | cancel => exact absurd rfl he.2
  | done =>
    rw [step, if_pos (.inr hi.live)] at h
    cases h
  | store =>
    obtain ⟨hturns, -, rfl⟩ := step_store h
    exact ⟨hi.keys, hi.room, hi.turns, hi.armed, hi.live, .inr ⟨hturns, rfl, rfl⟩⟩

/-- What is left to do: results to send, to receive and to store, and turns to take. -/
def left (c : Call) : ℕ := 2 * c.running.length + c.channel.length + c.turns + if c.returned = none then 1 else 0

theorem left_step (c : Call) (e : Event) (c' : Call) (he : InTime e) (h : step c e = some c') : left c' < left c := by
  cases e with
  | finish k now dial =>
    obtain ⟨peer, hk, -, rfl⟩ := step_finish h
    obtain ⟨hlt, -⟩ := List.getElem?_eq_some_iff.1 hk
    have herase := List.length_eraseIdx_add_one hlt
    simp only [left, List.length_append, List.length_singleton]
    omega
  | receive =>
    obtain ⟨r, rest, hchannel, -, rfl⟩ := step_receive h
    simp only [left, hchannel, List.length_cons]
    omega
  | expire => exact absurd rfl he.1
  | timeout =>
    rw [step] at h
    split_ifs at h with hwait
    obtain rfl := Option.some.inj h
    have hturns := (not_or.1 hwait).1
    simp only [left]
    omega
  | cancel => exact absurd rfl he.2
  | done =>
    rw [step] at h
    split_ifs at h with hwait
    obtain rfl := Option.some.inj h
    have hturns := (not_or.1 hwait).1
    simp only [left]
    omega
  | store =>
    obtain ⟨-, hnone, rfl⟩ := step_store h
    simp only [left, hnone, if_true, reduceCtorEq, if_false]
    omega

/-! ### How a call ends -/

theorem inv_reached {m : Manager} {es : List Event} {c : Call} (hm : m.members ≠ []) (h : Reached m es c) :
    Inv m c := by
  obtain ⟨hes, hrun⟩ := h
  generalize hstart : probeAll m = start at hrun
  have hi : Inv m start := hstart ▸ inv_probeAll hm
  clear hstart
  induction es generalizing start with
  | nil =>
    cases hrun
    exact hi
  | cons e es ih =>
    obtain ⟨c', hc', hrun⟩ := Runs.run_cons.1 hrun
    obtain ⟨he, hes⟩ := List.forall_mem_cons.1 hes
    exact ih hes c' hrun (inv_step hi he hc')

theorem ends_reached (m : Manager) (es : List Event) (c : Call) (h : Reached m es c) :
    es.length ≤ left (probeAll m) :=
  (Nat.le_add_right _ _).trans (Runs.length_run_le left_step h.2 h.1)

theorem exists_final (m : Manager) : ∃ es c, Reached m es c ∧ Final c := by
  obtain ⟨es, c, hes, hrun, hfinal⟩ := Runs.exists_maximal left_step (probeAll m)
  exact ⟨es, c, ⟨hes, hrun⟩, hfinal⟩

theorem reached_of_no_members {m : Manager} (hm : m.members = []) {es : List Event} {c : Call} (h : Reached m es c) :
    c = probeAll m := by
  have hleft : left (probeAll m) = 0 := by
    rw [probeAll, if_pos hm]
    rfl
  obtain rfl := List.length_eq_zero_iff.1 (Nat.le_zero.1 (hleft ▸ ends_reached m es c h))
  exact (Option.some.inj h.2).symm

/-- A call that cannot move has received all there is. -/
theorem Inv.of_final {m : Manager} {c : Call} (hi : Inv m c) (hfinal : Final c) :
    c.running = [] ∧ (c.turns = 0 ∨ c.channel = []) ∧ (c.turns = 0 → c.returned ≠ none) := by
  refine ⟨?_, ?_, ?_⟩
  · by_contra hne
    obtain ⟨peer, rest, hrunning⟩ := List.exists_cons_of_ne_nil hne
    have hlength := hi.length
    have hpeers := length_peers m
    rw [hrunning, List.length_cons] at hlength
    have hroom : c.channel.length < c.capacity := by
      rw [hi.room]
      omega
    have hstuck := hfinal (.finish 0 "" (.failed "")) ⟨by simp, by simp⟩
    rw [step, hrunning] at hstuck
    simp [hroom] at hstuck
  · by_contra hboth
    obtain ⟨hturns, hchannel⟩ := not_or.1 hboth
    obtain ⟨r, rest, hchannel⟩ := List.exists_cons_of_ne_nil hchannel
    have hstuck := hfinal .receive ⟨by simp, by simp⟩
    rw [step, hchannel] at hstuck
    simp [hturns] at hstuck
  · intro hturns hnone
    have hstuck := hfinal .store ⟨by simp, by simp⟩
    rw [step, if_pos ⟨hturns, hnone⟩] at hstuck
    cases hstuck

/-- One result less than there are members is right for no other number of own entries than one. -/
theorem own_once_of_reports {m : Manager} (hm : m.members ≠ []) (h : Reports m) :
    m.members.countP (fun p => p.agentID = m.agentID) = 1 := by
  obtain ⟨es, c, hreached, hfinal⟩ := exists_final m
  obtain ⟨results, hreturned, hkeys, -⟩ := h.whole es c hreached hfinal
  have hi := inv_reached hm hreached
  obtain ⟨hturns, hresults, -⟩ := hi.stored.resolve_left (by rw [hreturned]; exact Option.some_ne_none results)
  obtain rfl : results = c.results := Option.some.inj (hreturned.symm.trans hresults)
  have hlength := hkeys.length_eq
  rw [List.length_map, List.length_map] at hlength
  have hpeers := length_peers m
  have hcount := hi.turns
  have hpos := List.length_pos_iff.2 hm
  omega

theorem reports_of_own_once {m : Manager} (h : m.members.countP (fun p => p.agentID = m.agentID) = 1) : Reports m := by
  have hpeers := length_peers m
  have hm : m.members ≠ [] := by
    intro hnil
    rw [hnil] at h
    cases h
  refine ⟨⟨left (probeAll m), ends_reached m⟩, fun es c hreached hfinal => ?_⟩
  have hi := inv_reached hm hreached
  obtain ⟨hrunning, hblocked, hreturned⟩ := hi.of_final hfinal
  have hlength := hi.length
  have hcount := hi.turns
  rw [hrunning, List.length_nil] at hlength
  -- what the loop waits for is in the channel
  have hchannel : c.channel.length = c.turns := by omega
  have hturns : c.turns = 0 := hblocked.elim id fun hnil => by rw [← hchannel, hnil, List.length_nil]
  obtain ⟨-, hresults, hprobes⟩ := hi.stored.resolve_left (hreturned hturns)
  have hempty : c.channel = [] := List.length_eq_zero_iff.1 (hchannel.trans hturns)
  have hkeys := hi.keys
  rw [hrunning, hempty] at hkeys
  exact ⟨c.results, hresults, hkeys, hprobes⟩

theorem reports_of_no_members {m : Manager} (hm : m.members = []) : Reports m ↔ m.probes = [] := by
  have hstart : (probeAll m).returned = some [] ∧ (probeAll m).manager.probes = m.probes := by
    rw [probeAll, if_pos hm]
    exact ⟨rfl, rfl⟩
  have hpeers : m.peers = [] := by rw [Manager.peers, hm, List.filter_nil]
  constructor
  · intro h
    obtain ⟨es, c, hreached, hfinal⟩ := exists_final m
    obtain ⟨results, hreturned, -, hprobes⟩ := h.whole es c hreached hfinal
    rw [reached_of_no_members hm hreached] at hreturned hprobes
    rw [← hstart.2, hprobes]
    exact Option.some.inj (hreturned.symm.trans hstart.1)
  · intro hprobes
    refine ⟨⟨_, ends_reached m⟩, fun es c hreached _ => ⟨[], ?_⟩⟩
    rw [reached_of_no_members hm hreached, hpeers]
    exact ⟨hstart.1, .nil, hstart.2.trans hprobes⟩

/-- Every peer is reported exactly if the agent is in its own list once. An empty list reports nothing and leaves
what was stored. -/
theorem reports_iff (m : Manager) :
    Reports m ↔ m.members.countP (fun p => p.agentID = m.agentID) = 1 ∨ m.members = [] ∧ m.probes = [] := by
  by_cases hm : m.members = []
  · rw [reports_of_no_members hm]
    refine ⟨fun h => .inr ⟨hm, h⟩, fun h => h.elim (fun hone => ?_) fun hnone => hnone.2⟩
    rw [hm] at hone
    cases hone
  · exact ⟨fun h => .inl (own_once_of_reports hm h),
      fun h => h.elim reports_of_own_once fun hnone => absurd hnone.1 hm⟩

def peer (agentID peerAddr : String) : Member :=
  { agentID := agentID, name := "", hostname := "", os := "linux", peerAddr := peerAddr, version := "1", capacity := 4
    joinedAt := "" }

/-- The agent `a` is in a fleet of `b` and `c`: one of them is not reported. -/
theorem unlisted_agent_drops :
    ¬ Reports (joinFleet { agentID := "a" } "fleet" [peer "b" "10.0.0.2:7070", peer "c" "10.0.0.3:7070"] false) := by
  intro h
  have hone := own_once_of_reports (by decide) h
  revert hone
  decide

end Dgraphai.FleetProbes
