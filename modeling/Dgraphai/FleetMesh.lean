import Dgraphai.Fleets
import Mathlib.Data.String.Basic
import Mathlib.Data.Sym.Sym2

/-!
# The mesh of a fleet (`submit_telemetry` and `get_mesh` in `api/fleet.py`)

A fleet keeps the last 100 submissions of probes (`telemetry_run`). `get_mesh` goes through them from the newest on and
takes the first reachable probe of each pair of agents; a probe that failed is passed over, and an older one that did
not fail is taken in its place. So the mesh shows the latest probe of each pair exactly if no pair has an older success
behind a newer failure (`mesh_iff`).
-/

namespace Dgraphai.FleetMesh

open Auth (AuthContext HttpError serverError)
open Fleets

/-! ### `get_mesh` -/

structure Edge where
  fromID : String
  toID : String
  latencyMs : Json
  bandwidthMbps : Json
  quality : String

structure Mesh where
  fleetID : String
  agentIDs : Json
  edges : List Edge
  timestamp : String

/-- The edges so far, and the pairs they are of. -/
structure Acc where
  edges : List Edge
  seen : List (String × String)

/-- `tuple(sorted([a, b]))`. -/
def sortedPair (a b : String) : String × String := if b < a then (b, a) else (a, b)

-- whether the float of a text is less than a number
variable (P : Platform) (below : String → ℤ → Bool)

/-- `latency_ms < n`; `none` is a `TypeError`. -/
def lessThan : Json → ℤ → Option Bool
  | .num m, n => some (m < n)
  | .bool b, n => some ((if b then 1 else 0) < n)
  | .real text, n => some (below text n)
  | _, _ => none

def quality (latencyMs : Json) : Option String :=
  (lessThan below latencyMs 5).bind fun excellent =>
  (lessThan below latencyMs 20).bind fun good =>
  (lessThan below latencyMs 100).map fun fair =>
    if excellent then "excellent" else if good then "good" else if fair then "fair" else "poor"

def reachable (probe : Json.Fields) : Bool := (Json.getD probe "reachable" .null).truthy P.isZero

/-- The peer, if it is a text, as `from_id` is: `sorted` of a text and anything else is a `TypeError`. -/
def peerID? (probe : Json.Fields) : Option String :=
  match Json.getD probe "peer_agent_id" (.str "") with
  | .str peerID => some peerID
  | _ => none

def meshProbe (fromID : String) (acc : Acc) (probe : Json) : Option Acc :=
  probe.asDict.bind fun probe =>
  (peerID? probe).bind fun peerID =>
    let key := sortedPair fromID peerID
    if key ∉ acc.seen ∧ reachable P probe = true then
      (quality below (Json.getD probe "latency_ms" (.num 999))).map fun q =>
        ⟨acc.edges ++ [⟨fromID, peerID, Json.getD probe "latency_ms" (.num 0),
          Json.getD probe "bandwidth_mbps" (.num 0), q⟩], key :: acc.seen⟩
    else some acc

/-- `from_agent` is a text in every entry (`telemetry_run`). -/
def meshEntry (acc : Acc) (entry : Json) : Option Acc :=
  entry.asDict.bind fun entry =>
  match Json.field? entry "from_agent" with
  | some (.str fromID) =>
    (Json.getD entry "probes" (.arr [])).iter?.bind fun probes => probes.foldlM (meshProbe P below fromID) acc
  | _ => none

def meshEdges (log : List Json) : Option (List Edge) :=
  (log.reverse.foldlM (meshEntry P below) ⟨[], []⟩).map (·.edges)

def getMesh (auth : AuthContext) (fleetID now : String) : Txn Store HttpError Mesh := do
  let fleet ← ownFleet auth fleetID
  let log ← Txn.read fun s => (s.telemetry.get? fleetID).getD []
  let edges ← Txn.ofOption serverError (meshEdges P below log)
  pure ⟨fleetID, fleet.agentIDs, edges, now⟩

/-! ### The log of a fleet -/

structure Submission where
  fromAgent : String
  submittedAt : String
  probes : List Json.Fields

def Submission.entry (b : Submission) : Json :=
  .obj [("from_agent", .str b.fromAgent), ("submitted_at", .str b.submittedAt), ("probes", .arr (b.probes.map .obj))]

def owns (s : Store) (auth : AuthContext) (fleetID : String) : Bool :=
  (s.fleets.get? fleetID).any fun fleet => fleet.tenantID = auth.tenantID

def submittedBy (fleetID : String) (s : Store) (log : List Submission) : Action → List Submission
  | .create _ _ id _ => if id = fleetID then [] else log
  | .update _ _ _ => log
  | .delete auth id => if id = fleetID ∧ owns s auth id then [] else log
  | .telemetry auth id body now =>
    if id = fleetID ∧ owns s auth id then log ++ [⟨body.agentID, now, body.probes⟩] else log
  | .assign _ _ _ => log

/-- What was submitted to a fleet in a run, oldest first. -/
def submitted (fleetID : String) : Store → List Submission → List Action → List Submission
  | _, log, [] => log
  | s, log, a :: as => submitted fleetID (Txn.exec (serve P a) s).2 (submittedBy fleetID s log a) as

def lastHundred {α : Type*} (l : List α) : List α := l.drop (l.length - 100)

/-- The entries a fleet retains after a run from the start of the process. -/
def retained (fleetID : String) (as : List Action) : List Submission :=
  lastHundred (submitted P fleetID Store.empty [] as)

theorem lastHundred_append {α : Type*} (l : List α) (x : α) :
    lastHundred (lastHundred l ++ [x]) = lastHundred (l ++ [x]) := by
  by_cases hshort : l.length ≤ 100
  · have hall : lastHundred l = l := by
      rw [lastHundred, Nat.sub_eq_zero_of_le hshort, List.drop_zero]
    rw [hall]
  · have hlength : (lastHundred l).length = 100 := by
      rw [lastHundred, List.length_drop]
      omega
    -- one of a hundred makes room
    have hroom : ∀ m : List α, 100 ≤ m.length → lastHundred (m ++ [x]) = m.drop (m.length - 99) ++ [x] := by
      intro m hm
      have hdrop : (m ++ [x]).length - 100 = m.length - 99 := by
        rw [List.length_append, List.length_singleton]
        omega
      rw [lastHundred, hdrop, List.drop_append_of_le_length (by omega)]
    have hdrop : l.length - 100 + (100 - 99) = l.length - 99 := by omega
    rw [hroom _ (by omega), hroom l (by omega), hlength, lastHundred, List.drop_drop, hdrop]

theorem lastHundred_map {α β : Type*} (f : α → β) (l : List α) : lastHundred (l.map f) = (lastHundred l).map f := by
  rw [lastHundred, lastHundred, List.length_map, List.map_drop]

theorem owns_iff {s : Store} {auth : AuthContext} {fleetID : String} :
    owns s auth fleetID = true ↔ ∃ fleet, s.fleets.get? fleetID = some fleet ∧ fleet.tenantID = auth.tenantID := by
  rw [owns, Option.any_eq_true]
  simp only [decide_eq_true_eq]

theorem submitTelemetry_eq_ok (body : TelemetrySubmit) (now : String) {s s' : Store} {auth : AuthContext}
    {fleetID : String} {r : Reply} : submitTelemetry auth fleetID body now s = (.ok r, s') ↔
      owns s auth fleetID = true ∧ .received fleetID = r ∧
        { s with
          telemetry := s.telemetry.set fleetID (lastHundred ((s.telemetry.get? fleetID).getD [] ++
            [Submission.entry ⟨body.agentID, now, body.probes⟩])) } = s' := by
  simp only [submitTelemetry, ownFleet_bind_eq_ok, Txn.read_bind_eq_ok, Txn.write_bind_eq_ok, Txn.pure_eq_ok, owns_iff]
  constructor
  · rintro ⟨fleet, hown, h⟩
    exact ⟨⟨fleet, hown⟩, h⟩
  · rintro ⟨⟨fleet, hown⟩, h⟩
    exact ⟨fleet, hown, h⟩

theorem deleteFleet_eq_ok {s s' : Store} {auth : AuthContext} {fleetID : String} {r : Reply} :
    deleteFleet auth fleetID s = (.ok r, s') ↔
      owns s auth fleetID = true ∧ .deleted = r ∧ ⟨s.fleets.erase fleetID, s.telemetry.erase fleetID⟩ = s' := by
  simp only [deleteFleet, ownFleet_bind_eq_ok, Txn.write_bind_eq_ok, Txn.pure_eq_ok, owns_iff]
  exact ⟨fun ⟨fleet, hown, h⟩ => ⟨⟨fleet, hown⟩, h⟩, fun ⟨⟨fleet, hown⟩, h⟩ => ⟨fleet, hown, h⟩⟩

/-- The entries of a fleet are the last hundred of what was submitted to it. -/
def Keeps (fleetID : String) (s : Store) (log : List Submission) : Prop :=
  (s.telemetry.get? fleetID).getD [] = (lastHundred log).map Submission.entry

theorem keeps_set {fleetID id : String} {s : Store} {log log' : List Submission} (hs : Keeps fleetID s log)
    (fleets : PyDict String Fleet) (entries : List Json)
    (h : id = fleetID → entries = (lastHundred log').map Submission.entry) :
    Keeps fleetID ⟨fleets, s.telemetry.set id entries⟩ (if id = fleetID then log' else log) := by
  rw [Keeps]
  split_ifs with hid
  · subst hid
    rw [PyDict.get?_set_self]
    exact h rfl
  · rw [PyDict.get?_set_of_ne fun h => hid h.symm]
    exact hs

theorem keeps_step {fleetID : String} {s : Store} {log : List Submission} (hs : Keeps fleetID s log) (a : Action) :
    Keeps fleetID (Txn.exec (serve P a) s).2 (submittedBy fleetID s log a) := by
  cases a with
  | create auth req id now => exact keeps_set hs _ [] fun _ => rfl
  | update auth id body =>
    refine (Txn.exec_inv_iff (P := fun t => Keeps fleetID t log) hs).2 fun r t hok => ?_
    obtain ⟨fleet, -, -, rfl⟩ := updateFleet_eq_ok.1 hok
    exact hs
  | delete auth id =>
    by_cases hown : owns s auth id = true
    · have hok := deleteFleet_eq_ok.2 ⟨hown, rfl, rfl⟩
      rw [serve, Txn.exec_of_ok hok, submittedBy, Keeps, PyDict.get?_erase]
      simp only [hown, and_true]
      split_ifs with hid hsame hsame
      · rfl
      · exact absurd hid.symm hsame
      · exact absurd hsame.symm hid
      · exact hs
    · rw [submittedBy, if_neg fun h => hown h.2]
      exact (Txn.exec_inv_iff (P := fun t => Keeps fleetID t log) hs).2 fun r t hok => absurd (deleteFleet_eq_ok.1 hok).1 hown
  | telemetry auth id body now =>
    by_cases hown : owns s auth id = true
    · have hok := (submitTelemetry_eq_ok body now).2 ⟨hown, rfl, rfl⟩
      rw [serve, Txn.exec_of_ok hok, submittedBy]
      simp only [hown, and_true]
      refine keeps_set hs _ _ fun hid => ?_
      rw [hid, hs, ← List.map_singleton, ← List.map_append, lastHundred_map, lastHundred_append]
    · rw [submittedBy, if_neg fun h => hown h.2]
      exact (Txn.exec_inv_iff (P := fun t => Keeps fleetID t log) hs).2 fun r t hok => absurd ((submitTelemetry_eq_ok body now).1 hok).1 hown
  | assign auth id req =>
    refine (Txn.exec_inv_iff (P := fun t => Keeps fleetID t log) hs).2 fun r t hok => ?_
    obtain ⟨fleet, strategy, assigned, -, -, rfl⟩ := assignConnectors_eq_ok hok
    exact hs

theorem keeps_run {fleetID : String} {s t : Store} {log : List Submission} {as : List Action}
    (h : Runs.run (Store.step P) s as = some t) (hs : Keeps fleetID s log) :
    Keeps fleetID t (submitted P fleetID s log as) := by
  induction as generalizing s log with
  | nil =>
    cases h
    exact hs
  | cons a as ih =>
    obtain ⟨s', hs', ht⟩ := Runs.run_cons.1 h
    obtain rfl := Option.some.inj hs'
    exact ih ht (keeps_step P hs a)

theorem telemetry_run {s : Store} {as : List Action} (h : Runs.run (Store.step P) Store.empty as = some s)
    (fleetID : String) : (s.telemetry.get? fleetID).getD [] = (retained P fleetID as).map Submission.entry :=
  keeps_run P h rfl

/-! ### The probes of a log -/

/-- A probe and the agent that made it. -/
abbrev Sent := String × Json.Fields

def Submission.sent (b : Submission) : List Sent := b.probes.map fun probe => (b.fromAgent, probe)

namespace Sent

def peerID (x : Sent) : String := (peerID? x.2).getD ""

/-- The agents of a probe, in either direction. -/
def pair (x : Sent) : Sym2 String := s(x.1, x.peerID)

def key (x : Sent) : String × String := sortedPair x.1 x.peerID

def latencyMs (x : Sent) : Json := Json.getD x.2 "latency_ms" (.num 0)

def bandwidthMbps (x : Sent) : Json := Json.getD x.2 "bandwidth_mbps" (.num 0)

def quality? (x : Sent) : Option String := quality below (Json.getD x.2 "latency_ms" (.num 999))

def edge (x : Sent) : Edge := ⟨x.1, x.peerID, x.latencyMs, x.bandwidthMbps, (x.quality? below).getD ""⟩

end Sent

def Edge.pair (e : Edge) : Sym2 String := s(e.fromID, e.toID)

def probes (log : List Submission) : List Sent := log.flatMap Submission.sent

/-- The probes of a log as `get_mesh` comes to them. -/
def newestFirst (log : List Submission) : List Sent := log.reverse.flatMap Submission.sent

def latest (log : List Submission) (k : Sym2 String) : Option Sent := (probes log).reverse.find? fun x => x.pair = k

/-- The first reachable probe of a pair in the newest submission that has one. -/
def newestReachable (log : List Submission) (k : Sym2 String) : Option Sent :=
  (newestFirst log).find? fun x => x.pair = k ∧ reachable P x.2 = true

theorem sortedPair_eq_iff {a b c d : String} : sortedPair a b = sortedPair c d ↔ s(a, b) = s(c, d) := by
  rw [Sym2.eq_iff]
  unfold sortedPair
  split_ifs with hab hcd hcd
  · grind
  · grind
  · grind
  · grind

/-- The elements with `ok` whose key no such element in front of them has. -/
def firsts {α κ : Type*} [DecidableEq κ] (key : α → κ) (ok : α → Bool) : List κ → List α → List α
  | _, [] => []
  | seen, x :: l =>
    if key x ∉ seen ∧ ok x = true then x :: firsts key ok (key x :: seen) l else firsts key ok seen l

theorem mem_firsts_iff {α κ : Type*} [DecidableEq κ] {key : α → κ} {ok : α → Bool} {seen : List κ} {l : List α} {x : α} :
    x ∈ firsts key ok seen l ↔ key x ∉ seen ∧ l.find? (fun y => key y = key x ∧ ok y = true) = some x := by
  induction l generalizing seen with
  | nil => simp [firsts]
  | cons y l ih =>
    rw [firsts, List.find?_cons]
    by_cases htaken : key y ∉ seen ∧ ok y = true
    · rw [if_pos htaken, List.mem_cons, ih, List.mem_cons]
      by_cases hkey : key y = key x
      · -- `y` stands for its key, so nothing behind it does
        rw [decide_eq_true ⟨hkey, htaken.2⟩]
        constructor
        · rintro (rfl | ⟨hseen, -⟩)
          · exact ⟨htaken.1, rfl⟩
          · exact absurd (.inl hkey.symm) hseen
        · rintro ⟨-, heq⟩
          exact .inl (Option.some.inj heq).symm
      · rw [decide_eq_false fun h => hkey h.1]
        constructor
        · rintro (rfl | ⟨hseen, hfind⟩)
          · exact absurd rfl hkey
          · exact ⟨fun h => hseen (.inr h), hfind⟩
        · rintro ⟨hseen, hfind⟩
          exact .inr ⟨fun h => h.elim (fun h => hkey h.symm) hseen, hfind⟩
    · rw [if_neg htaken, ih]
      refine and_congr_right fun hseen => ?_
      have hother : ¬ (key y = key x ∧ ok y = true) := fun h => htaken ⟨h.1 ▸ hseen, h.2⟩
      rw [decide_eq_false hother]

/-! ### The edges of a log -/

theorem meshProbe_sent (acc : Acc) (x : Sent) :
    meshProbe P below x.1 acc (.obj x.2) =
      (peerID? x.2).bind fun _ =>
        if x.key ∉ acc.seen ∧ reachable P x.2 = true then
          (x.quality? below).map fun _ => ⟨acc.edges ++ [x.edge below], x.key :: acc.seen⟩
        else some acc := by
  rw [meshProbe]
  cases hpeer : peerID? x.2 with
  | none => simp [Json.asDict, hpeer]
  | some peerID =>
    have hid : x.peerID = peerID := congrArg (Option.getD · "") hpeer
    have hkey : x.key = sortedPair x.1 peerID := congrArg (sortedPair x.1) hid
    simp only [Json.asDict, Option.bind_some, hpeer, hkey]
    split_ifs with h
    · rw [Sent.quality?, Sent.edge, hid, Sent.quality?]
      cases quality below (Json.getD x.2 "latency_ms" (.num 999)) <;> rfl
    · rfl

theorem meshEntry_entry (acc : Acc) (b : Submission) :
    meshEntry P below acc b.entry = b.sent.foldlM (fun acc x => meshProbe P below x.1 acc (.obj x.2)) acc := by
  rw [Submission.sent, List.foldlM_map]
  exact List.foldlM_map ..

theorem foldlM_entries (log : List Submission) (acc : Acc) :
    (log.map Submission.entry).foldlM (meshEntry P below) acc =
      (log.flatMap Submission.sent).foldlM (fun acc x => meshProbe P below x.1 acc (.obj x.2)) acc := by
  induction log generalizing acc with
  | nil => rfl
  | cons b log ih =>
    rw [List.map_cons, List.foldlM_cons, List.flatMap_cons, List.foldlM_append, meshEntry_entry]
    exact congrArg _ (funext ih)

theorem foldlM_sent (l : List Sent) (acc : Acc) (edges : List Edge) :
    (l.foldlM (fun acc x => meshProbe P below x.1 acc (.obj x.2)) acc).map (·.edges) = some edges ↔
      (∀ x ∈ l, (peerID? x.2).isSome = true) ∧
      (∀ x ∈ firsts Sent.key (fun x => reachable P x.2) acc.seen l, (x.quality? below).isSome = true) ∧
      edges = acc.edges ++ (firsts Sent.key (fun x => reachable P x.2) acc.seen l).map (Sent.edge below) := by
  induction l generalizing acc with
  | nil =>
    rw [firsts, List.map_nil, List.append_nil]
    refine Iff.trans (Option.some_inj (a := acc.edges)) ⟨fun h => ⟨?_, ?_, h.symm⟩, fun h => h.2.2.symm⟩
    · exact fun x hx => absurd hx List.not_mem_nil
    · exact fun x hx => absurd hx List.not_mem_nil
  | cons x l ih =>
    rw [List.foldlM_cons, meshProbe_sent, firsts]
    cases hpeer : peerID? x.2 with
    | none =>
      refine iff_of_false (fun h => ?_) fun h => ?_
      · cases h
      · have hnamed := h.1 x List.mem_cons_self
        rw [hpeer] at hnamed
        cases hnamed
    | some peerID =>
      have hnamed : (∀ y ∈ x :: l, (peerID? y.2).isSome = true) ↔ ∀ y ∈ l, (peerID? y.2).isSome = true := by
        rw [List.forall_mem_cons, hpeer]
        exact and_iff_right rfl
      rw [hnamed, Option.bind_some]
      by_cases htaken : x.key ∉ acc.seen ∧ reachable P x.2 = true
      · rw [if_pos htaken, if_pos htaken, List.forall_mem_cons]
        cases hquality : x.quality? below with
        | none =>
          refine iff_of_false (fun h => ?_) fun h => ?_
          · cases h
          · cases h.2.1.1
        | some q =>
          refine (ih ⟨acc.edges ++ [x.edge below], x.key :: acc.seen⟩).trans ?_
          rw [List.map_cons, List.append_assoc, List.singleton_append]
          exact and_congr_right fun _ => and_congr_left fun _ => (and_iff_right rfl).symm
      · rw [if_neg htaken, if_neg htaken]
        exact ih acc

theorem mem_newestFirst {log : List Submission} {x : Sent} : x ∈ newestFirst log ↔ x ∈ probes log := by
  rw [newestFirst, probes, List.mem_flatMap, List.mem_flatMap]
  simp only [List.mem_reverse]

theorem newestReachable_eq_some {log : List Submission} {k : Sym2 String} {x : Sent}
    (h : newestReachable P log k = some x) : x.pair = k ∧ reachable P x.2 = true ∧ x ∈ probes log := by
  have hfound := List.find?_some h
  obtain ⟨hpair, hreachable⟩ := of_decide_eq_true hfound
  exact ⟨hpair, hreachable, mem_newestFirst.1 (List.mem_of_find?_eq_some h)⟩

theorem exists_newestReachable {log : List Submission} {x : Sent} (hx : x ∈ probes log)
    (hreachable : reachable P x.2 = true) : ∃ y, newestReachable P log x.pair = some y := by
  refine Option.isSome_iff_exists.1 (List.find?_isSome.2 ⟨x, mem_newestFirst.2 hx, ?_⟩)
  exact decide_eq_true ⟨rfl, hreachable⟩

theorem mem_firsts_newest {log : List Submission} {x : Sent} :
    x ∈ firsts Sent.key (fun x => reachable P x.2) [] (newestFirst log) ↔
      newestReachable P log x.pair = some x := by
  have hkeys : (fun y : Sent => decide (y.key = x.key ∧ reachable P y.2 = true)) =
      fun y => decide (y.pair = x.pair ∧ reachable P y.2 = true) :=
    funext fun y => decide_eq_decide.2 (and_congr_left' sortedPair_eq_iff)
  rw [mem_firsts_iff, hkeys]
  exact and_iff_right List.not_mem_nil

/-- The mesh of a log is made of the newest reachable probe of each pair, unless some probe names no peer or some
latency to be rated is no number. -/
theorem meshEdges_eq_some_iff (log : List Submission) (edges : List Edge) :
    meshEdges P below (log.map Submission.entry) = some edges ↔
      (∀ x ∈ probes log, (peerID? x.2).isSome = true) ∧
      (∀ k x, newestReachable P log k = some x → (x.quality? below).isSome = true) ∧
      edges = (firsts Sent.key (fun x => reachable P x.2) [] (newestFirst log)).map (Sent.edge below) := by
  rw [meshEdges, ← List.map_reverse, foldlM_entries, foldlM_sent]
  refine and_congr ?_ (and_congr ?_ Iff.rfl)
  · exact forall_congr' fun x => imp_congr_left mem_newestFirst
  · refine ⟨fun h k x hx => ?_, fun h x hx => h x.pair x ((mem_firsts_newest P).1 hx)⟩
    obtain ⟨rfl, -, -⟩ := newestReachable_eq_some P hx
    exact h x ((mem_firsts_newest P).2 hx)

theorem mem_edges_iff {log : List Submission} {e : Edge} :
    e ∈ (firsts Sent.key (fun x => reachable P x.2) [] (newestFirst log)).map (Sent.edge below) ↔
      ∃ x, newestReachable P log e.pair = some x ∧ e = x.edge below := by
  rw [List.mem_map]
  constructor
  · rintro ⟨x, hx, rfl⟩
    exact ⟨x, (mem_firsts_newest P).1 hx, rfl⟩
  · rintro ⟨x, hx, rfl⟩
    exact ⟨x, (mem_firsts_newest P).2 hx, rfl⟩

theorem edge_mem {log : List Submission} {k : Sym2 String} {x : Sent} (h : newestReachable P log k = some x) :
    x.edge below ∈ (firsts Sent.key (fun x => reachable P x.2) [] (newestFirst log)).map (Sent.edge below) ∧
      (x.edge below).pair = k := by
  obtain ⟨rfl, -, -⟩ := newestReachable_eq_some P h
  exact ⟨(mem_edges_iff P below).2 ⟨x, h, rfl⟩, rfl⟩

/-! ### The latest probes -/

/-- The mesh has an edge of a pair if and only if its latest probe is reachable, and the edge carries the numbers of
that probe. -/
def ShowsLatest (log : List Submission) (edges : List Edge) : Prop :=
  ∀ k, ((∃ e ∈ edges, e.pair = k) ↔ ∃ x, latest log k = some x ∧ reachable P x.2 = true) ∧
    ∀ e ∈ edges, e.pair = k → ∀ x, latest log k = some x →
      e.latencyMs = x.latencyMs ∧ e.bandwidthMbps = x.bandwidthMbps

/-- Every probe names its peer, what is shown can be rated, and each pair is settled: its latest probe is reachable and
has the numbers of the one that is shown, or it has no reachable probe. -/
structure Settled (log : List Submission) : Prop where
  named : ∀ x ∈ probes log, (peerID? x.2).isSome = true
  rated : ∀ k x, newestReachable P log k = some x → (x.quality? below).isSome = true
  settled : ∀ k x, latest log k = some x →
    (reachable P x.2 = true ∧ ∃ y, newestReachable P log k = some y ∧ y.latencyMs = x.latencyMs ∧
      y.bandwidthMbps = x.bandwidthMbps) ∨
    ∀ y ∈ probes log, y.pair = k → reachable P y.2 = false

theorem latest_eq_some {log : List Submission} {k : Sym2 String} {x : Sent} (h : latest log k = some x) :
    x.pair = k ∧ x ∈ probes log := by
  have hfound := List.find?_some h
  exact ⟨of_decide_eq_true hfound, List.mem_reverse.1 (List.mem_of_find?_eq_some h)⟩

theorem exists_latest_probe {log : List Submission} {x : Sent} (hx : x ∈ probes log) :
    ∃ y, latest log x.pair = some y :=
  Option.isSome_iff_exists.1 (List.find?_isSome.2 ⟨x, List.mem_reverse.2 hx, decide_eq_true rfl⟩)

theorem showsLatest_iff (log : List Submission) :
    ShowsLatest P log ((firsts Sent.key (fun x => reachable P x.2) [] (newestFirst log)).map (Sent.edge below)) ↔
      ∀ k x, latest log k = some x →
        (reachable P x.2 = true ∧ ∃ y, newestReachable P log k = some y ∧ y.latencyMs = x.latencyMs ∧
          y.bandwidthMbps = x.bandwidthMbps) ∨
        ∀ y ∈ probes log, y.pair = k → reachable P y.2 = false := by
  constructor
  · intro h k x hx
    obtain ⟨hedge, hnumbers⟩ := h k
    by_cases hreachable : reachable P x.2 = true
    · obtain ⟨e, he, rfl⟩ := hedge.2 ⟨x, hx, hreachable⟩
      obtain ⟨y, hy, heq⟩ := (mem_edges_iff P below).1 he
      obtain ⟨hlatency, hbandwidth⟩ := hnumbers e he rfl x hx
      rw [heq] at hlatency hbandwidth
      exact .inl ⟨hreachable, y, hy, hlatency, hbandwidth⟩
    · refine .inr fun y hy hpair => Bool.eq_false_iff.2 fun hyes => ?_
      obtain ⟨z, hz⟩ := exists_newestReachable P hy hyes
      rw [hpair] at hz
      obtain ⟨x', hx', hyes'⟩ := hedge.1 ⟨_, edge_mem P below hz⟩
      obtain rfl := Option.some.inj (hx.symm.trans hx')
      exact hreachable hyes'
  · intro h k
    have hshown : ∀ e ∈ (firsts Sent.key (fun x => reachable P x.2) [] (newestFirst log)).map (Sent.edge below),
        e.pair = k → ∃ x, latest log k = some x ∧ reachable P x.2 = true ∧
          e.latencyMs = x.latencyMs ∧ e.bandwidthMbps = x.bandwidthMbps := by
      rintro e he rfl
      obtain ⟨y, hy, heq⟩ := (mem_edges_iff P below).1 he
      obtain ⟨hpair, hreachable, hmem⟩ := newestReachable_eq_some P hy
      obtain ⟨x, hx⟩ := exists_latest_probe hmem
      rw [hpair] at hx
      rcases h e.pair x hx with ⟨hyes, y', hy', hlatency, hbandwidth⟩ | hnone
      · obtain rfl := Option.some.inj (hy.symm.trans hy')
        rw [heq] at hx ⊢
        exact ⟨x, hx, hyes, hlatency, hbandwidth⟩
      · exact absurd ((hnone y hmem hpair).symm.trans hreachable) Bool.false_ne_true
    refine ⟨⟨fun ⟨e, he, hpair⟩ => ?_, fun ⟨x, hx, hreachable⟩ => ?_⟩, fun e he hpair x hx => ?_⟩
    · obtain ⟨x, hx, hreachable, -⟩ := hshown e he hpair
      exact ⟨x, hx, hreachable⟩
    · obtain ⟨rfl, hmem⟩ := latest_eq_some hx
      obtain ⟨y, hy⟩ := exists_newestReachable P hmem hreachable
      exact ⟨_, edge_mem P below hy⟩
    · obtain ⟨x', hx', -, hnumbers⟩ := hshown e he hpair
      obtain rfl := Option.some.inj (hx.symm.trans hx')
      exact hnumbers

theorem meshEdges_latest_iff (log : List Submission) :
    (∃ edges, meshEdges P below (log.map Submission.entry) = some edges ∧ ShowsLatest P log edges) ↔
      Settled P below log := by
  constructor
  · rintro ⟨edges, hedges, hshows⟩
    obtain ⟨hnamed, hrated, rfl⟩ := (meshEdges_eq_some_iff P below log edges).1 hedges
    exact ⟨hnamed, hrated, (showsLatest_iff P below log).1 hshows⟩
  · intro h
    exact ⟨_, (meshEdges_eq_some_iff P below log _).2 ⟨h.named, h.rated, rfl⟩,
      (showsLatest_iff P below log).2 h.settled⟩

theorem getMesh_eq_ok {s t : Store} {auth : AuthContext} {fleetID now : String} {mesh : Mesh} :
    getMesh P below auth fleetID now s = (.ok mesh, t) ↔
      ∃ fleet, (s.fleets.get? fleetID = some fleet ∧ fleet.tenantID = auth.tenantID) ∧
        ∃ edges, meshEdges P below ((s.telemetry.get? fleetID).getD []) = some edges ∧
          ⟨fleetID, fleet.agentIDs, edges, now⟩ = mesh ∧ s = t := by
  simp only [getMesh, ownFleet_bind_eq_ok, Txn.read_bind_eq_ok, Txn.ofOption_bind_eq_ok, Txn.pure_eq_ok]

/-- In every state reached from the start of the process, the mesh of a fleet shows the latest probes it retains exactly
if those are settled. -/
theorem mesh_latest_iff {s : Store} {as : List Action} (hrun : Runs.run (Store.step P) Store.empty as = some s)
    {auth : AuthContext} {fleetID : String} (hown : owns s auth fleetID = true) (now : String) :
    (∃ mesh, getMesh P below auth fleetID now s = (.ok mesh, s) ∧ ShowsLatest P (retained P fleetID as) mesh.edges) ↔
      Settled P below (retained P fleetID as) := by
  obtain ⟨fleet, hfleet⟩ := owns_iff.1 hown
  rw [← meshEdges_latest_iff, ← telemetry_run P hrun]
  constructor
  · rintro ⟨mesh, hmesh, hshows⟩
    obtain ⟨_, -, edges, hedges, rfl, -⟩ := (getMesh_eq_ok P below).1 hmesh
    exact ⟨edges, hedges, hshows⟩
  · rintro ⟨edges, hedges, hshows⟩
    exact ⟨_, (getMesh_eq_ok P below).2 ⟨fleet, hfleet, edges, hedges, rfl, rfl⟩, hshows⟩

def admin : AuthContext := ⟨some "u", "t", "u@t", [], []⟩

def belowNone (_ : String) (_ : ℤ) : Bool := false

def probedOnce : List Action :=
  [.create admin ⟨"fleet", "", ["a", "b"], "round_robin"⟩ "f" "2024-01-01T00:00:00+00:00",
    .telemetry admin "f" ⟨"a", [[("peer_agent_id", .str "b"), ("reachable", .bool true), ("latency_ms", .num 3)]]⟩
      "2024-01-01T00:01:00+00:00"]

theorem probedOnce_settled : Settled twoAgents belowNone (retained twoAgents "f" probedOnce) := by
  have hprobes : ∃ x, probes (retained twoAgents "f" probedOnce) = [x] ∧ (peerID? x.2).isSome = true ∧
      (x.quality? belowNone).isSome = true ∧ reachable twoAgents x.2 = true := ⟨_, rfl, rfl, rfl, rfl⟩
  obtain ⟨x, hprobes, hnamed, hrated, hreachable⟩ := hprobes
  have honly : ∀ y ∈ probes (retained twoAgents "f" probedOnce), y = x := fun y hy =>
    List.mem_singleton.1 (hprobes ▸ hy)
  refine ⟨fun y hy => honly y hy ▸ hnamed, fun k y hy => ?_, fun k y hy => .inl ?_⟩
  · obtain ⟨-, -, hmem⟩ := newestReachable_eq_some twoAgents hy
    exact honly y hmem ▸ hrated
  · obtain ⟨rfl, hmem⟩ := latest_eq_some hy
    obtain rfl := honly y hmem
    obtain ⟨z, hz⟩ := exists_newestReachable twoAgents hmem hreachable
    obtain rfl := honly z (newestReachable_eq_some twoAgents hz).2.2
    exact ⟨hreachable, z, hz, rfl, rfl⟩

theorem probedOnce_shown : ∃ s, Runs.run (Store.step twoAgents) Store.empty probedOnce = some s ∧
    ∃ mesh, getMesh twoAgents belowNone admin "f" "2024-01-01T00:02:00+00:00" s = (.ok mesh, s) ∧
      ShowsLatest twoAgents (retained twoAgents "f" probedOnce) mesh.edges := by
  obtain ⟨s, hrun, hown⟩ : ∃ s, Runs.run (Store.step twoAgents) Store.empty probedOnce = some s ∧
      owns s admin "f" = true := ⟨_, rfl, rfl⟩
  exact ⟨s, hrun, (mesh_latest_iff twoAgents belowNone hrun hown _).2 probedOnce_settled⟩

/-- Then a probe of `a` by `b` that failed. -/
def probedAgain : List Action :=
  probedOnce ++ [.telemetry admin "f" ⟨"b", [[("peer_agent_id", .str "a"), ("reachable", .bool false)]]⟩
    "2024-01-01T00:02:00+00:00"]

theorem failure_masked : ∃ s mesh, Runs.run (Store.step twoAgents) Store.empty probedAgain = some s ∧
    getMesh twoAgents belowNone admin "f" "2024-01-01T00:03:00+00:00" s = (.ok mesh, s) ∧ mesh.edges.length = 1 ∧
    ¬ ShowsLatest twoAgents (retained twoAgents "f" probedAgain) mesh.edges := by
  refine ⟨_, _, rfl, rfl, rfl, fun h => ?_⟩
  obtain ⟨x, hx, hreachable⟩ := (h s("a", "b")).1.1 ⟨_, List.mem_singleton_self _, rfl⟩
  have hlatest : ∃ y rest, (probes (retained twoAgents "f" probedAgain)).reverse = y :: rest ∧
      y.pair = s("b", "a") ∧ reachable twoAgents y.2 = false := ⟨_, _, rfl, rfl, rfl⟩
  obtain ⟨y, rest, hprobes, hpair, hfailed⟩ := hlatest
  have hswap : y.pair = s("a", "b") := hpair.trans Sym2.eq_swap
  rw [latest, hprobes, List.find?_cons, decide_eq_true hswap] at hx
  obtain rfl := Option.some.inj hx
  exact absurd (hfailed.symm.trans hreachable) Bool.false_ne_true

end Dgraphai.FleetMesh
