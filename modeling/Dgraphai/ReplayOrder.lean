import Dgraphai.QueueRaces
import Dgraphai.StoredFiles

/-!
# Live deltas and the offline queue

`sendDelta` posts a delta whatever waits in the queue, and a `Flush` replays what it reads in the order of
the queue, coming back to what failed. A `Replay` is the agent between its POSTs: the deltas handed to
`sendDelta` in the order of the scans, the one it is at, the queue with its `Flush` calls, and the platform.
Deltas of one file reach the platform in the order of the scans, and its newest node has the data of the last
of them, as long as no delta arrives before an older one of the same file that still waits
(`replayed_of_inTurn`).
-/

namespace Dgraphai.AgentSync

open Agent (SharedQueue DeltaRecord Payload)
open Dedup (Env Scanner Outcome Delivery Row)
open PropertyGraph (Graph Node Props)

/-! ### The agent -/

/-- A delta that has reached `sync_delta`; `scan` is its place among the deltas handed to `sendDelta`. -/
structure Arrival where
  scan : ℕ
  delta : GraphDelta
  outcome : Outcome

def Post.arrival? (scan : ℕ) (delta : GraphDelta) : Post → Option Arrival
  | .lost => none
  | .delivered outcome _ => some ⟨scan, delta, outcome⟩

structure Replay where
  queue : SharedQueue
  /-- The deltas handed to `sendDelta`, oldest first. -/
  deltas : List GraphDelta
  /-- The attempts that `sendDelta` has made for the last of them, until it returns. -/
  live : Option ℕ
  /-- The delta that the payload of a row decodes to. -/
  origin : ℕ → ℕ
  server : Dedup.State
  arrivals : List Arrival

namespace Replay

inductive Action where
  /-- `Sync` calls `sendDelta`. -/
  | hand (delta : GraphDelta)
  /-- The next attempt of `sendDelta`. -/
  | post (p : Post)
  /-- The context is done in the wait before the next attempt. -/
  | cancel
  /-- All attempts have failed: `Enqueue`, and whether it returns nil. -/
  | enqueue (payload : Payload) (ok : Bool)
  /-- A step of a `Flush` other than its POSTs. -/
  | flush (a : SharedQueue.Action)
  /-- `send` of a `Flush`, and the text of its error. -/
  | replay (f : ℕ) (p : Post) (text : String)

variable (E : Env) (scanner : Scanner) (client : Client)

def start (before : List Delivery) : Replay :=
  ⟨.opened .empty, [], none, fun _ => 0, Dedup.afterDeliveries E before, []⟩

/-- A POST of a delta. -/
def arrive (s : Replay) (scan : ℕ) (delta : GraphDelta) (p : Post) : Option SendError × Replay :=
  let (err, server, _) := postJSON E scanner (toDeltaChunk client delta false) s.server p
  (err, { s with server := server, arrivals := s.arrivals ++ (p.arrival? scan delta).toList })

/-- The queue with its lock: no `send`, and no `Enqueue` but that of `sendDelta`. -/
def ofFlush : SharedQueue.Action → Bool
  | .enqueue .. | .send .. => false
  | .flush _ | .read .. | .settle _ | .leave _ => true

def step (s : Replay) : Action → Option Replay
  | .hand delta =>
    if s.live = none then some { s with deltas := s.deltas ++ [delta], live := some 0 } else none
  | .post p =>
    match s.live, s.deltas.getLast? with
    | some attempt, some delta =>
      if attempt < maxRetries then
        let (err, s') := s.arrive E scanner client (s.deltas.length - 1) delta p
        some { s' with live := if err = none then none else some (attempt + 1) }
      else none
    | _, _ => none
  | .cancel =>
    match s.live with
    | some attempt => if 0 < attempt ∧ attempt < maxRetries then some { s with live := none } else none
    | none => none
  | .enqueue payload ok =>
    match s.live, s.deltas.getLast? with
    | some attempt, some delta =>
      if attempt = maxRetries then
        if ok then
          (s.queue.step (.enqueue delta.scanID delta.connectorID delta.agentID delta.tenantID payload)).map fun q =>
            { s with
              queue := q, live := none
              origin := Function.update s.origin s.queue.table.nextId (s.deltas.length - 1) }
        else some { s with live := none }
      else none
    | _, _ => none
  | .flush a => if ofFlush a then (s.queue.step a).map fun q => { s with queue := q } else none
  | .replay f p text =>
    match s.queue.flushes f with
    | some ⟨r :: _, none⟩ =>
      (s.deltas[s.origin r.id]?).bind fun delta =>
        let (err, s') := s.arrive E scanner client (s.origin r.id) delta p
        (s.queue.step (.send f (err.map fun _ => text))).map fun q => { s' with queue := q }
    | _ => none

end Replay

/-! ### The order of the scans -/

/-- The paths under which the platform stores the files of a delta. -/
def canonPaths (E : Env) (delta : GraphDelta) : List String :=
  delta.files.filterMap fun f => (fileRow E (fileNode delta.tenantID f)).map (·.canonPath)

/-- Two deltas have a file in common, by the path of the agent or of the platform. -/
def Shares (E : Env) (d d' : GraphDelta) : Prop :=
  (∃ f ∈ d.files, ∃ f' ∈ d'.files, f.path = f'.path) ∨ ∃ path ∈ canonPaths E d, path ∈ canonPaths E d'

instance (E : Env) (d d' : GraphDelta) : Decidable (Shares E d d') := inferInstanceAs (Decidable (_ ∨ _))

namespace Replay

/-- The delta is in the table, or in a `Flush` that is going to send it. -/
def Waiting (s : Replay) (i : ℕ) : Prop := ∃ id, s.queue.Queued id ∧ s.origin id = i

variable (E : Env)

/-- Nothing older than the `i`-th delta that shares a file with it waits. -/
def Clear (s : Replay) (i : ℕ) (delta : GraphDelta) : Prop :=
  ∀ j < i, s.Waiting j → ∀ older ∈ s.deltas[j]?, ¬ Shares E older delta

/-- A delta that reaches the platform does so in its turn. -/
def InTurn (s : Replay) : Action → Prop
  | .post (.delivered _ _) => ∀ delta ∈ s.deltas.getLast?, s.Clear E (s.deltas.length - 1) delta
  | .replay f (.delivered _ _) _ => ∀ r rs, s.queue.flushes f = some ⟨r :: rs, none⟩ →
      ∀ delta ∈ s.deltas[s.origin r.id]?, s.Clear E (s.origin r.id) delta
  | _ => True

end Replay

/-! ### What is stored -/

/-- The File nodes of a path, in the order of their creation. -/
def storedAt (g : Graph) (path : String) : List Node :=
  (Dedup.files g).filter fun n => .str path ∈ n.props.items "paths"

/-- Size, modification time and category of a File node. -/
def nodeData (n : Node) : List (Option Json) := ["size", "modified_at", "file_category"].map n.props

def rowData (row : Row) : List (Option Json) :=
  [row.size, row.modifiedAt, row.fileCategory].map fun v => (some v).filter (· ≠ .null)

variable (E : Env) (scanner : Scanner) (client : Client)

def Arrival.delivery (a : Arrival) : Delivery := ⟨scanner, toDeltaChunk client a.delta false, a.outcome⟩

/-- What an arrival stored for a path. -/
def Arrival.rowsAt (a : Arrival) (path : String) : List Row :=
  ((a.delivery scanner client).appliedRows E).filter (·.canonPath = path)

/-- Deltas that share a file have arrived in the order of the scans, and the newest node of a path has the
data of the last scan that stored it. -/
structure Replayed (s : Replay) : Prop where
  ordered : s.arrivals.Pairwise fun a b => Shares E a.delta b.delta → a.scan ≤ b.scan
  stored : ∀ path, ∀ a ∈ s.arrivals, ∀ row ∈ (a.rowsAt E scanner client path).getLast?,
    (∀ b ∈ s.arrivals, b.rowsAt E scanner client path ≠ [] → b.scan ≤ a.scan) →
      (storedAt s.server.graph path).getLast?.map nodeData = some (rowData row)

/-! ### The nodes of a path -/

section
variable {E scanner client} {log : List (String × String)} {row : Row} {path : String}

theorem data_storedAt (g : Graph) (path : String) : (storedAt g path).map nodeData =
    ((StoredFiles.fileProps g).filter fun p => .str path ∈ p.items "paths").map fun p =>
      ["size", "modified_at", "file_category"].map p := by
  rw [storedAt, StoredFiles.fileProps, List.filter_map, List.map_map]
  rfl

theorem mem_paths_createdProps (tenantID agentID datetime : String) :
    .str path ∈ (createdProps row tenantID agentID datetime).items "paths" ↔ row.canonPath = path := by
  have hpaths : (createdProps row tenantID agentID datetime).items "paths" = [.str row.canonPath] := by
    rw [createdProps, Props.items_congr (Props.set_ne (by decide)), Props.items_congr (Props.set_ne (by decide)),
      Props.items_set]
  rw [hpaths, List.mem_singleton, Json.str.injEq, eq_comm]

theorem data_createdProps (tenantID agentID datetime : String) :
    ["size", "modified_at", "file_category"].map (createdProps row tenantID agentID datetime) = rowData row := by
  have hkeep : ∀ k, k ≠ "created_at" → k ≠ "agent_ids" → k ≠ "paths" → k ≠ "tenant_id" →
      createdProps row tenantID agentID datetime k = Props.ofMap row.toMap k := by
    intro k h₁ h₂ h₃ h₄
    rw [createdProps, Props.set_ne h₁, Props.set_ne h₂, Props.set_ne h₃, Props.set_ne h₄]
  rw [List.map_cons, List.map_cons, List.map_singleton, hkeep _ (by decide) (by decide) (by decide) (by decide),
    hkeep _ (by decide) (by decide) (by decide) (by decide), hkeep _ (by decide) (by decide) (by decide) (by decide)]
  simp [Props.ofMap, Dedup.Row.toMap, Json.field?, rowData]

/-- A delivery adds a node for each row it applies. -/
theorem storedAt_run {s : Dedup.State} (h : Dedup.Tracks s.graph log) (d : Delivery) (path : String) :
    (storedAt (d.run E s).graph path).map nodeData =
      (storedAt s.graph path).map nodeData ++ ((d.appliedRows E).filter (·.canonPath = path)).map rowData := by
  rw [data_storedAt, data_storedAt, StoredFiles.fileProps_run h, List.filter_append, List.map_append, List.filter_map,
    List.map_map]
  congr 1
  have hfilter : (d.appliedRows E).filter (·.canonPath = path) = (d.appliedRows E).filter
      ((fun p : Props => decide (.str path ∈ p.items "paths")) ∘ fun row =>
        createdProps row d.chunk.tenantID d.scanner.id d.outcome.datetime) :=
    List.filter_congr fun row _ => decide_eq_decide.2 (mem_paths_createdProps _ _ _).symm
  rw [hfilter]
  exact List.map_congr_left fun row _ => data_createdProps d.chunk.tenantID d.scanner.id d.outcome.datetime

/-- The nodes of a path are those it had, and one for each row that was stored for it, in the order of arrival. -/
theorem storedAt_arrivals (arrivals : List Arrival) {s : Dedup.State} (h : Dedup.Tracks s.graph log) (path : String) :
    (storedAt (afterDeliveries E s (arrivals.map (·.delivery scanner client))).graph path).map nodeData =
      (storedAt s.graph path).map nodeData ++ (arrivals.flatMap (·.rowsAt E scanner client path)).map rowData := by
  induction arrivals generalizing s log with
  | nil => exact (List.append_nil _).symm
  | cons a arrivals ih =>
    have hone : (storedAt ((a.delivery scanner client).run E s).graph path).map nodeData =
        (storedAt s.graph path).map nodeData ++ (a.rowsAt E scanner client path).map rowData :=
      storedAt_run h (a.delivery scanner client) path
    have hrest := ih (s := (a.delivery scanner client).run E s) ((a.delivery scanner client).run_appends h).tracks
    rw [List.map_cons, afterDeliveries, List.foldl_cons]
    rw [afterDeliveries] at hrest
    rw [hrest, hone, List.flatMap_cons, List.map_append, List.append_assoc]

end

/-! ### Steps -/

theorem Shares.symm {E : Env} {d d' : GraphDelta} (h : Shares E d d') : Shares E d' d := by
  rcases h with ⟨f, hf, f', hf', heq⟩ | ⟨path, hpath, hpath'⟩
  · exact .inl ⟨f', hf', f, hf, heq.symm⟩
  · exact .inr ⟨path, hpath', hpath⟩

namespace Replay
variable {E scanner client} {s s' : Replay} {a : Action} {i : ℕ} {delta : GraphDelta} {p : Post}

theorem toList_delivery? (scanner : Scanner) (client : Client) (i : ℕ) (delta : GraphDelta) (p : Post) :
    (p.delivery? scanner (toDeltaChunk client delta false)).toList =
      (p.arrival? i delta).toList.map (·.delivery scanner client) := by
  cases p <;> rfl

theorem arrive_fst (s : Replay) (i : ℕ) (delta : GraphDelta) (p : Post) :
    (s.arrive E scanner client i delta p).1 = if p.Answers scanner delta then none else some .postFailed := by
  simp only [arrive, postJSON_eq]

theorem arrive_eq (s : Replay) (i : ℕ) (delta : GraphDelta) (p : Post) : (s.arrive E scanner client i delta p).2 =
    { s with
      server := afterDeliveries E s.server ((p.arrival? i delta).toList.map (·.delivery scanner client))
      arrivals := s.arrivals ++ (p.arrival? i delta).toList } := by
  simp only [arrive, postJSON_eq, toList_delivery? scanner client i]

/-- What a step can do, but for the number of attempts. -/
theorem step_cases (h : s.step E scanner client a = some s') :
    (∃ delta, s' = { s with deltas := s.deltas ++ [delta], live := some 0 }) ∨
      (∃ p delta live, a = .post p ∧ s.deltas.getLast? = some delta ∧
        s' = { (s.arrive E scanner client (s.deltas.length - 1) delta p).2 with live := live }) ∨
      (∃ live, s' = { s with live := live }) ∨
      (∃ delta payload, s.deltas.getLast? = some delta ∧
        s' = { s with
          queue := { s.queue with
            table := s.queue.table.insert delta.scanID delta.connectorID delta.agentID delta.tenantID payload }
          live := none
          origin := Function.update s.origin s.queue.table.nextId (s.deltas.length - 1) }) ∨
      (∃ b q, ofFlush b = true ∧ s.queue.step b = some q ∧ s' = { s with queue := q }) ∨
      ∃ f p text r rs delta err q, a = .replay f p text ∧ s.queue.flushes f = some ⟨r :: rs, none⟩ ∧
        s.deltas[s.origin r.id]? = some delta ∧ s.queue.step (.send f err) = some q ∧
        s' = { (s.arrive E scanner client (s.origin r.id) delta p).2 with queue := q } := by
  cases a with
  | hand delta =>
    simp only [step] at h
    split_ifs at h
    exact .inl ⟨delta, (Option.some.inj h).symm⟩
  | post p =>
    simp only [step] at h
    split at h
    · next attempt delta _ hlast =>
      split_ifs at h <;> exact .inr (.inl ⟨p, delta, _, rfl, hlast, (Option.some.inj h).symm⟩)
    · cases h
  | cancel =>
    simp only [step] at h
    split at h
    · split_ifs at h
      exact .inr (.inr (.inl ⟨none, (Option.some.inj h).symm⟩))
    · cases h
  | enqueue payload ok =>
    simp only [step] at h
    split at h
    · next attempt delta _ hlast =>
      split_ifs at h
      · exact .inr (.inr (.inr (.inl ⟨delta, payload, hlast, (Option.some.inj h).symm⟩)))
      · exact .inr (.inr (.inl ⟨none, (Option.some.inj h).symm⟩))
    · cases h
  | flush b =>
    simp only [step] at h
    split_ifs at h with hb
    obtain ⟨q, hq, rfl⟩ := Option.map_eq_some_iff.1 h
    exact .inr (.inr (.inr (.inr (.inl ⟨b, q, hb, hq, rfl⟩))))
  | replay f p text =>
    simp only [step] at h
    split at h
    · next r rs hf =>
      obtain ⟨delta, hdelta, h⟩ := Option.bind_eq_some_iff.1 h
      obtain ⟨q, hq, rfl⟩ := Option.map_eq_some_iff.1 h
      exact .inr (.inr (.inr (.inr (.inr ⟨f, p, text, r, rs, delta, _, q, rfl, hf, hdelta, hq, rfl⟩))))
    · cases h

/-! ### The invariant -/

/-- What is queued was handed to `sendDelta`, and nothing that has arrived overtook what still waits. -/
structure Inv (E : Env) (scanner : Scanner) (client : Client) (s₀ : Dedup.State) (s : Replay) : Prop where
  queued : ∀ id, s.queue.Queued id → id < s.queue.table.nextId ∧ s.origin id < s.deltas.length
  known : ∀ a ∈ s.arrivals, s.deltas[a.scan]? = some a.delta
  server : s.server = afterDeliveries E s₀ (s.arrivals.map (·.delivery scanner client))
  clear : ∀ a ∈ s.arrivals, s.Clear E a.scan a.delta
  ordered : s.arrivals.Pairwise fun a b => Shares E a.delta b.delta → a.scan ≤ b.scan

variable {s₀ : Dedup.State}

theorem Inv.scan_lt (h : Inv E scanner client s₀ s) {a : Arrival} (ha : a ∈ s.arrivals) : a.scan < s.deltas.length :=
  (List.getElem?_eq_some_iff.1 (h.known a ha)).1

theorem inv_start (before : List Delivery) :
    Inv E scanner client (Dedup.afterDeliveries E before) (start E before) where
  queued := by
    rintro id (⟨row, hrow, -⟩ | ⟨f, call, hf, -⟩)
    · exact absurd hrow List.not_mem_nil
    · cases hf
  known _ ha := absurd ha List.not_mem_nil
  server := rfl
  clear _ ha := absurd ha List.not_mem_nil
  ordered := .nil

theorem Inv.live (h : Inv E scanner client s₀ s) (live : Option ℕ) : Inv E scanner client s₀ { s with live := live } :=
  ⟨h.queued, h.known, h.server, h.clear, h.ordered⟩

theorem Inv.hand (h : Inv E scanner client s₀ s) (delta : GraphDelta) :
    Inv E scanner client s₀ { s with deltas := s.deltas ++ [delta], live := some 0 } := by
  refine ⟨fun id hid => ?_, fun a ha => ?_, h.server, fun a ha j hj hw older holder => ?_, h.ordered⟩
  · obtain ⟨hnext, horigin⟩ := h.queued id hid
    refine ⟨hnext, ?_⟩
    rw [List.length_append]
    exact Nat.lt_add_right _ horigin
  · rw [List.getElem?_append_left (h.scan_lt ha)]
    exact h.known a ha
  · obtain ⟨id, hid, rfl⟩ := hw
    have holder' : s.deltas[s.origin id]? = some older := by
      rwa [Option.mem_def, List.getElem?_append_left (h.queued id hid).2] at holder
    exact h.clear a ha _ hj ⟨id, hid, rfl⟩ older holder'

/-- A POST in its turn. -/
theorem Inv.arrive (h : Inv E scanner client s₀ s) (hdelta : s.deltas[i]? = some delta)
    (hclear : ∀ o answered, p = .delivered o answered → s.Clear E i delta)
    (hlate : ∀ a ∈ s.arrivals, Shares E a.delta delta → a.scan ≤ i) :
    Inv E scanner client s₀ (s.arrive E scanner client i delta p).2 := by
  rw [arrive_eq]
  have hnew : ∀ a ∈ (p.arrival? i delta).toList, a.scan = i ∧ a.delta = delta ∧ s.Clear E i delta := by
    intro a ha
    cases p with
    | lost => exact absurd ha List.not_mem_nil
    | delivered o answered =>
      rw [List.mem_singleton.1 ha]
      exact ⟨rfl, rfl, hclear o answered rfl⟩
  refine ⟨h.queued, fun a ha => ?_, ?_, fun a ha => ?_, ?_⟩
  · rcases List.mem_append.1 ha with ha | ha
    · exact h.known a ha
    · obtain ⟨hscan, hd, -⟩ := hnew a ha
      rw [hscan, hd]
      exact hdelta
  · show afterDeliveries E s.server _ = afterDeliveries E s₀ ((s.arrivals ++ _).map _)
    rw [List.map_append, afterDeliveries_append, ← h.server]
  · rcases List.mem_append.1 ha with ha | ha
    · exact h.clear a ha
    · obtain ⟨hscan, hd, hc⟩ := hnew a ha
      rw [hscan, hd]
      exact hc
  · refine List.pairwise_append.2 ⟨h.ordered, ?_, fun a ha b hb hshare => ?_⟩
    · cases p with
      | lost => exact .nil
      | delivered o answered => exact List.pairwise_singleton _ _
    · obtain ⟨hscan, hd, -⟩ := hnew b hb
      rw [hd] at hshare
      rw [hscan]
      exact hlate a ha hshare

/-- A step of the queue that adds nothing to it. -/
theorem Inv.queue (h : Inv E scanner client s₀ s) {q : SharedQueue}
    (hq : ∀ id, q.Queued id → s.queue.Queued id ∧ q.table.nextId = s.queue.table.nextId) :
    Inv E scanner client s₀ { s with queue := q } := by
  refine ⟨fun id hid => ?_, h.known, h.server, fun a ha j hj hw => ?_, h.ordered⟩
  · obtain ⟨hid', hnext⟩ := hq id hid
    obtain ⟨hlt, horigin⟩ := h.queued id hid'
    exact ⟨hnext.symm ▸ hlt, horigin⟩
  · obtain ⟨id, hid, rfl⟩ := hw
    exact h.clear a ha _ hj ⟨id, (hq id hid).1, rfl⟩

/-- A delta that is queued is the newest. -/
theorem Inv.enqueue (h : Inv E scanner client s₀ s) (hlast : s.deltas.getLast? = some delta)
    (scanID connectorID agentID tenantID : String) (payload : Payload) :
    Inv E scanner client s₀
      { s with
        queue := { s.queue with table := s.queue.table.insert scanID connectorID agentID tenantID payload }
        live := none
        origin := Function.update s.origin s.queue.table.nextId (s.deltas.length - 1) } := by
  have hpos : 0 < s.deltas.length := by
    rcases hnil : s.deltas with _ | ⟨d, ds⟩
    · rw [hnil] at hlast
      cases hlast
    · exact Nat.succ_pos _
  have horigin : ∀ id, s.queue.Queued id → Function.update s.origin s.queue.table.nextId (s.deltas.length - 1) id =
      s.origin id := fun id hid => Function.update_of_ne (Nat.ne_of_lt (h.queued id hid).1) ..
  refine ⟨fun id hid => ?_, h.known, h.server, fun a ha j hj hw older holder => ?_, h.ordered⟩
  · show id < s.queue.table.nextId + 1 ∧ Function.update s.origin s.queue.table.nextId _ id < _
    rcases hid.of_enqueue with hid | rfl
    · obtain ⟨hlt, hscan⟩ := h.queued id hid
      rw [horigin id hid]
      exact ⟨by omega, hscan⟩
    · rw [Function.update_self]
      exact ⟨Nat.lt_succ_self _, Nat.sub_lt hpos Nat.one_pos⟩
  · obtain ⟨id, hid, rfl⟩ := hw
    have hlt := h.scan_lt ha
    rcases hid.of_enqueue with hid | rfl
    · refine h.clear a ha _ hj ⟨id, hid, ?_⟩ older holder
      exact (horigin id hid).symm
    · have hj' : Function.update s.origin s.queue.table.nextId (s.deltas.length - 1) s.queue.table.nextId < a.scan := hj
      rw [Function.update_self] at hj'
      omega

theorem Inv.step (h : Inv E scanner client s₀ s) (hturn : s.InTurn E a)
    (hstep : s.step E scanner client a = some s') : Inv E scanner client s₀ s' := by
  rcases step_cases hstep with ⟨delta, rfl⟩ | ⟨p, delta, live, rfl, hlast, rfl⟩ | ⟨live, rfl⟩ |
    ⟨delta, payload, hlast, rfl⟩ | ⟨b, q, hb, hq, rfl⟩ | ⟨f, p, text, r, rs, delta, err, q, rfl, hf, hdelta, hq, rfl⟩
  · exact h.hand delta
  · refine Inv.live (h.arrive ?_ ?_ fun a ha _ => ?_) live
    · rwa [← List.getLast?_eq_getElem?]
    · rintro o answered rfl
      exact hturn delta hlast
    · have hlt := h.scan_lt ha
      omega
  · exact h.live live
  · exact h.enqueue hlast _ _ _ _ payload
  · refine h.queue fun id hid => ?_
    rcases hid.of_step hq with hid | ⟨_, _, _, _, _, rfl⟩
    · exact hid
    · cases hb
  · have hwait : s.Waiting (s.origin r.id) :=
      ⟨r.id, .inr ⟨f, _, hf, r, List.mem_cons_self, rfl⟩, rfl⟩
    have harrive : Inv E scanner client s₀ (s.arrive E scanner client (s.origin r.id) delta p).2 := by
      refine h.arrive hdelta ?_ fun a ha hshare => ?_
      · rintro o answered rfl
        exact hturn r rs hf delta hdelta
      · -- what this `Flush` sends was waiting when `a` arrived
        by_contra hlt
        exact h.clear a ha _ (Nat.not_le.1 hlt) hwait delta hdelta hshare.symm
    have hqueue : (s.arrive E scanner client (s.origin r.id) delta p).2.queue = s.queue := by rw [arrive_eq]
    refine harrive.queue fun id hid => ?_
    rw [hqueue]
    rcases hid.of_step hq with hid | ⟨_, _, _, _, _, heq⟩
    · exact hid
    · cases heq

/-! ### The last scan of a path -/

/-- What a delta stores does not depend on the POST that stores it. -/
theorem rowsAt_eq {a b : Arrival} (hdelta : a.delta = b.delta) {path : String}
    (ha : a.rowsAt E scanner client path ≠ []) (hb : b.rowsAt E scanner client path ≠ []) :
    a.rowsAt E scanner client path = b.rowsAt E scanner client path := by
  unfold Arrival.rowsAt Arrival.delivery at *
  rw [appliedRows_eq _ true] at ha hb ⊢
  rw [appliedRows_eq _ true]
  rw [hdelta] at ha ⊢
  split_ifs at ha hb ⊢ with hpost hpost'
  · rfl
  all_goals simp at ha hb

theorem mem_canonPaths {a : Arrival} {path : String} (h : a.rowsAt E scanner client path ≠ []) :
    path ∈ canonPaths E a.delta := by
  obtain ⟨row, hrow⟩ := List.exists_mem_of_ne_nil _ h
  obtain ⟨happlied, hpath⟩ := List.mem_filter.1 hrow
  rw [Arrival.delivery, appliedRows_eq _ true] at happlied
  split_ifs at happlied
  · rcases hrows : Dedup.fileRows E (a.delta.files.map (fileNode a.delta.tenantID)) with _ | rows
    · rw [hrows] at happlied
      cases happlied
    · rw [hrows] at happlied
      obtain ⟨f, hf, hfile⟩ := exists_file_of_mem_fileRows hrows happlied
      refine List.mem_filterMap.2 ⟨f, hf, ?_⟩
      rw [hfile]
      exact congrArg some (of_decide_eq_true hpath)
  · cases happlied

/-- The last element with a property. -/
theorem exists_last {α : Type*} {P : α → Prop} {l : List α} (h : ∃ a ∈ l, P a) :
    ∃ pre b post, l = pre ++ b :: post ∧ P b ∧ ∀ c ∈ post, ¬ P c := by
  induction l with
  | nil =>
    obtain ⟨a, ha, -⟩ := h
    exact absurd ha List.not_mem_nil
  | cons c l ih =>
    by_cases hlater : ∃ a ∈ l, P a
    · obtain ⟨pre, b, post, rfl, hb⟩ := ih hlater
      exact ⟨c :: pre, b, post, rfl, hb⟩
    · push Not at hlater
      obtain ⟨a, ha, hP⟩ := h
      rcases List.mem_cons.1 ha with rfl | ha
      · exact ⟨[], a, l, rfl, hP, hlater⟩
      · exact absurd hP (hlater a ha)

/-- The last row that was stored for a path is from the last scan that stored it. -/
theorem Inv.getLast?_rowsAt (h : Inv E scanner client s₀ s) {path : String} {a : Arrival} (ha : a ∈ s.arrivals)
    (hrows : a.rowsAt E scanner client path ≠ [])
    (hmax : ∀ b ∈ s.arrivals, b.rowsAt E scanner client path ≠ [] → b.scan ≤ a.scan) :
    (s.arrivals.flatMap (·.rowsAt E scanner client path)).getLast? = (a.rowsAt E scanner client path).getLast? := by
  obtain ⟨pre, b, post, hsplit, hb, hpost⟩ :=
    exists_last (P := fun c => c.rowsAt E scanner client path ≠ []) ⟨a, ha, hrows⟩
  have hbmem : b ∈ s.arrivals := by
    rw [hsplit]
    exact List.mem_append_right _ List.mem_cons_self
  have hscan : a.scan = b.scan := by
    refine Nat.le_antisymm ?_ (hmax b hbmem hb)
    rw [hsplit] at ha
    rcases List.mem_append.1 ha with hpre | hpost'
    · have hordered := h.ordered
      rw [hsplit, List.pairwise_append] at hordered
      exact hordered.2.2 a hpre b List.mem_cons_self (.inr ⟨path, mem_canonPaths hrows, mem_canonPaths hb⟩)
    · rcases List.mem_cons.1 hpost' with rfl | hpost'
      · exact Nat.le_refl _
      · exact absurd hrows (hpost a hpost')
  have hdelta : b.delta = a.delta := by
    have hknown := h.known b hbmem
    rw [← hscan, h.known a ha] at hknown
    exact (Option.some.inj hknown).symm
  have hnil : post.flatMap (·.rowsAt E scanner client path) = [] := 
    List.flatMap_eq_nil_iff.2 fun c hc => not_not.1 (hpost c hc)
  rw [hsplit, List.flatMap_append, List.flatMap_cons, hnil, List.append_nil, rowsAt_eq hdelta hb hrows,
    List.getLast?_append_of_ne_nil _ hrows]

theorem Inv.replayed (h : Inv E scanner client s₀ s) {log : List (String × String)} (htracks : Dedup.Tracks s₀.graph log) :
    Replayed E scanner client s := by
  refine ⟨h.ordered, fun path a ha row hrow hmax => ?_⟩
  have hrows : a.rowsAt E scanner client path ≠ [] := by
    intro hnil
    rw [hnil] at hrow
    cases hrow
  have hlast := h.getLast?_rowsAt ha hrows hmax
  rw [hrow] at hlast
  rw [← List.getLast?_map, h.server, storedAt_arrivals s.arrivals htracks path, List.getLast?_append, List.getLast?_map,
    hlast]
  rfl

/-- Whatever the network, the context and the databases do, and however the `Flush` calls run. -/
theorem replayed_of_inTurn {before : List Delivery} {as : List Action}
    (h : Runs.Along (step E scanner client) (InTurn E) (start E before) as) :
    Runs.Always (step E scanner client) (Replayed E scanner client) (start E before) as := by
  have hdelivery : ∀ (s : Dedup.State) log (d : Delivery), Dedup.Tracks s.graph log →
      Dedup.Appends s.graph (d.run E s).graph log (d.logged E) := fun s log d h => d.run_appends h
  have htracks := (Dedup.Appends.foldl Dedup.State.graph hdelivery (s := Dedup.emptyState) Dedup.tracks_empty before).tracks
  exact Runs.always_of_along (fun s a s' hi hturn hstep => hi.step hturn hstep) (fun s hi => hi.replayed htracks)
    (inv_start before) h

/-! ### One call of `sendDelta` -/

/-- `sendDelta` from an attempt on, as steps of the agent. -/
theorem exists_run_attempts {x : Exchange} {left attempt : ℕ} {w : World} {queue : List GraphDelta}
    (hlive : s.live = some attempt) (hlast : s.deltas.getLast? = some delta) (hleft : attempt + left = maxRetries)
    (hserver : w.server = s.server) (hqueue : w.queue = some queue) :
    let r := attempts E scanner client delta x left attempt w
    ∃ as s', Runs.run (step E scanner client) s as = some s' ∧ s'.live = none ∧ s'.server = r.2.1.server ∧
      s'.arrivals.map (·.delivery scanner client) = s.arrivals.map (·.delivery scanner client) ++ r.2.2 ∧
      (r.2.1.queue = some queue ∧ s'.queue = s.queue ∨
        r.2.1.queue = some (queue ++ [delta]) ∧ s'.queue.table =
          s.queue.table.insert delta.scanID delta.connectorID delta.agentID delta.tenantID []) := by
  induction left generalizing attempt w s with
  | zero =>
    have hmax : attempt = maxRetries := hleft
    rw [attempts, hqueue]
    dsimp only
    by_cases henq : x.enqueued = true
    · rw [if_pos henq]
      have hstep : s.step E scanner client (.enqueue [] true) = some { s with
          queue := { s.queue with
            table := s.queue.table.insert delta.scanID delta.connectorID delta.agentID delta.tenantID [] }
          live := none
          origin := Function.update s.origin s.queue.table.nextId (s.deltas.length - 1) } := by
        simp [step, hlive, hlast, hmax, SharedQueue.step]
      exact ⟨[_], _, Runs.run_cons.2 ⟨_, hstep, rfl⟩, rfl, hserver.symm, (List.append_nil _).symm, .inr ⟨rfl, rfl⟩⟩
    · rw [if_neg henq]
      have hstep : s.step E scanner client (.enqueue [] false) = some { s with live := none } := by
        simp [step, hlive, hlast, hmax]
      exact ⟨[_], _, Runs.run_cons.2 ⟨_, hstep, rfl⟩, rfl, hserver.symm, (List.append_nil _).symm, .inl ⟨hqueue, rfl⟩⟩
  | succ left ih =>
    have hlt : attempt < maxRetries := by omega
    rw [attempts]
    by_cases hctx : 0 < attempt ∧ x.cancelled attempt = true
    · rw [if_pos hctx]
      have hstep : s.step E scanner client .cancel = some { s with live := none } := by
        simp [step, hlive, hctx.1, hlt]
      exact ⟨[_], _, Runs.run_cons.2 ⟨_, hstep, rfl⟩, rfl, hserver.symm, (List.append_nil _).symm, .inl ⟨hqueue, rfl⟩⟩
    · rw [if_neg hctx, postJSON_eq, toList_delivery? scanner client (s.deltas.length - 1)]
      have hstep : s.step E scanner client (.post (x.post attempt)) = some
          { (s.arrive E scanner client (s.deltas.length - 1) delta (x.post attempt)).2 with
            live := if (x.post attempt).Answers scanner delta then none else some (attempt + 1) } := by
        have hlive' : (if (s.arrive E scanner client (s.deltas.length - 1) delta (x.post attempt)).1 = none then none
            else some (attempt + 1)) = if (x.post attempt).Answers scanner delta then none else some (attempt + 1) := by
          rw [arrive_fst]
          by_cases hans : (x.post attempt).Answers scanner delta <;> simp [hans]
        simp only [step, hlive, hlast, if_pos hlt, hlive']
      rw [arrive_eq] at hstep
      by_cases hans : (x.post attempt).Answers scanner delta
      · rw [if_pos hans] at hstep ⊢
        refine ⟨[_], _, Runs.run_cons.2 ⟨_, hstep, rfl⟩, rfl, ?_, List.map_append, .inl ⟨hqueue, rfl⟩⟩
        rw [hserver]
      · rw [if_neg hans] at hstep ⊢
        generalize hnew : ((x.post attempt).arrival? (s.deltas.length - 1) delta).toList = new at hstep ⊢
        obtain ⟨as, s', hrun, hlive', hserver', harrivals, hqueue'⟩ := ih
          (s := { s with
            server := afterDeliveries E s.server (new.map (·.delivery scanner client))
            arrivals := s.arrivals ++ new
            live := some (attempt + 1) })
          (w := ⟨afterDeliveries E w.server (new.map (·.delivery scanner client)), w.queue⟩)
          rfl hlast (by omega) (by rw [hserver]) hqueue
        refine ⟨.post (x.post attempt) :: as, s', Runs.run_cons.2 ⟨_, hstep, hrun⟩, hlive', hserver', ?_, hqueue'⟩
        rw [harrivals, List.map_append, List.append_assoc]

theorem exists_run_sendDelta {x : Exchange} {w : World} {queue : List GraphDelta} (hlive : s.live = none)
    (hserver : w.server = s.server) (hqueue : w.queue = some queue) :
    let r := sendDelta E scanner client delta x w
    ∃ as s', Runs.run (step E scanner client) s (.hand delta :: as) = some s' ∧ s'.live = none ∧
      s'.server = r.2.1.server ∧
      s'.arrivals.map (·.delivery scanner client) = s.arrivals.map (·.delivery scanner client) ++ r.2.2 ∧
      (r.2.1.queue = some queue ∧ s'.queue = s.queue ∨
        r.2.1.queue = some (queue ++ [delta]) ∧ s'.queue.table =
          s.queue.table.insert delta.scanID delta.connectorID delta.agentID delta.tenantID []) := by
  have hhand : s.step E scanner client (.hand delta) =
      some { s with deltas := s.deltas ++ [delta], live := some 0 } := if_pos hlive
  obtain ⟨as, s', hrun, hs'⟩ := exists_run_attempts (x := x) (w := w)
    (s := { s with deltas := s.deltas ++ [delta], live := some 0 }) rfl List.getLast?_concat (Nat.zero_add _) hserver hqueue
  exact ⟨as, s', Runs.run_cons.2 ⟨_, hhand, hrun⟩, hs'⟩

end Replay

/-! ### A scan that overtakes the queue -/

namespace Replay

def scanOf (n : String) (f : FileInfo) : GraphDelta := ⟨"agent", "tenant", "nas", n, 0, [f], "2024-01-01T00:00:00Z"⟩

def answered : Post := .delivered ⟨true, true, true, "2024-01-01T00:00:01Z", true, fun _ => true⟩ true

/-- The first scan goes into the queue, the second is sent live, and the queue is flushed after it. -/
def overtaken : List Action :=
  [.hand (scanOf "nas-1" oneFile), .post .lost, .post .lost, .post .lost, .enqueue [] true,
    .hand (scanOf "nas-2" { oneFile with size := 2 }), .post answered,
    .flush (.flush 0), .flush (.read 0 100), .replay 0 answered "", .flush (.settle 0)]


/-- The first scan was of another file: the second may pass it. -/
def passing : List Action :=
  [.hand (scanOf "nas-1" { oneFile with path := "/b.txt" }), .post .lost, .post .lost, .post .lost, .enqueue [] true,
    .hand (scanOf "nas-2" oneFile), .post answered]

theorem passing_replayed : Runs.Always (step Dedup.plainEnv ⟨"agent", "tenant"⟩ ⟨"tenant", "agent"⟩)
    (Replayed Dedup.plainEnv ⟨"agent", "tenant"⟩ ⟨"tenant", "agent"⟩) (start Dedup.plainEnv []) passing := by
  refine replayed_of_inTurn ?_
  iterate 6 refine (Runs.along_cons_of_step rfl).2 ⟨trivial, ?_⟩
  refine fun s' _ => ⟨?_, trivial⟩
  intro delta hdelta j hj _ older holder
  obtain rfl : j = 0 := Nat.lt_one_iff.1 hj
  obtain rfl := Option.some.inj hdelta
  obtain rfl := Option.some.inj holder
  decide

theorem overtaken_not_replayed : ¬ ∀ before as,
    Runs.Always (step Dedup.plainEnv ⟨"agent", "tenant"⟩ ⟨"tenant", "agent"⟩)
      (Replayed Dedup.plainEnv ⟨"agent", "tenant"⟩ ⟨"tenant", "agent"⟩) (start Dedup.plainEnv before) as := by
  intro h
  have hrun : (Runs.run (step Dedup.plainEnv ⟨"agent", "tenant"⟩ ⟨"tenant", "agent"⟩)
      (start Dedup.plainEnv []) overtaken).map (fun s => (s.arrivals.map (·.scan),
        s.arrivals.head?.bind fun a => (a.rowsAt Dedup.plainEnv ⟨"agent", "tenant"⟩ ⟨"tenant", "agent"⟩
          "local://localhost/a.txt").getLast?.map rowData,
        (storedAt s.server.graph "local://localhost/a.txt").getLast?.map nodeData)) =
      some ([1, 0], some [some (.num 2), some (.str "2024-01-01T00:00:00Z"), some (.str "document")],
        some [some (.num 1), some (.str "2024-01-01T00:00:00Z"), some (.str "document")]) := by decide +kernel
  obtain ⟨s, hs, heq⟩ := Option.map_eq_some_iff.1 hrun
  obtain ⟨hscans, hrest⟩ := Prod.mk.inj heq
  obtain ⟨hnew, hstored⟩ := Prod.mk.inj hrest
  obtain ⟨a, ha, hnew⟩ := Option.bind_eq_some_iff.1 hnew
  obtain ⟨row, hrow, hdata⟩ := Option.map_eq_some_iff.1 hnew
  have hmem : a ∈ s.arrivals := List.mem_of_mem_head? ha
  have hmax : ∀ b ∈ s.arrivals, b.scan ≤ a.scan := by
    have hfirst : a.scan = 1 := by
      have hhead : (s.arrivals.map (·.scan)).head? = some a.scan := by rw [List.head?_map, ha]; rfl
      rw [hscans] at hhead
      exact (Option.some.inj hhead).symm
    have hle : ∀ n ∈ [1, 0], n ≤ 1 := by decide
    intro b hb
    have hscan : b.scan ∈ [1, 0] := hscans ▸ List.mem_map_of_mem hb
    rw [hfirst]
    exact hle b.scan hscan
  have hlast := ((h [] overtaken) overtaken s List.prefix_rfl hs).stored _ a hmem row hrow fun b hb _ => hmax b hb
  rw [hstored, hdata] at hlast
  exact absurd hlast (by decide)

end Replay

end Dgraphai.AgentSync
