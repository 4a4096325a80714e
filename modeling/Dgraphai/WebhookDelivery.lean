import Dgraphai.Lib.ReadModifyWrite
import Mathlib.Data.List.Nodup
import Mathlib.Tactic.SplitIfs

/-!
# Webhook deliveries (`webhooks/outbound.py`)

A task reads the endpoints of its tenant, tries each of them up to three times, and at last logs the delivery and
writes the endpoint: the failure count it writes is that which it read at its start, plus one for a failure. A
transaction of a session is one step, and what it writes is committed when the session is left.
-/

namespace Dgraphai.Webhooks

/-- Microseconds. -/
abbrev Time := ℤ

/-- `WebhookEndpoint`, as far as a delivery reads or writes it. -/
structure WebhookEndpoint where
  id : String
  tenantID : String
  eventTypes : Option (List String)
  isActive : Option Bool
  lastDeliveryAt : Option Time
  lastDeliveryStatus : Option String
  failureCount : Option ℤ
  deriving DecidableEq

structure WebhookDelivery where
  endpointID : String
  tenantID : String
  eventType : String
  eventID : String
  attempts : ℕ
  delivered : Bool
  lastError : Option String
  status : String
  deliveredAt : Option Time
  deriving DecidableEq

/-! ### The attempts -/

def retryDelays : List ℕ := [0, 60, 300]

/-- What an attempt yields: the status code of the answer, or the text of what is raised. -/
inductive Response
  | status (code : ℤ)
  | error (text : String)

structure Attempts where
  attempt : ℕ
  lastError : String
  delivered : Bool
  deriving DecidableEq

/-- The loop over the delays. -/
def tryEach (responses : ℕ → Response) : List ℕ → Attempts → Attempts
  | [], a => a
  | _ :: delays, a =>
    match responses (a.attempt + 1) with
    | .status code =>
      if 200 ≤ code ∧ code < 300 then ⟨a.attempt + 1, "", true⟩
      else tryEach responses delays ⟨a.attempt + 1, "HTTP " ++ toString code, false⟩
    | .error text => tryEach responses delays ⟨a.attempt + 1, text, false⟩

def attempts (responses : ℕ → Response) : Attempts := tryEach responses retryDelays ⟨0, "", false⟩

/-! ### The tables -/

structure Endpoints where
  rows : List WebhookEndpoint
  keyed : (rows.map WebhookEndpoint.id).Nodup

/-- A delivery to come: the endpoint as it was read. -/
structure Task where
  tenantID : String
  eventType : String
  endpoints : List WebhookEndpoint

structure State (τ : Type*) where
  endpoints : Endpoints
  deliveries : List WebhookDelivery
  /-- `none` before the task begins. -/
  tasks : τ → Option Task

inductive Action (τ : Type*)
  /-- `_deliver_async` reads the endpoints. -/
  | start (task : τ) (tenantID eventType : String)
  /-- `_deliver_to_endpoint` of the task's next endpoint gets to its end. -/
  | deliver (task : τ) (eventID : String) (responses : ℕ → Response) (now : Time)
  /-- An exception ends the task. -/
  | fail (task : τ)

/-- Active and subscribed. -/
def WebhookEndpoint.receives (e : WebhookEndpoint) (tenantID eventType : String) : Bool :=
  let subscribed := e.eventTypes.getD []
  decide (e.tenantID = tenantID) && e.isActive == some true &&
    !(subscribed != [] && !subscribed.contains eventType && !subscribed.contains "*")

def deliveryOf (e : WebhookEndpoint) (tenantID eventType eventID : String) (a : Attempts) (now : Time) :
    WebhookDelivery where
  endpointID := e.id
  tenantID := tenantID
  eventType := eventType
  eventID := eventID
  attempts := a.attempt
  delivered := a.delivered
  lastError := if a.delivered then none else some a.lastError
  status := if a.delivered then "delivered" else if 3 ≤ a.attempt then "dead_letter" else "failed"
  deliveredAt := if a.delivered then some now else none

def statusText (delivered : Bool) : String := if delivered then "success" else "failed"

/-- `update(type(endpoint))` on a row: `read` is the endpoint as the task has it. -/
def WebhookEndpoint.updated (read : WebhookEndpoint) (delivered : Bool) (now : Time) (row : WebhookEndpoint) :
    WebhookEndpoint :=
  if row.id = read.id then
    { row with
      lastDeliveryAt := some now
      lastDeliveryStatus := some (statusText delivered)
      failureCount := some (read.failureCount.getD 0 + if delivered then 0 else 1) }
  else row

theorem updated_id (read row : WebhookEndpoint) (delivered : Bool) (now : Time) :
    (read.updated delivered now row).id = row.id := by
  unfold WebhookEndpoint.updated
  split_ifs <;> rfl

theorem map_id_updated (rows : List WebhookEndpoint) (read : WebhookEndpoint) (delivered : Bool) (now : Time) :
    (rows.map (read.updated delivered now)).map WebhookEndpoint.id = rows.map WebhookEndpoint.id := by
  rw [List.map_map]
  exact List.map_congr_left fun row _ => updated_id read row delivered now

def Endpoints.update (T : Endpoints) (read : WebhookEndpoint) (delivered : Bool) (now : Time) : Endpoints where
  rows := T.rows.map (read.updated delivered now)
  keyed := (map_id_updated T.rows read delivered now).symm ▸ T.keyed

variable {τ : Type*} [DecidableEq τ]

def step (s : State τ) : Action τ → Option (State τ)
  | .start task tenantID eventType =>
    if s.tasks task = none then
      let endpoints := s.endpoints.rows.filter fun e => e.receives tenantID eventType
      some { s with tasks := Function.update s.tasks task (some ⟨tenantID, eventType, endpoints⟩) }
    else none
  | .deliver task eventID responses now =>
    match s.tasks task with
    | some ⟨tenantID, eventType, e :: rest⟩ =>
      let a := attempts responses
      some {
        endpoints := s.endpoints.update e a.delivered now
        deliveries := s.deliveries ++ [deliveryOf e tenantID eventType eventID a now]
        tasks := Function.update s.tasks task (some ⟨tenantID, eventType, rest⟩) }
    | _ => none
  | .fail task =>
    (s.tasks task).map fun t => { s with tasks := Function.update s.tasks task (some { t with endpoints := [] }) }

/-- No task has begun. -/
def State.idle (T : Endpoints) (log : List WebhookDelivery) : State τ := ⟨T, log, fun _ => none⟩

/-! ### One endpoint -/

def Endpoints.row? (T : Endpoints) (id : String) : Option WebhookEndpoint := T.rows.find? fun row => row.id = id

/-- `failure_count or 0`. -/
def Endpoints.failureCount (T : Endpoints) (id : String) : ℤ := ((T.row? id).bind (·.failureCount)).getD 0

def Endpoints.lastStatus (T : Endpoints) (id : String) : Option String := (T.row? id).bind (·.lastDeliveryStatus)

/-- The logged deliveries to the endpoint that failed. -/
def failures (id : String) (log : List WebhookDelivery) : ℕ :=
  log.countP fun d => d.endpointID = id && !d.delivered

/-- The status of the last delivery to the endpoint, if there is one. -/
def lastLogged (id : String) (log : List WebhookDelivery) : Option String :=
  (log.filter fun d => d.endpointID = id).getLast?.map fun d => statusText d.delivered

/-- The count has grown by the failures logged since, and the status is that of the last delivery. -/
def Exact (T : Endpoints) (log : List WebhookDelivery) (s : State τ) (id : String) : Prop :=
  ∃ new, s.deliveries = log ++ new ∧ s.endpoints.failureCount id = T.failureCount id + failures id new ∧
    s.endpoints.lastStatus id = (lastLogged id new).or (T.lastStatus id)

/-- What an action does to the count of the endpoint: a failed delivery writes one more than its task has read. -/
def touches (id : String) (s : State τ) : Action τ → List (ReadModifyWrite.Event τ)
  | .start task tenantID eventType =>
    if s.endpoints.rows.any fun e => e.id = id && e.receives tenantID eventType then [.read task] else []
  | .deliver task _ responses _ =>
    match s.tasks task with
    | some ⟨_, _, e :: _⟩ =>
      if e.id = id then [.write task (if (attempts responses).delivered then 0 else 1)] else []
    | _ => []
  | .fail _ => []

/-- The failures written since the last delivery's task read the endpoint, and so on back from what that task read. -/
def lost (id : String) (s : State τ) (actions : List (Action τ)) : List ℕ :=
  ReadModifyWrite.overtaken none (Runs.trace step (touches id) s actions).reverse

/-- Every task has read endpoints of the table. -/
def State.Listed (s : State τ) : Prop :=
  ∀ task t, s.tasks task = some t → ∀ e ∈ t.endpoints, e.id ∈ s.endpoints.rows.map WebhookEndpoint.id

variable {T : Endpoints} {s s' : State τ} {a : Action τ} {id : String} {e : WebhookEndpoint}

theorem row?_of_mem (h : e ∈ T.rows) : T.row? e.id = some e := by
  unfold Endpoints.row?
  cases hfind : T.rows.find? fun row => row.id = e.id with
  | none => exact absurd (decide_eq_true rfl) (List.find?_eq_none.1 hfind e h)
  | some e' =>
    have hfound := List.find?_some hfind
    have hid : e'.id = e.id := of_decide_eq_true hfound
    rw [List.inj_on_of_nodup_map T.keyed (List.mem_of_find?_eq_some hfind) h hid]

theorem row?_update (read : WebhookEndpoint) (delivered : Bool) (now : Time) :
    (T.update read delivered now).row? id = (T.row? id).map (read.updated delivered now) := by
  unfold Endpoints.row? Endpoints.update
  rw [List.find?_map]
  congr 2
  funext row
  rw [Function.comp_apply, updated_id]

theorem row?_update_of_ne {read : WebhookEndpoint} (h : read.id ≠ id) (delivered : Bool) (now : Time) :
    (T.update read delivered now).row? id = T.row? id := by
  rw [row?_update]
  cases hrow : T.row? id with
  | none => rfl
  | some row =>
    have hfound := List.find?_some hrow
    have hid : row.id = id := of_decide_eq_true hfound
    rw [Option.map_some, WebhookEndpoint.updated, if_neg fun heq => h (heq.symm.trans hid)]

/-- The row of an endpoint that is there, after the update. -/
theorem row?_update_self {read : WebhookEndpoint} (h : read.id ∈ T.rows.map WebhookEndpoint.id) (delivered : Bool)
    (now : Time) : ∃ row, (T.update read delivered now).row? read.id = some row ∧
      row.failureCount = some (read.failureCount.getD 0 + if delivered then 0 else 1) ∧
      row.lastDeliveryStatus = some (statusText delivered) := by
  obtain ⟨row, hrow, hid⟩ := List.mem_map.1 h
  have hget : T.row? read.id = some row := hid ▸ row?_of_mem hrow
  refine ⟨read.updated delivered now row, ?_, ?_, ?_⟩
  · rw [row?_update, hget, Option.map_some]
  · rw [WebhookEndpoint.updated, if_pos hid]
  · rw [WebhookEndpoint.updated, if_pos hid]

/-! ### What a step does -/

theorem step_start {task : τ} {tenantID eventType : String} (h : step s (.start task tenantID eventType) = some s') :
    ∃ t : Task, t.endpoints = (s.endpoints.rows.filter fun e => e.receives tenantID eventType) ∧
      s' = { s with tasks := Function.update s.tasks task (some t) } := by
  unfold step at h
  dsimp only at h
  split_ifs at h
  exact ⟨_, rfl, (Option.some.inj h).symm⟩

theorem step_deliver {task : τ} {eventID : String} {responses : ℕ → Response} {now : Time}
    (h : step s (.deliver task eventID responses now) = some s') : ∃ t e rest,
      s.tasks task = some t ∧ t.endpoints = e :: rest ∧ s' = {
        endpoints := s.endpoints.update e (attempts responses).delivered now
        deliveries := s.deliveries ++ [deliveryOf e t.tenantID t.eventType eventID (attempts responses) now]
        tasks := Function.update s.tasks task (some { t with endpoints := rest }) } := by
  unfold step at h
  dsimp only at h
  split at h
  · rename_i tenantID eventType e rest htask
    exact ⟨_, e, rest, htask, rfl, (Option.some.inj h).symm⟩
  · nomatch h

theorem step_fail {task : τ} (h : step s (.fail task) = some s') : ∃ t, s.tasks task = some t ∧
    s' = { s with tasks := Function.update s.tasks task (some { t with endpoints := [] }) } := by
  obtain ⟨t, ht, rfl⟩ := Option.map_eq_some_iff.1 h
  exact ⟨t, ht, rfl⟩

omit [DecidableEq τ] in
theorem touches_start (task : τ) (tenantID eventType : String) :
    touches id s (.start task tenantID eventType) =
      if s.endpoints.rows.any fun e => e.id = id && e.receives tenantID eventType then [.read task] else [] := rfl

omit [DecidableEq τ] in
theorem touches_deliver {task : τ} {t : Task} {rest : List WebhookEndpoint} (htask : s.tasks task = some t)
    (hends : t.endpoints = e :: rest) (eventID : String) (responses : ℕ → Response) (now : Time) :
    touches id s (.deliver task eventID responses now) =
      if e.id = id then [.write task (if (attempts responses).delivered then 0 else 1)] else [] := by
  obtain ⟨tenantID, eventType, ends⟩ := t
  obtain rfl : ends = e :: rest := hends
  simp only [touches, htask]

/-- What holds of the written task and of every other. -/
theorem forall_update {P : τ → Task → Prop} {tasks : τ → Option Task} {task : τ} {t : Task} (ht : P task t)
    (hrest : ∀ task' t', task' ≠ task → tasks task' = some t' → P task' t') (task' : τ) (t' : Task)
    (h : Function.update tasks task (some t) task' = some t') : P task' t' := by
  by_cases htask : task' = task
  · subst htask
    obtain rfl := Option.some.inj ((Function.update_self task' _ _).symm.trans h)
    exact ht
  · exact hrest task' t' htask ((Function.update_of_ne htask _ _).symm.trans h)

theorem Listed.step (hlisted : s.Listed) (h : step s a = some s') : s'.Listed := by
  cases a with
  | start task tenantID eventType =>
    obtain ⟨t, hends, rfl⟩ := step_start h
    refine forall_update (fun e he => ?_) fun task' t' _ => hlisted task' t'
    rw [hends] at he
    exact List.mem_map_of_mem (List.mem_filter.1 he).1
  | deliver task eventID responses now =>
    obtain ⟨t, read, rest, ht, hends, rfl⟩ := step_deliver h
    unfold State.Listed
    dsimp only
    rw [Endpoints.update, map_id_updated]
    exact forall_update (fun e he => hlisted task t ht e (hends ▸ List.mem_cons_of_mem read he))
      fun task' t' _ => hlisted task' t'
  | fail task =>
    obtain ⟨t, ht, rfl⟩ := step_fail h
    exact forall_update (fun e he => nomatch he) fun task' t' _ => hlisted task' t'

/-! ### The log -/

/-- A step logs what it writes to the count, and the status of what it logs. -/
theorem step_log (hlisted : s.Listed) (h : step s a = some s') (id : String) : ∃ new,
    s'.deliveries = s.deliveries ++ new ∧ ReadModifyWrite.total (touches id s a) = failures id new ∧
      s'.endpoints.lastStatus id = (lastLogged id new).or (s.endpoints.lastStatus id) := by
  cases a with
  | start task tenantID eventType =>
    obtain ⟨t, -, rfl⟩ := step_start h
    refine ⟨[], (List.append_nil _).symm, ?_, rfl⟩
    rw [touches_start]
    split_ifs <;> rfl
  | fail task =>
    obtain ⟨t, -, rfl⟩ := step_fail h
    exact ⟨[], (List.append_nil _).symm, rfl, rfl⟩
  | deliver task eventID responses now =>
    obtain ⟨t, read, rest, ht, hends, rfl⟩ := step_deliver h
    refine ⟨_, rfl, ?_⟩
    rw [touches_deliver ht hends]
    by_cases hid : read.id = id
    · subst hid
      have hmem := hlisted task t ht read (hends ▸ List.mem_cons_self)
      obtain ⟨row, hrow, -, hstatus⟩ := row?_update_self hmem (attempts responses).delivered now
      constructor
      · rw [if_pos rfl]
        cases hdelivered : (attempts responses).delivered <;>
          simp [ReadModifyWrite.total, ReadModifyWrite.Event.amount, failures, deliveryOf, hdelivered]
      · rw [Endpoints.lastStatus, hrow, Option.bind_some, hstatus]
        simp [lastLogged, deliveryOf]
    · rw [if_neg hid]
      constructor
      · simp [ReadModifyWrite.total, failures, deliveryOf, hid]
      · rw [Endpoints.lastStatus, row?_update_of_ne hid]
        simp [lastLogged, deliveryOf, hid, Endpoints.lastStatus]

theorem failures_append (id : String) (log log' : List WebhookDelivery) :
    failures id (log ++ log') = failures id log + failures id log' := List.countP_append

theorem lastLogged_append (id : String) (log log' : List WebhookDelivery) :
    lastLogged id (log ++ log') = (lastLogged id log').or (lastLogged id log) := by
  unfold lastLogged
  rw [List.filter_append, List.getLast?_append]
  cases (log'.filter fun d => d.endpointID = id).getLast? <;> rfl

omit [DecidableEq τ] in
theorem total_append (l l' : List (ReadModifyWrite.Event τ)) :
    ReadModifyWrite.total (l ++ l') = ReadModifyWrite.total l + ReadModifyWrite.total l' := by
  rw [ReadModifyWrite.total, List.map_append, List.sum_append]
  rfl

theorem run_log {actions : List (Action τ)} (hlisted : s.Listed) (h : Runs.run step s actions = some s')
    (id : String) : ∃ new, s'.deliveries = s.deliveries ++ new ∧
      ReadModifyWrite.total (Runs.trace step (touches id) s actions) = failures id new ∧
      s'.endpoints.lastStatus id = (lastLogged id new).or (s.endpoints.lastStatus id) := by
  induction actions generalizing s with
  | nil =>
    cases h
    exact ⟨[], (List.append_nil _).symm, rfl, rfl⟩
  | cons a actions ih =>
    obtain ⟨s₁, hs₁, hrun⟩ := Runs.run_cons.1 h
    obtain ⟨new, hlog, htotal, hstatus⟩ := step_log hlisted hs₁ id
    obtain ⟨new', hlog', htotal', hstatus'⟩ := ih (Listed.step hlisted hs₁) hrun
    refine ⟨new ++ new', ?_, ?_, ?_⟩
    · rw [hlog', hlog, List.append_assoc]
    · rw [Runs.trace_cons actions hs₁, total_append, htotal, htotal', failures_append]
    · rw [hstatus', hstatus, lastLogged_append, Option.or_assoc]

/-! ### The count -/

/-- The counter is the count of the endpoint, and a task that has yet to deliver to it has read what it was. -/
structure Simulates (id : String) (s : State τ) (r : ReadModifyWrite.State τ) : Prop where
  listed : s.Listed
  value_eq : r.value = s.endpoints.failureCount id
  read_eq : ∀ task t, s.tasks task = some t → ∀ e ∈ t.endpoints, e.id = id →
    r.reads task = some (e.failureCount.getD 0)

theorem Simulates.step {r : ReadModifyWrite.State τ} (hsim : Simulates id s r) (h : step s a = some s') :
    ∃ r', Runs.run ReadModifyWrite.step r (touches id s a) = some r' ∧ Simulates id s' r' := by
  have hlisted := Listed.step hsim.listed h
  cases a with
  | start task tenantID eventType =>
    obtain ⟨t, hends, rfl⟩ := step_start h
    rw [touches_start]
    by_cases hany : (s.endpoints.rows.any fun e => e.id = id && e.receives tenantID eventType) = true
    · rw [if_pos hany]
      refine ⟨_, rfl, hlisted, hsim.value_eq, forall_update (fun e he hid => ?_) fun task' t' htask ht' e he hid => ?_⟩
      · have hrow := row?_of_mem (List.mem_filter.1 (hends ▸ he)).1
        rw [hid] at hrow
        dsimp only
        rw [Function.update_self, hsim.value_eq, Endpoints.failureCount, hrow, Option.bind_some]
      · dsimp only
        rw [Function.update_of_ne htask]
        exact hsim.read_eq task' t' ht' e he hid
    · rw [if_neg hany]
      refine ⟨_, rfl, hlisted, hsim.value_eq, forall_update (fun e he hid => ?_) fun task' t' _ => hsim.read_eq task' t'⟩
      obtain ⟨hrow, hreceives⟩ := List.mem_filter.1 (hends ▸ he)
      exact absurd (List.any_eq_true.2 ⟨e, hrow, Bool.and_eq_true_iff.2 ⟨decide_eq_true hid, hreceives⟩⟩) hany
  | deliver task eventID responses now =>
    obtain ⟨t, read, rest, ht, hends, rfl⟩ := step_deliver h
    have hreads : ∀ task' t', Function.update s.tasks task (some { t with endpoints := rest }) task' = some t' →
        ∀ e ∈ t'.endpoints, e.id = id → r.reads task' = some (e.failureCount.getD 0) :=
      forall_update (fun e he => hsim.read_eq task t ht e (hends ▸ List.mem_cons_of_mem read he))
        fun task' t' _ => hsim.read_eq task' t'
    rw [touches_deliver ht hends]
    by_cases hid : read.id = id
    · subst hid
      have hmem : read ∈ t.endpoints := hends ▸ List.mem_cons_self
      obtain ⟨row, hrow, hcount, -⟩ :=
        row?_update_self (hsim.listed task t ht read hmem) (attempts responses).delivered now
      rw [if_pos rfl, Runs.run, ReadModifyWrite.step, hsim.read_eq task t ht read hmem rfl]
      refine ⟨_, rfl, hlisted, ?_, hreads⟩
      rw [Endpoints.failureCount, hrow, Option.bind_some, hcount]
      cases (attempts responses).delivered <;> rfl
    · rw [if_neg hid]
      refine ⟨r, rfl, hlisted, ?_, hreads⟩
      rw [Endpoints.failureCount, row?_update_of_ne hid]
      exact hsim.value_eq
  | fail task =>
    obtain ⟨t, ht, rfl⟩ := step_fail h
    refine ⟨r, rfl, hlisted, hsim.value_eq, forall_update (fun e he => ?_) fun task' t' _ => hsim.read_eq task' t'⟩
    exact absurd he List.not_mem_nil

/-- A count is exact exactly if no failure is lost. -/
theorem exact_iff {log : List WebhookDelivery} {actions : List (Action τ)}
    (h : Runs.run step (.idle T log) actions = some s) (id : String) :
    Exact T log s id ↔ ∀ failed ∈ lost id (.idle T log) actions, failed = 0 := by
  have hlisted : (State.idle T log : State τ).Listed := fun _ _ ht => nomatch ht
  have hstart : Simulates id (State.idle T log) (⟨T.failureCount id, fun _ => none⟩ : ReadModifyWrite.State τ) :=
    ⟨hlisted, rfl, fun _ _ ht => nomatch ht⟩
  obtain ⟨r, hr, hsim⟩ := Runs.run_trace (Simulates id) (fun s a s' r hsim hs => hsim.step hs) hstart h
  obtain ⟨new, hlog, htotal, hstatus⟩ := run_log hlisted h id
  have hvalue := ReadModifyWrite.value_eq_iff (fun _ => rfl) hr
  rw [hsim.value_eq, htotal] at hvalue
  unfold lost
  rw [← hvalue]
  constructor
  · rintro ⟨new', hlog', hcount, -⟩
    obtain rfl := List.append_cancel_left (hlog.symm.trans hlog')
    exact hcount
  · exact fun hcount => ⟨new, hlog, hcount, hstatus⟩

def hooks : Endpoints where
  rows := [⟨"ep", "t", some ["*"], some true, none, none, some 0⟩]
  keyed := List.nodup_singleton _

/-- A task for an alert that fires, with its delivery and three answers of status 500. -/
def failing (task : Bool) : Action Bool × Action Bool :=
  (.start task "t" "alert.fired", .deliver task "ev" (fun _ => .status 500) 0)

def oneByOne : List (Action Bool) := [(failing false).1, (failing false).2, (failing true).1, (failing true).2]

def atOnce : List (Action Bool) := [(failing false).1, (failing true).1, (failing false).2, (failing true).2]

/-- Both deliveries fail, one after the other. -/
theorem exact_one_by_one : ∃ s, Runs.run step (.idle hooks []) oneByOne = some s ∧ Exact hooks [] s "ep" := by
  have hnothing : ∀ failed ∈ lost "ep" (.idle hooks []) oneByOne, failed = 0 := by decide
  refine ⟨_, rfl, (exact_iff ?_ "ep").2 hnothing⟩
  rfl

/-- Both deliveries fail, and both tasks begin before either has finished. -/
theorem not_exact_at_once : ∃ s,
    Runs.run step (.idle hooks []) atOnce = some s ∧
      (∀ task t, s.tasks task = some t → t.endpoints = []) ∧ failures "ep" s.deliveries = 2 ∧
      s.endpoints.failureCount "ep" = 1 ∧ ¬ Exact hooks [] s "ep" := by
  refine ⟨_, rfl, ?_, by decide, by decide, ?_⟩
  · rintro (_ | _) t ht
    · obtain rfl := Option.some.inj ht
      rfl
    · obtain rfl := Option.some.inj ht
      rfl
  · rintro ⟨new, hlog, hcount, -⟩
    obtain rfl := (List.nil_append new).symm.trans hlog.symm
    exact absurd hcount (by decide)

end Dgraphai.Webhooks
