import Dgraphai.FileActions
import Dgraphai.GraphBackend
import Dgraphai.Lib.JsonLines
import Dgraphai.Lib.PySlice
import Dgraphai.Lib.Runs

/-!
# The audit log of the file actions (`api/actions.py`)

`move_file` and `delete_file` log an action before they carry it out and again when it is over, each record a line of
`audit.jsonl`. Requests of several workers come between one another, and a worker can stop in the middle of one. In all
their histories the log tells of every action what became of it (`actions_accounted`), and `get_audit_log` gives the newest
records back as they were logged (`auditLog_readsBack`).
-/

namespace Dgraphai.FileActions

open Auth (HttpError)
open GraphBackend (strip)

structure DeleteRequest where
  path : String
  dryRun : Bool

/-- The protocols of the catalog, with `delete`. -/
structure Storage extends Protocols where
  delete : Proto → String → Except String Unit

/-- The `try` block of `delete_file`. -/
def deleted (S : Storage) (req : DeleteRequest) : Except String Unit := do
  let (proto, path) ← S.factory req.path
  S.delete proto path

/-! ### Records -/

inductive Request where
  | move (req : MoveRequest)
  | delete (req : DeleteRequest)

def Request.dryRun : Request → Bool
  | .move req => req.dryRun
  | .delete req => req.dryRun

/-- The fields of `action` between its `id` and `dry_run`. -/
def Request.fields : Request → Json.Fields
  | .move req => [("type", .str "move"), ("source", .str req.source), ("destination", .str req.destination)]
  | .delete req => [("type", .str "delete"), ("path", .str req.path)]

/-- A request that is handled, with what `uuid4` and `utcnow` gave for it. -/
structure Job where
  request : Request
  id : String
  timestamp : String

/-- `action` as it is logged. -/
structure Entry where
  job : Job
  status : String
  error : Option String

def Entry.fields (e : Entry) : Json.Fields :=
  [("id", .str e.job.id)] ++ e.job.request.fields ++
    [("dry_run", .bool e.job.request.dryRun), ("timestamp", .str e.job.timestamp), ("status", .str e.status)] ++
    e.error.toList.map fun text => ("error", .str text)

/-- The record that `_log_action` is called with first. -/
def Job.opened (job : Job) : Entry := ⟨job, if job.request.dryRun then "dry_run" else "pending", none⟩

/-- The record at the end; what is raised is given by its text. -/
def Job.closed (job : Job) : Except String Unit → Entry
  | .ok () => ⟨job, "complete", none⟩
  | .error e => ⟨job, "error", some e⟩

/-- `move_file` and `delete_file`, with what comes of the `try` block: the answer, and the records. -/
def handle (job : Job) (outcome : Except String Unit) : Except HttpError Json.Fields × List Entry :=
  if job.request.dryRun then
    (.ok (job.opened.fields ++ [("message", .str "Set dry_run=false to execute")]), [job.opened])
  else
    match outcome with
    | .ok () => (.ok (job.closed (.ok ())).fields, [job.opened, job.closed (.ok ())])
    | .error e => (.error ⟨500, e⟩, [job.opened, job.closed (.error e)])

/-- `delete_file`. -/
def deleteFile (S : Storage) (uuid now : String) (req : DeleteRequest) : Except HttpError Json.Fields × List Entry :=
  handle ⟨.delete req, uuid, now⟩ (deleted S req)

/-- An `Action` as the dictionary it stands for. -/
def Action.fields (a : Action) : Json.Fields :=
  [("id", .str a.id), ("type", .str "move"), ("source", .str a.source), ("destination", .str a.destination),
    ("dry_run", .bool a.dryRun), ("timestamp", .str a.timestamp), ("status", .str a.status)] ++
    (a.error.toList.map fun text => ("error", .str text)) ++ a.message.toList.map fun text => ("message", .str text)

/-- `move_file` handles a move. -/
theorem moveFile_eq_handle (E : Env) (req : MoveRequest) (log : List Action) :
    (moveFile E req log).1.map Action.fields = (handle ⟨.move req, E.uuid, E.now⟩ (moved E req)).1 ∧
      (moveFile E req log).2.map Action.fields =
        log.map Action.fields ++ (handle ⟨.move req, E.uuid, E.now⟩ (moved E req)).2.map Entry.fields := by
  unfold moveFile handle
  dsimp only [Request.dryRun]
  split_ifs with hdry
  · rw [List.map_append]
    simp [Action.fields, Entry.fields, Job.opened, Request.fields, Request.dryRun, hdry, Except.map]
  · cases moved E req with
    | ok u =>
      rw [List.map_append]
      simp [Action.fields, Entry.fields, Job.opened, Job.closed, Request.fields, Request.dryRun, hdry, Except.map]
    | error e =>
      rw [List.map_append]
      simp [Action.fields, Entry.fields, Job.opened, Job.closed, Request.fields, Request.dryRun, hdry, Except.map]

/-! ### The log -/

/-- `_log_action`; `none` is no file. -/
def logAction (file : Option (List Char)) (e : Entry) : Option (List Char) :=
  some (file.getD [] ++ JsonLines.line JsonText.escape .spaced (.obj e.fields))

/-- `get_audit_log`. -/
def getAuditLog (file : Option (List Char)) (limit : ℤ) : List Json :=
  match file with
  | none => []
  | some text =>
    let lines := (strip text).splitOn '\n'
    let entries := (PySlice.slice lines (-1000) lines.length).reverse.filterMap JsonText.loads
    PySlice.slice entries 0 limit

/-! ### Histories -/

/-- How far a request has come. -/
inductive Phase where
  | unused
  | dry (job : Job)
  | pending (job : Job)
  | tried (job : Job) (outcome : Except String Unit)
  | ended (job : Job) (outcome : Except String Unit)

inductive Event where
  | logged (e : Entry)
  /-- The protocols were asked to carry out the action. -/
  | tried (job : Job) (outcome : Except String Unit)

def Event.id : Event → String
  | .logged e => e.job.id
  | .tried job _ => job.id

def Event.entry? : Event → Option Entry
  | .logged e => some e
  | .tried _ _ => none

structure State where
  /-- The text of `audit.jsonl`. -/
  file : Option (List Char)
  /-- The requests by the `id` of their actions. -/
  phase : String → Phase
  /-- The worker of a request has stopped. -/
  stopped : String → Bool
  history : List Event

inductive Step where
  | begin (job : Job)
  | attempt (id : String) (outcome : Except String Unit)
  | finish (id : String)
  | stop (id : String)

def State.log (s : State) (id : String) (e : Entry) (p : Phase) : State :=
  { s with
    file := logAction s.file e
    phase := Function.update s.phase id p
    history := s.history ++ [.logged e] }

/-- A step of one of the workers; `uuid4` gives no id twice, and a record is appended in one piece. -/
def step (s : State) : Step → Option State
  | .begin job =>
    match s.phase job.id with
    | .unused => some (s.log job.id job.opened (if job.request.dryRun then .dry job else .pending job))
    | _ => none
  | .attempt id outcome =>
    match s.phase id with
    | .pending job =>
      if s.stopped id then none
      else some { s with
        phase := Function.update s.phase id (.tried job outcome)
        history := s.history ++ [.tried job outcome] }
    | _ => none
  | .finish id =>
    match s.phase id with
    | .tried job outcome => if s.stopped id then none else some (s.log id (job.closed outcome) (.ended job outcome))
    | _ => none
  | .stop id => some { s with stopped := Function.update s.stopped id true }

def start : State := ⟨none, fun _ => .unused, fun _ => false, []⟩

/-- What was logged and tried for an id, in order. -/
def State.told (s : State) (id : String) : List Event := s.history.filter fun e => e.id = id

def State.entries (s : State) : List Entry := s.history.filterMap Event.entry?

/-- What is to be told of an action in the end. -/
def Job.story (job : Job) (outcome : Except String Unit) : List Event :=
  if job.request.dryRun then [.logged job.opened]
  else [.logged job.opened, .tried job outcome, .logged (job.closed outcome)]

/-- The request is on its way, or its worker stopped on its way. -/
def State.Open (s : State) (id : String) : Prop :=
  ∃ job, s.phase id = .pending job ∨ ∃ outcome, s.phase id = .tried job outcome

/-- What was told of an action is the story of one request, all of it where the request has come to its end. -/
def Accounted (s : State) (id : String) : Prop :=
  s.told id = [] ∨ ∃ (job : Job) (outcome : Except String Unit), job.id = id ∧ s.told id <+: job.story outcome ∧ s.told id ≠ [] ∧
    (s.told id = job.story outcome ∨ s.Open id)

/-! ### One step -/

/-- What a step does to the request it is about. -/
inductive Moves (id : String) : Phase → Event → Phase → Prop where
  | dry {job : Job} (hid : job.id = id) (hdry : job.request.dryRun = true) :
    Moves id .unused (.logged job.opened) (.dry job)
  | announced {job : Job} (hid : job.id = id) (hdry : job.request.dryRun = false) :
    Moves id .unused (.logged job.opened) (.pending job)
  | tried (job : Job) (outcome : Except String Unit) : Moves id (.pending job) (.tried job outcome) (.tried job outcome)
  | closed (job : Job) (outcome : Except String Unit) :
    Moves id (.tried job outcome) (.logged (job.closed outcome)) (.ended job outcome)

variable {s s' : State} {a : Step} {id : String}

/-- A step moves one request on, with an event, or stops a worker. -/
theorem step_cases (h : step s a = some s') :
    (s'.file = s.file ∧ s'.phase = s.phase ∧ s'.history = s.history) ∨
      ∃ id ev p, Moves id (s.phase id) ev p ∧ s'.phase = Function.update s.phase id p ∧
        s'.history = s.history ++ [ev] ∧ s'.file = (ev.entry?.map (logAction s.file)).getD s.file := by
  cases a with
  | begin job =>
    rw [step] at h
    split at h
    · rename_i hphase
      cases h
      refine .inr ⟨job.id, _, _, ?_, rfl, rfl, rfl⟩
      rw [hphase]
      split_ifs with hdry
      · exact .dry rfl hdry
      · exact .announced rfl (eq_false_of_ne_true hdry)
    · cases h
  | attempt id outcome =>
    rw [step] at h
    split at h
    · rename_i job hphase
      split_ifs at h
      cases h
      refine .inr ⟨id, .tried job outcome, _, ?_, rfl, rfl, rfl⟩
      rw [hphase]
      exact .tried job outcome
    · cases h
  | finish id =>
    rw [step] at h
    split at h
    · rename_i job outcome hphase
      split_ifs at h
      cases h
      refine .inr ⟨id, .logged (job.closed outcome), _, ?_, rfl, rfl, rfl⟩
      rw [hphase]
      exact .closed job outcome
    · cases h
  | stop id =>
    cases h
    exact .inl ⟨rfl, rfl, rfl⟩

/-! ### What is told of an action -/

/-- What is told of an id by the time a request has come that far. -/
def Phase.Tells (id : String) (events : List Event) : Phase → Prop
  | .unused => events = []
  | .dry job => job.id = id ∧ job.request.dryRun = true ∧ events = [.logged job.opened]
  | .pending job => job.id = id ∧ job.request.dryRun = false ∧ events = [.logged job.opened]
  | .tried job outcome =>
    job.id = id ∧ job.request.dryRun = false ∧ events = [.logged job.opened, .tried job outcome]
  | .ended job outcome =>
    job.id = id ∧ job.request.dryRun = false ∧
      events = [.logged job.opened, .tried job outcome, .logged (job.closed outcome)]

theorem id_closed (job : Job) (outcome : Except String Unit) : (job.closed outcome).job = job := by
  cases outcome <;> rfl

theorem Moves.tells {p q : Phase} {ev : Event} {events : List Event} (h : Moves id p ev q) (hp : p.Tells id events) :
    ev.id = id ∧ q.Tells id (events ++ [ev]) := by
  cases h with
  | dry hid hdry =>
    obtain rfl := hp
    exact ⟨hid, hid, hdry, rfl⟩
  | announced hid hdry =>
    obtain rfl := hp
    exact ⟨hid, hid, hdry, rfl⟩
  | tried job outcome =>
    obtain ⟨hid, hdry, rfl⟩ := hp
    exact ⟨hid, hid, hdry, rfl⟩
  | closed job outcome =>
    obtain ⟨hid, hdry, rfl⟩ := hp
    refine ⟨?_, hid, hdry, rfl⟩
    show (job.closed outcome).job.id = id
    rw [id_closed, hid]

theorem told_of_history {ev : Event} (h : s'.history = s.history ++ [ev]) (id : String) :
    s'.told id = s.told id ++ if ev.id = id then [ev] else [] := by
  rw [State.told, h, List.filter_append, State.told]
  congr 1
  by_cases hev : ev.id = id <;> simp [hev]

/-- Each request has told what it has come to. -/
def Tells (s : State) : Prop := ∀ id, (s.phase id).Tells id (s.told id)

theorem tells_step (hs : Tells s) (h : step s a = some s') : Tells s' := by
  intro id
  rcases step_cases h with ⟨-, hphase, hhistory⟩ | ⟨id', ev, p, hmoves, hphase, hhistory, -⟩
  · rw [hphase, State.told, hhistory]
    exact hs id
  · obtain ⟨hev, htells⟩ := hmoves.tells (hs id')
    rw [hphase, told_of_history hhistory]
    by_cases hid : id = id'
    · subst hid
      rw [Function.update_self, if_pos hev]
      exact htells
    · rw [Function.update_of_ne hid, if_neg fun h => hid (h.symm.trans hev), List.append_nil]
      exact hs id

theorem accounted_of_tells (hs : Tells s) (id : String) : Accounted s id := by
  have hid := hs id
  cases hphase : s.phase id with
  | unused =>
    rw [hphase] at hid
    exact .inl hid
  | dry job =>
    rw [hphase] at hid
    obtain ⟨hid, hdry, htold⟩ := hid
    have hstory : s.told id = job.story (.ok ()) := by rw [htold, Job.story, if_pos hdry]
    refine .inr ⟨job, .ok (), hid, hstory ▸ List.prefix_rfl, ?_, .inl hstory⟩
    rw [htold]
    exact List.cons_ne_nil _ _
  | pending job =>
    rw [hphase] at hid
    obtain ⟨hid, hdry, htold⟩ := hid
    refine .inr ⟨job, .ok (), hid, ?_, ?_, .inr ⟨job, .inl hphase⟩⟩
    · rw [htold, Job.story, if_neg (ne_true_of_eq_false hdry)]
      exact ⟨[_, _], rfl⟩
    · rw [htold]
      exact List.cons_ne_nil _ _
  | tried job outcome =>
    rw [hphase] at hid
    obtain ⟨hid, hdry, htold⟩ := hid
    refine .inr ⟨job, outcome, hid, ?_, ?_, .inr ⟨job, .inr ⟨outcome, hphase⟩⟩⟩
    · rw [htold, Job.story, if_neg (ne_true_of_eq_false hdry)]
      exact ⟨[_], rfl⟩
    · rw [htold]
      exact List.cons_ne_nil _ _
  | ended job outcome =>
    rw [hphase] at hid
    obtain ⟨hid, hdry, htold⟩ := hid
    have hstory : s.told id = job.story outcome := by rw [htold, Job.story, if_neg (ne_true_of_eq_false hdry)]
    refine .inr ⟨job, outcome, hid, hstory ▸ List.prefix_rfl, ?_, .inl hstory⟩
    rw [htold]
    exact List.cons_ne_nil _ _

theorem tells_start : Tells start := fun _ => rfl

/-- In every history of the workers the log tells of each action what became of it: a dry run is logged and never tried;
any other action is logged before it is tried, is tried once, and its outcome is logged behind, unless the request has
not come to its end. -/
theorem actions_accounted (steps : List Step) : Runs.Always step (fun s => ∀ id, Accounted s id) start steps := by
  intro pre s _ hrun
  exact accounted_of_tells (Runs.inv_run (fun _ _ _ hs h => tells_step hs h) hrun tells_start)

/-! ### What is read back -/

/-- The records in `audit.jsonl`. -/
def Entry.json (e : Entry) : Json := .obj e.fields

def logText (es : List Entry) : List Char := JsonLines.text JsonText.escape .spaced (es.map Entry.json)

theorem representable_json (e : Entry) : JsonText.Representable e.json := by
  rw [Entry.json, JsonText.representable_obj, Entry.fields]
  cases e.job.request <;> cases e.error <;> simp [Request.fields, JsonText.Representable]

theorem strip_line {b c : Char} (hb : Cypher.isSpace b = false) (hc : Cypher.isSpace c = false) (m : List Char) :
    strip (b :: (m ++ [c, '\n'])) = b :: (m ++ [c]) := by
  have hfeed : Cypher.isSpace '\n' = true := by decide
  rw [strip, List.dropWhile_cons, hb, if_neg Bool.false_ne_true, List.reverse_cons, List.reverse_append]
  simp [hfeed, hc]

/-- The text of a record. -/
def Entry.text (e : Entry) : List Char := JsonText.dumpsWith JsonText.escape .spaced e.json

theorem logText_append (es : List Entry) (e : Entry) : logText (es ++ [e]) = logText es ++ (e.text ++ ['\n']) := by
  rw [logText, JsonLines.text, List.map_append, List.flatMap_append, List.map_singleton, List.flatMap_singleton]
  rfl

/-- The log without its last line feed begins and ends with a brace. -/
theorem exists_braces (es : List Entry) (e : Entry) : ∃ m, logText es ++ e.text = '{' :: (m ++ ['}']) := by
  obtain ⟨m, hm⟩ : ∃ m, e.text = '{' :: (m ++ ['}']) := JsonLines.exists_object e.fields
  cases es with
  | nil => exact ⟨m, hm⟩
  | cons e₀ es =>
    obtain ⟨m₀, hm₀⟩ : ∃ m, e₀.text = '{' :: (m ++ ['}']) := JsonLines.exists_object e₀.fields
    have hcons : logText (e₀ :: es) = e₀.text ++ ['\n'] ++ logText es := by
      rw [logText, JsonLines.text, List.map_cons, List.flatMap_cons]
      rfl
    refine ⟨m₀ ++ '}' :: '\n' :: (logText es ++ '{' :: m), ?_⟩
    rw [hcons, hm₀, hm]
    simp only [List.cons_append, List.append_assoc, List.nil_append]

/-- What `strip` takes away is the last line feed. -/
theorem splitOn_strip_logText (es : List Entry) (e : Entry) :
    (strip (logText (es ++ [e]))).splitOn '\n' = (es ++ [e]).map Entry.text := by
  have hes : ∀ j ∈ es.map Entry.json, JsonText.Representable j := List.forall_mem_map.2 fun e _ => representable_json e
  have hline : '\n' ∉ e.text :=
    JsonLines.newline_not_mem_dumpsWith JsonLines.printed_escape (representable_json e)
  obtain ⟨m, hm⟩ := exists_braces es e
  have hstrip : strip (logText (es ++ [e])) = logText es ++ e.text := by
    rw [logText_append, ← List.append_assoc, hm, List.cons_append, List.append_assoc]
    exact strip_line (by decide) (by decide) m
  rw [hstrip, logText, JsonLines.splitOn_text JsonLines.printed_escape hes, List.splitOn_eq_singleton hline,
    List.map_append, List.map_map]
  rfl

theorem loads_text (e : Entry) : JsonText.loads e.text = some e.json :=
  JsonText.loads_dumpsWith JsonText.escapes_escape (representable_json e)

/-- `lines[-1000:]`, the other way round. -/
theorem reverse_slice {α : Type} (l : List α) : (PySlice.slice l (-1000) l.length).reverse = l.reverse.take 1000 := by
  have hstart : PySlice.clamp l.length (-1000) = l.length - 1000 := by
    rw [PySlice.clamp_of_neg (by decide)]
    omega
  have hstop : PySlice.clamp l.length l.length = l.length := by
    rw [PySlice.clamp_of_nonneg (by omega)]
    omega
  rw [PySlice.slice, hstart, hstop, List.take_of_length_le (by rw [List.length_drop]), List.take_reverse]

/-- `get_audit_log` of a log that the workers have written. -/
theorem getAuditLog_logText (es : List Entry) (e : Entry) (limit : ℤ) :
    getAuditLog (some (logText (es ++ [e]))) limit =
      PySlice.slice (((es ++ [e]).reverse.take 1000).map Entry.json) 0 limit := by
  have hloads : ∀ l : List Entry, (l.map Entry.text).filterMap JsonText.loads = l.map Entry.json := fun l => by
    rw [List.filterMap_map, ← List.filterMap_eq_map]
    exact List.filterMap_congr fun e _ => loads_text e
  unfold getAuditLog
  dsimp only
  rw [splitOn_strip_logText, reverse_slice, ← List.map_reverse, ← List.map_take, hloads]

/-- The file holds the records, and is there from the first one on. -/
def Written (s : State) : Prop :=
  s.file = none ∧ s.entries = [] ∨ s.file = some (logText s.entries) ∧ s.entries ≠ []

theorem written_step (hs : Written s) (h : step s a = some s') : Written s' := by
  rcases step_cases h with ⟨hfile, -, hhistory⟩ | ⟨id, ev, p, -, -, hhistory, hfile⟩
  · rw [Written, State.entries, hfile, hhistory]
    exact hs
  have hentries : s'.entries = s.entries ++ ev.entry?.toList := by
    rw [State.entries, hhistory, List.filterMap_append, State.entries]
    cases ev <;> rfl
  cases ev with
  | tried job outcome =>
    have hsame : s'.entries = s.entries := hentries.trans (List.append_nil _)
    rw [Written, hsame, hfile]
    exact hs
  | logged e =>
    have htext : s.file.getD [] = logText s.entries := by
      rcases hs with ⟨hnone, hnil⟩ | ⟨hsome, -⟩
      · rw [hnone, hnil]
        rfl
      · rw [hsome]
        rfl
    refine .inr ⟨?_, ?_⟩
    · rw [hfile, hentries]
      show some (s.file.getD [] ++ (e.text ++ ['\n'])) = some (logText (s.entries ++ [e]))
      rw [htext, logText_append]
    · rw [hentries]
      exact List.append_ne_nil_of_right_ne_nil _ (List.cons_ne_nil _ _)

/-- In every history of the workers `get_audit_log` answers with the last thousand records, the newest first and each as
it was logged, cut to the limit. -/
theorem auditLog_readsBack (steps : List Step) : Runs.Always step (fun s => ∀ limit,
    getAuditLog s.file limit = PySlice.slice ((s.entries.reverse.take 1000).map Entry.json) 0 limit) start steps := by
  intro pre s _ hrun limit
  rcases Runs.inv_run (fun _ _ _ hs h => written_step hs h) hrun (.inl ⟨rfl, rfl⟩) with ⟨hnone, hnil⟩ | ⟨hsome, hne⟩
  · rw [hnone, hnil]
    simp [getAuditLog, PySlice.slice]
  · obtain ⟨es, e, hes⟩ := (List.eq_nil_or_concat' _).resolve_left hne
    rw [hsome, hes]
    exact getAuditLog_logText es e limit

end Dgraphai.FileActions
