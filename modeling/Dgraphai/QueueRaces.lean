import Dgraphai.Lib.Runs
import Dgraphai.QueueOutage
import Mathlib.Logic.Function.Basic

/-!
# Concurrent calls on one queue

`Flush` holds the lock while it reads a batch and while it records what one `send` returned, not while it
sends. A `SharedQueue` is the table with the `Flush` calls that run on it; a read, a return of `send` and a
record are steps of their own. A call alone on the queue does what `flushLoop` does (`exists_run_flushLoop`).
An entry is never dropped before its last attempt has failed, but two calls that read the same row send it
twice; it is sent at most once as long as what is sent is still `Exclusive` (`counted_of_exclusive`).
-/

namespace Dgraphai.Agent

/-! ### The table -/

theorem PendingDeltas.settle_nextId (t : PendingDeltas) (r : DeltaRecord) (err : Option String) :
    (t.settle r err).nextId = t.nextId := by
  cases err with
  | none => rfl
  | some e =>
    unfold PendingDeltas.settle
    dsimp only
    split_ifs <;> rfl

/-- What is in the table after a record was settled, by any call. -/
theorem PendingDeltas.mem_settle_rows {t : PendingDeltas} {r row : DeltaRecord} {err : Option String} :
    row ∈ (t.settle r err).rows ↔ row ∈ t.rows ∧ row.id ≠ r.id ∨
      ∃ e, err = some e ∧ r.attempts + 1 < maxAttempts ∧ ∃ old ∈ t.rows, old.id = r.id ∧
        row = { old with attempts := r.attempts + 1, lastError := some e } := by
  have hdelete : row ∈ (t.delete r.id).rows ↔ row ∈ t.rows ∧ row.id ≠ r.id := by
    simp [PendingDeltas.delete]
  cases err with
  | none =>
    rw [PendingDeltas.settle, hdelete]
    simp
  | some e =>
    unfold PendingDeltas.settle
    dsimp only
    split_ifs with hmax
    · rw [hdelete]
      refine (or_iff_left ?_).symm
      rintro ⟨-, -, hlt, -⟩
      omega
    · simp only [PendingDeltas.update, List.mem_map]
      constructor
      · rintro ⟨old, hold, rfl⟩
        split_ifs with hid
        · exact .inr ⟨e, rfl, by omega, old, hold, hid, rfl⟩
        · exact .inl ⟨hold, hid⟩
      · rintro (⟨hrow, hid⟩ | ⟨e', he, -, old, hold, hid, rfl⟩)
        · exact ⟨row, hrow, if_neg hid⟩
        · obtain rfl := Option.some.inj he
          exact ⟨old, hold, if_pos hid⟩

/-! ### The calls -/

/-- What a `Flush` has left of its batch; `sent` is what `send` returned for the first record, until that is
recorded. -/
structure FlushCall where
  records : List DeltaRecord
  sent : Option (Option String)
  deriving DecidableEq, Repr

/-- The records that are still to be sent. -/
def FlushCall.unsent (call : FlushCall) : List DeltaRecord :=
  match call.sent with
  | none => call.records
  | some _ => call.records.tail

/-- The table, the `Flush` calls that run, and the calls of `send` that have returned, oldest first. -/
structure SharedQueue where
  table : PendingDeltas
  flushes : ℕ → Option FlushCall
  calls : List (ℕ × Option String)

namespace SharedQueue

inductive Action where
  /-- `Enqueue`. -/
  | enqueue (scanID connectorID agentID tenantID : String) (payload : Payload)
  /-- `Flush` is called. -/
  | flush (f : ℕ)
  /-- The locked `SELECT`; its context can end the rows after `n`. -/
  | read (f n : ℕ)
  /-- `send` returns, without the lock. -/
  | send (f : ℕ) (err : Option String)
  /-- The locked `DELETE` or `UPDATE` for the record that was sent. -/
  | settle (f : ℕ)
  /-- The context is done, or the query fails: `Flush` returns the error. -/
  | leave (f : ℕ)
  deriving DecidableEq, Repr

def opened (t : PendingDeltas) : SharedQueue := ⟨t, fun _ => none, []⟩

def hold (q : SharedQueue) (f : ℕ) (call : Option FlushCall) : SharedQueue :=
  { q with flushes := Function.update q.flushes f call }

/-- A round of `Flush` without rows is its last. -/
def afterRead : List DeltaRecord → Option FlushCall
  | [] => none
  | r :: rs => some ⟨r :: rs, none⟩

def step (q : SharedQueue) : Action → Option SharedQueue
  | .enqueue scanID connectorID agentID tenantID payload =>
    some { q with table := q.table.insert scanID connectorID agentID tenantID payload }
  | .flush f => if q.flushes f = none then some (q.hold f (some ⟨[], none⟩)) else none
  | .read f n =>
    if q.flushes f = some ⟨[], none⟩ ∧ n ≤ flushBatchSize then some (q.hold f (afterRead (q.table.rows.take n)))
    else none
  | .send f err =>
    match q.flushes f with
    | some ⟨r :: rs, none⟩ =>
      some { q.hold f (some ⟨r :: rs, some err⟩) with calls := q.calls ++ [(r.id, err)] }
    | _ => none
  | .settle f =>
    match q.flushes f with
    | some ⟨r :: rs, some err⟩ => some { q.hold f (some ⟨rs, none⟩) with table := q.table.settle r err }
    | _ => none
  | .leave f => if q.flushes f = some ⟨[], none⟩ then some (q.hold f none) else none

/-- A `send` goes through only while the row is in the table, and not in another call that has sent it and
not deleted it yet. -/
def Exclusive (q : SharedQueue) : Action → Prop
  | .send f none => ∀ r rs, q.flushes f = some ⟨r :: rs, none⟩ →
      (∃ row ∈ q.table.rows, row.id = r.id) ∧
        ∀ g r' rs', q.flushes g = some ⟨r' :: rs', some none⟩ → r'.id ≠ r.id
  | _ => True

/-- No `Flush` reads while another has records left. -/
def Serial (q : SharedQueue) : Action → Prop
  | .read f _ => ∀ g call, g ≠ f → q.flushes g = some call → call.records = []
  | _ => True

/-- The failed calls of `send` for an entry; those before `t` was opened are counted in its row. -/
def failed (t : PendingDeltas) (calls : List (ℕ × Option String)) (id : ℕ) : ℕ :=
  (t.rows.find? (·.id = id)).elim 0 (·.attempts) + calls.countP fun c => c.1 = id ∧ c.2 ≠ none

/-- The entries that were in `t` or have been enqueued since. -/
def Entry (t : PendingDeltas) (q : SharedQueue) (id : ℕ) : Prop :=
  (∃ row ∈ t.rows, row.id = id) ∨ t.nextId ≤ id ∧ id < q.table.nextId

/-- No entry is sent successfully twice, and one that is gone without has failed as often as it may. -/
structure Counted (t : PendingDeltas) (q : SharedQueue) : Prop where
  once : ∀ id, q.calls.count (id, none) ≤ 1
  dropped : ∀ id, Entry t q id → (∀ row ∈ q.table.rows, row.id ≠ id) → (id, none) ∉ q.calls →
    maxAttempts ≤ failed t q.calls id

variable {t : PendingDeltas} {q q' : SharedQueue} {a : Action} {as : List Action} {f g id : ℕ}
  {r : DeltaRecord} {rs : List DeltaRecord} {call : FlushCall} {err : Option String}

/-! ### Steps -/

theorem step_cases (h : q.step a = some q') :
    (∃ scanID connectorID agentID tenantID payload, a = .enqueue scanID connectorID agentID tenantID payload ∧
        q' = { q with table := q.table.insert scanID connectorID agentID tenantID payload }) ∨
      (∃ f, a = .flush f ∧ q.flushes f = none ∧ q' = q.hold f (some ⟨[], none⟩)) ∨
      (∃ f n, a = .read f n ∧ q.flushes f = some ⟨[], none⟩ ∧ n ≤ flushBatchSize ∧
        q' = q.hold f (afterRead (q.table.rows.take n))) ∨
      (∃ f err r rs, a = .send f err ∧ q.flushes f = some ⟨r :: rs, none⟩ ∧
        q' = { q.hold f (some ⟨r :: rs, some err⟩) with calls := q.calls ++ [(r.id, err)] }) ∨
      (∃ f r rs err, a = .settle f ∧ q.flushes f = some ⟨r :: rs, some err⟩ ∧
        q' = { q.hold f (some ⟨rs, none⟩) with table := q.table.settle r err }) ∨
      ∃ f, a = .leave f ∧ q.flushes f = some ⟨[], none⟩ ∧ q' = q.hold f none := by
  cases a with
  | enqueue scanID connectorID agentID tenantID payload =>
    exact .inl ⟨scanID, connectorID, agentID, tenantID, payload, rfl, (Option.some.inj h).symm⟩
  | flush f =>
    simp only [step] at h
    split_ifs at h with hf
    exact .inr (.inl ⟨f, rfl, hf, (Option.some.inj h).symm⟩)
  | read f n =>
    simp only [step] at h
    split_ifs at h with hf
    exact .inr (.inr (.inl ⟨f, n, rfl, hf.1, hf.2, (Option.some.inj h).symm⟩))
  | send f err =>
    simp only [step] at h
    split at h
    · next r rs hf => exact .inr (.inr (.inr (.inl ⟨f, err, r, rs, rfl, hf, (Option.some.inj h).symm⟩)))
    · cases h
  | settle f =>
    simp only [step] at h
    split at h
    · next r rs err hf =>
      exact .inr (.inr (.inr (.inr (.inl ⟨f, r, rs, err, rfl, hf, (Option.some.inj h).symm⟩))))
    · cases h
  | leave f =>
    simp only [step] at h
    split_ifs at h with hf
    exact .inr (.inr (.inr (.inr (.inr ⟨f, rfl, hf, (Option.some.inj h).symm⟩))))

theorem hold_self (q : SharedQueue) (f : ℕ) (call : Option FlushCall) : (q.hold f call).flushes f = call :=
  Function.update_self ..

theorem hold_ne {call : Option FlushCall} (h : g ≠ f) : (q.hold f call).flushes g = q.flushes g :=
  Function.update_of_ne h ..

/-- What holds of every call that runs still does after a change of one. -/
theorem forall_hold {P : FlushCall → Prop} {c : Option FlushCall} (h : ∀ g call, q.flushes g = some call → P call)
    (hc : ∀ call ∈ c, P call) : ∀ g call, (q.hold f c).flushes g = some call → P call := by
  intro g call hg
  by_cases hgf : g = f
  · rw [hgf, hold_self] at hg
    exact hc call hg
  · rw [hold_ne hgf] at hg
    exact h g call hg

theorem mem_afterRead {rows : List DeltaRecord} (h : call ∈ afterRead rows) :
    call = ⟨rows, none⟩ ∧ rows ≠ [] := by
  cases rows with
  | nil => cases h
  | cons r rs => exact ⟨(Option.some.inj h).symm, List.cons_ne_nil r rs⟩

/-! ### Failed calls -/

/-- A call holds no more attempts than have failed, and what it has sent is in `calls`. -/
structure Accounts (t : PendingDeltas) (calls : List (ℕ × Option String)) (call : FlushCall) : Prop where
  attempts : ∀ r ∈ call.records, r.attempts ≤ failed t calls r.id
  delivered : ∀ r rs, call = ⟨r :: rs, some none⟩ → (r.id, none) ∈ calls
  unsettled : ∀ r rs e, call = ⟨r :: rs, some (some e)⟩ → r.attempts < failed t calls r.id

/-- The attempts in the table and in the calls are failed calls, and only these are dropped. -/
structure Inv (t : PendingDeltas) (q : SharedQueue) : Prop where
  rows : ∀ row ∈ q.table.rows, row.attempts ≤ failed t q.calls row.id
  calls : ∀ f call, q.flushes f = some call → Accounts t q.calls call
  dropped : ∀ id, Entry t q id → (∀ row ∈ q.table.rows, row.id ≠ id) → (id, none) ∉ q.calls →
    maxAttempts ≤ failed t q.calls id

theorem failed_concat (t : PendingDeltas) (calls : List (ℕ × Option String)) (call : ℕ × Option String) (id : ℕ) :
    failed t (calls ++ [call]) id = failed t calls id + if call.1 = id ∧ call.2 ≠ none then 1 else 0 := by
  simp only [failed, List.countP_append, List.countP_singleton, decide_eq_true_eq]
  omega

theorem Accounts.read {calls : List (ℕ × Option String)} (h : ∀ r ∈ rs, r.attempts ≤ failed t calls r.id) :
    Accounts t calls ⟨rs, none⟩ where
  attempts := h
  delivered := by rintro _ _ ⟨⟩
  unsettled := by rintro _ _ _ ⟨⟩

theorem inv_opened (t : PendingDeltas) : Inv t (opened t) where
  rows := by
    intro row hrow
    obtain ⟨pre, post, hsplit⟩ := List.append_of_mem hrow
    have hpre := (PendingDeltas.id_ne_of_split hsplit).1
    have hfind : t.rows.find? (·.id = row.id) = some row := by
      show (opened t).table.rows.find? _ = _
      rw [hsplit, List.find?_append, List.find?_eq_none.2 (by simpa using hpre)]
      simp
    rw [failed, hfind]
    exact Nat.le_add_right _ _
  calls := by rintro f call ⟨⟩
  dropped := by
    rintro id (⟨row, hrow, hid⟩ | ⟨hge, hlt⟩) hgone -
    · exact absurd hid (hgone row hrow)
    · exact absurd hlt (Nat.not_lt.2 hge)

theorem Inv.hold (h : Inv t q) {c : Option FlushCall} (hc : ∀ call ∈ c, Accounts t q.calls call) :
    Inv t (q.hold f c) where
  rows := h.rows
  calls := forall_hold h.calls hc
  dropped := h.dropped

theorem Inv.send (h : Inv t q) (hf : q.flushes f = some ⟨r :: rs, none⟩) :
    Inv t { q.hold f (some ⟨r :: rs, some err⟩) with calls := q.calls ++ [(r.id, err)] } := by
  have hle : ∀ id, failed t q.calls id ≤ failed t (q.calls ++ [(r.id, err)]) id := fun id => by
    rw [failed_concat]
    exact Nat.le_add_right _ _
  refine ⟨fun row hrow => (h.rows row hrow).trans (hle _), ?_, fun id hid hgone hno => ?_⟩
  · refine forall_hold (fun g call hg => ?_) ?_
    · obtain ⟨hattempts, hdelivered, hunsettled⟩ := h.calls g call hg
      exact ⟨fun r hr => (hattempts r hr).trans (hle _), fun r rs heq => List.mem_append_left _ (hdelivered r rs heq),
        fun r rs e heq => (hunsettled r rs e heq).trans_le (hle _)⟩
    · rintro _ ⟨⟩
      have hattempts := (h.calls f _ hf).attempts
      refine ⟨fun r hr => (hattempts r hr).trans (hle _), ?_, ?_⟩
      · rintro _ _ ⟨⟩
        exact List.mem_append_right _ (List.mem_singleton.2 rfl)
      · rintro _ _ e ⟨⟩
        have hone := failed_concat t q.calls (r.id, some e) r.id
        rw [if_pos ⟨rfl, Option.some_ne_none e⟩] at hone
        have hread := hattempts r List.mem_cons_self
        show r.attempts < failed t (q.calls ++ [(r.id, some e)]) r.id
        omega
  · exact (h.dropped id hid hgone fun hmem => hno (List.mem_append_left _ hmem)).trans (hle id)

theorem Inv.settle (h : Inv t q) (hf : q.flushes f = some ⟨r :: rs, some err⟩) :
    Inv t { q.hold f (some ⟨rs, none⟩) with table := q.table.settle r err } := by
  obtain ⟨hattempts, hdelivered, hunsettled⟩ := h.calls f _ hf
  refine ⟨fun row hrow => ?_, ?_, fun id hid hgone hno => ?_⟩
  · rcases PendingDeltas.mem_settle_rows.1 hrow with ⟨hrow, -⟩ | ⟨e, rfl, -, old, -, hid, rfl⟩
    · exact h.rows row hrow
    · show r.attempts + 1 ≤ failed t q.calls old.id
      rw [hid]
      exact hunsettled r rs e rfl
  · refine forall_hold h.calls ?_
    rintro _ ⟨⟩
    exact .read fun r hr => hattempts r (List.mem_cons_of_mem _ hr)
  · have hentry : Entry t q id := hid.imp_right fun h => ⟨h.1, PendingDeltas.settle_nextId q.table r err ▸ h.2⟩
    by_cases hin : ∃ row ∈ q.table.rows, row.id = id
    · obtain ⟨row, hrow, rfl⟩ := hin
      by_cases hrid : row.id = r.id
      · rw [hrid] at hno ⊢
        -- a row that was settled and is gone was sent, or has used up its attempts
        cases err with
        | none => exact absurd (hdelivered r rs rfl) hno
        | some e =>
          have hfail := hunsettled r rs e rfl
          by_contra hlt
          refine hgone _ (PendingDeltas.mem_settle_rows.2 (.inr ⟨e, rfl, ?_, row, hrow, hrid, rfl⟩)) rfl
          show r.attempts + 1 < maxAttempts
          exact Nat.lt_of_le_of_lt hfail (Nat.not_le.1 hlt)
      · exact absurd rfl (hgone row (PendingDeltas.mem_settle_rows.2 (.inl ⟨hrow, hrid⟩)))
    · exact h.dropped id hentry (fun row hrow heq => hin ⟨row, hrow, heq⟩) hno

theorem Inv.enqueue (h : Inv t q) (scanID connectorID agentID tenantID : String) (payload : Payload) :
    Inv t { q with table := q.table.insert scanID connectorID agentID tenantID payload } := by
  refine ⟨fun row hrow => ?_, fun f call hf => ?_, fun id hid hgone hno => ?_⟩
  · rcases List.mem_append.1 hrow with hrow | hrow
    · exact h.rows row hrow
    · rw [List.mem_singleton.1 hrow]
      exact Nat.zero_le _
  · exact h.calls f call hf
  · have hne : id ≠ q.table.nextId := by
      rintro rfl
      exact hgone _ (List.mem_append_right _ (List.mem_singleton.2 rfl)) rfl
    refine h.dropped id (hid.imp_right fun h => ⟨h.1, ?_⟩) (fun row hrow => hgone row (List.mem_append_left _ hrow)) hno
    have hlt : id < q.table.nextId + 1 := h.2
    omega

theorem Inv.step (h : Inv t q) (hstep : q.step a = some q') : Inv t q' := by
  rcases step_cases hstep with ⟨scanID, connectorID, agentID, tenantID, payload, -, rfl⟩ | ⟨f, -, -, rfl⟩ |
    ⟨f, n, -, -, -, rfl⟩ | ⟨f, err, r, rs, -, hf, rfl⟩ | ⟨f, r, rs, err, -, hf, rfl⟩ | ⟨f, -, -, rfl⟩
  · exact h.enqueue scanID connectorID agentID tenantID payload
  · refine h.hold ?_
    rintro _ ⟨⟩
    exact .read fun r hr => absurd hr List.not_mem_nil
  · refine h.hold fun call hcall => ?_
    obtain ⟨rfl, -⟩ := mem_afterRead hcall
    exact .read fun r hr => h.rows r (List.mem_of_mem_take hr)
  · exact h.send hf
  · exact h.settle hf
  · refine h.hold ?_
    rintro _ ⟨⟩

/-! ### Successful calls -/

/-- What was sent was sent once, and is out of the table or in the call that sent it. -/
structure Sent (q : SharedQueue) : Prop where
  once : ∀ id, q.calls.count (id, none) ≤ 1
  id_lt : ∀ id, (id, none) ∈ q.calls → id < q.table.nextId
  gone : ∀ id, (id, none) ∈ q.calls → (∀ row ∈ q.table.rows, row.id ≠ id) ∨
    ∃ f r rs, q.flushes f = some ⟨r :: rs, some none⟩ ∧ r.id = id

theorem sent_opened (t : PendingDeltas) : Sent (opened t) where
  once _ := Nat.zero_le 1
  id_lt _ h := absurd h List.not_mem_nil
  gone _ h := absurd h List.not_mem_nil

/-- A change of a call that has sent nothing. -/
theorem Sent.hold (h : Sent q) {c : Option FlushCall} (hf : ∀ r rs, q.flushes f ≠ some ⟨r :: rs, some none⟩) :
    Sent (q.hold f c) where
  once := h.once
  id_lt := h.id_lt
  gone id hid := by
    rcases h.gone id hid with hgone | ⟨g, r, rs, hg, hr⟩
    · exact .inl hgone
    · have hne : g ≠ f := by
        rintro rfl
        exact hf r rs hg
      exact .inr ⟨g, r, rs, (hold_ne hne).trans hg, hr⟩

theorem Sent.send (h : Sent q) (hex : q.Exclusive (.send f err)) (hf : q.flushes f = some ⟨r :: rs, none⟩) :
    Sent { q.hold f (some ⟨r :: rs, some err⟩) with calls := q.calls ++ [(r.id, err)] } := by
  have hheld := h.hold (f := f) (c := some ⟨r :: rs, some err⟩) fun r' rs' heq => by
    rw [hf] at heq
    cases heq
  cases err with
  | some e =>
    have hiff : ∀ id, (id, none) ∈ q.calls ++ [(r.id, some e)] ↔ (id, none) ∈ q.calls := by simp
    refine ⟨fun id => ?_, fun id hid => h.id_lt id ((hiff id).1 hid), fun id hid => hheld.gone id ((hiff id).1 hid)⟩
    rw [List.count_append, List.count_singleton, if_neg (by simp)]
    exact h.once id
  | none =>
    obtain ⟨⟨row, hrow, hid⟩, hother⟩ := hex r rs hf
    have hfresh : (r.id, none) ∉ q.calls := by
      intro hmem
      rcases h.gone r.id hmem with hgone | ⟨g, r', rs', hg, hr'⟩
      · exact hgone row hrow hid
      · exact hother g r' rs' hg hr'
    refine ⟨fun id => ?_, fun id hmem => ?_, fun id hmem => ?_⟩
    · rw [List.count_append, List.count_singleton]
      split_ifs with heq
      · obtain rfl : r.id = id := by simpa using heq
        rw [List.count_eq_zero_of_not_mem hfresh]
      · exact h.once id
    · rcases List.mem_append.1 hmem with hmem | hmem
      · exact h.id_lt id hmem
      · obtain rfl : id = r.id := by simpa using hmem
        exact hid ▸ q.table.id_lt row hrow
    · rcases List.mem_append.1 hmem with hmem | hmem
      · exact hheld.gone id hmem
      · obtain rfl : id = r.id := by simpa using hmem
        exact .inr ⟨f, r, rs, hold_self .., rfl⟩

theorem Sent.settle (h : Sent q) (hf : q.flushes f = some ⟨r :: rs, some err⟩) :
    Sent { q.hold f (some ⟨rs, none⟩) with table := q.table.settle r err } := by
  refine ⟨h.once, fun id hid => ?_, fun id hid => ?_⟩
  · exact (PendingDeltas.settle_nextId q.table r err).symm ▸ h.id_lt id hid
  · have hsettle : ∀ row ∈ (q.table.settle r err).rows,
        (∃ old ∈ q.table.rows, old.id = row.id) ∧ (err = none → row.id ≠ r.id) := by
      intro row hrow
      rcases PendingDeltas.mem_settle_rows.1 hrow with ⟨hrow, hne⟩ | ⟨e, rfl, -, old, hold, -, rfl⟩
      · exact ⟨⟨row, hrow, rfl⟩, fun _ => hne⟩
      · exact ⟨⟨old, hold, rfl⟩, fun heq => absurd heq (Option.some_ne_none e)⟩
    rcases h.gone id hid with hgone | ⟨g, r', rs', hg, rfl⟩
    · refine .inl fun row hrow heq => ?_
      obtain ⟨⟨old, hold, hid'⟩, -⟩ := hsettle row hrow
      exact hgone old hold (hid'.trans heq)
    · by_cases hgf : g = f
      · obtain ⟨⟨rfl, rfl⟩, rfl⟩ : (r' = r ∧ rs' = rs) ∧ err = none := by
          rw [hgf, hf] at hg
          simpa [eq_comm] using hg
        exact .inl fun row hrow => (hsettle row hrow).2 rfl
      · exact .inr ⟨g, r', rs', (hold_ne hgf).trans hg, rfl⟩

theorem Sent.enqueue (h : Sent q) (scanID connectorID agentID tenantID : String) (payload : Payload) :
    Sent { q with table := q.table.insert scanID connectorID agentID tenantID payload } := by
  refine ⟨h.once, fun id hid => Nat.lt_succ_of_lt (h.id_lt id hid), fun id hid => ?_⟩
  rcases h.gone id hid with hgone | hheld
  · refine .inl fun row hrow => ?_
    rcases List.mem_append.1 hrow with hrow | hrow
    · exact hgone row hrow
    · rw [List.mem_singleton.1 hrow]
      exact Nat.ne_of_gt (h.id_lt id hid)
  · exact .inr hheld

theorem Sent.step (h : Sent q) (hex : q.Exclusive a) (hstep : q.step a = some q') : Sent q' := by
  rcases step_cases hstep with ⟨scanID, connectorID, agentID, tenantID, payload, -, rfl⟩ | ⟨f, -, hf, rfl⟩ |
    ⟨f, n, -, hf, -, rfl⟩ | ⟨f, err, r, rs, rfl, hf, rfl⟩ | ⟨f, r, rs, err, -, hf, rfl⟩ | ⟨f, -, hf, rfl⟩
  · exact h.enqueue scanID connectorID agentID tenantID payload
  · exact h.hold (by simp [hf])
  · exact h.hold (by simp [hf])
  · exact h.send hex hf
  · exact h.settle hf
  · exact h.hold (by simp [hf])

/-- As long as what is sent is still exclusive, in every state of every run. -/
theorem counted_of_exclusive (h : Runs.Along step Exclusive (opened t) as) :
    Runs.Always step (Counted t) (opened t) as := by
  have hkeep : ∀ q a q', Inv t q ∧ Sent q → Exclusive q a → q.step a = some q' → Inv t q' ∧ Sent q' :=
    fun q a q' hi hex hstep => ⟨hi.1.step hstep, hi.2.step hex hstep⟩
  exact Runs.always_of_along hkeep (fun q hi => ⟨hi.2.once, hi.1.dropped⟩) ⟨inv_opened t, sent_opened t⟩ h

/-! ### Calls one after the other -/

/-- One call at a time has records left, and these are in the table. -/
structure Alone (q : SharedQueue) : Prop where
  alone : ∀ f g c d, q.flushes f = some c → q.flushes g = some d → c.records ≠ [] → d.records ≠ [] → f = g
  rows : ∀ f c, q.flushes f = some c → ∀ r ∈ c.records, ∃ row ∈ q.table.rows, row.id = r.id
  sorted : ∀ f c, q.flushes f = some c → c.records.Pairwise fun a b => a.id < b.id

theorem alone_opened (t : PendingDeltas) : Alone (opened t) where
  alone := by rintro f g c d ⟨⟩
  rows := by rintro f c ⟨⟩
  sorted := by rintro f c ⟨⟩

/-- A change of the only call with records left, if there is one. -/
theorem Alone.hold (h : Alone q) {c : Option FlushCall}
    (halone : ∀ d ∈ c, d.records ≠ [] → ∀ g e, g ≠ f → q.flushes g = some e → e.records = [])
    (hrows : ∀ d ∈ c, ∀ r ∈ d.records, ∃ row ∈ q.table.rows, row.id = r.id)
    (hsorted : ∀ d ∈ c, d.records.Pairwise fun a b => a.id < b.id) : Alone (q.hold f c) where
  alone g g' d d' hg hg' hd hd' := by
    by_cases hgf : g = f <;> by_cases hgf' : g' = f
    · rw [hgf, hgf']
    · rw [hgf, hold_self] at hg
      rw [hold_ne hgf'] at hg'
      exact absurd (halone d hg hd g' d' hgf' hg') hd'
    · rw [hgf', hold_self] at hg'
      rw [hold_ne hgf] at hg
      exact absurd (halone d' hg' hd' g d hgf hg) hd
    · rw [hold_ne hgf] at hg
      rw [hold_ne hgf'] at hg'
      exact h.alone g g' d d' hg hg' hd hd'
  rows := forall_hold h.rows hrows
  sorted := forall_hold h.sorted hsorted

/-- The other calls, while one has records left. -/
theorem Alone.others (h : Alone q) (hf : q.flushes f = some call) (hne : call.records ≠ []) :
    ∀ g e, g ≠ f → q.flushes g = some e → e.records = [] := by
  intro g e hgf hg
  by_contra he
  exact hgf (h.alone g f e call hg hf he hne)

theorem Alone.step (h : Alone q) (hserial : q.Serial a) (hstep : q.step a = some q') : Alone q' := by
  rcases step_cases hstep with ⟨scanID, connectorID, agentID, tenantID, payload, -, rfl⟩ | ⟨f, -, hf, rfl⟩ |
    ⟨f, n, rfl, hf, -, rfl⟩ | ⟨f, err, r, rs, -, hf, rfl⟩ | ⟨f, r, rs, err, -, hf, rfl⟩ | ⟨f, -, hf, rfl⟩
  · refine ⟨h.alone, fun f c hf r hr => ?_, h.sorted⟩
    obtain ⟨row, hrow, hid⟩ := h.rows f c hf r hr
    exact ⟨row, List.mem_append_left _ hrow, hid⟩
  · refine h.hold ?_ ?_ ?_ <;> rintro _ ⟨⟩
    · exact fun hne => absurd rfl hne
    · exact fun r hr => absurd hr List.not_mem_nil
    · exact .nil
  · refine h.hold (fun _ _ _ => hserial) (fun d hd r hr => ?_) (fun d hd => ?_)
    · obtain ⟨rfl, -⟩ := mem_afterRead hd
      exact ⟨r, List.mem_of_mem_take hr, rfl⟩
    · obtain ⟨rfl, -⟩ := mem_afterRead hd
      exact q.table.sorted.sublist (List.take_sublist _ _)
  · have hothers := h.others hf (List.cons_ne_nil r rs)
    have hrows := h.rows f _ hf
    have hsorted := h.sorted f _ hf
    have hheld : Alone (q.hold f (some ⟨r :: rs, some err⟩)) := by
      refine h.hold ?_ ?_ ?_ <;> rintro _ ⟨⟩
      · exact fun _ => hothers
      · exact hrows
      · exact hsorted
    exact ⟨hheld.alone, hheld.rows, hheld.sorted⟩
  · have hothers := h.others hf (List.cons_ne_nil r rs)
    obtain ⟨hlt, hsorted⟩ := List.pairwise_cons.1 (h.sorted f _ hf)
    have hheld : Alone (q.hold f (some ⟨rs, none⟩)) := by
      refine h.hold ?_ ?_ ?_ <;> rintro _ ⟨⟩
      · exact fun _ => hothers
      · exact fun b hb => h.rows f _ hf b (List.mem_cons_of_mem r hb)
      · exact hsorted
    refine ⟨hheld.alone, fun g c hg b hb => ?_, hheld.sorted⟩
    -- the records that are left have other ids than the settled one
    have hne : b.id ≠ r.id := by
      by_cases hgf : g = f
      · rw [hgf] at hg
        obtain rfl : (⟨rs, none⟩ : FlushCall) = c := Option.some.inj ((hold_self q f _).symm.trans hg)
        exact Nat.ne_of_gt (hlt b hb)
      · have hg' : q.flushes g = some c := (hold_ne hgf).symm.trans hg
        rw [hothers g c hgf hg'] at hb
        exact absurd hb List.not_mem_nil
    obtain ⟨row, hrow, hid⟩ := hheld.rows g c hg b hb
    exact ⟨row, PendingDeltas.mem_settle_rows.2 (.inl ⟨hrow, hid ▸ hne⟩), hid⟩
  · refine h.hold ?_ ?_ ?_ <;> rintro _ ⟨⟩

theorem Alone.exclusive (h : Alone q) (a : Action) : q.Exclusive a := by
  unfold Exclusive
  split
  · intro r rs hf
    refine ⟨h.rows _ _ hf r List.mem_cons_self, fun g r' rs' hg _ => ?_⟩
    obtain rfl := h.alone _ _ _ _ hg hf (List.cons_ne_nil _ _) (List.cons_ne_nil _ _)
    rw [hf] at hg
    cases hg
  · trivial

/-- `Flush` calls whose batches do not overlap send nothing twice. -/
theorem exclusive_of_serial (h : Runs.Along step Serial (opened t) as) : Runs.Along step Exclusive (opened t) as :=
  h.imp (fun _ a _ hi hserial hstep => ⟨hi.step hserial hstep, hi.exclusive a⟩) (alone_opened t)

/-- Two calls take turns: the first fails to send the entry, the second sends it. -/
def takeTurns : List Action :=
  [.flush 0, .flush 1, .read 0 100, .send 0 (some "timeout"), .settle 0, .read 1 100, .send 1 none, .settle 1]

theorem takeTurns_counted : Runs.Always step (Counted oneDelta) (opened oneDelta) takeTurns := by
  refine counted_of_exclusive (exclusive_of_serial ?_)
  -- each read meets the other call without records
  have hread : ∀ {q : SharedQueue} {f g n : ℕ}, q.flushes g = some ⟨[], none⟩ →
      (∀ k, k ≠ f → k ≠ g → q.flushes k = none) → q.Serial (.read f n) := by
    intro q f g n hg hidle k call hkf hk
    by_cases hkg : k = g
    · rw [hkg, hg] at hk
      rw [← Option.some.inj hk]
    · rw [hidle k hkf hkg] at hk
      cases hk
  iterate 2 refine (Runs.along_cons_of_step rfl).2 ⟨trivial, ?_⟩
  refine (Runs.along_cons_of_step rfl).2 ⟨hread (g := 1) rfl (fun k h h' => ?_), ?_⟩
  · simp [hold, h, h', opened]
  iterate 2 refine (Runs.along_cons_of_step rfl).2 ⟨trivial, ?_⟩
  refine (Runs.along_cons_of_step rfl).2 ⟨hread (g := 0) rfl (fun k h h' => ?_), ?_⟩
  · simp [hold, h, h', opened]
  iterate 2 refine (Runs.along_cons_of_step rfl).2 ⟨trivial, ?_⟩
  trivial

/-- Two calls read the same row, and both send it. -/
def sameRow : List Action := [.flush 0, .flush 1, .read 0 100, .read 1 100, .send 0 none, .send 1 none]

theorem sameRow_not_counted : ¬ ∀ t as, Runs.Always step (Counted t) (opened t) as := by
  intro h
  have hcalls : (Runs.run step (opened oneDelta) sameRow).map (·.calls) = some [(1, none), (1, none)] := by decide
  obtain ⟨q, hq, hcalls⟩ := Option.map_eq_some_iff.1 hcalls
  have honce := (h oneDelta sameRow sameRow q List.prefix_rfl hq).once 1
  rw [hcalls] at honce
  exact absurd honce (by decide)

/-! ### Entries that can still be sent -/

/-- The entry is in the table, or in a call that is going to send it. -/
def Queued (q : SharedQueue) (id : ℕ) : Prop :=
  (∃ row ∈ q.table.rows, row.id = id) ∨ ∃ f call, q.flushes f = some call ∧ ∃ r ∈ call.unsent, r.id = id

theorem Queued.of_hold {c : Option FlushCall} (h : (q.hold f c).Queued id)
    (hc : ∀ call ∈ c, ∀ r ∈ call.unsent, q.Queued r.id) : q.Queued id := by
  rcases h with hrow | ⟨g, call, hg, r, hr, rfl⟩
  · exact .inl hrow
  · exact forall_hold (P := fun call => ∀ r ∈ call.unsent, q.Queued r.id)
      (fun g call hg r hr => .inr ⟨g, call, hg, r, hr, rfl⟩) hc g call hg r hr

theorem Queued.of_enqueue {scanID connectorID agentID tenantID : String} {payload : Payload}
    (h : Queued { q with table := q.table.insert scanID connectorID agentID tenantID payload } id) :
    q.Queued id ∨ id = q.table.nextId := by
  rcases h with ⟨row, hrow, rfl⟩ | hheld
  · rcases List.mem_append.1 hrow with hrow | hrow
    · exact .inl (.inl ⟨row, hrow, rfl⟩)
    · rw [List.mem_singleton.1 hrow]
      exact .inr rfl
  · exact .inl (.inr hheld)

/-- Only `Enqueue` adds to what can be sent. -/
theorem Queued.of_step (hstep : q.step a = some q') (h : q'.Queued id) :
    (q.Queued id ∧ q'.table.nextId = q.table.nextId) ∨
      ∃ scanID connectorID agentID tenantID payload, a = .enqueue scanID connectorID agentID tenantID payload := by
  rcases step_cases hstep with ⟨scanID, connectorID, agentID, tenantID, payload, rfl, -⟩ | ⟨f, -, -, rfl⟩ |
    ⟨f, n, -, -, -, rfl⟩ | ⟨f, err, r, rs, -, hf, rfl⟩ | ⟨f, r, rs, err, -, hf, rfl⟩ | ⟨f, -, -, rfl⟩
  · exact .inr ⟨scanID, connectorID, agentID, tenantID, payload, rfl⟩
  · refine .inl ⟨h.of_hold ?_, rfl⟩
    rintro _ ⟨⟩ r hr
    exact absurd hr List.not_mem_nil
  · refine .inl ⟨h.of_hold fun call hcall r hr => ?_, rfl⟩
    obtain ⟨rfl, -⟩ := mem_afterRead hcall
    exact .inl ⟨r, List.mem_of_mem_take hr, rfl⟩
  · have hheld : (q.hold f (some ⟨r :: rs, some err⟩)).Queued id := h
    refine .inl ⟨hheld.of_hold ?_, rfl⟩
    rintro _ ⟨⟩ b hb
    exact .inr ⟨f, _, hf, b, List.mem_cons_of_mem r hb, rfl⟩
  · refine .inl ⟨?_, PendingDeltas.settle_nextId q.table r err⟩
    have hheld : (q.hold f (some ⟨rs, none⟩)).Queued id := by
      rcases h with ⟨row, hrow, rfl⟩ | hheld
      · rcases PendingDeltas.mem_settle_rows.1 hrow with ⟨hrow, -⟩ | ⟨-, -, -, old, hold, -, rfl⟩
        · exact .inl ⟨row, hrow, rfl⟩
        · exact .inl ⟨old, hold, rfl⟩
      · exact .inr hheld
    refine hheld.of_hold ?_
    rintro _ ⟨⟩ b hb
    exact .inr ⟨f, _, hf, b, hb, rfl⟩
  · refine .inl ⟨h.of_hold ?_, rfl⟩
    rintro _ ⟨⟩

/-! ### One call -/

section
variable {σ : Type} {send : Send σ} {st st' : FlushState σ}

/-- The records of a batch, sent one after the other. -/
theorem exists_run_batch (send : Send σ) (hf : q.flushes f = some ⟨rs, none⟩) (htable : q.table = st.table)
    (hcalls : q.calls = st.calls) : ∃ as q', Runs.run step q as = some q' ∧ q'.flushes f = some ⟨[], none⟩ ∧
      q'.table = (rs.foldl (deliver send) st).table ∧ q'.calls = (rs.foldl (deliver send) st).calls := by
  induction rs generalizing q st with
  | nil => exact ⟨[], q, rfl, hf, htable, hcalls⟩
  | cons r rs ih =>
    let err := (send st.world r.payload).1
    let q₁ : SharedQueue := { q.hold f (some ⟨r :: rs, some err⟩) with calls := q.calls ++ [(r.id, err)] }
    let q₂ : SharedQueue := { q₁.hold f (some ⟨rs, none⟩) with table := q.table.settle r err }
    have hsend : q.step (.send f err) = some q₁ := by
      simp only [step, hf]
      rfl
    have hf₁ : q₁.flushes f = some ⟨r :: rs, some err⟩ := hold_self q f _
    have hsettle : q₁.step (.settle f) = some q₂ := by
      simp only [step, hf₁]
      rfl
    have htable₂ : q₂.table = (deliver send st r).table := congrArg (·.settle r err) htable
    have hcalls₂ : q₂.calls = (deliver send st r).calls := congrArg (· ++ [(r.id, err)]) hcalls
    have hf₂ : q₂.flushes f = some ⟨rs, none⟩ := hold_self q₁ f _
    obtain ⟨as, q', hrun, hq'⟩ := ih hf₂ htable₂ hcalls₂
    exact ⟨.send f err :: .settle f :: as, q',
      Runs.run_cons.2 ⟨q₁, hsend, Runs.run_cons.2 ⟨q₂, hsettle, hrun⟩⟩, hq'⟩

/-- The loop of a `Flush` that runs alone. -/
theorem exists_run_flushLoop {fuel : ℕ} {ctx : Option ℕ} {e : Option String}
    (h : flushLoop send fuel ctx st = some (e, st')) (hf : q.flushes f = some ⟨[], none⟩)
    (htable : q.table = st.table) (hcalls : q.calls = st.calls) :
    ∃ as q', Runs.run step q as = some q' ∧ q'.flushes f = none ∧ q'.table = st'.table ∧ q'.calls = st'.calls := by
  induction fuel generalizing q ctx st with
  | zero => cases h
  | succ fuel ih =>
    have hread : q.step (.read f flushBatchSize) = some (q.hold f (afterRead st.records)) := by
      simp [step, hf, htable, FlushState.records]
    rw [flushLoop] at h
    split_ifs at h with hctx hnil
    · obtain ⟨-, rfl⟩ := Prod.mk.inj (Option.some.inj h)
      refine ⟨[.leave f], q.hold f none, ?_, hold_self .., htable, hcalls⟩
      simp [Runs.run, step, hf]
    · obtain ⟨-, rfl⟩ := Prod.mk.inj (Option.some.inj h)
      rw [hnil] at hread
      exact ⟨[.read f flushBatchSize], _, Runs.run_cons.2 ⟨_, hread, rfl⟩, hold_self .., htable, hcalls⟩
    · obtain ⟨r, rs, hrs⟩ := List.exists_cons_of_ne_nil hnil
      have hafter : afterRead st.records = some ⟨st.records, none⟩ := by rw [hrs, afterRead]
      rw [hafter] at hread
      obtain ⟨as, q₁, hrun, hf₁, htable₁, hcalls₁⟩ := exists_run_batch send (hold_self q f _) htable hcalls
      obtain ⟨bs, q', hrun', hq'⟩ := ih h hf₁ htable₁ hcalls₁
      refine ⟨.read f flushBatchSize :: (as ++ bs), q', Runs.run_cons.2 ⟨_, hread, ?_⟩, hq'⟩
      rw [Runs.run_append, hrun]
      exact hrun'

/-- A `Flush` alone on the queue is a run. -/
theorem exists_run_flush {ctx : Option ℕ} {w : σ} {e : Option String} (h : Agent.flush send ctx t w = some (e, st)) :
    ∃ as q, Runs.run step (opened t) (.flush f :: as) = some q ∧ q.flushes f = none ∧ q.table = st.table ∧
      q.calls = st.calls := by
  obtain ⟨as, q, hrun, hq⟩ := exists_run_flushLoop (q := (opened t).hold f (some ⟨[], none⟩)) h (hold_self ..) rfl rfl
  exact ⟨as, q, Runs.run_cons.2 ⟨_, rfl, hrun⟩, hq⟩

end

end SharedQueue
end Dgraphai.Agent
