import Dgraphai.ProxyReplay

/-!
# One caller at a time (`UpsertNode`, `DeleteNode`, `UpsertEdge`)

Where the writers run one after the other, the store after a call is a function of the store before
(`Store.perform`, which is what the steps of the call come to: `run_actions`). Then every commit has the
highest `seq` so far, nothing is overtaken, and the delta log never leaves the tables
(`sequential_agrees`).
-/

namespace Dgraphai.Proxy

/-- Where a writer returns an error. -/
inductive Fault where
  /-- `json.Marshal` of the record, before `db.Update`. -/
  | marshal
  /-- `txn.Set` or `txn.Delete` of the record. -/
  | write
  /-- `s.seq.Next()`. -/
  | sequence
  /-- What comes after the number is drawn: marshalling and setting the delta, and the commit. -/
  | commit
  deriving DecidableEq, Repr

/-- A whole call of a writer or of `AckDeltas`, or a restart that loses numbers of the lease. -/
inductive Op where
  | call (c : Call) (now : Time) (fault : Option Fault)
  | ackDeltas (seqs : List Nat)
  | reopen (lost : Nat)
  deriving Repr

/-- The steps of a call by goroutine `0`. -/
def Op.actions : Op → List Action
  | .call _ _ (some .marshal) => []
  | .call c now (some .write) => [.call 0 c now, .fail 0]
  | .call c now (some .sequence) => [.call 0 c now, .fail 0]
  | .call c now (some .commit) => [.call 0 c now, .next 0, .fail 0]
  | .call c now none => [.call 0 c now, .next 0, .commit 0]
  | .ackDeltas seqs => [.ackDeltas seqs]
  | .reopen lost => [.reopen lost]

namespace Store

/-- A call with nobody else in the store: the store after it and the error it returns. -/
def perform (s : Store) : Op → Store × Option Fault
  | .call c now none =>
    ({ s with
      kv := s.write ⟨c, now, some s.nextSeq⟩ s.nextSeq
      nextSeq := s.nextSeq + 1
      history := s.history ++ [Txn.delta ⟨c, now, some s.nextSeq⟩ s.tenantID s.nextSeq] }, none)
  | .call _ _ (some .commit) => ({ s with nextSeq := s.nextSeq + 1 }, some .commit)
  | .call _ _ (some fault) => (s, some fault)
  | .ackDeltas seqs => (seqs.foldl ackOne s, none)
  | .reopen lost => ({ s with nextSeq := s.nextSeq + lost }, none)

/-- The store after the calls `ops`, one after the other. -/
def performed (tenantID : String) (ops : List Op) : Store :=
  ops.foldl (fun s op => (s.perform op).1) (Store.open tenantID)

variable {s s' : Store}

/-- The steps of a call do what the call does. -/
theorem run_actions (hidle : s.txns = fun _ => none) (op : Op) :
    Runs.run Store.step s op.actions = some (s.perform op).1 := by
  have hnone : Function.update s.txns 0 none = s.txns := by
    rw [hidle]
    exact Function.update_eq_self 0 _
  cases op with
  | call c now fault =>
    have h0 : s.txns 0 = none := by rw [hidle]
    cases fault with
    | none => simp [Op.actions, Runs.run, step, perform, h0, hnone, write]
    | some fault => cases fault <;> simp [Op.actions, Runs.run, step, perform, h0, hnone]
  | ackDeltas seqs => rfl
  | reopen lost => simp [Op.actions, Runs.run, step, perform, hidle]

theorem perform_txns (hidle : s.txns = fun _ => none) (op : Op) : (s.perform op).1.txns = fun _ => none := by
  cases op with
  | call c now fault =>
    cases fault with
    | none => exact hidle
    | some fault => cases fault <;> exact hidle
  | ackDeltas seqs => exact (ackDeltas_txns s seqs).trans hidle
  | reopen lost => exact hidle

/-- A call that returns an error has written nothing. -/
theorem perform_of_error {op : Op} (h : (s.perform op).2 ≠ none) :
    (s.perform op).1.kv = s.kv ∧ (s.perform op).1.tenantID = s.tenantID := by
  cases op with
  | call c now fault =>
    cases fault with
    | none => exact absurd rfl h
    | some fault => cases fault <;> exact ⟨rfl, rfl⟩
  | ackDeltas seqs => exact absurd rfl h
  | reopen lost => exact absurd rfl h

/-- Between the calls the store meets `Inv`, has no open transaction and agrees with its log. -/
structure Quiet (s : Store) : Prop where
  inv : s.Inv
  idle : s.txns = fun _ => none
  agrees : s.Agrees

theorem quiet_open (tenantID : String) : (Store.open tenantID).Quiet where
  inv := inv_open tenantID
  idle := rfl
  agrees := by
    rw [Agrees, (inv_open tenantID).deltas_eq]
    funext k
    simp [Store.open, graph, Replay.byStamp, Replay.replay]

/-- A number above every number of the history is not overtaken. -/
theorem not_overtaken {d : DeltaRecord} (h : ∀ m ∈ s.history, m.seq ≤ d.seq) : ¬ s.Overtaken d := by
  rintro ⟨m, hm, -, -, hlt, -⟩
  exact absurd (h m hm) (Nat.not_le.2 hlt)

/-- Every step of a call that runs alone keeps the log in step with the store. -/
theorem Quiet.along (h : s.Quiet) (op : Op) : Runs.Along Store.step InOrder s op.actions := by
  have h0 : s.txns 0 = none := by rw [h.idle]
  cases op with
  | call c now fault =>
    cases fault with
    | none =>
      simp only [Op.actions, Runs.Along, step, h0]
      rintro _ ⟨⟩
      refine ⟨trivial, ?_⟩
      simp only [Function.update_self]
      rintro _ ⟨⟩
      refine ⟨trivial, ?_⟩
      simp only [Function.update_self]
      rintro _ ⟨⟩
      refine ⟨?_, trivial⟩
      intro t n ht hn
      obtain rfl : _ = t := Option.some.inj (by simpa using ht)
      obtain rfl : s.nextSeq = n := Option.some.inj hn
      -- the commit publishes the number just drawn, which is above every number of the history
      exact not_overtaken fun m hm => Nat.le_of_lt (h.inv.seq_lt m hm)
    | some fault => cases fault <;> simp [Op.actions, Runs.Along, step, InOrder, h0]
  | ackDeltas seqs => exact fun _ _ => ⟨trivial, trivial⟩
  | reopen lost => exact fun _ _ => ⟨trivial, trivial⟩

theorem Quiet.perform (h : s.Quiet) (op : Op) : (s.perform op).1.Quiet where
  inv := Runs.inv_run (fun _ _ _ hi hs => inv_step hi hs) (run_actions h.idle op) h.inv
  idle := perform_txns h.idle op
  agrees := by
    have halways : Runs.Always Store.step Agrees s op.actions :=
      (Runs.always_iff_along (fun _ _ _ hi hs => inv_step hi hs)
        (fun _ _ _ hi ha hs => agrees_step_iff hi ha hs) h.inv h.agrees).2 (h.along op)
    exact halways _ _ (List.prefix_refl _) (run_actions h.idle op)

theorem quiet_performed (tenantID : String) (ops : List Op) : (performed tenantID ops).Quiet :=
  Runs.inv_foldl _ Quiet (fun _ op h => h.perform op) (quiet_open tenantID) ops

end Store

end Dgraphai.Proxy
