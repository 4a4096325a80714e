import Dgraphai.Lib.Runs
import Mathlib.Algebra.Order.Ring.Rat

/-!
# The circuit breaker for graph queries (`graph/circuit_breaker.py`)

`Breaker` is what a `GraphCircuitBreaker` holds, with one definition for each method that runs under its
lock. A `System` is the breaker with the calls it has admitted: the locked admission of a call, the end of
its query and its locked outcome step are steps of their own. HALF_OPEN is no reason to turn a call away,
so one call is in flight there only as long as nobody else comes (`probeLimited_iff`).
-/

namespace Dgraphai.CircuitBreaker

inductive State where
  | closed | opened | halfOpen
  deriving DecidableEq, Repr

structure Config where
  failureThreshold : Int
  windowSecs : Int
  resetTimeoutSecs : Int
  deriving DecidableEq, Repr

def Config.default : Config := ⟨5, 60, 30⟩

/-- `GraphCircuitBreaker`; times are values of `time.time()`. -/
structure Breaker where
  state : State
  failures : List ℚ
  openedAt : Option ℚ
  deriving DecidableEq, Repr

def Breaker.new : Breaker := ⟨.closed, [], none⟩

variable (cfg : Config)

namespace Breaker
variable (b : Breaker) (now : ℚ)

/-- `_maybe_transition`. An `_opened_at` of zero is false. -/
def maybeTransition : Breaker :=
  match b.state, b.openedAt with
  | .opened, some t => if t ≠ 0 ∧ cfg.resetTimeoutSecs ≤ now - t then { b with state := .halfOpen } else b
  | _, _ => b

/-- `_on_success`. -/
def onSuccess : Breaker :=
  if b.state = .halfOpen then { b with state := .closed, failures := [] } else b

/-- `_failures` after a failure. -/
def recentFailures : List ℚ := b.failures.filter (fun t => now - t < cfg.windowSecs) ++ [now]

/-- `_on_failure`. -/
def onFailure : Breaker :=
  let b := { b with failures := b.recentFailures cfg now }
  if b.state = .halfOpen ∨ cfg.failureThreshold ≤ b.failures.length then
    { b with state := .opened, openedAt := some now }
  else b

end Breaker

/-! ### Calls -/

/-- Where an admitted call is: its query runs, or has ended and the outcome step is due. -/
inductive Phase where
  | querying
  | ended (ok : Bool)
  deriving DecidableEq, Repr

/-- An admitted call, with the number of state changes before its query began. -/
structure Call where
  id : Nat
  phase : Phase
  epoch : Nat
  deriving DecidableEq, Repr

/-- The breaker and the calls in flight. `epoch` counts the changes of the state, the last at `changedAt`;
the code reads neither. -/
structure System where
  breaker : Breaker
  inFlight : List Call
  epoch : Nat
  changedAt : ℚ
  deriving DecidableEq, Repr

def System.new : System := ⟨.new, [], 0, 0⟩

inductive Action where
  /-- The locked admission of `call`. -/
  | call (id : Nat) (now : ℚ)
  /-- The query returns, or it raises or times out. -/
  | finish (id : Nat) (ok : Bool)
  /-- `_on_success` or `_on_failure`. -/
  | settle (id : Nat) (now : ℚ)
  /-- The call is cancelled, or its query raises `CircuitBreakerOpen`: there is no outcome step. -/
  | leave (id : Nat)
  deriving DecidableEq, Repr

namespace System

/-- The breaker after a locked step. -/
def update (s : System) (b : Breaker) (now : ℚ) : System :=
  if b.state = s.breaker.state then { s with breaker := b }
  else { s with breaker := b, epoch := s.epoch + 1, changedAt := now }

def find (s : System) (id : Nat) : Option Call := s.inFlight.find? (·.id = id)

def remove (s : System) (id : Nat) : System := { s with inFlight := s.inFlight.filter (·.id ≠ id) }

def step (s : System) : Action → Option System
  | .call id now =>
    match s.find id with
    | some _ => none
    | none =>
      let s := s.update (s.breaker.maybeTransition cfg now) now
      -- `raise CircuitBreakerOpen`
      if s.breaker.state = .opened then some s
      else some { s with inFlight := s.inFlight ++ [⟨id, .querying, s.epoch⟩] }
  | .finish id ok =>
    match s.find id with
    | some ⟨_, .querying, _⟩ =>
      some { s with inFlight := s.inFlight.map fun c => if c.id = id then { c with phase := .ended ok } else c }
    | _ => none
  | .settle id now =>
    match s.find id with
    | some ⟨_, .ended ok, _⟩ =>
      some ((s.update (if ok then s.breaker.onSuccess else s.breaker.onFailure cfg now) now).remove id)
    | _ => none
  | .leave id => (s.find id).map fun _ => s.remove id

end System

variable {cfg} {s s' : System} {a : Action} {b : Breaker} {now : ℚ} {id : Nat}

/-! ### Steps -/

theorem Breaker.maybeTransition_cases (b : Breaker) (now : ℚ) :
    b.maybeTransition cfg now = b ∨
      b.state = .opened ∧ b.maybeTransition cfg now = { b with state := .halfOpen } := by
  unfold Breaker.maybeTransition
  split
  next hstate _ =>
    split_ifs
    · exact .inr ⟨hstate, rfl⟩
    · exact .inl rfl
  · exact .inl rfl

/-- No outcome makes a breaker half open. -/
theorem Breaker.halfOpen_of_outcome {ok : Bool}
    (h : (if ok then b.onSuccess else b.onFailure cfg now).state = .halfOpen) : b.state = .halfOpen := by
  cases ok with
  | true =>
    rw [if_pos rfl, Breaker.onSuccess] at h
    split_ifs at h
    exact h
  | false =>
    rw [if_neg Bool.false_ne_true, Breaker.onFailure] at h
    dsimp only at h
    split_ifs at h
    exact h

@[simp] theorem System.breaker_update (s : System) (b : Breaker) (now : ℚ) : (s.update b now).breaker = b := by
  unfold System.update
  split_ifs <;> rfl

@[simp] theorem System.inFlight_update (s : System) (b : Breaker) (now : ℚ) :
    (s.update b now).inFlight = s.inFlight := by
  unfold System.update
  split_ifs <;> rfl

/-- What a step can do. -/
theorem System.step_cases (h : s.step cfg a = some s') :
    (∃ id now, a = .call id now ∧ s.find id = none ∧
      ∃ t, t = s.update (s.breaker.maybeTransition cfg now) now ∧
        (t.breaker.state = .opened ∧ s' = t ∨
          t.breaker.state ≠ .opened ∧ s' = { t with inFlight := s.inFlight ++ [⟨id, .querying, t.epoch⟩] })) ∨
    (∃ id ok, a = .finish id ok ∧ s' = { s with
      inFlight := s.inFlight.map fun c => if c.id = id then { c with phase := .ended ok } else c }) ∨
    (∃ id now ok epoch, a = .settle id now ∧ s.find id = some ⟨id, .ended ok, epoch⟩ ∧
      s' = (s.update (if ok then s.breaker.onSuccess else s.breaker.onFailure cfg now) now).remove id) ∨
    ∃ id, a = .leave id ∧ s' = s.remove id := by
  cases a with
  | call id now =>
    rw [System.step] at h
    split at h
    · cases h
    next hfind =>
      refine .inl ⟨id, now, rfl, hfind, _, rfl, ?_⟩
      dsimp only at h
      split_ifs at h with hopen
      · exact .inl ⟨hopen, (Option.some.inj h).symm⟩
      · rw [System.inFlight_update] at h
        exact .inr ⟨hopen, (Option.some.inj h).symm⟩
  | finish id ok =>
    rw [System.step] at h
    split at h
    · exact .inr (.inl ⟨id, ok, rfl, (Option.some.inj h).symm⟩)
    · cases h
  | settle id now =>
    rw [System.step] at h
    split at h
    next i ok epoch hfind =>
      obtain rfl : i = id := by simpa using List.find?_some hfind
      exact .inr (.inr (.inl ⟨i, now, ok, epoch, rfl, hfind, (Option.some.inj h).symm⟩))
    · cases h
  | leave id =>
    obtain ⟨_, -, rfl⟩ := Option.map_eq_some_iff.1 h
    exact .inr (.inr (.inr ⟨id, rfl, rfl⟩))

/-! ### Half open -/

/-- "One request allowed through." -/
def System.ProbeLimited (s : System) : Prop := s.breaker.state = .halfOpen → s.inFlight.length ≤ 1

/-- A call that finds the breaker half open, or makes it so, finds no other in flight. -/
def System.ProbeFree (cfg : Config) (s : System) : Action → Prop
  | .call _ now => (s.breaker.maybeTransition cfg now).state = .halfOpen → s.inFlight = []
  | _ => True

instance (s : System) : Decidable s.ProbeLimited := inferInstanceAs (Decidable (_ → _))

instance (s : System) : (a : Action) → Decidable (s.ProbeFree cfg a)
  | .call _ _ => inferInstanceAs (Decidable (_ → _))
  | .finish .. | .settle .. | .leave _ => inferInstanceAs (Decidable True)

theorem System.length_remove_le (s : System) (id : Nat) : (s.remove id).inFlight.length ≤ s.inFlight.length :=
  List.length_filter_le _ _

theorem System.probeLimited_step (hs : s.ProbeLimited) (h : s.step cfg a = some s') :
    s'.ProbeLimited ↔ s.ProbeFree cfg a := by
  rcases System.step_cases h with ⟨id, now, rfl, -, t, rfl, hcall⟩ | ⟨id, ok, rfl, rfl⟩ |
    ⟨id, now, ok, epoch, rfl, -, rfl⟩ | ⟨id, rfl, rfl⟩
  · rw [System.breaker_update] at hcall
    rcases hcall with ⟨hopen, rfl⟩ | ⟨-, rfl⟩
    · simp [System.ProbeLimited, System.ProbeFree, hopen]
    · simp [System.ProbeLimited, System.ProbeFree]
  · simpa [System.ProbeLimited, System.ProbeFree] using hs
  · refine iff_of_true (fun hhalf => ?_) trivial
    have hstate : (if ok then s.breaker.onSuccess else s.breaker.onFailure cfg now).state = .halfOpen := by
      simpa [System.remove] using hhalf
    have hlength := System.length_remove_le
      (s.update (if ok then s.breaker.onSuccess else s.breaker.onFailure cfg now) now) id
    rw [System.inFlight_update] at hlength
    exact hlength.trans (hs (Breaker.halfOpen_of_outcome hstate))
  · exact iff_of_true (fun hhalf => (s.length_remove_le id).trans (hs hhalf)) trivial

/-- At most one call is in flight in HALF_OPEN throughout a run exactly if every call that comes to a half
open breaker comes when none is in flight. -/
theorem System.probeLimited_iff (cfg : Config) (as : List Action) :
    Runs.Always (step cfg) ProbeLimited new as ↔ Runs.Along (step cfg) (ProbeFree cfg) new as :=
  @Runs.always_iff_along _ _ (step cfg) (ProbeFree cfg) (fun _ => True) ProbeLimited (fun _ _ _ _ _ => trivial)
    (fun _ _ _ _ hs h => probeLimited_step hs h) new as trivial fun h => by cases h

/-- A call whose query fails at once. -/
def failedCall (id : Nat) (now : ℚ) : List Action := [.call id now, .finish id false, .settle id now]

/-- Five failures open the breaker; half a minute later two calls come one after the other. -/
def twoProbes : List Action := (List.range 5).flatMap (failedCall · 1) ++ [.call 5 31, .call 6 31]

theorem System.twoProbes_not_limited : ¬ ∀ as, Runs.Always (step Config.default) ProbeLimited new as := by
  intro h
  have hrun : (Runs.run (step Config.default) new twoProbes).any (fun s => ¬ s.ProbeLimited) = true := by
    decide +kernel
  obtain ⟨s, hs, hno⟩ := (Option.any_eq_true _ _).1 hrun
  exact of_decide_eq_true hno (h twoProbes twoProbes s List.prefix_rfl hs)

end Dgraphai.CircuitBreaker
