import Dgraphai.BreakerEpochs

/-!
# What the breaker opens, turns away and lets recover

A `Watch` is a system under a clock that does not go back, with the failures recorded since the last
recovery (the code keeps only those still in its window). `safe_iff` says that every step is `Safe` in
exactly those runs where no call comes `RESET_TIMEOUT_SECS` after a failure at time zero: such an
`_opened_at` is false, so the breaker never tests recovery.
-/

namespace Dgraphai.CircuitBreaker

variable (cfg : Config)

/-- The clock a step reads. -/
def Action.now? : Action → Option ℚ
  | .call _ now | .settle _ now => some now
  | .finish .. | .leave _ => none

namespace System
variable (s : System)

/-- The failure an action records. -/
def failed? : Action → Option ℚ
  | .settle id now => (s.find id).bind fun c => if c.phase = .ended false then some now else none
  | _ => none

/-- The time at which an action is turned away with `CircuitBreakerOpen`. -/
def rejected? : Action → Option ℚ
  | .call _ now => if (s.breaker.maybeTransition cfg now).state = .opened then some now else none
  | _ => none

end System

structure Watch where
  system : System
  clock : ℚ
  /-- The failures recorded since the last recovery. -/
  recorded : List ℚ
  deriving DecidableEq, Repr

namespace Watch

def new (start : ℚ) : Watch := ⟨.new, start, []⟩

variable (w : Watch)

def state : State := w.system.breaker.state

/-- A step of the system, at a time no earlier than the last. -/
def step (a : Action) : Option Watch :=
  if ∀ now ∈ a.now?, w.clock ≤ now then
    (w.system.step cfg a).map fun s' =>
      { system := s'
        clock := a.now?.getD w.clock
        recorded := if w.state = .halfOpen ∧ s'.breaker.state = .closed then []
          else w.recorded ++ (w.system.failed? a).toList }
  else none

/-- The failure at `now` is the `FAILURE_THRESHOLD`-th recorded one in the last `WINDOW_SECS`, or a later. -/
def Reaches (now : ℚ) : Prop :=
  cfg.failureThreshold ≤ (w.recorded.countP fun t => t ≤ now ∧ now - t < cfg.windowSecs) + 1

/-- What a step to `w'` may do. -/
structure SafeTo (w w' : Watch) (a : Action) : Prop where
  opens : w.state = .closed → w'.state = .opened → ∃ now ∈ w.system.failed? a, w.Reaches cfg now
  openedAt : w'.state = .opened → w'.system.breaker.openedAt ≠ none
  rejects : ∀ now ∈ w.system.rejected? cfg a, w.state = .opened ∧
    ∃ t ∈ w.system.breaker.openedAt, now - t < cfg.resetTimeoutSecs
  halfOpens : w'.state = .halfOpen → w.state = .halfOpen ∨ w.state = .opened
  closes : w'.state = .closed → w.state = .closed ∨ w.state = .halfOpen

def Safe (a : Action) : Prop := ∀ w' ∈ w.step cfg a, w.SafeTo cfg w' a

theorem safeTo_iff (w' : Watch) (a : Action) : w.SafeTo cfg w' a ↔
    (w.state = .closed → w'.state = .opened → ∃ now ∈ w.system.failed? a, w.Reaches cfg now) ∧
    (w'.state = .opened → w'.system.breaker.openedAt ≠ none) ∧
    (∀ now ∈ w.system.rejected? cfg a, w.state = .opened ∧
      ∃ t ∈ w.system.breaker.openedAt, now - t < cfg.resetTimeoutSecs) ∧
    (w'.state = .halfOpen → w.state = .halfOpen ∨ w.state = .opened) ∧
    (w'.state = .closed → w.state = .closed ∨ w.state = .halfOpen) :=
  ⟨fun h => ⟨h.opens, h.openedAt, h.rejects, h.halfOpens, h.closes⟩,
    fun h => ⟨h.1, h.2.1, h.2.2.1, h.2.2.2.1, h.2.2.2.2⟩⟩

instance (now : ℚ) : Decidable (w.Reaches cfg now) := inferInstanceAs (Decidable (_ ≤ _))

instance (w' : Watch) (a : Action) : Decidable (w.SafeTo cfg w' a) :=
  decidable_of_iff _ (w.safeTo_iff cfg w' a).symm

instance (a : Action) : Decidable (w.Safe cfg a) := inferInstanceAs (Decidable (∀ _ ∈ _, _))

/-- No call comes to an open breaker `RESET_TIMEOUT_SECS` after it opened at time zero. -/
def OffZero : Action → Prop
  | .call _ now => w.state = .opened → w.system.breaker.openedAt = some 0 → now < cfg.resetTimeoutSecs
  | _ => True

/-- What is in the window was recorded, and an open breaker has an `_opened_at`. -/
structure Inv : Prop where
  failures : w.system.breaker.failures.Sublist w.recorded
  past : ∀ t ∈ w.recorded, t ≤ w.clock
  opened : w.state = .opened → w.system.breaker.openedAt ≠ none

end Watch

variable {cfg} {s s' : System} {w w' : Watch} {a : Action} {b : Breaker} {now : ℚ}

/-! ### The breaker -/

/-- An open breaker that is not yet tested. -/
theorem Breaker.maybeTransition_opened {t : ℚ} (hstate : b.state = .opened) (hat : b.openedAt = some t) :
    (b.maybeTransition cfg now).state = .opened ↔ t = 0 ∨ now - t < cfg.resetTimeoutSecs := by
  rw [Breaker.maybeTransition, hstate, hat]
  dsimp only
  split_ifs with htest
  · rw [iff_false_left (by decide), not_or, not_lt]
    exact htest
  · rw [hstate, iff_true_left rfl, ← not_le, ← not_ne_iff, ← not_and_or]
    exact htest

theorem Breaker.maybeTransition_of_ne (h : b.state ≠ .opened) : b.maybeTransition cfg now = b := by
  rcases @Breaker.maybeTransition_cases cfg b now with heq | ⟨hopen, -⟩
  · exact heq
  · exact absurd hopen h

theorem Breaker.openedAt_maybeTransition (b : Breaker) (now : ℚ) :
    (b.maybeTransition cfg now).openedAt = b.openedAt := by
  rcases @Breaker.maybeTransition_cases cfg b now with heq | ⟨-, heq⟩ <;> rw [heq]

theorem Breaker.failures_maybeTransition (b : Breaker) (now : ℚ) :
    (b.maybeTransition cfg now).failures = b.failures := by
  rcases @Breaker.maybeTransition_cases cfg b now with heq | ⟨-, heq⟩ <;> rw [heq]

theorem Breaker.failures_onFailure (b : Breaker) (now : ℚ) :
    (b.onFailure cfg now).failures = b.recentFailures cfg now := by
  unfold Breaker.onFailure
  dsimp only
  split_ifs <;> rfl

theorem System.mem_rejected_call {id : Nat} {now' : ℚ} :
    now' ∈ s.rejected? cfg (.call id now) ↔ (s.breaker.maybeTransition cfg now).state = .opened ∧ now = now' := by
  rw [System.rejected?]
  split_ifs with hopen <;> simp [hopen]

/-- What a step does to the breaker. -/
theorem System.step_breaker (h : s.step cfg a = some s') :
    (∃ id now, a = .call id now ∧ s'.breaker = s.breaker.maybeTransition cfg now) ∨
    (∃ id now, a = .settle id now ∧ s.failed? a = none ∧ s'.breaker = s.breaker.onSuccess) ∨
    (∃ id now, a = .settle id now ∧ s.failed? a = some now ∧ s'.breaker = s.breaker.onFailure cfg now) ∨
    a.now? = none ∧ s'.breaker = s.breaker := by
  rcases System.step_cases h with ⟨id, now, rfl, -, t, rfl, hcall⟩ | ⟨id, ok, rfl, rfl⟩ |
    ⟨id, now, ok, epoch, rfl, hfind, rfl⟩ | ⟨id, rfl, rfl⟩
  · refine .inl ⟨id, now, rfl, ?_⟩
    rcases hcall with ⟨-, rfl⟩ | ⟨-, rfl⟩ <;> exact System.breaker_update ..
  · exact .inr (.inr (.inr ⟨rfl, rfl⟩))
  · cases ok with
    | true =>
      refine .inr (.inl ⟨id, now, rfl, ?_, System.breaker_update ..⟩)
      simp [System.failed?, hfind]
    | false =>
      refine .inr (.inr (.inl ⟨id, now, rfl, ?_, System.breaker_update ..⟩))
      simp [System.failed?, hfind]
  · exact .inr (.inr (.inr ⟨rfl, rfl⟩))

namespace Watch

theorem step_eq_some (h : w.step cfg a = some w') :
    (∀ now ∈ a.now?, w.clock ≤ now) ∧ ∃ s', w.system.step cfg a = some s' ∧
      w' = ⟨s', a.now?.getD w.clock, if w.state = .halfOpen ∧ s'.breaker.state = .closed then []
        else w.recorded ++ (w.system.failed? a).toList⟩ := by
  unfold step at h
  split_ifs at h with hclock
  obtain ⟨s', hs', rfl⟩ := Option.map_eq_some_iff.1 h
  exact ⟨hclock, s', hs', rfl⟩

theorem Inv.clock_le (h : w.Inv) (hclock : ∀ now ∈ a.now?, w.clock ≤ now) :
    ∀ t ∈ w.recorded, t ≤ a.now?.getD w.clock := by
  intro t ht
  have hle : w.clock ≤ a.now?.getD w.clock := by
    cases hnow : a.now? with
    | none => exact le_rfl
    | some now => exact hclock now hnow
  exact (h.past t ht).trans hle

/-- The failures in the window are recorded ones, this one included. -/
theorem Inv.recent (h : w.Inv) (now : ℚ) :
    (w.system.breaker.recentFailures cfg now).Sublist (w.recorded ++ [now]) :=
  (List.filter_sublist.trans h.failures).append_right [now]

theorem Inv.reaches (h : w.Inv) (hclock : w.clock ≤ now) (hfills : w.system.breaker.Fills cfg now) :
    w.Reaches cfg now := by
  have hle : (w.system.breaker.failures.filter fun t => now - t < cfg.windowSecs).length ≤
      w.recorded.countP fun t => t ≤ now ∧ now - t < cfg.windowSecs := by
    rw [List.countP_eq_length_filter]
    have hsame : w.recorded.filter (fun t => decide (t ≤ now ∧ now - t < cfg.windowSecs)) =
        w.recorded.filter fun t => now - t < cfg.windowSecs := by
      refine List.filter_congr fun t ht => ?_
      have hpast : t ≤ now := (h.past t ht).trans hclock
      simp only [hpast, true_and]
    rw [hsame]
    exact (h.failures.filter _).length_le
  unfold Breaker.Fills Breaker.recentFailures at hfills
  rw [List.length_append, List.length_singleton] at hfills
  unfold Reaches
  omega

/-! ### One step -/

/-- A step after which the breaker is in the state it was in, with the same `_opened_at`. -/
theorem safeTo_of_same (h : w.Inv) (hstate : w'.state = w.state)
    (hat : w'.system.breaker.openedAt = w.system.breaker.openedAt) (hrej : ∀ now, now ∉ w.system.rejected? cfg a) :
    w.SafeTo cfg w' a where
  opens hclosed hopen := by rw [hstate, hclosed] at hopen; cases hopen
  openedAt hopen := by rw [hat]; exact h.opened (hstate ▸ hopen)
  rejects now hnow := absurd hnow (hrej now)
  halfOpens hhalf := .inl (hstate ▸ hhalf)
  closes hclosed := .inl (hstate ▸ hclosed)

theorem safeTo_call {id : Nat} (h : w.Inv)
    (hbreaker : w'.system.breaker = w.system.breaker.maybeTransition cfg now) :
    w.SafeTo cfg w' (.call id now) ↔ w.OffZero cfg (.call id now) := by
  by_cases hopen : w.state = .opened
  · obtain ⟨t, hat⟩ := Option.ne_none_iff_exists'.1 (h.opened hopen)
    have htest := @Breaker.maybeTransition_opened cfg _ now _ hopen hat
    constructor
    · intro hsafe _ hzero
      obtain rfl : t = 0 := Option.some.inj (hat.symm.trans hzero)
      obtain ⟨-, t, ht, hlt⟩ := hsafe.rejects now (System.mem_rejected_call.2 ⟨htest.2 (.inl rfl), rfl⟩)
      obtain rfl : 0 = t := Option.some.inj (hat.symm.trans ht)
      rwa [sub_zero] at hlt
    · intro hzero
      refine ⟨fun hclosed => ?_, fun _ => ?_, fun now' hnow => ⟨hopen, t, hat, ?_⟩, fun _ => .inr hopen,
        fun hclosed => ?_⟩
      · rw [hopen] at hclosed
        cases hclosed
      · rw [hbreaker, Breaker.openedAt_maybeTransition]
        exact h.opened hopen
      · obtain ⟨hrej, rfl⟩ := System.mem_rejected_call.1 hnow
        rcases htest.1 hrej with rfl | hlt
        · rw [sub_zero]
          exact hzero hopen hat
        · exact hlt
      · unfold state at hclosed
        rcases @Breaker.maybeTransition_cases cfg w.system.breaker now with heq | ⟨-, heq⟩
        · rw [hbreaker, heq, show w.system.breaker.state = .opened from hopen] at hclosed
          cases hclosed
        · rw [hbreaker, heq] at hclosed
          cases hclosed
  · have hsame : w.system.breaker.maybeTransition cfg now = w.system.breaker := Breaker.maybeTransition_of_ne hopen
    have hrej : ∀ now', now' ∉ w.system.rejected? cfg (.call id now) := by
      intro now' hnow
      rw [System.mem_rejected_call, hsame] at hnow
      exact hopen hnow.1
    rw [hsame] at hbreaker
    refine iff_of_true ?_ fun hopen' => absurd hopen' hopen
    exact safeTo_of_same h (congrArg Breaker.state hbreaker) (congrArg Breaker.openedAt hbreaker) hrej

theorem safeTo_success {id : Nat} (h : w.Inv) (hbreaker : w'.system.breaker = w.system.breaker.onSuccess) :
    w.SafeTo cfg w' (.settle id now) := by
  rcases w.system.breaker.onSuccess_cases with ⟨-, heq⟩ | ⟨hhalf, hclosed, -⟩
  · rw [heq] at hbreaker
    exact safeTo_of_same h (congrArg Breaker.state hbreaker) (congrArg Breaker.openedAt hbreaker)
      fun _ => Option.not_mem_none _
  · have hstate : w'.state = .closed := by rw [state, hbreaker, hclosed]
    refine ⟨fun _ hopen => ?_, fun hopen => ?_, fun _ hnow => ?_, fun hhalf' => ?_, fun _ => .inr hhalf⟩
    · rw [hstate] at hopen
      cases hopen
    · rw [hstate] at hopen
      cases hopen
    · cases hnow
    · rw [hstate] at hhalf'
      cases hhalf'

theorem safeTo_failure {id : Nat} (h : w.Inv) (hclock : w.clock ≤ now)
    (hfailed : w.system.failed? (.settle id now) = some now)
    (hbreaker : w'.system.breaker = w.system.breaker.onFailure cfg now) :
    w.SafeTo cfg w' (.settle id now) := by
  rcases w.system.breaker.onFailure_cases cfg now with ⟨-, hstate, hat⟩ | ⟨hopens, hstate, hat⟩
  · rw [← hbreaker] at hstate hat
    exact safeTo_of_same h hstate hat fun _ => Option.not_mem_none _
  · rw [← hbreaker] at hstate hat
    have hopen : w'.state = .opened := hstate
    refine ⟨fun hclosed _ => ?_, fun _ => ?_, fun _ hnow => ?_, fun hhalf => ?_, fun hclosed => ?_⟩
    · -- a closed breaker opens for what is in the window
      have hhalf : w.system.breaker.state ≠ .halfOpen := by
        rw [show w.system.breaker.state = .closed from hclosed]
        decide
      exact ⟨now, hfailed, h.reaches hclock (hopens.resolve_left hhalf)⟩
    · rw [hat]
      exact Option.some_ne_none now
    · cases hnow
    · rw [hopen] at hhalf
      cases hhalf
    · rw [hopen] at hclosed
      cases hclosed

/-- What the breaker holds after a step whose new failures are recorded. -/
theorem Inv.of_failures (h : w.Inv) (hclock : ∀ now ∈ a.now?, w.clock ≤ now)
    (hpast : ∀ t ∈ (w.system.failed? a).toList, t ≤ a.now?.getD w.clock) {s' : System}
    (hfailures : s'.breaker.failures.Sublist (w.recorded ++ (w.system.failed? a).toList))
    (hopened : s'.breaker.state = .opened → s'.breaker.openedAt ≠ none)
    (hcloses : w.state = .halfOpen → s'.breaker.state = .closed → s'.breaker.failures = []) :
    Inv ⟨s', a.now?.getD w.clock, if w.state = .halfOpen ∧ s'.breaker.state = .closed then []
      else w.recorded ++ (w.system.failed? a).toList⟩ where
  failures := by
    dsimp only
    split_ifs with hrecovers
    · rw [hcloses hrecovers.1 hrecovers.2]
    · exact hfailures
  past := by
    dsimp only
    intro t ht
    split_ifs at ht with hrecovers
    · cases ht
    · rcases List.mem_append.1 ht with ht | ht
      · exact h.clock_le hclock t ht
      · exact hpast t ht
  opened := hopened

theorem Inv.step (h : w.Inv) (hstep : w.step cfg a = some w') :
    w'.Inv ∧ (w.SafeTo cfg w' a ↔ w.OffZero cfg a) := by
  obtain ⟨hclock, s', hs', rfl⟩ := step_eq_some hstep
  rcases System.step_breaker hs' with ⟨id, now, rfl, hbreaker⟩ | ⟨id, now, rfl, hfailed, hbreaker⟩ |
    ⟨id, now, rfl, hfailed, hbreaker⟩ | ⟨hnow, hbreaker⟩
  · refine ⟨h.of_failures hclock (fun t ht => by cases ht) ?_ (fun hopen => ?_) (fun hhalf hclosed => ?_),
      safeTo_call h hbreaker⟩
    · rw [hbreaker, Breaker.failures_maybeTransition]
      exact h.failures.trans (List.sublist_append_left _ _)
    · rw [hbreaker] at hopen ⊢
      rw [Breaker.openedAt_maybeTransition]
      rcases @Breaker.maybeTransition_cases cfg w.system.breaker now with heq | ⟨-, heq⟩
      · rw [heq] at hopen
        exact h.opened hopen
      · rw [heq] at hopen
        cases hopen
    · have hne : w.system.breaker.state ≠ .opened := by
        rw [show w.system.breaker.state = .halfOpen from hhalf]
        decide
      rw [hbreaker, Breaker.maybeTransition_of_ne hne] at hclosed
      rw [state, hclosed] at hhalf
      cases hhalf
  · refine ⟨h.of_failures hclock (fun t ht => ?_) ?_ (fun hopen => ?_) (fun hhalf _ => ?_),
      iff_of_true (safeTo_success h hbreaker) trivial⟩
    · rw [hfailed] at ht
      cases ht
    · rw [hbreaker, Breaker.onSuccess]
      split_ifs
      · exact List.nil_sublist _
      · exact h.failures.trans (List.sublist_append_left _ _)
    · rw [hbreaker] at hopen ⊢
      rcases w.system.breaker.onSuccess_cases with ⟨-, heq⟩ | ⟨-, hclosed, -⟩
      · rw [heq] at hopen ⊢
        exact h.opened hopen
      · rw [hclosed] at hopen
        cases hopen
    · rw [state] at hhalf
      rw [hbreaker, Breaker.onSuccess, if_pos hhalf]
  · refine ⟨h.of_failures hclock (fun t ht => ?_) ?_ (fun hopen => ?_) (fun hhalf hclosed => ?_),
      iff_of_true (safeTo_failure h (hclock now rfl) hfailed hbreaker) trivial⟩
    · rw [hfailed, Option.toList_some, List.mem_singleton] at ht
      rw [ht]
      exact le_rfl
    · rw [hbreaker, Breaker.failures_onFailure, hfailed]
      exact h.recent now
    · rw [hbreaker] at hopen ⊢
      rcases w.system.breaker.onFailure_cases cfg now with ⟨-, hstate, hat⟩ | ⟨-, -, hat⟩
      · rw [hstate] at hopen
        rw [hat]
        exact h.opened hopen
      · rw [hat]
        exact Option.some_ne_none now
    · rcases w.system.breaker.onFailure_cases cfg now with ⟨hno, -, -⟩ | ⟨-, hstate, -⟩
      · exact absurd (.inl hhalf) hno
      · rw [hbreaker, hstate] at hclosed
        cases hclosed
  · have hfailed : w.system.failed? a = none := by
      cases a with
      | settle => cases hnow
      | call | finish | leave => rfl
    have hoff : w.OffZero cfg a := by
      cases a with
      | call => cases hnow
      | settle | finish | leave => trivial
    have hrej : ∀ now, now ∉ w.system.rejected? cfg a := by
      cases a with
      | call => cases hnow
      | settle | finish | leave => exact fun _ => Option.not_mem_none _
    refine ⟨h.of_failures hclock (fun t ht => ?_) ?_ (fun hopen => ?_) (fun hhalf hclosed => ?_),
      iff_of_true (safeTo_of_same h (congrArg Breaker.state hbreaker) (congrArg Breaker.openedAt hbreaker) hrej)
        hoff⟩
    · rw [hfailed] at ht
      cases ht
    · rw [hbreaker]
      exact h.failures.trans (List.sublist_append_left _ _)
    · rw [hbreaker] at hopen ⊢
      exact h.opened hopen
    · rw [hbreaker, show w.system.breaker.state = .halfOpen from hhalf] at hclosed
      cases hclosed

/-! ### Runs -/

theorem inv_new (start : ℚ) : (new start).Inv where
  failures := List.Sublist.refl _
  past t ht := by cases ht
  opened hopen := by cases hopen

theorem safe_step (h : w.Inv) (hstep : w.step cfg a = some w') : w'.Inv ∧ (w.Safe cfg a ↔ w.OffZero cfg a) := by
  obtain ⟨hinv, hsafe⟩ := h.step hstep
  refine ⟨hinv, ?_⟩
  simp only [Safe, hstep, Option.mem_some_iff, forall_eq', hsafe]

/-- Five failures at time zero open the breaker; half a minute later it still turns a call away. -/
def zeroOpening : List Action := (List.range 5).flatMap (failedCall · 0) ++ [.call 5 31]

end Watch
end Dgraphai.CircuitBreaker
