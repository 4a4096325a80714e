import Dgraphai.CircuitBreaker

/-!
# Outcomes of earlier epochs

An outcome does not say when its call was admitted, so a call that was admitted before the last change of
the state can close a half open breaker, open it, or begin its time in OPEN anew. `epochSafe_iff` says when
such an outcome is `Harmless`.
-/

namespace Dgraphai.CircuitBreaker

variable (cfg : Config)

/-- With this failure the window holds enough of them. -/
def Breaker.Fills (b : Breaker) (now : ℚ) : Prop := cfg.failureThreshold ≤ (b.recentFailures cfg now).length

instance (b : Breaker) (now : ℚ) : Decidable (b.Fills cfg now) := inferInstanceAs (Decidable (_ ≤ _))

namespace System

/-- The outcome of a call admitted before the last state change changes neither state nor `_opened_at`. -/
def EpochSafe (s : System) : Action → Prop
  | .settle id now => ∀ c ∈ s.find id, c.epoch ≠ s.epoch → ∀ s' ∈ s.step cfg (.settle id now),
      s'.breaker.state = s.breaker.state ∧ s'.breaker.openedAt = s.breaker.openedAt
  | _ => True

/-- The time in OPEN counts from the transition that opened the breaker. -/
def OpenedAtChange (s : System) : Prop := s.breaker.state = .opened → s.breaker.openedAt = some s.changedAt

/-- An outcome of an earlier epoch does not meet a half open breaker, and is no failure that fills the
window (but at the very time at which the breaker opened). -/
def Harmless (s : System) : Action → Prop
  | .settle id now => ∀ c ∈ s.find id, c.epoch ≠ s.epoch → s.breaker.state ≠ .halfOpen ∧
      (c.phase = .ended false → s.breaker.Fills cfg now →
        s.breaker.state = .opened ∧ s.breaker.openedAt = some now)
  | _ => True

instance (s : System) : (a : Action) → Decidable (s.EpochSafe cfg a)
  | .settle _ _ => inferInstanceAs (Decidable (∀ _ ∈ _, _))
  | .call .. | .finish .. | .leave _ => inferInstanceAs (Decidable True)

instance (s : System) : (a : Action) → Decidable (s.Harmless cfg a)
  | .settle _ _ => inferInstanceAs (Decidable (∀ _ ∈ _, _))
  | .call .. | .finish .. | .leave _ => inferInstanceAs (Decidable True)

/-- The calls in flight were admitted in this epoch or before; while the breaker is open, before. -/
structure Inv (s : System) : Prop where
  epochs : ∀ c ∈ s.inFlight, c.epoch ≤ s.epoch
  opened : s.breaker.state = .opened → ∀ c ∈ s.inFlight, c.epoch < s.epoch

end System

variable {cfg} {s s' : System} {a : Action} {b : Breaker} {now : ℚ} {id epoch : Nat}

/-! ### Outcomes -/

theorem Breaker.onSuccess_cases (b : Breaker) :
    b.state ≠ .halfOpen ∧ b.onSuccess = b ∨
      b.state = .halfOpen ∧ b.onSuccess.state = .closed ∧ b.onSuccess.openedAt = b.openedAt := by
  unfold Breaker.onSuccess
  split_ifs with hhalf
  · exact .inr ⟨hhalf, rfl, rfl⟩
  · exact .inl ⟨hhalf, rfl⟩

theorem Breaker.onFailure_cases (cfg : Config) (b : Breaker) (now : ℚ) :
    ¬ (b.state = .halfOpen ∨ b.Fills cfg now) ∧ (b.onFailure cfg now).state = b.state ∧
        (b.onFailure cfg now).openedAt = b.openedAt ∨
      (b.state = .halfOpen ∨ b.Fills cfg now) ∧ (b.onFailure cfg now).state = .opened ∧
        (b.onFailure cfg now).openedAt = some now := by
  unfold Breaker.onFailure Breaker.Fills
  dsimp only
  split_ifs with hopens
  · exact .inr ⟨hopens, rfl, rfl⟩
  · exact .inl ⟨hopens, rfl, rfl⟩

/-! ### The epochs of the calls in flight -/

namespace System

theorem update_cases (s : System) (b : Breaker) (now : ℚ) :
    b.state = s.breaker.state ∧ (s.update b now).epoch = s.epoch ∧ (s.update b now).changedAt = s.changedAt ∨
      b.state ≠ s.breaker.state ∧ (s.update b now).epoch = s.epoch + 1 ∧ (s.update b now).changedAt = now := by
  unfold System.update
  split_ifs with hsame
  · exact .inl ⟨hsame, rfl, rfl⟩
  · exact .inr ⟨hsame, rfl, rfl⟩

theorem Inv.update (h : s.Inv) (b : Breaker) (now : ℚ) : (s.update b now).Inv := by
  constructor
  · intro c hc
    rw [inFlight_update] at hc
    have hle : c.epoch ≤ s.epoch := h.epochs c hc
    rcases update_cases s b now with ⟨-, hepoch, -⟩ | ⟨-, hepoch, -⟩ <;> omega
  · intro hopen c hc
    rw [inFlight_update] at hc
    rw [breaker_update] at hopen
    rcases update_cases s b now with ⟨hsame, hepoch, -⟩ | ⟨-, hepoch, -⟩
    · rw [hepoch]
      exact h.opened (hsame ▸ hopen) c hc
    · have hle : c.epoch ≤ s.epoch := h.epochs c hc
      omega

theorem Inv.remove (h : s.Inv) (id : Nat) : (s.remove id).Inv where
  epochs c hc := h.epochs c (List.mem_of_mem_filter hc)
  opened hopen c hc := h.opened hopen c (List.mem_of_mem_filter hc)

theorem Inv.step (h : s.Inv) (hstep : s.step cfg a = some s') : s'.Inv := by
  rcases step_cases hstep with ⟨id, now, rfl, -, t, rfl, hcall⟩ | ⟨id, ok, rfl, rfl⟩ |
    ⟨id, now, ok, epoch, rfl, -, rfl⟩ | ⟨id, rfl, rfl⟩
  · have ht : (s.update (s.breaker.maybeTransition cfg now) now).Inv := h.update _ now
    rcases hcall with ⟨-, rfl⟩ | ⟨hopen, rfl⟩
    · exact ht
    · refine ⟨fun c hc => ?_, fun hopen' => absurd hopen' hopen⟩
      rcases List.mem_append.1 hc with hc | hc
      · exact ht.epochs c (by rwa [inFlight_update])
      · rw [List.mem_singleton.1 hc]
  · have hmem : ∀ c ∈ s.inFlight.map (fun c => if c.id = id then { c with phase := .ended ok } else c),
        ∃ c₀ ∈ s.inFlight, c.epoch = c₀.epoch := by
      intro c hc
      obtain ⟨c₀, hc₀, rfl⟩ := List.mem_map.1 hc
      refine ⟨c₀, hc₀, ?_⟩
      split_ifs <;> rfl
    refine ⟨fun c hc => ?_, fun hopen c hc => ?_⟩
    · obtain ⟨c₀, hc₀, hepoch⟩ := hmem c hc
      rw [hepoch]
      exact h.epochs c₀ hc₀
    · obtain ⟨c₀, hc₀, hepoch⟩ := hmem c hc
      rw [hepoch]
      exact h.opened hopen c₀ hc₀
  · exact (h.update _ now).remove id
  · exact h.remove id

/-! ### One step -/

/-- A success of a call. -/
theorem settle_success (hs : s.OpenedAtChange) (hfind : s.find id = some ⟨id, .ended true, epoch⟩) :
    (((s.update s.breaker.onSuccess now).remove id).OpenedAtChange ∧ s.EpochSafe cfg (.settle id now)) ↔
      s.Harmless cfg (.settle id now) := by
  have hstep : s.step cfg (.settle id now) = some ((s.update s.breaker.onSuccess now).remove id) := by
    simp [System.step, hfind]
  have hopened : ((s.update s.breaker.onSuccess now).remove id).OpenedAtChange := by
    intro hopen
    have hopen' : s.breaker.onSuccess.state = .opened := by simpa [remove] using hopen
    rcases s.breaker.onSuccess_cases with ⟨-, heq⟩ | ⟨-, hclosed, -⟩
    · have hsame : s.update s.breaker.onSuccess now = s := by rw [heq, System.update, if_pos rfl]
      rw [heq] at hopen'
      rw [hsame]
      exact hs hopen'
    · rw [hclosed] at hopen'
      cases hopen'
  rw [and_iff_right hopened]
  simp only [EpochSafe, Harmless, hfind, hstep, Option.mem_some_iff, forall_eq', remove, breaker_update]
  refine forall_congr' fun _ => ?_
  rcases s.breaker.onSuccess_cases with ⟨hhalf, heq⟩ | ⟨hhalf, hclosed, -⟩
  · simp [heq, hhalf]
  · simp [hclosed, hhalf]

/-- A failure of a call. -/
theorem settle_failure (hi : s.Inv) (hs : s.OpenedAtChange)
    (hfind : s.find id = some ⟨id, .ended false, epoch⟩) :
    (((s.update (s.breaker.onFailure cfg now) now).remove id).OpenedAtChange ∧
        s.EpochSafe cfg (.settle id now)) ↔ s.Harmless cfg (.settle id now) := by
  have hstep : s.step cfg (.settle id now) =
      some ((s.update (s.breaker.onFailure cfg now) now).remove id) := by
    simp [System.step, hfind]
  have hmem : (⟨id, .ended false, epoch⟩ : Call) ∈ s.inFlight := List.mem_of_find?_eq_some hfind
  simp only [OpenedAtChange, EpochSafe, Harmless, hfind, hstep, Option.mem_some_iff, forall_eq', remove,
    breaker_update, forall_const]
  rcases s.breaker.onFailure_cases cfg now with ⟨hno, hstate, hat⟩ | ⟨hopens, hstate, hat⟩
  · -- the failure is only counted
    rw [not_or] at hno
    rw [hstate, hat]
    rcases update_cases s (s.breaker.onFailure cfg now) now with ⟨-, -, hchanged⟩ | ⟨hne, -, -⟩
    · rw [hchanged]
      exact iff_of_true ⟨hs, fun _ => ⟨rfl, rfl⟩⟩ fun _ => ⟨hno.1, fun hfills => absurd hfills hno.2⟩
    · exact absurd hstate hne
  · rw [hstate, hat]
    by_cases hopen : s.breaker.state = .opened
    · -- an open breaker: the call is of an earlier epoch, and `_opened_at` is set again
      have hstale : epoch ≠ s.epoch := Nat.ne_of_lt (hi.opened hopen _ hmem)
      have hfills : s.breaker.Fills cfg now := hopens.resolve_left (by rw [hopen]; decide)
      have hhalf : s.breaker.state ≠ .halfOpen := by rw [hopen]; decide
      rcases update_cases s (s.breaker.onFailure cfg now) now with ⟨-, -, hchanged⟩ | ⟨hne, -, -⟩
      · rw [hchanged, hs hopen]
        simp [hopen, hstale, hfills, eq_comm]
      · exact absurd (hstate.trans hopen.symm) hne
    · rcases update_cases s (s.breaker.onFailure cfg now) now with ⟨hsame, -, -⟩ | ⟨-, -, hchanged⟩
      · exact absurd (hsame.symm.trans hstate) hopen
      · rw [hchanged]
        have hne : State.opened ≠ s.breaker.state := fun heq => hopen heq.symm
        by_cases hstale : epoch = s.epoch
        · simp [hstale]
        · refine iff_of_false (fun h => hne (h.2 hstale).1) fun h => ?_
          obtain ⟨hhalf, hfills⟩ := h hstale
          exact hopen (hfills (hopens.resolve_left hhalf)).1

theorem epochSafe_step (hi : s.Inv) (hs : s.OpenedAtChange) (h : s.step cfg a = some s') :
    s'.OpenedAtChange ∧ s.EpochSafe cfg a ↔ s.Harmless cfg a := by
  rcases step_cases h with ⟨id, now, rfl, -, t, rfl, hcall⟩ | ⟨id, ok, rfl, rfl⟩ |
    ⟨id, now, ok, epoch, rfl, hfind, rfl⟩ | ⟨id, rfl, rfl⟩
  · refine iff_of_true ⟨fun hopen => ?_, trivial⟩ trivial
    rw [breaker_update] at hcall
    rcases hcall with ⟨hopen', rfl⟩ | ⟨hno, rfl⟩
    · have hsame : s.breaker.maybeTransition cfg now = s.breaker := by
        rcases Breaker.maybeTransition_cases s.breaker now with heq | ⟨-, heq⟩
        · exact heq
        · rw [heq] at hopen'
          cases hopen'
      rw [hsame, System.update, if_pos rfl]
      rw [hsame] at hopen'
      exact hs hopen'
    · exact absurd hopen hno
  · exact iff_of_true ⟨hs, trivial⟩ trivial
  · cases ok with
    | true => exact settle_success hs hfind
    | false => exact settle_failure hi hs hfind
  · exact iff_of_true ⟨hs, trivial⟩ trivial

/-! ### Runs -/

/-- Outcomes of earlier epochs change nothing throughout a run, and the time in OPEN counts from the
transition, exactly if every such outcome is harmless where it comes. -/
theorem epochSafe_iff (cfg : Config) (as : List Action) :
    Runs.Always (step cfg) OpenedAtChange new as ∧ Runs.Along (step cfg) (EpochSafe cfg) new as ↔
      Runs.Along (step cfg) (Harmless cfg) new as :=
  Runs.always_and_along_iff
    (fun _ _ _ hi hs h => ⟨Inv.step hi h, epochSafe_step hi hs h⟩)
    ⟨fun c hc => absurd hc List.not_mem_nil, fun _ c hc => absurd hc List.not_mem_nil⟩ fun h => by cases h

/-- A call admitted before the breaker opened succeeds while another one tests recovery. -/
def lateSuccess : List Action :=
  .call 0 0 :: ((List.range 5).flatMap (fun i => failedCall (i + 1) 1) ++
    [.call 6 31, .finish 0 true, .settle 0 32])

theorem lateSuccess_not_safe : ¬ ∀ as, Runs.Along (step Config.default) (EpochSafe Config.default) new as := by
  intro h
  have hlate : ¬ Runs.Along (step Config.default) (EpochSafe Config.default) new lateSuccess := by
    decide +kernel
  exact hlate (h lateSuccess)

end System
end Dgraphai.CircuitBreaker
