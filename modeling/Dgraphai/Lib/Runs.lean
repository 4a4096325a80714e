import Mathlib.Data.List.Infix

/-!
# Runs of a partial step function

`step s a` is the state after action `a`, or `none` where `a` cannot be taken in `s`. `Along ok s as`
says that each action of `as` meets the condition `ok` in the state it is taken in, `Always P s as`
that `P` holds in every state the run reaches. Where one step from a good state lands in a good state
exactly if it meets `ok`, a run is always good exactly along `ok` (`always_iff_along`).
-/

namespace Runs

variable {σ α : Type*}

def run (step : σ → α → Option σ) : σ → List α → Option σ
  | s, [] => some s
  | s, a :: as => (step s a).bind fun s' => run step s' as

/-- Every action of `as` meets `ok` in the state it is taken in. -/
def Along (step : σ → α → Option σ) (ok : σ → α → Prop) : σ → List α → Prop
  | _, [] => True
  | s, a :: as => ∀ s', step s a = some s' → ok s a ∧ Along step ok s' as

/-- `P` holds in every state reached by the run, the first and the last included. -/
def Always (step : σ → α → Option σ) (P : σ → Prop) (s : σ) (as : List α) : Prop :=
  ∀ bs t, bs <+: as → run step s bs = some t → P t

variable {step : σ → α → Option σ} {ok : σ → α → Prop} {Inv P : σ → Prop}

theorem run_cons {s t : σ} {a : α} {as : List α} :
    run step s (a :: as) = some t ↔ ∃ s', step s a = some s' ∧ run step s' as = some t := by
  rw [run, Option.bind_eq_some_iff]

theorem run_append (s : σ) (as bs : List α) :
    run step s (as ++ bs) = (run step s as).bind fun t => run step t bs := by
  induction as generalizing s with
  | nil => rfl
  | cons a as ih =>
    rw [List.cons_append, run, run, Option.bind_assoc]
    exact congrArg _ (funext fun s' => ih s')

theorem along_cons_of_step {s s' : σ} {a : α} {as : List α} (h : step s a = some s') :
    Along step ok s (a :: as) ↔ ok s a ∧ Along step ok s' as := by
  constructor
  · intro hal; exact hal s' h
  · rintro hal t ht
    obtain rfl : s' = t := Option.some.inj (h.symm.trans ht)
    exact hal

instance Along.instDecidable [∀ s a, Decidable (ok s a)] :
    ∀ s as, Decidable (Along step ok s as)
  | _, [] => .isTrue trivial
  | s, a :: as =>
    match h : step s a with
    | none => .isTrue fun s' hs' => by rw [h] at hs'; cases hs'
    | some s' =>
      have := Along.instDecidable s' as
      decidable_of_iff _ (along_cons_of_step h).symm

/-- The run lemma: what every step keeps holds at the end of the run. -/
theorem inv_run (hstep : ∀ s a s', Inv s → step s a = some s' → Inv s') {s t : σ} {as : List α}
    (h : run step s as = some t) (hs : Inv s) : Inv t := by
  induction as generalizing s with
  | nil => cases h; exact hs
  | cons a as ih =>
    obtain ⟨s', hs', ht⟩ := run_cons.1 h
    exact ih ht (hstep s a s' hs hs')

theorem always_cons {s : σ} {a : α} {as : List α} :
    Always step P s (a :: as) ↔ P s ∧ ∀ s', step s a = some s' → Always step P s' as := by
  constructor
  · intro h
    refine ⟨h [] s (List.nil_prefix) rfl, fun s' hs' bs t hbs ht => ?_⟩
    exact h (a :: bs) t (List.cons_prefix_cons.2 ⟨rfl, hbs⟩) (run_cons.2 ⟨s', hs', ht⟩)
  · rintro ⟨h0, h⟩ bs t hbs ht
    cases bs with
    | nil => cases ht; exact h0
    | cons b bs =>
      obtain ⟨rfl, hpre⟩ := List.cons_prefix_cons.1 hbs
      obtain ⟨s', hs', ht⟩ := run_cons.1 ht
      exact h s' hs' bs t hpre ht

/-- An invariant that every step meeting `ok` keeps holds in every state of a run along `ok`. -/
theorem always_of_along (hstep : ∀ s a s', Inv s → ok s a → step s a = some s' → Inv s')
    (hP : ∀ s, Inv s → P s) {s : σ} {as : List α} (hi : Inv s) (h : Along step ok s as) :
    Always step P s as := by
  induction as generalizing s with
  | nil =>
    intro bs t hbs ht
    obtain rfl := List.prefix_nil.1 hbs
    cases ht
    exact hP s hi
  | cons a as ih =>
    refine always_cons.2 ⟨hP s hi, fun s' hs' => ?_⟩
    obtain ⟨ha, h'⟩ := h s' hs'
    exact ih (hstep s a s' hi ha hs') h'

theorem along_of_forall {Q : α → Prop} {s : σ} {as : List α} (h : ∀ a ∈ as, Q a) : Along step (fun _ a => Q a) s as := by
  induction as generalizing s with
  | nil => trivial
  | cons a as ih => exact fun s' _ => ⟨h a List.mem_cons_self, ih fun b hb => h b (List.mem_cons_of_mem a hb)⟩

theorem along_of_always {s : σ} {as : List α} (h : Always step P s as) : Along step (fun s _ => P s) s as := by
  induction as generalizing s with
  | nil => trivial
  | cons a as ih =>
    obtain ⟨hs, hrest⟩ := always_cons.1 h
    exact fun s' hs' => ⟨hs, ih (hrest s' hs')⟩

theorem Along.and {ok' : σ → α → Prop} {s : σ} {as : List α} (h : Along step ok s as) (h' : Along step ok' s as) :
    Along step (fun s a => ok s a ∧ ok' s a) s as := by
  induction as generalizing s with
  | nil => trivial
  | cons a as ih => exact fun s' hs' => ⟨⟨(h s' hs').1, (h' s' hs').1⟩, ih (h s' hs').2 (h' s' hs').2⟩

theorem along_congr {ok' : σ → α → Prop} (h : ∀ s a s', step s a = some s' → (ok s a ↔ ok' s a)) {s : σ} {as : List α} :
    Along step ok s as ↔ Along step ok' s as := by
  induction as generalizing s with
  | nil => exact Iff.rfl
  | cons a as ih => exact forall_congr' fun s' => forall_congr' fun hs' => and_congr (h s a s' hs') ih

/-- Along actions that keep `Inv` and there meet another condition. -/
theorem Along.imp {ok' : σ → α → Prop} (hstep : ∀ s a s', Inv s → ok s a → step s a = some s' → Inv s' ∧ ok' s a)
    {s : σ} {as : List α} (h : Along step ok s as) (hi : Inv s) : Along step ok' s as := by
  induction as generalizing s with
  | nil => trivial
  | cons a as ih =>
    intro s' hs'
    obtain ⟨ha, hrest⟩ := h s' hs'
    obtain ⟨hi', hok⟩ := hstep s a s' hi ha hs'
    exact ⟨hok, ih hrest hi'⟩

/-- Where one step from a good state both lands in a good state and is a `Q` exactly if it meets `ok`, a run is
always good with every step a `Q` exactly along `ok`. -/
theorem always_and_along_iff {Q : σ → α → Prop}
    (hstep : ∀ s a s', Inv s → P s → step s a = some s' → Inv s' ∧ (P s' ∧ Q s a ↔ ok s a)) {s : σ} {as : List α}
    (hi : Inv s) (hs : P s) : Always step P s as ∧ Along step Q s as ↔ Along step ok s as := by
  induction as generalizing s with
  | nil =>
    refine iff_of_true ⟨fun bs t hbs ht => ?_, trivial⟩ trivial
    obtain rfl := List.prefix_nil.1 hbs
    cases ht
    exact hs
  | cons a as ih =>
    rw [always_cons, and_iff_right hs]
    constructor
    · rintro ⟨hal, hQ⟩ s' hs'
      have hP : P s' := hal s' hs' [] s' List.nil_prefix rfl
      obtain ⟨hQa, hQs⟩ := hQ s' hs'
      obtain ⟨hi', hiff⟩ := hstep s a s' hi hs hs'
      exact ⟨hiff.1 ⟨hP, hQa⟩, (ih hi' hP).1 ⟨hal s' hs', hQs⟩⟩
    · intro h
      have hnext : ∀ s', step s a = some s' → (P s' ∧ Q s a) ∧ Always step P s' as ∧ Along step Q s' as := by
        intro s' hs'
        obtain ⟨ha, h'⟩ := h s' hs'
        obtain ⟨hi', hiff⟩ := hstep s a s' hi hs hs'
        have hPQ := hiff.2 ha
        exact ⟨hPQ, (ih hi' hPQ.1).2 h'⟩
      exact ⟨fun s' hs' => (hnext s' hs').2.1, fun s' hs' => ⟨(hnext s' hs').1.2, (hnext s' hs').2.2⟩⟩

theorem always_iff_along (hinv : ∀ s a s', Inv s → step s a = some s' → Inv s')
    (hiff : ∀ s a s', Inv s → P s → step s a = some s' → (P s' ↔ ok s a)) {s : σ} {as : List α}
    (hi : Inv s) (hs : P s) : Always step P s as ↔ Along step ok s as := by
  have htrivial : ∀ {s : σ} {as : List α}, Along step (fun _ _ => True) s as := by
    intro s as
    induction as generalizing s with
    | nil => trivial
    | cons a as ih => exact fun s' _ => ⟨trivial, ih⟩
  have hboth : Always step P s as ∧ Along step (fun _ _ => True) s as ↔ Along step ok s as :=
    always_and_along_iff (fun s a s' hi hs hs' => ⟨hinv s a s' hi hs', by
      rw [and_iff_left trivial]
      exact hiff s a s' hi hs hs'⟩) hi hs
  rwa [and_iff_left htrivial] at hboth

/-- As `always_iff_along`, without an invariant and from any state. -/
theorem always_iff_and_along (hiff : ∀ s a s', P s → step s a = some s' → (P s' ↔ ok s a)) {s : σ} {as : List α} :
    Always step P s as ↔ P s ∧ Along step ok s as := by
  have hiff' : ∀ s a s', True → P s → step s a = some s' → (P s' ↔ ok s a) := fun s a s' _ => hiff s a s'
  constructor
  · intro h
    have hs : P s := h [] s List.nil_prefix rfl
    exact ⟨hs, (always_iff_along (fun _ _ _ _ _ => trivial) hiff' trivial hs).1 h⟩
  · rintro ⟨hs, h⟩
    exact (always_iff_along (fun _ _ _ _ _ => trivial) hiff' trivial hs).2 h

/-- As `always_iff_along`, for an invariant that only the steps meeting `ok` keep. -/
theorem always_iff_along_of_good
    (hstep : ∀ s a s', Inv s → P s → step s a = some s' → (ok s a → Inv s' ∧ P s') ∧ (P s' → ok s a))
    {s : σ} {as : List α} (hi : Inv s) (hs : P s) : Always step P s as ↔ Along step ok s as := by
  constructor
  · intro h
    induction as generalizing s with
    | nil => trivial
    | cons a as ih =>
      intro s' hs'
      have hP := ((always_cons.1 h).2 s' hs')
      have hP' : P s' := hP [] s' List.nil_prefix rfl
      obtain ⟨hkeep, hok⟩ := hstep s a s' hi hs hs'
      exact ⟨hok hP', ih (hkeep (hok hP')).1 hP' hP⟩
  · intro h
    have hboth : ∀ s a s', (Inv s ∧ P s) → ok s a → step s a = some s' → Inv s' ∧ P s' :=
      fun s a s' hgood ha hs' => (hstep s a s' hgood.1 hgood.2 hs').1 ha
    exact always_of_along hboth (fun _ hgood => hgood.2) ⟨hi, hs⟩ h

/-! ### Runs of actions that bring something down -/

section
variable {allowed : α → Prop} {μ : σ → ℕ} (hμ : ∀ s a s', allowed a → step s a = some s' → μ s' < μ s)
include hμ

theorem length_run_le {s t : σ} {as : List α} (h : run step s as = some t) (has : ∀ a ∈ as, allowed a) :
    as.length + μ t ≤ μ s := by
  induction as generalizing s with
  | nil => cases h; exact Nat.le_of_eq (Nat.zero_add _)
  | cons a as ih =>
    obtain ⟨s', hs', ht⟩ := run_cons.1 h
    have hlt := hμ s a s' (has a List.mem_cons_self) hs'
    have hle := ih ht fun b hb => has b (List.mem_cons_of_mem a hb)
    rw [List.length_cons]
    omega

/-- From every state some run goes on until nothing allowed is left. -/
theorem exists_maximal (s : σ) :
    ∃ as t, (∀ a ∈ as, allowed a) ∧ run step s as = some t ∧ ∀ a, allowed a → step t a = none := by
  induction hn : μ s using Nat.strong_induction_on generalizing s with
  | _ n ih =>
    by_cases hfinal : ∀ a, allowed a → step s a = none
    · exact ⟨[], s, fun a ha => absurd ha List.not_mem_nil, rfl, hfinal⟩
    · obtain ⟨a, ha⟩ := not_forall.1 hfinal
      obtain ⟨hallowed, hstep⟩ := Classical.not_imp.1 ha
      obtain ⟨s', hs'⟩ := Option.ne_none_iff_exists'.1 hstep
      obtain ⟨as, t, has, ht, hmax⟩ := ih (μ s') (hn ▸ hμ s a s' hallowed hs') s' rfl
      exact ⟨a :: as, t, List.forall_mem_cons.2 ⟨hallowed, has⟩, run_cons.2 ⟨s', hs', ht⟩, hmax⟩

end

/-! ### What a run shows -/

section
variable {β ρ : Type*} {astep : ρ → β → Option ρ} {obs : σ → α → List β}

/-- The steps of an abstract system that the actions of a run stand for. -/
def trace (step : σ → α → Option σ) (obs : σ → α → List β) : σ → List α → List β
  | _, [] => []
  | s, a :: as => obs s a ++ ((step s a).map fun s' => trace step obs s' as).getD []

theorem trace_cons {s s' : σ} {a : α} (as : List α) (h : step s a = some s') :
    trace step obs s (a :: as) = obs s a ++ trace step obs s' as := by
  rw [trace, h]
  rfl

/-- Where the abstract system can follow every step, it can follow a run. -/
theorem run_trace (R : σ → ρ → Prop)
    (hsim : ∀ s a s' r, R s r → step s a = some s' → ∃ r', run astep r (obs s a) = some r' ∧ R s' r')
    {s t : σ} {r : ρ} {as : List α} (hr : R s r) (h : run step s as = some t) :
    ∃ r', run astep r (trace step obs s as) = some r' ∧ R t r' := by
  induction as generalizing s r with
  | nil => cases h; exact ⟨r, rfl, hr⟩
  | cons a as ih =>
    obtain ⟨s', hs', ht⟩ := run_cons.1 h
    obtain ⟨r₁, hr₁, hR₁⟩ := hsim s a s' r hr hs'
    obtain ⟨r₂, hr₂, hR₂⟩ := ih hR₁ ht
    refine ⟨r₂, ?_, hR₂⟩
    rw [trace_cons as hs', run_append, hr₁, Option.bind_some]
    exact hr₂

end

/-! ### Runs of a total step function -/

theorem run_total (f : σ → α → σ) (s : σ) (as : List α) : run (fun s a => some (f s a)) s as = some (as.foldl f s) := by
  induction as generalizing s with
  | nil => rfl
  | cons a as ih => exact ih (f s a)

theorem inv_foldl (f : σ → α → σ) (Inv : σ → Prop) (hinv : ∀ s a, Inv s → Inv (f s a)) {s : σ}
    (hs : Inv s) (as : List α) : Inv (as.foldl f s) := by
  induction as generalizing s with
  | nil => exact hs
  | cons a as ih => exact ih (hinv s a hs)

/-- What can only begin, and begins exactly at the actions `Q`, holds after a run if it held before or
some action of the run was a `Q`. -/
theorem foldl_iff_exists (f : σ → α → σ) (Inv P : σ → Prop) (Q : σ → α → Prop)
    (hinv : ∀ s a, Inv s → Inv (f s a))
    (hstep : ∀ s a, Inv s → (P (f s a) ↔ P s ∨ Q s a)) {s : σ} (hs : Inv s) (as : List α) :
    P (as.foldl f s) ↔ P s ∨ ∃ pre a post, as = pre ++ a :: post ∧ Q (pre.foldl f s) a := by
  induction as generalizing s with
  | nil => simp
  | cons a as ih =>
    rw [List.foldl_cons, ih (hinv s a hs), hstep s a hs, or_assoc]
    refine or_congr_right ?_
    constructor
    · rintro (h | ⟨pre, b, post, rfl, h⟩)
      · exact ⟨[], a, as, rfl, h⟩
      · exact ⟨a :: pre, b, post, rfl, h⟩
    · rintro ⟨pre, b, post, h, hQ⟩
      cases pre with
      | nil =>
        obtain ⟨rfl, rfl⟩ := List.cons.inj h
        exact .inl hQ
      | cons c pre =>
        obtain ⟨rfl, rfl⟩ := List.cons.inj h
        exact .inr ⟨pre, b, post, rfl, hQ⟩

/-- What holds after a run has held from its start on, or since an action of it that began it. -/
theorem foldl_since (f : σ → α → σ) (P : σ → Prop) (Q : σ → α → Prop) (hstep : ∀ s a, P (f s a) → P s ∨ Q s a)
    {s : σ} {as : List α} (h : P (as.foldl f s)) :
    (∀ bs, bs <+: as → P (bs.foldl f s)) ∨
      ∃ pre a mid, as = pre ++ a :: mid ∧ Q (pre.foldl f s) a ∧
        ∀ bs, bs <+: mid → P (bs.foldl f (f (pre.foldl f s) a)) := by
  induction as using List.reverseRecOn with
  | nil =>
    refine .inl fun bs hbs => ?_
    obtain rfl := List.prefix_nil.1 hbs
    exact h
  | append_singleton as a ih =>
    rw [List.foldl_concat] at h
    rcases hstep _ a h with hbefore | hbegun
    · rcases ih hbefore with hall | ⟨pre, b, mid, rfl, hQ, hall⟩
      · refine .inl fun bs hbs => ?_
        rcases List.prefix_concat_iff.1 hbs with rfl | hbs
        · rwa [List.foldl_concat]
        · exact hall bs hbs
      · refine .inr ⟨pre, b, mid ++ [a], by rw [List.append_assoc, List.cons_append], hQ, fun bs hbs => ?_⟩
        rcases List.prefix_concat_iff.1 hbs with rfl | hbs
        · rw [List.foldl_append, List.foldl_cons] at h
          rwa [List.foldl_concat]
        · exact hall bs hbs
    · refine .inr ⟨as, a, [], rfl, hbegun, fun bs hbs => ?_⟩
      obtain rfl := List.prefix_nil.1 hbs
      exact h

end Runs
