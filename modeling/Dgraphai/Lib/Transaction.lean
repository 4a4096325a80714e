import Mathlib.Order.Defs.Unbundled
import Mathlib.Tactic.SplitIfs

/-!
# Request bodies in a transaction

A request body reads and writes a session over the state `σ` and may raise after it has written.
`exec` is the scope around it: commit on a normal return, roll back on a raised error. So a request
that raises leaves no trace (`exec_cases`), whatever its body wrote before.
-/

def Txn (σ ε α : Type) := σ → Except ε α × σ

namespace Txn

variable {σ ε α β : Type}

instance : Monad (Txn σ ε) where
  pure a := fun s => (.ok a, s)
  bind m f := fun s =>
    match m s with
    | (.ok a, s') => f a s'
    | (.error e, s') => (.error e, s')

def raise (e : ε) : Txn σ ε α := fun s => (.error e, s)

/-- `if c: raise e`. -/
def raiseIf (c : Prop) [Decidable c] (e : ε) : Txn σ ε Unit := if c then raise e else pure ()

def read (f : σ → α) : Txn σ ε α := fun s => (.ok (f s), s)

def write (f : σ → σ) : Txn σ ε Unit := fun s => (.ok (), f s)

/-- The value of a fallible computation. -/
def ofOption (e : ε) : Option α → Txn σ ε α
  | some a => pure a
  | none => raise e

theorem ofOption_some (e : ε) (a : α) : (ofOption e (some a) : Txn σ ε α) = pure a := rfl

/-- `try: m except e: raise f e`. -/
def mapErr {ε' : Type} (f : ε → ε') (m : Txn σ ε α) : Txn σ ε' α := fun s =>
  match m s with
  | (.ok a, s') => (.ok a, s')
  | (.error e, s') => (.error (f e), s')

/-- A body over a part of the state. -/
def zoom {τ : Type} (get : τ → σ) (set : τ → σ → τ) (m : Txn σ ε α) : Txn τ ε α := fun t =>
  ((m (get t)).1, set t (m (get t)).2)

/-- Commit or roll back. -/
def exec (m : Txn σ ε α) (s : σ) : Except ε α × σ :=
  match m s with
  | (.ok a, s') => (.ok a, s')
  | (.error e, _) => (.error e, s)

/-- What the body returns, if it returns. -/
def value? (m : Txn σ ε α) (s : σ) : Option α := (m s).1.toOption

/-! ### Sequencing -/

theorem pure_bind (a : α) (f : α → Txn σ ε β) : (pure a : Txn σ ε α) >>= f = f a := rfl

theorem bind_assoc {γ : Type} (m : Txn σ ε α) (f : α → Txn σ ε β) (g : β → Txn σ ε γ) :
    m >>= f >>= g = m >>= fun a => f a >>= g := by
  funext s
  show (match (match m s with | (.ok a, s') => f a s' | (.error e, s') => (.error e, s')) with
    | (.ok b, s') => g b s' | (.error e, s') => (.error e, s')) = _
  rcases h : m s with ⟨e | a, s'⟩
  · show _ = match m s with | (.ok a, s') => (f a >>= g) s' | (.error e, s') => (.error e, s')
    rw [h]
  · show _ = match m s with | (.ok a, s') => (f a >>= g) s' | (.error e, s') => (.error e, s')
    rw [h]
    rfl

/-! ### When a body returns normally -/

variable {m : Txn σ ε α} {f : α → Txn σ ε β} {s t : σ} {a : α} {b : β} {e : ε}

theorem bind_eq_ok :
    (m >>= f) s = (.ok b, t) ↔ ∃ a s', m s = (.ok a, s') ∧ f a s' = (.ok b, t) := by
  show (match m s with | (.ok a, s') => f a s' | (.error e, s') => (.error e, s')) = _ ↔ _
  rcases m s with ⟨e | a, s'⟩
  · simp
  · constructor
    · intro h; exact ⟨a, s', rfl, h⟩
    · rintro ⟨a', t', h, h'⟩
      cases h
      exact h'

@[simp] theorem pure_eq_ok {a' : α} : (pure a : Txn σ ε α) s = (.ok a', t) ↔ a = a' ∧ s = t := by
  show (Except.ok a, s) = _ ↔ _
  simp

@[simp] theorem raise_ne_ok : (raise e : Txn σ ε α) s ≠ (.ok a, t) := by simp [raise]

@[simp] theorem raiseIf_eq_ok {c : Prop} [Decidable c] {u : Unit} :
    (raiseIf c e : Txn σ ε Unit) s = (.ok u, t) ↔ ¬ c ∧ s = t := by
  unfold raiseIf
  split_ifs with hc <;> simp [hc]

@[simp] theorem read_eq_ok {g : σ → α} : (read g : Txn σ ε α) s = (.ok a, t) ↔ g s = a ∧ s = t := by
  simp [read]

@[simp] theorem write_eq_ok {g : σ → σ} {u : Unit} :
    (write g : Txn σ ε Unit) s = (.ok u, t) ↔ g s = t := by
  simp [write]

@[simp] theorem ofOption_eq_ok {o : Option α} :
    (ofOption e o : Txn σ ε α) s = (.ok a, t) ↔ o = some a ∧ s = t := by
  cases o with
  | none => simp [ofOption]
  | some b => rw [ofOption, pure_eq_ok, Option.some.injEq]

@[simp] theorem mapErr_eq_ok {ε' : Type} {g : ε → ε'} : mapErr g m s = (.ok a, t) ↔ m s = (.ok a, t) := by
  unfold mapErr
  rcases m s with ⟨e | a', s'⟩ <;> simp

@[simp] theorem read_bind_eq_ok {g : σ → α} :
    (read g >>= f) s = (.ok b, t) ↔ f (g s) s = (.ok b, t) := Iff.rfl

@[simp] theorem write_bind_eq_ok {g : σ → σ} {f : Unit → Txn σ ε β} :
    (write g >>= f) s = (.ok b, t) ↔ f () (g s) = (.ok b, t) := Iff.rfl

@[simp] theorem raiseIf_bind_eq_ok {c : Prop} [Decidable c] {f : Unit → Txn σ ε β} :
    (raiseIf c e >>= f) s = (.ok b, t) ↔ ¬ c ∧ f () s = (.ok b, t) := by
  rw [bind_eq_ok]
  constructor
  · rintro ⟨u, s', h, h'⟩
    obtain ⟨hc, rfl⟩ := raiseIf_eq_ok.1 h
    exact ⟨hc, h'⟩
  · rintro ⟨hc, h'⟩
    exact ⟨(), s, raiseIf_eq_ok.2 ⟨hc, rfl⟩, h'⟩

@[simp] theorem ofOption_bind_eq_ok {o : Option α} :
    (ofOption e o >>= f) s = (.ok b, t) ↔ ∃ a, o = some a ∧ f a s = (.ok b, t) := by
  rw [bind_eq_ok]
  constructor
  · rintro ⟨a, s', h, h'⟩
    obtain ⟨ho, rfl⟩ := ofOption_eq_ok.1 h
    exact ⟨a, ho, h'⟩
  · rintro ⟨a, ho, h'⟩
    exact ⟨a, s, ofOption_eq_ok.2 ⟨ho, rfl⟩, h'⟩

theorem zoom_eq_ok {τ : Type} {get : τ → σ} {set : τ → σ → τ} {t t' : τ} :
    zoom get set m t = (.ok a, t') ↔ ∃ s', m (get t) = (.ok a, s') ∧ set t s' = t' := by
  unfold zoom
  rcases m (get t) with ⟨e | a', s'⟩
  · simp
  · simp only [Prod.mk.injEq, Except.ok.injEq]
    constructor
    · rintro ⟨rfl, rfl⟩
      exact ⟨s', ⟨rfl, rfl⟩, rfl⟩
    · rintro ⟨_, ⟨rfl, rfl⟩, rfl⟩
      exact ⟨rfl, rfl⟩

theorem ok_unique {a' : α} {t' : σ} (h : m s = (.ok a, t)) (h' : m s = (.ok a', t')) : a = a' ∧ t = t' := by
  have heq := h.symm.trans h'
  simpa using heq

theorem bind_of_ok (h : m s = (.ok a, t)) : (m >>= f) s = f a t := by
  show (match m s with | (.ok a, s') => f a s' | (.error e, s') => (.error e, s')) = _
  rw [h]

theorem value?_of_ok (h : m s = (.ok a, t)) : value? m s = some a := by
  rw [value?, h]
  rfl

/-! ### The scope -/

theorem exec_of_ok (h : m s = (.ok a, t)) : exec m s = (.ok a, t) := by
  rw [exec, h]

/-- A request either commits what its body did or leaves the state alone. -/
theorem exec_cases (m : Txn σ ε α) (s : σ) :
    (∃ a t, m s = (.ok a, t) ∧ exec m s = (.ok a, t)) ∨ ∃ e, exec m s = (.error e, s) := by
  unfold exec
  rcases m s with ⟨e | a, s'⟩
  · exact .inr ⟨e, rfl⟩
  · exact .inl ⟨a, s', rfl, rfl⟩

/-- As `exec_cases`, for the state alone. -/
theorem exec_state_cases (m : Txn σ ε α) (s : σ) :
    (∃ a, m s = (.ok a, (exec m s).2)) ∨ (exec m s).2 = s ∧ ∀ a t, m s ≠ (.ok a, t) := by
  unfold exec
  rcases m s with ⟨e | a, s'⟩
  · exact .inr ⟨rfl, fun a t h => by cases h⟩
  · exact .inl ⟨a, rfl⟩

/-- A property of the state is kept exactly if a body that goes through keeps it. -/
theorem exec_inv_iff {P : σ → Prop} (h : P s) : P (exec m s).2 ↔ ∀ a t, m s = (.ok a, t) → P t := by
  rcases exec_state_cases m s with ⟨a, hok⟩ | ⟨hsame, hraises⟩
  · constructor
    · intro hkept b t hb
      rwa [← (ok_unique hok hb).2]
    · exact fun hbody => hbody a _ hok
  · rw [hsame]
    exact iff_of_true h fun a t hok => absurd hok (hraises a t)

/-- A body whose value is not asked for. -/
theorem discard_eq_ok {u : Unit} : (m >>= fun _ => pure ()) s = (.ok u, t) ↔ ∃ a, m s = (.ok a, t) := by
  constructor
  · intro h
    obtain ⟨a, s', ha, hrest⟩ := bind_eq_ok.1 h
    obtain ⟨-, rfl⟩ := pure_eq_ok.1 hrest
    exact ⟨a, ha⟩
  · rintro ⟨a, ha⟩
    exact bind_eq_ok.2 ⟨a, t, ha, pure_eq_ok.2 ⟨rfl, rfl⟩⟩

/-! ### Where a body leads -/

/-- A body that goes through leads from a state to one that `R` relates it to. -/
def Leads (R : σ → σ → Prop) (m : Txn σ ε α) : Prop := ∀ s a t, m s = (.ok a, t) → R s t

section
variable {R : σ → σ → Prop}

theorem Leads.raise : Leads R (raise e : Txn σ ε α) := fun _ _ _ h => absurd h raise_ne_ok

theorem Leads.write {g : σ → σ} (h : ∀ s, R s (g s)) : Leads R (write g : Txn σ ε Unit) := by
  intro s u t hw
  obtain rfl := write_eq_ok.1 hw
  exact h s

theorem Leads.zoom {τ : Type} {get : τ → σ} {set : τ → σ → τ} {R' : τ → τ → Prop} (hm : Leads R m)
    (h : ∀ t s, R (get t) s → R' t (set t s)) : Leads R' (zoom get set m) := by
  intro t a t' hz
  obtain ⟨s', hs', rfl⟩ := zoom_eq_ok.1 hz
  exact h t s' (hm _ _ _ hs')

theorem Leads.bind [IsTrans σ R] (hm : Leads R m) (hf : ∀ a, Leads R (f a)) : Leads R (m >>= f) := by
  intro s b t h
  obtain ⟨a, s', ha, hb⟩ := bind_eq_ok.1 h
  exact IsTrans.trans s s' t (hm s a s' ha) (hf a s' b t hb)

variable [Std.Refl R]

theorem Leads.pure : Leads R (pure a : Txn σ ε α) := by
  intro s a' t h
  obtain ⟨-, rfl⟩ := pure_eq_ok.1 h
  exact Std.Refl.refl s

theorem Leads.read {g : σ → α} : Leads R (read g : Txn σ ε α) := by
  intro s a t h
  obtain ⟨-, rfl⟩ := read_eq_ok.1 h
  exact Std.Refl.refl s

theorem Leads.raiseIf {c : Prop} [Decidable c] : Leads R (raiseIf c e : Txn σ ε Unit) := by
  intro s u t h
  obtain ⟨-, rfl⟩ := raiseIf_eq_ok.1 h
  exact Std.Refl.refl s

theorem Leads.ofOption {o : Option α} : Leads R (ofOption e o : Txn σ ε α) := by
  intro s a t h
  obtain ⟨-, rfl⟩ := ofOption_eq_ok.1 h
  exact Std.Refl.refl s

theorem Leads.exec (hm : Leads R m) (s : σ) : R s (exec m s).2 :=
  (exec_inv_iff (Std.Refl.refl s)).2 fun a t h => hm s a t h

end

end Txn
