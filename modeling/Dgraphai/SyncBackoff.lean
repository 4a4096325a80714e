import Dgraphai.Lib.Binary64
import Dgraphai.SyncConfig

/-!
# The delays of the sync loop (`internal/sync/syncer.go`)

`Run` doubles its delay after a `sync` that fails and cuts the double off at thirty minutes, whatever the interval is.
The delays are bounded and never shrink while the syncs fail exactly for intervals up to that cut (`backsOff_iff`).
-/

namespace Dgraphai.Proxy

/-! ### The loop -/

/-- `time.Duration(math.Min(float64(backoff*2), float64(maxBackoff)))` on an `int64`; the floats are integers of that
range, none of them a NaN or a negative zero. -/
def minBackoff (backoff : ℤ) : ℤ :=
  min (Binary64.ofInt (Int.bmod (backoff * 2) (2 ^ 64))) (Binary64.ofInt maxBackoff)

/-- A tick: whether `sync` returned without an error, the delay before it and the one `Reset` is called with. -/
structure Tick where
  ok : Bool
  before : ℤ
  set : ℤ
  deriving DecidableEq, Repr

/-- The ticks of `Run`; `Reset` panics unless the delay is positive. -/
def ticksFrom (interval : ℤ) : ℤ → List Bool → List Tick
  | _, [] => []
  | backoff, ok :: oks =>
    let next := if ok then interval else minBackoff backoff
    ⟨ok, backoff, next⟩ :: if 0 < next then ticksFrom interval next oks else []

def ticks (interval : ℤ) (oks : List Bool) : List Tick := ticksFrom interval interval oks

structure Tick.BacksOff (interval : ℤ) (t : Tick) : Prop where
  failed : t.ok = false → 0 < t.set ∧ t.before ≤ t.set ∧ t.set ≤ max maxBackoff interval
  succeeded : t.ok = true → t.set = interval

/-- Every tick sets a delay as it should. -/
def BacksOff (interval : ℤ) (oks : List Bool) : Prop := ∀ t ∈ ticks interval oks, t.BacksOff interval

variable {interval backoff : ℤ} {oks : List Bool}

/-! ### One delay -/

theorem ofInt_maxBackoff : Binary64.ofInt maxBackoff = maxBackoff := Binary64.ofInt_of_small (by decide)

theorem minBackoff_le (backoff : ℤ) : minBackoff backoff ≤ maxBackoff := by
  rw [minBackoff, ofInt_maxBackoff]
  exact min_le_right _ _

/-- The conversion back to an `int64` is exact. -/
theorem le_minBackoff (backoff : ℤ) : -2 ^ 63 ≤ minBackoff backoff := by
  have hbmod : -2 ^ 63 ≤ Int.bmod (backoff * 2) (2 ^ 64) := by
    have hle := Int.le_bmod (x := backoff * 2) (m := 2 ^ 64) (by decide)
    omega
  rw [minBackoff, ofInt_maxBackoff]
  exact le_min (Binary64.le_ofInt_of_int64 hbmod) (by decide)

/-- Unless the double is negative the floats change nothing. -/
theorem minBackoff_eq (h : 0 ≤ Int.bmod (backoff * 2) (2 ^ 64)) : minBackoff backoff = nextBackoff backoff := by
  rw [minBackoff, nextBackoff, ofInt_maxBackoff]
  by_cases hsmall : Int.bmod (backoff * 2) (2 ^ 64) < 2 ^ 53
  · rw [Binary64.ofInt_of_small (by rw [abs_of_nonneg h]; exact hsmall)]
  · have hmax : maxBackoff ≤ Int.bmod (backoff * 2) (2 ^ 64) := by
      have hlt : maxBackoff < 2 ^ 53 := by decide
      omega
    rw [min_eq_right hmax, min_eq_right (Binary64.le_ofInt (by decide) (by decide) hmax)]

theorem minBackoff_neg (h : Int.bmod (backoff * 2) (2 ^ 64) < 0) : minBackoff backoff < 0 ∧ nextBackoff backoff < 0 := by
  rw [minBackoff, nextBackoff]
  exact ⟨min_lt_of_left_lt (Binary64.ofInt_neg h), min_lt_of_left_lt h⟩

/-- Below the cut the delay doubles up to it. -/
theorem minBackoff_of_le (hpos : 0 < backoff) (hle : backoff ≤ maxBackoff) :
    minBackoff backoff = min (backoff * 2) maxBackoff := by
  have hmax : maxBackoff < 2 ^ 62 := by decide
  have hbmod : Int.bmod (backoff * 2) (2 ^ 64) = backoff * 2 := Int.bmod_eq_of_le (by omega) (by omega)
  rw [minBackoff_eq (by omega), nextBackoff, hbmod]

/-! ### Runs -/

/-- A tick is one of the loop, at the delay the ticks before it have left. -/
theorem ticksFrom_cons (interval backoff : ℤ) (ok : Bool) (oks : List Bool) {t : Tick} :
    t ∈ ticksFrom interval backoff (ok :: oks) ↔
      t = ⟨ok, backoff, if ok then interval else minBackoff backoff⟩ ∨
        0 < (if ok then interval else minBackoff backoff) ∧
          t ∈ ticksFrom interval (if ok then interval else minBackoff backoff) oks := by
  rw [ticksFrom, List.mem_cons]
  split_ifs with hok hpos hpos <;> simp [hpos]

theorem backsOff_of_le (hpos : 0 < interval) (hle : interval ≤ maxBackoff) :
    ∀ {oks : List Bool} {backoff : ℤ}, 0 < backoff → backoff ≤ maxBackoff →
      ∀ t ∈ ticksFrom interval backoff oks, t.BacksOff interval := by
  intro oks
  induction oks with
  | nil => intro backoff _ _ t ht; cases ht
  | cons ok oks ih =>
    intro backoff hbackoff hbackoff' t ht
    have hnext := minBackoff_of_le hbackoff hbackoff'
    rw [ticksFrom_cons] at ht
    cases ok with
    | true =>
      rcases ht with rfl | ⟨-, ht⟩
      · exact ⟨nofun, fun _ => rfl⟩
      · exact ih hpos hle t ht
    | false =>
      rcases ht with rfl | ⟨hnew, ht⟩
      · refine ⟨fun _ => ?_, nofun⟩
        show 0 < minBackoff backoff ∧ backoff ≤ minBackoff backoff ∧ minBackoff backoff ≤ max maxBackoff interval
        omega
      · exact ih hnew (minBackoff_le backoff) t ht

/-- A success sets the interval, whatever the delay was. -/
theorem backsOff_of_succeeding (h : false ∉ oks) :
    ∀ {backoff : ℤ}, ∀ t ∈ ticksFrom interval backoff oks, t.BacksOff interval := by
  induction oks with
  | nil => intro backoff t ht; cases ht
  | cons ok oks ih =>
    intro backoff t ht
    obtain ⟨hok, hoks⟩ := not_or.1 (mt List.mem_cons.2 h)
    rw [Bool.false_eq, Bool.not_eq_false] at hok
    rw [ticksFrom_cons, hok] at ht
    rcases ht with rfl | ⟨-, ht⟩
    · exact ⟨nofun, fun _ => rfl⟩
    · exact ih hoks t ht

/-- Above the cut the first failure shrinks the delay, or makes it negative. -/
theorem not_backsOff (hpos : 0 < interval) (hlt : maxBackoff < interval) (h : false ∈ oks) :
    ¬ BacksOff interval oks := by
  intro hall
  have hle := minBackoff_le interval
  induction oks with
  | nil => cases h
  | cons ok oks ih =>
    cases ok with
    | false =>
      have htick := hall ⟨false, interval, minBackoff interval⟩ ((ticksFrom_cons ..).2 (.inl rfl))
      have hgrows : interval ≤ minBackoff interval := (htick.failed rfl).2.1
      omega
    | true =>
      refine ih ((List.mem_cons.1 h).resolve_left nofun) fun t ht => ?_
      exact hall t ((ticksFrom_cons ..).2 (.inr ⟨hpos, ht⟩))

/-- The delays of the loop are as they should be exactly if no sync fails, or the interval is within the cut. -/
theorem backsOff_iff (interval : ℤ) (hpos : 0 < interval) (oks : List Bool) :
    BacksOff interval oks ↔ interval ≤ maxBackoff ∨ false ∉ oks := by
  constructor
  · intro h
    by_contra hnot
    obtain ⟨hlt, hfails⟩ := not_or.1 hnot
    exact not_backsOff hpos (not_le.1 hlt) (not_not.1 hfails) h
  · rintro (hle | hsucceeds)
    · exact backsOff_of_le hpos hle hpos hle
    · exact backsOff_of_succeeding hsucceeds

theorem backsOff_fiveMinutes : BacksOff (5 * 60 * 1000000000) [false, false, false, true] :=
  (backsOff_iff (5 * 60 * 1000000000) (by decide) _).2 (.inl (by decide))

/-- With an interval of an hour the first failure makes the loop retry after half an hour. -/
theorem hour_shrinks : ¬ ∀ interval : ℤ, 0 < interval → ∀ oks, BacksOff interval oks := fun h =>
  not_backsOff (by decide) (by decide) (List.mem_singleton_self false) (h (60 * 60 * 1000000000) (by decide) [false])

/-! ### Panics -/

theorem bind_ticker_iff {d : ℤ} {rest : Option Unit} :
    ((ticker d).bind fun _ => rest) = some () ↔ 0 < d ∧ rest = some () := by
  rw [ticker]
  split_ifs with hpos <;> simp [hpos]

/-- `Run` goes through all its ticks exactly if no delay is set that `Reset` refuses. -/
theorem runTicks_iff (interval backoff : ℤ) (oks : List Bool) :
    runTicks interval backoff oks = some () ↔ ∀ t ∈ ticksFrom interval backoff oks, 0 < t.set := by
  induction oks generalizing backoff with
  | nil => exact iff_of_true rfl (by simp [ticksFrom])
  | cons ok oks ih =>
    -- both loops set the same delay, or one that is refused
    have hset : (if ok then interval else nextBackoff backoff) = (if ok then interval else minBackoff backoff) ∨
        ¬ 0 < (if ok then interval else nextBackoff backoff) ∧ ¬ 0 < (if ok then interval else minBackoff backoff) := by
      by_cases hneg : Int.bmod (backoff * 2) (2 ^ 64) < 0
      · obtain ⟨hmin, hnext⟩ := minBackoff_neg hneg
        cases ok
        · exact .inr ⟨by simp; omega, by simp; omega⟩
        · exact .inl rfl
      · exact .inl (by rw [minBackoff_eq (not_lt.1 hneg)])
    simp only [runTicks, ticksFrom_cons, bind_ticker_iff, ih]
    rcases hset with hset | ⟨hnext, hmin⟩
    · rw [hset]
      constructor
      · rintro ⟨hpos, hrest⟩ t (rfl | ⟨-, ht⟩)
        · exact hpos
        · exact hrest t ht
      · intro hall
        have hpos := hall _ (.inl rfl)
        exact ⟨hpos, fun t ht => hall t (.inr ⟨hpos, ht⟩)⟩
    · exact iff_of_false (fun h => hnext h.1) fun hall => hmin (hall _ (.inl rfl))

end Dgraphai.Proxy
