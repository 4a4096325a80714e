import Mathlib.Algebra.Order.Ring.Int
import Mathlib.Data.Nat.Size
import Mathlib.Tactic.Ring

/-!
# Integers as binary64 numbers

`ofInt n` is the binary64 number nearest to the integer `n`, which is an integer again; of two that are equally near
it is the one with the even mantissa. Integers of at most 53 bits stay as they are (`ofInt_of_small`), and no integer
passes one of these when it is rounded (`le_ofInt`).
-/

namespace Binary64

/-- `n / 2 ^ k` to the nearest integer, ties to even. -/
def halfEven (n k : ℕ) : ℕ :=
  if 2 * (n % 2 ^ k) < 2 ^ k then n / 2 ^ k
  else if 2 ^ k < 2 * (n % 2 ^ k) then n / 2 ^ k + 1
  else n / 2 ^ k + n / 2 ^ k % 2

/-- The bits that do not fit the mantissa. -/
def excess (n : ℕ) : ℕ := n.size - 53

def ofNat (n : ℕ) : ℕ := halfEven n (excess n) * 2 ^ excess n

def ofInt (n : ℤ) : ℤ := if n < 0 then -(ofNat n.natAbs : ℤ) else ofNat n.natAbs

variable {n k j : ℕ}

theorem halfEven_zero (n : ℕ) : halfEven n 0 = n := by
  simp [halfEven, Nat.mod_one]

theorem le_halfEven (n k : ℕ) : n / 2 ^ k ≤ halfEven n k := by
  unfold halfEven
  split_ifs <;> omega

theorem halfEven_le (n k : ℕ) : halfEven n k ≤ n / 2 ^ k + 1 := by
  unfold halfEven
  split_ifs <;> omega

theorem excess_eq_zero (h : n < 2 ^ 53) : excess n = 0 := by
  have hsize : n.size ≤ 53 := Nat.size_le.2 h
  rw [excess]
  omega

theorem ofNat_of_small (h : n < 2 ^ 53) : ofNat n = n := by
  rw [ofNat, excess_eq_zero h, halfEven_zero, pow_zero, mul_one]

/-- The mantissa has all of its bits where some do not fit. -/
theorem le_ofNat (h : 2 ^ 53 ≤ n) : 2 ^ 53 ≤ ofNat n := by
  have hsize : 53 < n.size := Nat.lt_size.2 h
  have hle : 2 ^ (52 + excess n) ≤ n := by
    rw [← Nat.lt_size, excess]
    omega
  have hmantissa : 2 ^ 52 ≤ n / 2 ^ excess n := by
    rw [Nat.le_div_iff_mul_le (Nat.two_pow_pos _), ← pow_add]
    exact hle
  have hexcess : 2 ≤ 2 ^ excess n := by
    have hone : 1 ≤ excess n := by
      rw [excess]
      omega
    calc 2 = 2 ^ 1 := rfl
      _ ≤ 2 ^ excess n := Nat.pow_le_pow_right (by omega) hone
  calc 2 ^ 53 = 2 ^ 52 * 2 := rfl
    _ ≤ halfEven n (excess n) * 2 ^ excess n := Nat.mul_le_mul (hmantissa.trans (le_halfEven n _)) hexcess

theorem ofNat_le (hj : 53 ≤ j) (h : n ≤ 2 ^ j) : ofNat n ≤ 2 ^ j := by
  rcases h.lt_or_eq with hlt | rfl
  · have hsize : n.size ≤ j := Nat.size_le.2 hlt
    by_cases hsmall : n < 2 ^ 53
    · rw [ofNat_of_small hsmall]
      exact h
    · have hbits : 53 < n.size := Nat.lt_size.2 (Nat.le_of_not_lt hsmall)
      have hpow : 2 ^ 53 * 2 ^ excess n = 2 ^ n.size := by
        rw [← pow_add, excess]
        congr 1
        omega
      have hmantissa : n / 2 ^ excess n < 2 ^ 53 := by
        rw [Nat.div_lt_iff_lt_mul (Nat.two_pow_pos _), hpow]
        exact Nat.lt_size_self n
      calc ofNat n ≤ 2 ^ 53 * 2 ^ excess n :=
            Nat.mul_le_mul_right _ ((halfEven_le n _).trans hmantissa)
        _ = 2 ^ n.size := hpow
        _ ≤ 2 ^ j := Nat.pow_le_pow_right (by omega) hsize
  · have hexcess : excess (2 ^ j) ≤ j := by
      rw [excess, Nat.size_pow]
      omega
    have hmod : 2 ^ j % 2 ^ excess (2 ^ j) = 0 := Nat.mod_eq_zero_of_dvd (Nat.pow_dvd_pow 2 hexcess)
    have hexact : halfEven (2 ^ j) (excess (2 ^ j)) = 2 ^ j / 2 ^ excess (2 ^ j) := by
      rw [halfEven, hmod, if_pos (Nat.two_pow_pos _)]
    rw [ofNat, hexact, Nat.div_mul_cancel (Nat.pow_dvd_pow 2 hexcess)]

/-! ### Signed integers -/

variable {m i : ℤ}

theorem ofInt_of_small (h : |i| < 2 ^ 53) : ofInt i = i := by
  have hsmall : i.natAbs < 2 ^ 53 := by
    rw [Int.abs_eq_natAbs] at h
    omega
  rw [ofInt, ofNat_of_small hsmall]
  split_ifs <;> omega

theorem ofInt_neg (h : i < 0) : ofInt i < 0 := by
  rw [ofInt, if_pos h]
  by_cases hsmall : i.natAbs < 2 ^ 53
  · rw [ofNat_of_small hsmall]
    omega
  · have hle := le_ofNat (Nat.le_of_not_lt hsmall)
    omega

/-- A number of at most 53 bits is no more than what the integers from it on are rounded to. -/
theorem le_ofInt (hm : 0 ≤ m) (hm' : m < 2 ^ 53) (h : m ≤ i) : m ≤ ofInt i := by
  rw [ofInt, if_neg (by omega)]
  by_cases hsmall : i.natAbs < 2 ^ 53
  · rw [ofNat_of_small hsmall]
    omega
  · have hle := le_ofNat (Nat.le_of_not_lt hsmall)
    omega

theorem le_ofInt_of_int64 (h : -2 ^ 63 ≤ i) : -2 ^ 63 ≤ ofInt i := by
  rw [ofInt]
  split_ifs with hneg
  · have hle : ofNat i.natAbs ≤ 2 ^ 63 := ofNat_le (by omega) (by omega)
    omega
  · omega

end Binary64
