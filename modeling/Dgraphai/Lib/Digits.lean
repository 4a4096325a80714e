import Mathlib.Algebra.Order.Ring.Nat
import Mathlib.Data.List.Basic
import Mathlib.Order.Basic

/-!
# Decimal keys of a fixed width

Digit strings of one length are ordered as texts the way they are ordered as numbers.
-/

namespace Digits

theorem toNat_of_isDigit {c : Char} (h : c.isDigit) : '0'.toNat ≤ c.toNat ∧ c.toNat - '0'.toNat < 10 := by
  simp only [Char.isDigit, Bool.and_eq_true, decide_eq_true_eq] at h
  obtain ⟨h1, h2⟩ := h
  have h1 : 48 ≤ c.toNat := h1
  have h2 : c.toNat ≤ 57 := h2
  have h0 : '0'.toNat = 48 := rfl
  omega

theorem ofDigitChars_lt_pow {l : List Char} (h : ∀ c ∈ l, c.isDigit) :
    Nat.ofDigitChars 10 l 0 < 10 ^ l.length := by
  induction l with
  | nil => simp
  | cons c l ih =>
    have hc := (toNat_of_isDigit (h c (by simp))).2
    have hl := ih fun a ha => h a (by simp [ha])
    rw [Nat.ofDigitChars_cons, Nat.ofDigitChars_eq_ofDigitChars_zero, List.length_cons, Nat.pow_succ]
    have hmul : 10 ^ l.length * (10 * 0 + (c.toNat - '0'.toNat)) ≤ 10 ^ l.length * 9 :=
      Nat.mul_le_mul_left _ (by omega)
    omega

theorem lt_of_ofDigitChars_lt {l l' : List Char} (hlen : l.length = l'.length) (h : ∀ c ∈ l, c.isDigit)
    (h' : ∀ c ∈ l', c.isDigit) (hlt : Nat.ofDigitChars 10 l 0 < Nat.ofDigitChars 10 l' 0) : l < l' := by
  induction l generalizing l' with
  | nil =>
    obtain rfl : l' = [] := List.length_eq_zero_iff.1 hlen.symm
    exact absurd hlt (Nat.lt_irrefl _)
  | cons c l ih =>
    obtain _ | ⟨c', l'⟩ := l'
    · cases hlen
    have hlen : l.length = l'.length := Nat.succ.inj hlen
    have hc := toNat_of_isDigit (h c (by simp))
    have hc' := toNat_of_isDigit (h' c' (by simp))
    have hl := ofDigitChars_lt_pow fun a ha => h a (List.mem_cons_of_mem c ha)
    have hl' := ofDigitChars_lt_pow fun a ha => h' a (List.mem_cons_of_mem c' ha)
    rw [Nat.ofDigitChars_cons, Nat.ofDigitChars_cons, Nat.ofDigitChars_eq_ofDigitChars_zero,
      @Nat.ofDigitChars_eq_ofDigitChars_zero l', hlen] at hlt
    rw [hlen] at hl
    rw [List.cons_lt_cons_iff]
    rcases Nat.lt_trichotomy c.toNat c'.toNat with hcc | hcc | hcc
    · exact .inl hcc
    · -- equal first digits: the rest decides
      have hrest : Nat.ofDigitChars 10 l 0 < Nat.ofDigitChars 10 l' 0 := by
        rw [hcc] at hlt
        omega
      exact .inr ⟨Char.toNat_inj.1 hcc, ih hlen (fun a ha => h a (by simp [ha])) (fun a ha => h' a (by simp [ha])) hrest⟩
    · -- a greater first digit outweighs the rest
      have hmul : 10 ^ l'.length * (c'.toNat - '0'.toNat + 1) ≤ 10 ^ l'.length * (c.toNat - '0'.toNat) :=
        Nat.mul_le_mul_left _ (by omega)
      rw [Nat.mul_add, Nat.mul_one] at hmul
      simp only [Nat.mul_zero, Nat.zero_add] at hlt
      omega

end Digits
