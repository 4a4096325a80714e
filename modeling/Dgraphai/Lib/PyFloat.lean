import Mathlib.Algebra.Order.Ring.Nat
import Mathlib.Data.Prod.Lex
import Mathlib.Algebra.Order.Ring.Int
import Mathlib.Tactic.SplitIfs

/-!
# Python floats

Signs of binary64 numbers, read off the unpacked form: what is compared with zero, added, divided and taken the
maximum of. `log2` is `math.log2` over a logarithm of the positive finite numbers.
-/

namespace PyFloat

open Float.Model (UnpackedFloat Format)
open Float.Model.UnpackedFloat

/-- `math.log2`; `none` is a `ValueError`. -/
def log2 (logarithm : Float → Float) (x : Float) : Option Float :=
  if x.isNaN then some x
  else if 0 < x then some (if x.isFinite then logarithm x else x)
  else none

/-- `max(x, y)`: a later value is taken only where it is greater. -/
def max (x y : Float) : Float := if x < y then y else x

def unpacked (x : Float) : UnpackedFloat := x.toModel.unpack

/-- The sign is positive, or the value is a zero. -/
def nonneg : UnpackedFloat → Bool
  | .infinity .positive | .zero _ | .finite .positive .. => true
  | _ => false

def positive : UnpackedFloat → Bool
  | .infinity .positive | .finite .positive .. => true
  | _ => false

/-! ### Comparisons -/

theorem unpacked_zero : unpacked 0 = .zero .positive := rfl

theorem le_iff {x y : Float} : x ≤ y ↔ (unpacked x).le (unpacked y) = true := by
  show decide ((unpacked x).le (unpacked y) = true) = true ↔ _
  exact decide_eq_true_iff

theorem lt_iff {x y : Float} : x < y ↔ (unpacked x).lt (unpacked y) = true := by
  show decide ((unpacked x).lt (unpacked y) = true) = true ↔ _
  exact decide_eq_true_iff

theorem zero_le_iff {x : Float} : 0 ≤ x ↔ nonneg (unpacked x) = true := by
  rw [le_iff, unpacked_zero]
  rcases unpacked x with (_ | _) | _ | _ | ⟨_ | _, _, _, _⟩ <;> exact Iff.rfl

theorem zero_lt_iff {x : Float} : 0 < x ↔ positive (unpacked x) = true := by
  rw [lt_iff, unpacked_zero]
  rcases unpacked x with (_ | _) | _ | _ | ⟨_ | _, _, _, _⟩ <;> exact Iff.rfl

theorem isNaN_eq (x : Float) : x.isNaN = (unpacked x).isNaN := rfl

theorem isFinite_eq (x : Float) : x.isFinite = (unpacked x).isFinite := rfl

theorem isInf_eq (x : Float) : x.isInf = (unpacked x).isInf := rfl

/-! ### Packing -/

section
variable {spec : Format} {sign : Sign} {exponent : BitVec spec.exponentBits}
  {mantissa : BitVec spec.mantissaBitsWithoutImplicit} {b : BitVec spec.numBits}

theorem unpackSign_packComponents : unpackSign (packComponents spec sign exponent mantissa) = sign.toBitVec := by
  ext i hi
  have hpos : spec.mantissaBitsWithoutImplicit + spec.exponentBits + i - spec.mantissaBitsWithoutImplicit -
      spec.exponentBits = i := by omega
  show ((BitVec.extractLsb _ _ (sign.toBitVec ++ exponent ++ mantissa)).cast _)[i] = _
  simp only [BitVec.getElem_cast, BitVec.getElem_extract, BitVec.getLsbD_append]
  rw [if_neg (by omega), if_neg (by omega), hpos, BitVec.getLsbD_eq_getElem hi]

theorem ofBitVec_toBitVec : Sign.ofBitVec sign.toBitVec = sign := by
  cases sign <;> rfl

theorem zero_ne_neg_one (spec : Format) : (0 : BitVec spec.exponentBits) ≠ -1#_ := by
  simp [Nat.pos_iff_ne_zero.1 spec.he]

theorem ofNat_ne_neg_one {n : Nat} (h : ¬ 2 ^ spec.exponentBits ≤ n + 1) : BitVec.ofNat spec.exponentBits n ≠ -1#_ := by
  intro heq
  have hnat := congrArg BitVec.toNat heq
  rw [BitVec.neg_one_eq_allOnes, BitVec.toNat_ofNat, BitVec.toNat_allOnes, Nat.mod_eq_of_lt (by omega)] at hnat
  omega

/-- What has a positive sign and is no NaN reads back as nonnegative. -/
theorem nonneg_unpack (hsign : Sign.ofBitVec (unpackSign b) = .positive)
    (hnan : unpackExponent b = -1#_ → unpackMantissa b = 0#_) : nonneg (unpack spec b) = true := by
  by_cases hexp : unpackExponent b = -1#_
  · have heq : unpack spec b = .infinity (Sign.ofBitVec (unpackSign b)) := (if_pos hexp).trans (if_pos (hnan hexp))
    rw [heq, hsign]
    rfl
  by_cases hzero : unpackExponent b = 0#_
  · by_cases hmantissa : unpackMantissa b = 0#_
    · have heq : unpack spec b = .zero (Sign.ofBitVec (unpackSign b)) :=
        ((if_neg hexp).trans (if_pos hzero)).trans (dif_pos hmantissa)
      rw [heq]
      rfl
    · have heq : unpack spec b = .finite (Sign.ofBitVec (unpackSign b)) _ _ _ :=
        ((if_neg hexp).trans (if_pos hzero)).trans (dif_neg hmantissa)
      rw [heq, hsign]
      rfl
  · have heq : unpack spec b = .finite (Sign.ofBitVec (unpackSign b)) _ _ _ := (if_neg hexp).trans (if_neg hzero)
    rw [heq, hsign]
    rfl

theorem nonneg_unpack_packComponents (h : exponent = -1#_ → mantissa = 0) :
    nonneg (unpack spec (packComponents spec .positive exponent mantissa)) = true := by
  refine nonneg_unpack ?_ ?_
  · rw [unpackSign_packComponents, ofBitVec_toBitVec]
  · rw [unpackExponent_packComponents, unpackMantissa_packComponents]
    exact h

theorem unpack_packedZero : unpack spec (packedZero spec sign) = .zero sign := by
  have hexp : unpackExponent (packedZero spec sign) = 0#_ := unpackExponent_packComponents
  have hmantissa : unpackMantissa (packedZero spec sign) = 0#_ := unpackMantissa_packComponents
  have hne : unpackExponent (packedZero spec sign) ≠ -1#_ := hexp.trans_ne (zero_ne_neg_one spec)
  have heq : unpack spec (packedZero spec sign) = .zero (Sign.ofBitVec (unpackSign (packedZero spec sign))) :=
    ((if_neg hne).trans (if_pos hexp)).trans (dif_pos hmantissa)
  have hsign : unpackSign (packedZero spec sign) = sign.toBitVec := unpackSign_packComponents
  rw [heq, hsign, ofBitVec_toBitVec]

/-- Packing keeps the sign and makes no NaN. -/
theorem nonneg_unpack_pack {u : UnpackedFloat} (h : nonneg u = true) : nonneg (unpack spec (pack spec u)) = true := by
  rcases u with (_ | _) | _ | sign | ⟨_ | _, m, e, hm⟩
  · cases h
  · exact nonneg_unpack_packComponents fun _ => rfl
  · cases h
  · have heq : pack spec (.zero sign) = packedZero spec sign := rfl
    rw [heq, unpack_packedZero]
    rfl
  · cases h
  · by_cases hover : 2 ^ spec.exponentBits ≤ (e + spec.exponentBias + spec.mantissaBitsWithoutImplicit).toNat + 1
    · have heq : pack spec (.finite .positive m e hm) = packedInfinity spec .positive := if_pos hover
      rw [heq]
      exact nonneg_unpack_packComponents fun _ => rfl
    by_cases hnormal : m.log2 + 1 = spec.mantissaBits
    · have heq : pack spec (.finite .positive m e hm) = packComponents spec .positive _ (BitVec.ofNat _ m) :=
        (if_neg hover).trans (if_pos hnormal)
      rw [heq]
      exact nonneg_unpack_packComponents fun hexp => absurd hexp (ofNat_ne_neg_one hover)
    · have heq : pack spec (.finite .positive m e hm) = packComponents spec .positive 0#_ (BitVec.ofNat _ m) :=
        (if_neg hover).trans (if_neg hnormal)
      rw [heq]
      exact nonneg_unpack_packComponents fun hexp => absurd hexp (zero_ne_neg_one spec)

end

/-! ### Quotients and maxima -/

theorem unpacked_div (x y : Float) :
    unpacked (x / y) = unpack .binary64 (pack .binary64 ((unpacked x).div .binary64 (unpacked y))) := rfl

theorem nonneg_dite {c : Prop} [Decidable c] {u : c → UnpackedFloat} {v : ¬ c → UnpackedFloat}
    (hu : ∀ h, nonneg (u h) = true) (hv : ∀ h, nonneg (v h) = true) :
    nonneg (if h : c then u h else v h) = true := by
  by_cases h : c
  · rw [dif_pos h]
    exact hu h
  · rw [dif_neg h]
    exact hv h

theorem nonneg_roundWithAccuracy (spec : Format) (m : Nat) (e : Int) (acc : Accuracy) :
    nonneg (roundWithAccuracy spec .positive m e acc) = true :=
  nonneg_dite (fun _ => rfl) fun _ => rfl

theorem nonneg_cases {u : UnpackedFloat} (h : nonneg u = true) :
    u = .infinity .positive ∨ (∃ sign, u = .zero sign) ∨ ∃ m e hm, u = .finite .positive m e hm := by
  rcases u with (_ | _) | _ | sign | ⟨_ | _, m, e, hm⟩
  · cases h
  · exact .inl rfl
  · cases h
  · exact .inr (.inl ⟨sign, rfl⟩)
  · cases h
  · exact .inr (.inr ⟨m, e, hm, rfl⟩)

theorem positive_cases {u : UnpackedFloat} (h : positive u = true) :
    u = .infinity .positive ∨ ∃ m e hm, u = .finite .positive m e hm := by
  rcases u with (_ | _) | _ | sign | ⟨_ | _, m, e, hm⟩
  · cases h
  · exact .inl rfl
  · cases h
  · cases h
  · cases h
  · exact .inr ⟨m, e, hm, rfl⟩

theorem nonneg_div {spec : Format} {u v : UnpackedFloat} (hu : nonneg u = true) (hv : positive v = true)
    (hinf : ¬ (u.isInf = true ∧ v.isInf = true)) : nonneg (u.div spec v) = true := by
  rcases positive_cases hv with rfl | ⟨m', e', hm', rfl⟩
  · rcases nonneg_cases hu with rfl | ⟨sign, rfl⟩ | ⟨m, e, hm, rfl⟩
    · exact absurd ⟨rfl, rfl⟩ hinf
    · rfl
    · rfl
  · rcases nonneg_cases hu with rfl | ⟨sign, rfl⟩ | ⟨m, e, hm, rfl⟩
    · rfl
    · rfl
    · exact nonneg_roundWithAccuracy _ _ _ _

/-- A quotient of a nonnegative number by a positive one, which are not both infinite. -/
theorem div_nonneg {x y : Float} (hx : 0 ≤ x) (hy : 0 < y) (hinf : ¬ (x.isInf = true ∧ y.isInf = true)) :
    0 ≤ x / y := by
  rw [zero_le_iff] at hx ⊢
  rw [zero_lt_iff] at hy
  rw [unpacked_div]
  exact nonneg_unpack_pack (nonneg_div hx hy hinf)

/-- What is not below a positive number is one, or a NaN. -/
theorem positive_of_not_lt {u v : UnpackedFloat} (hv : positive v = true) (hu : u.isNaN = false)
    (h : ¬ u.lt v = true) : positive u = true := by
  rcases u with (_ | _) | _ | sign | ⟨_ | _, m, e, hm⟩
  · refine absurd ?_ h
    rcases positive_cases hv with rfl | ⟨m', e', hm', rfl⟩ <;> rfl
  · rfl
  · cases hu
  · refine absurd ?_ h
    rcases positive_cases hv with rfl | ⟨m', e', hm', rfl⟩ <;> rfl
  · refine absurd ?_ h
    rcases positive_cases hv with rfl | ⟨m', e', hm', rfl⟩ <;> rfl
  · rfl

theorem max_pos {x y : Float} (hx : x.isNaN = false) (hy : 0 < y) : 0 < max x y := by
  rw [max]
  split_ifs with hlt
  · exact hy
  · rw [zero_lt_iff] at hy ⊢
    rw [lt_iff] at hlt
    exact positive_of_not_lt hy hx hlt

theorem isInf_max {x y : Float} (h : (max x y).isInf = true) : x.isInf = true ∨ y.isInf = true := by
  rw [max] at h
  split_ifs at h
  · exact .inr h
  · exact .inl h

theorem isNaN_of_isFinite {x : Float} (h : x.isFinite = true) : x.isNaN = false := by
  rw [isFinite_eq] at h
  rw [isNaN_eq]
  rcases hu : unpacked x with _ | _ | _ | _ <;> rw [hu] at h
  · rfl
  · cases h
  · rfl
  · rfl

theorem isInf_of_isFinite {x : Float} (h : x.isFinite = true) : x.isInf = false := by
  rw [isFinite_eq] at h
  rw [isInf_eq]
  rcases hu : unpacked x with _ | _ | _ | _ <;> rw [hu] at h
  · cases h
  · rfl
  · rfl
  · rfl

theorem isNaN_of_pos {x : Float} (h : 0 < x) : x.isNaN = false := by
  rw [zero_lt_iff] at h
  rw [isNaN_eq]
  rcases positive_cases h with h | ⟨m, e, hm, h⟩ <;> rw [h] <;> rfl

theorem isNaN_of_nonneg {x : Float} (h : 0 ≤ x) : x.isNaN = false := by
  rw [zero_le_iff] at h
  rw [isNaN_eq]
  cases hx : unpacked x with
  | notANumber =>
    rw [hx] at h
    cases h
  | infinity | zero | finite => rfl

/-! ### The order of numbers -/

/-- A place in a linear order: by sign, then by exponent, then by mantissa. A NaN has none of its own. -/
def rank : UnpackedFloat → ℤ ×ₗ ℤ ×ₗ ℤ
  | .infinity .negative => toLex (-2, toLex (0, 0))
  | .finite .negative m e _ => toLex (-1, toLex (-e, -m))
  | .zero _ | .notANumber => toLex (0, toLex (0, 0))
  | .finite .positive m e _ => toLex (1, toLex (e, m))
  | .infinity .positive => toLex (2, toLex (0, 0))

theorem isLE_then_iff (e e' : ℤ) (m m' : ℕ) : ((compare e e').then (compare m m')).isLE = true ↔
    e < e' ∨ e = e' ∧ m ≤ m' := by
  rcases lt_trichotomy e e' with h | rfl | h
  · simp [compare_lt_iff_lt.2 h, h]
  · simp [Nat.isLE_compare]
  · simp [compare_gt_iff_gt.2 h, h.le, h.ne']

theorem isGE_then_iff (e e' : ℤ) (m m' : ℕ) : ((compare e e').then (compare m m')).isGE = true ↔
    e' < e ∨ e = e' ∧ m' ≤ m := by
  rcases lt_trichotomy e e' with h | rfl | h
  · simp [compare_lt_iff_lt.2 h, h.le, h.ne]
  · simp [Nat.isGE_compare]
  · simp [compare_gt_iff_gt.2 h, h]

theorem toLex_le_iff (a b c a' b' c' : ℤ) : toLex (a, toLex (b, c)) ≤ toLex (a', toLex (b', c')) ↔
    a < a' ∨ a = a' ∧ (b < b' ∨ b = b' ∧ c ≤ c') := by
  rw [Prod.Lex.toLex_le_toLex, Prod.Lex.toLex_le_toLex]

theorem le_iff_rank {u v : UnpackedFloat} (hu : u.isNaN = false) (hv : v.isNaN = false) :
    u.le v = true ↔ rank u ≤ rank v := by
  have hnum : u ≠ .notANumber := by
    rintro rfl
    cases hu
  have hnum' : v ≠ .notANumber := by
    rintro rfl
    cases hv
  rcases u with (_ | _) | _ | _ | ⟨_ | _, m, e, hm⟩ <;> rcases v with (_ | _) | _ | _ | ⟨_ | _, m', e', hm'⟩ <;> first
    | exact absurd rfl hnum
    | exact absurd rfl hnum'
    | refine Iff.trans ?_ (toLex_le_iff _ _ _ _ _ _).symm
  -- two finite numbers of one sign are compared by exponent and mantissa
  case finite.negative.finite.negative =>
    have hle := isGE_then_iff e e' m m'
    rw [← Ordering.isLE_swap] at hle
    refine Iff.trans hle ?_
    omega
  case finite.positive.finite.positive =>
    refine Iff.trans (isLE_then_iff e e' m m') ?_
    omega
  all_goals first
    | exact iff_of_true rfl (by omega)
    | exact iff_of_false Bool.false_ne_true (by omega)

/-- Where no number is a NaN, `≤` is the order of a linearly ordered set. -/
theorem le_iff_rank_le {x y : Float} (hx : x.isNaN = false) (hy : y.isNaN = false) :
    x ≤ y ↔ rank (unpacked x) ≤ rank (unpacked y) := by
  rw [le_iff]
  exact le_iff_rank hx hy

/-! ### The logarithm -/

variable {logarithm : Float → Float} {x : Float}

/-- `math.log2` returns for a number above zero, and passes a NaN on. -/
theorem log2_eq_none : log2 logarithm x = none ↔ x.isNaN = false ∧ ¬ 0 < x := by
  rw [log2]
  split_ifs with hnan hpos
  · exact iff_of_false (fun h => by cases h) fun h => Bool.false_ne_true (h.1.symm.trans hnan)
  · exact iff_of_false (fun h => by cases h) fun h => h.2 hpos
  · exact iff_of_true rfl ⟨Bool.eq_false_iff.2 hnan, hpos⟩

/-- The logarithm of a positive number is none, and infinite only for the infinity. -/
theorem log2_of_pos (hlog : ∀ x : Float, 0 < x → x.isFinite = true → (logarithm x).isFinite = true) (h : 0 < x) :
    ∃ y, log2 logarithm x = some y ∧ y.isNaN = false ∧ (y.isInf = true → x.isInf = true) := by
  rw [log2, if_neg (by rw [isNaN_of_pos h]; exact Bool.false_ne_true), if_pos h]
  refine ⟨_, rfl, ?_⟩
  split_ifs with hfin
  · have hlog := hlog x h hfin
    refine ⟨isNaN_of_isFinite hlog, fun hinf => ?_⟩
    rw [isInf_of_isFinite hlog] at hinf
    cases hinf
  · exact ⟨isNaN_of_pos h, id⟩

end PyFloat
