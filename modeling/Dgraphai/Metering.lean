import Mathlib.Algebra.Order.Field.Rat
import Mathlib.Data.List.Sort
import Mathlib.Tactic.GCongr
import Mathlib.Tactic.Linarith
import Mathlib.Tactic.NormNum
import Mathlib.Tactic.Positivity
import Mathlib.Tactic.Ring

/-!
# Usage metering (`licensing/metering.py`)

What a snapshot of a tenant's usage costs under a plan, with exact rationals for the floats of the code. A plan
names what is included in its base fee, but no line of a bill looks at it (`honoured_iff`); a bill grows with the
usage as long as the volume discount stays the same (`total_le_total`).
-/

namespace Dgraphai.Metering

/-! ### Plans -/

inductive Tier where
  | standard | enrichable | aiEnriched | identity | graphEdges
  deriving DecidableEq, Repr

/-- `TIER_RATES`, per 1,000 units. -/
def tierRates : Tier → ℚ
  | .standard => 1 / 10
  | .enrichable => 4 / 10
  | .aiEnriched => 12 / 10
  | .identity => 5
  | .graphEdges => 2 / 10

structure BillingPlan where
  id : String
  name : String
  baseMonthlyFee : ℚ
  includedStandardNodes : ℤ
  includedEnrichableNodes : ℤ
  includedAiEnrichedNodes : ℤ
  includedRelationships : ℤ
  /-- Node counts with the discount from there on, in percent. -/
  volumeDiscountTiers : List (ℤ × ℚ)
  deriving DecidableEq, Repr

namespace BillingPlan
variable (plan : BillingPlan)

/-- `sorted(self.volume_discount_tiers, reverse=True)`. -/
def sortedTiers : List (ℤ × ℚ) :=
  plan.volumeDiscountTiers.insertionSort fun a b => b.1 < a.1 ∨ b.1 = a.1 ∧ b.2 ≤ a.2

def volumeDiscountPct (totalNodes : ℤ) : ℚ :=
  match plan.sortedTiers.find? fun tier => tier.1 ≤ totalNodes with
  | some tier => tier.2
  | none => 0

end BillingPlan

def starter : BillingPlan := ⟨"starter", "Starter", 0, 50000, 10000, 0, 100000, []⟩

def pro : BillingPlan :=
  ⟨"pro", "Pro", 299, 500000, 200000, 50000, 2000000, [(1000000, 10), (5000000, 15)]⟩

def business : BillingPlan :=
  ⟨"business", "Business", 999, 5000000, 2000000, 500000, 20000000,
    [(5000000, 15), (20000000, 20), (50000000, 25)]⟩

/-- `-1` is unlimited. -/
def enterprise : BillingPlan :=
  ⟨"enterprise", "Enterprise", 0, -1, -1, -1, -1, [(10000000, 20), (50000000, 30), (100000000, 40)]⟩

def plans : List BillingPlan := [starter, pro, business, enterprise]

/-! ### Bills -/

/-- The counts of a snapshot that a bill reads. -/
structure UsageSnapshot where
  standardNodes : ℤ
  enrichableNodes : ℤ
  aiEnrichedNodes : ℤ
  identifiedPeople : ℤ
  unknownPeople : ℤ
  billedRelationships : ℤ
  deriving DecidableEq, Repr

namespace UsageSnapshot
variable (s t : UsageSnapshot)

def totalNodes : ℤ :=
  s.standardNodes + s.enrichableNodes + s.aiEnrichedNodes + s.identifiedPeople + s.unknownPeople

/-- No count of `s` is larger. -/
structure Le : Prop where
  standard : s.standardNodes ≤ t.standardNodes
  enrichable : s.enrichableNodes ≤ t.enrichableNodes
  aiEnriched : s.aiEnrichedNodes ≤ t.aiEnrichedNodes
  identified : s.identifiedPeople ≤ t.identifiedPeople
  unknown : s.unknownPeople ≤ t.unknownPeople
  relationships : s.billedRelationships ≤ t.billedRelationships

end UsageSnapshot

structure CostBreakdown where
  standardCost : ℚ
  enrichableCost : ℚ
  aiEnrichedCost : ℚ
  identityCost : ℚ
  graphEdgeCost : ℚ
  platformFee : ℚ
  discountPct : ℚ
  discountReason : String
  deriving DecidableEq, Repr

/-- The decimal digits with a comma before every group of three, last digit first. -/
def groupDigits : List Char → List Char
  | a :: b :: c :: d :: rest => a :: b :: c :: ',' :: groupDigits (d :: rest)
  | digits => digits

/-- `f"{n:,}"`. -/
def withCommas (n : ℤ) : String :=
  (if n < 0 then "-" else "") ++ String.ofList (groupDigits (Nat.toDigits 10 n.natAbs).reverse).reverse

namespace CostBreakdown
variable (b : CostBreakdown)

def subtotal : ℚ :=
  b.standardCost + b.enrichableCost + b.aiEnrichedCost + b.identityCost + b.graphEdgeCost + b.platformFee

def total : ℚ := b.subtotal * (1 - b.discountPct / 100)

def perK (count : ℤ) (rate : ℚ) : ℚ := count / 1000 * rate

def fromSnapshot (snap : UsageSnapshot) (plan : BillingPlan) : CostBreakdown where
  standardCost := perK snap.standardNodes (tierRates .standard)
  enrichableCost := perK snap.enrichableNodes (tierRates .enrichable)
  aiEnrichedCost := perK snap.aiEnrichedNodes (tierRates .aiEnriched)
  identityCost := perK snap.identifiedPeople (tierRates .identity)
  graphEdgeCost := perK snap.billedRelationships (tierRates .graphEdges)
  platformFee := plan.baseMonthlyFee
  discountPct := plan.volumeDiscountPct snap.totalNodes
  discountReason :=
    if 0 < plan.volumeDiscountPct snap.totalNodes then s!"Volume discount ({withCommas snap.totalNodes} nodes)"
    else ""

end CostBreakdown

/-! ### Included allowances -/

/-- The lines of a bill for which a plan includes an allowance. -/
inductive Line where
  | standard | enrichable | aiEnriched | relationships
  deriving DecidableEq, Repr

namespace Line

def tier : Line → Tier
  | .standard => .standard
  | .enrichable => .enrichable
  | .aiEnriched => .aiEnriched
  | .relationships => .graphEdges

def count (snap : UsageSnapshot) : Line → ℤ
  | .standard => snap.standardNodes
  | .enrichable => snap.enrichableNodes
  | .aiEnriched => snap.aiEnrichedNodes
  | .relationships => snap.billedRelationships

def included (plan : BillingPlan) : Line → ℤ
  | .standard => plan.includedStandardNodes
  | .enrichable => plan.includedEnrichableNodes
  | .aiEnriched => plan.includedAiEnrichedNodes
  | .relationships => plan.includedRelationships

def charge (b : CostBreakdown) : Line → ℚ
  | .standard => b.standardCost
  | .enrichable => b.enrichableCost
  | .aiEnriched => b.aiEnrichedCost
  | .relationships => b.graphEdgeCost

end Line

variable {plan : BillingPlan} {snap s t : UsageSnapshot} {line : Line}

/-- Only what exceeds the allowance is charged, nothing if the line is unlimited. -/
def Honoured (plan : BillingPlan) (snap : UsageSnapshot) (line : Line) : Prop :=
  (0 ≤ line.included plan → line.charge (.fromSnapshot snap plan) =
      tierRates line.tier * max 0 (line.count snap - line.included plan) / 1000) ∧
    (line.included plan = -1 → line.charge (.fromSnapshot snap plan) = 0)

theorem tierRates_pos (tier : Tier) : 0 < tierRates tier := by
  cases tier <;> norm_num [tierRates]

theorem charge_eq (plan : BillingPlan) (snap : UsageSnapshot) (line : Line) :
    line.charge (.fromSnapshot snap plan) = tierRates line.tier * line.count snap / 1000 := by
  cases line <;>
    simp only [Line.charge, CostBreakdown.fromSnapshot, CostBreakdown.perK, Line.tier, Line.count] <;> ring

/-- A line charges for another count than its own only where they agree. -/
theorem charge_eq_iff (plan : BillingPlan) (snap : UsageSnapshot) (line : Line) (n : ℤ) :
    line.charge (.fromSnapshot snap plan) = tierRates line.tier * n / 1000 ↔ line.count snap = n := by
  have hrate := (tierRates_pos line.tier).ne'
  rw [charge_eq, div_left_inj' (by norm_num), mul_right_inj' hrate, Int.cast_inj]

/-- A line honours the allowance exactly if there is nothing to charge for, or nothing included. -/
theorem honoured_iff (plan : BillingPlan) (snap : UsageSnapshot) (line : Line) :
    Honoured plan snap line ↔
      line.count snap = 0 ∨ line.included plan = 0 ∧ 0 ≤ line.count snap ∨ line.included plan < -1 := by
  have hzero := charge_eq_iff plan snap line 0
  have hexcess := charge_eq_iff plan snap line (max 0 (line.count snap - line.included plan))
  rw [Int.cast_zero, mul_zero, zero_div] at hzero
  rw [Honoured, hzero, hexcess]
  omega

/-- A thousand directories on the plan that includes fifty thousand. -/
theorem starter_not_honoured : ¬ ∀ plan snap line, Honoured plan snap line := by
  intro h
  have hcharge := (h starter ⟨1000, 0, 0, 0, 0, 0⟩ .standard).1 (by decide)
  revert hcharge
  decide +kernel

/-! ### Bills of growing usage -/

theorem CostBreakdown.perK_le {m n : ℤ} (h : m ≤ n) (tier : Tier) :
    perK m (tierRates tier) ≤ perK n (tierRates tier) := by
  have hrate := (tierRates_pos tier).le
  unfold perK
  gcongr

/-- Before the discount a bill grows with the usage. -/
theorem subtotal_le_subtotal (plan : BillingPlan) (h : s.Le t) :
    (CostBreakdown.fromSnapshot s plan).subtotal ≤ (CostBreakdown.fromSnapshot t plan).subtotal := by
  have h₁ := CostBreakdown.perK_le h.standard .standard
  have h₂ := CostBreakdown.perK_le h.enrichable .enrichable
  have h₃ := CostBreakdown.perK_le h.aiEnriched .aiEnriched
  have h₄ := CostBreakdown.perK_le h.identified .identity
  have h₅ := CostBreakdown.perK_le h.relationships .graphEdges
  unfold CostBreakdown.subtotal CostBreakdown.fromSnapshot
  dsimp only
  linarith

/-- No plan of the list gives more than forty percent. -/
theorem discount_le (hplan : plan ∈ plans) (n : ℤ) : plan.volumeDiscountPct n ≤ 40 := by
  have hall : ∀ plan ∈ plans, ∀ tier ∈ plan.sortedTiers, tier.2 ≤ 40 := by decide +kernel
  unfold BillingPlan.volumeDiscountPct
  split
  next tier hfind => exact hall plan hplan tier (List.mem_of_find?_eq_some hfind)
  next => norm_num

/-- A bill grows with the usage as long as the discount stays the same. Where it rises, the bill falls by no more
than the discount gives. -/
theorem total_le_total (hplan : plan ∈ plans) (h : s.Le t) :
    (plan.volumeDiscountPct s.totalNodes = plan.volumeDiscountPct t.totalNodes →
      (CostBreakdown.fromSnapshot s plan).total ≤ (CostBreakdown.fromSnapshot t plan).total) ∧
    (CostBreakdown.fromSnapshot s plan).total * (1 - plan.volumeDiscountPct t.totalNodes / 100) ≤
      (CostBreakdown.fromSnapshot t plan).total * (1 - plan.volumeDiscountPct s.totalNodes / 100) := by
  have hsub := subtotal_le_subtotal plan h
  have hs := discount_le hplan s.totalNodes
  have ht := discount_le hplan t.totalNodes
  have hs' : 0 ≤ 1 - plan.volumeDiscountPct s.totalNodes / 100 := by linarith
  have ht' : 0 ≤ 1 - plan.volumeDiscountPct t.totalNodes / 100 := by linarith
  have htotal : ∀ snap, (CostBreakdown.fromSnapshot snap plan).total =
      (CostBreakdown.fromSnapshot snap plan).subtotal * (1 - plan.volumeDiscountPct snap.totalNodes / 100) :=
    fun _ => rfl
  rw [htotal, htotal]
  constructor
  · intro hsame
    rw [hsame]
    gcongr
  · rw [mul_right_comm]
    gcongr

/-- One node more, and ten percent off. -/
theorem pro_not_monotone : ¬ ∀ plan ∈ plans, ∀ s t : UsageSnapshot, s.Le t →
    (CostBreakdown.fromSnapshot s plan).total ≤ (CostBreakdown.fromSnapshot t plan).total := by
  intro h
  have hle := h pro (.tail _ (.head _)) ⟨999999, 0, 0, 0, 0, 0⟩ ⟨1000000, 0, 0, 0, 0, 0⟩
    ⟨by decide, by decide, by decide, by decide, by decide, by decide⟩
  revert hle
  decide +kernel

theorem pro_monotone : (CostBreakdown.fromSnapshot ⟨0, 0, 0, 0, 0, 0⟩ pro).total ≤
    (CostBreakdown.fromSnapshot ⟨999999, 0, 0, 0, 0, 0⟩ pro).total := by
  refine (total_le_total (.tail _ (.head _)) ⟨by decide, by decide, by decide, by decide, by decide, by decide⟩).1 ?_
  decide +kernel

end Dgraphai.Metering
