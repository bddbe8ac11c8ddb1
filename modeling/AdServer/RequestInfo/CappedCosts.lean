import AdServer.RequestInfo.RequestProfile
import Mathlib.Tactic.Linarith

/-!
# Costs that cap the publisher's revenue

A notice and an impression may bring a cost that caps the original revenue, or a share of it. The
caller and the evaluation work out the capped revenue each for itself: the commission is computed
from the one of the caller, what is stored is that of the evaluation.
-/

namespace AdServer.RequestInfo

def roundUp (dividend divisor : Int) : Int := -(-dividend / divisor)

/-- Of these values the library rounds down and up as the caller names it, to the last digit. -/
structure RevenueArithmetic.ExactOn (A : RevenueArithmetic) (P : Int → Prop) : Prop where
  one_pos : 0 < A.one
  mulCeil {left right : Int} : P left → P right →
    A.mulCeil left right = roundUp (left * right) A.one
  divFloor {dividend divisor : Int} : P dividend → 0 < divisor →
    A.divFloor dividend divisor = dividend * A.one / divisor
  divCeil {dividend divisor : Int} : P dividend → 0 < divisor →
    A.divCeil dividend divisor = roundUp (dividend * A.one) divisor

/-- Exact on more values where there is reason for it. -/
theorem RevenueArithmetic.ExactOn.extend {A : RevenueArithmetic} {P : Int → Prop} {reason : Prop}
    (exact_ : A.ExactOn P) (all : reason → A.ExactOn fun _ => True) :
    A.ExactOn fun value => P value ∨ reason where
  one_pos := exact_.one_pos
  mulCeil := by
    rintro left right (inside | more) (inside' | more')
    · exact exact_.mulCeil inside inside'
    · exact (all more').mulCeil trivial trivial
    · exact (all more).mulCeil trivial trivial
    · exact (all more).mulCeil trivial trivial
  divFloor := by
    rintro dividend divisor (inside | more) pos
    · exact exact_.divFloor inside pos
    · exact (all more).divFloor trivial pos
  divCeil := by
    rintro dividend divisor (inside | more) pos
    · exact exact_.divCeil inside pos
    · exact (all more).divCeil trivial pos

def RevenueArithmetic.rounding (one : Int) : RevenueArithmetic where
  one := one
  mulFloor left right := left * right / one
  mulCeil left right := roundUp (left * right) one
  div dividend divisor := dividend * one / divisor
  divFloor dividend divisor := dividend * one / divisor
  divCeil dividend divisor := roundUp (dividend * one) divisor

theorem exact_rounding {one : Int} {P : Int → Prop} (pos : 0 < one) :
    (RevenueArithmetic.rounding one).ExactOn P :=
  ⟨pos, fun _ _ => rfl, fun _ _ => rfl, fun _ _ => rfl⟩

section Rounding

variable {dividend divisor quotient : Int}

theorem roundUp_bounds (dividend : Int) (pos : 0 < divisor) :
    dividend ≤ roundUp dividend divisor * divisor ∧
      roundUp dividend divisor * divisor < dividend + divisor := by
  have below := Int.ediv_mul_le (-dividend) pos.ne'
  have above := Int.lt_ediv_add_one_mul_self (-dividend) pos
  rw [add_mul, one_mul] at above
  rw [roundUp, neg_mul]
  omega

theorem roundUp_nonneg (nonneg : 0 ≤ dividend) (pos : 0 < divisor) :
    0 ≤ roundUp dividend divisor := by
  obtain ⟨le_up, -⟩ := roundUp_bounds dividend pos
  exact nonneg_of_mul_nonneg_left (nonneg.trans le_up) pos

/-- Within a digit of a quotient are the quotients rounded down and up. -/
theorem within_digit_iff (pos : 0 < divisor) : |quotient * divisor - dividend| < divisor ↔
    quotient = dividend / divisor ∨ quotient = roundUp dividend divisor := by
  obtain ⟨le_up, up_lt⟩ := roundUp_bounds dividend pos
  have down_le := Int.ediv_mul_le dividend pos.ne'
  have lt_down := Int.lt_ediv_add_one_mul_self dividend pos
  rw [abs_lt]
  constructor
  · rintro ⟨above, below⟩
    by_cases le : quotient * divisor ≤ dividend
    · left
      refine le_antisymm ((Int.le_ediv_iff_mul_le pos).2 le) ?_
      refine Int.lt_add_one_iff.1 (lt_of_mul_lt_mul_right ?_ pos.le)
      linarith
    · right
      apply le_antisymm
      · refine Int.lt_add_one_iff.1 (lt_of_mul_lt_mul_right ?_ pos.le)
        linarith
      · refine Int.lt_add_one_iff.1 (lt_of_mul_lt_mul_right ?_ pos.le)
        linarith
  · rintro (rfl | rfl) <;> constructor <;> linarith

theorem roundUp_inj {one left right : Int} (pos : 0 < divisor) (le : divisor ≤ one)
    (same : roundUp (left * one) divisor = roundUp (right * one) divisor) : left = right := by
  obtain ⟨left_le, lt_left⟩ := roundUp_bounds (left * one) pos
  obtain ⟨right_le, lt_right⟩ := roundUp_bounds (right * one) pos
  rw [same] at left_le lt_left
  apply le_antisymm <;>
    refine Int.lt_add_one_iff.1 (lt_of_mul_lt_mul_right ?_ (pos.le.trans le)) <;>
    linarith

end Rounding

variable (A : RevenueArithmetic)

namespace RequestProfile

variable (profile : RequestProfile)

/-- The original revenue under the costs. -/
def leastCost : Int :=
  match profile.overridePubImpRevenue with
  | some cost => min profile.origPubRevenue.impression cost
  | none => profile.origPubRevenue.impression

/-- The capped cost, times one. -/
def cappedCost : Int :=
  if profile.impressionPubRevenueType = .share then
    profile.origPubRevenue.impression * profile.impressionImpRevenue.getD 0
  else profile.leastCost * A.one

/-- What the caller computes as the capped cost; a share is rounded up. -/
def passedCost : Int :=
  if profile.impressionPubRevenueType = .share then
    roundUp (profile.origPubRevenue.impression * profile.overridePubImpRevenue.getD 0) A.one
  else profile.leastCost

/-- The commission on an amount of the publisher. -/
def commissionOf (amount : Int) : Int :=
  A.divOrZero (A.mulCeil amount profile.pubCommission) (A.one - profile.pubCommission)

end RequestProfile

/-- The sums of the advertiser are kept; the publisher's revenue is the capped cost without the
cost coefficient, up to the last digit, and the commission is computed from it. -/
structure Consistent (profile after : RequestProfile) : Prop where
  advertiser : ∀ amount ∈ [Revenue.impression, Revenue.click, Revenue.action],
    amount after.advRevenue + amount after.deltaAdvRevenue =
      amount profile.advRevenue + amount profile.deltaAdvRevenue
  publisher : |after.pubRevenue.impression * (A.one + profile.pubCostCoef) - profile.cappedCost A| <
    A.one + profile.pubCostCoef
  commission : after.pubCommRevenue.impression = profile.commissionOf A after.pubRevenue.impression

/-- A share is taken for a cost, which changes nothing up to the last digit. The caller rounds the
quotient by the cost coefficient up and the evaluation rounds it down: there the roundings can
differ, and the commission has to be the same from both. -/
structure CostsAgree (profile : RequestProfile) : Prop where
  share : profile.impressionPubRevenueType = .share →
    let divisor := A.one + profile.pubCostCoef
    profile.leastCost * A.one / divisor = profile.cappedCost A / divisor ∨
      profile.leastCost * A.one / divisor = roundUp (profile.cappedCost A) divisor
  commission :
    let divisor := A.one + profile.pubCostCoef
    roundUp (roundUp (profile.passedCost A * A.one) divisor * profile.pubCommission) A.one =
      roundUp (profile.leastCost * A.one / divisor * profile.pubCommission) A.one

variable {A}

section Evaluated

variable {profile : RequestProfile}

theorem moved_to_delta (revenue before delta : Int) :
    revenue + (0 - (revenue - (before + delta))) = before + delta := by
  omega

section
variable (requestInfo : RequestInfo)

theorem evaluated_advRevenue :
    ∀ amount ∈ [Revenue.impression, Revenue.click, Revenue.action],
      amount (evalRevenuesOnImpressionFin A profile requestInfo).1.advRevenue +
          amount (evalRevenuesOnImpressionFin A profile requestInfo).1.deltaAdvRevenue =
        amount profile.advRevenue + amount profile.deltaAdvRevenue := by
  intro amount member
  simp only [List.mem_cons, List.not_mem_nil, or_false] at member
  rcases member with rfl | rfl | rfl <;> exact moved_to_delta _ _ _

theorem evaluated_pubRevenue {P : Int → Prop} (exact_ : A.ExactOn P) (cost : P profile.leastCost)
    (coef : 0 ≤ profile.pubCostCoef) :
    (evalRevenuesOnImpressionFin A profile requestInfo).1.pubRevenue.impression =
      profile.leastCost * A.one / (A.one + profile.pubCostCoef) := by
  rw [← exact_.divFloor cost (by linarith [exact_.one_pos])]
  change (profile.resPubRevenue A).impression = _
  rw [RequestProfile.resPubRevenue, RequestProfile.leastCost]
  cases profile.overridePubImpRevenue <;> rfl

theorem evaluated_pubCommRevenue {P : Int → Prop} (exact_ : A.ExactOn P)
    (revenue : P profile.origPubRevenue.impression) (share : P (profile.overridePubImpRevenue.getD 0))
    (cost : P (profile.passedCost A)) (coef : 0 ≤ profile.pubCostCoef) :
    (evalRevenuesOnImpressionFin A profile requestInfo).1.pubCommRevenue.impression =
      profile.commissionOf A
        (roundUp (profile.passedCost A * A.one) (A.one + profile.pubCostCoef)) := by
  rw [← exact_.divCeil cost (by linarith [exact_.one_pos]), RequestProfile.passedCost,
    ← exact_.mulCeil revenue share]
  rfl

end

/-- The costs that are capped and the caps. -/
def RequestProfile.costs (profile : RequestProfile) : List Int :=
  profile.origPubRevenue.impression :: profile.overridePubImpRevenue.toList

theorem costs_nonneg (one_pos : 0 < A.one) (nonneg : ∀ cost ∈ profile.costs, 0 ≤ cost) :
    0 ≤ profile.overridePubImpRevenue.getD 0 ∧ 0 ≤ profile.leastCost ∧
      0 ≤ profile.passedCost A := by
  obtain ⟨revenue, given⟩ := List.forall_mem_cons.1 nonneg
  have share : 0 ≤ profile.overridePubImpRevenue.getD 0 := by
    cases found : profile.overridePubImpRevenue with
    | none => exact le_rfl
    | some cost => exact given cost (by simp [found])
  have least : 0 ≤ profile.leastCost := by
    rw [RequestProfile.leastCost]
    cases found : profile.overridePubImpRevenue with
    | none => exact revenue
    | some cost => exact le_min revenue (given cost (by simp [found]))
  refine ⟨share, least, ?_⟩
  rw [RequestProfile.passedCost]
  split
  · exact roundUp_nonneg (mul_nonneg revenue share) one_pos
  · exact least

end Evaluated

/-- Exact arithmetic is asked of negative values only if some cost is negative. -/
theorem evaluation_consistent (exact_ : A.ExactOn (0 ≤ ·)) (profile : RequestProfile)
    (below : (∃ cost ∈ profile.costs, cost < 0) → A.ExactOn fun _ => True)
    (requestInfo : RequestInfo) (coef : 0 ≤ profile.pubCostCoef)
    (commission : profile.pubCommission < A.one) (positive : 0 ≤ profile.pubCommission) :
    Consistent A profile (evalRevenuesOnImpressionFin A profile requestInfo).1 ↔
      CostsAgree A profile := by
  have one_pos := exact_.one_pos
  have pos : 0 < A.one + profile.pubCostCoef := by linarith
  have exact_ := exact_.extend below
  have known {value : Int} (nonneg : (∀ cost ∈ profile.costs, 0 ≤ cost) → 0 ≤ value) :
      0 ≤ value ∨ ∃ cost ∈ profile.costs, cost < 0 := by
    by_cases negative : ∃ cost ∈ profile.costs, cost < 0
    · exact .inr negative
    · push Not at negative
      exact .inl (nonneg negative)
  have costs := @costs_nonneg A profile one_pos
  have commission_iff {left right : Int} (l : (∀ cost ∈ profile.costs, 0 ≤ cost) → 0 ≤ left)
      (r : (∀ cost ∈ profile.costs, 0 ≤ cost) → 0 ≤ right) :
      profile.commissionOf A left = profile.commissionOf A right ↔
        roundUp (left * profile.pubCommission) A.one =
          roundUp (right * profile.pubCommission) A.one := by
    have rest : 0 < A.one - profile.pubCommission := by linarith
    have part {value : Int} (nonneg : (∀ cost ∈ profile.costs, 0 ≤ cost) → 0 ≤ value) :=
      known fun all => roundUp_nonneg (mul_nonneg (nonneg all) positive) one_pos
    simp only [RequestProfile.commissionOf, RevenueArithmetic.divOrZero, if_pos rest.ne',
      exact_.mulCeil (known l) (.inl positive), exact_.mulCeil (known r) (.inl positive),
      exact_.divCeil (part l) rest, exact_.divCeil (part r) rest]
    exact ⟨roundUp_inj rest (by linarith), fun same => by rw [same]⟩
  have stored := evaluated_pubRevenue requestInfo exact_ (known fun all => (costs all).2.1) coef
  have paid := evaluated_pubCommRevenue requestInfo exact_
    (known fun all => all _ List.mem_cons_self) (known fun all => (costs all).1)
    (known fun all => (costs all).2.2) coef
  have down (all : ∀ cost ∈ profile.costs, 0 ≤ cost) :
      0 ≤ profile.leastCost * A.one / (A.one + profile.pubCostCoef) :=
    Int.ediv_nonneg (mul_nonneg (costs all).2.1 one_pos.le) pos.le
  have up (all : ∀ cost ∈ profile.costs, 0 ≤ cost) :
      0 ≤ roundUp (profile.passedCost A * A.one) (A.one + profile.pubCostCoef) :=
    roundUp_nonneg (mul_nonneg (costs all).2.2 one_pos.le) pos
  constructor
  · rintro ⟨-, publisher, commission⟩
    rw [stored] at publisher
    rw [stored, paid] at commission
    exact ⟨fun _ => (within_digit_iff pos).1 publisher, (commission_iff up down).1 commission⟩
  · rintro ⟨share, commission⟩
    refine ⟨evaluated_advRevenue requestInfo, ?_, ?_⟩
    · rw [stored, within_digit_iff pos]
      by_cases type : profile.impressionPubRevenueType = .share
      · exact share type
      · rw [RequestProfile.cappedCost, if_neg type]
        exact .inl rfl
    · rw [stored, paid]
      exact (commission_iff up down).2 commission

/-- A cost below two, with a cost coefficient of a quarter. -/
def costOfTwo : RequestProfile :=
  { origPubRevenue := { impression := 200000000 }
    impressionPubRevenueType := .absolute
    impressionImpRevenue := some 150000000
    advCurrencyRate := 100000000
    pubCurrencyRate := 100000000
    ispCurrencyRate := 100000000
    pubCostCoef := 25000000
    pubCommission := 10000000 }

theorem evaluation_consistent_cost : Consistent (.rounding 100000000) costOfTwo
    (evalRevenuesOnImpressionFin (.rounding 100000000) costOfTwo {}).1 :=
  (evaluation_consistent (exact_rounding (by decide)) costOfTwo
    (fun _ => exact_rounding (by decide)) {} (by decide) (by decide) (by decide)).2
      ⟨by decide, by decide⟩

/-- A share of a half of two. -/
def halfOfTwo : RequestProfile :=
  { costOfTwo with
      impressionPubRevenueType := .share
      impressionImpRevenue := some 50000000
      pubCostCoef := 0 }

/-- The share itself is stored as the revenue. -/
theorem halfOfTwo_not_consistent :
    ¬∀ A : RevenueArithmetic, (A.ExactOn fun _ => True) →
      ∀ (profile : RequestProfile) (requestInfo : RequestInfo), 0 ≤ profile.pubCostCoef → profile.pubCommission < A.one → 0 ≤ profile.pubCommission →
        Consistent A profile (evalRevenuesOnImpressionFin A profile requestInfo).1 := by
  intro consistent
  have publisher := (consistent (.rounding 100000000) (exact_rounding (by decide)) halfOfTwo {}
    (by decide) (by decide) (by decide)).publisher
  exact absurd publisher (by decide)

end AdServer.RequestInfo
