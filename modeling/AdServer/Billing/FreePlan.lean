import AdServer.Billing.State
import Mathlib.Algebra.BigOperators.Fin
import Mathlib.Algebra.Order.BigOperators.Group.Finset

/-!
# The plan of the free budget

`CTROptimizer`: the hours a day's free budget is planned for, and what is left of
the plan in the course of the day.
-/

namespace AdServer.Billing

open AdServer.Lib
open Finset

/-- A vector of one decimal for each hour of the day. -/
abbrev Hours := Fin 24 → Int

namespace CTROptimizer

variable (P : Platform)

/-- `distribute_decimal_sum_` over a range of hours: the sum in parts proportional
to the weights, added to what is there and cut at zero. -/
def distributeDecimalSum_ (range : Finset (Fin 24)) (res weights : Hours) (sum : Int) : Hours :=
  let coefSum := ∑ h ∈ range, weights h
  if coefSum ≠ 0 then
    let normalizer := P.div (P.ofInt 1) coefSum
    fun h =>
      if h ∈ range then
        let added := res h + P.mul (P.mul sum (weights h)) normalizer
        if added ≤ 0 then 0 else added
      else res h
  else res

/-- `FIRST_CORRECT_HOUR`. -/
def firstCorrectHour : Fin 24 := 21

/-- One round of the constructor: nine tenths of a late hour go to the hours before
the first of them. -/
def redistributeHour (standard basic : Hours) (hour : Fin 24) : Hours :=
  let postHourPortion := P.div (basic hour) (P.ofInt 10)
  Function.update
    (distributeDecimalSum_ P (univ.filter (· < firstCorrectHour)) basic standard
      (standard hour - postHourPortion)) hour postHourPortion

/-- `basic_load_distribution_` as the constructor leaves it. -/
def basicLoadDistribution (standard : Hours) : Hours :=
  [21, 22, 23].foldl (redistributeHour P standard) standard

/-- `plan_free_budget_distribution_`: three quarters by the hours of the day before,
one quarter by the standard load. -/
def planFreeBudgetDistribution_ (load full prev : Hours) (budget : Int) : Hours :=
  let prevAmountSum := ∑ h, prev h
  if prevAmountSum ≠ 0 then
    let normalizedHourAmount : Hours := fun h => P.mul (P.div (prev h) prevAmountSum) budget
    let redistributeHourPortion : Hours := fun h => P.div (normalizedHourAmount h) (P.ofInt 4)
    distributeDecimalSum_ P univ
      (fun h => full h + (normalizedHourAmount h - redistributeHourPortion h)) load
      (∑ h, redistributeHourPortion h)
  else distributeDecimalSum_ P univ full load budget

/-- `eval_actual_free_budget_distribution_`. -/
def evalActualFreeBudgetDistribution_ (load free planned actual : Hours) (nowHour : Fin 24) :
    Hours :=
  let actualDelivered := ∑ h ∈ univ.filter (· < nowHour), actual h
  let plannedFree := ∑ h ∈ univ.filter (· < nowHour), planned h
  let sum : Hours := fun h => free h + planned h
  if actualDelivered < plannedFree then
    Function.update sum nowHour (sum nowHour + (plannedFree - actualDelivered))
  else if plannedFree < actualDelivered then
    distributeDecimalSum_ P (univ.filter (nowHour ≤ ·)) sum load (plannedFree - actualDelivered)
  else sum

variable {P}

variable {range : Finset (Fin 24)} {res weights prev load : Hours} {sum budget : Int}

theorem distribute_nonneg (sum : Int) (nonneg : ∀ h, 0 ≤ res h) (h : Fin 24) :
    0 ≤ distributeDecimalSum_ P range res weights sum h := by
  unfold distributeDecimalSum_
  dsimp only
  split
  · dsimp only
    split
    · split
      · exact le_rfl
      · omega
    · exact nonneg h
  · exact nonneg h

theorem ofInt_pos {n : Int} (pos : 0 < n) : 0 < P.ofInt n := Int.mul_pos pos P.one_pos

theorem basicLoad_nonneg {standard : Hours} (nonneg : ∀ h, 0 ≤ standard h) (h : Fin 24) :
    0 ≤ basicLoadDistribution P standard h := by
  have round (basic : Hours) (hour : Fin 24) (before : ∀ h, 0 ≤ basic h) :
      ∀ h, 0 ≤ redistributeHour P standard basic hour h := by
    intro h
    unfold redistributeHour
    by_cases same : h = hour
    · subst same
      rw [Function.update_self]
      exact P.div_nonneg (before h) (ofInt_pos (by decide))
    · rw [Function.update_of_ne same]
      exact distribute_nonneg _ before h
  exact round _ _ (round _ _ (round _ _ nonneg)) h

/-- The parts of a sum that is shared out by weights do not add up to more. -/
theorem sum_shares_le (sum_nonneg : 0 ≤ sum) (nonneg : ∀ h, 0 ≤ weights h)
    (pos : 0 < ∑ h ∈ range, weights h) :
    ∑ h ∈ range, P.mul (P.mul sum (weights h)) (P.div (P.ofInt 1) (∑ h ∈ range, weights h)) ≤
      sum := by
  set coef := ∑ h ∈ range, weights h
  set normalizer := P.div (P.ofInt 1) coef
  have one_nonneg : 0 ≤ P.ofInt 1 := (ofInt_pos one_pos).le
  have norm_nonneg : 0 ≤ normalizer := P.div_nonneg one_nonneg pos
  have norm_le : normalizer * coef ≤ P.one * P.one := by
    have whole : P.ofInt 1 = P.one := one_mul _
    calc normalizer * coef ≤ P.ofInt 1 * P.one := (P.div_floor one_nonneg pos).1
      _ = P.one * P.one := by rw [whole]
  have inner (h : Fin 24) : P.mul sum (weights h) * P.one ≤ sum * weights h :=
    (P.mul_floor sum_nonneg (nonneg h)).1
  have outer (h : Fin 24) : P.mul (P.mul sum (weights h)) normalizer * P.one ≤
      P.mul sum (weights h) * normalizer :=
    (P.mul_floor (P.mul_nonneg sum_nonneg (nonneg h)) norm_nonneg).1
  have one_sq : 0 < P.one * P.one := Int.mul_pos P.one_pos P.one_pos
  apply le_of_mul_le_mul_right _ one_sq
  calc (∑ h ∈ range, P.mul (P.mul sum (weights h)) normalizer) * (P.one * P.one)
      = (∑ h ∈ range, P.mul (P.mul sum (weights h)) normalizer * P.one) * P.one := by
        rw [← mul_assoc, Finset.sum_mul]
    _ ≤ (∑ h ∈ range, P.mul sum (weights h) * normalizer) * P.one := by
        apply mul_le_mul_of_nonneg_right _ P.one_pos.le
        exact Finset.sum_le_sum fun h _ => outer h
    _ = (∑ h ∈ range, P.mul sum (weights h) * P.one) * normalizer := by
        rw [← Finset.sum_mul, ← Finset.sum_mul, mul_right_comm]
    _ ≤ (∑ h ∈ range, sum * weights h) * normalizer := by
        apply mul_le_mul_of_nonneg_right _ norm_nonneg
        exact Finset.sum_le_sum fun h _ => inner h
    _ = sum * (normalizer * coef) := by
        rw [← Finset.mul_sum, mul_assoc, mul_comm coef]
    _ ≤ sum * (P.one * P.one) := mul_le_mul_of_nonneg_left norm_le sum_nonneg

theorem sum_distribute_le (sum_nonneg : 0 ≤ sum) (res_nonneg : ∀ h, 0 ≤ res h)
    (nonneg : ∀ h, 0 ≤ weights h) :
    ∑ h, distributeDecimalSum_ P univ res weights sum h ≤ (∑ h, res h) + sum := by
  unfold distributeDecimalSum_
  dsimp only
  split
  · rename_i some_weight
    have pos : 0 < ∑ h, weights h :=
      lt_of_le_of_ne (Finset.sum_nonneg fun h _ => nonneg h) some_weight.symm
    have part_nonneg (h : Fin 24) :
        0 ≤ P.mul (P.mul sum (weights h)) (P.div (P.ofInt 1) (∑ h, weights h)) :=
      P.mul_nonneg (P.mul_nonneg sum_nonneg (nonneg h)) (P.div_nonneg (ofInt_pos one_pos).le pos)
    have kept (h : Fin 24) :
        (if h ∈ univ then
          if res h + P.mul (P.mul sum (weights h)) (P.div (P.ofInt 1) (∑ h, weights h)) ≤ 0 then 0
          else res h + P.mul (P.mul sum (weights h)) (P.div (P.ofInt 1) (∑ h, weights h))
        else res h) =
          res h + P.mul (P.mul sum (weights h)) (P.div (P.ofInt 1) (∑ h, weights h)) := by
      have both := add_nonneg (res_nonneg h) (part_nonneg h)
      rw [if_pos (mem_univ h)]
      split
      · omega
      · rfl
    rw [Finset.sum_congr rfl fun h _ => kept h, Finset.sum_add_distrib]
    exact add_le_add_right (sum_shares_le sum_nonneg nonneg pos) _
  · omega

/-- By the hours of the day before, the budget is not exceeded either. -/
theorem sum_normalized_le (budget_nonneg : 0 ≤ budget) (nonneg : ∀ h, 0 ≤ prev h)
    (pos : 0 < ∑ h, prev h) : ∑ h, P.mul (P.div (prev h) (∑ h, prev h)) budget ≤ budget := by
  have share_nonneg (h : Fin 24) : 0 ≤ P.div (prev h) (∑ h, prev h) := P.div_nonneg (nonneg h) pos
  have shares : ∑ h, P.div (prev h) (∑ h, prev h) ≤ P.one := by
    apply le_of_mul_le_mul_right _ pos
    rw [Finset.sum_mul, mul_comm P.one, Finset.sum_mul]
    exact Finset.sum_le_sum fun h _ => (P.div_floor (nonneg h) pos).1
  apply le_of_mul_le_mul_right _ P.one_pos
  calc (∑ h, P.mul (P.div (prev h) (∑ h, prev h)) budget) * P.one
      = ∑ h, P.mul (P.div (prev h) (∑ h, prev h)) budget * P.one := Finset.sum_mul _ _ _
    _ ≤ ∑ h, P.div (prev h) (∑ h, prev h) * budget :=
        Finset.sum_le_sum fun h _ => (P.mul_floor (share_nonneg h) budget_nonneg).1
    _ = (∑ h, P.div (prev h) (∑ h, prev h)) * budget := (Finset.sum_mul _ _ _).symm
    _ ≤ P.one * budget := mul_le_mul_of_nonneg_right shares budget_nonneg
    _ = budget * P.one := mul_comm _ _

theorem quarter_le {x : Int} (nonneg : 0 ≤ x) : P.div x (P.ofInt 4) ≤ x := by
  have four : 0 < P.ofInt 4 := ofInt_pos (by decide)
  have floor := (P.div_floor nonneg four).1
  rw [Platform.ofInt, ← mul_assoc] at floor
  have scaled := le_of_mul_le_mul_right floor P.one_pos
  have quarter_nonneg := P.div_nonneg nonneg four
  rw [Platform.ofInt] at quarter_nonneg ⊢
  omega

/-- `HourBudgetDistribution()`. -/
def noHours : Hours := fun _ => 0

theorem plan_le (load_nonneg : ∀ h, 0 ≤ load h) (prev_nonneg : ∀ h, 0 ≤ prev h)
    (budget_nonneg : 0 ≤ budget) :
    (∀ h, 0 ≤ planFreeBudgetDistribution_ P load noHours prev budget h) ∧
      ∑ h, planFreeBudgetDistribution_ P load noHours prev budget h ≤ budget := by
  unfold planFreeBudgetDistribution_
  dsimp only
  split
  · rename_i some_amount
    have pos : 0 < ∑ h, prev h :=
      lt_of_le_of_ne (Finset.sum_nonneg fun h _ => prev_nonneg h) some_amount.symm
    set normalized : Hours := fun h => P.mul (P.div (prev h) (∑ h, prev h)) budget with eq
    have normalized_nonneg (h : Fin 24) : 0 ≤ normalized h :=
      P.mul_nonneg (P.div_nonneg (prev_nonneg h) pos) budget_nonneg
    have quarter_nonneg (h : Fin 24) : 0 ≤ P.div (normalized h) (P.ofInt 4) :=
      P.div_nonneg (normalized_nonneg h) (ofInt_pos (by decide))
    have left_nonneg (h : Fin 24) :
        0 ≤ noHours h + (normalized h - P.div (normalized h) (P.ofInt 4)) := by
      have quarter := quarter_le (P := P) (normalized_nonneg h)
      simp only [noHours]
      omega
    refine ⟨distribute_nonneg _ left_nonneg, ?_⟩
    have distributed := sum_distribute_le (P := P)
      (Finset.sum_nonneg fun h (_ : h ∈ univ) => quarter_nonneg h) left_nonneg load_nonneg
    have whole : ∑ h, (noHours h + (normalized h - P.div (normalized h) (P.ofInt 4))) +
        ∑ h, P.div (normalized h) (P.ofInt 4) = ∑ h, normalized h := by
      rw [← Finset.sum_add_distrib]
      exact Finset.sum_congr rfl fun h _ => by simp [noHours]
    have bound := sum_normalized_le (P := P) budget_nonneg prev_nonneg pos
    exact distributed.trans (whole.trans_le bound)
  · have none_yet (h : Fin 24) : 0 ≤ noHours h := le_rfl
    have distributed := sum_distribute_le (P := P) budget_nonneg none_yet load_nonneg
    refine ⟨distribute_nonneg _ none_yet, ?_⟩
    simpa [noHours] using distributed

theorem sum_split (hours : Hours) (nowHour : Fin 24) :
    ∑ h ∈ univ.filter (nowHour ≤ ·), hours h + ∑ h ∈ univ.filter (· < nowHour), hours h =
      ∑ h, hours h := by
  rw [← Finset.sum_filter_add_sum_filter_not univ (nowHour ≤ ·) hours]
  simp only [not_le]

theorem actual_eq {load planned actual : Hours} {nowHour : Fin 24}
    (delivered : ∑ h ∈ univ.filter (· < nowHour), actual h ≤
      ∑ h ∈ univ.filter (· < nowHour), planned h) :
    ∑ h ∈ univ.filter (nowHour ≤ ·),
        evalActualFreeBudgetDistribution_ P load noHours planned actual nowHour h +
      ∑ h ∈ univ.filter (· < nowHour), actual h = ∑ h, planned h := by
  have parts := sum_split planned nowHour
  unfold evalActualFreeBudgetDistribution_
  simp only [noHours, zero_add]
  split
  · have mem : nowHour ∈ univ.filter (nowHour ≤ ·) := by simp
    rw [Finset.sum_update_of_mem mem]
    have without := Finset.sum_eq_add_sum_sdiff_singleton_of_mem mem planned
    omega
  · have same : ∑ h ∈ univ.filter (· < nowHour), actual h =
        ∑ h ∈ univ.filter (· < nowHour), planned h := by omega
    rw [if_neg (by omega), same]
    exact parts

/-- Nothing is planned beyond the budget, and what was not delivered before an hour
is planned from it on. -/
theorem plan_within_budget (P : Platform) (standard : Hours) (standard_nonneg : ∀ h, 0 ≤ standard h) :
    (∀ (prev : Hours) (budget : Int), (∀ h, 0 ≤ prev h) → 0 ≤ budget →
      (∀ h, 0 ≤ planFreeBudgetDistribution_ P (basicLoadDistribution P standard) noHours prev
        budget h) ∧
      ∑ h, planFreeBudgetDistribution_ P (basicLoadDistribution P standard) noHours prev
        budget h ≤ budget) ∧
    ∀ (planned actual : Hours) (nowHour : Fin 24),
      ∑ h ∈ univ.filter (· < nowHour), actual h ≤ ∑ h ∈ univ.filter (· < nowHour), planned h →
      ∑ h ∈ univ.filter (nowHour ≤ ·), evalActualFreeBudgetDistribution_ P
          (basicLoadDistribution P standard) noHours planned actual nowHour h +
        ∑ h ∈ univ.filter (· < nowHour), actual h = ∑ h, planned h := by
  constructor
  · intro prev budget prev_nonneg budget_nonneg
    exact plan_le (basicLoad_nonneg standard_nonneg) prev_nonneg budget_nonneg
  · intro planned actual nowHour delivered
    exact actual_eq delivered

/-- Ten units for every hour planned, and seven delivered before the third. -/
theorem plan_within_budget_third_hour :
    ∑ h, planFreeBudgetDistribution_ Platform.floored
        (basicLoadDistribution Platform.floored fun _ => 4166666) noHours (fun _ => 5) 1000 h ≤ 1000 ∧
      ∑ h ∈ univ.filter ((2 : Fin 24) ≤ ·), evalActualFreeBudgetDistribution_ Platform.floored
          (basicLoadDistribution Platform.floored fun _ => 4166666) noHours (fun _ => 10)
          (Function.update (fun _ => 0) 1 7) 2 h +
        ∑ h ∈ univ.filter (· < (2 : Fin 24)), Function.update (fun _ => 0) 1 (7 : Int) h =
        ∑ _h : Fin 24, 10 := by
  have plan := plan_within_budget Platform.floored (fun _ => 4166666) (fun _ => by decide)
  constructor
  · exact (plan.1 (fun _ => 5) 1000 (fun _ => by decide) (by decide)).2
  · exact plan.2 (fun _ => 10) (Function.update (fun _ => 0) 1 7) 2 (by decide)

end CTROptimizer

end AdServer.Billing
