import AdServer.Billing.DeliveryLimits

/-!
# Which limits restrict a check

`DeliveryLimitsChecker::check`: what it compares, for every subset of the limits.
-/

namespace AdServer.Billing

open AdServer.Lib

/-- The recorded value is below the limit, if there is one. -/
def HasSpare (limit : Optional Int) (recorded : Int) : Prop :=
  limit.present = true → recorded < limit.val

instance (limit : Optional Int) (recorded : Int) : Decidable (HasSpare limit recorded) :=
  inferInstanceAs (Decidable (_ → _))

/-- As the checks ask it. -/
theorem hasSpare_iff (limit : Optional Int) (recorded : Int) :
    HasSpare limit recorded ↔ ¬ (limit.present && decide (recorded ≥ limit.val)) = true := by
  unfold HasSpare
  cases limit.present <;> simp

/-- Two limits that nothing but an absent value tells apart. -/
def Optional.SameLimit (a b : Optional Int) : Prop :=
  a.present = b.present ∧ (a.present = true → a.val = b.val)

theorem hasSpare_congr {a b : Optional Int} (same : a.SameLimit b) (recorded : Int) :
    HasSpare a recorded ↔ HasSpare b recorded := by
  unfold HasSpare
  rw [← same.1]
  constructor
  · intro spare present
    rw [← same.2 present]
    exact spare present
  · intro spare present
    rw [same.2 present]
    exact spare present

/-- The record has a budget if impressions or clicks are limited in total. -/
def DeliveryLimits.Budgeted (limits : DeliveryLimits) : Prop :=
  limits.impsDec.present = true ∨ limits.clicksDec.present = true → limits.budget.present = true

instance (limits : DeliveryLimits) : Decidable limits.Budgeted :=
  inferInstanceAs (Decidable (_ → _))

/-- The records differ at most in the values of absent limits. -/
structure DeliveryLimits.SameConfigured (a b : DeliveryLimits) : Prop where
  timeOffset : a.timeOffset = b.timeOffset
  dateEnd : a.dateEnd = b.dateEnd
  advTzDateEnd : a.advTzDateEnd = b.advTzDateEnd
  deliveryPacing : a.deliveryPacing = b.deliveryPacing
  budget : a.budget.SameLimit b.budget
  dailyBudget : a.dailyBudget.SameLimit b.dailyBudget
  impsDec : a.impsDec.SameLimit b.impsDec
  dailyImpsDec : a.dailyImpsDec.SameLimit b.dailyImpsDec
  clicksDec : a.clicksDec.SameLimit b.clicksDec
  dailyClicksDec : a.dailyClicksDec.SameLimit b.dailyClicksDec

theorem DeliveryLimits.SameConfigured.symm {a b : DeliveryLimits} (same : a.SameConfigured b) :
    b.SameConfigured a := by
  have turned {x y : Optional Int} (limit : x.SameLimit y) : y.SameLimit x :=
    ⟨limit.1.symm, fun present => (limit.2 (limit.1.trans present)).symm⟩
  exact ⟨same.timeOffset.symm, same.dateEnd.symm, same.advTzDateEnd.symm,
    same.deliveryPacing.symm, turned same.budget, turned same.dailyBudget, turned same.impsDec,
    turned same.dailyImpsDec, turned same.clicksDec, turned same.dailyClicksDec⟩

namespace DeliveryLimitsChecker

variable (P : Platform)

/-- `check`. -/
def check (c : DeliveryLimitsChecker) (amountHolder : Option AmountHolder) : Bool :=
  (c.check_ P amountHolder none true).1

/-- What a holder has for the day, and in all. -/
def recordedOn (amountHolder : Option AmountHolder) (date : Time) : Counts :=
  match amountHolder with
  | some days => days.dayAmount date
  | none => 0

def recordedTotal (amountHolder : Option AmountHolder) : Counts :=
  match amountHolder with
  | some days => days.total
  | none => 0

/-- The days left to the end of a campaign, today included. -/
def remainingDays (limits : DeliveryLimits) (today : Time) : Int :=
  P.ofInt ((tvSec (limits.advTzDateEnd - today)).tdiv (tvSec oneDay) + 1)

/-- What is left of the budget, today's amount included, for each remaining day. -/
def budgetShare (limits : DeliveryLimits) (date : Time) (today total : Counts) : Int :=
  if remainingDays P limits date > 0 then
    P.div (limits.budget.val - total.amount + today.amount) (remainingDays P limits date)
  else 0

/-- Every limit that is configured has spare capacity: a fixed daily budget under
the fixed pacing, the share of the budget under the dynamic one. -/
structure Spare (limits : DeliveryLimits) (date : Time) (today total : Counts) : Prop where
  dailyBudget : limits.deliveryPacing = 'F' → HasSpare limits.dailyBudget today.amount
  dailyImps : HasSpare limits.dailyImpsDec today.imps
  dailyClicks : HasSpare limits.dailyClicksDec today.clicks
  budget : HasSpare limits.budget total.amount
  imps : HasSpare limits.impsDec total.imps
  clicks : HasSpare limits.clicksDec total.clicks
  share : limits.deliveryPacing = 'D' → limits.dateEnd ≠ 0 → limits.budget.present = true →
    today.amount < budgetShare P limits date today total

variable {P} {limits : DeliveryLimits} {now : Time} {today total : Counts}

theorem checkDaily_iff (today : Counts) (c : DeliveryLimitsChecker) :
    (c.checkDaily today none).1 = true ↔
      (c.deliveryLimits.deliveryPacing = 'F' → HasSpare c.deliveryLimits.dailyBudget today.amount) ∧
        HasSpare c.deliveryLimits.dailyImpsDec today.imps ∧
        HasSpare c.deliveryLimits.dailyClicksDec today.clicks := by
  have fixed : (c.deliveryLimits.deliveryPacing = 'F' →
      HasSpare c.deliveryLimits.dailyBudget today.amount) ↔
      ¬ (c.deliveryLimits.deliveryPacing == 'F' && c.deliveryLimits.dailyBudget.present &&
        decide (today.amount ≥ c.deliveryLimits.dailyBudget.val)) = true := by
    rw [hasSpare_iff, Bool.and_assoc]
    by_cases pacing : c.deliveryLimits.deliveryPacing = 'F' <;> simp [pacing]
  rw [fixed, hasSpare_iff, hasSpare_iff]
  unfold checkDaily
  simp only [Option.map_none, ite_self]
  split_ifs with spent imps clicks
  · simp [spent]
  · simp [imps]
  · simp [clicks]
  · simp [spent, imps, clicks]

theorem dynamicDailyBudget_create (present : limits.budget.present = true)
    (pacing : limits.deliveryPacing = 'D') (ends : limits.dateEnd ≠ 0) :
    (create P limits now).dynamicDailyBudget P today total =
      budgetShare P limits (getDateInAdvTz P limits.timeOffset now) today total := by
  simp [create, dynamicDailyBudget, budgetShare, remainingDays, present, pacing, ends]

theorem checkTotal_iff (present : limits.budget.present = true) :
    ((create P limits now).checkTotal P today total none).1 = true ↔
      HasSpare limits.budget total.amount ∧ HasSpare limits.impsDec total.imps ∧
        HasSpare limits.clicksDec total.clicks ∧
        (limits.deliveryPacing = 'D' → limits.dateEnd ≠ 0 → today.amount <
          budgetShare P limits (getDateInAdvTz P limits.timeOffset now) today total) := by
  have budget : HasSpare limits.budget total.amount ↔ ¬ total.amount ≥ limits.budget.val := by
    simp [HasSpare, present]
  have share (today_below : limits.deliveryPacing = 'D' ∧ limits.dateEnd ≠ 0) :
      (create P limits now).dynamicDailyBudget P today total =
        budgetShare P limits (getDateInAdvTz P limits.timeOffset now) today total :=
    dynamicDailyBudget_create present today_below.1 today_below.2
  rw [budget, hasSpare_iff, hasSpare_iff, ← and_imp]
  unfold checkTotal
  simp only [Option.map_none]
  have same : (create P limits now).deliveryLimits = limits := rfl
  rw [same]
  split_ifs with spent imps clicks dynamic below
  · simp [spent]
  · simp [imps]
  · simp [clicks]
  · have pacing : limits.deliveryPacing = 'D' ∧ limits.dateEnd ≠ 0 := by simpa using dynamic
    rw [share pacing] at below
    simp [pacing, below]
  · have pacing : limits.deliveryPacing = 'D' ∧ limits.dateEnd ≠ 0 := by simpa using dynamic
    rw [share pacing] at below
    exact iff_of_true rfl ⟨spent, imps, clicks, fun _ => not_le.1 below⟩
  · have pacing : ¬ (limits.deliveryPacing = 'D' ∧ limits.dateEnd ≠ 0) := by simpa using dynamic
    exact iff_of_true rfl ⟨spent, imps, clicks, fun applies => absurd applies pacing⟩

/-- The check returns true exactly where every configured limit has spare capacity. -/
theorem check_spare_iff (budgeted : limits.Budgeted) (holder : Option AmountHolder) :
    (create P limits now).check P holder = true ↔
      Spare P limits (getDateInAdvTz P limits.timeOffset now)
        (recordedOn holder (getDateInAdvTz P limits.timeOffset now)) (recordedTotal holder) := by
  set date := getDateInAdvTz P limits.timeOffset now with date_eq
  have daily := checkDaily_iff (recordedOn holder date) (create P limits now)
  have split : (create P limits now).check P holder = true ↔
      ((create P limits now).checkDaily (recordedOn holder date) none).1 = true ∧
        ((limits.budget.present || limits.impsDec.present || limits.clicksDec.present) = true →
          ((create P limits now).checkTotal P (recordedOn holder date) (recordedTotal holder)
            none).1 = true) := by
    have total_verdict (allowed : Option Counts) := checkTotal_verdict P (create P limits now)
      (recordedOn holder date) (recordedTotal holder) allowed none
    have called : (create P limits now).check P holder =
        (andThen ((create P limits now).checkDaily (recordedOn holder date) none) fun allowed =>
          if limits.budget.present || limits.impsDec.present || limits.clicksDec.present then
            (create P limits now).checkTotal P (recordedOn holder date) (recordedTotal holder) allowed
          else (true, allowed)).1 := rfl
    rw [called, andThen]
    by_cases first : ((create P limits now).checkDaily (recordedOn holder date) none).1 = true
    · rw [if_pos first]
      split_ifs with entered
      · simp [first, entered, total_verdict]
      · simp [first, entered]
    · simp [first]
  rw [split, daily]
  by_cases entered : (limits.budget.present || limits.impsDec.present ||
      limits.clicksDec.present) = true
  · have present : limits.budget.present = true := by
      simp only [Bool.or_eq_true] at entered
      rcases entered with (budget | imps) | clicks
      · exact budget
      · exact budgeted (.inl imps)
      · exact budgeted (.inr clicks)
    rw [forall_prop_of_true entered, checkTotal_iff present]
    constructor
    · rintro ⟨⟨dailyBudget, dailyImps, dailyClicks⟩, budget, imps, clicks, share⟩
      exact ⟨dailyBudget, dailyImps, dailyClicks, budget, imps, clicks,
        fun pacing ends _ => share pacing ends⟩
    · intro spare
      exact ⟨⟨spare.dailyBudget, spare.dailyImps, spare.dailyClicks⟩, spare.budget, spare.imps,
        spare.clicks, fun pacing ends => spare.share pacing ends present⟩
  · simp only [Bool.or_eq_true, not_or, Bool.not_eq_true] at entered
    obtain ⟨⟨budget, imps⟩, clicks⟩ := entered
    constructor
    · rintro ⟨⟨dailyBudget, dailyImps, dailyClicks⟩, -⟩
      exact ⟨dailyBudget, dailyImps, dailyClicks, by simp [HasSpare, budget],
        by simp [HasSpare, imps], by simp [HasSpare, clicks], by simp [budget]⟩
    · intro spare
      exact ⟨⟨spare.dailyBudget, spare.dailyImps, spare.dailyClicks⟩, by simp [budget, imps, clicks]⟩

theorem spare_congr {a b : DeliveryLimits} (same : a.SameConfigured b) (date : Time) :
    Spare P a date today total → Spare P b date today total := by
  intro spare
  have share (present : a.budget.present = true) :
      budgetShare P a date today total = budgetShare P b date today total := by
    unfold budgetShare remainingDays
    rw [same.advTzDateEnd, same.budget.2 present]
  constructor
  · intro pacing
    rw [← same.deliveryPacing] at pacing
    exact (hasSpare_congr same.dailyBudget _).1 (spare.dailyBudget pacing)
  · exact (hasSpare_congr same.dailyImpsDec _).1 spare.dailyImps
  · exact (hasSpare_congr same.dailyClicksDec _).1 spare.dailyClicks
  · exact (hasSpare_congr same.budget _).1 spare.budget
  · exact (hasSpare_congr same.impsDec _).1 spare.imps
  · exact (hasSpare_congr same.clicksDec _).1 spare.clicks
  · intro pacing ends present
    rw [← same.deliveryPacing] at pacing
    rw [← same.dateEnd] at ends
    rw [← same.budget.1] at present
    rw [← share present]
    exact spare.share pacing ends present

/-- Every verdict asks for spare capacity of the configured limits, and reads no
other. -/
theorem check_configured (P : Platform) (limits : DeliveryLimits) (now : Time)
    (budgeted : limits.Budgeted) (holder : Option AmountHolder) :
    ((create P limits now).check P holder = true ↔
      Spare P limits (getDateInAdvTz P limits.timeOffset now)
        (recordedOn holder (getDateInAdvTz P limits.timeOffset now)) (recordedTotal holder)) ∧
      ∀ limits' : DeliveryLimits, limits.SameConfigured limits' →
        (create P limits' now).check P holder = (create P limits now).check P holder := by
  refine ⟨check_spare_iff budgeted holder, ?_⟩
  intro limits' same
  have budgeted' : limits'.Budgeted := by
    intro some_total
    rw [← same.impsDec.1, ← same.clicksDec.1] at some_total
    rw [← same.budget.1]
    exact budgeted some_total
  rw [Bool.eq_iff_iff, check_spare_iff budgeted', check_spare_iff budgeted, same.timeOffset]
  exact ⟨spare_congr same.symm _, spare_congr same _⟩

section

/-- A daily budget of ten under the dynamic pacing. -/
def dynamicDaily : DeliveryLimits where
  active := true
  timeOffset := 0
  dateEnd := 0
  advTzDateEnd := 0
  deliveryPacing := 'D'
  budget := .absent 0
  dailyBudget := ⟨true, 10⟩
  impsDec := .absent 0
  dailyImpsDec := .absent 0
  clicksDec := .absent 0
  dailyClicksDec := .absent 0

/-- Ten were spent today. -/
def tenToday : Option AmountHolder := some (SortedMap.empty.put 0 ⟨0, ⟨10, 0, 0⟩⟩)

/-- The check passes with nothing left of the daily budget. With a limit of
impressions in place of it, the check refuses with everything left. -/
theorem dynamic_daily_budget_not_compared :
    ((create Platform.floored dynamicDaily 0).check Platform.floored tenToday = true ∧
      ¬ HasSpare dynamicDaily.dailyBudget
        (recordedOn tenToday (getDateInAdvTz Platform.floored 0 0)).amount) ∧
      (create Platform.floored { dynamicDaily with
        dailyBudget := .absent 0, impsDec := ⟨true, 5⟩ } 0).check Platform.floored none = false := by
  decide

theorem check_configured_budget :
    (create Platform.floored { dynamicDaily with budget := ⟨true, 10⟩, impsDec := ⟨true, 5⟩ }
      0).check Platform.floored (some (SortedMap.empty.put 0 ⟨0, ⟨9, 4, 0⟩⟩)) = true := by
  have limits := check_configured Platform.floored
    { dynamicDaily with budget := ⟨true, 10⟩, impsDec := ⟨true, 5⟩ } 0 (by decide)
    (some (SortedMap.empty.put 0 ⟨0, ⟨9, 4, 0⟩⟩))
  refine limits.1.2 ⟨?_, ?_, ?_, ?_, ?_, ?_, ?_⟩ <;> decide

end

end DeliveryLimitsChecker

end AdServer.Billing
