import AdServer.Billing.State

/-!
# The delivery limits check

`DeliveryLimitsChecker`: whether a campaign or a creative group may take more,
and what one confirmation records.
-/

namespace AdServer.Billing

open AdServer.Lib

structure DeliveryLimitsChecker where
  deliveryLimits : DeliveryLimits
  advTzNowDate : Time
  remainDays : Int

/-- `get_date_in_adv_tz`. -/
def getDateInAdvTz (P : Platform) (timeOffset now : Time) : Time := P.getDate (now + timeOffset)

namespace DeliveryLimitsChecker

variable (P : Platform)

/-- `tv_sec`. -/
def tvSec (t : Time) : Int := t / oneSecond

def create (limits : DeliveryLimits) (now : Time) : DeliveryLimitsChecker :=
  let advTzNowDate := getDateInAdvTz P limits.timeOffset now
  { deliveryLimits := limits
    advTzNowDate := advTzNowDate
    remainDays :=
      if (limits.budget.present || limits.dailyBudget.present) &&
          (limits.deliveryPacing == 'D' && limits.dateEnd != 0) then
        P.ofInt ((tvSec (limits.advTzDateEnd - advTzNowDate)).tdiv (tvSec oneDay) + 1)
      else P.initial }

def checkRequired (c : DeliveryLimitsChecker) : Bool :=
  c.deliveryLimits.budget.present || c.deliveryLimits.dailyBudget.present ||
    c.deliveryLimits.impsDec.present || c.deliveryLimits.dailyImpsDec.present ||
    c.deliveryLimits.clicksDec.present || c.deliveryLimits.dailyClicksDec.present

/-- `UNLIMITED_IMPS`. -/
def unlimitedImps : Int := P.ofInt 1000000

/-- The verdict of a check and what it allows to add, when the caller asks. -/
abbrev Verdict := Bool × Option Counts

/-- The next check, unless this one has returned false. -/
def andThen (verdict : Verdict) (next : Option Counts → Verdict) : Verdict :=
  if verdict.1 then next verdict.2 else verdict

/-- The daily limits of a positive amount: each one that is used up refuses,
each other one cuts what is allowed. -/
def checkDaily (c : DeliveryLimitsChecker) (today : Counts) (allowed : Option Counts) : Verdict :=
  let limits := c.deliveryLimits
  if limits.deliveryPacing == 'F' && limits.dailyBudget.present &&
      decide (today.amount ≥ limits.dailyBudget.val) then
    (false, allowed)
  else
    let allowed :=
      if limits.deliveryPacing == 'F' && limits.dailyBudget.present then
        allowed.map (fun a =>
          { a with amount := min (limits.dailyBudget.val - today.amount) a.amount })
      else allowed
    if limits.dailyImpsDec.present && decide (today.imps ≥ limits.dailyImpsDec.val) then
      (false, allowed)
    else
      let allowed :=
        if limits.dailyImpsDec.present then
          allowed.map (fun a => { a with imps := min (limits.dailyImpsDec.val - today.imps) a.imps })
        else allowed
      if limits.dailyClicksDec.present && decide (today.clicks ≥ limits.dailyClicksDec.val) then
        (false, allowed)
      else
        let allowed :=
          if limits.dailyClicksDec.present then
            allowed.map (fun a =>
              { a with clicks := min (limits.dailyClicksDec.val - today.clicks) a.clicks })
          else allowed
        (true, allowed)

/-- A negative amount may take back at most what is there, of the day or of the
total, and nothing from a sum that is not positive in all three parts. -/
def checkNegative (sum : Counts) (allowed : Option Counts) : Verdict :=
  if sum.amount ≤ 0 then (false, allowed)
  else if sum.imps ≤ 0 then (false, allowed)
  else if sum.clicks ≤ 0 then (false, allowed)
  else (true, allowed.map (fun a =>
    ⟨max (-sum.amount) a.amount, max (-sum.imps) a.imps, max (-sum.clicks) a.clicks⟩))

/-- The share of the remaining budget for today, pacing dynamically. -/
def dynamicDailyBudget (c : DeliveryLimitsChecker) (today total : Counts) : Int :=
  if c.remainDays > 0 then
    P.div (c.deliveryLimits.budget.val - total.amount + today.amount) c.remainDays
  else 0

/-- The total limits of a positive amount. The budget is compared whether or not
it is present: imps or clicks limits alone read the value it was left with. -/
def checkTotal (c : DeliveryLimitsChecker) (today total : Counts) (allowed : Option Counts) :
    Verdict :=
  let limits := c.deliveryLimits
  if total.amount ≥ limits.budget.val then (false, allowed)
  else if limits.impsDec.present && decide (total.imps ≥ limits.impsDec.val) then (false, allowed)
  else if limits.clicksDec.present && decide (total.clicks ≥ limits.clicksDec.val) then
    (false, allowed)
  else
    let allowed := allowed.map (fun a =>
      { amount := min (limits.budget.val - total.amount) a.amount
        imps :=
          if limits.impsDec.present then min (limits.impsDec.val - total.imps) a.imps
          else unlimitedImps P
        clicks :=
          if limits.clicksDec.present then min (limits.clicksDec.val - total.clicks) a.clicks
          else unlimitedImps P })
    if limits.deliveryPacing == 'D' && limits.dateEnd != 0 then
      let dynamic := c.dynamicDailyBudget P today total
      if today.amount ≥ dynamic then (false, allowed)
      else (true, allowed.map (fun a => { a with amount := min (dynamic - today.amount) a.amount }))
    else (true, allowed)

/-- `check_`. No holder means nothing recorded; `allowed` is none for null
pointers. -/
def check_ (c : DeliveryLimitsChecker) (amountHolder : Option AmountHolder)
    (allowed : Option Counts) (positive : Bool) : Verdict :=
  let today : Counts := match amountHolder with
    | some days => days.dayAmount c.advTzNowDate
    | none => 0
  let allowed := allowed.map (fun a =>
    { a with imps := unlimitedImps P, clicks := unlimitedImps P })
  andThen (if positive then c.checkDaily today allowed else checkNegative today allowed)
    fun allowed =>
      if !positive || (c.deliveryLimits.budget.present || c.deliveryLimits.impsDec.present ||
          c.deliveryLimits.clicksDec.present) then
        let total : Counts := match amountHolder with
          | some days => days.total
          | none => 0
        if positive then c.checkTotal P today total allowed else checkNegative total allowed
      else (true, allowed)

/-- What a confirmation is allowed to add, as optionals. -/
structure AllowedAdd where
  amount : Optional Int
  imps : Optional Int
  clicks : Optional Int

def AllowedAdd.absent : AllowedAdd := ⟨.absent P.initial, .absent P.initial, .absent P.initial⟩

/-- The check inside `confirm_amount`, with what it leaves in the optionals. -/
def confirmCheck (c : DeliveryLimitsChecker) (amountHolder : AmountHolder) (add : Counts) :
    Bool × AllowedAdd :=
  let allowedAdd := AllowedAdd.absent P
  if !c.checkRequired then (true, allowedAdd)
  else
    let verdict := c.check_ P (some amountHolder) (some add) (decide (add.amount > 0))
    let allowed := verdict.2.getD add
    -- operator* writes the value and leaves the optional absent
    (verdict.1,
      { amount := allowedAdd.amount.assign allowed.amount
        imps := allowedAdd.imps.assign allowed.imps
        clicks := allowedAdd.clicks.assign allowed.clicks })

/-- `confirm_amount`: the verdict, the holder after it and what is left of the
amount to add. -/
def confirmAmount (c : DeliveryLimitsChecker) (amountHolder : AmountHolder) (add : Counts)
    (forced : Bool) : Bool × AmountHolder × Counts :=
  let checked := c.confirmCheck P amountHolder add
  if checked.1 || forced then
    let resAdd : Counts :=
      ⟨checked.2.amount.valueOr add.amount, checked.2.imps.valueOr add.imps,
        checked.2.clicks.valueOr add.clicks⟩
    (checked.1, amountHolder.addAmount c.advTzNowDate resAdd, add - resAdd)
  else (checked.1, amountHolder, add)

/-- Whether a confirmation passes the limits. -/
def passes (c : DeliveryLimitsChecker) (amountHolder : AmountHolder) (positive : Bool) : Bool :=
  !c.checkRequired || (c.check_ P (some amountHolder) none positive).1

section Verdicts

/-! The verdict does not depend on what the caller asks to be allowed. -/

variable (c : DeliveryLimitsChecker) (today total : Counts) (a b : Option Counts)

theorem checkDaily_verdict : (c.checkDaily today a).1 = (c.checkDaily today b).1 := by
  unfold checkDaily
  dsimp only
  split_ifs <;> rfl

theorem checkNegative_verdict : (checkNegative total a).1 = (checkNegative total b).1 := by
  unfold checkNegative
  split_ifs <;> rfl

theorem checkTotal_verdict : (c.checkTotal P today total a).1 = (c.checkTotal P today total b).1 := by
  unfold checkTotal
  dsimp only
  split_ifs <;> rfl

omit today total a b in
theorem andThen_verdict {v w : Verdict} {f g : Option Counts → Verdict} (first : v.1 = w.1)
    (next : ∀ x y, (f x).1 = (g y).1) : (andThen v f).1 = (andThen w g).1 := by
  unfold andThen
  rw [first]
  split
  · exact next _ _
  · exact first

theorem check_verdict (holder : Option AmountHolder) (positive : Bool) :
    (c.check_ P holder a positive).1 = (c.check_ P holder b positive).1 := by
  refine andThen_verdict ?_ fun x y => ?_
  · cases positive
    · exact checkNegative_verdict _ _ _
    · exact checkDaily_verdict c _ _ _
  · dsimp only
    split_ifs
    · exact checkTotal_verdict P c _ _ _ _
    · exact checkNegative_verdict _ _ _
    · rfl

end Verdicts

section
variable (c : DeliveryLimitsChecker)

section
variable (holder : AmountHolder)

theorem confirmCheck_verdict (add : Counts) :
    (c.confirmCheck P holder add).1 = c.passes P holder (decide (add.amount > 0)) := by
  unfold confirmCheck passes
  rw [check_verdict P c none (some add)]
  cases c.checkRequired <;> simp

theorem confirmCheck_absent (add : Counts) :
    (c.confirmCheck P holder add).2.amount.present = false ∧
      (c.confirmCheck P holder add).2.imps.present = false ∧
      (c.confirmCheck P holder add).2.clicks.present = false := by
  unfold confirmCheck
  cases c.checkRequired
  · exact ⟨rfl, rfl, rfl⟩
  · exact ⟨rfl, rfl, rfl⟩

theorem confirmAmount_accepted (add : Counts) (forced : Bool)
    (h : c.passes P holder (decide (add.amount > 0)) = true ∨ forced = true) :
    c.confirmAmount P holder add forced =
      (c.passes P holder (decide (add.amount > 0)), holder.addAmount c.advTzNowDate add, 0) := by
  obtain ⟨amount, imps, clicks⟩ := confirmCheck_absent P c holder add
  unfold confirmAmount
  simp only [confirmCheck_verdict, Optional.valueOr, amount, imps, clicks, Bool.or_eq_true, h,
    if_true, Bool.false_eq_true, if_false, sub_self]

theorem confirmAmount_refused (add : Counts)
    (h : c.passes P holder (decide (add.amount > 0)) = false) :
    c.confirmAmount P holder add false = (false, holder, add) := by
  unfold confirmAmount
  simp only [confirmCheck_verdict, h, Bool.or_self, Bool.false_eq_true, if_false]

end

end

end DeliveryLimitsChecker

end AdServer.Billing
