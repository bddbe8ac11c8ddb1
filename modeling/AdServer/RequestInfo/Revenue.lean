import Mathlib.Order.Nat

/-!
# Revenues of a request

Amounts are counted in units of `RevenueDecimal`. Its products and quotients come
rounded from the decimal library, under the rounding the caller names.
-/

namespace AdServer.RequestInfo

structure RevenueArithmetic where
  one : Int
  mulFloor : Int → Int → Int
  mulCeil : Int → Int → Int
  /-- The quotient under the rounding that the library has as its own. -/
  div : Int → Int → Int
  divFloor : Int → Int → Int
  divCeil : Int → Int → Int
  deriving Inhabited

@[ext] structure Revenue where
  rateId : Nat := 0
  impression : Int := 0
  click : Int := 0
  action : Int := 0
  deriving DecidableEq

namespace Revenue

/-- Sums keep the rate of the left side. -/
instance : Add Revenue := ⟨fun left right =>
  { left with
      impression := left.impression + right.impression
      click := left.click + right.click
      action := left.action + right.action }⟩

instance : Sub Revenue := ⟨fun left right =>
  { left with
      impression := left.impression - right.impression
      click := left.click - right.click
      action := left.action - right.action }⟩

section
variable (left right : Revenue)

@[simp] theorem add_impression :
    (left + right).impression = left.impression + right.impression := rfl
@[simp] theorem sub_impression :
    (left - right).impression = left.impression - right.impression := rfl

end

/-- Each amount changed the same way. -/
def mapAmounts (f : Int → Int) (revenue : Revenue) : Revenue :=
  { revenue with
      impression := f revenue.impression
      click := f revenue.click
      action := f revenue.action }

variable (A : RevenueArithmetic)

def mul (revenue : Revenue) (factor : Int) : Revenue :=
  revenue.mapAmounts fun amount => A.mulFloor amount factor

def divide (revenue : Revenue) (divider : Int) : Revenue :=
  revenue.mapAmounts fun amount => A.divFloor amount divider

/-- The rate is lost with the currency. -/
def convertCurrency (revenue : Revenue) (valueCurrencyRate resultCurrencyRate : Int) : Revenue :=
  if valueCurrencyRate = resultCurrencyRate then revenue
  else { revenue.mapAmounts (fun amount =>
    A.mulCeil (A.div amount valueCurrencyRate) resultCurrencyRate) with rateId := 0 }

end Revenue

/-- `RequestInfoContainer::div`. -/
def RevenueArithmetic.divOrZero (A : RevenueArithmetic) (dividend divisor : Int) : Int :=
  if divisor ≠ 0 then A.divCeil dividend divisor else 0

structure AdvBillingAmounts where
  advAmount : Int
  advCommAmount : Int
  deriving DecidableEq

/-- `publisherAmount` is in the advertiser's currency already. -/
def calculateAdvBillingAmounts (A : RevenueArithmetic) (agencyProfitByPubAmount : Bool)
    (originalAdvAmount publisherAmount advCommission : Int) : AdvBillingAmounts :=
  if !agencyProfitByPubAmount then
    ⟨originalAdvAmount, originalAdvAmount - publisherAmount⟩
  else
    let advCommAmount := A.mulFloor publisherAmount advCommission
    ⟨publisherAmount + advCommAmount, advCommAmount⟩

/-- `AGENCY_PROFIT_BY_PUB_AMOUNT` is the fifteenth bit. -/
def agencyProfitByPubAmount (atFlags : Nat) : Bool := atFlags.testBit 15

end AdServer.RequestInfo
