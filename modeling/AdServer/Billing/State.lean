import AdServer.Lib.FixedPoint
import AdServer.Lib.RunningTotals

/-!
# Billing state and configuration

The amounts a billing server keeps for accounts, campaigns and campaign
creative groups, and the limits it keeps them under. Decimals are integers in
units of the fixed point, times are microseconds.
-/

namespace AdServer.Billing

open AdServer.Lib

abbrev Time := Int

def oneSecond : Time := 1000000
def oneHour : Time := 3600 * oneSecond
def oneDay : Time := 24 * oneHour

/-- The decimal arithmetic and the calendar under the server: `getDate` is
`get_gm_time().get_date()`, `initial` is what a decimal holds before it is
assigned. -/
structure Platform extends FixedPoint where
  getDate : Time → Time
  initial : Int

namespace Platform

/-- Eight decimal digits, rounding down, and days cut from the epoch. -/
def floored : Platform :=
  { FixedPoint.floored 100000000 (by decide) with
    getDate := fun t => t - t % oneDay
    initial := 0 }

/-- The decimal of a whole number. -/
def ofInt (P : Platform) (n : Int) : Int := n * P.one

end Platform

/-- `Commons::Optional`: the value can be read and written whether or not the
flag is set. -/
structure Optional (α : Type) where
  present : Bool
  val : α
  deriving DecidableEq, Repr

namespace Optional

def absent {α : Type} (val : α) : Optional α := ⟨false, val⟩

/-- Assignment through `operator*`, which leaves the flag alone. -/
def assign {α : Type} (o : Optional α) (val : α) : Optional α := { o with val := val }

def valueOr {α : Type} (o : Optional α) (other : α) : α := if o.present then o.val else other

end Optional

/-- Money, impressions and clicks kept side by side. -/
@[ext] structure Counts where
  amount : Int
  imps : Int
  clicks : Int
  deriving DecidableEq, Repr

namespace Counts

instance : Zero Counts := ⟨⟨0, 0, 0⟩⟩
instance : Add Counts := ⟨fun a b => ⟨a.amount + b.amount, a.imps + b.imps, a.clicks + b.clicks⟩⟩
instance : Neg Counts := ⟨fun a => ⟨-a.amount, -a.imps, -a.clicks⟩⟩
instance : Sub Counts := ⟨fun a b => ⟨a.amount - b.amount, a.imps - b.imps, a.clicks - b.clicks⟩⟩

section
variable (a b : Counts)

@[simp] theorem zero_amount : (0 : Counts).amount = 0 := rfl
@[simp] theorem zero_imps : (0 : Counts).imps = 0 := rfl
@[simp] theorem zero_clicks : (0 : Counts).clicks = 0 := rfl
@[simp] theorem add_amount : (a + b).amount = a.amount + b.amount := rfl
@[simp] theorem add_imps : (a + b).imps = a.imps + b.imps := rfl
@[simp] theorem add_clicks : (a + b).clicks = a.clicks + b.clicks := rfl
@[simp] theorem neg_amount : (-a).amount = -a.amount := rfl
@[simp] theorem neg_imps : (-a).imps = -a.imps := rfl
@[simp] theorem neg_clicks : (-a).clicks = -a.clicks := rfl
@[simp] theorem sub_amount : (a - b).amount = a.amount - b.amount := rfl
@[simp] theorem sub_imps : (a - b).imps = a.imps - b.imps := rfl
@[simp] theorem sub_clicks : (a - b).clicks = a.clicks - b.clicks := rfl

end

instance : AddCommGroup Counts where
  add_assoc a b c := by ext <;> simp [add_assoc]
  zero_add a := by ext <;> simp
  add_zero a := by ext <;> simp
  add_comm a b := by ext <;> simp [add_comm]
  neg_add_cancel a := by ext <;> simp
  sub_eq_add_neg a b := by ext <;> simp [sub_eq_add_neg]
  nsmul := nsmulRec
  zsmul := zsmulRec

/-- Nothing is negative. -/
def Nonneg (a : Counts) : Prop := 0 ≤ a.amount ∧ 0 ≤ a.imps ∧ 0 ≤ a.clicks

instance (a : Counts) : Decidable a.Nonneg :=
  inferInstanceAs (Decidable (0 ≤ a.amount ∧ 0 ≤ a.imps ∧ 0 ≤ a.clicks))

end Counts

/-- `AccountAmountHolder`. -/
abbrev AccountAmountHolder := Days Time Int

/-- `AmountHolder`: the three running totals of one day move together. -/
abbrev AmountHolder := Days Time Counts

/-- `BillingContainerState`: the recorded amounts by entity. -/
structure BillingContainerState where
  accounts : Ledgers Nat Time Int
  campaigns : Ledgers Nat Time Counts
  ccgs : Ledgers Nat Time Counts
  deriving DecidableEq

namespace BillingContainerState

def empty : BillingContainerState := ⟨SortedMap.empty, SortedMap.empty, SortedMap.empty⟩

end BillingContainerState

structure Account where
  active : Bool
  timeOffset : Time
  budget : Int
  deriving DecidableEq

/-- `CommonDeliveryLimits` with its `DeliveryLimitsCalcHelper`. -/
structure DeliveryLimits where
  active : Bool
  timeOffset : Time
  dateEnd : Time
  advTzDateEnd : Time
  deliveryPacing : Char
  budget : Optional Int
  dailyBudget : Optional Int
  impsDec : Optional Int
  dailyImpsDec : Optional Int
  clicksDec : Optional Int
  dailyClicksDec : Optional Int
  deriving DecidableEq

/-- `InternalConfig`. -/
structure Config where
  accounts : SortedMap Nat Account
  campaigns : SortedMap Nat DeliveryLimits
  ccgs : SortedMap Nat DeliveryLimits
  deriving DecidableEq

structure Bid where
  time : Time
  accountId : Nat
  advertiserId : Nat
  campaignId : Nat
  ccgId : Nat
  deriving DecidableEq

/-- What a bid names in the configuration. -/
structure ResolveResult where
  account : Option Account
  advertiser : Option Account
  campaign : Option DeliveryLimits
  ccg : Option DeliveryLimits

def Config.resolveAccount (config : Config) (accountId : Nat) : Option Account :=
  config.accounts.find? accountId

def Config.resolveBid (config : Config) (bid : Bid) : ResolveResult where
  account := config.resolveAccount bid.accountId
  advertiser := if bid.advertiserId ≠ 0 then config.resolveAccount bid.advertiserId else none
  campaign := config.campaigns.find? bid.campaignId
  ccg := config.ccgs.find? bid.ccgId

/-- `DEFAULT_FORCED_ACCOUNT_TRAITS`. -/
def defaultForcedAccountTraits (P : Platform) : Account :=
  { active := false, timeOffset := 0, budget := P.initial }

/-- `DEFAULT_FORCED_CAMPAIGN_TRAITS` and `DEFAULT_FORCED_CCG_TRAITS`. -/
def defaultForcedEntityTraits (P : Platform) : DeliveryLimits where
  active := false
  timeOffset := 0
  dateEnd := 0
  advTzDateEnd := 0
  deliveryPacing := 'F'
  budget := .absent P.initial
  dailyBudget := .absent P.initial
  impsDec := .absent P.initial
  dailyImpsDec := .absent P.initial
  clicksDec := .absent P.initial
  dailyClicksDec := .absent P.initial

end AdServer.Billing
