import AdServer.Lib.FixedPoint
import AdServer.Lib.Postings
import AdServer.Lib.SortedMap
import Mathlib.Data.Finset.Basic

/-!
# Campaign configuration

The parts of tags, creatives, accounts and campaigns that choosing an ad reads.
Decimals are integers in units of the fixed point.
-/

namespace AdServer.CampaignManager

open AdServer.Lib

/-- `RevenueDecimal` and `ExtRevenueDecimal`: the wider decimal has twice as
many digits, and quotients are rounded towards zero. -/
structure RevenueArith extends FixedPoint where
  digits : Nat
  one_eq : one = 10 ^ digits
  ext : FixedPoint
  ext_one : ext.one = one * one
  div_neg : ∀ a b, div (-a) b = -div a b

namespace RevenueArith

/-- Eight decimal digits, and sixteen for the wider decimal. -/
def floored : RevenueArith where
  one := 10 ^ 8
  mul a b := a * b / 10 ^ 8
  div a b := if 0 ≤ a then a * 10 ^ 8 / b else -(-a * 10 ^ 8 / b)
  one_pos := by decide
  mul_floor := (FixedPoint.floored (10 ^ 8) (by decide)).mul_floor
  div_floor := by
    intro a b ha hb
    rw [if_pos ha]
    exact (FixedPoint.floored (10 ^ 8) (by decide)).div_floor ha hb
  digits := 8
  one_eq := rfl
  ext := FixedPoint.floored (10 ^ 16) (by decide)
  ext_one := by decide
  div_neg := by
    intro a b
    rcases lt_trichotomy a 0 with neg | rfl | pos
    · rw [if_pos (by omega), if_neg (by omega)]
      simp
    · simp
    · rw [if_neg (by omega), if_pos (by omega), neg_neg]

variable (R : RevenueArith)

/-- The decimal of a whole number. -/
def ofNat (n : Nat) : Int := n * R.one

/-- `ECPM_FACTOR`. -/
def ecpmFactor : Int := R.ofNat 100000

/-- `narrow_decimal` from the wider decimal. -/
def narrow (x : Int) : Int := x / R.one

/-- `narrow_decimal` to the wider decimal. -/
def widen (x : Int) : Int := x * R.one

/-- One in the last of so many digits. -/
def lastDigit (fraction : Nat) : Int := 10 ^ (R.digits - fraction)

/-- `ceil`: rounded up to so many digits. -/
def ceil (x : Int) (fraction : Nat) : Int :=
  -(-x / R.lastDigit fraction) * R.lastDigit fraction

theorem ofNat_nonneg (n : Nat) : 0 ≤ R.ofNat n := Int.mul_nonneg (by omega) R.one_pos.le

theorem ofNat_lt {m n : Nat} (h : m < n) : R.ofNat m < R.ofNat n :=
  Int.mul_lt_mul_of_pos_right (by omega) R.one_pos

theorem ofNat_one : R.ofNat 1 = R.one := by simp [ofNat]

theorem share_lt_one {m n : Nat} (h : m < n) :
    0 ≤ R.div (R.ofNat m) (R.ofNat n) ∧ R.div (R.ofNat m) (R.ofNat n) < R.one := by
  have pos : 0 < R.ofNat n := lt_of_le_of_lt (R.ofNat_nonneg m) (R.ofNat_lt h)
  exact ⟨R.div_nonneg (R.ofNat_nonneg m) pos, R.div_lt_one (R.ofNat_nonneg m) (R.ofNat_lt h)⟩

theorem mul_ofNat {a : Int} (ha : 0 ≤ a) (n : Nat) : R.mul a (R.ofNat n) = a * n := by
  obtain ⟨low, high⟩ := R.mul_floor ha (R.ofNat_nonneg n)
  rw [ofNat, ← mul_assoc] at low high
  apply le_antisymm
  · exact le_of_mul_le_mul_right low R.one_pos
  · exact FixedPoint.le_of_mul_lt R.one_pos high

theorem lastDigit_pos (fraction : Nat) : 0 < R.lastDigit fraction := Int.pow_pos (by decide)

theorem ceil_mono {x y : Int} (h : x ≤ y) (fraction : Nat) :
    R.ceil x fraction ≤ R.ceil y fraction := by
  have pos := R.lastDigit_pos fraction
  have quotients : -y / R.lastDigit fraction ≤ -x / R.lastDigit fraction :=
    Int.ediv_le_ediv pos (neg_le_neg h)
  exact Int.mul_le_mul_of_nonneg_right (neg_le_neg quotients) pos.le

theorem le_ceil (x : Int) (fraction : Nat) : x ≤ R.ceil x fraction := by
  have down := Int.ediv_mul_le (-x) (R.lastDigit_pos fraction).ne'
  rw [ceil, neg_mul]
  omega

theorem ceil_le_ceil_iff {x y : Int} {fraction : Nat} :
    R.ceil x fraction ≤ R.ceil y fraction ↔ x ≤ R.ceil y fraction := by
  refine ⟨(R.le_ceil x fraction).trans, fun le => ?_⟩
  have again : R.ceil (R.ceil y fraction) fraction = R.ceil y fraction := by
    unfold ceil
    rw [← neg_mul, neg_neg, Int.mul_ediv_cancel _ (R.lastDigit_pos fraction).ne', neg_mul]
  exact (R.ceil_mono le fraction).trans again.le

theorem lastDigit_le_ceil {x : Int} (h : 0 < x) (fraction : Nat) :
    R.lastDigit fraction ≤ R.ceil x fraction := by
  have pos := R.lastDigit_pos fraction
  have below : -x / R.lastDigit fraction < 0 := Int.ediv_neg_of_neg_of_pos (by omega) pos
  have whole : 1 ≤ -(-x / R.lastDigit fraction) := by omega
  calc R.lastDigit fraction = 1 * R.lastDigit fraction := (one_mul _).symm
    _ ≤ R.ceil x fraction := Int.mul_le_mul_of_nonneg_right whole pos.le

end RevenueArith

structure Size where
  sizeId : Nat
  protocolName : String
  deriving DecidableEq, Inhabited

/-- `Tag::Size`. -/
structure TagSize where
  size : Size
  maxTextCreatives : Nat
  deriving DecidableEq

/-- `Tag::SizeMap`: the sizes of a tag under their own ids. -/
structure TagSizeMap where
  sizes : SortedMap Nat TagSize
  keyed : ∀ id tagSize, sizes.find? id = some tagSize → tagSize.size.sizeId = id

namespace TagSizeMap

def empty : TagSizeMap := ⟨SortedMap.empty, by simp⟩

instance : Inhabited TagSizeMap := ⟨empty⟩

/-- `tag_sizes.insert(make_pair(tag_size->size->size_id, tag_size))`. -/
def put (m : TagSizeMap) (tagSize : TagSize) : TagSizeMap where
  sizes := m.sizes.put tagSize.size.sizeId tagSize
  keyed := by
    intro id found h
    rw [SortedMap.find?_put] at h
    split at h
    · next here => cases h; exact here.symm
    · exact m.keyed id found h

end TagSizeMap

structure Currency where
  rate : Int
  fraction : Nat
  deriving DecidableEq, Inhabited

inductive AuctionRateType where
  | gross
  | net
  deriving DecidableEq, Inhabited

/-- What costs depend on in the account that pays the commission. -/
structure CommisionAccount where
  atFlags : Nat
  auctionRate : AuctionRateType
  selfServiceCommission : Int
  deriving DecidableEq

/-- `AccountDef`. -/
structure Account where
  accountId : Nat
  atFlags : Nat
  auctionRate : AuctionRateType
  agencyAccount : Option CommisionAccount
  textAdserving : Char
  currency : Currency
  mediaHandlingFee : Int
  commision : Int
  selfServiceCommission : Int
  deriving DecidableEq, Inhabited

inductive TextAdserving where
  | one
  | advertiserOne
  | all
  deriving DecidableEq

def Account.getTextAdserving (account : Account) : TextAdserving :=
  if account.textAdserving = 'O' then .one
  else if account.textAdserving = 'A' then .advertiserOne
  else .all

structure Site where
  account : Account
  approvedCreativeCategories : Finset Nat
  rejectedCreativeCategories : Finset Nat
  approvedCreatives : Finset Nat
  rejectedCreatives : Finset Nat
  deriving Inhabited

namespace Site

def siteExclusionFlag : Nat := 0x100
def tagExclusionFlag : Nat := 0x400

def siteExclusion (site : Site) : Bool := site.account.atFlags &&& siteExclusionFlag != 0

def tagExclusion (site : Site) : Bool := site.account.atFlags &&& tagExclusionFlag != 0

end Site

inductive CCGType where
  | display
  | text
  | all
  deriving DecidableEq

inductive CCGRateType where
  | cpm
  | cpc
  | cpa
  | maxBid
  | all
  deriving DecidableEq, Inhabited

structure TagPricing where
  siteRateId : Nat
  cpm : Int
  revenueShare : Int
  deriving DecidableEq

/-- `TagPricing::DEFAULT`. -/
def TagPricing.default : TagPricing := ⟨0, 0, 0⟩

structure TagPricingKey where
  countryCode : String
  ccgType : CCGType
  ccgRateType : CCGRateType
  deriving DecidableEq

structure Tag where
  tagId : Nat
  site : Site
  sizes : TagSizeMap
  marketplace : Char
  adjustment : Int
  tagPricings : AList (fun _ : TagPricingKey => TagPricing)
  acceptedCategories : Finset Nat
  rejectedCategories : Finset Nat
  allowExpandable : Bool
  deriving Inhabited

namespace Tag

def selectTagPricing_ (tag : Tag) (countryCode : String) (ccgType : CCGType)
    (ccgRateType : CCGRateType) : Option TagPricing :=
  (tag.tagPricings.lookup ⟨countryCode, ccgType, ccgRateType⟩).or <|
  (tag.tagPricings.lookup ⟨countryCode, ccgType, .all⟩).or <|
  (tag.tagPricings.lookup ⟨countryCode, .all, ccgRateType⟩).or <|
  tag.tagPricings.lookup ⟨countryCode, .all, .all⟩

def selectTagPricing (tag : Tag) (countryCode : String) (ccgType : CCGType)
    (ccgRateType : CCGRateType) : TagPricing :=
  let rate := if ccgRateType = .maxBid then .cpm else ccgRateType
  ((tag.selectTagPricing_ countryCode ccgType rate).or
    (tag.selectTagPricing_ "" ccgType rate)).getD .default

end Tag

/-- `Creative::Size`. -/
structure CreativeSize where
  size : Size
  upExpandSpace : Nat
  rightExpandSpace : Nat
  downExpandSpace : Nat
  leftExpandSpace : Nat
  expandable : Bool
  deriving DecidableEq

structure Creative where
  ccid : Nat
  creativeId : Nat
  fcId : Nat
  sizes : SortedMap Nat CreativeSize
  creativeFormat : String
  orderSetId : Nat
  status : Char
  categories : Finset Nat
  clickCategories : Finset Nat
  definedContentCategory : Bool
  destinationUrl : String
  videoDuration : Nat
  videoSkipOffset : Option Nat
  httpsSafeFlag : Bool
  deriving DecidableEq, Inhabited

structure CreativeTemplateKey where
  creativeFormat : String
  creativeSize : String
  appFormat : String
  deriving DecidableEq

structure CreativeTemplate where
  file : String
  status : Char
  deriving DecidableEq

/-- What reading a template's file may throw. -/
inductive TemplateError where
  | fileNotExists
  | invalidTemplate
  | exception
  deriving DecidableEq

/-- `creative_templates` with what its files hold, and
`all_template_appformats`, which gets the app format of every key inserted. -/
structure CreativeTemplateMap where
  keyMap : AList (fun _ : CreativeTemplateKey => CreativeTemplate)
  create : String → Except TemplateError Unit
  allTemplateAppformats : List String
  distinct : allTemplateAppformats.Nodup
  covered : ∀ key template, keyMap.lookup key = some template →
    key.appFormat ∈ allTemplateAppformats

namespace CreativeTemplateMap

def empty (create : String → Except TemplateError Unit) : CreativeTemplateMap where
  keyMap := ∅
  create := create
  allTemplateAppformats := []
  distinct := List.nodup_nil
  covered := by simp

/-- One file of `apply_creative_templates_update_`. -/
def insert (m : CreativeTemplateMap) (key : CreativeTemplateKey) (template : CreativeTemplate) :
    CreativeTemplateMap where
  keyMap := m.keyMap.insert key template
  create := m.create
  allTemplateAppformats := m.allTemplateAppformats.insert key.appFormat
  distinct := m.distinct.insert
  covered := by
    intro key' template' h
    by_cases same : key' = key
    · subst same
      exact List.mem_insert_self
    · rw [AList.lookup_insert_ne same] at h
      exact List.mem_insert_of_mem (m.covered key' template' h)

def getValue (m : CreativeTemplateMap) (key : CreativeTemplateKey) : Option CreativeTemplate :=
  m.keyMap.lookup key

/-- `get`: the template with its file, which may fail to be read. -/
def get (m : CreativeTemplateMap) (key : CreativeTemplateKey) :
    Except TemplateError (Option CreativeTemplate) :=
  match m.getValue key with
  | none => .ok none
  | some template => (m.create template.file).map (fun _ => some template)

theorem getValue_of_get {m : CreativeTemplateMap} {key : CreativeTemplateKey}
    {template : CreativeTemplate} (h : m.get key = .ok (some template)) :
    m.getValue key = some template := by
  unfold get at h
  split at h
  · simp at h
  · next found here =>
    cases read : m.create found.file with
    | error e => simp [read, Except.map] at h
    | ok _ =>
      rw [read] at h
      simp only [Except.map, Except.ok.injEq, Option.some.injEq] at h
      rw [here, h]

end CreativeTemplateMap

structure CreativeBySizeKey where
  sizeId : Nat
  appFormat : String
  deriving DecidableEq

inductive BidStrategy where
  | maxReach
  | minCtrGoal
  deriving DecidableEq, Inhabited

/-- The fields of `Campaign` that choosing an ad reads. -/
structure Campaign where
  campaignId : Nat
  account : Account
  advertiser : Account
  ccgRateType : CCGRateType
  clickRevenue : Int
  clickSysRevenue : Int
  commision : Int
  bidStrategy : BidStrategy
  minCtrGoal : Int
  ecpm_ : Int
  ctr : Int
  seqSetRotateImps : Nat
  creatives : List Creative
  optOrderSets : SortedMap Nat Unit
  optCreativesBySize : Postings CreativeBySizeKey Creative
  deriving Inhabited

def Campaign.useCtr (campaign : Campaign) : Bool := campaign.ccgRateType == .cpc

inductive UserStatus where
  | undefined
  | optin
  | optout
  | probe
  | externalProbe
  | temporary
  | noExternalId
  | foreign
  | blacklisted
  | none
  deriving DecidableEq

end AdServer.CampaignManager
