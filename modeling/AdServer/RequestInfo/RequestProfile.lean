import AdServer.RequestInfo.Revenue
import AdServer.RequestInfo.RequestPool

/-!
# The profile of a request

The container keeps one profile for a request id: the terms the request came
with, its revenues, and counters of the events that were processed or that wait
for the event they follow.
-/

namespace AdServer.RequestInfo

def Time.seconds (time : Time) : Int := time / 1000000

def Time.ofSeconds (seconds : Int) : Time := seconds * 1000000

inductive RequestState where
  | normal
  | fraud
  | moved
  | rollback
  | resave
  | duplicate
  deriving DecidableEq

inductive RevenueType where
  | none
  | absolute
  | share
  deriving DecidableEq

/-- The null user id is `none`. -/
abbrev UserId := Option Nat

/-- What the profile takes from the request as it is. -/
structure RequestTerms where
  userId : UserId := none
  advAccountId : Nat := 0
  advertiserId : Nat := 0
  campaignId : Nat := 0
  ccgId : Nat := 0
  ctr : Int := 0
  advPayableCommAmount : Revenue := {}
  advCurrencyRate : Int := 0
  pubCurrencyRate : Int := 0
  ispCurrencyRate : Int := 0
  pubCommission : Int := 0
  ispRevenueShare : Int := 0
  selfServiceCommission : Int := 0
  advCommission : Int := 0
  pubCostCoef : Int := 0
  atFlags : Nat := 0
  enabledNotice : Bool := false
  disabledPubCostCheck : Bool := false
  enabledImpressionTracking : Bool := false
  enabledActionTracking : Bool := false
  deriving DecidableEq

structure Revenues where
  advRevenue : Revenue := {}
  advCommRevenue : Revenue := {}
  pubRevenue : Revenue := {}
  pubCommRevenue : Revenue := {}
  ispRevenue : Revenue := {}
  deltaAdvRevenue : Revenue := {}
  deriving DecidableEq

set_option linter.dupNamespace false in
structure RequestInfo extends RequestTerms, Revenues where
  time : Time := 0
  impTime : Time := 0
  clickTime : Time := 0
  actionTime : Time := 0
  viewability : Int := 0
  fraud : RequestState := .normal
  deriving DecidableEq

structure PubRevenue where
  revenueType : RevenueType := .none
  impression : Int := 0
  deriving DecidableEq

/-- An impression when `verifyImpression`, else a notice. -/
structure ImpressionInfo where
  time : Time := 0
  verifyImpression : Bool := true
  pubRevenue : Option PubRevenue := none
  userId : UserId := none
  viewability : Int := -1
  deriving DecidableEq

structure RequestPostActionInfo where
  time : Time
  actionName : String
  deriving DecidableEq

/-- What was processed, and what waits (`nonConsidered`). The fields have 32 bits, which no run of
fewer than 2^32 events exceeds (`counters_le`). -/
@[ext] structure Counters where
  requestDone : Nat := 0
  noticeReceived : Nat := 0
  noticeNonConsidered : Nat := 0
  impressionVerified : Nat := 0
  impressionNonConsidered : Nat := 0
  clickDone : Nat := 0
  clickNonConsidered : Nat := 0
  actionsDone : Nat := 0
  actionsNonConsidered : Nat := 0
  postImpressionActions : List String := []
  fraud : RequestState := .normal
  deriving DecidableEq

def Counters.counts (counters : Counters) : List Nat :=
  [counters.requestDone, counters.noticeReceived, counters.noticeNonConsidered,
    counters.impressionVerified, counters.impressionNonConsidered, counters.clickDone,
    counters.clickNonConsidered, counters.actionsDone, counters.actionsNonConsidered]

/-- Times are in seconds here. -/
structure RequestProfile extends RequestTerms, Revenues, Counters where
  time : Int := 0
  origPubRevenue : Revenue := {}
  noticePubRevenueType : RevenueType := .none
  noticeImpRevenue : Option Int := none
  impressionTime : Int := 0
  impressionPubRevenueType : RevenueType := .none
  impressionImpRevenue : Option Int := none
  impressionUserId : UserId := none
  clickTime : Int := 0
  actionTime : Int := 0
  fraudTime : Int := 0
  viewability : Int := 0
  deriving DecidableEq

/-- The fraud mark of the profile is not read. -/
def convertRequestReaderToRequestInfo (requestReader : RequestProfile) : RequestInfo where
  toRequestTerms := requestReader.toRequestTerms
  toRevenues := requestReader.toRevenues
  time := Time.ofSeconds requestReader.time
  impTime := Time.ofSeconds requestReader.impressionTime
  clickTime := Time.ofSeconds requestReader.clickTime
  actionTime := Time.ofSeconds requestReader.actionTime
  viewability := requestReader.viewability

def convertRequestReaderToImpressionInfo (requestReader : RequestProfile) (notice : Bool) :
    ImpressionInfo :=
  if notice then
    { time := Time.ofSeconds requestReader.time
      pubRevenue := requestReader.noticeImpRevenue.map fun impression =>
        ⟨requestReader.noticePubRevenueType, impression⟩ }
  else
    { time := Time.ofSeconds requestReader.impressionTime
      userId := requestReader.impressionUserId
      viewability := requestReader.viewability
      pubRevenue := requestReader.impressionImpRevenue.map fun impression =>
        ⟨requestReader.impressionPubRevenueType, impression⟩ }

def fillAutoImpressionInfo (requestReader : RequestProfile) : ImpressionInfo :=
  { time := Time.ofSeconds requestReader.time }

def clearActionFields (requestWriter : RequestProfile) : RequestProfile :=
  { requestWriter with
      requestDone := 0
      noticeReceived := 0
      noticeNonConsidered := 0
      noticePubRevenueType := .none
      impressionTime := 0
      impressionVerified := 0
      impressionNonConsidered := 0
      impressionPubRevenueType := .none
      clickTime := 0
      clickDone := 0
      clickNonConsidered := 0
      actionTime := 0
      actionsDone := 0
      actionsNonConsidered := 0
      fraudTime := 0
      fraud := .normal }

def createEmptyStub : RequestProfile := clearActionFields { viewability := -1 }

def convertRequestInfoToRequestWriter (requestInfo : RequestInfo)
    (requestWriter : RequestProfile) : RequestProfile :=
  { requestWriter with
      toRequestTerms := requestInfo.toRequestTerms
      toRevenues := requestInfo.toRevenues
      requestDone := 1
      time := Time.seconds requestInfo.time
      origPubRevenue := requestInfo.pubRevenue
      viewability := requestInfo.viewability }

/-- A revenue that is absent has the type of an empty one. -/
def convertImpressionInfoToRequestWriter (impressionInfo : ImpressionInfo)
    (requestWriter : RequestProfile) (notice : Bool) : RequestProfile :=
  let revenueType := (impressionInfo.pubRevenue.getD {}).revenueType
  let impRevenue := impressionInfo.pubRevenue.map (·.impression)
  if notice then
    { requestWriter with
        noticePubRevenueType := revenueType
        noticeImpRevenue := impRevenue }
  else
    { requestWriter with
        impressionUserId := impressionInfo.userId.or requestWriter.impressionUserId
        impressionPubRevenueType := revenueType
        impressionImpRevenue := impRevenue
        impressionTime := Time.seconds impressionInfo.time
        viewability := impressionInfo.viewability }

namespace RequestProfile

/-- The cost the notice and the impression leave to the publisher. -/
def overridePubImpRevenue (requestWriter : RequestProfile) : Option Int :=
  match requestWriter.noticeImpRevenue, requestWriter.impressionImpRevenue with
  | some notice, some impression => some (min notice impression)
  | some notice, none => some notice
  | none, impression => impression

variable (A : RevenueArithmetic) (requestWriter : RequestProfile)

/-- `res_pub_revenue`, with the cost coefficient applied. -/
def resPubRevenue : Revenue :=
  let orig := requestWriter.origPubRevenue
  let overridden := match requestWriter.overridePubImpRevenue with
    | some cost => { orig with impression := min orig.impression cost }
    | none => orig
  overridden.divide A (A.one + requestWriter.pubCostCoef)

/-- The self service commission and the share of the colocation. -/
def serviceCommission : Int :=
  requestWriter.selfServiceCommission + requestWriter.ispRevenueShare

/-- What the publisher costs the advertiser. -/
def publisherAmount : Revenue :=
  ((requestWriter.resPubRevenue A).mul A (requestWriter.serviceCommission + A.one)).convertCurrency
    A requestWriter.pubCurrencyRate requestWriter.advCurrencyRate

/-- The advertiser's revenue before the last evaluation was taken out of it. -/
def fullAdvRevenue : Revenue := requestWriter.advRevenue + requestWriter.deltaAdvRevenue

/-- What `calculateAdvBillingAmounts` makes of one kind of event. -/
def billing (amount : Revenue → Int) : AdvBillingAmounts :=
  calculateAdvBillingAmounts A (agencyProfitByPubAmount requestWriter.atFlags)
    (amount requestWriter.fullAdvRevenue) (amount (requestWriter.publisherAmount A))
    requestWriter.advCommission

/-- The revenues that `evalRevenuesOnImpression` leaves in the profile. -/
def evaluatedRevenues (passResPubImpRevenue : Int) : Revenues :=
  let resPubImpRevenue :=
    A.divCeil passResPubImpRevenue (A.one + requestWriter.pubCostCoef)
  let resPubCommRevenue :=
    A.divOrZero (A.mulCeil resPubImpRevenue requestWriter.pubCommission)
      (A.one - requestWriter.pubCommission)
  let impressionBilling := requestWriter.billing A (·.impression)
  let clickBilling := requestWriter.billing A (·.click)
  let actionBilling := requestWriter.billing A (·.action)
  let resAdvRevenue : Revenue :=
    ⟨requestWriter.fullAdvRevenue.rateId, impressionBilling.advAmount, clickBilling.advAmount,
      actionBilling.advAmount⟩
  let deltaIspRevenue :=
    ((requestWriter.resPubRevenue A - requestWriter.origPubRevenue).mul A
      requestWriter.serviceCommission).convertCurrency
        A requestWriter.pubCurrencyRate requestWriter.ispCurrencyRate
  { advRevenue := resAdvRevenue
    deltaAdvRevenue := {} - (resAdvRevenue - requestWriter.fullAdvRevenue)
    advCommRevenue :=
      ⟨requestWriter.advCommRevenue.rateId, impressionBilling.advCommAmount,
        clickBilling.advCommAmount, actionBilling.advCommAmount⟩
    pubRevenue := requestWriter.resPubRevenue A
    pubCommRevenue := { requestWriter.pubCommRevenue with impression := resPubCommRevenue }
    ispRevenue := requestWriter.ispRevenue + deltaIspRevenue }

end RequestProfile

/-- The profile, and the request that is delegated with it. -/
def evalRevenuesOnImpression (A : RevenueArithmetic) (requestWriter : RequestProfile)
    (requestInfo : RequestInfo) (passResPubImpRevenue : Int) : RequestProfile × RequestInfo :=
  let revenues := requestWriter.evaluatedRevenues A passResPubImpRevenue
  ({ requestWriter with toRevenues := revenues },
    { requestInfo with
        toRevenues := { revenues with
          pubCommRevenue := { requestInfo.pubCommRevenue with
            impression := revenues.pubCommRevenue.impression } } })

/-- A share takes its part of the original revenue, a cost bounds it. -/
def evalRevenuesOnImpressionFin (A : RevenueArithmetic) (requestWriter : RequestProfile)
    (requestInfo : RequestInfo) : RequestProfile × RequestInfo :=
  let orig := requestWriter.origPubRevenue.impression
  let resImpPubRevenue :=
    if requestWriter.impressionPubRevenueType = .share then
      A.mulCeil orig (requestWriter.overridePubImpRevenue.getD 0)
    else match requestWriter.overridePubImpRevenue with
      | some cost => min orig cost
      | none => orig
  evalRevenuesOnImpression A
    { requestWriter with
        pubRevenue := { requestWriter.pubRevenue with impression := resImpPubRevenue } }
    requestInfo resImpPubRevenue

end AdServer.RequestInfo
