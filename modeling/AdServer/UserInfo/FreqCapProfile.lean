import AdServer.Lib.MergeUnique
import AdServer.Lib.SortedMap
import Mathlib.Data.Prod.Lex

/-!
# Frequency caps of a user

The profile that counts the impressions of a user under frequency caps, and its
operations. An impression is stamped with its second; the top bit of a stamp
marks an impression that has not been confirmed.

Times are in microseconds, stamps and ids are the integers of the profile.
-/

namespace AdServer.UserInfo

open AdServer.Lib

abbrev Time := Nat

def second : Time := 1000000

/-- The `tv_sec` of a time. -/
def tvSec (t : Time) : Nat := t / second

/-- An integer kept in 32 bits. -/
def toUint (value : Nat) : Nat := value % 4294967296

/-- The value without its top bit. -/
def normalizeImpressionTimestamp (value : Nat) : Nat := value % 2147483648

/-- The top bit of a 32-bit value. -/
def isUcTimestamp (value : Nat) : Bool := decide (value / 2147483648 % 2 = 1)

/-- The value with its top bit set. -/
def toUcTimestamp (value : Nat) : Nat := toUint value % 2147483648 + 2147483648

/-- By time; at one time the unconfirmed come first. -/
def lastImpLess (left right : Nat) : Bool :=
  if normalizeImpressionTimestamp left < normalizeImpressionTimestamp right then true
  else if normalizeImpressionTimestamp left = normalizeImpressionTimestamp right then
    !isUcTimestamp right && isUcTimestamp left
  else false

structure FreqCapLimits where
  lifelimit : Nat
  period : Time
  windowLimit : Nat
  windowTime : Time
  deriving DecidableEq

def defaultFreqCap : FreqCapLimits := ⟨1, 0, 100, 365 * 24 * 3600 * second⟩

structure FreqCapConfig where
  confirmTimeout : Time
  freqCaps : SortedMap Nat FreqCapLimits
  campaignIds : List Nat

def FreqCapConfig.findOrGetDefault (cfg : FreqCapConfig) (fcId : Nat) : FreqCapLimits :=
  (cfg.freqCaps.find? fcId).getD defaultFreqCap

/-- The total has 32 bits; it counts no more than occurrences in the calls (`totalOf_le`). -/
structure FreqCap where
  fcId : Nat
  totalImpressions : Nat
  lastImpressions : List Nat
  deriving DecidableEq

structure UcFreqCap where
  requestId : String
  time : Nat
  freqCapIds : List Nat
  imps : List Nat
  deriving DecidableEq

structure SeqOrder where
  ccgId : Nat
  setId : Nat
  imps : Nat
  deriving DecidableEq

structure PublisherAccount where
  publisherAccountId : Nat
  timestamp : Nat
  deriving DecidableEq

structure CampaignFreq where
  campaignId : Nat
  imps : Nat
  deriving DecidableEq

structure UserFreqCapProfile where
  freqCaps : List FreqCap := []
  ucFreqCaps : List UcFreqCap := []
  virtualFreqCaps : List FreqCap := []
  seqOrders : List SeqOrder := []
  publisherAccounts : List PublisherAccount := []
  campaignFreqs : List CampaignFreq := []
  deriving DecidableEq

structure FreqCapCounter where
  fcId : Nat
  count : Nat
  ucCount : Nat
  deriving DecidableEq

/-- Adds one id to the counters, the last of which is the head. -/
def packOne (unconfirmed : Bool) (packed : List FreqCapCounter) (fcId : Nat) :
    List FreqCapCounter :=
  let fresh : FreqCapCounter := if unconfirmed then ⟨fcId, 0, 1⟩ else ⟨fcId, 1, 0⟩
  match packed with
  | [] => [fresh]
  | back :: rest =>
    if back.fcId = fcId then { back with count := back.count + 1 } :: rest
    else fresh :: back :: rest

/-- `pack_freq_caps`. -/
def packFreqCaps (fcs : List Nat) (unconfirmed : Bool) : List FreqCapCounter :=
  (fcs.foldl (packOne unconfirmed) []).reverse

/-- The counters of both lists, by id. -/
def packBoth (cFcs ucFcs : List Nat) : List FreqCapCounter :=
  mergeUnique FreqCapCounter.fcId FreqCapCounter.fcId id id
    (fun left right => ⟨left.fcId, left.count + right.count, left.ucCount + right.ucCount⟩)
    (packFreqCaps cFcs false) (packFreqCaps ucFcs true)

/-- How many of the stamps, latest first, the window keeps, with those counted
already. -/
def windowCount (limit boundTime : Nat) : Nat → List Nat → Nat
  | _, [] => 0
  | counted, imp :: rest =>
    if counted ≤ limit ∧ boundTime ≤ normalizeImpressionTimestamp imp then
      windowCount limit boundTime (if isUcTimestamp imp then counted else counted + 1) rest + 1
    else 0

/-- How many of the stamps, latest first, are kept. -/
def keptCount (limits : FreqCapLimits) (now : Time) (latestFirst : List Nat) : Nat :=
  match latestFirst with
  | [] => 0
  | latest :: rest =>
    let inPeriod := limits.period ≠ 0 ∧
      now < limits.period + normalizeImpressionTimestamp latest * second
    let impCount := if inPeriod then (if isUcTimestamp latest then 0 else 1) else 0
    let kept := if inPeriod then 1 else 0
    if limits.windowLimit ≠ 0 then
      let boundTime := if limits.windowTime < now then tvSec (now - limits.windowTime) else 0
      kept + windowCount limits.windowLimit boundTime impCount
        (if inPeriod then rest else latest :: rest)
    else kept

/-- `FreqCapAdapter` on a stored freq cap: clears expired impressions. -/
def adapt (cfg : FreqCapConfig) (now : Time) (fc : FreqCap) : FreqCap :=
  let kept := keptCount (cfg.findOrGetDefault fc.fcId) now fc.lastImpressions.reverse
  { fc with lastImpressions := fc.lastImpressions.drop (fc.lastImpressions.length - kept) }

/-- Stamps are kept for the cap. -/
def FreqCapLimits.keepsStamps (limits : FreqCapLimits) : Bool :=
  decide (limits.windowLimit ≠ 0) || decide (limits.period ≠ 0)

def confirmedStamps (count : Nat) (now : Time) : List Nat :=
  List.replicate count (toUint (tvSec now))

def ucStamps (ucCount : Nat) (now : Time) : List Nat :=
  List.replicate ucCount (toUcTimestamp (tvSec now))

/-- `FreqCapAdapter` on a counter: converts it to a freq cap. -/
def adaptCounter (cfg : FreqCapConfig) (now : Time) (counter : FreqCapCounter) : FreqCap where
  fcId := counter.fcId
  totalImpressions := counter.count + counter.ucCount
  lastImpressions :=
    if (cfg.findOrGetDefault counter.fcId).keepsStamps then
      confirmedStamps counter.count now ++ ucStamps counter.ucCount now
    else []

/-- The stamps of a counter put among those stored. The stored stamp is compared
with the time as it is for the confirmed ones, without its top bit for the others. -/
def mergeStamps (now : Time) (count ucCount : Nat) : Bool → Bool → List Nat → List Nat
  | inserted, ucInserted, [] =>
    (if inserted then [] else confirmedStamps count now) ++
      (if ucInserted then [] else ucStamps ucCount now)
  | inserted, ucInserted, imp :: rest =>
    let here := !inserted && decide (tvSec now < imp)
    let ucHere := !ucInserted && decide (tvSec now < normalizeImpressionTimestamp imp)
    (if here then confirmedStamps count now else []) ++
      (if ucHere then ucStamps ucCount now else []) ++
      imp :: mergeStamps now count ucCount (inserted || here) (ucInserted || ucHere) rest

/-- `FreqCapMerger` of a stored freq cap and a counter. -/
def mergeCounter (now : Time) (fc : FreqCap) (counter : FreqCapCounter) : FreqCap where
  fcId := counter.fcId
  totalImpressions := fc.totalImpressions + counter.count + counter.ucCount
  lastImpressions := mergeStamps now counter.count counter.ucCount false false fc.lastImpressions

/-- `std::merge` by `LastImpLess`: the second comes first only where it is less. -/
def mergeImpressions (left right : List Nat) : List Nat :=
  left.merge right (fun l r => !lastImpLess r l)

/-- `FreqCapMerger` of two stored freq caps. -/
def mergeFreqCap (left right : FreqCap) : FreqCap where
  fcId := left.fcId
  totalImpressions := left.totalImpressions + right.totalImpressions
  lastImpressions := mergeImpressions left.lastImpressions right.lastImpressions

/-- The freq caps with the counters added at `now`; the id 0 stands for none. -/
def addCounters (cfg : FreqCapConfig) (now : Time) (freqCaps : List FreqCap)
    (counters : List FreqCapCounter) : List FreqCap :=
  (mergeUnique FreqCap.fcId FreqCapCounter.fcId (adapt cfg now) (adaptCounter cfg now)
    (fun fc counter => adapt cfg now (mergeCounter now fc counter)) freqCaps counters).filter
      (fun fc => fc.fcId ≠ 0)

/-- Drops the first equal stamps, as many as counted, at least the first. -/
def dropStamps (ucTime : Nat) : Nat → List Nat → List Nat
  | _, [] => []
  | 0, imps => imps
  | count + 1, imp :: rest =>
    if imp = ucTime then dropStamps ucTime count rest else imp :: rest

/-- Takes the unconfirmed impressions of a time out of the stamps. -/
def eraseStamps (imps : List Nat) (ucTime count : Nat) : List Nat :=
  let at_imp := lowerBound (lastImpLess · ucTime) imps
  imps.take at_imp ++ dropStamps ucTime (max count 1) (imps.drop at_imp)

/-- A freq cap with `count` unconfirmed impressions of a time taken back. -/
def decrease (fc : FreqCap) (time count : Nat) : FreqCap where
  fcId := fc.fcId
  totalImpressions := fc.totalImpressions - count
  lastImpressions := eraseStamps fc.lastImpressions (toUcTimestamp time) count

/-- The ids and times of the requests that timed out, with how often each occurs. -/
abbrev FreqCapDecreases := SortedMap (Nat ×ₗ Nat) Nat

def countDecreases (expired : List UcFreqCap) : FreqCapDecreases :=
  expired.foldl (fun decreases uc =>
    uc.freqCapIds.foldl (fun decreases fcId =>
      decreases.put (toLex (fcId, uc.time)) ((decreases.find? (toLex (fcId, uc.time))).getD 0 + 1))
      decreases) SortedMap.empty

/-- Goes on to the first freq cap that is not before the id. -/
def skipTo (fcId : Nat) (next : List FreqCap → List FreqCap) : List FreqCap → List FreqCap
  | [] => []
  | fc :: fcs => if fc.fcId < fcId then fc :: skipTo fcId next fcs else next (fc :: fcs)

/-- Walks the freq caps and the decreases together; a freq cap left with nothing
is erased. -/
def applyDecreases : List ((Nat ×ₗ Nat) × Nat) → List FreqCap → List FreqCap
  | [], fcs => fcs
  | dec :: decs, fcs =>
    let (fcId, time) := ofLex dec.1
    skipTo fcId (fun rest =>
      match rest with
      | [] => []
      | fc :: fcs =>
        if fc.fcId = fcId then
          let left := decrease fc time dec.2
          if left.lastImpressions.isEmpty ∧ left.totalImpressions = 0 then applyDecreases decs fcs
          else applyDecreases decs (left :: fcs)
        else applyDecreases decs (fc :: fcs)) fcs

def isExpired (lowBound : Time) (uc : UcFreqCap) : Bool := decide (uc.time < tvSec lowBound)

/-- `clean_up`: requests not confirmed in time are taken back. -/
def cleanUp (profile : UserFreqCapProfile) (lowBound : Time) : UserFreqCapProfile :=
  let expired := profile.ucFreqCaps.takeWhile (isExpired lowBound)
  { profile with
    ucFreqCaps := profile.ucFreqCaps.dropWhile (isExpired lowBound)
    freqCaps := applyDecreases (countDecreases expired).entries profile.freqCaps }

/-- The first request waits for longer than the timeout. -/
def hasTimedOut (cfg : FreqCapConfig) (now : Time) (profile : UserFreqCapProfile) : Bool :=
  profile.ucFreqCaps.head?.any fun uc => decide (cfg.confirmTimeout + uc.time * second < now)

def cleanUpIfTimedOut (cfg : FreqCapConfig) (now : Time) (profile : UserFreqCapProfile) :
    UserFreqCapProfile :=
  if hasTimedOut cfg now profile then cleanUp profile (now - cfg.confirmTimeout) else profile

/-- `clean_up_campaign_freqs_`. -/
def cleanUpCampaignFreqs (cfg : FreqCapConfig) (profile : UserFreqCapProfile) :
    UserFreqCapProfile :=
  { profile with campaignFreqs :=
      profile.campaignFreqs.filter fun freq => cfg.campaignIds.contains freq.campaignId }

/-- One impression of a campaign. -/
def addCampaignImp (freqs : List CampaignFreq) (campaignId : Nat) : List CampaignFreq :=
  let at_freq := lowerBound (fun freq => decide (freq.campaignId < campaignId)) freqs
  match freqs[at_freq]? with
  | some freq =>
    if freq.campaignId = campaignId then
      freqs.set at_freq { freq with imps := freq.imps + 1 }
    else freqs.take at_freq ++ ⟨campaignId, 1⟩ :: freqs.drop at_freq
  | none => freqs.take at_freq ++ ⟨campaignId, 1⟩ :: freqs.drop at_freq

/-- `update_campaign_freq`. -/
def updateCampaignFreq (imps : List Nat) (profile : UserFreqCapProfile) : UserFreqCapProfile :=
  { profile with campaignFreqs := imps.foldl addCampaignImp profile.campaignFreqs }

end AdServer.UserInfo
