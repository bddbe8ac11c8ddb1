import AdServer.UserInfo.FreqCapProfile

/-!
# Operations on the frequency caps of a user

What a stored profile becomes by each operation. A profile that has never been
stored is empty: `none`.
-/

namespace AdServer.UserInfo

open AdServer.Lib

/-- A request, by its text; the null request has none. -/
abbrev RequestId := Option String

structure Impressions where
  requestId : RequestId
  now : Time
  cFcs : List Nat
  ucFcs : List Nat
  virtualFcs : List Nat := []
  seqOrders : List SeqOrder := []
  campaignIds : List Nat := []
  ucCampaignIds : List Nat := []
  deriving DecidableEq

/-- A request joins those that wait for their confirmation, after the ones of its
time. -/
def insertUc (ucFreqCaps : List UcFreqCap) (now : Time) (new : UcFreqCap) : List UcFreqCap :=
  let later := fun uc : UcFreqCap => decide (tvSec now < uc.time)
  (ucFreqCaps.reverse.dropWhile later).reverse ++ new ::
    (ucFreqCaps.reverse.takeWhile later).reverse

/-- The request with what it leaves unconfirmed is kept. -/
def addRequest (impressions : Impressions) (profile : UserFreqCapProfile) : UserFreqCapProfile :=
  match impressions.requestId with
  | none => profile
  | some requestId =>
    if impressions.ucFcs.isEmpty && impressions.ucCampaignIds.isEmpty then profile
    else
      let new : UcFreqCap :=
        ⟨requestId, toUint (tvSec impressions.now), impressions.ucFcs, impressions.ucCampaignIds⟩
      { profile with ucFreqCaps := insertUc profile.ucFreqCaps impressions.now new }

/-- `SeqOrderAdapter`: the fields are stored in 32 bits. -/
def adaptSeqOrder (new : SeqOrder) : SeqOrder := ⟨toUint new.ccgId, toUint new.setId, toUint new.imps⟩

def mergeSeqOrder (seqOrder new : SeqOrder) : SeqOrder :=
  adaptSeqOrder ⟨new.ccgId, new.setId,
    if seqOrder.setId = new.setId then seqOrder.imps + new.imps else new.imps⟩

def addSeqOrders (seqOrders new : List SeqOrder) : List SeqOrder :=
  mergeUnique SeqOrder.ccgId SeqOrder.ccgId id adaptSeqOrder mergeSeqOrder seqOrders new

def consider (cfg : FreqCapConfig) (stored : Option UserFreqCapProfile)
    (impressions : Impressions) : UserFreqCapProfile :=
  let profile := stored.getD {}
  let now := impressions.now
  let profile := { profile with
    freqCaps := addCounters cfg now profile.freqCaps
      (packBoth impressions.cFcs impressions.ucFcs)
    virtualFreqCaps := addCounters cfg now profile.virtualFreqCaps
      (packFreqCaps impressions.virtualFcs false) }
  let profile := addRequest impressions profile
  let seqOrders := addSeqOrders profile.seqOrders impressions.seqOrders
  let profile := updateCampaignFreq impressions.campaignIds profile
  let profile := { cleanUpCampaignFreqs cfg profile with seqOrders := seqOrders }
  cleanUpIfTimedOut cfg now profile

/-- One unconfirmed impression of the time becomes a confirmed one, put after
the unconfirmed ones that are left. -/
def confirmStamp (imps : List Nat) (time : Nat) : List Nat :=
  let ucTime := toUcTimestamp time
  let at_imp := lowerBound (lastImpLess · ucTime) imps
  match imps.drop at_imp with
  | [] => imps
  | imp :: rest =>
    if imp = ucTime then
      imps.take at_imp ++ rest.takeWhile (· = ucTime) ++ time :: rest.dropWhile (· = ucTime)
    else imps

/-- A freq cap the request has an impression of. -/
def confirmFreqCap (cfg : FreqCapConfig) (now : Time) (time : Nat) (fc : FreqCap) : FreqCap :=
  adapt cfg now { fc with lastImpressions := confirmStamp fc.lastImpressions time }

/-- Walks the ids of the request and the freq caps together. -/
def confirmFreqCaps (cfg : FreqCapConfig) (now : Time) (time : Nat) :
    List Nat → List FreqCap → List FreqCap
  | [], fcs => fcs
  | fcId :: ids, fcs =>
    skipTo fcId (fun rest =>
      match rest with
      | [] => []
      | fc :: fcs =>
        if fcId = fc.fcId then
          confirmFreqCap cfg now time fc :: confirmFreqCaps cfg now time ids fcs
        else confirmFreqCaps cfg now time ids (fc :: fcs)) fcs

/-- The first request of the id is confirmed. -/
def confirmPending (cfg : FreqCapConfig) (now : Time) (requestId : String)
    (profile : UserFreqCapProfile) : Option UserFreqCapProfile :=
  (profile.ucFreqCaps.find? (fun uc => requestId = uc.requestId)).map fun uc =>
    updateCampaignFreq uc.imps { profile with
      freqCaps := confirmFreqCaps cfg now uc.time uc.freqCapIds profile.freqCaps
      ucFreqCaps := profile.ucFreqCaps.eraseP (fun uc => requestId = uc.requestId) }

/-- The profile, and whether it was modified. -/
def confirmRequest (cfg : FreqCapConfig) (stored : Option UserFreqCapProfile)
    (requestId : String) (now : Time) : Option UserFreqCapProfile × Bool :=
  match stored with
  | none => (none, false)
  | some profile =>
    let confirmed := confirmPending cfg now requestId profile
    let profile := confirmed.getD profile
    let modified := confirmed.isSome || hasTimedOut cfg now profile
    if modified then
      (some (cleanUpCampaignFreqs cfg (cleanUpIfTimedOut cfg now profile)), true)
    else (stored, false)

/-- The freq cap lets no more impressions through. -/
def isFull (cfg : FreqCapConfig) (now : Time) (fc : FreqCap) : Bool :=
  let limits := cfg.findOrGetDefault fc.fcId
  if limits.lifelimit ≠ 0 ∧ limits.lifelimit ≤ fc.totalImpressions then true
  else
    match fc.lastImpressions.getLast? with
    | none => false
    | some latest =>
      if limits.period ≠ 0 ∧
          now < normalizeImpressionTimestamp latest * second + limits.period then true
      else if limits.windowLimit ≠ 0 then
        let windowBound := if limits.windowTime < now then tvSec (now - limits.windowTime) else 0
        decide (limits.windowLimit ≤ (fc.lastImpressions.dropWhile
          fun imp => decide (normalizeImpressionTimestamp imp < windowBound)).length)
      else false

def checkFullFreqCaps (cfg : FreqCapConfig) (now : Time) (freqCaps : List FreqCap) : List Nat :=
  (freqCaps.filter (isFull cfg now)).map FreqCap.fcId

/-- What `full` tells of a profile. -/
structure FullFreqCaps where
  fcs : List Nat
  virtualFcs : List Nat
  seqOrders : List SeqOrder
  campaignFreqs : List CampaignFreq

/-- The profile, whether it has to be saved, and what it is full of. -/
def full (cfg : FreqCapConfig) (stored : Option UserFreqCapProfile) (now : Time) :
    Option UserFreqCapProfile × Bool × Option FullFreqCaps :=
  match stored with
  | none => (none, false, none)
  | some profile =>
    let changed := hasTimedOut cfg now profile
    let cleaned :=
      if changed then
        cleanUpCampaignFreqs cfg (cleanUp profile (now - cfg.confirmTimeout))
      else profile
    (some cleaned, changed, some ⟨checkFullFreqCaps cfg now cleaned.freqCaps,
      checkFullFreqCaps cfg now cleaned.virtualFreqCaps, profile.seqOrders,
      cleaned.campaignFreqs⟩)

def mergeFreqCaps (cfg : FreqCapConfig) (now : Time) (left right : List FreqCap) : List FreqCap :=
  mergeUnique FreqCap.fcId FreqCap.fcId (adapt cfg now) (adapt cfg now)
    (fun l r => adapt cfg now (mergeFreqCap l r)) left right

/-- By time, then by request. -/
def ucFreqCapLess (left right : UcFreqCap) : Bool :=
  decide (left.time < right.time) ||
    (decide (left.time = right.time) && decide (left.requestId < right.requestId))

def mergeStoredSeqOrder (left right : SeqOrder) : SeqOrder :=
  ⟨left.ccgId, left.setId,
    toUint (if left.setId = right.setId then left.imps + right.imps else right.imps)⟩

/-- The profile of another user is merged into that of this one. -/
def merge (cfg : FreqCapConfig) (stored other : Option UserFreqCapProfile) (now : Time) :
    Option UserFreqCapProfile :=
  match other, stored with
  | none, stored => stored
  | some other, none => some other
  | some other, some profile =>
    let merged : UserFreqCapProfile :=
      { freqCaps := mergeFreqCaps cfg now profile.freqCaps other.freqCaps
        ucFreqCaps := profile.ucFreqCaps.merge other.ucFreqCaps (fun l r => !ucFreqCapLess r l)
        virtualFreqCaps := mergeFreqCaps cfg now profile.virtualFreqCaps other.virtualFreqCaps
        seqOrders := mergeUnique SeqOrder.ccgId SeqOrder.ccgId id id mergeStoredSeqOrder
          profile.seqOrders other.seqOrders
        publisherAccounts := mergeUnique PublisherAccount.publisherAccountId
          PublisherAccount.publisherAccountId id id
          (fun l r => ⟨l.publisherAccountId, max l.timestamp r.timestamp⟩)
          profile.publisherAccounts other.publisherAccounts
        campaignFreqs := mergeUnique CampaignFreq.campaignId CampaignFreq.campaignId id id
          (fun l r => ⟨l.campaignId, l.imps + r.imps⟩) profile.campaignFreqs other.campaignFreqs }
    some (cleanUpIfTimedOut cfg now (cleanUpCampaignFreqs cfg merged))

/-- Walks the accounts and the ids together; what is left of the ids goes to the
end. -/
def optinAccounts (timestamp : Nat) (publisherIds : List Nat) (accounts : List PublisherAccount) :
    List PublisherAccount :=
  mergeUnique PublisherAccount.publisherAccountId id id (fun publisherId => ⟨publisherId, timestamp⟩)
    (fun account _ => { account with timestamp := max account.timestamp timestamp })
    accounts publisherIds

/-- The ids are a set, in order. -/
def considerPublishersOptin (stored : Option UserFreqCapProfile) (publisherAccountIds : List Nat)
    (timestamp : Time) : Option UserFreqCapProfile × Bool :=
  if publisherAccountIds.isEmpty then (stored, false)
  else
    let profile := stored.getD {}
    let accounts :=
      optinAccounts (toUint (tvSec timestamp)) publisherAccountIds profile.publisherAccounts
    (some { profile with publisherAccounts := accounts }, true)

end AdServer.UserInfo
