import AdServer.Lib.FixedWidth
import AdServer.RequestInfo.EventOrder

/-!
# A request that moves to another user

The profile goes to the other user's container with its counters. What was done
with it waits there again, together with what the container has got for the
request meanwhile, and the request is processed anew.
-/

namespace AdServer.RequestInfo

open Lib (uint uint_lt uint_natCast)

/-- The moved profile with its events set back to wait. Its post-impression actions
are set aside and are not put back. -/
def restartActions (requestWriter : RequestProfile) : RequestProfile :=
  let requestWriter := { requestWriter with
    requestDone := 0
    fraud := .normal }
  let requestWriter :=
    if requestWriter.noticeReceived ≠ 0 then
      { requestWriter with
          noticeNonConsidered := uint (requestWriter.noticeNonConsidered + requestWriter.noticeReceived)
          noticeReceived := 0 }
    else requestWriter
  let requestWriter :=
    if requestWriter.clickDone ≠ 0 then
      { requestWriter with
          clickNonConsidered := uint (requestWriter.clickNonConsidered + requestWriter.clickDone)
          clickDone := 0 }
    else requestWriter
  let requestWriter := { requestWriter with postImpressionActions := [] }
  if requestWriter.actionsDone ≠ 0 then
    { requestWriter with
        actionsNonConsidered := uint (requestWriter.actionsNonConsidered + requestWriter.actionsDone)
        actionsDone := 0 }
  else requestWriter

/-- What the container has got meanwhile. The actions are those of the moved profile. -/
def mergeNonConsidered (requestWriter : RequestProfile) (oldMemBuf : Option RequestProfile) :
    RequestProfile :=
  match oldMemBuf with
  | none => requestWriter
  | some oldRequestReader =>
    if oldRequestReader.fraud ≠ .moved then
      { requestWriter with
          noticeNonConsidered :=
            uint (requestWriter.noticeNonConsidered + oldRequestReader.noticeNonConsidered)
          impressionNonConsidered :=
            uint (requestWriter.impressionNonConsidered + oldRequestReader.impressionNonConsidered)
          clickNonConsidered :=
            uint (requestWriter.clickNonConsidered + oldRequestReader.clickNonConsidered)
          actionsNonConsidered :=
            uint (requestWriter.actionsNonConsidered + requestWriter.actionsNonConsidered) }
    else requestWriter

/-- The profile that is stored then, and what was delivered. -/
def changeRequestUserId (A : RevenueArithmetic) (externalRequestProfile : RequestProfile)
    (oldMemBuf : Option RequestProfile) : Option RequestProfile × List Delivery :=
  let requestProcessedOnSender := externalRequestProfile.fraud ≠ .normal
  let requestProfile := mergeNonConsidered (restartActions externalRequestProfile) oldMemBuf
  let processed := processRequestBuf A (some requestProfile) {}
    (convertRequestReaderToRequestInfo requestProfile) false
  let delegate :=
    if requestProcessedOnSender ∧ processed.delegate.processRequest.isSome then
      { processed.delegate with processRequest := some .resave }
    else processed.delegate
  (if processed.saveProfile then processed.memBuf else oldMemBuf, delegateProcessing delegate)

/-- How many events of each kind. -/
@[ext] structure EventCounts where
  notices : Nat
  impressions : Nat
  clicks : Nat
  actions : Nat
  postActions : Multiset String
  deriving DecidableEq

instance : Zero EventCounts := ⟨⟨0, 0, 0, 0, 0⟩⟩
instance : Add EventCounts := ⟨fun left right =>
  ⟨left.notices + right.notices, left.impressions + right.impressions,
    left.clicks + right.clicks, left.actions + right.actions,
    left.postActions + right.postActions⟩⟩

namespace EventCounts

variable (left right : EventCounts)

@[simp] theorem zero_notices : (0 : EventCounts).notices = 0 := rfl
@[simp] theorem zero_impressions : (0 : EventCounts).impressions = 0 := rfl
@[simp] theorem zero_clicks : (0 : EventCounts).clicks = 0 := rfl
@[simp] theorem zero_actions : (0 : EventCounts).actions = 0 := rfl
@[simp] theorem zero_postActions : (0 : EventCounts).postActions = 0 := rfl
@[simp] theorem add_notices : (left + right).notices = left.notices + right.notices := rfl
@[simp] theorem add_impressions :
    (left + right).impressions = left.impressions + right.impressions := rfl
@[simp] theorem add_clicks : (left + right).clicks = left.clicks + right.clicks := rfl
@[simp] theorem add_actions : (left + right).actions = left.actions + right.actions := rfl
@[simp] theorem add_postActions :
    (left + right).postActions = left.postActions + right.postActions := rfl

/-- There are so few of each kind that a counter holds them. -/
def Fit (counts : EventCounts) : Prop :=
  counts.notices < 2 ^ 32 ∧ counts.impressions < 2 ^ 32 ∧ counts.clicks < 2 ^ 32 ∧
    counts.actions < 2 ^ 32

end EventCounts

namespace RequestProfile

/-- Those that wait. The post-impression actions wait for the impression. -/
def pending (profile : RequestProfile) : EventCounts where
  notices := profile.noticeNonConsidered
  impressions := profile.impressionNonConsidered
  clicks := profile.clickNonConsidered
  actions := profile.actionsNonConsidered
  postActions := if profile.impressionVerified = 0 then profile.postImpressionActions else 0

/-- All that the profile has got. -/
def events (profile : RequestProfile) : EventCounts where
  notices := profile.noticeReceived + profile.noticeNonConsidered
  impressions := profile.impressionVerified + profile.impressionNonConsidered
  clicks := profile.clickDone + profile.clickNonConsidered
  actions := profile.actionsDone + profile.actionsNonConsidered
  postActions := profile.postImpressionActions

end RequestProfile

/-- What was delivered. A notice is only noted in the profile. -/
def deliveredCounts (stored : RequestProfile) (delivered : Totals) : EventCounts where
  notices := stored.noticeReceived
  impressions := delivered.impressions.card
  clicks := delivered.clicks.card
  actions := delivered.actions
  postActions := delivered.postActions

/-- Each event of the moved profile, and each that waited here, is delivered or waits. -/
def MovesAll (A : RevenueArithmetic) (moved : RequestProfile) (here : Option RequestProfile) :
    Prop :=
  ∃ stored, (changeRequestUserId A moved here).1 = some stored ∧
    deliveredCounts stored (totalsOf (changeRequestUserId A moved here).2) + stored.pending =
      moved.events + (here.map (·.pending)).getD 0

/-- A profile whose events all wait. -/
structure Restarted (profile : RequestProfile) : Prop where
  undone : profile.requestDone = 0
  unmarked : profile.fraud = .normal
  notReceived : profile.noticeReceived = 0
  unverified : profile.impressionVerified = 0
  notClicked : profile.clickDone = 0
  noActions : profile.actionsDone = 0
  noPostActions : profile.postImpressionActions = []

namespace RequestProfile

variable (profile : RequestProfile)

def hasNotice : Bool := decide (0 < profile.noticeNonConsidered) || !profile.enabledNotice

def hasImpression : Bool :=
  profile.hasNotice &&
    (decide (0 < profile.impressionNonConsidered) || !profile.enabledImpressionTracking)

/-- What comes of the waiting events: one notice, an untracked request's own impression when none
waits, and no action of a click when the actions are not tracked. -/
def replayed : EventCounts where
  notices := if profile.hasNotice then 1 else 0
  impressions := if profile.hasImpression then max 1 profile.impressionNonConsidered
    else profile.impressionNonConsidered
  clicks := profile.clickNonConsidered
  actions := if profile.hasImpression && decide (0 < profile.clickNonConsidered) then
    profile.toRequestTerms.tracked profile.actionsNonConsidered
    else profile.actionsNonConsidered
  postActions := 0

variable {profile}

theorem waitingNotice_isSome :
    (profile.waitingNotice (convertRequestReaderToRequestInfo profile)).isSome =
      profile.hasNotice := by
  simp only [waitingNotice, hasNotice,
    show (convertRequestReaderToRequestInfo profile).enabledNotice = profile.enabledNotice from rfl]
  cases profile.enabledNotice with
  | false => simp
  | true =>
    by_cases waits : profile.noticeNonConsidered = 0
    · simp [waits]
    · simp [waits, Nat.pos_of_ne_zero]

end RequestProfile

open RequestProfile

variable {A : RevenueArithmetic} {profile : RequestProfile}

/-- What a verified impression delivers, when nothing was delivered before it, and leaves. -/
theorem Verified.counts {counters : Counters} {tracked : Nat → Nat} {info : RequestInfo}
    {state : RequestState} {handed : RequestProcessDelegate}
    (h : Verified counters tracked { requestInfo := some info, processRequest := some state } handed)
    (unmarked : counters.fraud = .normal)
    (stored : profile.toCounters = counters.verify tracked) :
    deliveredCounts profile handed.totals + profile.pending =
      { notices := counters.noticeReceived + counters.noticeNonConsidered
        impressions := counters.impressionNonConsidered + 1
        clicks := counters.clickNonConsidered
        actions := if 0 < counters.clickNonConsidered then tracked counters.actionsNonConsidered
          else counters.actionsNonConsidered
        postActions := counters.postImpressionActions } := by
  have clicks : fraudClicks counters.fraud = [] := by simp [fraudClicks, unmarked]
  have counter {α : Type} (f : Counters → α) := congrArg f stored
  ext : 1
  · simp [deliveredCounts, pending, counter (·.noticeReceived),
      counter (·.noticeNonConsidered), Counters.verify]
  · simp [deliveredCounts, pending, RequestProcessDelegate.totals, h.impression,
      h.duplicates, counter (·.impressionNonConsidered), Counters.verify, add_comm]
  · simp only [deliveredCounts, pending, RequestProcessDelegate.totals, h.click,
      h.rollbackClicks, clicks, EventCounts.add_clicks, counter (·.clickNonConsidered)]
    by_cases some_wait : 0 < counters.clickNonConsidered
    · simp only [some_wait, decide_true, if_true, List.nil_append, Counters.verify, add_zero]
      simp
      omega
    · simp [some_wait, Counters.verify]
      omega
  · simp only [deliveredCounts, pending, RequestProcessDelegate.totals, h.actions,
      EventCounts.add_actions, counter (·.actionsNonConsidered), Counters.verify]
    split <;> simp
  · simp [deliveredCounts, pending, RequestProcessDelegate.totals, h.postActions,
      counter (·.impressionVerified), Counters.verify]

/-- The events that wait are replayed once the request is there. -/
theorem Restarted.replay (h : Restarted profile) :
    ∃ after handed, processRequestBuf A (some profile) {}
        (convertRequestReaderToRequestInfo profile) false = ⟨some after, handed, true⟩ ∧
      deliveredCounts after handed.totals + after.pending = profile.replayed := by
  have notMoved : profile.fraud ≠ .moved := by simp [h.unmarked]
  have some_notice := profile.waitingNotice_isSome
  obtain ⟨info, found, terms⟩ : ∃ info, convertRequestReaderToRequestInfo profile = info ∧
    info.toRequestTerms = profile.toRequestTerms := ⟨_, rfl, rfl⟩
  rw [found] at some_notice ⊢
  rw [processRequestBuf_first _ notMoved h.undone]
  have requested : (profile.requested info).toCounters = { profile.toCounters with
      requestDone := 1
      noticeNonConsidered := 0 } := rfl
  have requested_terms : (profile.requested info).toRequestTerms = profile.toRequestTerms := terms
  set given : RequestProcessDelegate := { requestInfo := some info, processRequest := some .normal }
    with given_eq
  have filled : given.fillRequestInfo (profile.requested info) = given := rfl
  have stays : (profile.requested info).fraud ≠ .moved := notMoved
  have done : (profile.requested info).requestDone ≠ 0 := Nat.one_ne_zero
  cases waits : profile.waitingNotice info with
  | none =>
    have unnoticed : profile.hasNotice = false := by rw [← some_notice, waits]; rfl
    have unseen : profile.hasImpression = false := by simp [hasImpression, unnoticed]
    refine ⟨_, _, rfl, ?_⟩
    ext : 1 <;>
      simp [deliveredCounts, RequestProcessDelegate.totals, pending, replayed, given_eq, requested,
        unnoticed, unseen, h.notReceived, h.unverified, h.noPostActions]
  | some notice =>
    have noticed : profile.hasNotice = true := by rw [← some_notice, waits]; rfl
    have received : ((profile.requested info).received notice).toCounters =
        { profile.toCounters with
            requestDone := 1
            noticeNonConsidered := 0
            impressionNonConsidered := profile.impressionNonConsidered - 1
            noticeReceived := 1 } := rfl
    by_cases follows : 0 < profile.impressionNonConsidered ∨
        profile.enabledImpressionTracking = false
    · have seen : profile.hasImpression = true := by
        simp [hasImpression, noticed, follows]
      have next := @processNoticeBuf_impression A false _ given notice stays done h.notReceived h.unverified
        (fun moves => absurd moves Bool.false_ne_true) (by rw [requested_terms]; exact follows)
      have left : ((profile.requested info).received notice).fraud ≠ .moved := notMoved
      obtain ⟨after, handed, result, counters, -, -, -, -, -, verified, -⟩ :=
        @verifyImpression_eq A false _ given (profile.requested info).waitingImpression left
          h.notClicked (by change profile.postImpressionActions.Pairwise _; simp [h.noPostActions]) rfl rfl
      dsimp only
      rw [next, filled, result]
      refine ⟨_, _, rfl, ?_⟩
      rw [verified.counts h.unmarked counters]
      have received_terms : ((profile.requested info).received notice).toRequestTerms =
        profile.toRequestTerms := terms
      rw [received, received_terms]
      ext : 1
      · simp [replayed, noticed]
      · simp only [replayed, seen, if_true]
        omega
      · rfl
      · simp [replayed, seen]
      · simp [replayed, h.noPostActions]
    · have unseen : profile.hasImpression = false := by
        simpa [hasImpression, noticed] using follows
      obtain ⟨none_wait, tracking⟩ := not_or.1 follows
      have next := @processNoticeBuf_alone A false _ given notice stays done h.notReceived
        (Nat.eq_zero_of_not_pos none_wait) (by rw [requested_terms]; simpa using tracking)
      dsimp only
      rw [next, filled]
      refine ⟨_, _, rfl, ?_⟩
      have none_wait : profile.impressionNonConsidered = 0 := Nat.eq_zero_of_not_pos none_wait
      ext : 1 <;>
        simp [deliveredCounts, RequestProcessDelegate.totals, pending, replayed, given_eq, received,
          noticed, unseen, none_wait, h.unverified, h.noPostActions]

/-- What has to wait on the two sides for each event to be kept: one notice, or none of a request
that needs it; an impression wherever one is delivered; no action that is not tracked, and as many
actions of a profile that is here as of the moved one; no post-impression action; and of each kind
no more than a counter holds. -/
def KeepsAll (moved : RequestProfile) (here : Option RequestProfile) : Prop :=
  let waited := (here.map (·.pending)).getD 0
  let all := moved.events + waited
  let noticed := 0 < all.notices ∨ moved.enabledNotice = false
  let shown := noticed ∧ (0 < all.impressions ∨ moved.enabledImpressionTracking = false)
  (all.notices = if noticed then 1 else 0) ∧
  (shown → 0 < all.impressions) ∧
  (if shown ∧ 0 < all.clicks ∧ moved.enabledActionTracking = false then all.actions = 0
    else here = none ∨ waited.actions = moved.events.actions) ∧
  all.postActions = 0 ∧ all.Fit

instance decidableKeepsAll (moved : RequestProfile) (here : Option RequestProfile) :
    Decidable (KeepsAll moved here) :=
  inferInstanceAs (Decidable (_ ∧ _ ∧ _ ∧ _ ∧ _ ∧ _ ∧ _ ∧ _))

variable {moved : RequestProfile} {here : Option RequestProfile}

section Fields
-- the counters are fields of 32 bits
variable (fields : moved.pending.Fit)
include fields

theorem restartActions_eq : (restartActions moved).toRequestTerms = moved.toRequestTerms ∧
    (restartActions moved).toCounters = { moved.toCounters with
      requestDone := 0
      fraud := .normal
      noticeReceived := 0
      noticeNonConsidered := uint (moved.noticeNonConsidered + moved.noticeReceived)
      clickDone := 0
      clickNonConsidered := uint (moved.clickNonConsidered + moved.clickDone)
      actionsDone := 0
      actionsNonConsidered := uint (moved.actionsNonConsidered + moved.actionsDone)
      postImpressionActions := [] } := by
  obtain ⟨notices, -, clicks, actions⟩ := fields
  simp only [pending] at notices clicks actions
  simp only [restartActions]
  by_cases notice : moved.noticeReceived = 0 <;> by_cases click : moved.clickDone = 0 <;>
    by_cases action : moved.actionsDone = 0 <;>
      simp [notice, click, action, uint_natCast notices, uint_natCast clicks, uint_natCast actions]

theorem mergeNonConsidered_eq (notMoved : ∀ old ∈ here, old.fraud ≠ .moved) :
    let merged := mergeNonConsidered (restartActions moved) here
    let waited := (here.map (·.pending)).getD 0
    merged.toRequestTerms = moved.toRequestTerms ∧
    merged.toCounters = { moved.toCounters with
      requestDone := 0
      fraud := .normal
      noticeReceived := 0
      noticeNonConsidered := uint (moved.events + waited).notices
      impressionNonConsidered := uint (moved.pending + waited).impressions
      clickDone := 0
      clickNonConsidered := uint (moved.events + waited).clicks
      actionsDone := 0
      actionsNonConsidered := uint ((if here.isSome then 2 else 1) * moved.events.actions)
      postImpressionActions := [] } := by
  obtain ⟨terms, counters⟩ := restartActions_eq fields
  cases here with
  | none =>
    refine ⟨terms, counters.trans ?_⟩
    have impressions : uint moved.impressionNonConsidered = moved.impressionNonConsidered :=
      uint_natCast fields.2.1
    ext : 1 <;> simp [events, pending, add_comm, impressions]
  | some old =>
    have stored := notMoved old rfl
    simp only [mergeNonConsidered, ne_eq, stored, not_false_eq_true, if_true]
    refine ⟨terms, ?_⟩
    rw [counters]
    ext : 1 <;> simp [events, pending, uint] <;> omega

theorem restarted (unverified : moved.impressionVerified = 0)
    (notMoved : ∀ old ∈ here, old.fraud ≠ .moved) :
    Restarted (mergeNonConsidered (restartActions moved) here) := by
  have counters := (mergeNonConsidered_eq fields notMoved).2
  have counter {α : Type} (f : Counters → α) := congrArg f counters
  exact
    { undone := counter (·.requestDone)
      unmarked := counter (·.fraud)
      notReceived := counter (·.noticeReceived)
      unverified := (counter (·.impressionVerified)).trans unverified
      notClicked := counter (·.clickDone)
      noActions := counter (·.actionsDone)
      noPostActions := counter (·.postImpressionActions) }

/-- What is replayed of a merged profile came out of its counters. -/
theorem replayed_fit (notMoved : ∀ old ∈ here, old.fraud ≠ .moved) :
    (mergeNonConsidered (restartActions moved) here).replayed.Fit := by
  have few : (mergeNonConsidered (restartActions moved) here).pending.Fit := by
    simp only [pending, (mergeNonConsidered_eq fields notMoved).2, EventCounts.Fit]
    exact ⟨uint_lt _, uint_lt _, uint_lt _, uint_lt _⟩
  obtain ⟨-, impressions, clicks, actions⟩ := few
  simp only [pending] at impressions clicks actions
  refine ⟨?_, ?_, clicks, ?_⟩ <;>
    simp only [replayed, RequestTerms.tracked] <;> split_ifs <;> omega

/-- The mark of a sender that has processed the request is not counted. -/
theorem changeRequestUserId_counts (unverified : moved.impressionVerified = 0)
    (notMoved : ∀ old ∈ here, old.fraud ≠ .moved) :
    ∃ stored, (changeRequestUserId A moved here).1 = some stored ∧
      deliveredCounts stored (totalsOf (changeRequestUserId A moved here).2) + stored.pending =
        (mergeNonConsidered (restartActions moved) here).replayed := by
  obtain ⟨after, handed, result, counts⟩ := (restarted fields unverified notMoved).replay (A := A)
  refine ⟨after, by simp [changeRequestUserId, result], ?_⟩
  rw [← counts]
  simp only [changeRequestUserId, result, totalsOf_delegateProcessing]
  split <;> rfl

/-- A request that moves keeps each of its events, and invents none, exactly when what waits on the
two sides goes together. -/
theorem movesAll_iff (unverified : moved.impressionVerified = 0)
    (notMoved : ∀ old ∈ here, old.fraud ≠ .moved) :
    MovesAll A moved here ↔ KeepsAll moved here := by
  obtain ⟨stored, found, counts⟩ := changeRequestUserId_counts (A := A) fields unverified notMoved
  have all : MovesAll A moved here ↔ (mergeNonConsidered (restartActions moved) here).replayed =
      moved.events + (here.map (·.pending)).getD 0 := by
    simp [MovesAll, found, counts]
  by_cases fit : (moved.events + (here.map (·.pending)).getD 0).Fit
  case neg =>
    refine iff_of_false (fun moves => fit ?_) fun keeps => fit keeps.2.2.2.2
    exact all.1 moves ▸ replayed_fit fields notMoved
  obtain ⟨terms, counters⟩ := mergeNonConsidered_eq fields notMoved
  have counter {α : Type} (f : Counters → α) := congrArg f counters
  set merged := mergeNonConsidered (restartActions moved) here
  set waited := (here.map (·.pending)).getD 0 with hwaited
  have noticed : merged.hasNotice = true ↔
      0 < (moved.events + waited).notices ∨ moved.enabledNotice = false := by
    simp [hasNotice, uint_natCast fit.1, counters, terms, -EventCounts.add_notices]
  have impressions : merged.impressionNonConsidered = (moved.events + waited).impressions := by
    have waits : moved.events.impressions = moved.pending.impressions := by
      simp [events, pending, unverified]
    have few := fit.2.1
    rw [EventCounts.add_impressions, waits] at few ⊢
    exact (counter (·.impressionNonConsidered)).trans (uint_natCast few)
  have shown : merged.hasImpression = true ↔
      (0 < (moved.events + waited).notices ∨ moved.enabledNotice = false) ∧
        (0 < (moved.events + waited).impressions ∨ moved.enabledImpressionTracking = false) := by
    rw [← noticed, ← impressions]
    simp [hasImpression, terms]
  have clicks : merged.clickNonConsidered = (moved.events + waited).clicks :=
    (counter (·.clickNonConsidered)).trans (uint_natCast fit.2.2.1)
  have actions : merged.actionsNonConsidered = (moved.events + waited).actions ↔
      here = none ∨ waited.actions = moved.events.actions := by
    have few := fit.2.2.2
    rw [counter (·.actionsNonConsidered)]
    cases here with
    | none => simp [uint, hwaited] at few ⊢; omega
    | some old =>
      simp only [Option.isSome_some, if_true, EventCounts.add_actions, reduceCtorEq, false_or,
        uint] at few ⊢
      omega
  have keptNotices : merged.replayed.notices = (moved.events + waited).notices ↔
      (moved.events + waited).notices = if merged.hasNotice = true then 1 else 0 := eq_comm
  have keptImpressions : merged.replayed.impressions = (moved.events + waited).impressions ↔
      (merged.hasImpression = true → 0 < (moved.events + waited).impressions) := by
    simp only [replayed, impressions]
    cases merged.hasImpression <;> simp
    omega
  have keptActions : merged.replayed.actions = (moved.events + waited).actions ↔
      if merged.hasImpression = true ∧ 0 < (moved.events + waited).clicks ∧
          moved.enabledActionTracking = false then (moved.events + waited).actions = 0
      else here = none ∨ waited.actions = moved.events.actions := by
    simp only [replayed, clicks, RequestTerms.tracked, terms]
    cases merged.hasImpression <;> cases moved.enabledActionTracking <;>
      by_cases clicked : 0 < (moved.events + waited).clicks <;>
        simp only [clicked, actions, Bool.true_and, Bool.false_and, decide_true, decide_false,
          if_true, if_false, Bool.false_eq_true, and_true, and_false, Bool.true_eq_false]
    exact eq_comm
  have keptPostActions : merged.replayed.postActions = (moved.events + waited).postActions ↔
      (moved.events + waited).postActions = 0 := eq_comm
  rw [all, EventCounts.ext_iff, keptNotices, keptImpressions, keptActions, keptPostActions]
  simp only [KeepsAll, ← hwaited, fit, and_true]
  simp only [← shown]
  simp only [← noticed]
  have keptClicks : merged.replayed.clicks = (moved.events + waited).clicks := clicks
  simp only [keptClicks, true_and]

end Fields

/-- A clicked request that another user has seen. -/
def movedRequest : RequestProfile where
  userId := some 7
  enabledNotice := true
  enabledImpressionTracking := true
  enabledActionTracking := true
  noticeReceived := 1
  clickNonConsidered := 1
  actionsNonConsidered := 1
  fraud := .moved

theorem movedRequest_kept :
    MovesAll default movedRequest (some { createEmptyStub with
      impressionNonConsidered := 2, clickNonConsidered := 1, actionsNonConsidered := 1 }) :=
  (movesAll_iff (by unfold EventCounts.Fit; decide) rfl
    (by simp [createEmptyStub, clearActionFields])).2 (by decide)

/-- A post-impression action that came before the move is lost. -/
theorem postAction_not_moved :
    ¬∀ (A : RevenueArithmetic) (moved : RequestProfile) (here : Option RequestProfile),
      moved.impressionVerified = 0 → (∀ old ∈ here, old.fraud ≠ .moved) → MovesAll A moved here := by
  intro always
  obtain ⟨stored, found, counts⟩ := always default
    { movedRequest with postImpressionActions := ["view"] } none rfl (by simp)
  cases found
  revert counts
  decide +kernel

end AdServer.RequestInfo
