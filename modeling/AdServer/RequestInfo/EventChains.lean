import AdServer.RequestInfo.RequestEvents

/-!
# What the nested calls come to

One click, impression or notice may set off all the events that waited for it.
Here each chain is a single change of the profile and of the delegate.
-/

namespace AdServer.RequestInfo

open RequestProfile

variable {A : RevenueArithmetic} {moveEnabled : Bool} {profile : RequestProfile}
  {delegate : RequestProcessDelegate}

variable {info : RequestInfo}

namespace RequestProcessDelegate

@[simp] theorem fillRequestInfo_of_some (h : delegate.requestInfo = some info) :
    delegate.fillRequestInfo profile = delegate := by
  cases delegate
  simp_all [fillRequestInfo]

theorem duplicateImpressions_eq (count : Nat) : ∃ info : Option RequestInfo,
    delegate.duplicateImpressions profile count = { delegate with
      rollbackRequestInfo := info
      processRollbackImpressions :=
        delegate.processRollbackImpressions ++ List.replicate count .duplicate } ∧
    (0 < count → delegate.rollbackRequestInfo = none →
      info = some (convertRequestReaderToRequestInfo profile)) := by
  unfold duplicateImpressions
  split
  · refine ⟨delegate.rollbackRequestInfo.or (convertRequestReaderToRequestInfo profile), rfl, ?_⟩
    intro _ absent
    rw [absent]
    rfl
  · have none_left : count = 0 := by omega
    subst none_left
    exact ⟨delegate.rollbackRequestInfo, by simp, by omega⟩

theorem duplicateClicks_eq (count : Nat) : ∃ info : Option RequestInfo,
    delegate.duplicateClicks profile count = { delegate with
      rollbackRequestInfo := delegate.rollbackRequestInfo.or info
      processRollbackClicks :=
        delegate.processRollbackClicks ++ List.replicate count .duplicate } := by
  unfold duplicateClicks
  split
  · exact ⟨_, rfl⟩
  · have none_left : count = 0 := by omega
    subst none_left
    exact ⟨none, by simp⟩

end RequestProcessDelegate

open RequestProcessDelegate

/-- The actions that a profile lets through. -/
def RequestTerms.tracked (terms : RequestTerms) (count : Nat) : Nat :=
  if terms.enabledActionTracking then count else 0

theorem replayActions_eq (count : Nat) (notMoved : profile.fraud ≠ .moved)
    (clicked : profile.clickDone ≠ 0) (filled : delegate.requestInfo = some info) :
    ∃ time, replayActions moveEnabled count ⟨some profile, delegate, true⟩ =
      ⟨some { profile with
        actionTime := time
        actionsDone := profile.actionsDone + profile.toRequestTerms.tracked count },
      { delegate with
        processActions := delegate.processActions + profile.toRequestTerms.tracked count },
      true⟩ := by
  induction count generalizing profile delegate with
  | zero => exact ⟨profile.actionTime, by simp [replayActions, RequestTerms.tracked]⟩
  | succ count ih =>
    simp only [replayActions, Processed.andThen, processActionBuf, if_neg notMoved, ne_eq, clicked,
      not_false_eq_true, if_true, fillRequestInfo_of_some filled, Bool.true_or]
    by_cases tracking : profile.enabledActionTracking
    · simp only [tracking, if_true]
      obtain ⟨time, h⟩ := @ih { profile with
        actionTime := Time.seconds (delegate.requestInfo.getD {}).actionTime
        actionsDone := profile.actionsDone + 1 }
        { delegate with processActions := delegate.processActions + 1 }
        notMoved clicked filled
      refine ⟨time, h.trans ?_⟩
      simp only [RequestTerms.tracked, tracking, if_true, Nat.add_assoc, Nat.add_comm 1]
    · simp only [tracking, Bool.false_eq_true, if_false]
      obtain ⟨time, h⟩ := @ih { profile with
        actionTime := Time.seconds (delegate.requestInfo.getD {}).actionTime } delegate
        notMoved clicked filled
      refine ⟨time, h.trans ?_⟩
      simp [RequestTerms.tracked, tracking]

/-- What the click handler adds for a request that is fraud already. -/
def fraudClicks (mark : RequestState) : List RequestState :=
  if mark = .fraud then [.fraud] else []

theorem processClickBuf_first (time : Time) (notMoved : profile.fraud ≠ .moved)
    (verified : profile.impressionVerified ≠ 0) (notClicked : profile.clickDone = 0) :
    ∃ actionTime rollbackInfo, processClickBuf (some profile) delegate time moveEnabled =
      ⟨some { profile with
        clickTime := Time.seconds time
        actionTime := actionTime
        clickDone := 1
        clickNonConsidered := 0
        actionsNonConsidered := 0
        actionsDone := profile.actionsDone +
          profile.toRequestTerms.tracked profile.actionsNonConsidered },
      { delegate with
        requestInfo := some { delegate.requestInfo.getD
          (convertRequestReaderToRequestInfo profile) with clickTime := time }
        rollbackRequestInfo := delegate.rollbackRequestInfo.or rollbackInfo
        processClick := true
        processRollbackClicks := delegate.processRollbackClicks ++ fraudClicks profile.fraud ++
          List.replicate profile.clickNonConsidered .duplicate
        processActions := delegate.processActions +
          profile.toRequestTerms.tracked profile.actionsNonConsidered }, true⟩ := by
  have filled : (delegate.requestInfo.or (some (convertRequestReaderToRequestInfo profile))).map
      (fun info => { info with clickTime := time }) = some { delegate.requestInfo.getD
        (convertRequestReaderToRequestInfo profile) with clickTime := time } := by
    cases delegate.requestInfo <;> rfl
  simp only [processClickBuf, if_neg notMoved, ne_eq, verified, not_false_eq_true, if_true,
    notClicked, mapRequestInfo, fillRequestInfo, filled]
  obtain ⟨rollbackInfo, duplicates⟩ := @duplicateClicks_eq
    { profile with
      clickTime := Time.seconds time, clickDone := 1, clickNonConsidered := 0
      actionsNonConsidered := 0 }
    { delegate with
      requestInfo := some { delegate.requestInfo.getD
        (convertRequestReaderToRequestInfo profile) with clickTime := time }
      processClick := true
      processRollbackClicks := delegate.processRollbackClicks ++ fraudClicks profile.fraud }
    profile.clickNonConsidered
  simp only [fraudClicks] at duplicates
  rw [duplicates]
  obtain ⟨actionTime, replayed⟩ := @replayActions_eq moveEnabled
    { profile with
      clickTime := Time.seconds time, clickDone := 1, clickNonConsidered := 0
      actionsNonConsidered := 0 }
    { delegate with
      requestInfo := some { delegate.requestInfo.getD
        (convertRequestReaderToRequestInfo profile) with clickTime := time }
      rollbackRequestInfo := delegate.rollbackRequestInfo.or rollbackInfo
      processClick := true
      processRollbackClicks := delegate.processRollbackClicks ++ fraudClicks profile.fraud ++
        List.replicate profile.clickNonConsidered .duplicate }
    _ profile.actionsNonConsidered notMoved (by simp) rfl
  exact ⟨actionTime, rollbackInfo, replayed⟩

theorem replayPostActions_eq (infos : List RequestPostActionInfo)
    (notMoved : profile.fraud ≠ .moved) (verified : profile.impressionVerified ≠ 0)
    (filled : delegate.requestInfo = some info)
    (above : ∀ name ∈ profile.postImpressionActions, ∀ later ∈ infos, name < later.actionName)
    (sorted : infos.Pairwise fun earlier later => earlier.actionName < later.actionName) :
    replayPostActions moveEnabled ⟨some profile, delegate, true⟩ infos =
      ⟨some { profile with
        postImpressionActions :=
          profile.postImpressionActions ++ infos.map (·.actionName) },
      { delegate with
        processPostImpressionActions := delegate.processPostImpressionActions ++ infos },
      true⟩ := by
  induction infos generalizing profile delegate with
  | nil => simp [replayPostActions]
  | cons first rest ih =>
    have place : Lib.SortedVector.lowerBound first.actionName profile.postImpressionActions =
        (profile.postImpressionActions, []) :=
      Lib.SortedVector.lowerBound_of_all_lt fun name h => above name h first List.mem_cons_self
    obtain ⟨first_below, rest_sorted⟩ := List.pairwise_cons.1 sorted
    simp only [replayPostActions, Processed.andThen, processImpressionPostActionBuf,
      if_neg notMoved, place, List.head?_nil, reduceCtorEq, if_false, ne_eq, verified,
      not_false_eq_true, if_true, fillRequestInfo_of_some filled, Bool.true_or]
    refine (@ih { profile with
      postImpressionActions := profile.postImpressionActions ++ [first.actionName] }
      { delegate with
        processPostImpressionActions := delegate.processPostImpressionActions ++ [first] }
      notMoved verified filled ?_ rest_sorted).trans ?_
    · intro name h later hl
      rcases List.mem_append.1 h with old | new
      · exact above name old later (List.mem_cons_of_mem _ hl)
      · rw [List.mem_singleton.1 new]
        exact first_below later hl
    · simp only [List.append_assoc, List.singleton_append, List.map_cons]

theorem waitingClick_eq (count : Nat) (time : Time) (notMoved : profile.fraud ≠ .moved)
    (verified : profile.impressionVerified ≠ 0) (notClicked : profile.clickDone = 0)
    (waiting : profile.clickNonConsidered = count - 1) (filled : delegate.requestInfo = some info)
    (notYet : delegate.processClick = false) :
    ∃ clickTime actionTime impressionTime rollbackInfo,
      (if 0 < count then
        Processed.andThen ⟨some profile, delegate, true⟩ fun memBuf delegate =>
          processClickBuf memBuf delegate time moveEnabled
      else ⟨some profile, delegate, true⟩) =
      ⟨some { profile with
        clickTime := clickTime
        actionTime := actionTime
        clickDone := if 0 < count then 1 else 0
        clickNonConsidered := 0
        actionsNonConsidered := if 0 < count then 0 else profile.actionsNonConsidered
        actionsDone := profile.actionsDone + if 0 < count then
          profile.toRequestTerms.tracked profile.actionsNonConsidered else 0 },
      { delegate with
        requestInfo := some { info with clickTime := impressionTime }
        rollbackRequestInfo := delegate.rollbackRequestInfo.or rollbackInfo
        processClick := decide (0 < count)
        processRollbackClicks := delegate.processRollbackClicks ++ if 0 < count then
          fraudClicks profile.fraud ++ List.replicate (count - 1) .duplicate else []
        processActions := delegate.processActions + if 0 < count then
          profile.toRequestTerms.tracked profile.actionsNonConsidered else 0 }, true⟩ := by
  by_cases some_wait : 0 < count
  · obtain ⟨actionTime, rollbackInfo, clicked⟩ := @processClickBuf_first moveEnabled _ delegate
      time notMoved verified notClicked
    refine ⟨Time.seconds time, actionTime, time, rollbackInfo, ?_⟩
    simp only [some_wait, if_true, Processed.andThen, clicked, filled, Option.getD_some, waiting,
      Bool.true_or, decide_true, List.append_assoc]
  · have none_wait : profile.clickNonConsidered = 0 := by omega
    refine ⟨profile.clickTime, profile.actionTime, info.clickTime, none, ?_⟩
    obtain ⟨_, _, ⟨⟩⟩ := profile
    cases delegate
    simp_all

/-- The profile with the cost of its first impression. -/
def RequestProfile.withImpression (profile : RequestProfile) (info : ImpressionInfo) :
    RequestProfile :=
  if profile.impressionNonConsidered = 0 then convertImpressionInfoToRequestWriter info profile false
  else profile

/-- What an impression makes of the counters once the notice is there. -/
def Counters.verify (counters : Counters) (tracked : Nat → Nat) : Counters :=
  { counters with
      impressionVerified := 1
      impressionNonConsidered := 0
      clickDone := if 0 < counters.clickNonConsidered then 1 else 0
      clickNonConsidered := 0
      actionsDone := counters.actionsDone + if 0 < counters.clickNonConsidered then
        tracked counters.actionsNonConsidered else 0
      actionsNonConsidered := if 0 < counters.clickNonConsidered then 0
        else counters.actionsNonConsidered }

/-- What it delegates. -/
structure Verified (counters : Counters) (tracked : Nat → Nat)
    (before after : RequestProcessDelegate) : Prop where
  request : after.processRequest = before.processRequest
  fraudRequest : after.processFraudRequest = before.processFraudRequest
  impression : after.processImpression = true
  duplicates : after.processRollbackImpressions = before.processRollbackImpressions ++
    List.replicate counters.impressionNonConsidered .duplicate
  click : after.processClick = decide (0 < counters.clickNonConsidered)
  rollbackClicks : after.processRollbackClicks = before.processRollbackClicks ++
    if 0 < counters.clickNonConsidered then
      fraudClicks counters.fraud ++ List.replicate (counters.clickNonConsidered - 1) .duplicate
    else []
  actions : after.processActions = before.processActions +
    if 0 < counters.clickNonConsidered then tracked counters.actionsNonConsidered else 0
  postActions : after.processPostImpressionActions.map (·.actionName) =
    before.processPostImpressionActions.map (·.actionName) ++ counters.postImpressionActions

/-- The advertiser's amounts on the impression: in the profile, in what is delivered, and in the
duplicates that are delivered with it. -/
structure Evaluated (A : RevenueArithmetic) (source after : RequestProfile) (duplicates : Nat)
    (mark : RequestState) (delegate : RequestProcessDelegate) : Prop where
  revenue : after.advRevenue.impression = (source.billing A (·.impression)).advAmount
  delta : after.deltaAdvRevenue.impression =
    source.fullAdvRevenue.impression - (source.billing A (·.impression)).advAmount
  info : ∃ info, delegate.requestInfo = some info ∧ info.advRevenue = after.advRevenue ∧
    info.deltaAdvRevenue = after.deltaAdvRevenue ∧ info.fraud = mark
  rollback : 0 < duplicates → ∃ info, delegate.rollbackRequestInfo = some info ∧
    info.advRevenue = after.advRevenue ∧ info.deltaAdvRevenue = after.deltaAdvRevenue

/-- The amounts of an evaluation come from the terms, the costs and the full revenue. -/
theorem billing_congr {source other : RequestProfile} (amount : Revenue → Int)
    (terms : source.toRequestTerms = other.toRequestTerms)
    (adv : source.advRevenue = other.advRevenue)
    (delta : source.deltaAdvRevenue = other.deltaAdvRevenue)
    (orig : source.origPubRevenue = other.origPubRevenue)
    (notice : source.noticeImpRevenue = other.noticeImpRevenue)
    (impression : source.impressionImpRevenue = other.impressionImpRevenue) :
    source.billing A amount = other.billing A amount := by
  simp only [billing, fullAdvRevenue, publisherAmount, resPubRevenue, overridePubImpRevenue,
    serviceCommission, terms, adv, delta, orig, notice, impression]

theorem evalRevenuesOnImpressionFin_eq (info : RequestInfo) : ∃ revenues handed : Revenues,
    evalRevenuesOnImpressionFin A profile info =
      ({ profile with toRevenues := revenues }, { info with toRevenues := handed }) ∧
    revenues.advRevenue.impression = (profile.billing A (·.impression)).advAmount ∧
    revenues.deltaAdvRevenue.impression =
      profile.fullAdvRevenue.impression - (profile.billing A (·.impression)).advAmount ∧
    handed.advRevenue = revenues.advRevenue ∧
    handed.deltaAdvRevenue = revenues.deltaAdvRevenue := by
  refine ⟨_, _, rfl, ?_, ?_, rfl, rfl⟩
  · exact congrArg AdvBillingAmounts.advAmount (billing_congr _ rfl rfl rfl rfl rfl rfl)
  · simp only [evaluatedRevenues, Revenue.sub_impression]
    have full : profile.fullAdvRevenue.impression - (profile.billing A (·.impression)).advAmount =
        0 - ((profile.billing A (·.impression)).advAmount - profile.fullAdvRevenue.impression) := by
      omega
    rw [full]
    rfl

theorem verifyImpression_eq (info : ImpressionInfo) (notMoved : profile.fraud ≠ .moved)
    (notClicked : profile.clickDone = 0)
    (sorted : profile.postImpressionActions.Pairwise (· < ·))
    (fresh : delegate.rollbackRequestInfo = none) (notYet : delegate.processClick = false) :
    ∃ after handed, verifyImpression A profile delegate info moveEnabled =
        ⟨some after, handed, true⟩ ∧
      after.toCounters = profile.toCounters.verify profile.toRequestTerms.tracked ∧
      after.toRequestTerms = profile.toRequestTerms ∧
      after.impressionUserId = (profile.withImpression info).impressionUserId ∧
      after.noticeImpRevenue = profile.noticeImpRevenue ∧
      after.impressionImpRevenue = (profile.withImpression info).impressionImpRevenue ∧
      after.origPubRevenue = profile.origPubRevenue ∧
      Verified profile.toCounters profile.toRequestTerms.tracked delegate handed ∧
      Evaluated A (profile.withImpression info) after profile.impressionNonConsidered
        (delegate.requestInfo.getD (convertRequestReaderToRequestInfo profile)).fraud handed := by
  set source := withImpression { profile with
    postImpressionActions := []
    clickNonConsidered := profile.clickNonConsidered - 1 } info with hsource
  have source_counters : source.toCounters = { profile.toCounters with
      postImpressionActions := []
      clickNonConsidered := profile.clickNonConsidered - 1 } := by
    simp only [hsource, withImpression]
    split <;> rfl
  have source_terms : source.toRequestTerms = profile.toRequestTerms := by
    simp only [hsource, withImpression]
    split <;> rfl
  have source_user : source.impressionUserId =
      (profile.withImpression info).impressionUserId := by
    simp only [hsource, withImpression]
    split <;> rfl
  have source_notice : source.noticeImpRevenue = profile.noticeImpRevenue := by
    simp only [hsource, withImpression]
    split <;> rfl
  have source_cost : source.impressionImpRevenue =
      (profile.withImpression info).impressionImpRevenue := by
    simp only [hsource, withImpression]
    split <;> rfl
  have source_orig : source.origPubRevenue = profile.origPubRevenue := by
    simp only [hsource, withImpression]
    split <;> rfl
  set filled := (delegate.requestInfo.getD (convertRequestReaderToRequestInfo profile)) with hfilled
  obtain ⟨revenues, handed, evaluated, revenue, delta, handed_adv, handed_delta⟩ :=
    @evalRevenuesOnImpressionFin_eq A source
      { filled with impTime := info.time }
  have given : ((delegate.fillRequestInfo profile).mapRequestInfo fun given =>
      { given with impTime := info.time }) = { delegate with
        requestInfo := some { filled with impTime := info.time } } := by
    rw [hfilled]
    cases h : delegate.requestInfo <;>
      simp [mapRequestInfo, fillRequestInfo, h]
  set shown : RequestProfile := { source with
    toRevenues := revenues
    impressionVerified := 1
    impressionNonConsidered := 0 } with hshown
  obtain ⟨rollbackInfo, duplicates, rollback⟩ := @duplicateImpressions_eq
    shown { delegate with
      requestInfo := some { filled with impTime := info.time, toRevenues := handed }
      processImpression := true } profile.impressionNonConsidered
  obtain ⟨counted, hcounted⟩ : ∃ counted : RequestProcessDelegate, counted = { delegate with
      requestInfo := some { filled with impTime := info.time, toRevenues := handed }
      processImpression := true
      rollbackRequestInfo := rollbackInfo
      processRollbackImpressions := delegate.processRollbackImpressions ++
        List.replicate profile.impressionNonConsidered .duplicate
      impressionInfo := some info } := ⟨_, rfl⟩
  have unfolded : verifyImpression A profile delegate info moveEnabled =
      replayPostActions moveEnabled
        (if 0 < profile.clickNonConsidered then
          Processed.andThen ⟨some shown, counted, true⟩ fun memBuf delegate =>
              processClickBuf memBuf delegate info.time moveEnabled
        else ⟨some shown, counted, true⟩)
        (profile.postImpressionActions.map fun name => ⟨info.time, name⟩) := by
    have source_eq : (if profile.impressionNonConsidered = 0 then
        convertImpressionInfoToRequestWriter info { profile with
          postImpressionActions := []
          clickNonConsidered := profile.clickNonConsidered - 1 } false
      else { profile with
          postImpressionActions := []
          clickNonConsidered := profile.clickNonConsidered - 1 }) = source := rfl
    simp only [verifyImpression, given, Option.getD_some, source_eq, evaluated]
    rw [← hshown]
    simp only [duplicates, hcounted]
  have shown_counters : shown.toCounters = { profile.toCounters with
      postImpressionActions := []
      clickNonConsidered := profile.clickNonConsidered - 1
      impressionVerified := 1
      impressionNonConsidered := 0 } := by
    simp only [hshown, source_counters]
  have shown_terms : shown.toRequestTerms = profile.toRequestTerms := source_terms
  obtain ⟨clickTime, actionTime, impressionTime, clickRollback, clicked⟩ :=
    @waitingClick_eq moveEnabled shown counted _ profile.clickNonConsidered info.time
      (by rwa [shown_counters]) (by simp [shown_counters])
      (by rwa [shown_counters]) (by rw [shown_counters]) (by rw [hcounted])
      (by rw [hcounted, notYet])
  subst hcounted
  rw [unfolded, clicked, replayPostActions_eq _ (by rwa [shown_counters])
    (by simp [shown_counters]) rfl (by simp [shown_counters])
    (List.pairwise_map.2 (sorted.imp fun h => h))]
  refine ⟨_, _, rfl, ?_, shown_terms, source_user, source_notice, source_cost, source_orig, ?_, ?_⟩
  · simp only [shown_counters, shown_terms, Counters.verify, List.map_map, List.nil_append]
    congr 1
    exact List.map_id _
  · exact
      { request := rfl
        fraudRequest := rfl
        impression := rfl
        duplicates := rfl
        click := rfl
        rollbackClicks := by rw [shown_counters]
        actions := by rw [shown_counters, shown_terms]
        postActions := by simp [Function.comp_def] }
  · have source_billing : source.billing A (·.impression) =
        (profile.withImpression info).billing A (·.impression) := by
      simp only [hsource, withImpression]
      split <;> exact billing_congr _ rfl rfl rfl rfl rfl rfl
    have source_full : source.fullAdvRevenue = (profile.withImpression info).fullAdvRevenue := by
      simp only [hsource, withImpression]
      split <;> rfl
    rw [source_billing] at revenue delta
    rw [source_full] at delta
    exact
      { revenue := revenue
        delta := delta
        info := ⟨_, rfl, handed_adv, handed_delta, rfl⟩
        rollback := by
          intro some_wait
          rw [rollback some_wait fresh]
          exact ⟨_, rfl, rfl, rfl⟩ }

/-- An impression of the request's own user moves nothing, and no second move is made. -/
theorem processImpressionBuf_verify (info : ImpressionInfo) (notMoved : profile.fraud ≠ .moved)
    (unverified : profile.impressionVerified = 0) (received : profile.noticeReceived ≠ 0)
    (sameUser : moveEnabled = true → info.userId = none ∨ info.userId = profile.userId) :
    processImpressionBuf A (some profile) delegate info moveEnabled =
      verifyImpression A profile delegate info moveEnabled := by
  have stays : ¬(moveEnabled ∧ profile.requestDone ≠ 0 ∧ info.userId ≠ none ∧
      info.userId ≠ profile.userId) := by
    rintro ⟨moves, -, given, other⟩
    exact (sameUser moves).elim given other
  simp only [processImpressionBuf, ne_eq, notMoved, not_false_eq_true, unverified, and_self,
    if_true, if_neg stays, received]

/-- The profile that the notice leaves to the impression. -/
def RequestProfile.received (profile : RequestProfile) (noticeInfo : ImpressionInfo) :
    RequestProfile :=
  { convertImpressionInfoToRequestWriter noticeInfo profile true with
    impressionNonConsidered := profile.impressionNonConsidered - 1
    noticeReceived := 1 }

/-- The impression that follows the notice: the first that waited, or the request's own. -/
def RequestProfile.waitingImpression (profile : RequestProfile) : ImpressionInfo :=
  if 0 < profile.impressionNonConsidered then convertRequestReaderToImpressionInfo profile false
  else fillAutoImpressionInfo profile

section
variable (noticeInfo : ImpressionInfo) (notMoved : profile.fraud ≠ .moved)
  (done : profile.requestDone ≠ 0) (notReceived : profile.noticeReceived = 0)

include notMoved done notReceived

theorem processNoticeBuf_alone (none_wait : profile.impressionNonConsidered = 0)
    (tracking : profile.enabledImpressionTracking = true) :
    processNoticeBuf A (some profile) delegate noticeInfo moveEnabled =
      ⟨some (profile.received noticeInfo), delegate.fillRequestInfo profile, true⟩ := by
  simp [processNoticeBuf, notMoved, done, notReceived, none_wait, tracking, received]

theorem processNoticeBuf_impression (unverified : profile.impressionVerified = 0)
    (sameUser : moveEnabled = true →
      profile.impressionUserId = none ∨ profile.impressionUserId = profile.userId)
    (follows : 0 < profile.impressionNonConsidered ∨
      profile.enabledImpressionTracking = false) :
    processNoticeBuf A (some profile) delegate noticeInfo moveEnabled =
      { verifyImpression A (profile.received noticeInfo) (delegate.fillRequestInfo profile)
          profile.waitingImpression moveEnabled with saveProfile := true } := by
  have next (info : ImpressionInfo) (sameUser : moveEnabled = true → info.userId = none ∨
      info.userId = profile.userId) (given : RequestProcessDelegate) :
      processImpressionBuf A (some (profile.received noticeInfo)) given info moveEnabled =
        verifyImpression A (profile.received noticeInfo) given info moveEnabled :=
    processImpressionBuf_verify info notMoved unverified Nat.one_ne_zero sameUser
  have start : processNoticeBuf A (some profile) delegate noticeInfo moveEnabled =
      if 0 < profile.impressionNonConsidered then
        Processed.andThen ⟨some (profile.received noticeInfo),
          delegate.fillRequestInfo profile, true⟩ fun memBuf delegate =>
            processImpressionBuf A memBuf delegate
              (convertRequestReaderToImpressionInfo profile false) moveEnabled
      else if !profile.enabledImpressionTracking then
        Processed.andThen ⟨some (profile.received noticeInfo),
          delegate.fillRequestInfo profile, true⟩ fun memBuf delegate =>
            processImpressionBuf A memBuf delegate (fillAutoImpressionInfo profile) moveEnabled
      else ⟨some (profile.received noticeInfo), delegate.fillRequestInfo profile, true⟩ := by
    simp only [processNoticeBuf, notMoved, done, notReceived, if_false, ne_eq, not_true_eq_false,
      received]
  rw [start]
  by_cases waits : 0 < profile.impressionNonConsidered
  · simp only [waits, if_true, Processed.andThen, waitingImpression, Bool.true_or]
    rw [next (convertRequestReaderToImpressionInfo profile false) sameUser]
  · have untracked := follows.resolve_left waits
    simp only [waits, if_false, untracked, Bool.not_false, if_true, Processed.andThen,
      waitingImpression, Bool.true_or]
    rw [next (fillAutoImpressionInfo profile) fun _ => .inl rfl]

end

/-- The profile with the request in it, its notice taken out. -/
def RequestProfile.requested (profile : RequestProfile) (info : RequestInfo) : RequestProfile :=
  { convertRequestInfoToRequestWriter info profile with noticeNonConsidered := 0 }

/-- The notice that follows the request: the one that waited, or the request's own. -/
def RequestProfile.waitingNotice (profile : RequestProfile) (info : RequestInfo) :
    Option ImpressionInfo :=
  let stored := if profile.noticeNonConsidered ≠ 0 then
    some (convertRequestReaderToImpressionInfo profile true) else none
  if info.enabledNotice then stored
  else some { stored.getD {} with time := Time.ofSeconds (profile.requested info).time }

theorem processRequestBuf_first (info : RequestInfo) (notMoved : profile.fraud ≠ .moved)
    (undone : profile.requestDone = 0) :
    processRequestBuf A (some profile) {} info moveEnabled =
      match profile.waitingNotice info with
      | none => ⟨some (profile.requested info),
          { requestInfo := some info, processRequest := some .normal }, true⟩
      | some notice =>
        { processNoticeBuf A (some (profile.requested info))
            { requestInfo := some info, processRequest := some .normal } notice moveEnabled with
          saveProfile := true } := by
  have found : profile.requestDone = 0 ∧ profile.fraud ≠ .moved := ⟨undone, notMoved⟩
  have enabled_eq : (profile.requested info).enabledNotice = info.enabledNotice := rfl
  by_cases stored : profile.noticeNonConsidered = 0
  · have same : convertRequestInfoToRequestWriter info profile = profile.requested info := by
      obtain ⟨_, _, ⟨⟩⟩ := profile
      simp_all [requested, convertRequestInfoToRequestWriter]
    simp only [processRequestBuf, if_pos found, ne_eq, stored, not_true_eq_false, if_false, same,
      waitingNotice, enabled_eq]
    cases enabled : info.enabledNotice <;> simp [Processed.andThen]
  · have same : convertRequestInfoToRequestWriter info
        { profile with noticeNonConsidered := 0 } = profile.requested info := rfl
    simp only [processRequestBuf, if_pos found, ne_eq, stored, not_false_eq_true, if_true, same,
      waitingNotice, enabled_eq]
    cases enabled : info.enabledNotice <;> simp [Processed.andThen]

end AdServer.RequestInfo
