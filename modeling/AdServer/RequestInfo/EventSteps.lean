import AdServer.RequestInfo.EventTally

/-!
# The profile that stands for a tally

Each event takes a profile that stands for a tally to one that stands for the
next, and delivers the difference between the totals. Here are the events that
change nothing but what they count; the notice and the impression are apart.
-/

namespace AdServer.RequestInfo

open RequestProcessDelegate

/-- The profile that stands for a tally, with the events of one user. -/
structure Stored (A : RevenueArithmetic) (userId : UserId) (t : Tally) (profile : RequestProfile) :
    Prop where
  settled : t.Settled
  counters : profile.toCounters = t.counters
  terms : ∀ info ∈ t.request, profile.toRequestTerms = info.toRequestTerms
  user : ∀ info ∈ t.request, info.userId = userId
  impressionUser : profile.impressionUserId = none ∨ profile.impressionUserId = userId
  noticeCost : profile.noticeImpRevenue = t.noticeCost
  impressionCost : profile.impressionImpRevenue = t.impressionCost
  orig : ∀ info ∈ t.request, profile.origPubRevenue = info.pubRevenue
  revenues : t.verified = false → ∀ info ∈ t.request, profile.toRevenues = info.toRevenues
  revenue : t.verified = true → profile.advRevenue.impression = t.billed A
  delta : t.verified = true → profile.deltaAdvRevenue.impression = t.full - t.billed A

/-- An event of the request's one user, as the log has it. -/
def Event.Of (userId : UserId) : Event → Prop
  | .request info => info.userId = userId ∧ info.fraud = .normal
  | .impression info => info.userId = none ∨ info.userId = userId
  | _ => True

variable {A : RevenueArithmetic} {moveEnabled : Bool} {userId : UserId} {t : Tally}
  {profile : RequestProfile}

namespace Stored

variable (h : Stored A userId t profile)

include h

theorem verified_eq : profile.impressionVerified = if t.verified then 1 else 0 :=
  congrArg Counters.impressionVerified h.counters

theorem clickDone_eq : profile.clickDone = if t.clicked then 1 else 0 :=
  congrArg Counters.clickDone h.counters

theorem noticed_eq : profile.noticeReceived = if t.noticed then 1 else 0 :=
  congrArg Counters.noticeReceived h.counters

theorem done_eq : profile.requestDone = if t.request.isSome then 1 else 0 :=
  congrArg Counters.requestDone h.counters

theorem waiting_eq : profile.impressionNonConsidered = if t.verified then 0 else t.impressions :=
  congrArg Counters.impressionNonConsidered h.counters

theorem mark_eq : profile.fraud = t.mark :=
  congrArg Counters.fraud h.counters

theorem names_eq : profile.postImpressionActions = t.names.sort :=
  congrArg Counters.postImpressionActions h.counters

theorem notice_eq : profile.noticeNonConsidered =
    if t.request.isSome then 0 else if t.notice then 1 else 0 :=
  congrArg Counters.noticeNonConsidered h.counters

theorem notMoved : profile.fraud ≠ .moved := by
  rw [congrArg Counters.fraud h.counters]
  cases marked : t.fraud <;> simp [Tally.counters, Tally.mark, marked]

theorem tracked_eq (requested : t.request.isSome) (count : Nat) :
    profile.toRequestTerms.tracked count = t.tracked count := by
  obtain ⟨info, found⟩ := Option.isSome_iff_exists.1 requested
  simp [h.terms info found, Tally.tracked, found]

theorem userId_eq (requested : t.request.isSome) :
    profile.userId = userId := by
  obtain ⟨info, found⟩ := Option.isSome_iff_exists.1 requested
  exact (congrArg RequestTerms.userId (h.terms info found)).trans (h.user info found)

end Stored

/-- What one event does to a profile that stands for a tally. -/
def Steps (A : RevenueArithmetic) (userId : UserId) (t next : Tally) (profile : RequestProfile)
    (processed : Processed) : Prop :=
  (∃ after, (if processed.saveProfile then processed.memBuf else some profile) = some after ∧
    Stored A userId next after) ∧
  t.totals A + processed.delegate.totals = next.totals A

section
variable (h : Stored A userId t profile)
include h

theorem click_steps (time : Time) :
    Steps A userId t (t.add (.click time)) profile
      (processClickBuf (some profile) {} time moveEnabled) := by
  have settled : (t.add (.click time)).Settled :=
    ⟨h.settled.auto, h.settled.uncosted, h.settled.rolledBack, h.settled.unmarked, h.settled.unpriced⟩
  cases verified : t.verified with
  | true =>
    have tracked := h.tracked_eq (Tally.requested_of_noticed (Tally.noticed_of_verified verified))
    cases first : t.clicks with
    | zero =>
      have notClicked : t.clicked = false := by simp [Tally.clicked, first]
      obtain ⟨actionTime, rollbackInfo, result⟩ := @processClickBuf_first moveEnabled _ {}
        time h.notMoved (by simp [h.verified_eq, verified])
        (by simp [h.clickDone_eq, notClicked])
      rw [result]
      refine ⟨⟨_, rfl, { h with settled := settled, counters := ?_ }⟩, ?_⟩
      · simp only [h.counters, tracked, Tally.counters_click]
        simp [Tally.counters, verified, notClicked]
      · simp only [h.counters, tracked, Tally.totals_click]
        ext : 1 <;>
          simp [Tally.totals, totals, verified, notClicked, first,
            Tally.counters, convertRequestReaderToRequestInfo]
        rw [← Multiset.cons_coe, Tally.coe_fraudClicks]
    | succ count =>
      have clicked : t.clicked = true := by simp [Tally.clicked, first, verified]
      have result : processClickBuf (some profile) {} time moveEnabled =
          ⟨some profile, ((({} : RequestProcessDelegate).fillRequestInfo profile).mapRequestInfo
            fun info => { info with clickTime := time }).duplicateClicks profile 1, false⟩ := by
        simp [processClickBuf, h.notMoved, h.verified_eq, verified, h.clickDone_eq, clicked]
      rw [result]
      refine ⟨⟨profile, rfl, { h with settled := settled, counters := ?_ }⟩, ?_⟩
      · rw [h.counters, Tally.counters_click]
        simp [Tally.counters, verified, clicked]
      · rw [Tally.totals_click]
        ext : 1 <;>
          simp [Tally.totals, totals, verified, clicked, first, duplicateClicks,
            fillRollbackRequestInfo, mapRequestInfo, fillRequestInfo]
        simp only [← Multiset.singleton_add]
        abel
  | false =>
    have notClicked : t.clicked = false := by simp [Tally.clicked, verified]
    have result : processClickBuf (some profile) {} time moveEnabled =
        ⟨some { profile with
          clickTime := Time.seconds time
          clickNonConsidered := profile.clickNonConsidered + 1 }, {}, true⟩ := by
      simp [processClickBuf, h.notMoved, h.verified_eq, verified]
    rw [result]
    refine ⟨⟨_, rfl, { h with settled := settled, counters := ?_ }⟩, ?_⟩
    · simp only [h.counters, Tally.counters_click]
      simp [Tally.counters, verified, notClicked]
    · rw [Tally.totals_click]
      ext : 1 <;> simp [Tally.totals, totals, verified, notClicked]

theorem action_steps (time : Time) :
    Steps A userId t (t.add (.action time)) profile
      (processActionBuf (some profile) {} time moveEnabled) := by
  have settled : (t.add (.action time)).Settled :=
    ⟨h.settled.auto, h.settled.uncosted, h.settled.rolledBack, h.settled.unmarked, h.settled.unpriced⟩
  have counters_next : (t.add (.action time)).counters = { t.counters with
      actionsDone := if t.clicked then t.tracked (t.actions + 1) else 0
      actionsNonConsidered := if t.clicked then 0 else t.actions + 1 } := rfl
  have totals_next : (t.add (.action time)).totals A = { t.totals A with
      actions := if t.clicked then t.tracked (t.actions + 1) else 0 } := rfl
  cases clicked : t.clicked with
  | true =>
    have requested : t.request.isSome := by
      apply Tally.requested_of_noticed
      apply Tally.noticed_of_verified
      simp only [Tally.clicked, Bool.and_eq_true] at clicked
      exact clicked.1
    have tracked_succ : t.tracked (t.actions + 1) =
        t.tracked t.actions + profile.toRequestTerms.tracked 1 := by
      rw [← h.tracked_eq requested, ← h.tracked_eq requested, RequestTerms.tracked,
        RequestTerms.tracked, RequestTerms.tracked]
      split <;> rfl
    have result : processActionBuf (some profile) {} time moveEnabled =
        ⟨some { profile with
          actionTime := Time.seconds time
          actionsDone := profile.actionsDone + profile.toRequestTerms.tracked 1 },
        { ({} : RequestProcessDelegate).fillRequestInfo profile with
          processActions := profile.toRequestTerms.tracked 1 }, true⟩ := by
      have done : profile.clickDone ≠ 0 := by simp [h.clickDone_eq, clicked]
      cases tracking : profile.enabledActionTracking <;>
        simp [processActionBuf, h.notMoved, done, tracking, RequestTerms.tracked, fillRequestInfo]
    rw [result]
    refine ⟨⟨_, rfl, { h with settled := settled, counters := ?_ }⟩, ?_⟩
    · simp only [h.counters, counters_next, tracked_succ]
      simp [Tally.counters, clicked]
    · rw [totals_next, tracked_succ]
      ext : 1 <;>
        simp [Tally.totals, totals, clicked, fillRequestInfo]
  | false =>
    have result : processActionBuf (some profile) {} time moveEnabled =
        ⟨some { profile with
          actionTime := Time.seconds time
          actionsNonConsidered := profile.actionsNonConsidered + 1 }, {}, true⟩ := by
      simp [processActionBuf, h.notMoved, h.clickDone_eq, clicked]
    rw [result]
    refine ⟨⟨_, rfl, { h with settled := settled, counters := ?_ }⟩, ?_⟩
    · simp only [h.counters, counters_next]
      simp [Tally.counters, clicked]
    · rw [totals_next]
      ext : 1 <;> simp [Tally.totals, totals, clicked]

theorem postAction_steps (info : RequestPostActionInfo) :
    Steps A userId t (t.add (.postAction info)) profile
      (processImpressionPostActionBuf (some profile) {} info moveEnabled) := by
  have settled : (t.add (.postAction info)).Settled :=
    ⟨h.settled.auto, h.settled.uncosted, h.settled.rolledBack, h.settled.unmarked, h.settled.unpriced⟩
  have counters_next : (t.add (.postAction info)).counters = { t.counters with
      postImpressionActions := (insert info.actionName t.names).sort } := rfl
  have totals_next : (t.add (.postAction info)).totals A = { t.totals A with
      postActions := if t.verified then (insert info.actionName t.names).val else 0 } := rfl
  have found := Lib.SortedVector.head_lowerBound_iff (a := info.actionName)
    (Lib.SortedVector.sort_sorted t.names)
  rw [Finset.mem_sort] at found
  by_cases known : info.actionName ∈ t.names
  · have result : processImpressionPostActionBuf (some profile) {} info moveEnabled =
        ⟨some profile, {}, false⟩ := by
      simp [processImpressionPostActionBuf, h.notMoved, h.names_eq, found.2 known]
    rw [result]
    refine ⟨⟨_, rfl, { h with settled := settled, counters := ?_ }⟩, ?_⟩
    · rw [h.counters, counters_next, Finset.insert_eq_of_mem known]
      rfl
    · rw [totals_next, Finset.insert_eq_of_mem known]
      ext : 1 <;> simp [Tally.totals, totals]
  · have inserted := Lib.SortedVector.insert_lowerBound known
    have result : processImpressionPostActionBuf (some profile) {} info moveEnabled =
        ⟨some { profile with
          postImpressionActions := (insert info.actionName t.names).sort },
        if t.verified then
          { ({} : RequestProcessDelegate).fillRequestInfo profile with
            processPostImpressionActions := [info] }
        else {}, true⟩ := by
      rw [← inserted]
      cases verified : t.verified <;>
        simp [processImpressionPostActionBuf, h.notMoved, h.names_eq, mt found.1 known, h.verified_eq,
          verified, fillRequestInfo]
    rw [result]
    refine ⟨⟨_, rfl, { h with settled := settled, counters := ?_ }⟩, ?_⟩
    · rw [counters_next]
      simp only [h.counters]
    · rw [totals_next, Finset.insert_val_of_notMem known]
      cases verified : t.verified <;> ext : 1 <;>
        simp [Tally.totals, totals, verified, fillRequestInfo, ← Multiset.singleton_add, add_comm]

theorem fraudRollback_steps (time : Time) :
    Steps A userId t (t.add (.fraudRollback time)) profile
      (processFraudRollbackBuf (some profile) {} time) := by
  cases fraud : t.fraud with
  | true =>
    have result : processFraudRollbackBuf (some profile) {} time = ⟨some profile, {}, false⟩ := by
      simp [processFraudRollbackBuf, h.mark_eq, Tally.mark, fraud]
    have same : t.add (.fraudRollback time) = t := by simp [Tally.add, fraud]
    rw [result, same]
    refine ⟨⟨_, rfl, h⟩, ?_⟩
    ext : 1 <;> simp [totals]
  | false =>
    have next : t.add (.fraudRollback time) = { t with
        fraud := true
        fraudRequest := t.request.isSome
        fraudImpression := t.verified } := by
      simp [Tally.add, fraud]
    obtain ⟨freshRequest, freshImpression⟩ := h.settled.unmarked fraud
    have settled : (t.add (.fraudRollback time)).Settled := by
      rw [next]
      exact ⟨h.settled.auto, h.settled.uncosted, fun rolled => rolled, fun marked => by simp at marked,
        h.settled.unpriced⟩
    have counters_next : (t.add (.fraudRollback time)).counters =
        { t.counters with fraud := .fraud } := by
      rw [next]
      rfl
    have totals_next : (t.add (.fraudRollback time)).totals A = t.totals A +
        { requests := if t.request.isSome then {.fraud} else 0
          impressions := if t.verified then {.fraud} else 0
          clicks := if t.clicked then {.fraud} else 0
          actions := 0
          postActions := 0
          campaignAmount := -if t.verified then t.full else 0 } := by
      rw [next]
      ext : 1
      · simp [Tally.totals, freshRequest]
      · simp only [Tally.totals, freshImpression, Totals.add_impressions, Bool.false_eq_true,
          if_false, add_zero]
        rfl
      · cases clicked : t.clicked <;>
          simp [Tally.totals, fraud, clicked, show Tally.clicked { t with
            fraud := true, fraudRequest := t.request.isSome, fraudImpression := t.verified } =
            t.clicked from rfl]
      · simp only [Tally.totals, Totals.add_actions, add_zero]
        rfl
      · simp only [Tally.totals, Totals.add_postActions, add_zero]
        rfl
      · simp only [Tally.totals, freshImpression, Totals.add_campaignAmount, Bool.false_eq_true,
          if_false, sub_zero, ← sub_eq_add_neg]
        rfl
    cases requested : t.request.isSome with
    | true =>
      have result : processFraudRollbackBuf (some profile) {} time =
          ⟨some { profile with fraud := .fraud, fraudTime := Time.seconds time },
          { requestInfo := some (convertRequestReaderToRequestInfo profile)
            processFraudRequest := some .fraud
            processRollbackImpressions := if t.verified then [.fraud] else []
            processRollbackClicks := if t.clicked then [.fraud] else [] }, true⟩ := by
        cases verified : t.verified <;> cases clicked : t.clicked <;>
          simp [processFraudRollbackBuf, h.mark_eq, Tally.mark, fraud, h.done_eq, requested,
            h.verified_eq, verified, h.clickDone_eq, clicked, fillRequestInfo]
      rw [result]
      refine ⟨⟨_, rfl, ?_⟩, ?_⟩
      · rw [next] at settled counters_next ⊢
        refine { h with settled := settled, counters := ?_ }
        rw [counters_next]
        simp only [h.counters]
      · rw [totals_next]
        ext : 1
        · simp [totals, requested]
        · cases t.verified <;> simp [totals]
        · cases t.clicked <;> simp [totals]
        · simp [totals]
        · simp [totals]
        · cases verified : t.verified with
          | true =>
            simp [totals, rollbackInfo,
              convertRequestReaderToRequestInfo, h.revenue verified, h.delta verified]
          | false => simp [totals]
    | false =>
      have unverified : t.verified = false := by
        apply Bool.eq_false_iff.2
        intro verified
        simp [Tally.requested_of_noticed (Tally.noticed_of_verified verified)] at requested
      have unclicked : t.clicked = false := by simp [Tally.clicked, unverified]
      have result : processFraudRollbackBuf (some profile) {} time =
          ⟨some { profile with fraud := .fraud, fraudTime := Time.seconds time }, {}, true⟩ := by
        simp [processFraudRollbackBuf, h.mark_eq, Tally.mark, fraud, h.done_eq, requested]
      rw [result]
      refine ⟨⟨_, rfl, ?_⟩, ?_⟩
      · rw [next] at settled counters_next ⊢
        refine { h with settled := settled, counters := ?_ }
        rw [counters_next]
        simp only [h.counters]
      · rw [totals_next]
        ext : 1 <;> simp [totals, requested, unverified, unclicked]

end

end AdServer.RequestInfo
