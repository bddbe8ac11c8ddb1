import AdServer.RequestInfo.EventSteps

/-!
# The impression, the notice and the request

An impression that is verified, a notice that is received and a request that is
done may each set off what waited for it.
-/

namespace AdServer.RequestInfo

open Tally hiding totalsOf
open RequestProfile

variable {A : RevenueArithmetic} {moveEnabled : Bool} {userId : UserId} {t : Tally}
  {profile : RequestProfile}

/-! ## The impression -/

/-- The profile has all that the tally says but the impression. -/
structure AwaitsImpression (userId : UserId) (t : Tally) (info : ImpressionInfo)
    (profile : RequestProfile) : Prop where
  settled : t.Settled
  verified : t.verified = true
  notRolled : t.fraudImpression = false
  counters : profile.toCounters = t.waiting t.duplicates
  terms : ∀ info ∈ t.request, profile.toRequestTerms = info.toRequestTerms
  user : ∀ info ∈ t.request, info.userId = userId
  impressionUser : (profile.withImpression info).impressionUserId = none ∨
    (profile.withImpression info).impressionUserId = userId
  noticeCost : profile.noticeImpRevenue = t.noticeCost
  impressionCost : (profile.withImpression info).impressionImpRevenue = t.impressionCost
  orig : ∀ info ∈ t.request, profile.origPubRevenue = info.pubRevenue
  revenues : ∀ info ∈ t.request, profile.toRevenues = info.toRevenues

section
variable (info : ImpressionInfo)

theorem withImpression_kept :
    (profile.withImpression info).toRequestTerms = profile.toRequestTerms ∧
    (profile.withImpression info).toRevenues = profile.toRevenues ∧
    (profile.withImpression info).toCounters = profile.toCounters ∧
    (profile.withImpression info).origPubRevenue = profile.origPubRevenue ∧
    (profile.withImpression info).noticeImpRevenue = profile.noticeImpRevenue := by
  simp only [withImpression]
  split <;> exact ⟨rfl, rfl, rfl, rfl, rfl⟩

theorem withImpression_user (sameUser : info.userId = none ∨ info.userId = userId)
    (stored : profile.impressionUserId = none ∨ profile.impressionUserId = userId) :
    (profile.withImpression info).impressionUserId = none ∨
      (profile.withImpression info).impressionUserId = userId := by
  simp only [withImpression]
  split
  · change info.userId.or profile.impressionUserId = none ∨
      info.userId.or profile.impressionUserId = userId
    cases given : info.userId with
    | none => simpa using stored
    | some user => exact .inr (by simpa [given] using sameUser)
  · exact stored

theorem withImpression_cost (first : profile.impressionNonConsidered = 0) :
    (profile.withImpression info).impressionImpRevenue =
      info.pubRevenue.map (·.impression) := by
  simp [withImpression, first, convertImpressionInfoToRequestWriter]

end

variable {info : ImpressionInfo} {stored : Option RequestProfile} {tally : Option Tally}

theorem AwaitsImpression.withImpression_eq (h : AwaitsImpression userId t info profile) :
    (profile.withImpression info).billing A (·.impression) = t.costed.billing A (·.impression) ∧
      (profile.withImpression info).fullAdvRevenue.impression = t.full := by
  obtain ⟨request, found⟩ := Option.isSome_iff_exists.1
    (requested_of_noticed (noticed_of_verified h.verified))
  obtain ⟨terms, revenues, -, orig, notice⟩ := @withImpression_kept profile info
  have adv : (profile.withImpression info).advRevenue = request.advRevenue := by
    rw [revenues, h.revenues request found]
  have delta : (profile.withImpression info).deltaAdvRevenue = request.deltaAdvRevenue := by
    rw [revenues, h.revenues request found]
  have costed : t.costed = { convertRequestInfoToRequestWriter request {} with
      noticeImpRevenue := t.noticeCost
      impressionImpRevenue := t.impressionCost } := by
    rw [costed, found]
    rfl
  constructor
  · rw [costed]
    exact billing_congr _ (terms.trans (h.terms request found)) adv delta
      (orig.trans (h.orig request found)) (notice.trans h.noticeCost) h.impressionCost
  · rw [full, costed, fullAdvRevenue, fullAdvRevenue, adv, delta]
    rfl

theorem verifyImpression_steps {given : Option RequestInfo} {state : Option RequestState}
    (h : AwaitsImpression userId t info profile)
    (normal : ∀ request ∈ given, request.fraud = .normal) :
    ∃ after handed, verifyImpression A profile
        { requestInfo := given, processRequest := state } info moveEnabled =
          ⟨some after, handed, true⟩ ∧
      Stored A userId t after ∧
      handed.totals = { t.totals A with requests := state.toList } := by
  have counter {α : Type} (f : Counters → α) := congrArg f h.counters
  have requested := requested_of_noticed (noticed_of_verified h.verified)
  obtain ⟨request, found⟩ := Option.isSome_iff_exists.1 requested
  obtain ⟨after, handed, result, counters, terms, user, notice, cost, orig, verified, evaluated⟩ :=
    @verifyImpression_eq A moveEnabled profile
      { requestInfo := given, processRequest := state } info
      (by
        rw [counter (·.fraud)]
        cases fraud : t.fraud <;> simp [waiting, counters, mark, fraud])
      (by rw [counter (·.clickDone)]; rfl)
      (by
        rw [counter (·.postImpressionActions)]
        exact Lib.SortedVector.sort_sorted t.names)
      rfl rfl
  have tracked : profile.toRequestTerms.tracked = t.tracked := by
    funext count
    simp [h.terms request found, tracked, found]
  obtain ⟨billing, full⟩ := h.withImpression_eq (A := A)
  refine ⟨after, handed, result, ?_, ?_⟩
  · exact
      { settled := h.settled
        counters := by rw [counters, tracked, h.counters, waiting_verify _ h.verified]
        terms := fun info hi => terms.trans (h.terms info hi)
        user := h.user
        impressionUser := by rw [user]; exact h.impressionUser
        noticeCost := notice.trans h.noticeCost
        impressionCost := cost.trans h.impressionCost
        orig := fun info hi => orig.trans (h.orig info hi)
        revenues := by simp [h.verified]
        revenue := fun _ => by rw [evaluated.revenue, billing]; rfl
        delta := fun _ => by rw [evaluated.delta, billing, full]; rfl }
  · have counts : profile.impressionNonConsidered = t.duplicates ∧
        profile.clickNonConsidered = t.clicks ∧ profile.actionsNonConsidered = t.actions ∧
        profile.postImpressionActions = t.names.sort ∧ profile.fraud = t.mark :=
      ⟨counter (·.impressionNonConsidered), counter (·.clickNonConsidered),
        counter (·.actionsNonConsidered), counter (·.postImpressionActions), counter (·.fraud)⟩
    obtain ⟨duplicates, clicks, actions, names, mark⟩ := counts
    have amounts : after.advRevenue.impression = t.billed A ∧
        after.deltaAdvRevenue.impression = t.full - t.billed A := by
      rw [evaluated.revenue, evaluated.delta, billing, full]
      exact ⟨rfl, rfl⟩
    obtain ⟨delivered, filled, adv, delta, fraud⟩ := evaluated.info
    have delivered_normal : delivered.fraud = .normal := by
      rw [fraud]
      cases given with
      | none => rfl
      | some request => exact normal request rfl
    ext : 1
    · simp [RequestProcessDelegate.totals, verified.request, verified.fraudRequest]
    · simp [RequestProcessDelegate.totals, verified.impression, filled, delivered_normal,
        verified.duplicates, duplicates, totals, h.verified, h.notRolled]
      rfl
    · by_cases some_clicks : 0 < t.clicks
      · simp [RequestProcessDelegate.totals, verified.click, filled, delivered_normal,
          verified.rollbackClicks, clicks, mark, some_clicks, totals, clicked, h.verified]
        rw [← Multiset.cons_coe, ← Multiset.coe_add, coe_fraudClicks, add_comm]
        rfl
      · simp [RequestProcessDelegate.totals, verified.click, verified.rollbackClicks, clicks,
          some_clicks, totals, clicked]
    · simp [RequestProcessDelegate.totals, verified.actions, clicks, actions, tracked,
        totals, clicked, h.verified]
    · simp [RequestProcessDelegate.totals, verified.postActions, names, totals, h.verified]
    · have rolled : ((List.replicate t.duplicates RequestState.duplicate).map
          (BillingProcessor.campaignAmount handed.rollbackInfo)).sum =
          -(t.duplicates * t.full) := by
        cases count : t.duplicates with
        | zero => simp
        | succ count =>
          obtain ⟨rollback, found, adv, delta⟩ := evaluated.rollback (by omega)
          simp [RequestProcessDelegate.rollbackInfo, found, adv, delta, amounts]
      simp only [RequestProcessDelegate.totals, verified.impression, if_true, filled,
        Option.getD_some, delivered_normal, BillingProcessor.campaignAmount_normal, delta, amounts,
        verified.duplicates, duplicates, List.nil_append, rolled, totals, h.verified,
        h.notRolled, Bool.false_eq_true, if_false]
      omega

section
variable (info : ImpressionInfo) (h : Stored A userId t profile)

include h

theorem duplicate_steps (verified : t.verified = true) :
    Steps A userId t (t.add (.impression info)) profile
      (processImpressionBuf A (some profile) {} info moveEnabled) := by
  have verified' := verified_add_impression (t := t) info
  rw [noticed_of_verified verified] at verified'
  have result : processImpressionBuf A (some profile) {} info moveEnabled =
      ⟨some profile, { rollbackRequestInfo := some (convertRequestReaderToRequestInfo profile)
                       processRollbackImpressions := [.duplicate] }, false⟩ := by
    simp [processImpressionBuf, h.verified_eq, verified, duplicateImpression, h.notMoved,
      RequestProcessDelegate.duplicateImpressions,
      RequestProcessDelegate.fillRollbackRequestInfo]
  have added : t.add (.impression info) = { t with impressions := t.impressions + 1 } := by
    simp [add, verified]
  have counters := h.counters.trans (counters_duplicate info verified).symm
  refine ⟨⟨profile, by rw [result]; rfl, ?_⟩, ?_⟩
  · rw [added] at verified' counters ⊢
    exact { h with
      settled := ⟨h.settled.auto, by simp, fun _ => verified', h.settled.unmarked,
        h.settled.unpriced⟩
      counters := counters
      revenues := by simp [verified']
      revenue := fun _ => h.revenue verified
      delta := fun _ => h.delta verified }
  · rw [result, totals_duplicate info verified]
    congr 1
    ext : 1 <;>
      simp [RequestProcessDelegate.totals, RequestProcessDelegate.rollbackInfo,
        convertRequestReaderToRequestInfo, h.revenue verified, h.delta verified]

variable (sameUser : info.userId = none ∨ info.userId = userId)

include sameUser

theorem first_steps (verified : t.verified = false) (noticed : t.noticed = true) :
    Steps A userId t (t.add (.impression info)) profile
      (processImpressionBuf A (some profile) {} info moveEnabled) := by
  have notRolled := notRolled h.settled verified
  have unclicked := unclicked verified
  have verified_next := verified_add_impression (t := t) info
  have requested := requested_of_noticed noticed
  have none_came : t.impressions = 0 ∧ t.auto = false := by
    simpa [Tally.verified, noticed] using verified
  rw [processImpressionBuf_verify info h.notMoved (by simp [h.verified_eq, verified])
    (by simp [h.noticed_eq, noticed]) fun _ => by rwa [h.userId_eq requested]]
  have awaits : AwaitsImpression userId (t.add (.impression info)) info profile := by
    have none_wait : profile.impressionNonConsidered = 0 := by
      simp [h.waiting_eq, verified, none_came]
    have duplicates : (t.add (.impression info)).duplicates = 0 := by
      simp [duplicates, add, none_came]
    exact
      { settled := ⟨h.settled.auto, by simp [add], fun rolled => by
          simp [show (t.add (.impression info)).fraudImpression = t.fraudImpression from rfl,
            notRolled] at rolled, h.settled.unmarked, h.settled.unpriced⟩
        verified := verified_next.trans noticed
        notRolled := notRolled
        counters := by
          rw [h.counters, duplicates]
          simp only [waiting, counters, verified, unclicked, none_came.1]
          rfl
        terms := h.terms
        user := h.user
        impressionUser := withImpression_user info sameUser h.impressionUser
        noticeCost := h.noticeCost
        impressionCost := by
          rw [withImpression_cost info none_wait]
          simp [add, none_came, verified]
        orig := h.orig
        revenues := h.revenues verified }
  obtain ⟨after, handed, result, stored, totals⟩ := @verifyImpression_steps A
    moveEnabled _ _ _ _ none none awaits (by simp)
  rw [result]
  refine ⟨⟨after, rfl, stored⟩, ?_⟩
  rw [totals, totals_unverified h.settled verified]
  ext : 1
  · exact add_zero _
  all_goals exact zero_add _

theorem parked_steps (verified : t.verified = false) (noticed : t.noticed = false) :
    Steps A userId t (t.add (.impression info)) profile
      (processImpressionBuf A (some profile) {} info moveEnabled) := by
  have notRolled := notRolled h.settled verified
  have unclicked := unclicked verified
  have verified_next := verified_add_impression (t := t) info
  have stays : ¬(moveEnabled ∧ profile.requestDone ≠ 0 ∧ info.userId ≠ none ∧
      info.userId ≠ profile.userId) := by
    rintro ⟨-, done, given, other⟩
    have requested : t.request.isSome := by
      by_contra absent
      simp [h.done_eq, absent] at done
    rw [h.userId_eq requested] at other
    exact sameUser.elim given other
  have result : processImpressionBuf A (some profile) {} info moveEnabled =
      ⟨some { profile.withImpression info with
        impressionNonConsidered :=
          (profile.withImpression info).impressionNonConsidered + 1 }, {}, true⟩ := by
    simp only [processImpressionBuf, ne_eq, h.notMoved, not_false_eq_true, h.verified_eq,
      verified, Bool.false_eq_true, if_false, and_self, if_true, if_neg stays, h.noticed_eq,
      noticed, not_true_eq_false]
    rfl
  rw [result]
  have unverified' : (t.add (.impression info)).verified = false := verified_next.trans noticed
  have unclicked' := Tally.unclicked unverified'
  obtain ⟨terms, revenues, counters, orig, notice⟩ :=
    @withImpression_kept profile info
  refine ⟨⟨_, rfl, ?_⟩, ?_⟩
  · exact
      { settled := ⟨h.settled.auto, by simp [add], fun rolled => by
          simp [show (t.add (.impression info)).fraudImpression = t.fraudImpression from rfl,
            notRolled] at rolled, h.settled.unmarked, h.settled.unpriced⟩
        counters := by
          simp only [counters, h.counters]
          simp only [Tally.counters, unverified', unclicked', verified, unclicked]
          rfl
        terms := fun request found => terms.trans (h.terms request found)
        user := h.user
        impressionUser := withImpression_user info sameUser h.impressionUser
        noticeCost := notice.trans h.noticeCost
        impressionCost := by
          by_cases first : t.impressions = 0
          · rw [withImpression_cost info (by simp [h.waiting_eq, first])]
            simp [add, first, verified]
          · have waits : profile.impressionNonConsidered ≠ 0 := by
              simp [h.waiting_eq, verified, first]
            simpa [withImpression, waits, add, first] using
              h.impressionCost
        orig := fun request found => orig.trans (h.orig request found)
        revenues := fun _ request found => revenues.trans (h.revenues verified request found)
        revenue := by simp [unverified']
        delta := by simp [unverified'] }
  · have unchanged : (t.add (.impression info)).totals A = t.totals A := by
      simp only [totals, unverified', unclicked', verified, unclicked]
      rfl
    rw [unchanged]
    ext : 1 <;> simp [RequestProcessDelegate.totals]

theorem impression_steps :
    Steps A userId t (t.add (.impression info)) profile
      (processImpressionBuf A (some profile) {} info moveEnabled) := by
  cases verified : t.verified with
  | true => exact duplicate_steps info h verified
  | false =>
    cases noticed : t.noticed with
    | true => exact first_steps info h sameUser verified noticed
    | false => exact parked_steps info h sameUser verified noticed

end

/-! ## The notice -/

/-- The profile has all that the tally says but the notice and what follows it. -/
structure AwaitsNotice (userId : UserId) (t : Tally) (noticeInfo : ImpressionInfo)
    (profile : RequestProfile) : Prop where
  settled : t.Settled
  noticed : t.noticed = true
  notYet : t.auto = false
  notRolled : t.fraudImpression = false
  counters : profile.toCounters = { t.waiting t.impressions with noticeReceived := 0 }
  terms : ∀ info ∈ t.request, profile.toRequestTerms = info.toRequestTerms
  user : ∀ info ∈ t.request, info.userId = userId
  impressionUser : profile.impressionUserId = none ∨ profile.impressionUserId = userId
  noticeCost : noticeInfo.pubRevenue.map (·.impression) = t.noticeCost
  impressionCost : profile.impressionImpRevenue = t.impressionCost
  orig : ∀ info ∈ t.request, profile.origPubRevenue = info.pubRevenue
  revenues : ∀ info ∈ t.request, profile.toRevenues = info.toRevenues

theorem AwaitsNotice.stored_alone {noticeInfo : ImpressionInfo}
    (h : AwaitsNotice userId t noticeInfo profile) (none_came : t.impressions = 0) :
    Stored A userId t (profile.received noticeInfo) ∧
      ∀ state : Option RequestState,
        ⟨state.toList, 0, 0, 0, 0, 0⟩ = { t.totals A with requests := state.toList } := by
  have unverified : t.verified = false := by simp [Tally.verified, none_came, h.notYet]
  have unclicked := Tally.unclicked unverified
  constructor
  · exact
      { settled := h.settled
        counters := by
          simp only [received, convertImpressionInfoToRequestWriter, if_true, h.counters]
          simp [Tally.waiting, Tally.counters, unverified, unclicked, h.noticed, none_came]
        terms := h.terms
        user := h.user
        impressionUser := h.impressionUser
        noticeCost := h.noticeCost
        impressionCost := h.impressionCost
        orig := h.orig
        revenues := fun _ => h.revenues
        revenue := by simp [unverified]
        delta := by simp [unverified] }
  · intro state
    rw [Tally.totals_unverified h.settled unverified]

/-- The impression that follows carries the cost and the user that are stored. -/
theorem AwaitsNotice.waitingImpression_eq {noticeInfo : ImpressionInfo}
    (h : AwaitsNotice userId t noticeInfo profile) :
    (profile.waitingImpression.userId = none ∨ profile.waitingImpression.userId = userId) ∧
      ((profile.received noticeInfo).withImpression
        profile.waitingImpression).impressionImpRevenue = t.impressionCost := by
  have waits : profile.impressionNonConsidered = t.impressions :=
    congrArg Counters.impressionNonConsidered h.counters
  by_cases some_wait : 0 < t.impressions
  · have first : profile.waitingImpression = convertRequestReaderToImpressionInfo profile false := by
      simp [waitingImpression, waits, some_wait]
    have cost : profile.waitingImpression.pubRevenue.map (·.impression) = t.impressionCost := by
      rw [first, ← h.impressionCost]
      simp [convertRequestReaderToImpressionInfo, Function.comp_def]
    refine ⟨by rw [first]; exact h.impressionUser, ?_⟩
    by_cases last : (profile.received noticeInfo).impressionNonConsidered = 0
    · rw [withImpression_cost _ last, cost]
    · rw [withImpression, if_neg last]
      exact h.impressionCost
  · have none_came : t.impressions = 0 := by omega
    have own : profile.waitingImpression = fillAutoImpressionInfo profile := by
      simp [waitingImpression, waits, none_came]
    have last : (profile.received noticeInfo).impressionNonConsidered = 0 := by
      simp [received, waits, none_came]
    refine ⟨by rw [own]; exact .inl rfl, ?_⟩
    rw [withImpression_cost _ last, own, h.settled.uncosted none_came]
    rfl

theorem AwaitsNotice.awaitsImpression {noticeInfo : ImpressionInfo}
    (h : AwaitsNotice userId t noticeInfo profile)
    (follows : 0 < t.impressions ∨ t.untracked = true) :
    AwaitsImpression userId t.withAuto profile.waitingImpression
      (profile.received noticeInfo) := by
  obtain ⟨user, cost⟩ := h.waitingImpression_eq
  have stored_user := @withImpression_user _ (profile.received noticeInfo) _ user
    h.impressionUser
  have counters : (profile.received noticeInfo).toCounters = t.waiting (t.impressions - 1) := by
    simp only [received, convertImpressionInfoToRequestWriter, if_true, h.counters]
    simp [Tally.waiting, Tally.counters, h.noticed]
  by_cases some_wait : 0 < t.impressions
  · have same : t.withAuto = t := by
      simp [Tally.withAuto, show t.impressions ≠ 0 by omega]
    have verified : t.verified = true := by simp [Tally.verified, h.noticed, some_wait]
    have duplicates : t.duplicates = t.impressions - 1 := by simp [Tally.duplicates, h.notYet]
    rw [same]
    exact
      { settled := h.settled
        verified := verified
        notRolled := h.notRolled
        counters := by rw [counters, duplicates]
        terms := h.terms
        user := h.user
        impressionUser := stored_user
        noticeCost := h.noticeCost
        impressionCost := cost
        orig := h.orig
        revenues := h.revenues }
  · have none_came : t.impressions = 0 := by omega
    have untracked : t.untracked = true := follows.resolve_left some_wait
    have auto : t.withAuto = { t with auto := true } := by
      simp [Tally.withAuto, none_came, untracked]
    have verified : ({ t with auto := true } : Tally).verified = true := by
      simp only [Tally.verified, show ({ t with auto := true } : Tally).noticed = t.noticed from rfl,
        h.noticed]
      simp
    have duplicates : ({ t with auto := true } : Tally).duplicates = 0 := by
      simp [Tally.duplicates, none_came]
    rw [auto]
    exact
      { settled := ⟨fun _ => h.noticed, h.settled.uncosted, fun _ => verified, h.settled.unmarked, h.settled.unpriced⟩
        verified := verified
        notRolled := h.notRolled
        counters := by
          rw [counters, duplicates, none_came]
          rfl
        terms := h.terms
        user := h.user
        impressionUser := stored_user
        noticeCost := h.noticeCost
        impressionCost := cost
        orig := h.orig
        revenues := h.revenues }

theorem receive_steps {given : Option RequestInfo} {state : Option RequestState}
    {noticeInfo : ImpressionInfo} (h : AwaitsNotice userId t noticeInfo profile)
    (normal : ∀ request ∈ given, request.fraud = .normal) :
    ∃ after handed, processNoticeBuf A (some profile)
        { requestInfo := given, processRequest := state } noticeInfo moveEnabled =
          ⟨some after, handed, true⟩ ∧
      Stored A userId t.withAuto after ∧
      handed.totals = { t.withAuto.totals A with requests := state.toList } := by
  have counter {α : Type} (f : Counters → α) := congrArg f h.counters
  have requested := requested_of_noticed h.noticed
  obtain ⟨request, found⟩ := Option.isSome_iff_exists.1 requested
  have notMoved : profile.fraud ≠ .moved := by
    rw [counter (·.fraud)]
    cases fraud : t.fraud <;> simp [waiting, counters, mark, fraud]
  have done : profile.requestDone ≠ 0 := by
    rw [counter (·.requestDone)]
    simp [waiting, counters, requested]
  have notReceived : profile.noticeReceived = 0 := counter (·.noticeReceived)
  have unverified : profile.impressionVerified = 0 := counter (·.impressionVerified)
  have waits : profile.impressionNonConsidered = t.impressions :=
    counter (·.impressionNonConsidered)
  have tracking : profile.enabledImpressionTracking = !t.untracked := by
    rw [congrArg RequestTerms.enabledImpressionTracking (h.terms request found)]
    simp [untracked, found]
  have user : profile.userId = userId :=
    (congrArg RequestTerms.userId (h.terms request found)).trans (h.user request found)
  by_cases follows : 0 < t.impressions ∨ t.untracked = true
  · rw [processNoticeBuf_impression noticeInfo notMoved done notReceived unverified
      (fun _ => by rw [user]; exact h.impressionUser) (by rw [waits, tracking]; simpa using follows)]
    obtain ⟨after, handed, result, stored, totals⟩ := @verifyImpression_steps A
      moveEnabled _ _ _ _ (given.or (some (convertRequestReaderToRequestInfo profile))) state
      (h.awaitsImpression follows) (by
        cases given with
        | none => simp [convertRequestReaderToRequestInfo]
        | some request => simpa using normal request rfl)
    refine ⟨after, handed, ?_, stored, totals⟩
    simp only [RequestProcessDelegate.fillRequestInfo]
    rw [result]
  · obtain ⟨none_came, tracked⟩ := not_or.1 follows
    have none_came : t.impressions = 0 := by omega
    have tracked : t.untracked = false := Bool.eq_false_iff.2 tracked
    have same : t.withAuto = t := by simp [withAuto, tracked]
    rw [processNoticeBuf_alone noticeInfo notMoved done notReceived (waits.trans none_came)
      (by rw [tracking, tracked]; rfl), same]
    obtain ⟨stored, totals⟩ := h.stored_alone (A := A) none_came
    refine ⟨_, _, rfl, stored, ?_⟩
    rw [← totals state]
    ext : 1 <;> simp [RequestProcessDelegate.totals, RequestProcessDelegate.fillRequestInfo]

section
variable (info : ImpressionInfo) (h : Stored A userId t profile)

include h

theorem secondNotice_steps (noticed : t.noticed = true) :
    Steps A userId t (t.add (.notice info)) profile
      (processNoticeBuf A (some profile) {} info moveEnabled) := by
  have requested := Tally.requested_of_noticed noticed
  have added : t.add (.notice info) = { t with notice := true } := by simp [Tally.add, noticed]
  have noticed' : ({ t with notice := true } : Tally).noticed = true := by
    obtain ⟨request, found⟩ := Option.isSome_iff_exists.1 requested
    simp [Tally.noticed, found]
  have verified' : ({ t with notice := true } : Tally).verified = t.verified := by
    simp only [Tally.verified, noticed, noticed']
  have clicked' : ({ t with notice := true } : Tally).clicked = t.clicked := by
    simp only [Tally.clicked, verified']
  have result : processNoticeBuf A (some profile) {} info moveEnabled =
      ⟨some profile, {}, false⟩ := by
    simp [processNoticeBuf, h.notMoved, h.done_eq, requested, h.noticed_eq, noticed]
  rw [result, added]
  refine ⟨⟨profile, rfl, { h with
    settled := ⟨fun _ => noticed', h.settled.uncosted, fun rolled => by
      rw [verified']
      exact h.settled.rolledBack rolled, h.settled.unmarked, by simp⟩
    counters := ?_
    revenues := fun unverified => h.revenues (verified' ▸ unverified)
    revenue := fun verified => h.revenue (verified' ▸ verified)
    delta := fun verified => h.delta (verified' ▸ verified) }⟩, ?_⟩
  · rw [h.counters]
    simp only [Tally.counters, noticed, noticed', verified', clicked', requested]
    rfl
  · have unchanged : ({ t with notice := true } : Tally).totals A = t.totals A := by
      simp only [Tally.totals, verified', clicked']
      rfl
    rw [unchanged]
    ext : 1 <;> simp [RequestProcessDelegate.totals]

theorem receivedNotice_steps (noticed : t.noticed = false) (requested : t.request.isSome = true) :
    Steps A userId t (t.add (.notice info)) profile
      (processNoticeBuf A (some profile) {} info moveEnabled) := by
  have unverified := Tally.unverified_of_unnoticed noticed
  have unclicked := Tally.unclicked unverified
  have notRolled := Tally.notRolled h.settled unverified
  have added : t.add (.notice info) =
      t.receive (t.withNotice info) := by
    simp [Tally.add, noticed]
  rw [added]
  have noticed' : (t.withNotice info).noticed = true := by
    obtain ⟨request, found⟩ := Option.isSome_iff_exists.1 requested
    simp [Tally.noticed, Tally.withNotice, found]
  rw [Tally.receive_noticed noticed noticed']
  have notAuto := Tally.notAuto h.settled noticed
  have awaits : AwaitsNotice userId (t.withNotice info) info profile :=
    { settled := ⟨fun _ => noticed', h.settled.uncosted, fun rolled => by
        rw [show (t.withNotice info).fraudImpression = t.fraudImpression from rfl,
          notRolled] at rolled
        exact absurd rolled Bool.false_ne_true, h.settled.unmarked, by simp [Tally.withNotice]⟩
      noticed := noticed'
      notYet := notAuto
      notRolled := notRolled
      counters := by
        rw [h.counters]
        simp only [Tally.waiting, Tally.counters, noticed, unverified, unclicked, requested,
          show (t.withNotice info).request = t.request from rfl, if_true]
        rfl
      terms := h.terms
      user := h.user
      impressionUser := h.impressionUser
      noticeCost := rfl
      impressionCost := h.impressionCost
      orig := h.orig
      revenues := h.revenues unverified }
  obtain ⟨after, handed, result, stored, totals⟩ := @receive_steps A
    moveEnabled _ _ _ none none _ awaits (by simp)
  rw [result]
  refine ⟨⟨after, rfl, stored⟩, ?_⟩
  rw [totals, Tally.totals_unverified h.settled unverified]
  ext : 1
  · rw [Tally.withAuto_requests]
    exact add_zero _
  all_goals exact zero_add _

theorem parkedNotice_steps (noticed : t.noticed = false) (requested : t.request.isSome = false) :
    Steps A userId t (t.add (.notice info)) profile
      (processNoticeBuf A (some profile) {} info moveEnabled) := by
  have unverified := Tally.unverified_of_unnoticed noticed
  have unclicked := Tally.unclicked unverified
  have notRolled := Tally.notRolled h.settled unverified
  have added : t.add (.notice info) =
      t.receive (t.withNotice info) := by
    simp [Tally.add, noticed]
  rw [added]
  have unnoticed' : (t.withNotice info).noticed = false := by
    have absent : t.request = none := by simpa using requested
    simp [Tally.noticed, Tally.withNotice, absent]
  have unverified' := Tally.unverified_of_unnoticed unnoticed'
  have unclicked' := Tally.unclicked unverified'
  have result : processNoticeBuf A (some profile) {} info moveEnabled =
      ⟨some { convertImpressionInfoToRequestWriter info profile true with
        noticeNonConsidered := 1 }, {}, true⟩ := by
    simp [processNoticeBuf, h.notMoved, h.done_eq, requested]
  rw [result, Tally.receive_unnoticed unnoticed']
  refine ⟨⟨_, rfl, { h with
    settled := h.settled.unnoticed noticed rfl rfl h.settled.uncosted h.settled.unmarked
      (by simp [Tally.withNotice])
    counters := ?_
    noticeCost := rfl
    revenues := fun _ => h.revenues unverified
    revenue := by simp [unverified']
    delta := by simp [unverified'] }⟩, ?_⟩
  · simp only [convertImpressionInfoToRequestWriter, if_true, h.counters]
    simp only [Tally.counters, unnoticed', unverified', unclicked', noticed, unverified,
      unclicked, requested, show (t.withNotice info).request = t.request from rfl]
    rfl
  · have unchanged : (t.withNotice info).totals A = t.totals A := by
      simp only [Tally.totals, unverified', unclicked', unverified, unclicked]
      rfl
    rw [unchanged]
    ext : 1 <;> simp [RequestProcessDelegate.totals]

theorem notice_steps :
    Steps A userId t (t.add (.notice info)) profile
      (processNoticeBuf A (some profile) {} info moveEnabled) := by
  cases noticed : t.noticed with
  | true => exact secondNotice_steps info h noticed
  | false =>
    cases requested : t.request.isSome with
    | true => exact receivedNotice_steps info h noticed requested
    | false => exact parkedNotice_steps info h noticed requested

end

/-! ## The request -/

theorem requested_counters (profile : RequestProfile) (info : RequestInfo) :
    (profile.requested info).toCounters = { profile.toCounters with
      requestDone := 1
      noticeNonConsidered := 0 } := rfl

section
variable (h : Stored A userId t profile) (info : RequestInfo)
  (unrequested : t.request.isSome = false)

include unrequested

theorem unnoticed_of_unrequested : t.noticed = false := by
  have absent : t.request = none := by simpa using unrequested
  simp [Tally.noticed, absent]

theorem withRequest_requests :
    ((t.withRequest info).totals A).requests = (t.totals A).requests + {.normal} := by
  have requested : (t.withRequest info).request.isSome = true := rfl
  simp only [Tally.totals, unrequested, requested]
  simp only [if_true, Bool.false_eq_true, if_false, zero_add]
  exact add_comm _ _

include h

theorem waitingNotice_isSome :
    (profile.waitingNotice info).isSome = (t.withRequest info).noticed := by
  have stored : (profile.noticeNonConsidered ≠ 0) ↔ t.notice = true := by
    simp [h.notice_eq, unrequested]
  simp only [waitingNotice, stored]
  cases enabled : info.enabledNotice <;> cases notice : t.notice <;>
    simp [Tally.noticed, Tally.withRequest, enabled, notice]

theorem waitingNotice_cost {notice : ImpressionInfo}
    (waiting : profile.waitingNotice info = some notice) :
    notice.pubRevenue.map (·.impression) = t.noticeCost := by
  have stored : (profile.noticeNonConsidered ≠ 0) ↔ t.notice = true := by
    simp [h.notice_eq, unrequested]
  have kept : (convertRequestReaderToImpressionInfo profile true).pubRevenue.map
      (·.impression) = t.noticeCost := by
    rw [← h.noticeCost]
    simp [convertRequestReaderToImpressionInfo, Function.comp_def]
  simp only [waitingNotice, stored] at waiting
  cases came : t.notice with
  | true =>
    cases enabled : info.enabledNotice <;>
      simp only [came, enabled, Bool.false_eq_true, if_true, if_false, Option.getD_some,
        Option.some.injEq] at waiting <;>
      rw [← waiting] <;> exact kept
  | false =>
    rw [h.settled.unpriced came]
    cases enabled : info.enabledNotice <;>
      simp only [came, enabled, Bool.false_eq_true, if_true, if_false, Option.getD_none,
        Option.some.injEq, reduceCtorEq] at waiting
    rw [← waiting]
    rfl

variable (user : info.userId = userId)
include user

theorem parkedRequest_steps (waiting : profile.waitingNotice info = none) :
    Steps A userId t (t.add (.request info)) profile
      (processRequestBuf A (some profile) {} info moveEnabled) := by
  have unnoticed := unnoticed_of_unrequested unrequested
  have unverified := Tally.unverified_of_unnoticed unnoticed
  have unclicked := Tally.unclicked unverified
  have added : t.add (.request info) = t.receive (t.withRequest info) := by
    simp [Tally.add, unrequested]
  have undone : profile.requestDone = 0 := by simp [h.done_eq, unrequested]
  have unnoticed' : (t.withRequest info).noticed = false := by
    rw [← waitingNotice_isSome h info unrequested, waiting]
    rfl
  have unverified' := Tally.unverified_of_unnoticed unnoticed'
  have unclicked' := Tally.unclicked unverified'
  have settled' : (t.withRequest info).Settled :=
    h.settled.unnoticed unnoticed rfl rfl h.settled.uncosted h.settled.unmarked
      h.settled.unpriced
  rw [processRequestBuf_first info h.notMoved undone, added, waiting,
    Tally.receive_unnoticed unnoticed']
  refine ⟨⟨_, rfl, ?_⟩, ?_⟩
  · exact
      { settled := settled'
        counters := by
          rw [requested_counters, h.counters]
          simp only [Tally.counters, unnoticed, unnoticed', unverified, unverified', unclicked,
            unclicked', show (t.withRequest info).request.isSome = true from rfl]
          rfl
        terms := by rintro _ ⟨⟩; rfl
        user := by rintro _ ⟨⟩; exact user
        impressionUser := h.impressionUser
        noticeCost := h.noticeCost
        impressionCost := h.impressionCost
        orig := by rintro _ ⟨⟩; rfl
        revenues := by rintro - _ ⟨⟩; rfl
        revenue := by simp [unverified']
        delta := by simp [unverified'] }
  · rw [Tally.totals_unverified h.settled unverified,
      Tally.totals_unverified settled' unverified', withRequest_requests info unrequested]
    ext : 1 <;> simp [RequestProcessDelegate.totals]

theorem receivedRequest_steps (normal : info.fraud = .normal) {notice : ImpressionInfo}
    (waiting : profile.waitingNotice info = some notice) :
    Steps A userId t (t.add (.request info)) profile
      (processRequestBuf A (some profile) {} info moveEnabled) := by
  have unnoticed := unnoticed_of_unrequested unrequested
  have unverified := Tally.unverified_of_unnoticed unnoticed
  have unclicked := Tally.unclicked unverified
  have added : t.add (.request info) = t.receive (t.withRequest info) := by
    simp [Tally.add, unrequested]
  have undone : profile.requestDone = 0 := by simp [h.done_eq, unrequested]
  have noticed' : (t.withRequest info).noticed = true := by
    rw [← waitingNotice_isSome h info unrequested, waiting]
    rfl
  have notRolled := Tally.notRolled h.settled unverified
  have notAuto := Tally.notAuto h.settled unnoticed
  rw [processRequestBuf_first info h.notMoved undone, added, waiting,
    Tally.receive_noticed unnoticed noticed']
  have awaits : AwaitsNotice userId (t.withRequest info) notice (profile.requested info) :=
    { settled := ⟨fun _ => noticed', h.settled.uncosted, fun rolled => by
        rw [show (t.withRequest info).fraudImpression = t.fraudImpression from rfl,
          notRolled] at rolled
        exact absurd rolled Bool.false_ne_true, h.settled.unmarked, h.settled.unpriced⟩
      noticed := noticed'
      notYet := notAuto
      notRolled := notRolled
      counters := by
        rw [requested_counters, h.counters]
        simp only [Tally.waiting, Tally.counters, unnoticed, unverified, unclicked,
          show (t.withRequest info).request.isSome = true from rfl]
        rfl
      terms := by rintro _ ⟨⟩; rfl
      user := by rintro _ ⟨⟩; exact user
      impressionUser := h.impressionUser
      noticeCost := waitingNotice_cost h info unrequested waiting
      impressionCost := h.impressionCost
      orig := by rintro _ ⟨⟩; rfl
      revenues := by rintro _ ⟨⟩; rfl }
  obtain ⟨after, handed, result, stored, totals⟩ := @receive_steps A
    moveEnabled _ _ _ (some info) (some .normal) _ awaits (by
      rintro _ ⟨⟩
      exact normal)
  simp only [result]
  refine ⟨⟨after, rfl, stored⟩, ?_⟩
  rw [totals, Tally.totals_unverified h.settled unverified]
  ext : 1
  · rw [Tally.withAuto_requests, withRequest_requests info unrequested]
    rfl
  all_goals exact zero_add _

end

theorem request_steps (h : Stored A userId t profile) (info : RequestInfo)
    (user : info.userId = userId) (normal : info.fraud = .normal) :
    Steps A userId t (t.add (.request info)) profile
      (processRequestBuf A (some profile) {} info moveEnabled) := by
  cases requested : t.request.isSome with
  | true =>
    have added : t.add (.request info) = t := by simp [Tally.add, requested]
    have result : processRequestBuf A (some profile) {} info moveEnabled =
        ⟨some profile, {}, false⟩ := by
      simp [processRequestBuf, h.done_eq, requested]
    rw [result, added]
    refine ⟨⟨profile, rfl, h⟩, ?_⟩
    ext : 1 <;> simp [RequestProcessDelegate.totals]
  | false =>
    cases waiting : profile.waitingNotice info with
    | none => exact parkedRequest_steps h info requested user waiting
    | some notice => exact receivedRequest_steps h info requested user normal waiting

/-! ## Runs -/

theorem processBuf_steps (h : Stored A userId t profile) {event : Event} (of : event.Of userId) :
    Steps A userId t (t.add event) profile
      (processBuf A moveEnabled (some profile) event) := by
  cases event with
  | request info => exact request_steps h info of.1 of.2
  | notice info => exact notice_steps info h
  | impression info => exact impression_steps info h of
  | click time => exact click_steps h time
  | action time => exact action_steps h time
  | postAction info => exact postAction_steps h info
  | fraudRollback time => exact fraudRollback_steps h time

theorem Stored.stub (userId : UserId) : Stored A userId {} createEmptyStub where
  settled := ⟨by simp, by simp, by simp, by simp, by simp⟩
  counters := by
    ext : 1 <;>
      simp [createEmptyStub, clearActionFields, Tally.counters, Tally.noticed, Tally.verified,
        Tally.clicked, Tally.mark]
  terms := by simp
  user := by simp
  impressionUser := .inl rfl
  noticeCost := rfl
  impressionCost := rfl
  orig := by simp
  revenues := by simp
  revenue := by simp [Tally.verified, Tally.noticed]
  delta := by simp [Tally.verified, Tally.noticed]

theorem processBuf_none {event : Event} (notRollback : ∀ time, event ≠ .fraudRollback time) :
    processBuf A moveEnabled none event =
        processBuf A moveEnabled (some createEmptyStub) event ∧
      (processBuf A moveEnabled none event).saveProfile = true := by
  cases event with
  | request info =>
    refine ⟨rfl, ?_⟩
    change (processRequestBuf A (some createEmptyStub) {} info moveEnabled).saveProfile = true
    rw [processRequestBuf_first info (by decide) rfl]
    cases createEmptyStub.waitingNotice info <;> rfl
  | impression info => cases moveEnabled <;> exact ⟨rfl, rfl⟩
  | fraudRollback time => exact absurd rfl (notRollback time)
  | _ => exact ⟨rfl, rfl⟩

theorem processEvent_stored (h : Option.Rel (Stored A userId) tally stored) {event : Event}
    (of : event.Of userId) :
    Option.Rel (Stored A userId) (next tally event)
        (processEvent A moveEnabled stored event).1 ∧
      Tally.totalsOf A tally + totalsOf (processEvent A moveEnabled stored event).2 =
        Tally.totalsOf A (Tally.next tally event) := by
  rw [show (processEvent A moveEnabled stored event).2 =
    delegateProcessing (processBuf A moveEnabled stored event).delegate from rfl,
    totalsOf_delegateProcessing]
  cases h with
  | some h =>
    obtain ⟨⟨after, saved, stored⟩, totals⟩ := @processBuf_steps A moveEnabled _ _ _ h _ of
    exact ⟨by simp only [processEvent, saved]; exact .some stored, totals⟩
  | none =>
    by_cases rollback : ∃ time, event = .fraudRollback time
    · obtain ⟨time, rfl⟩ := rollback
      exact ⟨.none, by ext : 1 <;> simp [next, processBuf, processFraudRollbackBuf,
        RequestProcessDelegate.totals]⟩
    · have notRollback : ∀ time, event ≠ .fraudRollback time := fun time h =>
        rollback ⟨time, h⟩
      obtain ⟨same, saves⟩ := @processBuf_none A moveEnabled _ notRollback
      obtain ⟨⟨after, saved, stored⟩, totals⟩ := @processBuf_steps A moveEnabled _ _ _
        (Stored.stub userId) _ of
      have next : next none event = some (({} : Tally).add event) := by
        cases event with
        | fraudRollback time => exact absurd rfl (notRollback time)
        | _ => rfl
      rw [next]
      rw [← same] at saved totals
      rw [saves, if_pos rfl] at saved
      constructor
      · simp only [processEvent, saves, if_true, saved]
        exact .some stored
      · rw [totals_empty] at totals
        exact totals

theorem processEvents_stored (h : Option.Rel (Stored A userId) tally stored) {events : List Event}
    (of : ∀ event ∈ events, event.Of userId) :
    Option.Rel (Stored A userId) (events.foldl next tally)
        (processEvents A moveEnabled stored events).1 ∧
      Tally.totalsOf A tally + totalsOf (processEvents A moveEnabled stored events).2 =
        Tally.totalsOf A (events.foldl Tally.next tally) := by
  induction events generalizing stored tally with
  | nil => exact ⟨h, by ext : 1 <;> simp [processEvents]⟩
  | cons event rest ih =>
    obtain ⟨next, totals⟩ := @processEvent_stored A moveEnabled _ _ _ h _
      (of event List.mem_cons_self)
    obtain ⟨after, later⟩ := ih next fun event h => of event (List.mem_cons_of_mem _ h)
    refine ⟨after, ?_⟩
    rw [List.foldl_cons, ← later, ← totals, Totals.add_assoc, ← totalsOf_append]
    rfl

/-- The totals of a run that starts without a profile. -/
theorem totalsOf_processEvents {events : List Event} (of : ∀ event ∈ events, event.Of userId) :
    totalsOf (processEvents A moveEnabled none events).2 =
      Tally.totalsOf A (tallyOf events) := by
  have totals := (@processEvents_stored A moveEnabled _ _ _ .none _ of).2
  rw [← tallyOf] at totals
  rw [← totals]
  ext : 1 <;> simp [Tally.totalsOf]

end AdServer.RequestInfo
