import AdServer.RequestInfo.EventChains
import AdServer.RequestInfo.EventTotals

/-!
# What has come for a request

However the events of a request were ordered, the profile and what was delivered
depend only on a tally of what has come: the first request, whether there was a
notice, how many impressions, clicks and actions, and which post-impression
actions.
-/

namespace AdServer.RequestInfo

structure Tally where
  request : Option RequestInfo := none
  notice : Bool := false
  noticeCost : Option Int := none
  impressions : Nat := 0
  impressionCost : Option Int := none
  /-- The request had an impression of its own, as its impressions are not tracked. -/
  auto : Bool := false
  clicks : Nat := 0
  actions : Nat := 0
  names : Finset String := ∅
  fraud : Bool := false
  /-- What the rollback found done. -/
  fraudRequest : Bool := false
  fraudImpression : Bool := false

namespace Tally

variable {A : RevenueArithmetic} (t : Tally)

def noticed : Bool := t.request.any fun info => t.notice || !info.enabledNotice

def untracked : Bool := t.request.any fun info => !info.enabledImpressionTracking

def verified : Bool := t.noticed && (decide (0 < t.impressions) || t.auto)

def clicked : Bool := t.verified && decide (0 < t.clicks)

/-- The actions that the request lets through. -/
def tracked (count : Nat) : Nat :=
  (t.request.map fun info => info.toRequestTerms.tracked count).getD 0

def mark : RequestState := if t.fraud then .fraud else .normal

/-- The counters of the profile. -/
def counters : Counters where
  requestDone := if t.request.isSome then 1 else 0
  noticeReceived := if t.noticed then 1 else 0
  noticeNonConsidered := if t.request.isSome then 0 else if t.notice then 1 else 0
  impressionVerified := if t.verified then 1 else 0
  impressionNonConsidered := if t.verified then 0 else t.impressions
  clickDone := if t.clicked then 1 else 0
  clickNonConsidered := if t.clicked then 0 else t.clicks
  actionsDone := if t.clicked then t.tracked t.actions else 0
  actionsNonConsidered := if t.clicked then 0 else t.actions
  postImpressionActions := t.names.sort
  fraud := t.mark

/-- The request with the costs that came with its notice and its impression. -/
def costed : RequestProfile :=
  { convertRequestInfoToRequestWriter (t.request.getD {}) {} with
    noticeImpRevenue := t.noticeCost
    impressionImpRevenue := t.impressionCost }

/-- What the frontend confirms for each impression. -/
def full : Int := t.costed.fullAdvRevenue.impression

/-- The advertiser's revenue as evaluated on the impression. -/
def billed (A : RevenueArithmetic) : Int := (t.costed.billing A (·.impression)).advAmount

def duplicates : Nat := t.impressions + (if t.auto then 1 else 0) - 1

/-- All that was delivered. -/
def totals (A : RevenueArithmetic) : Totals where
  requests := (if t.request.isSome then {.normal} else 0) + (if t.fraudRequest then {.fraud} else 0)
  impressions := (if t.verified then {.normal} + Multiset.replicate t.duplicates .duplicate else 0) +
    (if t.fraudImpression then {.fraud} else 0)
  clicks := if t.clicked then
    {.normal} + Multiset.replicate (t.clicks - 1) .duplicate + (if t.fraud then {.fraud} else 0)
    else 0
  actions := if t.clicked then t.tracked t.actions else 0
  postActions := if t.verified then t.names.val else 0
  campaignAmount := (if t.verified then t.billed A - t.full - t.duplicates * t.full else 0) -
    (if t.fraudImpression then t.full else 0)

/-- The notice counts when the request is there, and brings an impression to an untracked one. -/
def receive (next : Tally) : Tally :=
  if !t.noticed && next.noticed && next.untracked && decide (next.impressions = 0) then
    { next with auto := true }
  else next

def withRequest (info : RequestInfo) : Tally := { t with request := some info }

def withNotice (info : ImpressionInfo) : Tally :=
  { t with
      notice := true
      noticeCost := info.pubRevenue.map (·.impression) }

def add (event : Event) : Tally :=
  match event with
  | .request info => if t.request.isSome then t else t.receive (t.withRequest info)
  | .notice info =>
    if t.noticed then { t with notice := true }
    else t.receive (t.withNotice info)
  | .impression info =>
    { t with
        impressions := t.impressions + 1
        impressionCost := if t.impressions = 0 ∧ !t.verified then
          info.pubRevenue.map (·.impression) else t.impressionCost }
  | .click _ => { t with clicks := t.clicks + 1 }
  | .action _ => { t with actions := t.actions + 1 }
  | .postAction info => { t with names := insert info.actionName t.names }
  | .fraudRollback _ =>
    if t.fraud then t
    else { t with fraud := true, fraudRequest := t.request.isSome, fraudImpression := t.verified }

structure Settled : Prop where
  auto : t.auto → t.noticed
  uncosted : t.impressions = 0 → t.impressionCost = none
  rolledBack : t.fraudImpression → t.verified
  unmarked : t.fraud = false → t.fraudRequest = false ∧ t.fraudImpression = false
  unpriced : t.notice = false → t.noticeCost = none

variable {t}

theorem requested_of_noticed (h : t.noticed) : t.request.isSome := by
  cases found : t.request with
  | none => simp [noticed, found] at h
  | some _ => rfl

theorem noticed_of_verified (h : t.verified) : t.noticed := by
  simp only [verified, Bool.and_eq_true] at h
  exact h.1

theorem unclicked (unverified : t.verified = false) : t.clicked = false := by
  simp [clicked, unverified]

theorem notRolled (settled : t.Settled) (unverified : t.verified = false) :
    t.fraudImpression = false := by
  apply Bool.eq_false_iff.2
  intro rolled
  simp [settled.rolledBack rolled] at unverified

theorem unverified_of_unnoticed (unnoticed : t.noticed = false) : t.verified = false := by
  simp [verified, unnoticed]

theorem notAuto (settled : t.Settled) (unnoticed : t.noticed = false) : t.auto = false := by
  apply Bool.eq_false_iff.2
  intro auto
  simp [settled.auto auto] at unnoticed

theorem Settled.unnoticed {next : Tally} (settled : t.Settled) (before : t.noticed = false)
    (sameAuto : next.auto = t.auto) (sameRolled : next.fraudImpression = t.fraudImpression)
    (uncosted : next.impressions = 0 → next.impressionCost = none)
    (unmarked : next.fraud = false → next.fraudRequest = false ∧ next.fraudImpression = false)
    (unpriced : next.notice = false → next.noticeCost = none) : next.Settled := by
  have notAuto := notAuto settled before
  have notRolled := notRolled settled (unverified_of_unnoticed before)
  refine ⟨fun auto => ?_, uncosted, fun rolled => ?_, unmarked, unpriced⟩
  · simp [sameAuto, notAuto] at auto
  · simp [sameRolled, notRolled] at rolled

/-- The tally once its notice is there. -/
def withAuto (t : Tally) : Tally :=
  if t.untracked && decide (t.impressions = 0) then { t with auto := true } else t

theorem receive_noticed {next : Tally} (before : t.noticed = false)
    (after : next.noticed = true) : t.receive next = next.withAuto := by
  simp [receive, withAuto, before, after]

theorem receive_unnoticed {next : Tally} (after : next.noticed = false) :
    t.receive next = next := by
  simp [receive, after]

theorem withAuto_requests : (t.withAuto.totals A).requests = (t.totals A).requests := by
  unfold withAuto
  split <;> rfl

/-- The counters while `count` impressions wait for the notice. -/
def waiting (t : Tally) (count : Nat) : Counters :=
  { t.counters with
      impressionVerified := 0
      impressionNonConsidered := count
      clickDone := 0
      clickNonConsidered := t.clicks
      actionsDone := 0
      actionsNonConsidered := t.actions }

theorem waiting_verify (count : Nat) (verified : t.verified = true) :
    (t.waiting count).verify t.tracked = t.counters := by
  by_cases some_clicks : 0 < t.clicks
  · simp [waiting, Counters.verify, counters, clicked, verified, some_clicks]
  · have no_clicks : t.clicks = 0 := by omega
    simp [waiting, Counters.verify, counters, clicked, verified, no_clicks]

/-- Before an impression is verified only the request is delivered. -/
theorem totals_unverified (settled : t.Settled) (unverified : t.verified = false) :
    t.totals A = ⟨(t.totals A).requests, 0, 0, 0, 0, 0⟩ := by
  have notRolled : t.fraudImpression = false := by
    apply Bool.eq_false_iff.2
    intro rolled
    simp [settled.rolledBack rolled] at unverified
  have unclicked : t.clicked = false := by simp [clicked, unverified]
  simp [totals, unverified, unclicked, notRolled]

theorem verified_add_impression (info : ImpressionInfo) :
    (t.add (.impression info)).verified = t.noticed := by
  simp only [verified, show (t.add (.impression info)).noticed = t.noticed from rfl]
  simp [add]

section
variable (info : ImpressionInfo) (verified : t.verified = true)

include verified

theorem some_came : 1 ≤ t.impressions + (if t.auto then 1 else 0) := by
  simp only [Tally.verified, Bool.and_eq_true, Bool.or_eq_true, decide_eq_true_eq] at verified
  obtain ⟨-, some_impressions | auto⟩ := verified
  · omega
  · simp [auto]

theorem counters_duplicate : (t.add (.impression info)).counters = t.counters := by
  have verified' := verified_add_impression (t := t) info
  rw [noticed_of_verified verified] at verified'
  have clicked' : (t.add (.impression info)).clicked = t.clicked := by
    simp only [clicked, verified', verified]
    rfl
  simp only [counters, verified', clicked', verified]
  rfl

theorem totals_duplicate :
    (t.add (.impression info)).totals A = t.totals A + ⟨0, {.duplicate}, 0, 0, 0, -t.full⟩ := by
  have came := some_came verified
  have added : t.add (.impression info) = { t with impressions := t.impressions + 1 } := by
    simp [add, verified]
  have verified' := verified_add_impression (t := t) info
  rw [noticed_of_verified verified] at verified'
  have clicked' : (t.add (.impression info)).clicked = t.clicked := by
    simp only [clicked, verified', verified]
    rfl
  have duplicates' : (t.add (.impression info)).duplicates = t.duplicates + 1 := by
    rw [added]
    simp only [duplicates]
    omega
  simp only [totals, verified', clicked', duplicates', verified, if_true]
  rw [added]
  ext : 1
  · exact (add_zero _).symm
  · simp only [Multiset.replicate_succ, ← Multiset.singleton_add, Totals.add_impressions]
    abel
  · exact (add_zero _).symm
  · exact (add_zero _).symm
  · exact (add_zero _).symm
  · simp only [Totals.add_campaignAmount]
    push_cast
    rw [add_mul, one_mul]
    change t.billed A - t.full - (t.duplicates * t.full + t.full) -
      (if t.fraudImpression then t.full else 0) = _
    omega

end

@[simp] theorem coe_fraudClicks :
    (fraudClicks t.mark : Multiset RequestState) = if t.fraud then {.fraud} else 0 := by
  cases marked : t.fraud <;> simp [fraudClicks, mark, marked]

section
variable (time : Time)

theorem clicked_click : (t.add (.click time)).clicked = t.verified := by
  rw [clicked, show (t.add (.click time)).verified = t.verified from rfl]
  simp [add]

theorem counters_click : (t.add (.click time)).counters = { t.counters with
    clickDone := if t.verified then 1 else 0
    clickNonConsidered := if t.verified then 0 else t.clicks + 1
    actionsDone := if t.verified then t.tracked t.actions else 0
    actionsNonConsidered := if t.verified then 0 else t.actions } := by
  simp only [counters, clicked_click]
  rfl

theorem totals_click : (t.add (.click time)).totals A = { t.totals A with
    clicks := if t.verified then {.normal} + Multiset.replicate t.clicks .duplicate +
      (if t.fraud then {.fraud} else 0) else 0
    actions := if t.verified then t.tracked t.actions else 0 } := by
  simp only [totals, clicked_click]
  rfl

end

theorem totals_empty : ({} : Tally).totals A = 0 := by
  simp [totals, verified, noticed, clicked]
  rfl

/-- A rollback that finds no profile is lost. -/
def next : Option Tally → Event → Option Tally
  | none, .fraudRollback _ => none
  | none, event => some (({} : Tally).add event)
  | some t, event => some (t.add event)

def totalsOf (A : RevenueArithmetic) (t : Option Tally) : Totals :=
  (t.map fun t => t.totals A).getD 0

end Tally

/-- What the events come to. -/
def tallyOf (events : List Event) : Option Tally := events.foldl Tally.next none

end AdServer.RequestInfo
