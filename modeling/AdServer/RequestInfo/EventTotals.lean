import AdServer.RequestInfo.RequestEvents

/-!
# What was delivered in all

The states under which requests, impressions and clicks were delivered, each with
its multiplicity, and what the billing processor added to the request pool for
the impressions.
-/

namespace AdServer.RequestInfo

open RequestProcessDelegate

namespace BillingProcessor

/-- Each impression was confirmed on the frontend with the full revenue of the advertiser. -/
def processImpression (info : RequestInfo) (state : RequestState) : Option Request :=
  let add (accountAmount amount imps : Int) : Request :=
    Request.make info.time info.advAccountId info.advertiserId info.campaignId info.ccgId info.ctr
      ⟨accountAmount, amount, imps, 0⟩
  let full := info.advRevenue.impression + info.deltaAdvRevenue.impression
  if state = .fraud ∨ state = .duplicate then
    some (add (-(full + info.advPayableCommAmount.impression)) (-full) (-1))
  else if state = .normal ∧ info.deltaAdvRevenue.impression ≠ 0 then
    some (add (-info.deltaAdvRevenue.impression) (-info.deltaAdvRevenue.impression) 0)
  else none

/-- The amount that the campaign gets in the pool. -/
def campaignAmount (info : RequestInfo) (state : RequestState) : Int :=
  ((processImpression info state).map (·.amounts.amount)).getD 0

@[simp] theorem campaignAmount_normal (info : RequestInfo) :
    campaignAmount info .normal = -info.deltaAdvRevenue.impression := by
  by_cases same : info.deltaAdvRevenue.impression = 0
  · simp [campaignAmount, processImpression, same]
  · simp [campaignAmount, processImpression, same, Request.make]

@[simp] theorem campaignAmount_duplicate (info : RequestInfo) :
    campaignAmount info .duplicate =
      -(info.advRevenue.impression + info.deltaAdvRevenue.impression) := rfl

@[simp] theorem campaignAmount_fraud (info : RequestInfo) :
    campaignAmount info .fraud =
      -(info.advRevenue.impression + info.deltaAdvRevenue.impression) := rfl

end BillingProcessor

open BillingProcessor

@[ext] structure Totals where
  requests : Multiset RequestState
  impressions : Multiset RequestState
  clicks : Multiset RequestState
  actions : Nat
  postActions : Multiset String
  campaignAmount : Int
  deriving DecidableEq

namespace Totals

instance : Zero Totals := ⟨⟨0, 0, 0, 0, 0, 0⟩⟩
instance : Add Totals := ⟨fun left right =>
  ⟨left.requests + right.requests, left.impressions + right.impressions,
    left.clicks + right.clicks, left.actions + right.actions,
    left.postActions + right.postActions, left.campaignAmount + right.campaignAmount⟩⟩

section
variable (left right : Totals)

@[simp] theorem zero_requests : (0 : Totals).requests = 0 := rfl
@[simp] theorem zero_impressions : (0 : Totals).impressions = 0 := rfl
@[simp] theorem zero_clicks : (0 : Totals).clicks = 0 := rfl
@[simp] theorem zero_actions : (0 : Totals).actions = 0 := rfl
@[simp] theorem zero_postActions : (0 : Totals).postActions = 0 := rfl
@[simp] theorem zero_campaignAmount : (0 : Totals).campaignAmount = 0 := rfl
@[simp] theorem add_requests : (left + right).requests = left.requests + right.requests := rfl
@[simp] theorem add_impressions :
    (left + right).impressions = left.impressions + right.impressions := rfl
@[simp] theorem add_clicks : (left + right).clicks = left.clicks + right.clicks := rfl
@[simp] theorem add_actions : (left + right).actions = left.actions + right.actions := rfl
@[simp] theorem add_postActions :
    (left + right).postActions = left.postActions + right.postActions := rfl
@[simp] theorem add_campaignAmount :
    (left + right).campaignAmount = left.campaignAmount + right.campaignAmount := rfl

end

protected theorem add_assoc (a b c : Totals) : a + b + c = a + (b + c) := by
  ext : 1 <;> simp [add_assoc]

end Totals

/-- The totals of what was delivered. -/
def totalsOf (delivered : List Delivery) : Totals where
  requests := delivered.filterMap fun
    | .request _ state => some state
    | _ => none
  impressions := delivered.filterMap fun
    | .impression _ _ state => some state
    | _ => none
  clicks := delivered.filterMap fun
    | .click _ state => some state
    | _ => none
  actions := delivered.countP fun
    | .action _ => true
    | _ => false
  postActions := delivered.filterMap fun
    | .postAction _ info => some info.actionName
    | _ => none
  campaignAmount := (delivered.map fun
    | .impression info _ state => campaignAmount info state
    | _ => 0).sum

@[simp] theorem totalsOf_nil : totalsOf [] = 0 := rfl

@[simp] theorem totalsOf_append (before after : List Delivery) :
    totalsOf (before ++ after) = totalsOf before + totalsOf after := by
  ext : 1 <;> simp [totalsOf]

section
variable (info : RequestInfo) (impressionInfo : ImpressionInfo) (userId : UserId)

section
variable (states : List RequestState)

theorem totalsOf_requests :
    totalsOf (states.map (Delivery.request info)) = ⟨states, 0, 0, 0, 0, 0⟩ := by
  ext : 1 <;> simp [totalsOf, List.filterMap_map, Function.comp_def]

theorem totalsOf_impressions :
    totalsOf (states.map (Delivery.impression info impressionInfo)) =
      ⟨0, states, 0, 0, 0, (states.map (campaignAmount info)).sum⟩ := by
  ext : 1 <;> simp [totalsOf, List.filterMap_map, Function.comp_def]

theorem totalsOf_clicks :
    totalsOf (states.map (Delivery.click info)) = ⟨0, 0, states, 0, 0, 0⟩ := by
  ext : 1 <;> simp [totalsOf, List.filterMap_map, Function.comp_def]

end

theorem totalsOf_actions (count : Nat) :
    totalsOf (List.replicate count (Delivery.action info)) = ⟨0, 0, 0, count, 0, 0⟩ := by
  ext : 1 <;> simp [totalsOf, List.countP_replicate]

theorem totalsOf_postActions (infos : List RequestPostActionInfo) :
    totalsOf (infos.map (Delivery.postAction info)) =
      ⟨0, 0, 0, 0, infos.map (·.actionName), 0⟩ := by
  ext : 1 <;> simp [totalsOf, List.filterMap_map, Function.comp_def]

/-- Moves are no events of this user. -/
theorem totalsOf_moves {α : Type} (l : List α) (move : α → Delivery)
    (moves : ∀ a, (∃ userId profile, move a = .changeRequestUserId userId profile) ∨
      (∃ info, move a = .moveImpression info) ∨
      (∃ userId action, move a = .moveAction userId action) ∨
      (∃ userId action, move a = .movePostAction userId action)) :
    totalsOf (l.map move) = 0 := by
  induction l with
  | nil => rfl
  | cons a rest ih =>
    have alone : totalsOf [move a] = 0 := by
      obtain ⟨_, _, h⟩ | ⟨_, h⟩ | ⟨_, _, h⟩ | ⟨_, _, h⟩ := moves a <;> rw [h] <;> rfl
    rw [List.map_cons, ← List.singleton_append, totalsOf_append, alone, ih]
    rfl

end

/-- The request that is delivered with the rollbacks. -/
def RequestProcessDelegate.rollbackInfo (delegate : RequestProcessDelegate) : RequestInfo :=
  delegate.rollbackRequestInfo.getD (delegate.requestInfo.getD {})

/-- The totals of one delegate. -/
def RequestProcessDelegate.totals (delegate : RequestProcessDelegate) : Totals where
  requests := delegate.processRequest.toList ++ delegate.processFraudRequest.toList
  impressions := (if delegate.processImpression then
    [(delegate.requestInfo.getD {}).fraud] else []) ++ delegate.processRollbackImpressions
  clicks := (if delegate.processClick then
    [(delegate.requestInfo.getD {}).fraud] else []) ++ delegate.processRollbackClicks
  actions := delegate.processActions
  postActions := delegate.processPostImpressionActions.map (·.actionName)
  campaignAmount := (if delegate.processImpression then
      campaignAmount (delegate.requestInfo.getD {}) (delegate.requestInfo.getD {}).fraud else 0) +
    (delegate.processRollbackImpressions.map (campaignAmount delegate.rollbackInfo)).sum

theorem totalsOf_delegateProcessing (delegate : RequestProcessDelegate) :
    totalsOf (delegateProcessing delegate) = delegate.totals := by
  have impression : (if delegate.processImpression then [Delivery.impression
      (delegate.requestInfo.getD {}) (delegate.impressionInfo.getD {})
      (delegate.requestInfo.getD {}).fraud] else []) =
      (if delegate.processImpression then [(delegate.requestInfo.getD {}).fraud] else []).map
        (Delivery.impression (delegate.requestInfo.getD {}) (delegate.impressionInfo.getD {})) := by
    cases delegate.processImpression <;> rfl
  have click : (if delegate.processClick then [Delivery.click
      (delegate.requestInfo.getD {}) (delegate.requestInfo.getD {}).fraud] else []) =
      (if delegate.processClick then [(delegate.requestInfo.getD {}).fraud] else []).map
        (Delivery.click (delegate.requestInfo.getD {})) := by
    cases delegate.processClick <;> rfl
  unfold delegateProcessing
  simp only [totalsOf_append, impression, click, totalsOf_requests, totalsOf_impressions,
    totalsOf_clicks, totalsOf_actions, totalsOf_postActions]
  rw [totalsOf_moves _ _ fun _ => .inl ⟨_, _, rfl⟩,
    totalsOf_moves _ _ fun _ => .inr (.inl ⟨_, rfl⟩),
    totalsOf_moves _ _ fun _ => .inr (.inr (.inl ⟨_, _, rfl⟩)),
    totalsOf_moves _ _ fun _ => .inr (.inr (.inr ⟨_, _, rfl⟩))]
  ext : 1
  · simp [totals]
  · cases processed : delegate.processImpression <;>
      simp [totals, processed]
  · cases processed : delegate.processClick <;> simp [totals, processed]
  · simp [totals]
  · simp [totals]
  · -- the mark that the rollbacks carry is not billed
    have marked (mark : RequestState) (info : RequestInfo) :
        campaignAmount { info with fraud := mark } = campaignAmount info := rfl
    cases delegate.processFraudRequest <;> cases processed : delegate.processImpression <;>
      simp [totals, rollbackInfo, marked, processed]

end AdServer.RequestInfo
