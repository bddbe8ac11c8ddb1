import AdServer.Billing.DeliveryLimits
import AdServer.Lib.Interleaving

/-!
# Confirming a bid

`BillingContainer::confirm_bid`, one section for each time it takes the lock of
a map. The locals of a call travel with it from section to section.
-/

namespace AdServer.Billing

open AdServer.Lib Ledgers

variable (P : Platform)

/-- What a confirming function leaves: the map, what it confirmed, its result. -/
structure Confirmed (A : Type) where
  amounts : Ledgers Nat Time A
  confirmed : A
  res : Bool

/-- `confirm_account_bid_`. -/
def confirmAccountBid_ (amounts : Ledgers Nat Time Int) (confirmAmount : Int) (accountId : Nat)
    (config : Account) (now : Time) (forced : Bool) : Confirmed Int :=
  let advTzNowDate := getDateInAdvTz P config.timeOffset now
  let accountTotalAmount : Int := match amounts.find? accountId with
    | some holder => holder.total
    | none => 0
  let res := decide (accountTotalAmount < config.budget)
  if res || forced then
    let amounts := amounts.insertNew accountId SortedMap.empty
    if forced || decide (config.budget - accountTotalAmount > confirmAmount) then
      { amounts := amounts.modify accountId (·.addAmount advTzNowDate confirmAmount)
        confirmed := confirmAmount
        res := res }
    else
      let allowedAddAmount := config.budget - accountTotalAmount
      { amounts := amounts.modify accountId (·.addAmount advTzNowDate allowedAddAmount)
        confirmed := allowedAddAmount
        res := false }
  else
    { amounts := amounts, confirmed := 0, res := res }

/-- `confirm_bid_`. -/
def confirmBid_ (amounts : Ledgers Nat Time Counts) (confirm : Counts) (objectId : Nat)
    (limits : DeliveryLimits) (now : Time) (forced : Bool) : Confirmed Counts :=
  let checker := DeliveryLimitsChecker.create P limits now
  match amounts.find? objectId with
  | some holder =>
    let result := checker.confirmAmount P holder confirm forced
    { amounts := amounts.modify objectId (fun _ => result.2.1)
      confirmed := confirm - result.2.2
      res := result.1 }
  | none =>
    let result := checker.confirmAmount P SortedMap.empty confirm forced
    { amounts := if result.1 || forced then amounts.insertNew objectId result.2.1 else amounts
      confirmed := confirm - result.2.2
      res := result.1 }

/-- `it->second->add_amount` of a reverting section; no value when the assertion
that the entity is there fails. -/
def revertInto {A : Type} [AddCommGroup A] (amounts : Ledgers Nat Time A) (objectId : Nat)
    (date : Time) (amount : A) : Option (Ledgers Nat Time A) :=
  match amounts.find? objectId with
  | some _ => some (amounts.modify objectId (·.addAmount date amount))
  | none => none

/-- `revert_account_confirmed_bid_`. -/
def revertAccountConfirmedBid_ (amounts : Ledgers Nat Time Int) (objectId : Nat)
    (config : Account) (now : Time) (confirmAmount : Int) : Option (Ledgers Nat Time Int) :=
  revertInto amounts objectId (getDateInAdvTz P config.timeOffset now) (-confirmAmount)

/-- `revert_confirmed_bid_`: of the three negated locals only the amount is
passed on. -/
def revertConfirmedBid_ (amounts : Ledgers Nat Time Counts) (objectId : Nat)
    (limits : DeliveryLimits) (now : Time) (confirm : Counts) :
    Option (Ledgers Nat Time Counts) :=
  revertInto amounts objectId (getDateInAdvTz P limits.timeOffset now)
    ⟨-confirm.amount, confirm.imps, confirm.clicks⟩

/-- The account section records the whole amount, the room left under the
budget, or nothing. -/
theorem confirmAccountBid_outcome (amounts : Ledgers Nat Time Int) (amount : Int) (id : Nat)
    (config : Account) (now : Time) (forced : Bool) :
    let date := getDateInAdvTz P config.timeOffset now
    let room := config.budget - total amounts id
    let r := confirmAccountBid_ P amounts amount id config now forced
    (forced = true ∨ 0 < room ∧ amount < room) ∧
        r = ⟨record amounts id date amount, amount, decide (0 < room)⟩ ∨
      (forced = false ∧ 0 < room ∧ room ≤ amount) ∧
        r = ⟨record amounts id date room, room, false⟩ ∨
      (forced = false ∧ room ≤ 0) ∧ r = ⟨amounts, 0, false⟩ := by
  intro date room r
  have total : (match amounts.find? id with
      | some holder => holder.total
      | none => 0) = total amounts id := by
    unfold total days
    cases amounts.find? id <;> rfl
  have verdict : decide (Ledgers.total amounts id < config.budget) = decide (0 < room) := by
    simp only [room, decide_eq_decide]
    omega
  have hr : r = confirmAccountBid_ P amounts amount id config now forced := rfl
  unfold confirmAccountBid_ at hr
  simp only [total, verdict, modify_insertNew_eq_record] at hr
  by_cases some_room : 0 < room
  · by_cases whole : forced = true ∨ amount < room
    · refine .inl ⟨whole.imp_right (⟨some_room, ·⟩), ?_⟩
      rw [hr, if_pos (by simp [some_room]), if_pos (by simpa [room] using whole)]
    · obtain ⟨unforced, cut⟩ := not_or.1 whole
      refine .inr (.inl ⟨⟨by simpa using unforced, some_room, not_lt.1 cut⟩, ?_⟩)
      rw [hr, if_pos (by simp [some_room]), if_neg (by simpa [room] using whole)]
  · cases forced with
    | true => exact .inl ⟨.inl rfl, by rw [hr, if_pos (by simp), if_pos (by simp)]⟩
    | false =>
      refine .inr (.inr ⟨⟨rfl, not_lt.1 some_room⟩, ?_⟩)
      rw [hr, if_neg (by simpa using some_room)]
      simp [some_room]

/-- Whether a campaign or a creative group passes its limits. -/
def passesLimits (amounts : Ledgers Nat Time Counts) (objectId : Nat) (limits : DeliveryLimits)
    (now : Time) (positive : Bool) : Bool :=
  (DeliveryLimitsChecker.create P limits now).passes P (Ledgers.days amounts objectId) positive

/-- A campaign or creative group section records the whole amount or nothing. -/
theorem confirmBid_outcome (amounts : Ledgers Nat Time Counts) (confirm : Counts) (id : Nat)
    (limits : DeliveryLimits) (now : Time) (forced : Bool) :
    let date := getDateInAdvTz P limits.timeOffset now
    let passed := passesLimits P amounts id limits now (decide (confirm.amount > 0))
    let r := confirmBid_ P amounts confirm id limits now forced
    (passed = true ∨ forced = true) ∧
        r = ⟨record amounts id date confirm, confirm, passed⟩ ∨
      (passed = false ∧ forced = false) ∧ r = ⟨amounts, 0, false⟩ := by
  intro date passed r
  have hr : r = confirmBid_ P amounts confirm id limits now forced := rfl
  have hpassed : passed = (DeliveryLimitsChecker.create P limits now).passes P
    (days amounts id) (decide (confirm.amount > 0)) := rfl
  unfold confirmBid_ at hr
  by_cases accepted : passed = true ∨ forced = true
  · refine .inl ⟨accepted, ?_⟩
    rw [hpassed] at accepted
    cases found : amounts.find? id with
    | none =>
      have empty : days amounts id = SortedMap.empty := by simp [days, found]
      rw [empty] at accepted hpassed
      simp only [found, DeliveryLimitsChecker.confirmAmount_accepted P _ _ _ _ accepted,
        ← hpassed, sub_zero] at hr
      rw [← hpassed] at accepted
      rw [hr, if_pos (by simpa using accepted)]
      congr 1
      refine SortedMap.ext_find fun id' => ?_
      by_cases e : id' = id <;>
        simp [record, SortedMap.find?_put, SortedMap.find?_insertNew, e, found, empty]
      rfl
    | some holder =>
      have present : days amounts id = holder := by simp [days, found]
      rw [present] at accepted hpassed
      simp only [found, DeliveryLimitsChecker.confirmAmount_accepted P _ _ _ _ accepted,
        ← hpassed, sub_zero] at hr
      rw [hr]
      congr 1
      refine SortedMap.ext_find fun id' => ?_
      by_cases e : id' = id <;>
        simp [record, SortedMap.find?_put, SortedMap.find?_modify, e, found, present]
      rfl
  · obtain ⟨refused, unforced⟩ : passed = false ∧ forced = false := by simpa using accepted
    refine .inr ⟨⟨refused, unforced⟩, ?_⟩
    subst unforced
    rw [hpassed] at refused
    cases found : amounts.find? id with
    | none =>
      have empty : days amounts id = SortedMap.empty := by simp [days, found]
      rw [empty] at refused
      simp only [found, DeliveryLimitsChecker.confirmAmount_refused P _ _ _ refused, sub_self,
        Bool.or_self, Bool.false_eq_true, if_false] at hr
      exact hr
    | some holder =>
      have present : days amounts id = holder := by simp [days, found]
      rw [present] at refused
      simp only [found, DeliveryLimitsChecker.confirmAmount_refused P _ _ _ refused,
        sub_self] at hr
      rw [hr]
      congr 1
      refine SortedMap.ext_find fun id' => ?_
      by_cases e : id' = id <;> simp [SortedMap.find?_modify, e, found]

/-- A reverting section finds the entity a confirming section has recorded into. -/
theorem revertInto_present {A : Type} [AddCommGroup A] {amounts : Ledgers Nat Time A} {id : Nat}
    (present : (amounts.find? id).isSome) (date : Time) (amount : A) :
    revertInto amounts id date amount = some (record amounts id date amount) := by
  obtain ⟨days, found⟩ := Option.isSome_iff_exists.1 present
  simp only [revertInto, found, modify_eq_record present]

/-- `ConfirmAmountHolder` and `CampaignConfirmAmountHolder`. -/
structure ConfirmHolder (A : Type) where
  available : A
  confirmed : A
  revert : A

/-- What the caller passes, and the configuration it finds bound. -/
structure Request where
  accountBidAmount : Int
  bid : Counts
  ids : Bid
  forced : Bool
  config : Option Config

/-- The result and the remainders handed back. -/
structure BidResult where
  available : Bool
  accountBidAmount : Int
  bid : Counts
  deriving DecidableEq

structure Locals where
  accountTraits : Account
  campaignTraits : DeliveryLimits
  ccgTraits : DeliveryLimits
  account : ConfirmHolder Int
  campaign : ConfirmHolder Counts
  ccg : ConfirmHolder Counts
  res : Bool

/-- `std::min` of the share so far and the confirmed part of the whole. -/
def minShare (share : Int) (isConfirmed : Bool) (confirmed whole : Int) : Int :=
  if isConfirmed && decide (whole ≠ 0) then min share (P.div confirmed whole) else share

/-- `min_confirmed_share`. -/
def minConfirmedShare (l : Locals) (accountConfirmed campaignConfirmed ccgConfirmed : Bool)
    (accountBidAmount bidAmount : Int) : Int :=
  let share := minShare P P.one accountConfirmed l.account.confirmed accountBidAmount
  let share := minShare P share campaignConfirmed l.campaign.confirmed.amount bidAmount
  minShare P share ccgConfirmed l.ccg.confirmed.amount bidAmount

/-- What is left to revert once the amount should be `target`. -/
def remindRevert (isConfirmed : Bool) (target confirmed revert : Int) : Int :=
  if isConfirmed && decide (target ≠ confirmed) then confirmed - target else revert

def remindAvailable (isConfirmed : Bool) (target : Int) : Int :=
  if !isConfirmed then target else 0

/-- `recalc_remind_amounts_`. Only money is recalculated: impressions and clicks
stay as they are in all three holders. -/
def recalcRemindAmounts_ (l : Locals) (accountConfirmed campaignConfirmed ccgConfirmed : Bool)
    (accountBidAmount bidAmount : Int) : Locals :=
  let share := minConfirmedShare P l accountConfirmed campaignConfirmed ccgConfirmed
    accountBidAmount bidAmount
  let accountTarget := P.mul share accountBidAmount
  let bidTarget := P.mul share bidAmount
  { l with
    account := { l.account with
      revert := remindRevert accountConfirmed accountTarget l.account.confirmed l.account.revert
      available := remindAvailable accountConfirmed accountTarget }
    campaign := { l.campaign with
      revert := { l.campaign.revert with
        amount := remindRevert campaignConfirmed bidTarget l.campaign.confirmed.amount
          l.campaign.revert.amount }
      available := { l.campaign.available with
        amount := remindAvailable campaignConfirmed bidTarget } }
    ccg := { l.ccg with
      revert := { l.ccg.revert with
        amount := remindRevert ccgConfirmed bidTarget l.ccg.confirmed.amount l.ccg.revert.amount }
      available := { l.ccg.available with
        amount := remindAvailable ccgConfirmed bidTarget } } }

/-- The impressions and clicks handed back are those outside the confirmed
share of the creative group. -/
def confirmedCounts (l : Locals) (bid : Counts) : Counts :=
  if bid.amount ≠ 0 then
    let share := P.div l.ccg.confirmed.amount bid.amount
    { amount := l.campaign.confirmed.amount
      imps := P.mul share bid.imps
      clicks := P.mul share bid.clicks }
  else { bid with amount := l.campaign.confirmed.amount }

inductive Section where
  | account | campaign | ccg | revertCcg | revertCampaign | revertAccount
  deriving DecidableEq

/-- Where a call stands: before its first section, before one of the sections,
or finished, in one of three ways. -/
inductive Progress where
  | start
  | running (sec : Section) (l : Locals)
  | returned (result : BidResult)
  | thrown
  | aborted

structure Call where
  request : Request
  progress : Progress

def Request.fresh (q : Request) : Call := ⟨q, .start⟩

/-- What the bid names, with the default traits where a forced call finds
nothing. -/
def resolve (q : Request) : Option (Account × DeliveryLimits × DeliveryLimits) :=
  let account := q.config.bind (fun c => (c.resolveBid q.ids).account)
  let campaign := q.config.bind (fun c => (c.resolveBid q.ids).campaign)
  let ccg := q.config.bind (fun c => (c.resolveBid q.ids).ccg)
  if q.forced then
    some (account.getD (defaultForcedAccountTraits P), campaign.getD (defaultForcedEntityTraits P),
      ccg.getD (defaultForcedEntityTraits P))
  else
    match account, campaign, ccg with
    | some account, some campaign, some ccg => some (account, campaign, ccg)
    | _, _, _ => none

/-- Up to the first section: `get_config_`, `resolve_bid` and the holders. -/
def begin_ (q : Request) : Progress :=
  if !q.forced && q.config.isNone then .thrown
  else
    match resolve P q with
    | none => .returned ⟨false, q.accountBidAmount, q.bid⟩
    | some (account, campaign, ccg) =>
      .running .account
        { accountTraits := account
          campaignTraits := campaign
          ccgTraits := ccg
          account := ⟨q.accountBidAmount, 0, 0⟩
          campaign := ⟨q.bid, 0, 0⟩
          ccg := ⟨q.bid, 0, 0⟩
          res := true }

/-- The locals after a section that returned `res`, which a call that is not
forced answers by recalculating. -/
def settle (q : Request) (l : Locals) (res accountConfirmed campaignConfirmed ccgConfirmed : Bool) :
    Locals :=
  if res then l
  else
    let l :=
      if !q.forced then
        recalcRemindAmounts_ P l accountConfirmed campaignConfirmed ccgConfirmed
          q.accountBidAmount q.bid.amount
      else l
    { l with res := false }

def accountSection (s : BillingContainerState) (q : Request) (l : Locals) :
    BillingContainerState × Progress :=
  if l.account.available ≠ 0 then
    let r := confirmAccountBid_ P s.accounts l.account.available q.ids.accountId l.accountTraits
      q.ids.time q.forced
    let l := { l with account := { l.account with confirmed := r.confirmed } }
    ({ s with accounts := r.amounts },
      .running .campaign (settle P q l r.res true false false))
  else (s, .running .campaign l)

def campaignSection (s : BillingContainerState) (q : Request) (l : Locals) :
    BillingContainerState × Progress :=
  if l.campaign.available.amount ≠ 0 then
    let r := confirmBid_ P s.campaigns l.campaign.available q.ids.campaignId l.campaignTraits
      q.ids.time q.forced
    let l := { l with campaign := { l.campaign with confirmed := r.confirmed } }
    ({ s with campaigns := r.amounts }, .running .ccg (settle P q l r.res true true false))
  else (s, .running .ccg l)

def ccgSection (s : BillingContainerState) (q : Request) (l : Locals) :
    BillingContainerState × Progress :=
  if l.ccg.available.amount ≠ 0 then
    let r := confirmBid_ P s.ccgs l.ccg.available q.ids.ccgId l.ccgTraits q.ids.time q.forced
    let l := { l with ccg := { l.ccg with confirmed := r.confirmed } }
    ({ s with ccgs := r.amounts }, .running .revertCcg (settle P q l r.res true true true))
  else (s, .running .revertCcg l)

def revertCcgSection (s : BillingContainerState) (q : Request) (l : Locals) :
    BillingContainerState × Progress :=
  if l.ccg.revert.amount ≠ 0 then
    match revertConfirmedBid_ P s.ccgs q.ids.ccgId l.ccgTraits q.ids.time l.ccg.revert with
    | some amounts => ({ s with ccgs := amounts }, .running .revertCampaign l)
    | none => (s, .aborted)
  else (s, .running .revertCampaign l)

def revertCampaignSection (s : BillingContainerState) (q : Request) (l : Locals) :
    BillingContainerState × Progress :=
  if l.campaign.revert.amount ≠ 0 then
    match revertConfirmedBid_ P s.campaigns q.ids.campaignId l.campaignTraits q.ids.time
        l.campaign.revert with
    | some amounts =>
      let confirmed := { l.campaign.confirmed with
        amount := l.campaign.confirmed.amount - l.campaign.revert.amount }
      ({ s with campaigns := amounts },
        .running .revertAccount { l with campaign := { l.campaign with confirmed := confirmed } })
    | none => (s, .aborted)
  else (s, .running .revertAccount l)

/-- The remainders, once nothing is left to revert. -/
def finish (q : Request) (l : Locals) : BidResult where
  available := l.res
  accountBidAmount := q.accountBidAmount - l.account.confirmed
  bid := q.bid - confirmedCounts P l q.bid

def revertAccountSection (s : BillingContainerState) (q : Request) (l : Locals) :
    BillingContainerState × Progress :=
  if l.account.revert ≠ 0 then
    match revertAccountConfirmedBid_ P s.accounts q.ids.accountId l.accountTraits q.ids.time
        l.account.revert with
    | some amounts =>
      let l := { l with account := { l.account with
        confirmed := l.account.confirmed - l.account.revert } }
      ({ s with accounts := amounts }, .returned (finish P q l))
    | none => (s, .aborted)
  else (s, .returned (finish P q l))

/-- One section of a call. -/
def confirmBidStep (s : BillingContainerState) (call : Call) : BillingContainerState × Call :=
  let next (r : BillingContainerState × Progress) := (r.1, { call with progress := r.2 })
  match call.progress with
  | .start => next (s, begin_ P call.request)
  | .running .account l => next (accountSection P s call.request l)
  | .running .campaign l => next (campaignSection P s call.request l)
  | .running .ccg l => next (ccgSection P s call.request l)
  | .running .revertCcg l => next (revertCcgSection P s call.request l)
  | .running .revertCampaign l => next (revertCampaignSection P s call.request l)
  | .running .revertAccount l => next (revertAccountSection P s call.request l)
  | .returned _ | .thrown | .aborted => (s, call)

/-- A campaign or group with no limit but the given budget. -/
def withBudget (budget : Int) : DeliveryLimits :=
  { defaultForcedEntityTraits .floored with active := true, budget := ⟨true, budget⟩ }

/-- One account, one campaign and one group, each with id one. -/
def smallConfig (accountBudget campaignBudget ccgBudget : Int) : Config where
  accounts := SortedMap.empty.put 1 ⟨true, 0, accountBudget⟩
  campaigns := SortedMap.empty.put 1 (withBudget campaignBudget)
  ccgs := SortedMap.empty.put 1 (withBudget ccgBudget)

def smallRequest (config : Config) (accountBidAmount : Int) (bid : Counts) : Request where
  accountBidAmount := accountBidAmount
  bid := bid
  ids := ⟨0, 1, 0, 1, 1⟩
  forced := false
  config := some config

end AdServer.Billing
