import AdServer.Billing.Conservation

/-!
# Budget caps

What an unforced confirmation leaves under the limits. The check looks only at
what is recorded before the bid, and what it allows is never used, so a cap
holds for as long as every accepted bid fits in the room that was left.
-/

namespace AdServer.Billing

open AdServer.Lib Ledgers
open AdServer.Lib.Interleaving (run AllSections Holds Kept)

variable (P : Platform)

/-- The recorded amounts are within the limits, in total and on every day. -/
structure WithinLimits (limits : DeliveryLimits) (days : AmountHolder) : Prop where
  budget : limits.budget.present = true → days.total.amount ≤ limits.budget.val
  dailyBudget : limits.deliveryPacing = 'F' → limits.dailyBudget.present = true →
    ∀ date, (days.dayAmount date).amount ≤ limits.dailyBudget.val
  imps : limits.impsDec.present = true → days.total.imps ≤ limits.impsDec.val
  dailyImps : limits.dailyImpsDec.present = true →
    ∀ date, (days.dayAmount date).imps ≤ limits.dailyImpsDec.val
  clicks : limits.clicksDec.present = true → days.total.clicks ≤ limits.clicksDec.val
  dailyClicks : limits.dailyClicksDec.present = true →
    ∀ date, (days.dayAmount date).clicks ≤ limits.dailyClicksDec.val

/-- Every recorded entity that the configuration names is within its limits. -/
def AllWithin (limits : SortedMap Nat DeliveryLimits) (m : Ledgers Nat Time Counts) : Prop :=
  ∀ id lim, limits.find? id = some lim → (m.find? id).isSome → WithinLimits lim (Ledgers.days m id)

def AccountsWithin (accounts : SortedMap Nat Account) (m : Ledgers Nat Time Int) : Prop :=
  ∀ id account, accounts.find? id = some account → (m.find? id).isSome →
    Ledgers.total m id ≤ account.budget

structure CapsHold (config : Config) (s : BillingContainerState) : Prop where
  accounts : AccountsWithin config.accounts s.accounts
  campaigns : AllWithin config.campaigns s.campaigns
  ccgs : AllWithin config.ccgs s.ccgs

/-- The amount fits in the room left under every limit. -/
structure Fits (limits : DeliveryLimits) (days : AmountHolder) (date : Time) (x : Counts) : Prop where
  budget : limits.budget.present = true → x.amount ≤ limits.budget.val - days.total.amount
  dailyBudget : limits.deliveryPacing = 'F' → limits.dailyBudget.present = true →
    x.amount ≤ limits.dailyBudget.val - (days.dayAmount date).amount
  imps : limits.impsDec.present = true → x.imps ≤ limits.impsDec.val - days.total.imps
  dailyImps : limits.dailyImpsDec.present = true →
    x.imps ≤ limits.dailyImpsDec.val - (days.dayAmount date).imps
  clicks : limits.clicksDec.present = true → x.clicks ≤ limits.clicksDec.val - days.total.clicks
  dailyClicks : limits.dailyClicksDec.present = true →
    x.clicks ≤ limits.dailyClicksDec.val - (days.dayAmount date).clicks

instance (limits : DeliveryLimits) (days : AmountHolder) (date : Time) (x : Counts) :
    Decidable (Fits limits days date x) :=
  decidable_of_iff
    ((limits.budget.present = true → x.amount ≤ limits.budget.val - days.total.amount) ∧
      (limits.deliveryPacing = 'F' → limits.dailyBudget.present = true →
        x.amount ≤ limits.dailyBudget.val - (days.dayAmount date).amount) ∧
      (limits.impsDec.present = true → x.imps ≤ limits.impsDec.val - days.total.imps) ∧
      (limits.dailyImpsDec.present = true →
        x.imps ≤ limits.dailyImpsDec.val - (days.dayAmount date).imps) ∧
      (limits.clicksDec.present = true → x.clicks ≤ limits.clicksDec.val - days.total.clicks) ∧
      (limits.dailyClicksDec.present = true →
        x.clicks ≤ limits.dailyClicksDec.val - (days.dayAmount date).clicks))
    ⟨fun ⟨h1, h2, h3, h4, h5, h6⟩ => ⟨h1, h2, h3, h4, h5, h6⟩,
      fun ⟨h1, h2, h3, h4, h5, h6⟩ => ⟨h1, h2, h3, h4, h5, h6⟩⟩

/-- What the next section of a call would record, if its check passes, fits. -/
def AcceptedFits (m : Ledgers Nat Time Counts) (id : Nat) (limits : DeliveryLimits) (now : Time)
    (x : Counts) : Prop :=
  x.amount ≠ 0 → passesLimits P m id limits now (decide (x.amount > 0)) = true →
    Fits limits (Ledgers.days m id) (getDateInAdvTz P limits.timeOffset now) x

instance (m : Ledgers Nat Time Counts) (id : Nat) (limits : DeliveryLimits) (now : Time)
    (x : Counts) : Decidable (AcceptedFits P m id limits now x) :=
  inferInstanceAs (Decidable (x.amount ≠ 0 →
    passesLimits P m id limits now (decide (x.amount > 0)) = true →
      Fits limits (days m id) (getDateInAdvTz P limits.timeOffset now) x))

def SectionFits (s : BillingContainerState) (call : Call) : Prop :=
  match call.progress with
  | .running .campaign l =>
    AcceptedFits P s.campaigns call.request.ids.campaignId l.campaignTraits call.request.ids.time
      l.campaign.available
  | .running .ccg l =>
    AcceptedFits P s.ccgs call.request.ids.ccgId l.ccgTraits call.request.ids.time l.ccg.available
  | _ => True

instance : ∀ (s : BillingContainerState) (call : Call), Decidable (SectionFits P s call)
  | s, ⟨q, .running .campaign l⟩ => inferInstanceAs (Decidable (AcceptedFits P s.campaigns
      q.ids.campaignId l.campaignTraits q.ids.time l.campaign.available))
  | s, ⟨q, .running .ccg l⟩ => inferInstanceAs (Decidable (AcceptedFits P s.ccgs
      q.ids.ccgId l.ccgTraits q.ids.time l.ccg.available))
  | _, ⟨_, .running .account _⟩ | _, ⟨_, .running .revertCcg _⟩
  | _, ⟨_, .running .revertCampaign _⟩ | _, ⟨_, .running .revertAccount _⟩
  | _, ⟨_, .start⟩ | _, ⟨_, .returned _⟩ | _, ⟨_, .thrown⟩ | _, ⟨_, .aborted⟩ => isTrue trivial

/-- Unforced calls with nothing negative, under one configuration. -/
def Unforced (config : Config) (requests : List Request) : Prop :=
  ∀ q ∈ requests, q.forced = false ∧ q.config = some config ∧ 0 ≤ q.accountBidAmount ∧ q.bid.Nonneg

instance (config : Config) (requests : List Request) : Decidable (Unforced config requests) :=
  inferInstanceAs (Decidable (∀ q ∈ requests,
    q.forced = false ∧ q.config = some config ∧ 0 ≤ q.accountBidAmount ∧ q.bid.Nonneg))

section Limits

variable {limits : SortedMap Nat DeliveryLimits} {m : Ledgers Nat Time Counts} {id : Nat}
  {date : Time} {x : Counts}

variable {f : Counts → Int} {limit amount : Int} {days : AmountHolder} {lim : DeliveryLimits}

/-- One part of the counts under a daily limit. Where nothing was recorded, room
for an amount that is not negative says that the limit is not negative either. -/
theorem day_within (zero : f 0 = 0) (add : ∀ a b, f (a + b) = f a + f b)
    (before : (∀ date, f (days.dayAmount date) ≤ limit) ∨ days = SortedMap.empty)
    (room : f x ≤ limit - f (days.dayAmount date)) (nonneg : 0 ≤ f x) (date' : Time) :
    f ((days.addAmount date x).dayAmount date') ≤ limit := by
  rw [Days.dayAmount_addAmount, add]
  by_cases e : date' = date
  · subst e
    rw [if_pos rfl]
    omega
  · rw [if_neg e, zero]
    rcases before with within | rfl
    · simpa using within date'
    · rw [Days.dayAmount_empty, zero] at room ⊢
      omega

theorem total_within (add : ∀ a b, f (a + b) = f a + f b) (room : f x ≤ limit - f days.total) :
    f (days.addAmount date x).total ≤ limit := by
  rw [Days.total_addAmount, add]
  omega

theorem WithinLimits.addAmount (before : WithinLimits lim days ∨ days = SortedMap.empty)
    (room : Fits lim days date x) (nonneg : x.Nonneg) :
    WithinLimits lim (days.addAmount date x) where
  budget h := total_within Counts.add_amount (room.budget h)
  dailyBudget pacing h := day_within Counts.zero_amount Counts.add_amount
    (before.imp_left fun within => within.dailyBudget pacing h) (room.dailyBudget pacing h) nonneg.1
  imps h := total_within Counts.add_imps (room.imps h)
  dailyImps h := day_within Counts.zero_imps Counts.add_imps
    (before.imp_left fun within => within.dailyImps h) (room.dailyImps h) nonneg.2.1
  clicks h := total_within Counts.add_clicks (room.clicks h)
  dailyClicks h := day_within Counts.zero_clicks Counts.add_clicks
    (before.imp_left fun within => within.dailyClicks h) (room.dailyClicks h) nonneg.2.2

theorem WithinLimits.takeBack (before : WithinLimits lim days) (nonneg : 0 ≤ amount) :
    WithinLimits lim (days.addAmount date ⟨-amount, 0, 0⟩) := by
  constructor
  · intro h
    have := before.budget h
    simp only [Days.total_addAmount, Counts.add_amount]
    omega
  · intro pacing h date'
    have := before.dailyBudget pacing h date'
    simp only [Days.dayAmount_addAmount, Counts.add_amount]
    split
    · dsimp only
      omega
    · simpa using this
  · intro h
    simpa [Days.total_addAmount] using before.imps h
  · intro h date'
    have := before.dailyImps h date'
    simp only [Days.dayAmount_addAmount, Counts.add_imps]
    split <;> simpa using this
  · intro h
    simpa [Days.total_addAmount] using before.clicks h
  · intro h date'
    have := before.dailyClicks h date'
    simp only [Days.dayAmount_addAmount, Counts.add_clicks]
    split <;> simpa using this

theorem AllWithin.record (h : AllWithin limits m) (nonneg : x.Nonneg)
    (fits : ∀ lim, limits.find? id = some lim → Fits lim (Ledgers.days m id) date x) :
    AllWithin limits (record m id date x) := by
  intro id' lim hlim present
  by_cases e : id' = id
  · subst e
    have before : WithinLimits lim (days m id') ∨ days m id' = SortedMap.empty := by
      cases found : m.find? id' with
      | none => exact .inr (by simp [days, found])
      | some days => exact .inl (h id' lim hlim (by simp [found]))
    rw [days_record, if_pos rfl]
    exact WithinLimits.addAmount before (fits lim hlim) nonneg
  · rw [days_record, if_neg e]
    exact h id' lim hlim (by simpa [isSome_record, e] using present)

theorem AllWithin.takeBack (h : AllWithin limits m) (present : (m.find? id).isSome)
    (nonneg : 0 ≤ amount) : AllWithin limits (Ledgers.record m id date ⟨-amount, 0, 0⟩) := by
  intro id' lim hlim present'
  by_cases e : id' = id
  · subst e
    rw [days_record, if_pos rfl]
    exact (h id' lim hlim present).takeBack nonneg
  · rw [days_record, if_neg e]
    exact h id' lim hlim (by simpa [isSome_record, e] using present')

theorem AccountsWithin.record {accounts : SortedMap Nat Account} {m : Ledgers Nat Time Int}
    (h : AccountsWithin accounts m)
    (fits : ∀ account, accounts.find? id = some account →
      total m id + amount ≤ account.budget) :
    AccountsWithin accounts (record m id date amount) := by
  intro id' account haccount present
  rw [total_record]
  by_cases e : id' = id
  · subst e
    rw [if_pos rfl]
    exact fits account haccount
  · rw [if_neg e, add_zero]
    exact h id' account haccount (by simpa [isSome_record, e] using present)

end Limits

section Sections

variable {P} {config : Config} {s : BillingContainerState} {q : Request} {l : Locals}

/-- The traits a running call resolved are those of the configuration. -/
def TraitsOk (config : Config) (q : Request) : Progress → Prop
  | .running _ l =>
    config.accounts.find? q.ids.accountId = some l.accountTraits ∧
      config.campaigns.find? q.ids.campaignId = some l.campaignTraits ∧
      config.ccgs.find? q.ids.ccgId = some l.ccgTraits
  | _ => True

theorem begin_traits (unforced : q.forced = false) (bound : q.config = some config) :
    TraitsOk config q (begin_ P q) := by
  unfold begin_
  split
  · trivial
  · split
    · trivial
    · rename_i account campaign ccg h
      simp only [resolve, unforced, bound, Option.bind_some, Config.resolveBid,
        Config.resolveAccount, Bool.false_eq_true, if_false] at h
      split at h
      · rename_i h1 h2 h3
        obtain ⟨rfl, rfl, rfl⟩ : _ = account ∧ _ = campaign ∧ _ = ccg := by simpa using h
        exact ⟨h1, h2, h3⟩
      · cases h

theorem step_traits {call : Call} (unforced : call.request.forced = false)
    (bound : call.request.config = some config) (h : TraitsOk config call.request call.progress) :
    TraitsOk config call.request (confirmBidStep P s call).2.progress := by
  obtain ⟨q, progress⟩ := call
  cases progress with
  | start => exact begin_traits unforced bound
  | returned | thrown | aborted => exact h
  | running sec l =>
    cases sec with
    | account =>
      simp only [confirmBidStep, accountSection]
      split
      · simpa only [TraitsOk, settle_traits] using h
      · exact h
    | campaign =>
      simp only [confirmBidStep, campaignSection]
      split
      · simpa only [TraitsOk, settle_traits] using h
      · exact h
    | ccg =>
      simp only [confirmBidStep, ccgSection]
      split
      · simpa only [TraitsOk, settle_traits] using h
      · exact h
    | revertCcg =>
      simp only [confirmBidStep, revertCcgSection]
      split
      · split
        · exact h
        · trivial
      · exact h
    | revertCampaign =>
      simp only [confirmBidStep, revertCampaignSection]
      split
      · split
        · exact h
        · trivial
      · exact h
    | revertAccount =>
      simp only [confirmBidStep, revertAccountSection]
      split
      · split <;> trivial
      · trivial

/-- An unforced section never passes the budget of the account, and takes back only what it has
recorded. -/
theorem step_accountsWithin {call : Call} (unforced : call.request.forced = false)
    (inv : ProgressInv s call.request call.progress)
    (traits : TraitsOk config call.request call.progress)
    (h : AccountsWithin config.accounts s.accounts) :
    AccountsWithin config.accounts (confirmBidStep P s call).1.accounts := by
  have writes := confirmBidStep_writes P s call
  generalize (confirmBidStep P s call).1 = s' at writes ⊢
  cases writes with
  | nothing | campaign | ccg | revertCcg | revertCampaign => exact h
  | account _ _ room =>
    refine h.record fun account found => ?_
    obtain rfl := Option.some.inj (found.symm.trans traits.1)
    exact room unforced
  | revertAccount some_amount =>
    have nonneg := inv.account.revert_nonneg
    have le := inv.account.revert_le
    refine h.record fun account found => ?_
    have within := h _ _ found (inv.account.present (by omega))
    omega

theorem step_capsHold {call : Call} (unforced : call.request.forced = false)
    (nonneg : call.request.bid.Nonneg) (inv : ProgressInv s call.request call.progress)
    (traits : TraitsOk config call.request call.progress) (fits : SectionFits P s call)
    (h : CapsHold config s) : CapsHold config (confirmBidStep P s call).1 := by
  have accounts := step_accountsWithin (P := P) unforced inv traits h.accounts
  have writes := confirmBidStep_writes P s call
  generalize (confirmBidStep P s call).1 = s' at accounts writes ⊢
  obtain ⟨-, campaigns, ccgs⟩ := h
  cases writes with
  | nothing | account | revertAccount => exact ⟨accounts, campaigns, ccgs⟩
  | campaign some_amount accepted =>
    refine ⟨accounts, campaigns.record ?_ fun lim found => ?_, ccgs⟩
    · exact ⟨inv.available_nonneg, inv.counts.campaign_imps ▸ nonneg.2.1,
        inv.counts.campaign_clicks ▸ nonneg.2.2⟩
    · obtain rfl := Option.some.inj (found.symm.trans traits.2.1)
      exact fits some_amount (accepted.resolve_right (by simpa using unforced))
  | ccg some_amount accepted =>
    refine ⟨accounts, campaigns, ccgs.record ?_ fun lim found => ?_⟩
    · exact ⟨inv.available ▸ inv.confirmed_nonneg, inv.counts.ccg_imps ▸ nonneg.2.1,
        inv.counts.ccg_clicks ▸ nonneg.2.2⟩
    · obtain rfl := Option.some.inj (found.symm.trans traits.2.2)
      exact fits some_amount (accepted.resolve_right (by simpa using unforced))
  | revertCcg some_amount => exact absurd inv.ccg_revert some_amount
  | revertCampaign some_amount =>
    have revert_nonneg := inv.revert_nonneg
    have revert_le := inv.revert_le
    refine ⟨accounts, ?_, ccgs⟩
    rw [inv.counts.revert_imps, inv.counts.revert_clicks]
    exact campaigns.takeBack (inv.present (by omega)) revert_nonneg

end Sections

section Runs

variable {P} {config : Config} {requests : List Request}

/-- What is kept of an unforced call, with the traits it resolved. -/
def UnforcedInv (config : Config) (requests : List Request) (i : Nat) (s : BillingContainerState)
    (call : Call) : Prop :=
  CallInv requests i s call ∧ call.request ∈ requests ∧
    TraitsOk config call.request call.progress

theorem unforced_kept (unforced : Unforced config requests) :
    Kept (confirmBidStep P) (UnforcedInv config requests) where
  own := by
    rintro i s call ⟨inv, member, traits⟩
    obtain ⟨not_forced, bound, -⟩ := unforced _ member
    refine ⟨(confirmBidStep_kept P requests).own i s call inv, ?_, ?_⟩
    · rwa [confirmBidStep_request]
    · rw [confirmBidStep_request]
      exact step_traits not_forced bound traits
  other := by
    rintro i j s call other ⟨inv, member, traits⟩ ⟨inv', -⟩
    exact ⟨(confirmBidStep_kept P requests).other i j s call other inv inv', member, traits⟩

theorem unforced_holds (unforced : Unforced config requests) (s : BillingContainerState) :
    Holds (UnforcedInv config requests) (calls s requests) := by
  intro i call h
  have inv := calls_holds s requests (fun q hq => ⟨(unforced q hq).2.2.1, (unforced q hq).2.2.2.1⟩)
    i call h
  refine ⟨inv, List.mem_of_getElem? inv.1, ?_⟩
  simp only [calls, List.getElem?_map, Option.map_eq_some_iff] at h
  obtain ⟨q, -, rfl⟩ := h
  trivial

theorem empty_capsHold (config : Config) : CapsHold config .empty := by
  refine ⟨?_, ?_, ?_⟩
  · intro _ _ _ present
    cases present
  · intro _ _ _ present
    cases present
  · intro _ _ _ present
    cases present

/-- The account budget is kept whatever the bids are. -/
theorem accounts_within (unforced : Unforced config requests) (schedule : List Nat) :
    AccountsWithin config.accounts
      (run (confirmBidStep P) (calls .empty requests) schedule).1.accounts := by
  have keeps : ∀ i s call, UnforcedInv config requests i s call → True →
      AccountsWithin config.accounts s.accounts →
        AccountsWithin config.accounts (confirmBidStep P s call).1.accounts := by
    rintro i s call ⟨inv, member, traits⟩ - h
    exact step_accountsWithin (unforced _ member).1 inv.2.2 traits h
  exact Interleaving.run_shared_inv (unforced_kept unforced) keeps (unforced_holds unforced .empty)
    (empty_capsHold config).accounts schedule
    (Interleaving.allSections_of_forall (fun _ _ => trivial) _ _)

/-- Two bids of six on an account of ten, side by side. -/
theorem accounts_within_ten :
    let config := smallConfig 10 100 100
    AccountsWithin config.accounts (run (confirmBidStep .floored) (calls .empty
      [smallRequest config 6 ⟨6, 0, 0⟩, smallRequest config 6 ⟨6, 0, 0⟩])
        [0, 1, 0, 1]).1.accounts :=
  accounts_within (by decide) _

/-- A bid of fifteen on a campaign of ten is recorded whole. -/
theorem budget_exceeded :
    ¬ ∀ (P : Platform) (config : Config) (requests : List Request) (schedule : List Nat),
      Unforced config requests →
        CapsHold config (run (confirmBidStep P) (calls .empty requests) schedule).1 := by
  intro always
  have caps := always .floored (smallConfig 100 10 100) [smallRequest (smallConfig 100 10 100) 15
    ⟨15, 0, 0⟩] (List.replicate 7 0) (by decide)
  have within := caps.campaigns 1 (withBudget 10) (by decide) (by decide +kernel)
  have le := within.budget rfl
  have total : (days (run (confirmBidStep .floored) (calls .empty
      [smallRequest (smallConfig 100 10 100) 15 ⟨15, 0, 0⟩]) (List.replicate 7 0)).1.campaigns
        1).total.amount = 15 := by decide +kernel
  rw [total] at le
  exact absurd le (by decide)

/-- In a run from the empty state whose sections all record what fits, every cap
holds at every moment. -/
theorem caps_hold_of_fits (P : Platform) (config : Config) (requests : List Request)
    (unforced : Unforced config requests) (schedule : List Nat)
    (fits : AllSections (confirmBidStep P) (SectionFits P) (calls .empty requests) schedule) :
    ∀ taken rest, taken ++ rest = schedule →
      CapsHold config (run (confirmBidStep P) (calls .empty requests) taken).1 := by
  rintro taken rest rfl
  refine Interleaving.run_shared_inv (unforced_kept unforced) ?_ (unforced_holds unforced .empty)
    (empty_capsHold config) taken (Interleaving.allSections_prefix fits)
  rintro i s call ⟨inv, member, traits⟩ fits caps
  obtain ⟨not_forced, -, -, nonneg⟩ := unforced _ member
  exact step_capsHold not_forced nonneg inv.2.2 traits fits caps

/-- Bids of ten and five on a campaign of fifteen, interleaved. -/
theorem fifteen_within_fifteen :
    let config := smallConfig 100 15 100
    let requests := [smallRequest config 10 ⟨10, 0, 0⟩, smallRequest config 5 ⟨5, 0, 0⟩]
    let schedule := [0, 1, 0, 1, 1, 0, 1, 0, 0, 1, 0, 1, 0, 1]
    CapsHold config (run (confirmBidStep .floored) (calls .empty requests) schedule).1 := by
  intro config requests schedule
  exact caps_hold_of_fits .floored config requests (by decide) schedule (by decide +kernel) schedule
    [] (by decide)

end Runs

end AdServer.Billing
