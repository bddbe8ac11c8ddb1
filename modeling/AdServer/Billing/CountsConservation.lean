import AdServer.Billing.Conservation

/-!
# Conservation of impressions and clicks

One call of `confirm_bid`, run alone. Impressions and clicks are recorded whole
by every section that accepts and never taken back, while what is handed back
is scaled by the share of the creative group.
-/

namespace AdServer.Billing

open AdServer.Lib
open AdServer.Lib.Interleaving (World run)

variable (P : Platform)

/-- One call with nothing in between. -/
def alone (s : BillingContainerState) (q : Request) : World BillingContainerState Call :=
  run (confirmBidStep P) (calls s [q]) (List.replicate 7 0)

/-- The totals of the bid's campaign and creative group grow by the impressions
and clicks that are not handed back. -/
def CountsConserved (s : BillingContainerState) (q : Request) : Prop :=
  ∀ r, resultOf (alone P s q) 0 = some r →
    let grown (before after : Ledgers Nat Time Counts) (id : Nat) :=
      (Ledgers.total after id).imps - (Ledgers.total before id).imps = q.bid.imps - r.bid.imps ∧
      (Ledgers.total after id).clicks - (Ledgers.total before id).clicks =
        q.bid.clicks - r.bid.clicks
    grown s.campaigns (alone P s q).1.campaigns q.ids.campaignId ∧
      grown s.ccgs (alone P s q).1.ccgs q.ids.ccgId

/-- The room left under the budget of an account. -/
def accountRoom (s : BillingContainerState) (q : Request) (traits : Account) : Int :=
  traits.budget - Ledgers.total s.accounts q.ids.accountId

/-- The account takes its whole amount, or has nothing to take. -/
def GrantsAll (s : BillingContainerState) (q : Request) (traits : Account) : Prop :=
  q.accountBidAmount = 0 ∨ q.forced = true ∨ q.accountBidAmount ≤ accountRoom s q traits

instance (s : BillingContainerState) (q : Request) (traits : Account) :
    Decidable (GrantsAll s q traits) :=
  inferInstanceAs (Decidable (q.accountBidAmount = 0 ∨ q.forced = true ∨
    q.accountBidAmount ≤ accountRoom s q traits))

/-- The account has no room, or room for a share that rounds the bid to nothing. -/
def GrantsNothing (s : BillingContainerState) (q : Request) (traits : Account) : Prop :=
  ¬ GrantsAll s q traits ∧ (accountRoom s q traits ≤ 0 ∨
    P.mul (P.div (accountRoom s q traits) q.accountBidAmount) q.bid.amount = 0)

/-- A campaign or a group takes what it is offered. -/
def Takes (m : Ledgers Nat Time Counts) (id : Nat) (limits : DeliveryLimits) (q : Request) : Prop :=
  q.forced = true ∨ passesLimits P m id limits q.ids.time true = true

instance (m : Ledgers Nat Time Counts) (id : Nat) (limits : DeliveryLimits) (q : Request) :
    Decidable (Takes P m id limits q) :=
  inferInstanceAs (Decidable (q.forced = true ∨
    passesLimits P m id limits q.ids.time true = true))

/-- The calls whose impressions and clicks are conserved. -/
def CountsSafe (s : BillingContainerState) (q : Request) : Prop :=
  (q.bid.imps = 0 ∧ q.bid.clicks = 0) ∨
    match resolve P q with
    | none => True
    | some (account, campaign, ccg) =>
      q.bid.amount ≠ 0 ∧
        (GrantsNothing P s q account ∨ ¬ Takes P s.campaigns q.ids.campaignId campaign q ∨
          GrantsAll s q account ∧ Takes P s.ccgs q.ids.ccgId ccg q)

section Call

variable {P} {s₀ s : BillingContainerState} {q : Request} {l : Locals}

/-- What the account section leaves of the bid amount. -/
def granted (P : Platform) (s : BillingContainerState) (q : Request) (traits : Account) : Int :=
  if GrantsAll s q traits then q.bid.amount
  else if accountRoom s q traits ≤ 0 then 0
  else P.mul (P.div (accountRoom s q traits) q.accountBidAmount) q.bid.amount

theorem granted_eq_zero_iff (P : Platform) (s : BillingContainerState) (q : Request)
    (traits : Account) :
    granted P s q traits = 0 ↔
      GrantsNothing P s q traits ∨ GrantsAll s q traits ∧ q.bid.amount = 0 := by
  unfold granted GrantsNothing
  by_cases all : GrantsAll s q traits
  · simp [all]
  · by_cases room : accountRoom s q traits ≤ 0 <;> simp [all, room]

variable {traits : Account} {m m' : Ledgers Nat Time Counts} {id : Nat} {date : Time} {x : Counts}
  {taken : Prop}

/-- The whole bid is left only when the account grants all of its amount: any
smaller share, rounded down, takes something off. -/
theorem granted_eq_iff (nonneg : q.Nonneg) (some_bid : q.bid.amount ≠ 0) :
    granted P s q traits = q.bid.amount ↔ GrantsAll s q traits := by
  obtain ⟨hA, hB⟩ := nonneg
  unfold granted
  by_cases all : GrantsAll s q traits
  · simp [all]
  · simp only [all, if_false, iff_false]
    split
    · exact some_bid.symm
    · rename_i room
      have cut : accountRoom s q traits < q.accountBidAmount := by
        by_contra h
        exact all (.inr (.inr (not_lt.1 h)))
      have positive : 0 < q.accountBidAmount := by omega
      have share_nonneg := P.div_nonneg (not_le.1 room).le positive
      have share_lt : P.div (accountRoom s q traits) q.accountBidAmount < P.one := by
        rw [← not_le, P.one_le_div_iff (not_le.1 room).le positive]
        omega
      rw [P.mul_eq_right_iff share_nonneg hB share_lt.le]
      rintro (whole | none)
      · omega
      · exact some_bid none

/-- The campaign records the bid. -/
def CampaignTakes (P : Platform) (s : BillingContainerState) (q : Request) (account : Account)
    (campaign : DeliveryLimits) : Prop :=
  granted P s q account ≠ 0 ∧ Takes P s.campaigns q.ids.campaignId campaign q

/-- The creative group records the bid. -/
def CcgTakes (P : Platform) (s : BillingContainerState) (q : Request) (account : Account)
    (campaign ccg : DeliveryLimits) : Prop :=
  CampaignTakes P s q account campaign ∧ Takes P s.ccgs q.ids.ccgId ccg q

instance (account : Account) (campaign : DeliveryLimits) :
    Decidable (CampaignTakes P s q account campaign) :=
  inferInstanceAs (Decidable (_ ∧ _))

instance (account : Account) (campaign ccg : DeliveryLimits) :
    Decidable (CcgTakes P s q account campaign ccg) :=
  inferInstanceAs (Decidable (_ ∧ _))

/-- The impressions and clicks of one entity have grown by the request's, or not
at all. -/
def Grown (before after : Ledgers Nat Time Counts) (id : Nat) (q : Request) (taken : Prop)
    [Decidable taken] : Prop :=
  (Ledgers.total after id).imps =
      (Ledgers.total before id).imps + (if taken then q.bid.imps else 0) ∧
    (Ledgers.total after id).clicks =
      (Ledgers.total before id).clicks + (if taken then q.bid.clicks else 0)

theorem grown_record [Decidable taken] (h : taken) (imps : x.imps = q.bid.imps)
    (clicks : x.clicks = q.bid.clicks) : Grown m (Ledgers.record m id date x) id q taken := by
  constructor <;> simp [Ledgers.total_record, h, imps, clicks]

theorem grown_same [Decidable taken] (h : ¬ taken) : Grown m m id q taken := by
  constructor <;> simp [h]

theorem Grown.takeBack {amount : Int} [Decidable taken] (h : Grown m m' id q taken) :
    Grown m (Ledgers.record m' id date ⟨amount, 0, 0⟩) id q taken := by
  obtain ⟨imps, clicks⟩ := h
  constructor <;> simp [Ledgers.total_record, imps, clicks]

/-- The share of impressions or of clicks that is not handed back. -/
def keptShare (P : Platform) (q : Request) (ccgConfirmed count : Int) : Int :=
  if q.bid.amount ≠ 0 then P.mul (P.div ccgConfirmed q.bid.amount) count else count

/-- What a call alone has recorded and will hand back, by where it stands. -/
def CountsInv (P : Platform) (s₀ : BillingContainerState) (q : Request) (s : BillingContainerState) :
    Progress → Prop
  | .start => s = s₀
  | .running .account l =>
    resolve P q = some (l.accountTraits, l.campaignTraits, l.ccgTraits) ∧ s = s₀
  | .running .campaign l =>
    resolve P q = some (l.accountTraits, l.campaignTraits, l.ccgTraits) ∧
      s.campaigns = s₀.campaigns ∧ s.ccgs = s₀.ccgs ∧
      l.campaign.available.amount = granted P s₀ q l.accountTraits
  | .running .ccg l =>
    resolve P q = some (l.accountTraits, l.campaignTraits, l.ccgTraits) ∧
      Grown s₀.campaigns s.campaigns q.ids.campaignId q
        (CampaignTakes P s₀ q l.accountTraits l.campaignTraits) ∧ s.ccgs = s₀.ccgs ∧
      l.ccg.available.amount =
        if CampaignTakes P s₀ q l.accountTraits l.campaignTraits then granted P s₀ q l.accountTraits
        else 0
  | .running .revertCcg l | .running .revertCampaign l | .running .revertAccount l =>
    resolve P q = some (l.accountTraits, l.campaignTraits, l.ccgTraits) ∧
      Grown s₀.campaigns s.campaigns q.ids.campaignId q
        (CampaignTakes P s₀ q l.accountTraits l.campaignTraits) ∧
      Grown s₀.ccgs s.ccgs q.ids.ccgId q
        (CcgTakes P s₀ q l.accountTraits l.campaignTraits l.ccgTraits) ∧
      l.ccg.confirmed.amount =
        if CcgTakes P s₀ q l.accountTraits l.campaignTraits l.ccgTraits then
          granted P s₀ q l.accountTraits
        else 0
  | .returned r =>
    match resolve P q with
    | none => s = s₀ ∧ r.bid = q.bid
    | some (account, campaign, ccg) =>
      let confirmed := if CcgTakes P s₀ q account campaign ccg then granted P s₀ q account else 0
      Grown s₀.campaigns s.campaigns q.ids.campaignId q (CampaignTakes P s₀ q account campaign) ∧
        Grown s₀.ccgs s.ccgs q.ids.ccgId q (CcgTakes P s₀ q account campaign ccg) ∧
        r.bid.imps = q.bid.imps - keptShare P q confirmed q.bid.imps ∧
        r.bid.clicks = q.bid.clicks - keptShare P q confirmed q.bid.clicks
  | .thrown => resolve P q = none
  | .aborted => True

theorem granted_bounds (traits : Account) (nonneg : q.Nonneg) :
    0 ≤ granted P s q traits ∧ granted P s q traits ≤ q.bid.amount := by
  obtain ⟨hA, hB⟩ := nonneg
  unfold granted
  split
  · exact ⟨hB, le_rfl⟩
  · rename_i not_all
    split
    · exact ⟨le_rfl, hB⟩
    · rename_i room
      have cut : accountRoom s q traits < q.accountBidAmount := by
        by_contra h
        exact not_all (.inr (.inr (not_lt.1 h)))
      have positive : 0 < q.accountBidAmount := by omega
      have share_nonneg := P.div_nonneg (not_le.1 room).le positive
      have share_le : P.div (accountRoom s q traits) q.accountBidAmount ≤ P.one := by
        by_contra h
        have := (P.one_le_div_iff (not_le.1 room).le positive).1 (not_le.1 h).le
        omega
      exact ⟨P.mul_nonneg share_nonneg hB, P.mul_le_right share_nonneg hB share_le⟩

theorem granted_all (h : GrantsAll s q traits) :
    granted P s q traits = q.bid.amount := if_pos h

theorem account_granted (nonneg : q.Nonneg) (h : ProgressInv s q (.running .account l))
    (resolved : resolve P q = some (l.accountTraits, l.campaignTraits, l.ccgTraits)) :
    CountsInv P s q (accountSection P s q l).1 (accountSection P s q l).2 := by
  obtain ⟨hA, hB⟩ := nonneg
  obtain ⟨haccount, hcampaign, hccg, -⟩ := h
  unfold accountSection
  rw [haccount]
  by_cases zero : q.accountBidAmount = 0
  · rw [if_neg (by simpa using zero)]
    refine ⟨resolved, rfl, rfl, ?_⟩
    rw [granted_all (.inl zero), hcampaign]
  · have positive : 0 < q.accountBidAmount := by omega
    rw [if_pos (by simpa using zero)]
    dsimp only
    have hroom : accountRoom s q l.accountTraits =
      l.accountTraits.budget - Ledgers.total s.accounts q.ids.accountId := rfl
    obtain ⟨whole, e⟩ | ⟨⟨unforced, room, cut⟩, e⟩ | ⟨⟨unforced, room⟩, e⟩ :=
      confirmAccountBid_outcome P s.accounts q.accountBidAmount q.ids.accountId l.accountTraits
        q.ids.time q.forced
    · rw [e]
      dsimp only
      rw [settle_accepted (whole.symm.imp (fun h => by simpa using h.1) id)]
      refine ⟨resolved, rfl, rfl, ?_⟩
      rw [granted_all (.inr (whole.imp_right fun h => by rw [hroom]; exact h.2.le)), hcampaign]
    · rw [e]
      dsimp only
      rw [← hroom] at room cut ⊢
      have settled := settle_account (P := P) (l := { l with account :=
        ⟨q.accountBidAmount, accountRoom s q l.accountTraits, 0⟩ }) unforced positive hcampaign hccg rfl
      rw [settled]
      refine ⟨resolved, rfl, rfl, ?_⟩
      dsimp only
      by_cases same : q.accountBidAmount ≤ accountRoom s q l.accountTraits
      · have whole_share := (P.one_le_div_iff room.le positive).2 same
        rw [granted_all (.inr (.inr same)), accountShare, min_eq_left whole_share,
          P.mul_one_left hB]
      · have part_share : P.div (accountRoom s q l.accountTraits) q.accountBidAmount ≤ P.one := by
          by_contra h
          exact same ((P.one_le_div_iff room.le positive).1 (not_le.1 h).le)
        have not_all : ¬ GrantsAll s q l.accountTraits := by
          simp [GrantsAll, zero, unforced, same]
        rw [granted, if_neg not_all, if_neg (not_le.2 room), accountShare, min_eq_right part_share]
    · rw [e]
      dsimp only
      rw [← hroom] at room
      have settled := settle_account (P := P) (l := { l with account := ⟨q.accountBidAmount, 0, 0⟩ })
        unforced positive hcampaign hccg rfl
      have no_share : accountShare P 0 q.accountBidAmount = 0 := by
        simp [accountShare, P.zero_div positive, P.one_pos.le]
      have not_all : ¬ GrantsAll s q l.accountTraits := by
        have below : ¬ q.accountBidAmount ≤ accountRoom s q l.accountTraits := by omega
        simp [GrantsAll, zero, unforced, below]
      rw [settled]
      refine ⟨resolved, rfl, rfl, ?_⟩
      rw [granted, if_neg not_all, if_pos room, no_share]
      exact P.mul_zero_left hB

/-- A campaign or group section takes what it is offered, whole, or leaves the
recorded impressions and clicks alone. -/
theorem confirmBid_grown (m : Ledgers Nat Time Counts) (id : Nat) (lim : DeliveryLimits)
    (positive : 0 < x.amount) (imps : x.imps = q.bid.imps) (clicks : x.clicks = q.bid.clicks) :
    let r := confirmBid_ P m x id lim q.ids.time q.forced
    Grown m r.amounts id q (Takes P m id lim q) ∧
      (Takes P m id lim q ∧ r.confirmed = x ∧ (r.res = true ∨ q.forced = true) ∨
        ¬ Takes P m id lim q ∧ r.confirmed = 0 ∧ r.res = false ∧ q.forced = false) := by
  intro r
  have hr : r = confirmBid_ P m x id lim q.ids.time q.forced := rfl
  obtain ⟨accepted, e⟩ | ⟨⟨refused, unforced⟩, e⟩ :=
    confirmBid_outcome P m x id lim q.ids.time q.forced
  · rw [decide_eq_true positive] at accepted e
    rw [hr, e]
    exact ⟨grown_record accepted.symm imps clicks, .inl ⟨accepted.symm, rfl, accepted⟩⟩
  · rw [decide_eq_true positive] at refused
    have not_taken : ¬ Takes P m id lim q := by simp [Takes, refused, unforced]
    rw [hr, e]
    exact ⟨grown_same not_taken, .inr ⟨not_taken, rfl, rfl, unforced⟩⟩

theorem Grown.congr {taken taken' : Prop} [Decidable taken] [Decidable taken']
    (iff : taken ↔ taken') (h : Grown m m' id q taken) : Grown m m' id q taken' := by
  obtain ⟨imps, clicks⟩ := h
  exact ⟨by simpa only [iff] using imps, by simpa only [iff] using clicks⟩

theorem campaign_counts (nonneg : q.Nonneg) (inv : BeforeCampaign s q l)
    (h : CountsInv P s₀ q s (.running .campaign l)) :
    CountsInv P s₀ q (campaignSection P s q l).1 (campaignSection P s q l).2 := by
  obtain ⟨resolved, campaigns, ccgs, available⟩ := h
  unfold campaignSection
  by_cases zero : l.campaign.available.amount = 0
  · have not_taken : ¬ CampaignTakes P s₀ q l.accountTraits l.campaignTraits :=
      fun taken => taken.1 (available ▸ zero)
    rw [if_neg (by simpa using zero)]
    refine ⟨resolved, ?_, ccgs, ?_⟩
    · rw [campaigns]
      exact grown_same not_taken
    · rw [if_neg not_taken, inv.same_available, zero]
  · have positive : 0 < l.campaign.available.amount := by
      have := inv.available_nonneg
      omega
    rw [if_pos (by simpa using zero)]
    dsimp only
    have taken_iff : Takes P s.campaigns q.ids.campaignId l.campaignTraits q ↔
        CampaignTakes P s₀ q l.accountTraits l.campaignTraits := by
      rw [CampaignTakes, ← available, campaigns]
      exact (and_iff_right zero).symm
    obtain ⟨grown, outcome⟩ := confirmBid_grown (P := P) s.campaigns q.ids.campaignId
      l.campaignTraits positive inv.counts.campaign_imps inv.counts.campaign_clicks
    have grown' := grown.congr taken_iff
    rw [campaigns] at grown'
    rcases outcome with ⟨taken, confirmed, accepted⟩ | ⟨refused, confirmed, res, unforced⟩
    · rw [settle_accepted accepted]
      refine ⟨resolved, campaigns ▸ grown', ccgs, ?_⟩
      rw [if_pos (taken_iff.1 taken), ← available]
      exact inv.same_available
    · rw [confirmed, res,
        settle_campaign unforced nonneg.1 (positive.trans_le inv.available_le) inv]
      refine ⟨resolved, campaigns ▸ grown', ccgs, ?_⟩
      rw [if_neg (mt taken_iff.2 refused)]

theorem ccg_counts (nonneg : q.Nonneg) (inv : BeforeCcg s q l)
    (h : CountsInv P s₀ q s (.running .ccg l)) :
    CountsInv P s₀ q (ccgSection P s q l).1 (ccgSection P s q l).2 := by
  obtain ⟨resolved, campaigns, ccgs, available⟩ := h
  have confirmed_zero : l.ccg.confirmed.amount = 0 := by simp [inv.ccg_confirmed]
  unfold ccgSection
  by_cases zero : l.ccg.available.amount = 0
  · have not_taken : ¬ CcgTakes P s₀ q l.accountTraits l.campaignTraits l.ccgTraits := by
      rintro ⟨taken, -⟩
      rw [if_pos taken] at available
      exact taken.1 (available ▸ zero)
    rw [if_neg (by simpa using zero)]
    refine ⟨resolved, campaigns, ?_, ?_⟩
    · rw [ccgs]
      exact grown_same not_taken
    · rw [if_neg not_taken, confirmed_zero]
  · have taken_before : CampaignTakes P s₀ q l.accountTraits l.campaignTraits := by
      by_contra h
      exact zero (by rw [available, if_neg h])
    have positive : 0 < l.ccg.available.amount := by
      have := inv.available
      have := inv.confirmed_nonneg
      omega
    rw [if_pos taken_before] at available
    rw [if_pos (by simpa using zero)]
    dsimp only
    have taken_iff : Takes P s.ccgs q.ids.ccgId l.ccgTraits q ↔
        CcgTakes P s₀ q l.accountTraits l.campaignTraits l.ccgTraits := by
      rw [CcgTakes, ccgs]
      exact (and_iff_right taken_before).symm
    obtain ⟨grown, outcome⟩ := confirmBid_grown (P := P) s.ccgs q.ids.ccgId l.ccgTraits
      positive inv.counts.ccg_imps inv.counts.ccg_clicks
    have grown' := grown.congr taken_iff
    rw [ccgs] at grown'
    rcases outcome with ⟨taken, confirmed, accepted⟩ | ⟨refused, confirmed, res, unforced⟩
    · rw [settle_accepted accepted, confirmed]
      refine ⟨resolved, campaigns, ccgs ▸ grown', ?_⟩
      rw [if_pos (taken_iff.1 taken), ← available]
    · have offered := positive.trans_le (inv.available.le.trans inv.confirmed_le)
      rw [confirmed, res, settle_ccg unforced nonneg.1 offered inv]
      refine ⟨resolved, campaigns, ccgs ▸ grown', ?_⟩
      rw [if_neg (mt taken_iff.2 refused)]
      rfl

theorem revertCcg_counts (inv : BeforeRevert s q l)
    (h : CountsInv P s₀ q s (.running .revertCcg l)) :
    CountsInv P s₀ q (revertCcgSection P s q l).1 (revertCcgSection P s q l).2 := by
  unfold revertCcgSection
  rw [if_neg (by simpa using inv.ccg_revert)]
  exact h

theorem revertCampaign_counts (inv : BeforeRevert s q l)
    (h : CountsInv P s₀ q s (.running .revertCampaign l)) :
    CountsInv P s₀ q (revertCampaignSection P s q l).1 (revertCampaignSection P s q l).2 := by
  unfold revertCampaignSection
  split
  · split
    · rename_i amounts found
      obtain ⟨resolved, campaigns, ccgs, confirmed⟩ := h
      refine ⟨resolved, ?_, ccgs, confirmed⟩
      rw [revertInto_writes found, inv.counts.revert_imps, inv.counts.revert_clicks]
      exact campaigns.takeBack
    · trivial
  · exact h

theorem finish_counts {l' : Locals} (ccg : l'.ccg = l.ccg)
    (h : CountsInv P s₀ q s (.running .revertAccount l)) :
    CountsInv P s₀ q s (.returned (finish P q l')) := by
  obtain ⟨resolved, campaigns, ccgs, confirmed⟩ := h
  simp only [CountsInv, resolved]
  refine ⟨campaigns, ccgs, ?_, ?_⟩
  · simp only [finish, confirmedCounts, keptShare, Counts.sub_imps, ccg, confirmed]
    split <;> rfl
  · simp only [finish, confirmedCounts, keptShare, Counts.sub_clicks, ccg, confirmed]
    split <;> rfl

theorem revertAccount_counts (h : CountsInv P s₀ q s (.running .revertAccount l)) :
    CountsInv P s₀ q (revertAccountSection P s q l).1 (revertAccountSection P s q l).2 := by
  unfold revertAccountSection
  split
  · split
    · exact finish_counts rfl h
    · trivial
  · exact finish_counts rfl h

theorem begin_counts (h : s = s₀) : CountsInv P s₀ q s (begin_ P q) := by
  unfold begin_
  split
  · rename_i unbound
    simp only [Bool.and_eq_true, Bool.not_eq_true', Option.isNone_iff_eq_none] at unbound
    simp [CountsInv, resolve, unbound.1, unbound.2]
  · split
    · rename_i missing
      simp only [CountsInv, missing]
      exact ⟨h, trivial⟩
    · rename_i resolved
      exact ⟨resolved, h⟩

theorem step_counts {call : Call} (nonneg : call.request.Nonneg)
    (inv : ProgressInv s call.request call.progress)
    (h : CountsInv P s₀ call.request s call.progress) :
    CountsInv P s₀ call.request (confirmBidStep P s call).1 (confirmBidStep P s call).2.progress := by
  obtain ⟨q, progress⟩ := call
  cases progress with
  | start => exact begin_counts h
  | returned | thrown | aborted => exact h
  | running sec l =>
    cases sec with
    | account =>
      obtain ⟨resolved, rfl⟩ := h
      exact account_granted nonneg inv resolved
    | campaign => exact campaign_counts nonneg inv h
    | ccg => exact ccg_counts nonneg inv h
    | revertCcg => exact revertCcg_counts inv h
    | revertCampaign => exact revertCampaign_counts inv h
    | revertAccount => exact revertAccount_counts h

/-- When one count is conserved: the count is nothing, or nobody takes it and it
is handed back, or everybody takes it and none is handed back. -/
theorem keptShare_iff (nonneg : q.Nonneg) {count : Int} (hcount : 0 ≤ count) (account : Account)
    (campaign ccg : DeliveryLimits) :
    let kept := keptShare P q
      (if CcgTakes P s q account campaign ccg then granted P s q account else 0) count
    ((if CampaignTakes P s q account campaign then count else 0) = kept ∧
        (if CcgTakes P s q account campaign ccg then count else 0) = kept) ↔
      count = 0 ∨ q.bid.amount ≠ 0 ∧
        (GrantsNothing P s q account ∨ ¬ Takes P s.campaigns q.ids.campaignId campaign q ∨
          GrantsAll s q account ∧ Takes P s.ccgs q.ids.ccgId ccg q) := by
  intro kept
  obtain ⟨granted_nonneg, granted_le⟩ := granted_bounds (P := P) (s := s) account nonneg
  have nothing := granted_eq_zero_iff P s q account
  by_cases no_bid : q.bid.amount = 0
  · have zero : granted P s q account = 0 := by omega
    have kept_all : kept = count := by simp [kept, keptShare, no_bid]
    have not_campaign : ¬ CampaignTakes P s q account campaign := fun h => h.1 zero
    have not_ccg : ¬ CcgTakes P s q account campaign ccg := fun h => not_campaign h.1
    rw [kept_all, if_neg not_campaign, if_neg not_ccg]
    simp [no_bid, eq_comm]
  · have positive : 0 < q.bid.amount := lt_of_le_of_ne nonneg.2 (Ne.symm no_bid)
    have nobody (not_ccg : ¬ CcgTakes P s q account campaign ccg) : kept = 0 := by
      simp [kept, keptShare, not_ccg, no_bid, P.zero_div positive, P.mul_zero_left hcount]
    simp only [no_bid, and_false, or_false] at nothing
    by_cases taken : CampaignTakes P s q account campaign
    · have not_nothing : ¬ GrantsNothing P s q account := mt nothing.2 taken.1
      by_cases taken' : CcgTakes P s q account campaign ccg
      · have kept_share : kept = P.mul (P.div (granted P s q account) q.bid.amount) count := by
          simp [kept, keptShare, taken', no_bid]
        have share_le : P.div (granted P s q account) q.bid.amount ≤ P.one := by
          by_contra h
          have bound := (P.div_floor granted_nonneg positive).1
          have := Int.mul_lt_mul_of_pos_right (not_le.1 h) positive
          have := Int.mul_le_mul_of_nonneg_right granted_le P.one_pos.le
          rw [mul_comm q.bid.amount] at this
          omega
        have share_one : P.div (granted P s q account) q.bid.amount = P.one ↔
            GrantsAll s q account := by
          rw [← granted_eq_iff (P := P) nonneg no_bid]
          constructor
          · intro h
            exact le_antisymm granted_le ((P.one_le_div_iff granted_nonneg positive).1 h.ge)
          · intro h
            exact le_antisymm share_le ((P.one_le_div_iff granted_nonneg positive).2 h.ge)
        rw [if_pos taken, if_pos taken', kept_share, and_self, eq_comm,
          P.mul_eq_right_iff (P.div_nonneg granted_nonneg positive) hcount share_le, share_one]
        simp [not_nothing, taken.2, taken'.2, no_bid, or_comm]
      · have refused : ¬ Takes P s.ccgs q.ids.ccgId ccg q := fun h => taken' ⟨taken, h⟩
        rw [nobody taken', if_pos taken, if_neg taken']
        simp [not_nothing, taken.2, refused]
    · have not_ccg : ¬ CcgTakes P s q account campaign ccg := fun h => taken h.1
      have why : GrantsNothing P s q account ∨
          ¬ Takes P s.campaigns q.ids.campaignId campaign q := by
        by_cases zero : granted P s q account = 0
        · exact .inl (nothing.1 zero)
        · exact .inr fun h => taken ⟨zero, h⟩
      rw [nobody not_ccg, if_neg taken, if_neg not_ccg]
      simp only [and_self, true_iff]
      exact .inr ⟨no_bid, why.imp_right .inl⟩

end Call

section Alone

variable {P} {s : BillingContainerState} {q : Request}

theorem alone_world (P : Platform) (s : BillingContainerState) (q : Request) (nonneg : q.Nonneg) :
    ∃ s' call, alone P s q = (s', [call]) ∧ call.request = q ∧ CountsInv P s q s' call.progress := by
  have own : ∀ s' call, (call.request = q ∧ ProgressInv s' q call.progress ∧
      CountsInv P s q s' call.progress) →
      (confirmBidStep P s' call).2.request = q ∧
        ProgressInv (confirmBidStep P s' call).1 q (confirmBidStep P s' call).2.progress ∧
        CountsInv P s q (confirmBidStep P s' call).1 (confirmBidStep P s' call).2.progress := by
    rintro s' call ⟨rfl, inv, counts⟩
    exact ⟨confirmBidStep_request P s' call, (step_sectionOk P s' call nonneg inv).inv,
      step_counts nonneg inv counts⟩
  obtain ⟨s', call, e, request, -, counts⟩ :=
    Interleaving.run_alone own (p := q.fresh) (s := s) ⟨rfl, trivial, rfl⟩ 7
  exact ⟨s', call, e, request, counts⟩

/-- What a call alone has recorded, and hands back, when it is over. -/
theorem confirmBid_counts (nonneg : q.Nonneg) {r : BidResult}
    (h : resultOf (alone P s q) 0 = some r) :
    CountsInv P s q (alone P s q).1 (.returned r) := by
  obtain ⟨s', call, world, -, counts⟩ := alone_world P s q nonneg
  rw [world] at h ⊢
  obtain ⟨call', mine, returned⟩ := resultOf_eq_some.1 h
  obtain rfl : call = call' := by simpa using mine
  rwa [returned] at counts

theorem alone_returns (nonneg : q.Nonneg) (resolved : (resolve P q).isSome) :
    ∃ r, resultOf (alone P s q) 0 = some r := by
  obtain ⟨s', call, world, -, counts⟩ := alone_world P s q nonneg
  have here : (run (confirmBidStep P) (calls s [q]) (List.replicate 7 0)).2[0]? = some call := by
    have := congrArg (fun w => w.2[0]?) world
    simpa [alone] using this
  rcases confirmBid_finishes (by simpa using nonneg) here (by simp) with ⟨r, returned⟩ | thrown
  · exact ⟨r, resultOf_eq_some.2 ⟨call, here, returned⟩⟩
  · rw [thrown] at counts
    simp [show resolve P q = none from counts] at resolved

/-- A call alone conserves impressions and clicks exactly when it has none, or
names something unknown, or has an amount that nobody confirms or everybody
confirms whole. -/
theorem countsConserved_iff (P : Platform) (s : BillingContainerState) (q : Request)
    (nonneg : 0 ≤ q.accountBidAmount ∧ q.bid.Nonneg) :
    CountsConserved P s q ↔ CountsSafe P s q := by
  obtain ⟨hA, hB, himps, hclicks⟩ := nonneg
  unfold CountsSafe
  cases resolved : resolve P q with
  | none =>
    simp only [or_true, iff_true]
    intro r h
    have counts := confirmBid_counts ⟨hA, hB⟩ h
    simp only [CountsInv, resolved] at counts
    simp [counts.1, counts.2]
  | some traits =>
    obtain ⟨account, campaign, ccg⟩ := traits
    obtain ⟨r, h⟩ := alone_returns (P := P) (s := s) ⟨hA, hB⟩ (by simp [resolved])
    have counts := confirmBid_counts ⟨hA, hB⟩ h
    simp only [CountsInv, resolved] at counts
    obtain ⟨⟨c_imps, c_clicks⟩, ⟨g_imps, g_clicks⟩, r_imps, r_clicks⟩ := counts
    have imps_iff := keptShare_iff (P := P) (s := s) ⟨hA, hB⟩ himps account campaign ccg
    have clicks_iff := keptShare_iff (P := P) (s := s) ⟨hA, hB⟩ hclicks account campaign ccg
    dsimp only at imps_iff clicks_iff ⊢
    have only : CountsConserved P s q ↔
        (let grown (before after : Ledgers Nat Time Counts) (id : Nat) :=
          (Ledgers.total after id).imps - (Ledgers.total before id).imps = q.bid.imps - r.bid.imps ∧
          (Ledgers.total after id).clicks - (Ledgers.total before id).clicks =
            q.bid.clicks - r.bid.clicks
        grown s.campaigns (alone P s q).1.campaigns q.ids.campaignId ∧
          grown s.ccgs (alone P s q).1.ccgs q.ids.ccgId) := by
      constructor
      · exact fun conserved => conserved r h
      · intro here r' h'
        obtain rfl : r = r' := Option.some.inj (h.symm.trans h')
        exact here
    rw [only]
    simp only [c_imps, c_clicks, g_imps, g_clicks, r_imps, r_clicks, add_sub_cancel_left,
      sub_sub_cancel]
    constructor
    · rintro ⟨⟨i1, c1⟩, i2, c2⟩
      rcases imps_iff.1 ⟨i1, i2⟩ with no_imps | safe
      · exact (clicks_iff.1 ⟨c1, c2⟩).imp_left (⟨no_imps, ·⟩)
      · exact .inr safe
    · intro safe
      have i := imps_iff.2 (safe.imp_left And.left)
      have c := clicks_iff.2 (safe.imp_left And.right)
      exact ⟨⟨i.1, c.1⟩, i.2, c.2⟩

/-- The account has room for half of the bid: the campaign and the group record
every impression, and half of them are handed back. -/
theorem impressions_counted_twice :
    ¬ ∀ (P : Platform) (s : BillingContainerState) (q : Request),
      0 ≤ q.accountBidAmount ∧ q.bid.Nonneg → CountsConserved P s q := by
  intro always
  have conserved := always .floored .empty
    (smallRequest (smallConfig 5 100 100) 10 ⟨10, 100000000, 0⟩) (by decide)
    ⟨false, 5, ⟨5, 50000000, 0⟩⟩ (by decide +kernel)
  exact absurd conserved.1.1 (by decide +kernel)

theorem whole_bid_conserved :
    CountsConserved .floored .empty (smallRequest (smallConfig 50 100 100) 10 ⟨10, 100000000, 0⟩) :=
  (countsConserved_iff .floored .empty _ (by decide)).2
    (.inr ⟨by decide, .inr (.inr ⟨by decide +kernel, by decide +kernel⟩)⟩)

end Alone

end AdServer.Billing
