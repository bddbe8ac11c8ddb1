import AdServer.Billing.ConfirmBid

/-!
# Conservation of money

Calls of `confirm_bid` interleaved section by section. Each section moves the
recorded totals by what its call confirms or reverts.
-/

namespace AdServer.Billing

open AdServer.Lib Ledgers
open AdServer.Lib.Interleaving (World run ledger Holds Kept)

variable {s s' : BillingContainerState} {res a c g : Bool} {q : Request} {i : Nat} {call : Call}

variable (P : Platform)

/-! ## The totals -/

def accountTotal (id : Nat) (s : BillingContainerState) : Int := Ledgers.total s.accounts id

def campaignTotal (id : Nat) (s : BillingContainerState) : Int :=
  (Ledgers.total s.campaigns id).amount

def ccgTotal (id : Nat) (s : BillingContainerState) : Int := (Ledgers.total s.ccgs id).amount

/-- What the next section of a call can do to the state. -/
inductive Writes (s : BillingContainerState) : Call → BillingContainerState → Prop
  | nothing {call : Call} : Writes s call s
  | account {q : Request} {l : Locals} {x : Int} (some_amount : l.account.available ≠ 0)
      (allowed : q.forced = true ∨
        Ledgers.total s.accounts q.ids.accountId < l.accountTraits.budget)
      (room : q.forced = false →
        Ledgers.total s.accounts q.ids.accountId + x ≤ l.accountTraits.budget) :
      Writes s ⟨q, .running .account l⟩ { s with
        accounts := Ledgers.record s.accounts q.ids.accountId
          (getDateInAdvTz P l.accountTraits.timeOffset q.ids.time) x }
  | campaign {q : Request} {l : Locals} (some_amount : l.campaign.available.amount ≠ 0)
      (accepted : passesLimits P s.campaigns q.ids.campaignId l.campaignTraits q.ids.time
        (decide (l.campaign.available.amount > 0)) = true ∨ q.forced = true) :
      Writes s ⟨q, .running .campaign l⟩ { s with
        campaigns := Ledgers.record s.campaigns q.ids.campaignId
          (getDateInAdvTz P l.campaignTraits.timeOffset q.ids.time) l.campaign.available }
  | ccg {q : Request} {l : Locals} (some_amount : l.ccg.available.amount ≠ 0)
      (accepted : passesLimits P s.ccgs q.ids.ccgId l.ccgTraits q.ids.time
        (decide (l.ccg.available.amount > 0)) = true ∨ q.forced = true) :
      Writes s ⟨q, .running .ccg l⟩ { s with
        ccgs := Ledgers.record s.ccgs q.ids.ccgId
          (getDateInAdvTz P l.ccgTraits.timeOffset q.ids.time) l.ccg.available }
  | revertCcg {q : Request} {l : Locals} (some_amount : l.ccg.revert.amount ≠ 0) :
      Writes s ⟨q, .running .revertCcg l⟩ { s with
        ccgs := Ledgers.record s.ccgs q.ids.ccgId
          (getDateInAdvTz P l.ccgTraits.timeOffset q.ids.time)
          ⟨-l.ccg.revert.amount, l.ccg.revert.imps, l.ccg.revert.clicks⟩ }
  | revertCampaign {q : Request} {l : Locals} (some_amount : l.campaign.revert.amount ≠ 0) :
      Writes s ⟨q, .running .revertCampaign l⟩ { s with
        campaigns := Ledgers.record s.campaigns q.ids.campaignId
          (getDateInAdvTz P l.campaignTraits.timeOffset q.ids.time)
          ⟨-l.campaign.revert.amount, l.campaign.revert.imps, l.campaign.revert.clicks⟩ }
  | revertAccount {q : Request} {l : Locals} (some_amount : l.account.revert ≠ 0) :
      Writes s ⟨q, .running .revertAccount l⟩ { s with
        accounts := Ledgers.record s.accounts q.ids.accountId
          (getDateInAdvTz P l.accountTraits.timeOffset q.ids.time) (-l.account.revert) }

theorem revertInto_writes {A : Type} [AddCommGroup A] {amounts amounts' : Ledgers Nat Time A}
    {id : Nat} {date : Time} {x : A} (h : revertInto amounts id date x = some amounts') :
    amounts' = record amounts id date x := by
  have present : (amounts.find? id).isSome := by
    unfold revertInto at h
    cases found : amounts.find? id with
    | none => simp [found] at h
    | some _ => rfl
  rw [revertInto_present present] at h
  exact (Option.some.inj h).symm

theorem confirmBidStep_writes (s : BillingContainerState) (call : Call) :
    Writes P s call (confirmBidStep P s call).1 := by
  obtain ⟨q, progress⟩ := call
  cases progress with
  | start | returned | thrown | aborted => exact .nothing
  | running sec l =>
    cases sec with
    | account =>
      simp only [confirmBidStep, accountSection]
      split
      · rename_i some_amount
        obtain ⟨allowed, e⟩ | ⟨allowed, e⟩ | ⟨-, e⟩ := confirmAccountBid_outcome P s.accounts
          l.account.available q.ids.accountId l.accountTraits q.ids.time q.forced
        · rw [e]
          refine .account some_amount (allowed.imp_right fun room => sub_pos.1 room.1) ?_
          intro unforced
          have room := allowed.resolve_left (by simp [unforced])
          omega
        · rw [e]
          refine .account some_amount (.inr (sub_pos.1 allowed.2.1)) fun _ => ?_
          omega
        · rw [e]
          exact .nothing
      · exact .nothing
    | campaign =>
      simp only [confirmBidStep, campaignSection]
      split
      · rename_i some_amount
        obtain ⟨accepted, e⟩ | ⟨-, e⟩ := confirmBid_outcome P s.campaigns l.campaign.available
          q.ids.campaignId l.campaignTraits q.ids.time q.forced
        · rw [e]
          exact .campaign some_amount accepted
        · rw [e]
          exact .nothing
      · exact .nothing
    | ccg =>
      simp only [confirmBidStep, ccgSection]
      split
      · rename_i some_amount
        obtain ⟨accepted, e⟩ | ⟨-, e⟩ := confirmBid_outcome P s.ccgs l.ccg.available
          q.ids.ccgId l.ccgTraits q.ids.time q.forced
        · rw [e]
          exact .ccg some_amount accepted
        · rw [e]
          exact .nothing
      · exact .nothing
    | revertCcg =>
      simp only [confirmBidStep, revertCcgSection]
      split
      · rename_i some_amount
        split
        · rename_i amounts written
          rw [revertInto_writes written]
          exact .revertCcg some_amount
        · exact .nothing
      · exact .nothing
    | revertCampaign =>
      simp only [confirmBidStep, revertCampaignSection]
      split
      · rename_i some_amount
        split
        · rename_i amounts written
          rw [revertInto_writes written]
          exact .revertCampaign some_amount
        · exact .nothing
      · exact .nothing
    | revertAccount =>
      simp only [confirmBidStep, revertAccountSection]
      split
      · rename_i some_amount
        split
        · rename_i amounts written
          rw [revertInto_writes written]
          exact .revertAccount some_amount
        · exact .nothing
      · exact .nothing

theorem confirmBidStep_request (s : BillingContainerState) (call : Call) :
    (confirmBidStep P s call).2.request = call.request := by
  obtain ⟨q, progress⟩ := call
  cases progress with
  | start | returned | thrown | aborted => rfl
  | running sec l => cases sec <;> rfl

theorem Writes.present (h : Writes P s call s') :
    (∀ id, (s.accounts.find? id).isSome → (s'.accounts.find? id).isSome) ∧
      ∀ id, (s.campaigns.find? id).isSome → (s'.campaigns.find? id).isSome := by
  cases h with
  | nothing | ccg | revertCcg => exact ⟨fun _ h => h, fun _ h => h⟩
  | account | revertAccount =>
    exact ⟨fun id h => by simp [isSome_record, h], fun _ h => h⟩
  | campaign | revertCampaign =>
    exact ⟨fun _ h => h, fun id h => by simp [isSome_record, h]⟩

section Shares

variable {P} {share confirmed whole : Int} {c : Bool}

theorem minShare_nonneg (hs : 0 ≤ share) (hc : 0 ≤ confirmed) (hw : 0 ≤ whole) :
    0 ≤ minShare P share c confirmed whole := by
  unfold minShare
  split
  · rename_i h
    have positive : 0 < whole := by
      simp only [Bool.and_eq_true, decide_eq_true_eq] at h
      omega
    exact le_min hs (P.div_nonneg hc positive)
  · exact hs

theorem minShare_nothing (hs : 0 ≤ share) (hw : 0 < whole) :
    minShare P share true 0 whole = 0 := by
  simp [minShare, hw.ne', P.zero_div hw, hs]

theorem remindRevert_zero {revert : Int} (h : confirmed = 0 → revert = 0) :
    remindRevert true 0 confirmed revert = confirmed := by
  unfold remindRevert
  by_cases hc : confirmed = 0
  · simp [hc, h hc]
  · simp [Ne.symm hc]

end Shares

/-! ## What a call knows before each section -/

/-- The account part of a running call. -/
structure AccountPart (s : BillingContainerState) (q : Request) (l : Locals) : Prop where
  confirmed_nonneg : 0 ≤ l.account.confirmed
  confirmed_le : l.account.confirmed ≤ q.accountBidAmount
  revert_nonneg : 0 ≤ l.account.revert
  revert_le : l.account.revert ≤ l.account.confirmed
  present : l.account.confirmed ≠ 0 → (s.accounts.find? q.ids.accountId).isSome
  full : l.res = true → l.account.confirmed = q.accountBidAmount ∧ l.account.revert = 0

theorem AccountPart.revert_zero {l : Locals} (h : AccountPart s q l) (none : l.account.confirmed = 0) :
    l.account.revert = 0 := le_antisymm (none ▸ h.revert_le) h.revert_nonneg

/-- Impressions and clicks travel uncut, and none are ever reverted. -/
structure CountsPart (q : Request) (l : Locals) : Prop where
  campaign_imps : l.campaign.available.imps = q.bid.imps
  campaign_clicks : l.campaign.available.clicks = q.bid.clicks
  ccg_imps : l.ccg.available.imps = q.bid.imps
  ccg_clicks : l.ccg.available.clicks = q.bid.clicks
  revert_imps : l.campaign.revert.imps = 0
  revert_clicks : l.campaign.revert.clicks = 0

structure BeforeCampaign (s : BillingContainerState) (q : Request) (l : Locals) : Prop where
  account : AccountPart s q l
  counts : CountsPart q l
  available_nonneg : 0 ≤ l.campaign.available.amount
  available_le : l.campaign.available.amount ≤ q.bid.amount
  same_available : l.ccg.available.amount = l.campaign.available.amount
  campaign_confirmed : l.campaign.confirmed = 0
  campaign_revert : l.campaign.revert.amount = 0
  ccg_confirmed : l.ccg.confirmed = 0
  ccg_revert : l.ccg.revert.amount = 0
  full : l.res = true → l.campaign.available.amount = q.bid.amount

structure BeforeCcg (s : BillingContainerState) (q : Request) (l : Locals) : Prop where
  account : AccountPart s q l
  counts : CountsPart q l
  confirmed_nonneg : 0 ≤ l.campaign.confirmed.amount
  confirmed_le : l.campaign.confirmed.amount ≤ q.bid.amount
  available : l.ccg.available.amount = l.campaign.confirmed.amount
  campaign_revert : l.campaign.revert.amount = 0
  ccg_confirmed : l.ccg.confirmed = 0
  ccg_revert : l.ccg.revert.amount = 0
  present : l.campaign.confirmed.amount ≠ 0 → (s.campaigns.find? q.ids.campaignId).isSome
  full : l.res = true → l.campaign.confirmed.amount = q.bid.amount

structure BeforeRevert (s : BillingContainerState) (q : Request) (l : Locals) : Prop where
  account : AccountPart s q l
  counts : CountsPart q l
  confirmed_le : l.campaign.confirmed.amount ≤ q.bid.amount
  revert_nonneg : 0 ≤ l.campaign.revert.amount
  revert_le : l.campaign.revert.amount ≤ l.campaign.confirmed.amount
  ccg_confirmed :
    l.ccg.confirmed.amount = l.campaign.confirmed.amount - l.campaign.revert.amount
  ccg_revert : l.ccg.revert.amount = 0
  present : l.campaign.confirmed.amount ≠ 0 → (s.campaigns.find? q.ids.campaignId).isSome
  full : l.res = true → l.campaign.confirmed.amount = q.bid.amount ∧ l.campaign.revert.amount = 0

structure BeforeRevertAccount (s : BillingContainerState) (q : Request) (l : Locals) : Prop where
  account : AccountPart s q l
  confirmed_nonneg : 0 ≤ l.campaign.confirmed.amount
  confirmed_le : l.campaign.confirmed.amount ≤ q.bid.amount
  ccg_confirmed : l.ccg.confirmed.amount = l.campaign.confirmed.amount
  full : l.res = true → l.campaign.confirmed.amount = q.bid.amount

/-- The remainders lie between zero and what was passed, and an available result
leaves none. -/
structure ReturnedOk (q : Request) (r : BidResult) : Prop where
  account_nonneg : 0 ≤ r.accountBidAmount
  account_le : r.accountBidAmount ≤ q.accountBidAmount
  bid_nonneg : 0 ≤ r.bid.amount
  bid_le : r.bid.amount ≤ q.bid.amount
  full : r.available = true → r.accountBidAmount = 0 ∧ r.bid.amount = 0

/-- The invariant of a call, by where it stands. No call is ever aborted. -/
def ProgressInv (s : BillingContainerState) (q : Request) : Progress → Prop
  | .start => True
  | .running .account l =>
    l.account = ⟨q.accountBidAmount, 0, 0⟩ ∧ l.campaign = ⟨q.bid, 0, 0⟩ ∧
      l.ccg = ⟨q.bid, 0, 0⟩ ∧ l.res = true
  | .running .campaign l => BeforeCampaign s q l
  | .running .ccg l => BeforeCcg s q l
  | .running .revertCcg l => BeforeRevert s q l
  | .running .revertCampaign l => BeforeRevert s q l
  | .running .revertAccount l => BeforeRevertAccount s q l
  | .returned r => ReturnedOk q r
  | .thrown => True
  | .aborted => False

/-! ## What a call owes -/

def accountOwed (q : Request) : Progress → Int
  | .running _ l => l.account.confirmed
  | .returned r => q.accountBidAmount - r.accountBidAmount
  | .start | .thrown | .aborted => 0

def campaignOwed (q : Request) : Progress → Int
  | .running _ l => l.campaign.confirmed.amount
  | .returned r => q.bid.amount - r.bid.amount
  | .start | .thrown | .aborted => 0

def ccgOwed (q : Request) : Progress → Int
  | .running _ l => l.ccg.confirmed.amount
  | .returned r => q.bid.amount - r.bid.amount
  | .start | .thrown | .aborted => 0

/-- A section keeps the invariant and moves every total by what the call owes. -/
structure SectionOk (s : BillingContainerState) (q : Request) (p : Progress)
    (r : BillingContainerState × Progress) : Prop where
  inv : ProgressInv r.1 q r.2
  account : ∀ id, accountTotal id r.1 = accountTotal id s +
    if id = q.ids.accountId then accountOwed q r.2 - accountOwed q p else 0
  campaign : ∀ id, campaignTotal id r.1 = campaignTotal id s +
    if id = q.ids.campaignId then campaignOwed q r.2 - campaignOwed q p else 0
  ccg : ∀ id, ccgTotal id r.1 = ccgTotal id s +
    if id = q.ids.ccgId then ccgOwed q r.2 - ccgOwed q p else 0

section Sections

variable {P} {s : BillingContainerState} {q : Request} {l : Locals}

/-- A section that succeeds, or that a forced call ignores, recalculates nothing. -/
theorem settle_accepted (h : res = true ∨ q.forced = true) :
    settle P q l res a c g = { l with res := l.res && res } := by
  cases res with
  | true => simp [settle]
  | false =>
    have forced : q.forced = true := by simpa using h
    simp [settle, forced]

theorem settle_refused (h : q.forced = false) :
    settle P q l false a c g =
      { recalcRemindAmounts_ P l a c g q.accountBidAmount q.bid.amount with res := false } := by
  simp [settle, h]

theorem settle_traits :
    (settle P q l res a c g).accountTraits = l.accountTraits ∧
      (settle P q l res a c g).campaignTraits = l.campaignTraits ∧
      (settle P q l res a c g).ccgTraits = l.ccgTraits := by
  unfold settle
  split
  · exact ⟨rfl, rfl, rfl⟩
  · split <;> exact ⟨rfl, rfl, rfl⟩

/-- The share after the account has confirmed `x` of its amount. -/
def accountShare (P : Platform) (x whole : Int) : Int := min P.one (P.div x whole)

theorem accountShare_bounds {x whole : Int} (hx : 0 ≤ x) (hw : 0 < whole) :
    0 ≤ accountShare P x whole ∧ accountShare P x whole ≤ P.one ∧
      accountShare P x whole ≤ P.div x whole :=
  ⟨le_min P.one_pos.le (P.div_nonneg hx hw), min_le_left _ _, min_le_right _ _⟩

/-- An account that confirmed a part cuts the campaign and the group to that
share, and gives back what the share does not take. -/
theorem settle_account {x : Int} (unforced : q.forced = false) (positive : 0 < q.accountBidAmount)
    (hcampaign : l.campaign = ⟨q.bid, 0, 0⟩) (hccg : l.ccg = ⟨q.bid, 0, 0⟩)
    (haccount : l.account = ⟨q.accountBidAmount, x, 0⟩) :
    let share := accountShare P x q.accountBidAmount
    let cut := { q.bid with amount := P.mul share q.bid.amount }
    settle P q l false true false false =
      { l with
        account := ⟨0, x, x - P.mul share q.accountBidAmount⟩
        campaign := ⟨cut, 0, 0⟩
        ccg := ⟨cut, 0, 0⟩
        res := false } := by
  intro share cut
  have hshare : minConfirmedShare P l true false false q.accountBidAmount q.bid.amount = share := by
    simp [minConfirmedShare, minShare, haccount, positive.ne', share, accountShare]
  rw [settle_refused unforced]
  simp only [recalcRemindAmounts_, hshare, haccount, hcampaign, hccg, remindRevert,
    remindAvailable, cut]
  by_cases same : P.mul share q.accountBidAmount = x
  · simp [same]
    rfl
  · simp [same]
    rfl

/-- A refused campaign leaves no share: the account gives everything back. -/
theorem settle_campaign (unforced : q.forced = false) (hA : 0 ≤ q.accountBidAmount)
    (positive : 0 < q.bid.amount) (h : BeforeCampaign s q l) :
    settle P q { l with campaign := { l.campaign with confirmed := 0 } } false true true false =
      { l with
        account := ⟨0, l.account.confirmed, l.account.confirmed⟩
        campaign := { l.campaign with
          available := { l.campaign.available with amount := 0 }
          confirmed := 0 }
        ccg := { l.ccg with available := { l.ccg.available with amount := 0 } }
        res := false } := by
  have hrevert := h.account.revert_zero
  have hshare : minConfirmedShare P { l with campaign := { l.campaign with confirmed := 0 } }
      true true false q.accountBidAmount q.bid.amount = 0 := by
    have first := minShare_nonneg (P := P) (c := true) P.one_pos.le h.account.confirmed_nonneg hA
    simp only [minConfirmedShare, Counts.zero_amount, minShare_nothing first positive]
    simp [minShare]
  rw [settle_refused unforced]
  simp only [recalcRemindAmounts_, hshare, P.mul_zero_left hA, P.mul_zero_left positive.le,
    remindRevert_zero hrevert]
  simp [remindRevert, remindAvailable]

/-- A refused group leaves no share: the account and the campaign give
everything back. -/
theorem settle_ccg (unforced : q.forced = false) (hA : 0 ≤ q.accountBidAmount)
    (positive : 0 < q.bid.amount) (h : BeforeCcg s q l) :
    settle P q { l with ccg := { l.ccg with confirmed := 0 } } false true true true =
      { l with
        account := ⟨0, l.account.confirmed, l.account.confirmed⟩
        campaign := { l.campaign with
          available := { l.campaign.available with amount := 0 }
          revert := { l.campaign.revert with amount := l.campaign.confirmed.amount } }
        ccg := { l.ccg with
          available := { l.ccg.available with amount := 0 }
          confirmed := 0 }
        res := false } := by
  have hrevert := h.account.revert_zero
  have hshare : minConfirmedShare P { l with ccg := { l.ccg with confirmed := 0 } }
      true true true q.accountBidAmount q.bid.amount = 0 := by
    have first := minShare_nonneg (P := P) (c := true) P.one_pos.le h.account.confirmed_nonneg hA
    have second := minShare_nonneg (P := P) (c := true) first h.confirmed_nonneg positive.le
    simp only [minConfirmedShare, Counts.zero_amount, minShare_nothing second positive]
  rw [settle_refused unforced]
  simp only [recalcRemindAmounts_, hshare, P.mul_zero_left hA, P.mul_zero_left positive.le,
    remindRevert_zero hrevert, remindRevert_zero fun _ => h.campaign_revert]
  simp [remindRevert, remindAvailable]

theorem start_ok (hA : 0 ≤ q.accountBidAmount) (hB : 0 ≤ q.bid.amount) :
    SectionOk s q .start (s, begin_ P q) := by
  unfold begin_
  split
  · exact ⟨trivial, by simp [accountOwed], by simp [campaignOwed], by simp [ccgOwed]⟩
  · split
    · exact ⟨⟨hA, le_rfl, hB, le_rfl, by simp⟩, by simp [accountOwed], by simp [campaignOwed],
        by simp [ccgOwed]⟩
    · exact ⟨⟨rfl, rfl, rfl, rfl⟩, by simp [accountOwed], by simp [campaignOwed],
        by simp [ccgOwed]⟩

/-- Before the campaign section the bid is cut to `t` for campaign and group. -/
theorem beforeCampaign_of {t : Counts} (account : AccountPart s q l)
    (hcampaign : l.campaign = ⟨t, 0, 0⟩) (hccg : l.ccg = ⟨t, 0, 0⟩)
    (imps : t.imps = q.bid.imps) (clicks : t.clicks = q.bid.clicks) (nonneg : 0 ≤ t.amount)
    (le : t.amount ≤ q.bid.amount) (full : l.res = true → t.amount = q.bid.amount) :
    BeforeCampaign s q l := by
  obtain ⟨accountTraits, campaignTraits, ccgTraits, holder, campaign, ccg, res⟩ := l
  obtain ⟨rfl, rfl⟩ : campaign = ⟨t, 0, 0⟩ ∧ ccg = ⟨t, 0, 0⟩ := ⟨hcampaign, hccg⟩
  exact ⟨account, ⟨imps, clicks, imps, clicks, rfl, rfl⟩, nonneg, le, rfl, rfl, rfl, rfl, rfl, full⟩

section
variable (hA : 0 ≤ q.accountBidAmount)
include hA

theorem account_ok (hB : 0 ≤ q.bid.amount) (h : ProgressInv s q (.running .account l)) :
    SectionOk s q (.running .account l) (accountSection P s q l) := by
  obtain ⟨haccount, hcampaign, hccg, hres⟩ := h
  unfold accountSection
  rw [haccount]
  by_cases zero : q.accountBidAmount = 0
  · rw [if_neg (by simpa using zero)]
    refine ⟨?_, by simp [accountOwed], by simp [campaignOwed], by simp [ccgOwed]⟩
    refine beforeCampaign_of ⟨?_, ?_, ?_, ?_, ?_, ?_⟩ hcampaign hccg rfl rfl hB le_rfl
      (fun _ => rfl) <;> simp [haccount, zero]
  · have positive : 0 < q.accountBidAmount := by omega
    rw [if_pos (by simpa using zero)]
    dsimp only
    obtain ⟨whole, e⟩ | ⟨⟨unforced, room, cut⟩, e⟩ | ⟨⟨unforced, -⟩, e⟩ :=
      confirmAccountBid_outcome P s.accounts q.accountBidAmount q.ids.accountId l.accountTraits
        q.ids.time q.forced
    · -- the whole amount is recorded; only a forced call can be told otherwise
      rw [e]
      dsimp only
      rw [settle_accepted (whole.symm.imp (fun h => by simpa using h.1) id)]
      refine ⟨?_, ?_, by simp [campaignTotal, campaignOwed, hcampaign],
        by simp [ccgTotal, ccgOwed, hccg]⟩
      · refine beforeCampaign_of ⟨hA, le_rfl, le_rfl, hA, ?_, fun _ => ⟨rfl, rfl⟩⟩ hcampaign hccg rfl
          rfl hB le_rfl (fun _ => rfl)
        intro _
        simp [isSome_record]
      · intro id
        simp [accountTotal, accountOwed, total_record, haccount]
    · rw [e]
      dsimp only
      generalize l.accountTraits.budget - total s.accounts q.ids.accountId = x at room cut ⊢
      obtain ⟨share_nonneg, share_le, share_div⟩ := accountShare_bounds (P := P) room.le positive
      have target_nonneg := P.mul_nonneg share_nonneg hA
      have target_le := P.mul_share_le share_nonneg room.le positive share_div
      have settled := settle_account (P := P) (l := { l with account := ⟨q.accountBidAmount, x, 0⟩ })
        unforced positive hcampaign hccg rfl
      rw [settled]
      refine ⟨?_, ?_, by simp [campaignTotal, campaignOwed, hcampaign],
        by simp [ccgTotal, ccgOwed, hccg]⟩
      · refine beforeCampaign_of ⟨room.le, cut, sub_nonneg.2 target_le, ?_, ?_, by simp⟩ rfl rfl rfl
          rfl (P.mul_nonneg share_nonneg hB) (P.mul_le_right share_nonneg hB share_le) (by simp)
        · exact sub_le_self _ target_nonneg
        · intro _
          simp [isSome_record]
      · intro id
        simp [accountTotal, accountOwed, total_record, haccount]
    · rw [e]
      dsimp only
      have share_zero : accountShare P 0 q.accountBidAmount = 0 := by
        simp [accountShare, P.zero_div positive, P.one_pos.le]
      have settled := settle_account (P := P) (l := { l with account := ⟨q.accountBidAmount, 0, 0⟩ })
        unforced positive hcampaign hccg rfl
      rw [settled, share_zero, P.mul_zero_left hA, P.mul_zero_left hB]
      refine ⟨?_, by simp [accountTotal, accountOwed, haccount],
        by simp [campaignTotal, campaignOwed, hcampaign], by simp [ccgTotal, ccgOwed, hccg]⟩
      exact beforeCampaign_of ⟨le_rfl, hA, by simp, by simp, by simp, by simp⟩ rfl rfl rfl rfl le_rfl
        hB (by simp)

theorem campaign_ok (h : BeforeCampaign s q l) :
    SectionOk s q (.running .campaign l) (campaignSection P s q l) := by
  have hcounts := h.counts
  have confirmed_zero : l.campaign.confirmed.amount = 0 := by simp [h.campaign_confirmed]
  unfold campaignSection
  by_cases zero : l.campaign.available.amount = 0
  · rw [if_neg (by simpa using zero)]
    refine ⟨?_, by simp [accountTotal, accountOwed], by simp [campaignOwed], by simp [ccgOwed]⟩
    exact ⟨h.account, hcounts, confirmed_zero.ge, confirmed_zero.le.trans (zero ▸ h.available_le),
      by rw [h.same_available, zero, confirmed_zero], h.campaign_revert, h.ccg_confirmed,
      h.ccg_revert, fun h => absurd confirmed_zero h,
      fun hres => by rw [confirmed_zero, ← h.full hres, zero]⟩
  · have positive : 0 < q.bid.amount := by
      have := h.available_nonneg
      have := h.available_le
      omega
    rw [if_pos (by simpa using zero)]
    dsimp only
    obtain ⟨accepted, e⟩ | ⟨⟨-, unforced⟩, e⟩ := confirmBid_outcome P s.campaigns
      l.campaign.available q.ids.campaignId l.campaignTraits q.ids.time q.forced
    · rw [e]
      dsimp only
      rw [settle_accepted accepted]
      refine ⟨?_, by simp [accountTotal, accountOwed], ?_, by simp [ccgTotal, ccgOwed]⟩
      · refine ⟨?_, ?_, h.available_nonneg, h.available_le, h.same_available, h.campaign_revert,
          h.ccg_confirmed, h.ccg_revert, ?_, ?_⟩
        · exact { h.account with full := fun hres => h.account.full (by simp_all) }
        · exact { hcounts with }
        · intro _
          simp [isSome_record]
        · intro hres
          exact h.full (by simp_all)
      · intro id
        simp only [campaignTotal, campaignOwed, total_record, h.campaign_confirmed]
        split <;> simp
    · rw [e]
      dsimp only
      rw [settle_campaign unforced hA positive h]
      refine ⟨?_, by simp [accountTotal, accountOwed],
        by simp [campaignTotal, campaignOwed, h.campaign_confirmed], by simp [ccgTotal, ccgOwed]⟩
      refine ⟨?_, ?_, le_rfl, positive.le, rfl, h.campaign_revert, h.ccg_confirmed, h.ccg_revert,
        fun hz => absurd rfl hz, by simp⟩
      · exact ⟨h.account.confirmed_nonneg, h.account.confirmed_le, h.account.confirmed_nonneg,
          le_rfl, h.account.present, by simp⟩
      · exact { hcounts with }

theorem ccg_ok (h : BeforeCcg s q l) : SectionOk s q (.running .ccg l) (ccgSection P s q l) := by
  have hcounts := h.counts
  have confirmed_zero : l.ccg.confirmed.amount = 0 := by simp [h.ccg_confirmed]
  unfold ccgSection
  by_cases zero : l.ccg.available.amount = 0
  · rw [if_neg (by simpa using zero)]
    have nothing : l.campaign.confirmed.amount = 0 := h.available ▸ zero
    refine ⟨?_, by simp [accountTotal, accountOwed], by simp [campaignOwed], by simp [ccgOwed]⟩
    exact ⟨h.account, hcounts, h.confirmed_le, h.campaign_revert.ge,
      h.campaign_revert.le.trans h.confirmed_nonneg,
      by rw [confirmed_zero, nothing, h.campaign_revert, sub_zero], h.ccg_revert, h.present,
      fun hres => ⟨h.full hres, h.campaign_revert⟩⟩
  · have positive : 0 < q.bid.amount := by
      have := h.available
      have := h.confirmed_nonneg
      have := h.confirmed_le
      omega
    rw [if_pos (by simpa using zero)]
    dsimp only
    obtain ⟨accepted, e⟩ | ⟨⟨-, unforced⟩, e⟩ := confirmBid_outcome P s.ccgs
      l.ccg.available q.ids.ccgId l.ccgTraits q.ids.time q.forced
    · rw [e]
      dsimp only
      rw [settle_accepted accepted]
      refine ⟨?_, by simp [accountTotal, accountOwed], by simp [campaignTotal, campaignOwed], ?_⟩
      · refine ⟨?_, ?_, h.confirmed_le, h.campaign_revert.ge,
          h.campaign_revert.le.trans h.confirmed_nonneg, ?_, h.ccg_revert, h.present, ?_⟩
        · exact { h.account with full := fun hres => h.account.full (by simp_all) }
        · exact { hcounts with }
        · change l.ccg.available.amount = _
          rw [h.available, h.campaign_revert, sub_zero]
        · exact fun hres => ⟨h.full (by simp_all), h.campaign_revert⟩
      · intro id
        simp only [ccgTotal, ccgOwed, total_record, h.ccg_confirmed]
        split <;> simp
    · rw [e]
      dsimp only
      rw [settle_ccg unforced hA positive h]
      refine ⟨?_, by simp [accountTotal, accountOwed], by simp [campaignTotal, campaignOwed],
        by simp [ccgTotal, ccgOwed, h.ccg_confirmed]⟩
      refine ⟨?_, ?_, h.confirmed_le, h.confirmed_nonneg, le_rfl, (sub_self _).symm, h.ccg_revert,
        h.present, by simp⟩
      · exact ⟨h.account.confirmed_nonneg, h.account.confirmed_le, h.account.confirmed_nonneg,
          le_rfl, h.account.present, by simp⟩
      · exact { hcounts with }

end

theorem revertCcg_ok (h : BeforeRevert s q l) :
    SectionOk s q (.running .revertCcg l) (revertCcgSection P s q l) := by
  unfold revertCcgSection
  rw [if_neg (by simpa using h.ccg_revert)]
  exact ⟨h, by simp [accountOwed], by simp [campaignOwed], by simp [ccgOwed]⟩

theorem revertCampaign_ok (h : BeforeRevert s q l) :
    SectionOk s q (.running .revertCampaign l) (revertCampaignSection P s q l) := by
  unfold revertCampaignSection
  by_cases zero : l.campaign.revert.amount = 0
  · rw [if_neg (by simpa using zero)]
    refine ⟨?_, by simp [accountOwed], by simp [campaignOwed], by simp [ccgOwed]⟩
    exact ⟨h.account, zero ▸ h.revert_le, h.confirmed_le, by rw [h.ccg_confirmed, zero, sub_zero],
      fun hres => (h.full hres).1⟩
  · have recorded : l.campaign.confirmed.amount ≠ 0 := by
      have := h.revert_nonneg
      have := h.revert_le
      omega
    rw [if_pos (by simpa using zero), revertConfirmedBid_, revertInto_present (h.present recorded)]
    dsimp only
    refine ⟨?_, by simp [accountTotal, accountOwed], ?_, by simp [ccgTotal, ccgOwed]⟩
    · refine ⟨?_, sub_nonneg.2 h.revert_le, (sub_le_self _ h.revert_nonneg).trans h.confirmed_le,
        h.ccg_confirmed, fun hres => absurd (h.full hres).2 zero⟩
      exact { h.account with }
    · intro id
      simp only [campaignTotal, campaignOwed, total_record]
      split <;> simp

@[simp] theorem confirmedCounts_amount (l : Locals) (bid : Counts) :
    (confirmedCounts P l bid).amount = l.campaign.confirmed.amount := by
  unfold confirmedCounts
  split <;> rfl

theorem finish_ok (nonneg : 0 ≤ l.account.confirmed)
    (le : l.account.confirmed ≤ q.accountBidAmount) (campaign_nonneg : 0 ≤ l.campaign.confirmed.amount)
    (campaign_le : l.campaign.confirmed.amount ≤ q.bid.amount)
    (full : l.res = true → l.account.confirmed = q.accountBidAmount ∧
      l.campaign.confirmed.amount = q.bid.amount) :
    ReturnedOk q (finish P q l) where
  account_nonneg := sub_nonneg.2 le
  account_le := sub_le_self _ nonneg
  bid_nonneg := by simpa [finish] using campaign_le
  bid_le := by simpa [finish] using campaign_nonneg
  full := fun hres => by simp [finish, full hres]

theorem revertAccount_ok (h : BeforeRevertAccount s q l) :
    SectionOk s q (.running .revertAccount l) (revertAccountSection P s q l) := by
  obtain ⟨account, campaign_nonneg, campaign_le, ccg_confirmed, full⟩ := h
  unfold revertAccountSection
  by_cases zero : l.account.revert = 0
  · rw [if_neg (by simpa using zero)]
    refine ⟨?_, by simp [accountOwed, finish], by simp [campaignOwed, finish],
      by simp [ccgOwed, finish, ccg_confirmed]⟩
    exact finish_ok account.confirmed_nonneg account.confirmed_le campaign_nonneg campaign_le
      (fun hres => ⟨(account.full hres).1, full hres⟩)
  · have recorded : l.account.confirmed ≠ 0 := by
      have := account.revert_nonneg
      have := account.revert_le
      omega
    rw [if_pos (by simpa using zero), revertAccountConfirmedBid_,
      revertInto_present (account.present recorded)]
    dsimp only
    refine ⟨?_, ?_, by simp [campaignTotal, campaignOwed, finish],
      by simp [ccgTotal, ccgOwed, finish, ccg_confirmed]⟩
    · exact finish_ok (sub_nonneg.2 account.revert_le)
        ((sub_le_self _ account.revert_nonneg).trans account.confirmed_le) campaign_nonneg campaign_le
        (fun hres => absurd (account.full hres).2 zero)
    · intro id
      simp only [accountTotal, accountOwed, finish, total_record]
      split <;> simp

end Sections

/-! ## Any interleaving -/

/-- The amounts of a request are not negative. -/
def Request.Nonneg (q : Request) : Prop := 0 ≤ q.accountBidAmount ∧ 0 ≤ q.bid.amount

/-- What is kept of call `i`, when the calls started from `requests`. -/
def CallInv (requests : List Request) (i : Nat) (s : BillingContainerState) (call : Call) : Prop :=
  requests[i]? = some call.request ∧ call.request.Nonneg ∧
    ProgressInv s call.request call.progress

theorem step_sectionOk (s : BillingContainerState) (call : Call) (nonneg : call.request.Nonneg)
    (h : ProgressInv s call.request call.progress) :
    SectionOk s call.request call.progress
      ((confirmBidStep P s call).1, (confirmBidStep P s call).2.progress) := by
  obtain ⟨q, progress⟩ := call
  cases progress with
  | start => exact start_ok nonneg.1 nonneg.2
  | running sec l =>
    cases sec with
    | account => exact account_ok nonneg.1 nonneg.2 h
    | campaign => exact campaign_ok nonneg.1 h
    | ccg => exact ccg_ok nonneg.1 h
    | revertCcg => exact revertCcg_ok h
    | revertCampaign => exact revertCampaign_ok h
    | revertAccount => exact revertAccount_ok h
  | returned r => exact ⟨h, by simp [confirmBidStep], by simp [confirmBidStep], by simp [confirmBidStep]⟩
  | thrown => exact ⟨h, by simp [confirmBidStep], by simp [confirmBidStep], by simp [confirmBidStep]⟩
  | aborted => exact h.elim

theorem ProgressInv.mono {progress : Progress}
    (accounts : ∀ id, (s.accounts.find? id).isSome → (s'.accounts.find? id).isSome)
    (campaigns : ∀ id, (s.campaigns.find? id).isSome → (s'.campaigns.find? id).isSome)
    (h : ProgressInv s q progress) : ProgressInv s' q progress := by
  have account {l : Locals} (part : AccountPart s q l) : AccountPart s' q l :=
    { part with present := fun hx => accounts _ (part.present hx) }
  cases progress with
  | start | returned | thrown | aborted => exact h
  | running sec l =>
    cases sec with
    | account => exact h
    | campaign => exact { h with account := account h.account }
    | ccg => exact { h with account := account h.account, present := fun hx => campaigns _ (h.present hx) }
    | revertCcg | revertCampaign =>
      exact { h with account := account h.account, present := fun hx => campaigns _ (h.present hx) }
    | revertAccount => exact { h with account := account h.account }

theorem confirmBidStep_kept (requests : List Request) :
    Kept (confirmBidStep P) (CallInv requests) where
  own := by
    rintro i s call ⟨mine, nonneg, inv⟩
    have request := confirmBidStep_request P s call
    refine ⟨request ▸ mine, request ▸ nonneg, ?_⟩
    rw [request]
    exact (step_sectionOk P s call nonneg inv).inv
  other := by
    rintro i j s call other ⟨mine, nonneg, inv⟩ -
    obtain ⟨accounts, campaigns⟩ := (confirmBidStep_writes P s other).present
    exact ⟨mine, nonneg, inv.mono accounts campaigns⟩

/-- Calls not yet begun, on a state. -/
def calls (s : BillingContainerState) (requests : List Request) : World BillingContainerState Call :=
  (s, requests.map Request.fresh)

theorem calls_holds (s : BillingContainerState) (requests : List Request)
    (nonneg : ∀ q ∈ requests, q.Nonneg) : Holds (CallInv requests) (calls s requests) := by
  intro i call h
  simp only [calls, List.getElem?_map, Option.map_eq_some_iff] at h
  obtain ⟨q, hq, rfl⟩ := h
  exact ⟨hq, nonneg q (List.mem_of_getElem? hq), trivial⟩

/-- What call `i` has returned. -/
def resultOf (w : World BillingContainerState Call) (i : Nat) : Option BidResult :=
  w.2[i]?.bind fun call =>
    match call.progress with
    | .returned r => some r
    | _ => none

theorem resultOf_eq_some {w : World BillingContainerState Call} {r : BidResult} :
    resultOf w i = some r ↔ ∃ call, w.2[i]? = some call ∧ call.progress = .returned r := by
  unfold resultOf
  cases h : w.2[i]? with
  | none => simp
  | some call =>
    obtain ⟨q, progress⟩ := call
    cases progress <;> simp

/-- How many sections a call still takes. -/
def sectionsLeft : Progress → Nat
  | .start => 7
  | .running .account _ => 6
  | .running .campaign _ => 5
  | .running .ccg _ => 4
  | .running .revertCcg _ => 3
  | .running .revertCampaign _ => 2
  | .running .revertAccount _ => 1
  | .returned _ | .thrown | .aborted => 0

theorem sectionsLeft_step (s : BillingContainerState) (call : Call) :
    sectionsLeft (confirmBidStep P s call).2.progress ≤ sectionsLeft call.progress - 1 := by
  obtain ⟨q, progress⟩ := call
  cases progress with
  | start =>
    simp only [confirmBidStep, begin_]
    split
    · exact Nat.zero_le _
    · split
      · exact Nat.zero_le _
      · exact le_rfl
  | returned | thrown | aborted => exact le_rfl
  | running sec l =>
    cases sec with
    | account => simp only [confirmBidStep, accountSection]; split <;> exact le_rfl
    | campaign => simp only [confirmBidStep, campaignSection]; split <;> exact le_rfl
    | ccg => simp only [confirmBidStep, ccgSection]; split <;> exact le_rfl
    | revertCcg =>
      simp only [confirmBidStep, revertCcgSection]
      split
      · split <;> simp [sectionsLeft]
      · exact le_rfl
    | revertCampaign =>
      simp only [confirmBidStep, revertCampaignSection]
      split
      · split <;> simp [sectionsLeft]
      · exact le_rfl
    | revertAccount =>
      simp only [confirmBidStep, revertAccountSection]
      split
      · split <;> simp [sectionsLeft]
      · exact le_rfl

section Runs

variable {P} {s : BillingContainerState} {requests : List Request} {schedule : List Nat}

/-- A call that has had seven sections, between any others, has returned or, when
no configuration was bound, has thrown. -/
theorem confirmBid_finishes (nonneg : ∀ q ∈ requests, q.Nonneg)
    (h : (run (confirmBidStep P) (calls s requests) schedule).2[i]? = some call)
    (sections : 7 ≤ schedule.count i) :
    (∃ r, call.progress = .returned r) ∨ call.progress = .thrown := by
  have inv := Interleaving.run_inv (confirmBidStep_kept P requests) (calls_holds s requests nonneg)
    schedule i call h
  obtain ⟨q, hq⟩ : ∃ q, requests[i]? = some q := ⟨call.request, inv.1⟩
  have fresh : (calls s requests).2[i]? = some q.fresh := by simp [calls, hq]
  have left : sectionsLeft call.progress ≤ 7 - schedule.count i :=
    Interleaving.rank_run (fun c => sectionsLeft c.progress) (sectionsLeft_step P) schedule fresh h
  have none_left : sectionsLeft call.progress = 0 := by omega
  obtain ⟨q', progress⟩ := call
  cases progress with
  | returned r => exact .inl ⟨r, rfl⟩
  | thrown => exact .inr rfl
  | aborted => exact inv.2.2.elim
  | start => simp [sectionsLeft] at none_left
  | running sec l => cases sec <;> simp [sectionsLeft] at none_left

/-- A total that every section moves by what its call owes, for the calls that
name the entity, moves over all the sections of a call by what it owes at the end. -/
theorem ledger_owed (nonneg : ∀ q ∈ requests, q.Nonneg) (total : Nat → BillingContainerState → Int)
    (key : Bid → Nat) (owed : Request → Progress → Int) (start : ∀ q, owed q .start = 0)
    (moves : ∀ {s q p r}, SectionOk s q p r → ∀ id, total id r.1 = total id s +
      if id = key q.ids then owed q r.2 - owed q p else 0)
    (hq : requests[i]? = some q)
    (h : (run (confirmBidStep P) (calls s requests) schedule).2[i]? = some call) (id : Nat) :
    ledger (confirmBidStep P) (total id) (calls s requests) schedule i =
      if id = key q.ids then owed q call.progress else 0 := by
  have holds := calls_holds s requests nonneg
  have inv := Interleaving.run_inv (confirmBidStep_kept P requests) holds schedule i call h
  have request : call.request = q := Option.some.inj (inv.1.symm.trans hq)
  have fresh : (calls s requests).2[i]? = some q.fresh := by simp [calls, hq]
  have settled := Interleaving.ledger_eq (confirmBidStep_kept P requests) (total id)
    (fun _ c => if id = key c.request.ids then owed c.request c.progress else 0) ?_ holds schedule
    fresh h
  · rw [settled, request]
    simp [Request.fresh, start]
  · rintro _ s c ⟨-, nonneg, inv⟩
    have moved := moves (step_sectionOk P s c nonneg inv) id
    dsimp only at moved
    rw [confirmBidStep_request, moved]
    split <;> omega

/-- Money is conserved by every call of any interleaving. No assertion fails. A
call that has returned hands back between nothing and what was passed, nothing
if it answers available, and over all its sections it has moved the totals of
the entities it names by exactly what it kept, and no other total. -/
theorem confirmBid_conserves (P : Platform) (s : BillingContainerState) (requests : List Request)
    (nonneg : ∀ q ∈ requests, 0 ≤ q.accountBidAmount ∧ 0 ≤ q.bid.amount) (schedule : List Nat) :
    (∀ call ∈ (run (confirmBidStep P) (calls s requests) schedule).2, call.progress ≠ .aborted) ∧
      ∀ (i : Nat) (q : Request) (r : BidResult), requests[i]? = some q →
        resultOf (run (confirmBidStep P) (calls s requests) schedule) i = some r →
        (0 ≤ r.accountBidAmount ∧ r.accountBidAmount ≤ q.accountBidAmount) ∧
        (0 ≤ r.bid.amount ∧ r.bid.amount ≤ q.bid.amount) ∧
        (r.available = true → r.accountBidAmount = 0 ∧ r.bid.amount = 0) ∧
        (∀ id, ledger (confirmBidStep P) (accountTotal id) (calls s requests) schedule i =
          if id = q.ids.accountId then q.accountBidAmount - r.accountBidAmount else 0) ∧
        (∀ id, ledger (confirmBidStep P) (campaignTotal id) (calls s requests) schedule i =
          if id = q.ids.campaignId then q.bid.amount - r.bid.amount else 0) ∧
        (∀ id, ledger (confirmBidStep P) (ccgTotal id) (calls s requests) schedule i =
          if id = q.ids.ccgId then q.bid.amount - r.bid.amount else 0) := by
  have kept := Interleaving.run_inv (confirmBidStep_kept P requests) (calls_holds s requests nonneg)
    schedule
  constructor
  · intro call member
    obtain ⟨i, h⟩ := List.getElem?_of_mem member
    intro aborted
    have inv := (kept i call h).2.2
    rw [aborted] at inv
    exact inv
  · intro i q r hq hr
    obtain ⟨call, h, returned⟩ := resultOf_eq_some.1 hr
    obtain ⟨mine, -, inv⟩ := kept i call h
    obtain rfl : call.request = q := Option.some.inj (mine.symm.trans hq)
    rw [returned] at inv
    obtain ⟨h1, h2, h3, h4, h5⟩ := inv
    refine ⟨⟨h1, h2⟩, ⟨h3, h4⟩, h5, fun id => ?_, fun id => ?_, fun id => ?_⟩
    · rw [ledger_owed nonneg accountTotal (·.accountId) accountOwed (fun _ => rfl)
        (fun ok => ok.account) hq h id, returned]
      rfl
    · rw [ledger_owed nonneg campaignTotal (·.campaignId) campaignOwed (fun _ => rfl)
        (fun ok => ok.campaign) hq h id, returned]
      rfl
    · rw [ledger_owed nonneg ccgTotal (·.ccgId) ccgOwed (fun _ => rfl)
        (fun ok => ok.ccg) hq h id, returned]
      rfl

/-- Two bids of ten on an account of fifteen: the second is cut to five. -/
theorem second_bid_cut :
    let requests := List.replicate 2
      (smallRequest (smallConfig 15 100 100) 10 ⟨10, 0, 0⟩)
    let schedule := [0, 1, 0, 1, 0, 1, 1, 0, 0, 1, 1, 0, 1, 0]
    let moved (m : BillingContainerState → Int) :=
      ledger (confirmBidStep .floored) m (calls .empty requests) schedule 1
    moved (accountTotal 1) = 5 ∧ moved (campaignTotal 1) = 5 ∧ moved (ccgTotal 1) = 5 := by
  intro requests schedule moved
  have kept := (confirmBid_conserves .floored .empty requests (by decide) schedule).2 1 _
    ⟨false, 5, ⟨5, 0, 0⟩⟩ rfl (by decide +kernel)
  exact ⟨kept.2.2.2.1 1, kept.2.2.2.2.1 1, kept.2.2.2.2.2 1⟩

end Runs

end AdServer.Billing
