import AdServer.CampaignManager.Candidates

/-!
# The proportional text auction

`select_text_campaigns_prop_probability_`: slot by slot a group is drawn by its
expected value and a member by its bid, among the bids that can still reach the
floor, and the drawn candidate's whole group leaves the auction.
-/

namespace AdServer.CampaignManager

open AdServer.Lib

/-- `AccountTypeFlags::GROSS`. -/
def grossFlag : Nat := 0x10

def costIsGross (atFlags : Nat) : Bool := atFlags &&& grossFlag != 0

/-- `AccountTypeFlags::AGENCY_PROFIT_BY_PUB_AMOUNT`. -/
def agencyProfitByPubAmountFlag : Nat := 0x8000

def Account.commisionAccount (account : Account) : CommisionAccount :=
  account.agencyAccount.getD ⟨account.atFlags, account.auctionRate, account.selfServiceCommission⟩

/-- `AccountDef::adapt_cost`, which makes a bid into `max_cpc`. -/
def Account.adaptCost (R : RevenueArith) (account : Account) (cost ccgCommision : Int) : Int :=
  let _resCost :=
    if account.mediaHandlingFee ≠ 0 then R.mul cost (R.one - account.mediaHandlingFee) else cost
  -- starts again from the cost: what the fee took off is lost
  let resCost := R.mul cost (R.one - ccgCommision)
  let resCost :=
    if account.commisionAccount.atFlags &&& agencyProfitByPubAmountFlag = 0 then
      R.mul resCost (R.one - account.commision)
    else R.div resCost (R.one + account.commision)
  R.div resCost (R.one + account.commisionAccount.selfServiceCommission)

/-- The first half of `AccountDef::revert_cost`: the media handling fee. -/
def Account.revertFee (R : RevenueArith) (account : Account) (cost : Int) : Except Fault Int :=
  if account.mediaHandlingFee ≠ 0 then do
    check (decide (account.mediaHandlingFee ≠ R.one))
    return R.div cost (R.one - account.mediaHandlingFee)
  else .ok cost

/-- The second half of `AccountDef::revert_cost`: the commission. -/
def Account.revertCommision (R : RevenueArith) (account : Account) (resCost commision : Int) :
    Int :=
  let isGross := costIsGross account.commisionAccount.atFlags
  if !isGross && account.commisionAccount.auctionRate == .gross then
    R.mul resCost (R.one - commision)
  else if isGross && account.commisionAccount.auctionRate == .net then
    R.div resCost (R.one - commision)
  else resCost

def Account.revertCost (R : RevenueArith) (account : Account) (cost commision : Int) :
    Except Fault Int := do
  let resCost ← account.revertFee R cost
  return account.revertCommision R resCost commision

/-- One round of `revert_cost_`: what a keyword is charged, in the digits of its
account's currency and not nothing for a bid that is not nothing. -/
def revertKeywordCost (R : RevenueArith) (kw : CampaignKeyword) (cost : Int) :
    Except Fault Int := do
  let reverted ← kw.campaign.advertiser.revertCost R cost kw.campaign.commision
  let fraction := kw.campaign.account.currency.fraction
  return if reverted = 0 ∧ kw.maxCpc ≠ 0 then R.lastDigit fraction else R.ceil reverted fraction

def WeightedCampaignKeyword.withCpc (c : WeightedCampaignKeyword) (cpc : Int) :
    WeightedCampaignKeyword :=
  { c with actualCpc := cpc }

def revertOne (R : RevenueArith) (c : WeightedCampaignKeyword) :
    Except Fault WeightedCampaignKeyword :=
  match c.campaignKeyword with
  | none => .ok c
  | some kw => do
    let cpc ← revertKeywordCost R kw c.actualCpc
    return c.withCpc cpc

def revertCost_ (R : RevenueArith) : List WeightedCampaignKeyword →
    Except Fault (List WeightedCampaignKeyword)
  | [] => .ok []
  | c :: rest => do
    let first ← revertOne R c
    let others ← revertCost_ R rest
    return first :: others

section RevertCost

variable {R : RevenueArith}

section
variable (c : WeightedCampaignKeyword)

@[simp] theorem withCpc_group (cpc : Int) :
    (c.withCpc cpc).group = c.group := rfl

@[simp] theorem withCpc_actualEcpm (cpc : Int) :
    (c.withCpc cpc).actualEcpm = c.actualEcpm := rfl

@[simp] theorem withCpc_withCpc (cpc cpc' : Int) :
    (c.withCpc cpc).withCpc cpc' = c.withCpc cpc' := rfl

end

/-- Two candidates that differ in what a click costs only. -/
def SameButCpc (c c' : WeightedCampaignKeyword) : Prop := ∃ cpc, c' = c.withCpc cpc

/-- The fee that `revert_cost` asserts not to take everything. -/
def FeeLeaves (R : RevenueArith) (c : WeightedCampaignKeyword) : Prop :=
  ∀ kw ∈ c.campaignKeyword, kw.campaign.advertiser.mediaHandlingFee ≠ R.one

variable {account : Account} {cost cost' reverted reverted' commision : Int} {kw : CampaignKeyword}
  {c c' : WeightedCampaignKeyword} {cs cs' : List WeightedCampaignKeyword}

theorem revertCost_eq (fee : account.mediaHandlingFee ≠ R.one) (cost commision : Int) :
    ∃ reverted, account.revertCost R cost commision = .ok reverted := by
  have pass : check (decide (account.mediaHandlingFee ≠ R.one)) = .ok () := by simp [fee]
  unfold Account.revertCost Account.revertFee
  split
  · rw [pass]
    exact ⟨_, rfl⟩
  · exact ⟨_, rfl⟩

/-- What charging a keyword takes for granted: a rate of exchange, and fees that
do not take everything. -/
structure Chargeable (R : RevenueArith) (kw : CampaignKeyword) : Prop where
  rate : 0 < kw.campaign.account.currency.rate
  ctr : 0 ≤ kw.ctr
  maxCpc : 0 ≤ kw.maxCpc
  fee_lt : kw.campaign.advertiser.mediaHandlingFee < R.one
  commision_lt : kw.campaign.commision < R.one

/-- The offer of a keyword for a click, in the digits of its account's currency. -/
def CampaignKeyword.offer (R : RevenueArith) (kw : CampaignKeyword) : Int :=
  R.ceil kw.maxCpc kw.campaign.account.currency.fraction

/-- The greatest cost that is at most `most` when the fee is put back. -/
def Account.feeBound (R : RevenueArith) (account : Account) (most : Int) : Int :=
  if account.mediaHandlingFee ≠ 0 then R.divBound (R.one - account.mediaHandlingFee) most else most

/-- The greatest cost that is at most `most` when the commission is put back. -/
def Account.commisionBound (R : RevenueArith) (account : Account) (commision most : Int) : Int :=
  let isGross := costIsGross account.commisionAccount.atFlags
  if !isGross && account.commisionAccount.auctionRate == .gross then
    R.mulBound (R.one - commision) most
  else if isGross && account.commisionAccount.auctionRate == .net then
    R.divBound (R.one - commision) most
  else most

/-- The greatest cost of a click within the offer: it leaves room for the fee and the
commission. -/
def CampaignKeyword.mostCost (R : RevenueArith) (kw : CampaignKeyword) : Int :=
  let advertiser := kw.campaign.advertiser
  advertiser.feeBound R (advertiser.commisionBound R kw.campaign.commision (kw.offer R))

theorem revertFee_le_iff (fee_lt : account.mediaHandlingFee < R.one) (nonneg : 0 ≤ cost)
    (done : account.revertFee R cost = .ok reverted) :
    0 ≤ reverted ∧ ∀ most, reverted ≤ most ↔ cost ≤ account.feeBound R most := by
  have left : 0 < R.one - account.mediaHandlingFee := by omega
  have pass : check (decide (account.mediaHandlingFee ≠ R.one)) = .ok () := by
    simp [fee_lt.ne]
  unfold Account.revertFee at done
  unfold Account.feeBound
  split at done
  · next fee =>
    rw [pass] at done
    cases done
    refine ⟨R.div_nonneg nonneg left, fun most => ?_⟩
    rw [if_pos fee, R.div_le_iff nonneg left]
  · next fee =>
    cases done
    refine ⟨nonneg, fun most => ?_⟩
    rw [if_neg fee]

theorem revertCommision_le_iff (account : Account) (commision_lt : commision < R.one)
    (nonneg : 0 ≤ cost) (most : Int) :
    account.revertCommision R cost commision ≤ most ↔
      cost ≤ account.commisionBound R commision most := by
  have kept : 0 < R.one - commision := by omega
  unfold Account.revertCommision Account.commisionBound
  dsimp only
  split
  · exact R.mul_le_iff nonneg kept
  · split
    · exact R.div_le_iff nonneg kept
    · exact Iff.rfl

theorem revertKeywordCost_le_iff (sane : Chargeable R kw) (nonneg : 0 ≤ cost) {charged : Int}
    (h : revertKeywordCost R kw cost = .ok charged) :
    charged ≤ kw.offer R ↔ cost ≤ kw.mostCost R := by
  obtain ⟨reverted, done⟩ := revertCost_eq sane.fee_lt.ne cost kw.campaign.commision
  have within : reverted ≤ kw.offer R ↔ cost ≤ kw.mostCost R := by
    rw [Account.revertCost] at done
    cases fee : kw.campaign.advertiser.revertFee R cost with
    | error fault => simp [fee, bind, Except.bind] at done
    | ok base =>
      obtain ⟨base_nonneg, bound⟩ := revertFee_le_iff sane.fee_lt nonneg fee
      rw [fee] at done
      cases done
      exact (revertCommision_le_iff _ sane.commision_lt base_nonneg _).trans (bound _)
  rw [revertKeywordCost, done] at h
  cases h
  rw [← within]
  have offered := sane.maxCpc
  by_cases free : reverted = 0 ∧ kw.maxCpc ≠ 0
  · obtain ⟨rfl, bid⟩ := free
    have last := R.lastDigit_le_ceil (by omega : 0 < kw.maxCpc) kw.campaign.account.currency.fraction
    have pos := R.lastDigit_pos kw.campaign.account.currency.fraction
    simp only [ne_eq, bid, not_false_eq_true, and_self, if_true]
    exact iff_of_true last (pos.le.trans last)
  · rw [if_neg free]
    exact R.ceil_le_ceil_iff

theorem maxCpc_le_mostCost (sane : Chargeable R kw)
    (no_fee : kw.campaign.advertiser.mediaHandlingFee = 0)
    (rate : ¬ (costIsGross kw.campaign.advertiser.commisionAccount.atFlags = true ∧
      kw.campaign.advertiser.commisionAccount.auctionRate = .net))
    (commision : 0 ≤ kw.campaign.commision) : kw.maxCpc ≤ kw.mostCost R := by
  have kept : 0 < R.one - kw.campaign.commision := sub_pos.2 sane.commision_lt
  unfold CampaignKeyword.mostCost Account.feeBound Account.commisionBound
  dsimp only
  rw [if_neg (not_not.2 no_fee)]
  split_ifs with gross net
  · rw [← R.mul_le_iff sane.maxCpc kept, R.mul_comm_of_nonneg sane.maxCpc kept.le]
    exact (R.mul_le_right kept.le sane.maxCpc (by omega)).trans (R.le_ceil _ _)
  · exact absurd (by simpa using net) rate
  · exact R.le_ceil _ _

theorem revertOne_eq (fee : FeeLeaves R c) : ∃ c', revertOne R c = .ok c' := by
  unfold revertOne revertKeywordCost
  split
  · exact ⟨c, rfl⟩
  · next kw here =>
    obtain ⟨reverted, done⟩ := revertCost_eq (fee kw here) c.actualCpc kw.campaign.commision
    rw [done]
    exact ⟨_, rfl⟩

theorem revertOne_same (h : revertOne R c = .ok c') : SameButCpc c c' := by
  unfold revertOne at h
  split at h
  · cases h
    exact ⟨c.actualCpc, rfl⟩
  · next kw here =>
    cases cost : revertKeywordCost R kw c.actualCpc with
    | error fault =>
      rw [cost] at h
      cases h
    | ok cpc =>
      rw [cost] at h
      cases h
      exact ⟨cpc, rfl⟩

theorem revertOne_cpc (h : revertOne R c = .ok c') (here : c.campaignKeyword = some kw) :
    revertKeywordCost R kw c.actualCpc = .ok c'.actualCpc := by
  unfold revertOne at h
  rw [here] at h
  dsimp only at h
  cases cost : revertKeywordCost R kw c.actualCpc with
  | error fault =>
    rw [cost] at h
    cases h
  | ok cpc =>
    rw [cost] at h
    cases h
    rfl

theorem revertCost_spec (fees : ∀ c ∈ cs, FeeLeaves R c) :
    ∃ cs', revertCost_ R cs = .ok cs' ∧
      List.Forall₂ (fun c c' => revertOne R c = .ok c') cs cs' := by
  induction cs with
  | nil => exact ⟨[], rfl, List.Forall₂.nil⟩
  | cons c rest ih =>
    obtain ⟨c', first⟩ := revertOne_eq (fees c List.mem_cons_self)
    obtain ⟨rest', others, all⟩ := ih (fun c mem => fees c (List.mem_cons_of_mem _ mem))
    refine ⟨c' :: rest', ?_, List.Forall₂.cons first all⟩
    rw [revertCost_, first, others]
    rfl

/-- What only reads a candidate apart from its cost is the same of both lists. -/
theorem map_eq_of_reverted {β : Type} {f : WeightedCampaignKeyword → β}
    (f_withCpc : ∀ c cpc, f (c.withCpc cpc) = f c)
    (h : List.Forall₂ (fun c c' => revertOne R c = .ok c') cs cs') : cs'.map f = cs.map f := by
  induction h with
  | nil => rfl
  | cons first _ ih =>
    obtain ⟨cpc, rfl⟩ := revertOne_same first
    rw [List.map_cons, List.map_cons, f_withCpc, ih]

theorem exists_of_reverted (h : List.Forall₂ (fun c c' => revertOne R c = .ok c') cs cs')
    (mem : c' ∈ cs') : ∃ c ∈ cs, revertOne R c = .ok c' := by
  induction h with
  | nil => simp at mem
  | cons first _ ih =>
    cases List.mem_cons.1 mem with
    | inl same => exact ⟨_, List.mem_cons_self, same ▸ first⟩
    | inr later =>
      obtain ⟨c, hc, one⟩ := ih later
      exact ⟨c, List.mem_cons_of_mem _ hc, one⟩

end RevertCost

/-- `RAND_MAX`. -/
def randMax : Nat := 2147483647

/-- What the random generator gives for one slot: `unsafe_rand()` and
`unsafe_rand(n)` for the group, then for its member. -/
structure SlotDraw where
  group : Nat
  groupIndex : Nat
  member : Nat
  memberIndex : Nat

/-- A pointer into the list of candidates. -/
abbrev CandidatePtr := Nat × WeightedCampaignKeyword

structure TextState where
  /-- the candidates whose campaign is not nulled -/
  live : List CandidatePtr
  selected : List WeightedCampaignKeyword
  ecpmSum : Int

section Auction

variable (R : RevenueArith)

/-- A random share of a sum. -/
def randomOffset (rand : Nat) (sum : Int) : Int :=
  R.mul (R.div (R.ofNat rand) (R.ofNat randMax)) sum

def pickGroup (groups : List (Int × List CandidatePtr)) (ecpmSum : Int) (d : SlotDraw) :
    Option (Int × List CandidatePtr) :=
  if ecpmSum ≠ 0 then
    (draw Prod.fst (randomOffset R d.group ecpmSum) groups).or groups.getLast?
  else groups[d.groupIndex % groups.length]?

def pickMember (group : List CandidatePtr) (d : SlotDraw) : Option CandidatePtr :=
  let groupEcpmSum := totalWeight (fun p : CandidatePtr => p.2.actualEcpm) group
  if groupEcpmSum ≠ 0 then
    (draw (fun p : CandidatePtr => p.2.actualEcpm) (randomOffset R d.member groupEcpmSum)
      group.dropLast).or group.getLast?
  else group[d.memberIndex % group.length]?

/-- What a click on a candidate costs before it is reverted. -/
def slotCpc (c : WeightedCampaignKeyword) : Int :=
  match c.campaignKeyword with
  | some kw => kw.maxCpc
  | none => c.campaign.clickRevenue

def isLive (live : List CandidatePtr) (p : CandidatePtr) : Bool :=
  decide (p.1 ∈ live.map Prod.fst)

/-- The rest of a round once there are candidates for the slot. -/
def selectSlot (maps : IdMaps CandidatePtr) (d : SlotDraw) (filtered : List CandidatePtr)
    (s : TextState) : Except Fault TextState := do
  let (groups, ecpmSum) ← groupTextCampaigns_ R (fun p : CandidatePtr => p.2.actualEcpm)
    (fun p => p.2.group) (· + ·) 0 filtered
  let (_, group) ← deref (pickGroup R groups ecpmSum d)
  check (group.all (isLive s.live))
  let picked ← deref (pickMember R group d)
  check (isLive s.live picked)
  let campaignsGroup := maps.campaignsGroup picked.2.group
  check campaignsGroup.isSome
  return {
    live := s.live.filter (fun p => decide (p.1 ∉ (campaignsGroup.getD []).map Prod.fst))
    selected := s.selected ++ [picked.2.withCpc (slotCpc picked.2)]
    ecpmSum := s.ecpmSum + picked.2.actualEcpm }

/-- The rounds, counted by the slots that remain. -/
def selectSlots (tagMinEcpm : Int) (maps : IdMaps CandidatePtr) (draws : Nat → SlotDraw) :
    Nat → TextState → Except Fault (Bool × List WeightedCampaignKeyword)
  | 0, s => do
    let result ← revertCost_ R s.selected
    return (true, result)
  | remaining + 1, s =>
    let minEcpm := R.div (tagMinEcpm - s.ecpmSum) (R.ofNat (remaining + 1))
    let filtered := s.live.filter (fun p => decide (minEcpm ≤ p.2.actualEcpm))
    if filtered = [] then
      .ok (if s.ecpmSum < tagMinEcpm then (false, []) else (true, s.selected))
    else do
      let next ← selectSlot R maps (draws remaining) filtered s
      selectSlots tagMinEcpm maps draws remaining next

def selectTextCampaignsPropProbability_ (candidates : List WeightedCampaignKeyword)
    (tagMinEcpm : Int) (maxTextCreatives : Nat) (draws : Nat → SlotDraw) :
    Except Fault (Bool × List WeightedCampaignKeyword) :=
  let pointers := candidates.zipIdx.map Prod.swap
  selectSlots R tagMinEcpm (IdMaps.fill (fun p => p.2.group) pointers) draws maxTextCreatives
    ⟨pointers, [], 0⟩

end Auction

section Slot

variable {R : RevenueArith}

theorem exists_pick {α : Type} {xs : List α} (some : xs ≠ []) (found : Option α) (i : Nat)
    (mem : ∀ x, found = Option.some x → x ∈ xs) (draws : Bool) :
    ∃ x ∈ xs, (if draws then found.or xs.getLast? else xs[i % xs.length]?) = Option.some x := by
  cases draws with
  | true =>
    cases found with
    | some x => exact ⟨x, mem x rfl, rfl⟩
    | none => exact ⟨xs.getLast some, List.getLast_mem some, by simp [List.getLast?_eq_some_getLast some]⟩
  | false =>
    have bound : i % xs.length < xs.length := Nat.mod_lt _ (List.length_pos_iff.2 some)
    exact ⟨xs[i % xs.length], List.getElem_mem bound, by simp [bound]⟩

theorem pickGroup_mem {groups : List (Int × List CandidatePtr)} (some : groups ≠ [])
    (ecpmSum : Int) (d : SlotDraw) : ∃ g ∈ groups, pickGroup R groups ecpmSum d = Option.some g := by
  obtain ⟨g, mem, found⟩ := exists_pick some (draw Prod.fst (randomOffset R d.group ecpmSum) groups)
    d.groupIndex (fun g h => draw_mem h) (decide (ecpmSum ≠ 0))
  exact ⟨g, mem, by simpa [pickGroup] using found⟩

theorem pickMember_mem {group : List CandidatePtr} (some : group ≠ []) (d : SlotDraw) :
    ∃ p ∈ group, pickMember R group d = Option.some p := by
  let weight := fun p : CandidatePtr => p.2.actualEcpm
  obtain ⟨p, mem, found⟩ := exists_pick some
    (draw weight (randomOffset R d.member (totalWeight weight group)) group.dropLast)
    d.memberIndex (fun p h => List.dropLast_subset _ (draw_mem h))
    (decide (totalWeight weight group ≠ 0))
  exact ⟨p, mem, by simpa [pickMember, weight] using found⟩

/-- The candidates with their positions. -/
def pointersOf (candidates : List WeightedCampaignKeyword) : List CandidatePtr :=
  candidates.zipIdx.map Prod.swap

variable {candidates : List WeightedCampaignKeyword} {p : CandidatePtr} {s : TextState}

theorem mem_pointersOf : p ∈ pointersOf candidates ↔ candidates[p.1]? = some p.2 := by
  obtain ⟨i, c⟩ := p
  simp [pointersOf, List.mem_zipIdx_iff_getElem?]

theorem mem_of_mem_pointersOf (h : p ∈ pointersOf candidates) : p.2 ∈ candidates :=
  List.mem_of_getElem? (mem_pointersOf.1 h)

theorem pointer_ext {p q : CandidatePtr} (hp : p ∈ pointersOf candidates)
    (hq : q ∈ pointersOf candidates) (same : p.1 = q.1) : p = q := by
  have first := mem_pointersOf.1 hp
  have second := mem_pointersOf.1 hq
  rw [same, second] at first
  exact Prod.ext same (Option.some.inj first).symm

variable {candidates : List WeightedCampaignKeyword}

/-- A slot takes one of the filtered candidates and leaves none of its group. -/
theorem selectSlot_spec {d : SlotDraw} {filtered : List CandidatePtr}
    (live : ∀ p ∈ s.live, p ∈ pointersOf candidates) (part : ∀ p ∈ filtered, p ∈ s.live)
    (some : filtered ≠ []) (nonneg : ∀ c ∈ candidates, 0 ≤ c.actualEcpm) :
    ∃ picked ∈ filtered, ∃ s',
      selectSlot R (IdMaps.fill (fun p => p.2.group) (pointersOf candidates)) d filtered s = .ok s' ∧
      s'.selected = s.selected ++ [picked.2.withCpc (slotCpc picked.2)] ∧
      s'.ecpmSum = s.ecpmSum + picked.2.actualEcpm ∧
      ∀ p, p ∈ s'.live ↔ p ∈ s.live ∧ p.2.group ≠ picked.2.group := by
  let key : CandidatePtr → TextAdserving × Nat := fun p => p.2.group
  have bids : ∀ g ∈ (IdMaps.fill key filtered).groups, ∀ p ∈ g.2, 0 ≤ p.2.actualEcpm := by
    intro g hg p hp
    have mem := (IdMaps.of_mem_groups_fill hg).2 p hp
    exact nonneg _ (mem_of_mem_pointersOf (live p (part p mem)))
  have grouped : groupIdMap_ R (fun p : CandidatePtr => p.2.actualEcpm) (· + ·)
      (IdMaps.fill key filtered).groups ([], 0) = _ := groupIdMap_eq bids [] 0
  have same : (groupedMap R (fun p : CandidatePtr => p.2.actualEcpm)
      (IdMaps.fill key filtered).groups []).Perm _ := groupedMap_perm _ []
  rw [List.append_nil] at same
  generalize groupedMap R (fun p : CandidatePtr => p.2.actualEcpm)
    (IdMaps.fill key filtered).groups [] = groups at grouped same
  generalize List.foldl _ _ _ = total at grouped
  -- some group is there, since some candidate is
  have groups_some : groups ≠ [] := by
    obtain ⟨p, hp⟩ := List.exists_mem_of_ne_nil filtered some
    have grouped : ∃ id, (id, IdMaps.members key filtered (key p)) ∈
        (IdMaps.fill key filtered).groups := IdMaps.exists_group_of_mem hp
    obtain ⟨id, mem⟩ := grouped
    exact List.ne_nil_of_mem (same.mem_iff.2 (List.mem_map_of_mem mem))
  obtain ⟨⟨value, group⟩, group_mem, group_found⟩ := pickGroup_mem (R := R) groups_some total d
  obtain ⟨⟨id, group'⟩, is_group, eq⟩ := List.mem_map.1 (same.mem_iff.1 group_mem)
  cases eq
  obtain ⟨group_some, group_part⟩ := IdMaps.of_mem_groups_fill is_group
  obtain ⟨picked, picked_mem, picked_found⟩ := pickMember_mem (R := R) group_some d
  have in_live : ∀ p ∈ group', isLive s.live p = true := by
    intro p hp
    exact decide_eq_true (List.mem_map_of_mem (part p (group_part p hp)))
  have picked_live := part picked (group_part picked picked_mem)
  have own : IdMaps.members key (pointersOf candidates) picked.2.group ≠ [] := by
    apply List.ne_nil_of_mem
    exact List.mem_filter.2 ⟨live picked picked_live, by simp [key]⟩
  have whole : (IdMaps.fill key (pointersOf candidates)).campaignsGroup picked.2.group =
      Option.some (IdMaps.members key (pointersOf candidates) picked.2.group) := by
    rw [IdMaps.campaignsGroup_fill, if_neg own]
  let next : TextState :=
    { live := s.live.filter (fun p => decide
        (p.1 ∉ (IdMaps.members key (pointersOf candidates) picked.2.group).map Prod.fst))
      selected := s.selected ++ [picked.2.withCpc (slotCpc picked.2)]
      ecpmSum := s.ecpmSum + picked.2.actualEcpm }
  refine ⟨picked, group_part picked picked_mem, next, ?_, rfl, rfl, ?_⟩
  · simp only [selectSlot, groupTextCampaigns_]
    rw [grouped]
    simp only [ok_bind, group_found, deref_some, picked_found, List.all_eq_true.2 in_live,
      in_live picked picked_mem, check_true]
    change (check ((IdMaps.fill key (pointersOf candidates)).campaignsGroup
      picked.2.group).isSome >>= fun _ => _) = _
    rw [whole]
    rfl
  · intro p
    simp only [next, List.mem_filter, decide_eq_true_eq]
    apply and_congr_right
    intro hp
    apply not_congr
    constructor
    · intro mem
      obtain ⟨q, hq, same⟩ := List.mem_map.1 mem
      obtain ⟨hq, inside⟩ := List.mem_filter.1 hq
      rw [← pointer_ext hq (live p hp) same]
      simpa [key] using inside
    · intro inside
      apply List.mem_map_of_mem
      exact List.mem_filter.2 ⟨live p hp, by simp [key, inside]⟩

/-- What holds between two slots. -/
structure Auctioned (candidates : List WeightedCampaignKeyword) (s : TextState) : Prop where
  live : ∀ p ∈ s.live, p ∈ pointersOf candidates
  apart : ∀ p ∈ s.live, ∀ g ∈ s.selected.map (·.group), p.2.group ≠ g
  groups : (s.selected.map (·.group)).Nodup
  bids : ∀ c ∈ s.selected, ∃ b ∈ candidates, SameButCpc b c
  sum : s.ecpmSum = (s.selected.map (·.actualEcpm)).sum

/-- What a successful auction promises. -/
structure TextSelection (candidates : List WeightedCampaignKeyword) (maxTextCreatives : Nat)
    (tagMinEcpm : Int) (result : List WeightedCampaignKeyword) : Prop where
  count : result.length ≤ maxTextCreatives
  groups : (result.map (·.group)).Nodup
  bids : ∀ c ∈ result, ∃ b ∈ candidates, SameButCpc b c
  floor : tagMinEcpm ≤ (result.map (·.actualEcpm)).sum

theorem nothing_auctioned (candidates : List WeightedCampaignKeyword) :
    Auctioned candidates ⟨pointersOf candidates, [], 0⟩ :=
  ⟨fun _ h => h, by simp, by simp, by simp, by simp⟩

theorem Auctioned.step {s s' : TextState} (h : Auctioned candidates s) {picked : CandidatePtr}
    (mem : picked ∈ s.live)
    (selected : s'.selected = s.selected ++ [picked.2.withCpc (slotCpc picked.2)])
    (ecpmSum : s'.ecpmSum = s.ecpmSum + picked.2.actualEcpm)
    (live : ∀ p, p ∈ s'.live ↔ p ∈ s.live ∧ p.2.group ≠ picked.2.group) :
    Auctioned candidates s' := by
  constructor
  · intro p hp
    exact h.live p ((live p).1 hp).1
  · intro p hp g hg
    obtain ⟨old, other⟩ := (live p).1 hp
    rw [selected, List.map_append, List.mem_append] at hg
    cases hg with
    | inl before => exact h.apart p old g before
    | inr last =>
      simp only [List.map_cons, List.map_nil, List.mem_singleton, withCpc_group] at last
      exact last ▸ other
  · rw [selected, List.map_append]
    have fresh : picked.2.group ∉ s.selected.map (·.group) := fun old =>
      h.apart picked mem _ old rfl
    exact List.concat_eq_append ▸ h.groups.concat fresh
  · intro c hc
    rw [selected, List.mem_append] at hc
    cases hc with
    | inl before => exact h.bids c before
    | inr last =>
      have inside := mem_of_mem_pointersOf (h.live picked mem)
      exact ⟨picked.2, inside, slotCpc picked.2, List.mem_singleton.1 last⟩
  · rw [selected, ecpmSum, h.sum]
    simp

theorem floor_reached {floor sum bid : Int} (nonneg : 0 ≤ bid)
    (filtered : R.div (floor - sum) (R.ofNat 1) ≤ bid) : floor ≤ sum + bid := by
  rw [R.ofNat_one] at filtered
  by_cases short : sum ≤ floor
  · rw [R.div_one (by omega)] at filtered
    omega
  · omega

theorem selectSlots_spec (tagMinEcpm : Int) (draws : Nat → SlotDraw)
    (nonneg : ∀ c ∈ candidates, 0 ≤ c.actualEcpm) (fees : ∀ c ∈ candidates, FeeLeaves R c)
    (remaining : Nat) (h : Auctioned candidates s)
    (reached : remaining = 0 → tagMinEcpm ≤ s.ecpmSum) :
    ∃ ok result, selectSlots R tagMinEcpm
        (IdMaps.fill (fun p => p.2.group) (pointersOf candidates)) draws remaining s =
          .ok (ok, result) ∧
      (ok = false → result = []) ∧
      (ok = true → TextSelection candidates (s.selected.length + remaining) tagMinEcpm result) := by
  induction remaining generalizing s with
  | zero =>
    have selected_fees : ∀ c ∈ s.selected, FeeLeaves R c := by
      intro c hc
      obtain ⟨b, hb, cpc, rfl⟩ := h.bids c hc
      exact fees b hb
    obtain ⟨result, reverted, same⟩ := revertCost_spec selected_fees
    have groups := map_eq_of_reverted (f := (·.group)) (fun _ _ => rfl) same
    have ecpms := map_eq_of_reverted (f := (·.actualEcpm)) (fun _ _ => rfl) same
    refine ⟨true, result, ?_, by simp, fun _ => ?_⟩
    · rw [selectSlots, reverted]
      rfl
    · constructor
      · exact same.length_eq.ge
      · rw [groups]
        exact h.groups
      · intro c' hc'
        obtain ⟨c, hc, one⟩ := exists_of_reverted same hc'
        obtain ⟨cpc, rfl⟩ := revertOne_same one
        obtain ⟨b, hb, cpc', rfl⟩ := h.bids c hc
        exact ⟨b, hb, cpc, withCpc_withCpc b cpc' cpc⟩
      · rw [ecpms, ← h.sum]
        exact reached rfl
  | succ remaining ih =>
    rw [selectSlots]
    split
    · by_cases short : s.ecpmSum < tagMinEcpm
      · exact ⟨false, [], by rw [if_pos short], fun _ => rfl, by simp⟩
      · refine ⟨true, s.selected, by rw [if_neg short], by simp, fun _ => ?_⟩
        exact ⟨by omega, h.groups, h.bids, h.sum ▸ not_lt.1 short⟩
    · next some =>
      obtain ⟨picked, mem, s', done, selected, ecpmSum, live⟩ := selectSlot_spec (R := R)
        (d := draws remaining) h.live (fun p hp => List.mem_of_mem_filter hp) some nonneg
      obtain ⟨picked_live, filtered⟩ := List.mem_filter.1 mem
      have bid := nonneg _ (mem_of_mem_pointersOf (h.live picked picked_live))
      have next := h.step picked_live selected ecpmSum live
      have last : remaining = 0 → tagMinEcpm ≤ s'.ecpmSum := by
        intro last
        subst last
        rw [ecpmSum]
        exact floor_reached bid (of_decide_eq_true filtered)
      obtain ⟨ok, result, run, failed, succeeded⟩ := ih next last
      refine ⟨ok, result, ?_, failed, fun won => ?_⟩
      · rw [done]
        exact run
      · have all := succeeded won
        rw [selected, List.length_append] at all
        exact ⟨all.count.trans (by simp; omega), all.groups, all.bids, all.floor⟩

/-- The auction returns, and with candidates of its own, of different groups,
that reach the floor together, or with none. -/
theorem selectTextCampaigns_spec (nonneg : ∀ c ∈ candidates, 0 ≤ c.actualEcpm)
    (fees : ∀ c ∈ candidates, FeeLeaves R c) (tagMinEcpm : Int) {maxTextCreatives : Nat}
    (slots : 1 ≤ maxTextCreatives) (draws : Nat → SlotDraw) :
    ∃ ok result, selectTextCampaignsPropProbability_ R candidates tagMinEcpm maxTextCreatives draws =
        .ok (ok, result) ∧
      (ok = false → result = []) ∧
      (ok = true → TextSelection candidates maxTextCreatives tagMinEcpm result) := by
  have run := selectSlots_spec (R := R) tagMinEcpm draws nonneg fees maxTextCreatives
    (nothing_auctioned candidates) (by omega)
  simpa [selectTextCampaignsPropProbability_, pointersOf] using run

end Slot

end AdServer.CampaignManager
