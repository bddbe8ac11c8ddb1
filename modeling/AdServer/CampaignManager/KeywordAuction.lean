import AdServer.CampaignManager.FilterCreatives
import AdServer.CampaignManager.TextAuction

/-!
# The keyword auction

`select_campaign_keywords_n_`: candidates are taken by decreasing bid, at most
one of a group, and the first of several keywords pays no more than it takes to
stay first and to reach the floor.
-/

namespace AdServer.CampaignManager

open AdServer.Lib SortedMap

variable {candidates cs : List WeightedCampaignKeyword}

section Bids

variable (R : RevenueArith)

def Currency.toSystemCurrency (currency : Currency) (value : Int) : Int :=
  R.div value currency.rate

def Currency.fromSystemCurrency (currency : Currency) (value : Int) : Int :=
  R.mul value currency.rate

/-- `default_campaign_ecpm_`. -/
def defaultCampaignEcpm_ (tag : Tag) (campaign : Campaign) : Int :=
  if campaign.useCtr then
    R.mul (min (R.mul (R.mul campaign.ctr R.ecpmFactor) tag.adjustment) R.ecpmFactor)
      campaign.clickSysRevenue
  else campaign.ecpm_

/-- The bid of a keyword at a click rate. -/
def keywordEcpm (kw : CampaignKeyword) (ctr : Int) : Int :=
  kw.campaign.account.currency.toSystemCurrency R (R.mul (R.mul R.ecpmFactor ctr) kw.maxCpc)

/-- `default_campaign_keyword_ecpm_`. -/
def defaultCampaignKeywordEcpm_ (tag : Tag) (campaign : Campaign) :
    Option CampaignKeyword → Int
  | some kw => keywordEcpm R kw kw.ctr
  | none => defaultCampaignEcpm_ R tag campaign

/-- The rate that `campaign_ctr_` gives: the greatest of the creatives. -/
def campaignCtr_ (getCtr : Creative → Int) (creatives : List Creative) : Int :=
  creatives.foldl (fun maxCtr creative => max maxCtr (getCtr creative)) 0

/-- `campaign_ecpm_`: the bid and the click rate. -/
def campaignEcpm_ (getCtr : Creative → Int) (campaign : Campaign) (creatives : List Creative) :
    Int × Int :=
  if campaign.useCtr then
    let ctr := campaignCtr_ getCtr creatives
    (R.mul campaign.clickSysRevenue (R.mul ctr R.ecpmFactor), ctr)
  else (campaign.ecpm_, 0)

/-- `campaign_keyword_ecpm_`. -/
def campaignKeywordEcpm_ (getCtr : Creative → Int) (campaign : Campaign)
    (kw : Option CampaignKeyword) (creatives : List Creative) : Int × Int :=
  match kw with
  | some kw =>
    let ctr := campaignCtr_ getCtr creatives
    (keywordEcpm R kw ctr, ctr)
  | none => campaignEcpm_ R getCtr campaign creatives

end Bids

/-! ## Order of the candidates -/

/-- `convert_text_candidates_to_cpc_map_`: every candidate goes to a random
place among those with the same bid. -/
def convertTextCandidatesToCpcMap_ (mix : Nat → Nat) :
    List WeightedCampaignKeyword → SortedMap Int (List WeightedCampaignKeyword) →
    SortedMap Int (List WeightedCampaignKeyword)
  | [], m => m
  | c :: rest, m =>
    let lst := m.bucket c.actualEcpm
    convertTextCandidatesToCpcMap_ mix rest
      (m.put c.actualEcpm (lst.insertIdx (mix rest.length % (lst.length + 1)) c))

/-! ## The greedy pass -/

/-- What the auction asks besides the candidates. -/
structure AuctionEnv where
  templates : CreativeTemplateMap
  key : CreativeKey
  tag : Tag
  tagSize : TagSize
  filter : CreativeFilter
  seqOrders : SortedMap Nat SeqOrder
  /-- `ctr_calculation_context->get_ctr` -/
  getCtr : Option (Creative → Int)
  /-- what the n-th `random_select` of the auction gives -/
  randomSelect : Nat → List Creative → Option Creative

structure CampaignKeywordCreative where
  weightedCampaignKeyword : WeightedCampaignKeyword
  availableCreatives : List Creative
  creative : Creative

/-- The ids of the accounts, advertisers and CCGs already taken. -/
structure FilterIds where
  accountFilterIds : Finset Nat
  advertiserFilterIds : Finset Nat
  ccgFilterIds : Finset Nat

namespace FilterIds

def empty : FilterIds := ⟨∅, ∅, ∅⟩

def filtered (ids : FilterIds) : TextAdserving × Nat → Bool
  | (.all, id) => decide (id ∈ ids.ccgFilterIds)
  | (.advertiserOne, id) => decide (id ∈ ids.advertiserFilterIds)
  | (.one, id) => decide (id ∈ ids.accountFilterIds)

def insert (ids : FilterIds) : TextAdserving × Nat → FilterIds
  | (.all, id) => { ids with ccgFilterIds := Insert.insert id ids.ccgFilterIds }
  | (.advertiserOne, id) =>
    { ids with advertiserFilterIds := Insert.insert id ids.advertiserFilterIds }
  | (.one, id) => { ids with accountFilterIds := Insert.insert id ids.accountFilterIds }

@[simp] theorem filtered_empty (g : TextAdserving × Nat) : empty.filtered g = false := by
  obtain ⟨kind, id⟩ := g
  cases kind <;> simp [empty, filtered]

theorem filtered_insert (ids : FilterIds) (g g' : TextAdserving × Nat) :
    (ids.insert g).filtered g' = true ↔ g' = g ∨ ids.filtered g' = true := by
  obtain ⟨kind, id⟩ := g
  obtain ⟨kind', id'⟩ := g'
  cases kind <;> cases kind' <;> simp [insert, filtered] <;> exact decide_eq_true_iff

end FilterIds

structure PassState where
  filteredMap : SortedMap Int (List CampaignKeywordCreative)
  selectedKeywords : Nat
  filterIds : FilterIds
  met : Nat

section Pass

variable (env : AuctionEnv)

/-- The creatives of a candidate that are available on the size auctioned. -/
def AuctionEnv.availableCreatives (c : WeightedCampaignKeyword) : List Creative :=
  filterCreatives env.templates env.key env.tag
    (some (TagSizeMap.empty.put env.tagSize)) c.campaign
    { env.filter with
      checkClickCategories := c.campaignKeyword.all (fun kw => kw.clickUrl.isEmpty) }
    env.seqOrders [] false

/-- The creative of a candidate: its own, or one of those available. -/
def AuctionEnv.creativeCandidate (met : Nat) (c : WeightedCampaignKeyword) :
    Option CampaignKeywordCreative :=
  match c.creative with
  | some creative => some ⟨c, [creative], creative⟩
  | none =>
    let available := env.availableCreatives c
    (env.randomSelect met available).map (fun creative => ⟨c, available, creative⟩)

/-- One candidate of the pass. -/
def passOne (actualEcpm : Int) (c : WeightedCampaignKeyword) (s : PassState) : PassState :=
  if s.filterIds.filtered c.group then { s with met := s.met + 1 }
  else match env.creativeCandidate s.met c with
    | none => { s with met := s.met + 1 }
    | some taken =>
      { filteredMap := s.filteredMap.pushMapped actualEcpm taken
        selectedKeywords := s.selectedKeywords + 1
        filterIds := s.filterIds.insert c.group
        met := s.met + 1 }

def PassState.start : PassState := ⟨SortedMap.empty, 0, .empty, 0⟩

/-- The nested loops over the candidates by decreasing bid. -/
def filterKeywords (maxKeywords : Nat) (cpcKeywordMap : SortedMap Int (List WeightedCampaignKeyword)) :
    PassState :=
  runWhile (fun s => decide (s.selectedKeywords < maxKeywords))
    (fun (cit : Int × List WeightedCampaignKeyword) s =>
      runWhile (fun s => decide (s.selectedKeywords < maxKeywords)) (passOne env cit.1) cit.2 s)
    cpcKeywordMap.entries.reverse .start

end Pass

section Prices

variable (R : RevenueArith) (env : AuctionEnv)

/-- The bid and the click rate of a candidate that is charged its own bid. -/
def ownBid (k : CampaignKeywordCreative) : Int × Int :=
  let c := k.weightedCampaignKeyword
  match env.getCtr with
  | some getCtr => campaignKeywordEcpm_ R getCtr c.campaign c.campaignKeyword k.availableCreatives
  | none =>
    (defaultCampaignKeywordEcpm_ R env.tag c.campaign c.campaignKeyword,
      match c.campaignKeyword with
      | some kw => kw.ctr
      | none => c.campaign.ctr)

/-- A selected candidate with the bid, the price and the revenue given. -/
def CampaignKeywordCreative.priced (k : CampaignKeywordCreative)
    (actualEcpm actualCpc ecpm ctr : Int) : WeightedCampaignKeyword where
  campaignKeyword := k.weightedCampaignKeyword.campaignKeyword
  campaign := k.weightedCampaignKeyword.campaign
  creative := some k.creative
  actualEcpm := actualEcpm
  actualCpc := actualCpc
  ecpm := ecpm
  ctr := ctr
  convRate := k.weightedCampaignKeyword.convRate
  own := k.weightedCampaignKeyword.own

/-- A candidate behind the first one. -/
def pricedOwnBid (k : CampaignKeywordCreative) : WeightedCampaignKeyword :=
  let bid := ownBid R env k
  k.priced bid.1 (slotCpc k.weightedCampaignKeyword) bid.1 bid.2

structure BiddersState where
  selectedKeywords : Nat
  bidderNumber : Nat
  nonFirstBiddersActualEcpmSum : Int
  secondBidderActualEcpm : Int
  weightedCampaignKeywords : List WeightedCampaignKeyword

def BiddersState.start : BiddersState := ⟨0, 0, 0, 0, []⟩

/-- One candidate of the loop over the bidders behind the first. -/
def bidder (k : CampaignKeywordCreative) (s : BiddersState) : BiddersState :=
  if 0 < s.bidderNumber then
    let actualEcpm := (ownBid R env k).1
    { selectedKeywords := s.selectedKeywords + 1
      bidderNumber := s.bidderNumber + 1
      nonFirstBiddersActualEcpmSum := s.nonFirstBiddersActualEcpmSum + actualEcpm
      secondBidderActualEcpm :=
        if s.bidderNumber = 1 then actualEcpm else s.secondBidderActualEcpm
      weightedCampaignKeywords := s.weightedCampaignKeywords ++ [pricedOwnBid R env k] }
  else { s with bidderNumber := s.bidderNumber + 1 }

def biddersLoop (maxKeywords : Nat)
    (filteredMap : SortedMap Int (List CampaignKeywordCreative)) : BiddersState :=
  runWhile (fun s => decide (s.selectedKeywords < maxKeywords - 1))
    (fun (cit : Int × List CampaignKeywordCreative) s =>
      runWhile (fun s => decide (s.selectedKeywords < maxKeywords - 1)) (bidder R env) cit.2 s)
    filteredMap.entries.reverse .start

/-- The bid of a first keyword that is to be lowered, and its click rate. -/
def maxEcpmBid (k : CampaignKeywordCreative) (kw : CampaignKeyword) : Int × Int :=
  let c := k.weightedCampaignKeyword
  match env.getCtr with
  | some getCtr =>
    if c.campaign.useCtr then
      campaignKeywordEcpm_ R getCtr c.campaign c.campaignKeyword k.availableCreatives
    else (defaultCampaignKeywordEcpm_ R env.tag c.campaign c.campaignKeyword, kw.ctr)
  | none => (defaultCampaignKeywordEcpm_ R env.tag c.campaign c.campaignKeyword, kw.ctr)

/-- What the first bidder has to bring in: more than the second, and what the
others leave of the floor. -/
def minRequiredActualEcpm (minSumEcpm : Int) (s : BiddersState) : Int :=
  max (s.secondBidderActualEcpm + R.one)
    (if s.nonFirstBiddersActualEcpmSum < minSumEcpm then
      minSumEcpm - s.nonFirstBiddersActualEcpmSum
    else 0)

/-- The first keyword of several, lowered to what is required of it. -/
def loweredFirst (minSumEcpm : Int) (s : BiddersState) (k : CampaignKeywordCreative)
    (kw : CampaignKeyword) : WeightedCampaignKeyword :=
  let bid := maxEcpmBid R env k kw
  let actualEcpm := min bid.1 (minRequiredActualEcpm R minSumEcpm s)
  let actualCpc :=
    if bid.2 ≠ 0 then
      k.weightedCampaignKeyword.campaign.account.currency.fromSystemCurrency R
        (R.div actualEcpm (R.mul bid.2 R.ecpmFactor))
    else 0
  k.priced actualEcpm actualCpc bid.1 bid.2

def firstBidder (minSumEcpm : Int) (s : BiddersState) (k : CampaignKeywordCreative) :
    WeightedCampaignKeyword :=
  match k.weightedCampaignKeyword.campaignKeyword with
  | some kw =>
    if 1 < s.bidderNumber then loweredFirst R env minSumEcpm s k kw else pricedOwnBid R env k
  | none => pricedOwnBid R env k

def selectCampaignKeywordsN_ (cpcKeywordMap : SortedMap Int (List WeightedCampaignKeyword))
    (minSumEcpm : Int) (maxKeywords : Nat) : Except Fault (Bool × List WeightedCampaignKeyword) :=
  let filteredMap := (filterKeywords env maxKeywords cpcKeywordMap).filteredMap
  if filteredMap.isEmpty then .ok (false, [])
  else do
    let s := biddersLoop R env maxKeywords filteredMap
    let top ← deref filteredMap.last?
    let front ← deref top.2.head?
    let first := firstBidder R env minSumEcpm s front
    let weightedCampaignKeywords ← revertCost_ R (first :: s.weightedCampaignKeywords)
    return (decide (minSumEcpm ≤ s.nonFirstBiddersActualEcpmSum + first.actualEcpm),
      weightedCampaignKeywords)

end Prices

section Order

/-- Every bucket holds candidates that bid its key. -/
def Keyed (m : SortedMap Int (List WeightedCampaignKeyword)) : Prop :=
  ∀ k l, m.find? k = some l → ∀ c ∈ l, c.actualEcpm = k

variable (mix : Nat → Nat)

theorem convert_keyed {m : SortedMap Int (List WeightedCampaignKeyword)} (h : Keyed m) :
    Keyed (convertTextCandidatesToCpcMap_ mix candidates m) := by
  induction candidates generalizing m with
  | nil => exact h
  | cons c rest ih =>
    apply ih
    intro k l found x mem
    rw [find?_put] at found
    split at found
    · next here =>
      cases found
      rw [here]
      have bound : mix rest.length % ((m.bucket c.actualEcpm).length + 1) ≤
          (m.bucket c.actualEcpm).length := Nat.le_of_lt_succ (Nat.mod_lt _ (by omega))
      have same := List.perm_insertIdx c (m.bucket c.actualEcpm) bound
      cases List.mem_cons.1 (same.mem_iff.1 mem) with
      | inl first => rw [first]
      | inr old =>
        unfold bucket at old
        cases before : m.find? c.actualEcpm with
        | none => simp [before] at old
        | some l => exact h _ l before x (by simpa [before] using old)
    · exact h k l found x mem

theorem convert_perm (candidates : List WeightedCampaignKeyword)
    (m : SortedMap Int (List WeightedCampaignKeyword)) :
    (convertTextCandidatesToCpcMap_ mix candidates m).descending.Perm
      (candidates ++ m.descending) := by
  induction candidates generalizing m with
  | nil => exact List.Perm.refl _
  | cons c rest ih =>
    have bound : mix rest.length % ((m.bucket c.actualEcpm).length + 1) ≤
        (m.bucket c.actualEcpm).length := Nat.le_of_lt_succ (Nat.mod_lt _ (by omega))
    have more := m.descending_put_perm (List.perm_insertIdx c (m.bucket c.actualEcpm) bound)
    apply (ih _).trans
    apply (more.append_left rest).trans
    exact List.perm_middle

/-- The order in which the auction meets the candidates. -/
def order (candidates : List WeightedCampaignKeyword) : List WeightedCampaignKeyword :=
  (convertTextCandidatesToCpcMap_ mix candidates SortedMap.empty).descending

section
variable (candidates : List WeightedCampaignKeyword)

theorem order_perm : (order mix candidates).Perm candidates := by
  have same := convert_perm mix candidates empty
  rwa [descending_empty, List.append_nil] at same

theorem cpcMap_keyed : Keyed (convertTextCandidatesToCpcMap_ mix candidates empty) :=
  convert_keyed mix (by intro k l found; cases found)

theorem order_sorted : (order mix candidates).Pairwise (fun a b => b.actualEcpm ≤ a.actualEcpm) :=
  descending_sorted (cpcMap_keyed mix candidates)

end

end Order

section Greedy

variable (env : AuctionEnv) (maxKeywords : Nat)

/-- The groups of what has been taken. -/
def takenGroups (taken : List CampaignKeywordCreative) : List (TextAdserving × Nat) :=
  taken.map (fun k => k.weightedCampaignKeyword.group)

/-- Candidates taken one after another, of different groups and with a creative,
until there are enough. -/
def greedyPass : Nat → List CampaignKeywordCreative → List WeightedCampaignKeyword →
    List CampaignKeywordCreative
  | _, taken, [] => taken
  | met, taken, c :: rest =>
    if taken.length < maxKeywords then
      if c.group ∈ takenGroups taken then greedyPass (met + 1) taken rest
      else match env.creativeCandidate met c with
        | none => greedyPass (met + 1) taken rest
        | some k => greedyPass (met + 1) (taken ++ [k]) rest
    else taken

variable {env maxKeywords}

variable {met : Nat} {c : WeightedCampaignKeyword} {k : CampaignKeywordCreative} {s : PassState}
  {taken : List CampaignKeywordCreative}

theorem creativeCandidate_of (h : env.creativeCandidate met c = some k) :
    k.weightedCampaignKeyword = c := by
  unfold AuctionEnv.creativeCandidate at h
  split at h
  · cases h
    rfl
  · obtain ⟨creative, -, rfl⟩ := Option.map_eq_some_iff.1 h
    rfl

/-- What the state of the pass says about what has been taken. -/
structure PassInv (s : PassState) (taken : List CampaignKeywordCreative) : Prop where
  read : s.filteredMap.descending = taken
  filled : s.filteredMap.Filled
  count : s.selectedKeywords = taken.length
  filtered : ∀ g, s.filterIds.filtered g = true ↔ g ∈ takenGroups taken

theorem PassInv.start : PassInv .start [] :=
  ⟨rfl, filled_empty, rfl, by simp [PassState.start, takenGroups]⟩

theorem PassInv.take (h : PassInv s taken) (least : ∀ key ∈ s.filteredMap.keys, c.actualEcpm ≤ key)
    (chosen : env.creativeCandidate s.met c = some k) :
    PassInv ⟨s.filteredMap.pushMapped c.actualEcpm k, s.selectedKeywords + 1,
      s.filterIds.insert c.group, s.met + 1⟩ (taken ++ [k]) := by
  constructor
  · exact (s.filteredMap.descending_push k least).trans (by rw [h.read])
  · exact h.filled.pushMapped _ _
  · simp [h.count]
  · intro g
    rw [FilterIds.filtered_insert, h.filtered g]
    simp [takenGroups, creativeCandidate_of chosen, or_comm]

/-- The pass over an order that goes down in its bids is the greedy one. -/
theorem pass_eq (h : PassInv s taken)
    (sorted : candidates.Pairwise (fun a b => b.actualEcpm ≤ a.actualEcpm))
    (least : ∀ c ∈ candidates, ∀ key ∈ s.filteredMap.keys, c.actualEcpm ≤ key) :
    PassInv (runWhile (fun s => decide (s.selectedKeywords < maxKeywords))
      (fun c => passOne env c.actualEcpm c) candidates s)
      (greedyPass env maxKeywords s.met taken candidates) := by
  induction candidates generalizing s taken with
  | nil => exact h
  | cons c rest ih =>
    obtain ⟨above, sorted⟩ := List.pairwise_cons.1 sorted
    have later : ∀ x ∈ rest, ∀ key ∈ s.filteredMap.keys, x.actualEcpm ≤ key := fun x mem =>
      least x (List.mem_cons_of_mem _ mem)
    rw [runWhile, greedyPass, h.count]
    by_cases room : taken.length < maxKeywords
    · simp only [room, decide_true, if_true]
      rw [passOne]
      by_cases same : c.group ∈ takenGroups taken
      · rw [if_pos same, if_pos ((h.filtered _).2 same)]
        exact ih ⟨h.read, h.filled, h.count, h.filtered⟩ sorted later
      · rw [if_neg same, if_neg (fun old => same ((h.filtered _).1 old))]
        cases chosen : env.creativeCandidate s.met c with
        | none => exact ih ⟨h.read, h.filled, h.count, h.filtered⟩ sorted later
        | some k =>
          apply ih (h.take (least c List.mem_cons_self) chosen) sorted
          intro x mem key hkey
          have found := mem_keys.1 hkey
          rw [pushMapped, find?_put] at found
          split at found
          · next here => exact here ▸ above x mem
          · exact later x mem key (mem_keys.2 found)
    · simp only [room, decide_false, if_false]
      exact h

variable (env maxKeywords) (mix : Nat → Nat)

/-- What the auction takes of its candidates. -/
def takenOf (candidates : List WeightedCampaignKeyword) : List CampaignKeywordCreative :=
  greedyPass env maxKeywords 0 [] (order mix candidates)

theorem filterKeywords_spec (candidates : List WeightedCampaignKeyword) :
    PassInv (filterKeywords env maxKeywords
      (convertTextCandidatesToCpcMap_ mix candidates empty))
      (takenOf env maxKeywords mix candidates) := by
  let m := convertTextCandidatesToCpcMap_ mix candidates empty
  have keyed := cpcMap_keyed mix candidates
  have pairs : m.entries.reverse.flatMap (fun e => e.2.map (fun c => (e.1, c))) =
      (order mix candidates).map (fun c => (c.actualEcpm, c)) := by
    rw [order, descending, List.map_flatten, List.map_map, List.flatMap_def]
    congr 1
    apply List.map_congr_left
    intro e he
    apply List.map_congr_left
    intro c hc
    have own := keyed e.1 e.2 (find?_eq_some.2 (List.mem_reverse.1 he)) c hc
    rw [own]
  have flat : filterKeywords env maxKeywords m =
      runWhile (fun s => decide (s.selectedKeywords < maxKeywords))
        (fun c => passOne env c.actualEcpm c) (order mix candidates) .start := by
    have paired : runWhile (fun s => decide (s.selectedKeywords < maxKeywords))
        (fun p : Int × WeightedCampaignKeyword => passOne env p.1 p.2)
        ((order mix candidates).map (fun c => (c.actualEcpm, c))) .start =
        runWhile (fun s => decide (s.selectedKeywords < maxKeywords))
          (fun c => passOne env c.actualEcpm c) (order mix candidates) .start := runWhile_map _ _ _
    rw [← paired, ← pairs, ← runWhile_nested]
    simp only [runWhile_map]
    rfl
  rw [flat]
  apply pass_eq .start (order_sorted mix candidates)
  intro c _ key hkey
  have none := mem_keys.1 hkey
  simp [PassState.start] at none

/-- What holds of everything taken so far. -/
structure Taken (env : AuctionEnv) (maxKeywords : Nat) (candidates : List WeightedCampaignKeyword)
    (taken : List CampaignKeywordCreative) : Prop where
  count : taken.length ≤ maxKeywords
  groups : (takenGroups taken).Nodup
  chosen : ∀ k ∈ taken, ∃ met, ∃ c ∈ candidates, env.creativeCandidate met c = some k

variable {env maxKeywords} in
theorem greedyPass_taken {candidates all : List WeightedCampaignKeyword}
    (h : Taken env maxKeywords all taken) (part : ∀ c ∈ candidates, c ∈ all) :
    Taken env maxKeywords all (greedyPass env maxKeywords met taken candidates) := by
  induction candidates generalizing met taken with
  | nil => exact h
  | cons c rest ih =>
    have later : ∀ c ∈ rest, c ∈ all := fun c mem => part c (List.mem_cons_of_mem _ mem)
    rw [greedyPass]
    split
    · next room =>
      split
      · exact ih h later
      · next fresh =>
        split
        · exact ih h later
        · next k here =>
          apply ih _ later
          constructor
          · rw [List.length_append]
            exact room
          · have own := creativeCandidate_of here
            have apart : k.weightedCampaignKeyword.group ∉ takenGroups taken := own ▸ fresh
            rw [takenGroups, List.map_append]
            exact List.concat_eq_append ▸ h.groups.concat apart
          · intro k' mem
            cases List.mem_append.1 mem with
            | inl old => exact h.chosen k' old
            | inr last =>
              rw [List.mem_singleton.1 last]
              exact ⟨met, c, part c List.mem_cons_self, here⟩
    · exact h

theorem takenOf_taken (candidates : List WeightedCampaignKeyword) :
    Taken env maxKeywords candidates (takenOf env maxKeywords mix candidates) := by
  apply greedyPass_taken
  · exact ⟨Nat.zero_le _, List.nodup_nil, by simp⟩
  · intro c mem
    exact (order_perm mix candidates).mem_iff.1 mem

end Greedy

section Bidders

variable {R : RevenueArith} {env : AuctionEnv} {maxKeywords : Nat}

/-- The bids of the candidates behind the first. -/
def ownBids (R : RevenueArith) (env : AuctionEnv) (others : List CampaignKeywordCreative) :
    List Int :=
  others.map (fun k => (ownBid R env k).1)

theorem others_eq (others : List CampaignKeywordCreative) {s : BiddersState}
    (counted : s.bidderNumber = s.selectedKeywords + 1)
    (room : s.selectedKeywords + others.length ≤ maxKeywords - 1) :
    runWhile (fun s => decide (s.selectedKeywords < maxKeywords - 1)) (bidder R env) others s =
      { selectedKeywords := s.selectedKeywords + others.length
        bidderNumber := s.bidderNumber + others.length
        nonFirstBiddersActualEcpmSum := s.nonFirstBiddersActualEcpmSum + (ownBids R env others).sum
        secondBidderActualEcpm :=
          if s.bidderNumber = 1 then (ownBids R env others).headD s.secondBidderActualEcpm
          else s.secondBidderActualEcpm
        weightedCampaignKeywords :=
          s.weightedCampaignKeywords ++ others.map (pricedOwnBid R env) } := by
  induction others generalizing s with
  | nil => simp [runWhile, ownBids]
  | cons k rest ih =>
    simp only [List.length_cons] at room
    have more : s.selectedKeywords < maxKeywords - 1 := by omega
    have behind : 0 < s.bidderNumber := by omega
    rw [runWhile, if_pos (decide_eq_true more), bidder, if_pos behind, ih]
    · simp only [ownBids, List.map_cons, List.sum_cons, List.headD_cons, List.length_cons]
      congr 1
      · omega
      · omega
      · omega
      · rw [if_neg (by omega)]
      · simp
    · simp only
      omega
    · simp only
      omega

/-- What the loop says of the candidates behind the first. -/
structure Behind (R : RevenueArith) (env : AuctionEnv) (others : List CampaignKeywordCreative)
    (s : BiddersState) : Prop where
  several : 1 < s.bidderNumber ↔ others ≠ []
  sum : s.nonFirstBiddersActualEcpmSum = (ownBids R env others).sum
  second : s.secondBidderActualEcpm = (ownBids R env others).headD 0

variable (R env) in
theorem biddersLoop_eq {filteredMap : SortedMap Int (List CampaignKeywordCreative)}
    {first : CampaignKeywordCreative} {others : List CampaignKeywordCreative}
    (read : filteredMap.descending = first :: others) (room : others.length + 1 ≤ maxKeywords) :
    ∃ s, biddersLoop R env maxKeywords filteredMap = s ∧ Behind R env others s ∧
      s.weightedCampaignKeywords = others.map (pricedOwnBid R env) := by
  have flat : biddersLoop R env maxKeywords filteredMap =
      runWhile (fun s => decide (s.selectedKeywords < maxKeywords - 1)) (bidder R env)
        (first :: others) .start := by
    rw [biddersLoop, runWhile_nested, List.flatMap_def, ← read, descending]
  refine ⟨_, flat, ?_⟩
  rw [runWhile]
  by_cases several : 0 < maxKeywords - 1
  · have step : bidder R env first .start = { BiddersState.start with bidderNumber := 1 } := by
      simp [bidder, BiddersState.start]
    rw [if_pos (by simpa [BiddersState.start] using several), step,
      others_eq others (by simp [BiddersState.start]) (by simp [BiddersState.start]; omega)]
    have counted : 1 < 1 + others.length ↔ others ≠ [] := by
      rw [← List.length_pos_iff]
      omega
    refine ⟨⟨?_, ?_, ?_⟩, ?_⟩ <;> simp [BiddersState.start, counted]
  · have alone : others = [] := List.length_eq_zero_iff.1 (by omega)
    rw [if_neg (by simpa [BiddersState.start] using several), alone]
    refine ⟨⟨?_, ?_, ?_⟩, ?_⟩ <;> simp [BiddersState.start, ownBids]

end Bidders

section First

variable {R : RevenueArith} {env : AuctionEnv} {minSumEcpm : Int} {s : BiddersState}
  {k : CampaignKeywordCreative}

/-- Everything of a selected candidate but its bid and its prices. -/
def Takes (k : CampaignKeywordCreative) (c : WeightedCampaignKeyword) : Prop :=
  c.campaignKeyword = k.weightedCampaignKeyword.campaignKeyword ∧
    c.campaign = k.weightedCampaignKeyword.campaign ∧ c.creative = some k.creative ∧
    c.convRate = k.weightedCampaignKeyword.convRate

theorem takes_priced (k : CampaignKeywordCreative) (actualEcpm actualCpc ecpm ctr : Int) :
    Takes k (k.priced actualEcpm actualCpc ecpm ctr) := ⟨rfl, rfl, rfl, rfl⟩

variable {c : WeightedCampaignKeyword} {kw : CampaignKeyword}

theorem Takes.group (h : Takes k c) : c.group = k.weightedCampaignKeyword.group := by
  unfold WeightedCampaignKeyword.group
  rw [h.2.1]

theorem Takes.withCpc (h : Takes k c) (cpc : Int) :
    Takes k (c.withCpc cpc) := h

theorem groups_of_takes {taken : List CampaignKeywordCreative} (h : List.Forall₂ Takes taken cs) :
    cs.map (·.group) = takenGroups taken := by
  induction h with
  | nil => rfl
  | cons first _ ih =>
    rw [List.map_cons, ih, first.group]
    rfl

variable (R env minSumEcpm s k) in
/-- The first bidder either pays its own bid or is a keyword that is lowered. -/
theorem firstBidder_cases :
    firstBidder R env minSumEcpm s k = pricedOwnBid R env k ∨
      ∃ kw ∈ k.weightedCampaignKeyword.campaignKeyword,
        firstBidder R env minSumEcpm s k = loweredFirst R env minSumEcpm s k kw := by
  unfold firstBidder
  split
  · next kw here =>
    split
    · exact .inr ⟨kw, here, rfl⟩
    · exact .inl rfl
  · exact .inl rfl

theorem firstBidder_takes : Takes k (firstBidder R env minSumEcpm s k) := by
  rcases firstBidder_cases R env minSumEcpm s k with own | ⟨kw, -, lowered⟩
  · rw [own]
    exact takes_priced _ _ _ _ _
  · rw [lowered]
    exact takes_priced _ _ _ _ _

/-- Lowering a bid to what is required takes nothing that the floor needs. -/
theorem floor_kept {bid required floor sum : Int}
    (enough : sum < floor → floor - sum ≤ required) (nonneg : 0 ≤ required) :
    floor ≤ sum + min bid required ↔ floor ≤ sum + bid := by
  constructor
  · intro reached
    have := min_le_left bid required
    omega
  · intro reached
    rcases le_total bid required with le | le
    · rwa [min_eq_left le]
    · rw [min_eq_right le]
      by_cases short : sum < floor
      · have := enough short
        omega
      · omega

theorem minRequired_nonneg : 0 ≤ minRequiredActualEcpm R minSumEcpm s := by
  unfold minRequiredActualEcpm
  apply le_max_of_le_right
  split
  · omega
  · exact le_refl 0

theorem firstBidder_le : (firstBidder R env minSumEcpm s k).actualEcpm ≤
    (firstBidder R env minSumEcpm s k).ecpm := by
  rcases firstBidder_cases R env minSumEcpm s k with own | ⟨kw, -, lowered⟩
  · rw [own]
    exact le_refl _
  · rw [lowered]
    exact min_le_left _ _

/-- What is charged reaches the floor exactly when the bids do. -/
theorem reached_iff (sum : Int) (same : s.nonFirstBiddersActualEcpmSum = sum) :
    minSumEcpm ≤ sum + (firstBidder R env minSumEcpm s k).actualEcpm ↔
      minSumEcpm ≤ sum + (firstBidder R env minSumEcpm s k).ecpm := by
  rcases firstBidder_cases R env minSumEcpm s k with own | ⟨kw, -, lowered⟩
  · rw [own]
    exact Iff.rfl
  · rw [lowered]
    apply floor_kept
    · intro short
      unfold minRequiredActualEcpm
      rw [same, if_pos short]
      exact le_max_right _ _
    · exact minRequired_nonneg

theorem campaignCtr_nonneg (getCtr : Creative → Int) (creatives : List Creative) :
    0 ≤ campaignCtr_ getCtr creatives := by
  have grows : ∀ start : Int, 0 ≤ start →
      0 ≤ creatives.foldl (fun maxCtr creative => max maxCtr (getCtr creative)) start := by
    induction creatives with
    | nil => exact fun _ h => h
    | cons creative rest ih => exact fun start h => ih _ (le_max_of_le_left h)
  exact grows 0 (le_refl 0)

/-- A lowered first keyword bids its own price at a click rate. -/
theorem maxEcpmBid_eq (env : AuctionEnv) (sane : Chargeable R kw)
    (here : k.weightedCampaignKeyword.campaignKeyword = some kw) :
    (maxEcpmBid R env k kw).1 = keywordEcpm R kw (maxEcpmBid R env k kw).2 ∧
      0 ≤ (maxEcpmBid R env k kw).2 := by
  unfold maxEcpmBid
  dsimp only
  rw [here]
  split
  · split
    · exact ⟨rfl, campaignCtr_nonneg _ _⟩
    · exact ⟨rfl, sane.ctr⟩
  · exact ⟨rfl, sane.ctr⟩

theorem keywordEcpm_nonneg (sane : Chargeable R kw) {ctr : Int} (ctr_nonneg : 0 ≤ ctr) :
    0 ≤ keywordEcpm R kw ctr := by
  have clicks := R.mul_nonneg (R.ofNat_nonneg 100000) ctr_nonneg
  exact R.div_nonneg (R.mul_nonneg clicks sane.maxCpc) sane.rate

/-- The price of a click, computed back from a bid, does not exceed what the
keyword offers for it. -/
theorem cpc_le_maxCpc (sane : Chargeable R kw) {ctr actualEcpm : Int} (ctr_pos : 0 < ctr)
    (nonneg : 0 ≤ actualEcpm) (le : actualEcpm ≤ keywordEcpm R kw ctr) :
    0 ≤ kw.campaign.account.currency.fromSystemCurrency R
        (R.div actualEcpm (R.mul ctr R.ecpmFactor)) ∧
      kw.campaign.account.currency.fromSystemCurrency R
        (R.div actualEcpm (R.mul ctr R.ecpmFactor)) ≤ kw.maxCpc := by
  let rate := kw.campaign.account.currency.rate
  let clicks := R.mul ctr R.ecpmFactor
  have clicks_eq : clicks = ctr * 100000 := R.mul_ofNat ctr_pos.le 100000
  have clicks_pos : 0 < clicks := by omega
  have value : keywordEcpm R kw ctr = R.div (R.mul clicks kw.maxCpc) rate := by
    have swapped : R.mul R.ecpmFactor ctr = clicks :=
      R.mul_comm_of_nonneg (R.ofNat_nonneg 100000) ctr_pos.le
    rw [keywordEcpm, Currency.toSystemCurrency, swapped]
  rw [value] at le
  have offered := R.mul_nonneg clicks_pos.le sane.maxCpc
  have share_nonneg := R.div_nonneg nonneg clicks_pos
  refine ⟨R.mul_nonneg share_nonneg sane.rate.le, ?_⟩
  -- every rounding on the way is downwards
  have first := (R.mul_floor clicks_pos.le sane.maxCpc).1
  have second := (R.div_floor offered sane.rate).1
  have third := (R.div_floor nonneg clicks_pos).1
  have fourth := (R.mul_floor share_nonneg sane.rate.le).1
  have rate_pos := sane.rate
  have bid : actualEcpm * rate ≤ R.mul clicks kw.maxCpc * R.one :=
    (Int.mul_le_mul_of_nonneg_right le rate_pos.le).trans second
  have chain : R.mul (R.div actualEcpm clicks) rate * (R.one * clicks) ≤
      kw.maxCpc * (R.one * clicks) := by
    calc R.mul (R.div actualEcpm clicks) rate * (R.one * clicks)
        = R.mul (R.div actualEcpm clicks) rate * R.one * clicks := by ring
      _ ≤ R.div actualEcpm clicks * rate * clicks :=
          Int.mul_le_mul_of_nonneg_right fourth clicks_pos.le
      _ = R.div actualEcpm clicks * clicks * rate := by ring
      _ ≤ actualEcpm * R.one * rate := Int.mul_le_mul_of_nonneg_right third rate_pos.le
      _ = actualEcpm * rate * R.one := by ring
      _ ≤ R.mul clicks kw.maxCpc * R.one * R.one :=
          Int.mul_le_mul_of_nonneg_right bid R.one_pos.le
      _ ≤ clicks * kw.maxCpc * R.one := Int.mul_le_mul_of_nonneg_right first R.one_pos.le
      _ = kw.maxCpc * (R.one * clicks) := by ring
  exact le_of_mul_le_mul_right chain (Int.mul_pos R.one_pos clicks_pos)

/-- What the first of several has to bring in, by the bids behind it. -/
def required (R : RevenueArith) (floor : Int) (bids : List Int) : Int :=
  max (bids.headD 0 + R.one) (max (floor - bids.sum) 0)

/-- What a click costs the first of several keywords. -/
def firstCost (R : RevenueArith) (env : AuctionEnv) (floor : Int) (first : CampaignKeywordCreative)
    (kw : CampaignKeyword) (bids : List Int) : Int :=
  let bid := maxEcpmBid R env first kw
  if bid.2 ≠ 0 then
    first.weightedCampaignKeyword.campaign.account.currency.fromSystemCurrency R
      (R.div (min bid.1 (required R floor bids)) (R.mul bid.2 R.ecpmFactor))
  else 0

theorem minRequiredActualEcpm_eq {others : List CampaignKeywordCreative}
    (behind : Behind R env others s) :
    minRequiredActualEcpm R minSumEcpm s = required R minSumEcpm (ownBids R env others) := by
  unfold minRequiredActualEcpm required
  rw [behind.sum, behind.second]
  congr 1
  split <;> omega

/-- Before its cost is reverted, the first keyword is charged no more than it offers. -/
theorem firstCost_le (sane : Chargeable R kw) (floor : Int) (bids : List Int)
    (here : k.weightedCampaignKeyword.campaignKeyword = some kw) :
    0 ≤ firstCost R env floor k kw bids ∧ firstCost R env floor k kw bids ≤ kw.maxCpc := by
  obtain ⟨bid, ctr_nonneg⟩ := maxEcpmBid_eq env sane here
  have owner := k.weightedCampaignKeyword.own kw here
  unfold firstCost
  dsimp only
  split_ifs with shown
  · have ctr_pos : 0 < (maxEcpmBid R env k kw).2 := lt_of_le_of_ne ctr_nonneg (Ne.symm shown)
    have offered : 0 ≤ (maxEcpmBid R env k kw).1 := by
      rw [bid]
      exact keywordEcpm_nonneg sane ctr_nonneg
    rw [← owner]
    apply cpc_le_maxCpc sane ctr_pos
    · exact le_min offered (le_max_of_le_right (le_max_right _ _))
    · rw [← bid]
      exact min_le_left _ _
  · exact ⟨le_refl 0, sane.maxCpc⟩

end First

section Promises

variable {R : RevenueArith} {env : AuctionEnv} {mix : Nat → Nat} {minSumEcpm : Int}
  {maxKeywords : Nat} {candidates : List WeightedCampaignKeyword}

/-- What a text auction that returns true promises. -/
structure Honoured (maxCreatives : Nat) (floor : Int) (result : List WeightedCampaignKeyword) :
    Prop where
  count : result.length ≤ maxCreatives
  groups : (result.map (·.group)).Nodup
  creatives : ∀ c ∈ result, c.creative.isSome = true
  floor : floor ≤ (result.map (·.actualEcpm)).sum

/-- What the keyword auction promises besides, whatever it returns. -/
structure KeywordSelection (R : RevenueArith) (env : AuctionEnv)
    (candidates : List WeightedCampaignKeyword) (floor : Int) (maxCreatives : Nat) (ok : Bool)
    (result : List WeightedCampaignKeyword) : Prop where
  greedy : ∃ ord : List WeightedCampaignKeyword, ord.Perm candidates ∧
    ord.Pairwise (fun a b => b.actualEcpm ≤ a.actualEcpm) ∧
    List.Forall₂ Takes (greedyPass env maxCreatives 0 [] ord) result
  won : ok = true ↔ result ≠ [] ∧ floor ≤ (result.map (·.ecpm)).sum
  bids : ∀ c ∈ result, c.actualEcpm ≤ c.ecpm
  behind : ∀ c ∈ result.tail, c.actualEcpm = c.ecpm
  cpc : ∀ c ∈ result, ∀ kw ∈ c.campaignKeyword, c.actualCpc ≤ kw.offer R

/-- The offers of the keywords that the greedy pass takes leave room for their fees and
commissions. -/
def OffersKept (R : RevenueArith) (env : AuctionEnv) (floor : Int) :
    List CampaignKeywordCreative → Prop
  | [] => True
  | first :: others =>
    (∀ kw ∈ first.weightedCampaignKeyword.campaignKeyword,
      (if others = [] then kw.maxCpc else firstCost R env floor first kw (ownBids R env others)) ≤
        kw.mostCost R) ∧
    ∀ k ∈ others, ∀ kw ∈ k.weightedCampaignKeyword.campaignKeyword, kw.maxCpc ≤ kw.mostCost R

/-- The selected candidates before their costs are reverted. -/
def pricedAll (R : RevenueArith) (env : AuctionEnv) (minSumEcpm : Int) (s : BiddersState)
    (first : CampaignKeywordCreative) (others : List CampaignKeywordCreative) :
    List WeightedCampaignKeyword :=
  firstBidder R env minSumEcpm s first :: others.map (pricedOwnBid R env)

theorem pricedAll_takes (s : BiddersState) (first : CampaignKeywordCreative)
    (others : List CampaignKeywordCreative) :
    List.Forall₂ Takes (first :: others) (pricedAll R env minSumEcpm s first others) := by
  apply List.Forall₂.cons firstBidder_takes
  induction others with
  | nil => exact List.Forall₂.nil
  | cons k rest ih => exact List.Forall₂.cons (takes_priced _ _ _ _ _) ih

variable {taken others : List CampaignKeywordCreative} {cs : List WeightedCampaignKeyword}
  {c : WeightedCampaignKeyword} {s : BiddersState} {first : CampaignKeywordCreative}

theorem takes_reverted {cs cs' : List WeightedCampaignKeyword} (h : List.Forall₂ Takes taken cs)
    (reverted : List.Forall₂ (fun c c' => revertOne R c = .ok c') cs cs') :
    List.Forall₂ Takes taken cs' := by
  induction h generalizing cs' with
  | nil =>
    cases reverted
    exact List.Forall₂.nil
  | cons first _ ih =>
    cases reverted with
    | cons one others =>
      obtain ⟨cpc, rfl⟩ := revertOne_same one
      exact List.Forall₂.cons (first.withCpc cpc) (ih others)

theorem taken_chargeable (sane : ∀ c ∈ candidates, ∀ kw ∈ c.campaignKeyword, Chargeable R kw)
    {k : CampaignKeywordCreative} (mem : k ∈ takenOf env maxKeywords mix candidates) :
    ∀ kw ∈ k.weightedCampaignKeyword.campaignKeyword, Chargeable R kw := by
  obtain ⟨met, c, inside, chosen⟩ := (takenOf_taken env maxKeywords mix candidates).chosen k mem
  rw [creativeCandidate_of chosen]
  exact sane c inside

theorem exists_taken (h : List.Forall₂ Takes taken cs) (mem : c ∈ cs) : ∃ k ∈ taken, Takes k c := by
  induction h with
  | nil => simp at mem
  | cons first _ ih =>
    cases List.mem_cons.1 mem with
    | inl same => exact ⟨_, List.mem_cons_self, same ▸ first⟩
    | inr later =>
      obtain ⟨k, inside, one⟩ := ih later
      exact ⟨k, List.mem_cons_of_mem _ inside, one⟩

theorem pricedAll_bids (mem : c ∈ pricedAll R env minSumEcpm s first others) :
    c.actualEcpm ≤ c.ecpm := by
  cases List.mem_cons.1 mem with
  | inl front =>
    rw [front]
    exact firstBidder_le
  | inr behind =>
    obtain ⟨k, -, rfl⟩ := List.mem_map.1 behind
    exact le_refl _

theorem pricedOwnBid_cpc {k : CampaignKeywordCreative} {kw : CampaignKeyword}
    (here : k.weightedCampaignKeyword.campaignKeyword = some kw) :
    (pricedOwnBid R env k).actualCpc = kw.maxCpc := by
  simp [pricedOwnBid, CampaignKeywordCreative.priced, slotCpc, here]

theorem firstBidder_cpc {kw : CampaignKeyword} (behind : Behind R env others s)
    (here : first.weightedCampaignKeyword.campaignKeyword = some kw) :
    (firstBidder R env minSumEcpm s first).actualCpc = if others = [] then kw.maxCpc
      else firstCost R env minSumEcpm first kw (ownBids R env others) := by
  unfold firstBidder
  rw [here]
  dsimp only
  by_cases alone : others = []
  · rw [if_neg (fun several => behind.several.1 several alone), if_pos alone]
    exact pricedOwnBid_cpc here
  · rw [if_pos (behind.several.2 alone), if_neg alone, loweredFirst,
      minRequiredActualEcpm_eq behind]
    rfl

theorem pricedAll_within (behind : Behind R env others s) :
    (∀ c ∈ pricedAll R env minSumEcpm s first others, ∀ kw ∈ c.campaignKeyword,
      c.actualCpc ≤ kw.mostCost R) ↔ OffersKept R env minSumEcpm (first :: others) := by
  rw [pricedAll, List.forall_mem_cons, List.forall_mem_map, OffersKept, firstBidder_takes.1]
  refine and_congr ?_ ?_
  · exact forall₂_congr fun kw here => by rw [firstBidder_cpc behind here]
  · refine forall₂_congr fun k _ => forall₂_congr fun kw here => ?_
    rw [pricedOwnBid_cpc here]

theorem pricedAll_nonneg (behind : Behind R env others s)
    (sane : ∀ k ∈ first :: others, ∀ kw ∈ k.weightedCampaignKeyword.campaignKeyword,
      Chargeable R kw) :
    ∀ c ∈ pricedAll R env minSumEcpm s first others, ∀ kw ∈ c.campaignKeyword,
      Chargeable R kw ∧ 0 ≤ c.actualCpc := by
  obtain ⟨fair, rest⟩ := List.forall_mem_cons.1 sane
  rw [pricedAll, List.forall_mem_cons, List.forall_mem_map, firstBidder_takes.1]
  refine ⟨fun kw here => ⟨fair kw here, ?_⟩, fun k mem kw here => ⟨rest k mem kw here, ?_⟩⟩
  · rw [firstBidder_cpc behind here]
    split_ifs
    · exact (fair kw here).maxCpc
    · exact (firstCost_le (fair kw here) minSumEcpm (ownBids R env others) here).1
  · rw [pricedOwnBid_cpc here]
    exact (rest k mem kw here).maxCpc

/-- Where every keyword's own offer leaves the room, every cost does. -/
theorem offersKept_of_candidates
    (sane : ∀ c ∈ candidates, ∀ kw ∈ c.campaignKeyword, Chargeable R kw)
    (within : ∀ c ∈ candidates, ∀ kw ∈ c.campaignKeyword, kw.maxCpc ≤ kw.mostCost R) :
    OffersKept R env minSumEcpm (takenOf env maxKeywords mix candidates) := by
  have all := (takenOf_taken env maxKeywords mix candidates).chosen
  have offered : ∀ k ∈ takenOf env maxKeywords mix candidates,
      ∀ kw ∈ k.weightedCampaignKeyword.campaignKeyword,
        Chargeable R kw ∧ kw.maxCpc ≤ kw.mostCost R := by
    intro k mem
    obtain ⟨met, c, inside, chosen⟩ := all k mem
    rw [creativeCandidate_of chosen]
    exact fun kw here => ⟨sane c inside kw here, within c inside kw here⟩
  cases taken : takenOf env maxKeywords mix candidates with
  | nil => trivial
  | cons first others =>
    rw [taken] at offered
    refine ⟨fun kw here => ?_, fun k mem kw here =>
      (offered k (List.mem_cons_of_mem _ mem) kw here).2⟩
    obtain ⟨fair, kept⟩ := offered first List.mem_cons_self kw here
    split_ifs
    · exact kept
    · exact (firstCost_le fair minSumEcpm (ownBids R env others) here).2.trans kept

theorem selectCampaignKeywordsN_eq (minSumEcpm : Int)
    (sane : ∀ c ∈ candidates, ∀ kw ∈ c.campaignKeyword, Chargeable R kw)
    (taken : takenOf env maxKeywords mix candidates = first :: others) :
    ∃ s result, selectCampaignKeywordsN_ R env
        (convertTextCandidatesToCpcMap_ mix candidates empty) minSumEcpm maxKeywords =
        .ok (decide (minSumEcpm ≤
          (ownBids R env others).sum + (firstBidder R env minSumEcpm s first).actualEcpm), result) ∧
      Behind R env others s ∧ List.Forall₂ (fun c c' => revertOne R c = .ok c')
        (pricedAll R env minSumEcpm s first others) result := by
  have all := takenOf_taken env maxKeywords mix candidates
  have pass := filterKeywords_spec env maxKeywords mix candidates
  have read := pass.read
  rw [taken] at read
  have room : others.length + 1 ≤ maxKeywords := by
    have count := all.count
    rwa [taken] at count
  obtain ⟨s, loop, bids, behind⟩ := biddersLoop_eq R env read room
  obtain ⟨top, last, front⟩ := pass.filled.front read
  have some : (filterKeywords env maxKeywords
      (convertTextCandidatesToCpcMap_ mix candidates empty)).filteredMap.isEmpty =
      false := by
    rw [← Bool.not_eq_true, pass.filled.isEmpty_iff, read]
    exact List.cons_ne_nil _ _
  have fees : ∀ c ∈ pricedAll R env minSumEcpm s first others, FeeLeaves R c := by
    intro c mem kw here
    obtain ⟨k, inside, takes⟩ := exists_taken (pricedAll_takes s first others) mem
    rw [takes.1] at here
    exact (taken_chargeable sane (taken ▸ inside) kw here).fee_lt.ne
  obtain ⟨result, reverted, same⟩ := revertCost_spec fees
  refine ⟨s, result, ?_, bids, same⟩
  unfold selectCampaignKeywordsN_
  dsimp only
  rw [some, if_neg Bool.false_ne_true, loop, last, deref_some, ok_bind, front, deref_some, ok_bind,
    behind]
  change (revertCost_ R (pricedAll R env minSumEcpm s first others) >>= fun _ => _) = _
  rw [reverted, bids.sum]
  rfl

theorem reverted_within
    (sane : ∀ c ∈ cs, ∀ kw ∈ c.campaignKeyword, Chargeable R kw ∧ 0 ≤ c.actualCpc)
    {result : List WeightedCampaignKeyword}
    (reverted : List.Forall₂ (fun c c' => revertOne R c = .ok c') cs result) :
    (∀ c ∈ result, ∀ kw ∈ c.campaignKeyword, c.actualCpc ≤ kw.offer R) ↔
      ∀ c ∈ cs, ∀ kw ∈ c.campaignKeyword, c.actualCpc ≤ kw.mostCost R := by
  induction reverted with
  | nil => simp
  | @cons c c' _ _ one _ ih =>
    obtain ⟨fair, rest⟩ := List.forall_mem_cons.1 sane
    have same : c'.campaignKeyword = c.campaignKeyword := by
      obtain ⟨cpc, rfl⟩ := revertOne_same one
      rfl
    rw [List.forall_mem_cons, List.forall_mem_cons, ih rest, same]
    refine and_congr_left fun _ => forall₂_congr fun kw here => ?_
    obtain ⟨chargeable, nonneg⟩ := fair kw here
    exact revertKeywordCost_le_iff chargeable nonneg (revertOne_cpc one here)

/-- The keyword auction returns, and keeps its promises just where it keeps the offers. -/
theorem selectCampaignKeywordsN_spec
    (sane : ∀ c ∈ candidates, ∀ kw ∈ c.campaignKeyword, Chargeable R kw) (mix : Nat → Nat)
    (minSumEcpm : Int) (maxKeywords : Nat) :
    ∃ ok result, selectCampaignKeywordsN_ R env
        (convertTextCandidatesToCpcMap_ mix candidates empty) minSumEcpm maxKeywords =
        .ok (ok, result) ∧
      (KeywordSelection R env candidates minSumEcpm maxKeywords ok result ↔
        OffersKept R env minSumEcpm (takenOf env maxKeywords mix candidates)) ∧
      (ok = true → Honoured maxKeywords minSumEcpm result) := by
  have all := takenOf_taken env maxKeywords mix candidates
  cases taken : takenOf env maxKeywords mix candidates with
  | nil =>
    have pass := filterKeywords_spec env maxKeywords mix candidates
    refine ⟨false, [], ?_, ?_, by simp⟩
    · unfold selectCampaignKeywordsN_
      rw [if_pos (pass.filled.isEmpty_iff.2 (pass.read.trans taken))]
    · refine iff_of_true ?_ trivial
      constructor
      · have none : greedyPass env maxKeywords 0 [] (order mix candidates) = [] := taken
        exact ⟨order mix candidates, order_perm mix candidates, order_sorted mix candidates,
          by rw [none]; exact List.Forall₂.nil⟩
      · simp
      · simp
      · simp
      · simp
  | cons first others =>
    obtain ⟨s, result, run, bids, reverted⟩ := selectCampaignKeywordsN_eq minSumEcpm sane taken
    have takes := takes_reverted (pricedAll_takes s first others) reverted
    have ecpms := map_eq_of_reverted (f := (·.ecpm)) (fun _ _ => rfl) reverted
    have actuals := map_eq_of_reverted (f := (·.actualEcpm)) (fun _ _ => rfl) reverted
    have ecpm_sum : (result.map (·.ecpm)).sum =
        (ownBids R env others).sum + (firstBidder R env minSumEcpm s first).ecpm := by
      rw [ecpms, add_comm]
      simp [pricedAll, ownBids, pricedOwnBid, CampaignKeywordCreative.priced, Function.comp_def]
    have actual_sum : (result.map (·.actualEcpm)).sum =
        (ownBids R env others).sum + (firstBidder R env minSumEcpm s first).actualEcpm := by
      rw [actuals, add_comm]
      simp [pricedAll, ownBids, pricedOwnBid, CampaignKeywordCreative.priced, Function.comp_def]
    have some : result ≠ [] := by
      have length := takes.length_eq
      intro none
      simp [none] at length
    have read : greedyPass env maxKeywords 0 [] (order mix candidates) = first :: others := taken
    have fair := @pricedAll_nonneg _ _ minSumEcpm _ _ _ bids fun k inside =>
      taken_chargeable sane (taken ▸ inside)
    refine ⟨_, result, run, ?_, fun reached => ?_⟩
    · rw [← pricedAll_within bids, ← reverted_within fair reverted]
      refine ⟨KeywordSelection.cpc, fun cpc => ⟨?_, ?_, ?_, ?_, cpc⟩⟩
      · exact ⟨order mix candidates, order_perm mix candidates, order_sorted mix candidates,
          by rw [read]; exact takes⟩
      · rw [decide_eq_true_eq, reached_iff _ bids.sum, ecpm_sum]
        exact (and_iff_right some).symm
      · intro c mem
        obtain ⟨c', inside, one⟩ := exists_of_reverted reverted mem
        obtain ⟨cpc, rfl⟩ := revertOne_same one
        have le := pricedAll_bids inside
        exact le
      · intro c mem
        cases reverted with
        | cons _ behind =>
          obtain ⟨c', inside, one⟩ := exists_of_reverted behind mem
          obtain ⟨cpc, rfl⟩ := revertOne_same one
          obtain ⟨k, -, rfl⟩ := List.mem_map.1 inside
          rfl
    · rw [taken] at all
      constructor
      · exact takes.length_eq ▸ all.count
      · rw [groups_of_takes takes]
        exact all.groups
      · intro c mem
        obtain ⟨k, -, one⟩ := exists_taken takes mem
        rw [one.2.2.1]
        rfl
      · rw [actual_sum]
        exact of_decide_eq_true reached

/-- Both text auctions return. When they return true they honour the floor and
the groups, and the keyword auction takes its candidates greedily and charges no
keyword more than it offers. -/
def TextAuctionsHonour (R : RevenueArith) (env : AuctionEnv)
    (slotCandidates keywordCandidates : List WeightedCampaignKeyword) (floor : Int)
    (maxCreatives : Nat) (draws : Nat → SlotDraw) (mix : Nat → Nat) : Prop :=
  (∃ ok result, selectTextCampaignsPropProbability_ R slotCandidates floor maxCreatives draws =
      .ok (ok, result) ∧
    (ok = false → result = []) ∧
    (∀ c ∈ result, ∃ b ∈ slotCandidates, SameButCpc b c) ∧
    (ok = true → Honoured maxCreatives floor result)) ∧
  ∃ ok result, selectCampaignKeywordsN_ R env
      (convertTextCandidatesToCpcMap_ mix keywordCandidates SortedMap.empty) floor maxCreatives =
      .ok (ok, result) ∧
    KeywordSelection R env keywordCandidates floor maxCreatives ok result ∧
    (ok = true → Honoured maxCreatives floor result)

/-- The fees that `revert_cost` puts back are all that can break a promise. -/
theorem textAuctions_honour_iff (R : RevenueArith) (env : AuctionEnv)
    {slotCandidates keywordCandidates : List WeightedCampaignKeyword}
    (nonneg : ∀ c ∈ slotCandidates, 0 ≤ c.actualEcpm)
    (creatives : ∀ c ∈ slotCandidates, c.creative.isSome = true)
    (fees : ∀ c ∈ slotCandidates, FeeLeaves R c)
    (sane : ∀ c ∈ keywordCandidates, ∀ kw ∈ c.campaignKeyword, Chargeable R kw)
    (floor : Int) {maxCreatives : Nat} (slots : 1 ≤ maxCreatives) (draws : Nat → SlotDraw)
    (mix : Nat → Nat) :
    TextAuctionsHonour R env slotCandidates keywordCandidates floor maxCreatives draws mix ↔
      OffersKept R env floor (takenOf env maxCreatives mix keywordCandidates) := by
  obtain ⟨ok, result, run, selected, honoured⟩ :=
    @selectCampaignKeywordsN_spec R env _ sane mix floor maxCreatives
  constructor
  · rintro ⟨-, ok', result', run', selection, -⟩
    rw [run] at run'
    cases run'
    exact selected.1 selection
  · intro kept
    refine ⟨?_, ok, result, run, selected.2 kept, honoured⟩
    obtain ⟨ok, result, run, failed, succeeded⟩ :=
      selectTextCampaigns_spec (R := R) nonneg fees floor slots draws
    refine ⟨ok, result, run, failed, ?_, fun won => ?_⟩
    · cases ok with
      | false => simp [failed rfl]
      | true => exact (succeeded rfl).bids
    · have all := succeeded won
      refine ⟨all.count, all.groups, fun c mem => ?_, all.floor⟩
      obtain ⟨b, inside, cpc, rfl⟩ := all.bids c mem
      exact creatives b inside

end Promises

section Example

private def feeCampaign (id : Nat) (mediaHandlingFee : Int) : Campaign :=
  { (default : Campaign) with
    campaignId := id
    account := { (default : Account) with currency := ⟨10 ^ 8, 2⟩ }
    advertiser := { (default : Account) with accountId := id, mediaHandlingFee := mediaHandlingFee } }

private def feeKeyword (id : Nat) (mediaHandlingFee : Int) : CampaignKeyword where
  maxCpc := (feeCampaign id mediaHandlingFee).advertiser.adaptCost .floored (10 ^ 8) 0
  ctr := 10 ^ 6
  clickUrl := ""
  campaign := feeCampaign id mediaHandlingFee

private def feeCandidate (id : Nat) (mediaHandlingFee : Int) : WeightedCampaignKeyword where
  campaignKeyword := some (feeKeyword id mediaHandlingFee)
  campaign := feeCampaign id mediaHandlingFee
  creative := some default
  actualEcpm := 10 ^ 11
  actualCpc := 10 ^ 8
  ecpm := 10 ^ 11
  ctr := 10 ^ 6
  convRate := 0
  own := by
    intro kw here
    cases here
    rfl

private def plainEnv : AuctionEnv where
  templates := .empty (fun _ => .ok ())
  key := ⟨"html", .optin⟩
  tag := default
  tagSize := ⟨⟨1, "300x250"⟩, 1⟩
  filter := .plain
  seqOrders := SortedMap.empty
  getCtr := none
  randomSelect := fun _ creatives => creatives.head?

private def charged (result : List WeightedCampaignKeyword) : List (Option (Int × Int)) :=
  result.map fun c => c.campaignKeyword.map fun kw => (kw.offer .floored, c.actualCpc)

/-- A bid of one whole unit with a fee of one half: `adapt_cost` leaves the whole unit, and
`revert_cost` makes two of it. -/
theorem keyword_charged_its_fee :
    (feeKeyword 1 (5 * 10 ^ 7)).maxCpc = 10 ^ 8 ∧
      ¬ TextAuctionsHonour .floored plainEnv [] [feeCandidate 1 (5 * 10 ^ 7)] 0 1
        (fun _ => ⟨0, 0, 0, 0⟩) id := by
  refine ⟨by decide +kernel, fun honour => ?_⟩
  obtain ⟨-, ok, result, run, selection, -⟩ := honour
  have costs : (selectCampaignKeywordsN_ .floored plainEnv
      (convertTextCandidatesToCpcMap_ id [feeCandidate 1 (5 * 10 ^ 7)] empty) 0 1).map
      (fun r => charged r.2) = .ok [some (10 ^ 8, 2 * 10 ^ 8)] := by decide +kernel
  rw [run] at costs
  have costs : charged result = [some (10 ^ 8, 2 * 10 ^ 8)] := Except.ok.inj costs
  obtain ⟨c, mem, paid⟩ : ∃ c ∈ result, (c.campaignKeyword.map fun kw =>
      (kw.offer .floored, c.actualCpc)) = some ((10 ^ 8 : Int), (2 * 10 ^ 8 : Int)) := by
    rw [← List.mem_map, ← charged, costs]
    exact List.mem_singleton.2 rfl
  obtain ⟨kw, here, eq⟩ := Option.map_eq_some_iff.1 paid
  have within := selection.cpc c mem kw here
  rw [(Prod.mk.inj eq).1, (Prod.mk.inj eq).2] at within
  omega

/-- Two advertisers without a fee; the first is lowered to a little more than the second. -/
theorem two_keywords_honoured :
    TextAuctionsHonour .floored plainEnv [feeCandidate 1 0] [feeCandidate 1 0, feeCandidate 2 0]
      (10 ^ 8) 2 (fun _ => ⟨0, 0, 0, 0⟩) id := by
  have sane : ∀ c ∈ [feeCandidate 1 0, feeCandidate 2 0], ∀ kw ∈ c.campaignKeyword,
      Chargeable .floored kw := by
    simp only [List.forall_mem_cons, feeCandidate, Option.mem_some_iff, forall_eq']
    refine ⟨⟨?_, ?_, ?_, ?_, ?_⟩, ⟨?_, ?_, ?_, ?_, ?_⟩, by simp⟩ <;> decide +kernel
  apply (textAuctions_honour_iff .floored plainEnv _ _ _ sane _ (by decide) _ _).2
  · apply offersKept_of_candidates sane
    intro c mem kw here
    have fair := sane c mem kw here
    obtain rfl | rfl : c = feeCandidate 1 0 ∨ c = feeCandidate 2 0 := by simpa using mem
    all_goals
      cases here
      exact maxCpc_le_mostCost fair rfl (by decide +kernel) le_rfl
  · simp [feeCandidate]
  · simp [feeCandidate]
  · simp only [List.forall_mem_cons, FeeLeaves, feeCandidate, Option.mem_some_iff, forall_eq']
    decide +kernel

end Example

end AdServer.CampaignManager
