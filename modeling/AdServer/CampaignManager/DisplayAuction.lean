import AdServer.CampaignManager.KeywordAuction
import AdServer.Lib.Maxima

/-!
# The display auction

`select_display_campaign_` takes the most profitable display campaign: from the
first candidates of a list ordered by profit when click rates are those of the
campaigns, or by a search among all candidates when they are calculated.
-/

namespace AdServer.CampaignManager

open AdServer.Lib

/-- What a bid leaves after the price of the tag. -/
def profit (R : RevenueArith) (tagPricing : TagPricing) (ecpm : Int) : Int :=
  ecpm - tagPricing.cpm - R.mul ecpm tagPricing.revenueShare

structure CampaignSelectionCell where
  campaign : Campaign
  tagPricing : TagPricing
  ecpm : Int

def CampaignSelectionCell.make (R : RevenueArith) (campaign : Campaign)
    (adjustedCampaignEcpm : Int) (tagPricing : TagPricing) : CampaignSelectionCell where
  campaign := campaign
  tagPricing := tagPricing
  ecpm := profit R tagPricing adjustedCampaignEcpm

/-- A candidate with the cell it was made of. -/
structure DisplayCandidate where
  cell : CampaignSelectionCell
  weighted : WeightedCampaign

/-- `SizedCreativeHolder`. -/
structure SizedCreative where
  tagSize : TagSize
  creative : Creative
  convRate : Int

/-- What `check_rate` gives and writes. -/
structure RateCheck where
  passed : Bool
  convRate : Int
  creativeDependent : Bool

/-- The calculations of click and conversion rates, by size. -/
structure CtrCalculation where
  getCtr : TagSize → Creative → Int
  checkRate : Option (TagSize → Creative → RateCheck)

/-- What the auction asks besides the cells. -/
structure DisplayAuction where
  templates : CreativeTemplateMap
  key : CreativeKey
  tag : Tag
  /-- `request_params.tag_sizes` -/
  tagSizes : TagSizeMap
  filter : CreativeFilter
  seqOrders : SortedMap Nat SeqOrder
  minEcpm : Int
  random2 : Nat
  /-- `check_campaign` and `check_campaign_channel` -/
  checkCampaign : Campaign → Bool
  ctrCalculation : Option CtrCalculation

/-- What the random generator gives: a draw from a list that is not empty is one
of its elements. -/
structure DisplayDraws where
  selectCreative : Nat → List Creative → Option Creative
  sizeIndex : Nat → Nat
  selectSized : Nat → List SizedCreative → Option SizedCreative
  selectCampaign : List DisplayCandidate → Option DisplayCandidate
  creative_mem : ∀ n creatives, creatives ≠ [] → ∃ c ∈ creatives, selectCreative n creatives = some c
  sized_mem : ∀ n holders, holders ≠ [] → ∃ h ∈ holders, selectSized n holders = some h
  campaign_mem : ∀ campaigns, campaigns ≠ [] → ∃ c ∈ campaigns, selectCampaign campaigns = some c

/-- Draws that prefer one creative and one offset. -/
def DisplayDraws.preferring (creative : Creative) (offset : Nat) : DisplayDraws where
  selectCreative _ creatives := if creative ∈ creatives then some creative else creatives.head?
  sizeIndex _ := offset
  selectSized _ holders := holders.head?
  selectCampaign campaigns := campaigns.head?
  creative_mem := by
    intro _ creatives some
    by_cases here : creative ∈ creatives
    · exact ⟨creative, here, if_pos here⟩
    · exact ⟨creatives.head some, List.head_mem some, by
        rw [if_neg here, List.head?_eq_some_head some]⟩
  sized_mem := fun _ holders some =>
    ⟨holders.head some, List.head_mem some, List.head?_eq_some_head some⟩
  campaign_mem := fun campaigns some =>
    ⟨campaigns.head some, List.head_mem some, List.head?_eq_some_head some⟩

inductive AuctionType where
  | random
  | maxEcpm
  | proportionalProbability
  deriving DecidableEq

def checkMinEcpm_ (tagPricing : TagPricing) (minEcpm campaignEcpm : Int) : Bool :=
  decide (minEcpm ≤ campaignEcpm) && decide (tagPricing.cpm ≤ campaignEcpm)

def Campaign.missesCtrGoal (campaign : Campaign) (ctr : Int) : Bool :=
  campaign.bidStrategy == .minCtrGoal && decide (ctr < campaign.minCtrGoal)

/-- The sizes of a tag that a creative has. -/
def availableSizes (tag : Tag) (creative : Creative) : List TagSize :=
  (tag.sizes.sizes.entries.filter (fun ts => (creative.sizes.find? ts.1).isSome)).map Prod.snd

def selectTagSize_ (tag : Tag) (creative : Creative) (offset : Nat) : Except Fault TagSize := do
  check (!(availableSizes tag creative).isEmpty)
  deref (availableSizes tag creative)[offset % (availableSizes tag creative).length]?

/-- `select_display_creative_`. -/
def selectDisplayCreative_ (draws : DisplayDraws) (n : Nat) (availableCreatives : List Creative) :
    Except Fault (Option Creative) :=
  if availableCreatives.isEmpty then .ok none
  else do
    let wc := draws.selectCreative n availableCreatives
    check wc.isSome
    return wc

section Default

variable (R : RevenueArith) (a : DisplayAuction) (draws : DisplayDraws)

namespace DisplayAuction

/-- `filter_creatives_`. -/
def availableCreatives (campaign : Campaign) : List Creative :=
  filterCreatives a.templates a.key a.tag (some a.tagSizes) campaign a.filter a.seqOrders [] false

def knownCandidate (cell : CampaignSelectionCell) (creative : Creative) (tagSize : TagSize)
    (ecpm : Int) : DisplayCandidate where
  cell := cell
  weighted := {
    tagPricing := cell.tagPricing
    tagSize := tagSize
    campaign := cell.campaign
    creative := creative
    availableCreatives := a.availableCreatives cell.campaign
    ecpm := ecpm
    ctr := cell.campaign.ctr
    convRate := 0 }

/-- A candidate made of a cell and a creative drawn, the n-th of the list. -/
def candidateOf (n : Nat) (cell : CampaignSelectionCell) (creative : Creative) (ecpm : Int) :
    Except Fault DisplayCandidate := do
  let tagSize ← selectTagSize_ a.tag creative (draws.sizeIndex n)
  check (decide (0 ≤ cell.campaign.ctr))
  return a.knownCandidate cell creative tagSize ecpm

/-- `get_all_display_campaign_candidates_` with the click rates of the campaigns. -/
def getAllDisplay (checkMinEcpm : Bool) : List CampaignSelectionCell → List DisplayCandidate →
    Except Fault (List DisplayCandidate)
  | [], result => .ok result
  | cell :: rest, result =>
    if a.checkCampaign cell.campaign then
      let currentEcpm := defaultCampaignEcpm_ R a.tag cell.campaign
      if checkMinEcpm && !checkMinEcpm_ cell.tagPricing a.minEcpm currentEcpm then
        getAllDisplay checkMinEcpm rest result
      else if cell.campaign.missesCtrGoal cell.campaign.ctr then
        getAllDisplay checkMinEcpm rest result
      else if (a.availableCreatives cell.campaign).isEmpty then
        getAllDisplay checkMinEcpm rest result
      else do
        let drawn ← selectDisplayCreative_ draws result.length (a.availableCreatives cell.campaign)
        let creative ← deref drawn
        let candidate ← a.candidateOf draws result.length cell creative currentEcpm
        getAllDisplay checkMinEcpm rest (result ++ [candidate])
    else getAllDisplay checkMinEcpm rest result

/-- `get_max_display_campaign_candidates_`. -/
def getMaxDisplayCampaignCandidates_ : List CampaignSelectionCell → Int → List DisplayCandidate →
    Except Fault (List DisplayCandidate)
  | [], _, result => .ok result
  | cell :: rest, selectedNonAdjustedEcpm, result =>
    if selectedNonAdjustedEcpm ≠ 0 ∧ cell.campaign.ecpm_ ≠ selectedNonAdjustedEcpm then
      .ok result
    else if a.checkCampaign cell.campaign then
      let currentEcpm := defaultCampaignEcpm_ R a.tag cell.campaign
      if !checkMinEcpm_ cell.tagPricing a.minEcpm currentEcpm then
        -- the list is taken to be ordered by what is checked here
        .ok result
      else if cell.campaign.missesCtrGoal cell.campaign.ctr then
        getMaxDisplayCampaignCandidates_ rest selectedNonAdjustedEcpm result
      else do
        let drawn ← selectDisplayCreative_ draws result.length (a.availableCreatives cell.campaign)
        match drawn with
        | none => getMaxDisplayCampaignCandidates_ rest selectedNonAdjustedEcpm result
        | some creative => do
          let candidate ← a.candidateOf draws result.length cell creative currentEcpm
          getMaxDisplayCampaignCandidates_ rest cell.campaign.ecpm_ (result ++ [candidate])
    else getMaxDisplayCampaignCandidates_ rest selectedNonAdjustedEcpm result

end DisplayAuction

end Default

/-! ## With click rates calculated -/

/-- `CTRWeightedCampaignHolder`. -/
structure CtrHolder where
  cell : CampaignSelectionCell
  availableCreatives : List Creative
  ecpm : Int
  ctr : Int
  convRate : Int
  curCreatives : List SizedCreative

structure CtrHolders where
  unknown : List CtrHolder
  known : List CtrHolder

section Ctr

variable (R : RevenueArith) (a : DisplayAuction) (calculation : CtrCalculation)

namespace DisplayAuction

def emptyHolder (cell : CampaignSelectionCell) (ecpm ctr : Int) : CtrHolder where
  cell := cell
  availableCreatives := a.availableCreatives cell.campaign
  ecpm := ecpm
  ctr := ctr
  convRate := 0
  curCreatives := []

/-- The campaigns whose click rate is to be calculated. -/
def unknownCtr (campaign : Campaign) : Bool :=
  campaign.useCtr || campaign.bidStrategy == .minCtrGoal

/-- The first step: campaigns filtered without a look at what they bid, those
with a known bid after it. -/
def filterCampaigns (checkMinEcpm : Bool) : List CampaignSelectionCell → CtrHolders →
    Except Fault CtrHolders
  | [], holders => .ok holders
  | cell :: rest, holders =>
    if a.checkCampaign cell.campaign && !(a.availableCreatives cell.campaign).isEmpty then
      if unknownCtr cell.campaign then
        filterCampaigns checkMinEcpm rest
          { holders with unknown := holders.unknown ++ [a.emptyHolder cell 0 0] }
      else
        let currentEcpm := defaultCampaignEcpm_ R a.tag cell.campaign
        if checkMinEcpm && !checkMinEcpm_ cell.tagPricing a.minEcpm currentEcpm then
          filterCampaigns checkMinEcpm rest holders
        else do
          check (decide (0 ≤ cell.campaign.ctr))
          filterCampaigns checkMinEcpm rest
            { holders with
              known := holders.known ++ [a.emptyHolder cell currentEcpm cell.campaign.ctr] }
    else filterCampaigns checkMinEcpm rest holders

/-- The conversion rate of a creative, which is checked until one check did not
depend on the creative. -/
def checkRate (tagSize : TagSize) (creative : Creative) (rateChecked : Bool) : RateCheck :=
  if rateChecked then ⟨true, 0, false⟩
  else match calculation.checkRate with
    | none => ⟨true, 0, false⟩
    | some check => check tagSize creative

/-- The bid of a campaign at a click rate. -/
def ctrEcpm (campaign : Campaign) (ctr : Int) : Int :=
  if campaign.useCtr then R.mul campaign.clickSysRevenue (R.mul ctr R.ecpmFactor)
  else defaultCampaignEcpm_ R a.tag campaign

/-- A creative of a campaign with a calculated click rate: the greatest bid is
kept with the creatives that make it. -/
def rateUnknown (checkMinEcpm : Bool) (tagSize : TagSize) (creative : Creative) (convRate : Int)
    (holder : CtrHolder) : CtrHolder :=
  let ctr := calculation.getCtr tagSize creative
  let ecpm := a.ctrEcpm R holder.cell.campaign ctr
  if (!checkMinEcpm || checkMinEcpm_ holder.cell.tagPricing a.minEcpm ecpm) &&
      !holder.cell.campaign.missesCtrGoal ctr then
    if holder.ecpm < ecpm then
      { holder with
        ecpm := ecpm
        ctr := ctr
        convRate := convRate
        curCreatives := [⟨tagSize, creative, convRate⟩] }
    else if ecpm = holder.ecpm then
      { holder with curCreatives := holder.curCreatives ++ [⟨tagSize, creative, convRate⟩] }
    else holder
  else holder

/-- A creative of a campaign with a known bid. -/
def rateKnown (tagSize : TagSize) (creative : Creative) (convRate : Int) (holder : CtrHolder) :
    CtrHolder :=
  { holder with curCreatives := holder.curCreatives ++ [⟨tagSize, creative, convRate⟩] }

/-- One creative of a holder at a size. -/
def visitCreative (rate : TagSize → Creative → Int → CtrHolder → CtrHolder) (tagSize : TagSize)
    (s : Bool × CtrHolder) (creative : Creative) : Bool × CtrHolder :=
  if creativeAvailableBySize a.tag a.filter creative tagSize then
    let checked := checkRate calculation tagSize creative s.1
    (!checked.creativeDependent,
      if checked.passed then rate tagSize creative checked.convRate s.2 else s.2)
  else s

def visitHolder (rate : TagSize → Creative → Int → CtrHolder → CtrHolder) (tagSize : TagSize)
    (holder : CtrHolder) : CtrHolder :=
  (holder.availableCreatives.foldl (a.visitCreative calculation rate tagSize) (false, holder)).2

/-- The sizes of the request, one after another. -/
def fetchSizes (checkMinEcpm : Bool) (sizes : List TagSize) (holders : CtrHolders) : CtrHolders :=
  sizes.foldl (fun holders tagSize =>
    { unknown := holders.unknown.map
        (a.visitHolder calculation (a.rateUnknown R calculation checkMinEcpm) tagSize)
      known := holders.known.map (a.visitHolder calculation rateKnown tagSize) }) holders

/-- A holder with the size and the creative drawn for it. -/
def holderCandidate (holder : CtrHolder) (cr : SizedCreative) : DisplayCandidate where
  cell := holder.cell
  weighted := {
    tagPricing := holder.cell.tagPricing
    tagSize := cr.tagSize
    campaign := holder.cell.campaign
    creative := cr.creative
    availableCreatives := holder.availableCreatives
    ecpm := holder.ecpm
    ctr := holder.ctr
    convRate := cr.convRate }

def selectSizedCreatives (draws : DisplayDraws) : List CtrHolder → List DisplayCandidate →
    Except Fault (List DisplayCandidate)
  | [], result => .ok result
  | holder :: rest, result =>
    if holder.curCreatives.isEmpty then selectSizedCreatives draws rest result
    else do
      let cr ← deref (draws.selectSized result.length holder.curCreatives)
      selectSizedCreatives draws rest (result ++ [holderCandidate holder cr])

/-- `get_all_display_campaign_candidates_`. -/
def getAllDisplayCampaignCandidates_ (draws : DisplayDraws) (checkMinEcpm : Bool)
    (cells : List CampaignSelectionCell) : Except Fault (List DisplayCandidate) :=
  match a.ctrCalculation with
  | none => a.getAllDisplay R draws checkMinEcpm cells []
  | some calculation => do
    let holders ← a.filterCampaigns R checkMinEcpm cells ⟨[], []⟩
    let fetched := a.fetchSizes R calculation checkMinEcpm
      (a.tagSizes.sizes.entries.map Prod.snd) holders
    let result ← selectSizedCreatives draws fetched.unknown []
    selectSizedCreatives draws fetched.known result

/-! ## The campaign selected -/

/-- The profit of a candidate. -/
def margin (c : DisplayCandidate) : Int := profit R c.weighted.tagPricing c.weighted.ecpm

/-- The draw in proportion to the bids; it stops behind the element it takes. -/
def selectProportionally (campaigns : List DisplayCandidate) :
    Except Fault DisplayCandidate := do
  let ecpmOffset := R.mul (totalWeight (·.weighted.ecpm) campaigns)
    (R.div (R.ofNat a.random2) (R.ofNat randomParamMax))
  check (decide (0 ≤ ecpmOffset))
  deref ((draw (·.weighted.ecpm) ecpmOffset campaigns).or campaigns.getLast?)

/-- The draw among those of the greatest profit. -/
def selectMaxMargin (campaigns : List DisplayCandidate) : Except Fault DisplayCandidate := do
  let maxEcpmCampaigns := (maximaFrom (margin R) 0 campaigns).2
  check (!maxEcpmCampaigns.isEmpty)
  deref maxEcpmCampaigns[a.random2 % maxEcpmCampaigns.length]?

def selectDisplayCampaign_ (draws : DisplayDraws) (auctionType : AuctionType)
    (cells : List CampaignSelectionCell) : Except Fault (Option DisplayCandidate) :=
  if a.ctrCalculation.isNone && auctionType == .maxEcpm then do
    let campaigns ← a.getMaxDisplayCampaignCandidates_ R draws cells 0 []
    if campaigns.isEmpty then return none
    else do
      let chosen ← deref (draws.selectCampaign campaigns)
      return some chosen
  else do
    let campaigns ← a.getAllDisplayCampaignCandidates_ R draws
      (a.ctrCalculation.isSome || auctionType != .random) cells
    if campaigns.isEmpty then return none
    else do
      let chosen ←
        match auctionType with
        | .random => deref campaigns[a.random2 % campaigns.length]?
        | .proportionalProbability => a.selectProportionally R campaigns
        | .maxEcpm => a.selectMaxMargin R campaigns
      return some chosen

end DisplayAuction

end Ctr

section Candidates

variable (R : RevenueArith) (a : DisplayAuction)

namespace DisplayAuction

/-- What the auction takes for granted of the request and of the list. -/
structure Sane (cells : List CampaignSelectionCell) : Prop where
  /-- the sizes of the request are sizes of the tag -/
  sizes : ∀ id tagSize, a.tagSizes.sizes.find? id = some tagSize →
    a.tag.sizes.sizes.find? id = some tagSize
  sorted : cells.Pairwise (fun c d => d.ecpm ≤ c.ecpm)
  ctr : ∀ c ∈ cells, 0 ≤ c.campaign.ctr

def ReachesMin (c : CampaignSelectionCell) : Prop :=
  checkMinEcpm_ c.tagPricing a.minEcpm (defaultCampaignEcpm_ R a.tag c.campaign) = true

/-- What makes a cell a candidate when click rates are those of the campaigns. -/
structure Candidate (c : CampaignSelectionCell) : Prop where
  passes : a.checkCampaign c.campaign = true
  reachesMin : a.ReachesMin R c
  goal : c.campaign.missesCtrGoal c.campaign.ctr = false
  creatives : a.availableCreatives c.campaign ≠ []

instance : DecidablePred (a.ReachesMin R) := fun _ =>
  inferInstanceAs (Decidable (_ = true))

instance : DecidablePred (a.Candidate R) := fun c =>
  decidable_of_iff
    (a.checkCampaign c.campaign = true ∧ a.ReachesMin R c ∧
      c.campaign.missesCtrGoal c.campaign.ctr = false ∧ a.availableCreatives c.campaign ≠ [])
    ⟨fun h => ⟨h.1, h.2.1, h.2.2.1, h.2.2.2⟩,
      fun h => ⟨h.passes, h.reachesMin, h.goal, h.creatives⟩⟩

/-- The size of a candidate is one that its creative has. -/
def OwnSize (c : DisplayCandidate) (sizes : TagSizeMap) : Prop :=
  ∃ id ∈ c.weighted.creative.sizes.keys, sizes.sizes.find? id = some c.weighted.tagSize

/-- A candidate made of a cell whose click rate is known. -/
structure MadeOf (draws : DisplayDraws) (cell : CampaignSelectionCell) (c : DisplayCandidate) :
    Prop where
  of : c.cell = cell
  creative : c.weighted.creative ∈ a.availableCreatives cell.campaign
  size : OwnSize c a.tag.sizes
  drawn : ∃ n, draws.selectCreative n (a.availableCreatives cell.campaign) =
      some c.weighted.creative ∧
    selectTagSize_ a.tag c.weighted.creative (draws.sizeIndex n) = .ok c.weighted.tagSize

variable {R a}

variable {creative : Creative} {tag : Tag} {tagSize : TagSize} {cells : List CampaignSelectionCell}

theorem size_of_availableCreative {campaign : Campaign}
    (h : creative ∈ a.availableCreatives campaign) :
    ∃ id ∈ creative.sizes.keys, ∃ tagSize, a.tagSizes.sizes.find? id = some tagSize := by
  have fits : indexedCreativeAvailable a.templates a.key a.tag (some a.tagSizes) a.filter creative =
      true := by
    change creative ∈ filterCreativesIndexed _ _ _ _ _ _ [] at h
    unfold filterCreativesIndexed at h
    split at h
    · exact (List.mem_filter.1 (by simpa using h)).2
    · exact ((Postings.mem_collect _ _).1 h).2
  obtain ⟨id, tagSize, found, own⟩ := exists_size_of_available (sizes_of_available fits)
  exact ⟨id, own, tagSize, found⟩

theorem mem_availableSizes :
    tagSize ∈ availableSizes tag creative ↔
      ∃ id ∈ creative.sizes.keys, tag.sizes.sizes.find? id = some tagSize := by
  simp only [availableSizes, List.mem_map, List.mem_filter, SortedMap.find?_eq_some,
    SortedMap.mem_keys]
  constructor
  · rintro ⟨⟨id, ts⟩, ⟨entry, own⟩, rfl⟩
    exact ⟨id, own, entry⟩
  · rintro ⟨id, own, entry⟩
    exact ⟨(id, tagSize), ⟨entry, own⟩, rfl⟩

theorem selectTagSize_eq (some : availableSizes tag creative ≠ []) (offset : Nat) :
    ∃ tagSize ∈ availableSizes tag creative, selectTagSize_ tag creative offset = .ok tagSize := by
  have bound : offset % (availableSizes tag creative).length < (availableSizes tag creative).length :=
    Nat.mod_lt _ (List.length_pos_iff.2 some)
  have passed : check (!(availableSizes tag creative).isEmpty) = .ok () := by
    simp [List.isEmpty_eq_false_iff.2 some]
  refine ⟨_, List.getElem_mem bound, ?_⟩
  rw [selectTagSize_, passed, ok_bind, List.getElem?_eq_getElem bound, deref_some]

theorem exists_offset (h : tagSize ∈ availableSizes tag creative) :
    ∃ offset, selectTagSize_ tag creative offset = .ok tagSize := by
  obtain ⟨offset, bound, same⟩ := List.mem_iff_getElem.1 h
  have some := List.ne_nil_of_mem h
  have passed : check (!(availableSizes tag creative).isEmpty) = .ok () := by
    simp [List.isEmpty_eq_false_iff.2 some]
  refine ⟨offset, ?_⟩
  rw [selectTagSize_, passed, ok_bind, Nat.mod_eq_of_lt bound, List.getElem?_eq_getElem bound,
    deref_some, same]

theorem candidateOf_eq (sane : a.Sane cells) (draws : DisplayDraws) {cell : CampaignSelectionCell}
    (mem : cell ∈ cells) (some : a.availableCreatives cell.campaign ≠ []) (n : Nat) (ecpm : Int) :
    ∃ creative c, selectDisplayCreative_ draws n (a.availableCreatives cell.campaign) =
        .ok (Option.some creative) ∧
      a.candidateOf draws n cell creative ecpm = .ok c ∧ a.MadeOf draws cell c := by
  obtain ⟨creative, available, drawn⟩ := draws.creative_mem n _ some
  obtain ⟨id, own, size, found⟩ := size_of_availableCreative available
  have sizes := mem_availableSizes.2 ⟨id, own, sane.sizes id size found⟩
  obtain ⟨tagSize, mem_sizes, selected⟩ :=
    selectTagSize_eq (List.ne_nil_of_mem sizes) (draws.sizeIndex n)
  have nonneg : check (decide (0 ≤ cell.campaign.ctr)) = .ok () := by simp [sane.ctr cell mem]
  refine ⟨creative, a.knownCandidate cell creative tagSize ecpm, ?_, ?_, ?_⟩
  · simp [selectDisplayCreative_, some, drawn]
  · rw [candidateOf, selected, ok_bind, nonneg, ok_bind]
    rfl
  · exact ⟨rfl, available, mem_availableSizes.1 mem_sizes, n, drawn, selected⟩

theorem getAllDisplay_eq (sane : a.Sane cells) (draws : DisplayDraws)
    (rest : List CampaignSelectionCell) (part : ∀ c ∈ rest, c ∈ cells)
    (result : List DisplayCandidate) :
    ∃ more, a.getAllDisplay R draws true rest result = .ok (result ++ more) ∧
      List.Forall₂ (a.MadeOf draws) (rest.filter (fun c => decide (a.Candidate R c))) more := by
  induction rest generalizing result with
  | nil => exact ⟨[], by simp [getAllDisplay], List.Forall₂.nil⟩
  | cons cell rest ih =>
    have others : ∀ c ∈ rest, c ∈ cells := fun c mem => part c (List.mem_cons_of_mem _ mem)
    by_cases candidate : a.Candidate R cell
    · obtain ⟨creative, c, drawn, made, of⟩ := candidateOf_eq sane draws
        (part cell List.mem_cons_self) candidate.creatives result.length
        (defaultCampaignEcpm_ R a.tag cell.campaign)
      obtain ⟨more, run, all⟩ := ih others (result ++ [c])
      have min := candidate.reachesMin
      unfold ReachesMin at min
      refine ⟨c :: more, ?_, ?_⟩
      · simp [getAllDisplay, candidate.passes, min, candidate.goal, candidate.creatives, drawn,
          made, run]
      · simpa [candidate] using List.Forall₂.cons of all
    · have skipped : a.getAllDisplay R draws true (cell :: rest) result =
          a.getAllDisplay R draws true rest result := by
        rw [getAllDisplay]
        by_cases passes : a.checkCampaign cell.campaign = true
        · by_cases min : a.ReachesMin R cell
          · by_cases goal : cell.campaign.missesCtrGoal cell.campaign.ctr = false
            · have none : a.availableCreatives cell.campaign = [] := by
                by_contra creatives
                exact candidate ⟨passes, min, goal, creatives⟩
              unfold ReachesMin at min
              simp [passes, min, goal, none]
            · unfold ReachesMin at min
              simp [passes, min, goal]
          · unfold ReachesMin at min
            simp [passes, min]
        · simp [passes]
      rw [skipped]
      simpa [candidate] using ih others result

end DisplayAuction

end Candidates

section FastPath

variable (R : RevenueArith) (a : DisplayAuction)

namespace DisplayAuction

/-- The cells that the fast path makes candidates of. -/
def taken : List CampaignSelectionCell → Int → List CampaignSelectionCell
  | [], _ => []
  | cell :: rest, selected =>
    if selected ≠ 0 ∧ cell.campaign.ecpm_ ≠ selected then []
    else if a.checkCampaign cell.campaign = true ∧ ¬ a.ReachesMin R cell then []
    else if a.Candidate R cell then cell :: taken rest cell.campaign.ecpm_
    else taken rest selected

/-- The configured bid of the last candidate, or zero. -/
def lastEcpm (before : List CampaignSelectionCell) : Int :=
  before.foldl (fun ecpm c => if a.Candidate R c then c.campaign.ecpm_ else ecpm) 0

/-- The fast path stops at a cell: its campaign may be shown and bids too little,
or its configured bid is not that of the last candidate. -/
def Stops (before : List CampaignSelectionCell) (c : CampaignSelectionCell) : Prop :=
  (a.checkCampaign c.campaign = true ∧ ¬ a.ReachesMin R c) ∨
    (a.lastEcpm R before ≠ 0 ∧ c.campaign.ecpm_ ≠ a.lastEcpm R before)

/-- The fast path stops at one of the cells behind those before. -/
def Stopped : List CampaignSelectionCell → List CampaignSelectionCell → Prop
  | _, [] => False
  | before, c :: rest => a.Stops R before c ∨ Stopped (before ++ [c]) rest

variable {R a}

section
variable (before : List CampaignSelectionCell)

section
variable (c : CampaignSelectionCell)

theorem lastEcpm_append :
    a.lastEcpm R (before ++ [c]) =
      if a.Candidate R c then c.campaign.ecpm_ else a.lastEcpm R before := by
  simp [lastEcpm]

theorem taken_cons (rest : List CampaignSelectionCell) (goes : ¬ a.Stops R before c) :
    a.taken R (c :: rest) (a.lastEcpm R before) =
      (if a.Candidate R c then [c] else []) ++ a.taken R rest (a.lastEcpm R (before ++ [c])) := by
  obtain ⟨pass, same⟩ := not_or.1 goes
  rw [taken, if_neg same, if_neg pass, lastEcpm_append]
  split <;> rfl

theorem taken_stops (rest : List CampaignSelectionCell) (stops : a.Stops R before c) :
    a.taken R (c :: rest) (a.lastEcpm R before) = [] := by
  rw [taken]
  cases stops with
  | inl less => rw [if_pos less, ite_self]
  | inr other => rw [if_pos other]

end

end

theorem mem_taken_iff (before rest : List CampaignSelectionCell) (c : CampaignSelectionCell) :
    c ∈ a.taken R rest (a.lastEcpm R before) ↔
      ∃ front back, rest = front ++ c :: back ∧ a.Candidate R c ∧
        ¬ a.Stopped R before (front ++ [c]) := by
  induction rest generalizing before with
  | nil => simp [taken]
  | cons d rest ih =>
    by_cases stops : a.Stops R before d
    · rw [taken_stops before d rest stops]
      constructor
      · simp
      · rintro ⟨front, back, split, -, goes⟩
        cases front with
        | nil =>
          cases split
          exact absurd (.inl stops) goes
        | cons e front =>
          cases split
          exact absurd (.inl stops) goes
    · rw [taken_cons before d rest stops, List.mem_append, ih]
      constructor
      · rintro (first | ⟨front, back, split, candidate, goes⟩)
        · split at first
          · next candidate =>
            cases List.mem_singleton.1 first
            refine ⟨[], rest, rfl, candidate, ?_⟩
            rintro (here | none)
            · exact stops here
            · exact none
          · simp at first
        · refine ⟨d :: front, back, by rw [split, List.cons_append], candidate, ?_⟩
          rintro (here | later)
          · exact stops here
          · exact goes later
      · rintro ⟨front, back, split, candidate, goes⟩
        cases front with
        | nil =>
          cases split
          exact .inl (by simp [candidate])
        | cons e front =>
          cases split
          exact .inr ⟨front, back, rfl, candidate, fun later => goes (.inr later)⟩

/-- Up to the first candidate only a bid that is too little stops the fast path. -/
theorem taken_of_first {before : List CampaignSelectionCell} (none : ∀ b ∈ before, ¬ a.Candidate R b)
    {c : CampaignSelectionCell} (candidate : a.Candidate R c) (after : List CampaignSelectionCell) :
    a.taken R (before ++ c :: after) 0 ≠ [] ↔
      ∀ b ∈ before, a.checkCampaign b.campaign = true → a.ReachesMin R b := by
  induction before with
  | nil =>
    have goes : ¬ (a.checkCampaign c.campaign = true ∧ ¬ a.ReachesMin R c) :=
      fun h => h.2 candidate.reachesMin
    simp [taken, goes, candidate]
  | cons b before ih =>
    have first : ¬ a.Candidate R b := none b List.mem_cons_self
    have others : ∀ b ∈ before, ¬ a.Candidate R b := fun b mem => none b (List.mem_cons_of_mem _ mem)
    rw [List.cons_append, taken, if_neg (fun h => h.1 rfl), List.forall_mem_cons]
    by_cases stops : a.checkCampaign b.campaign = true ∧ ¬ a.ReachesMin R b
    · rw [if_pos stops]
      constructor
      · intro some
        exact absurd rfl some
      · intro h
        exact absurd (h.1 stops.1) stops.2
    · rw [if_neg stops, if_neg first, ih others]
      constructor
      · intro h
        refine ⟨fun passes => ?_, h⟩
        by_contra less
        exact stops ⟨passes, less⟩
      · exact fun h => h.2

/-- The fast path makes candidates of the cells taken. -/
theorem getMaxDisplay_eq {cells : List CampaignSelectionCell} (sane : a.Sane cells)
    (draws : DisplayDraws) (rest : List CampaignSelectionCell) (part : ∀ c ∈ rest, c ∈ cells)
    (selected : Int) (result : List DisplayCandidate) :
    ∃ more, a.getMaxDisplayCampaignCandidates_ R draws rest selected result = .ok (result ++ more) ∧
      List.Forall₂ (a.MadeOf draws) (a.taken R rest selected) more := by
  induction rest generalizing selected result with
  | nil => exact ⟨[], by simp [getMaxDisplayCampaignCandidates_], List.Forall₂.nil⟩
  | cons cell rest ih =>
    have others : ∀ c ∈ rest, c ∈ cells := fun c mem => part c (List.mem_cons_of_mem _ mem)
    rw [getMaxDisplayCampaignCandidates_, taken]
    by_cases other : selected ≠ 0 ∧ cell.campaign.ecpm_ ≠ selected
    · rw [if_pos other, if_pos other]
      exact ⟨[], by simp, List.Forall₂.nil⟩
    · rw [if_neg other, if_neg other]
      by_cases passes : a.checkCampaign cell.campaign = true
      · by_cases reaches : a.ReachesMin R cell
        · have bid := reaches
          unfold ReachesMin at bid
          by_cases candidate : a.Candidate R cell
          · obtain ⟨creative, c, drawn, made, of⟩ := candidateOf_eq sane draws
              (part cell List.mem_cons_self) candidate.creatives result.length
              (defaultCampaignEcpm_ R a.tag cell.campaign)
            obtain ⟨more, run, all⟩ := ih others cell.campaign.ecpm_ (result ++ [c])
            refine ⟨c :: more, ?_, ?_⟩
            · simp [passes, bid, candidate.goal, drawn, made, run]
            · simpa [reaches, candidate] using List.Forall₂.cons of all
          · obtain ⟨more, run, all⟩ := ih others selected result
            refine ⟨more, ?_, by simpa [reaches, candidate] using all⟩
            by_cases goal : cell.campaign.missesCtrGoal cell.campaign.ctr = false
            · have none : a.availableCreatives cell.campaign = [] := by
                by_contra creatives
                exact candidate ⟨passes, reaches, goal, creatives⟩
              simp [passes, bid, goal, none, selectDisplayCreative_, run]
            · simp [passes, bid, goal, run]
        · have bid := reaches
          unfold ReachesMin at bid
          refine ⟨[], ?_, ?_⟩
          · simp [passes, bid]
          · simp [passes, reaches]
      · have candidate : ¬ a.Candidate R cell := fun h => passes h.passes
        obtain ⟨more, run, all⟩ := ih others selected result
        exact ⟨more, by simpa [passes] using run, by simpa [passes, candidate] using all⟩

end DisplayAuction

end FastPath

end AdServer.CampaignManager
