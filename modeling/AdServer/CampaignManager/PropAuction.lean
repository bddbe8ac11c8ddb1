import AdServer.CampaignManager.TextAuction

/-!
# The proportional auction

`select_campaigns_prop_probability_`: walled garden campaigns come first; else one
number draws a size for text ads and decides between display and text, each in
proportion to what it is expected to bring in.
-/

namespace AdServer.CampaignManager

open AdServer.Lib ExpectedEcpm

variable {offset sum : Int} {tagSize : TagSize}

/-- `TextSelectionBySize`. -/
structure TextSelectionBySize where
  tagSizes : TagSizeMap
  expectedEcpm : Int
  campaignCandidates : List WeightedCampaignKeyword

structure TextSelections where
  selections : List TextSelectionBySize
  zeroEcpm : List TextSelectionBySize
  ecpmSum : Int

/-- What `AdSelectionResult` and the output arguments get. -/
structure AdSelection where
  textCampaigns : Option (List WeightedCampaignKeyword) := none
  displayCampaign : Option WeightedCampaign := none
  tagSize : Option TagSize := none
  minTextEcpm : Int := 0
  walledGarden : Bool := false

/-- What the auction is held with: the request, the candidates it collects, and
what the random generator gives. -/
structure PropAuction where
  tag : Tag
  tagSizes : TagSizeMap
  countryCode : String
  minEcpm : Int
  onlyDisplayAd : Bool
  random2 : Nat
  wgDisplayCandidates : List WeightedCampaign
  displayCandidates : List WeightedCampaign
  /-- `filter_text_campaign_candidates_` at a size -/
  textCandidates : TagSize → List WeightedCampaignKeyword
  /-- `unsafe_rand()` for the display campaign -/
  displayRand : Nat
  /-- `unsafe_rand(n)` for the display campaign -/
  displayIndex : Nat
  slotDraws : Nat → SlotDraw

section Display

variable (R : RevenueArith)

def sumCampaignEcpm_ (campaignCandidates : List WeightedCampaign) : Int :=
  totalWeight (·.ecpm) campaignCandidates

def campaignEcpmExpectedValue_ (campaignCandidates : List WeightedCampaign) : Except Fault Int :=
  (campaignCandidates.foldl (fun e c => e.add R c.ecpm) ExpectedEcpm.zero).value R

/-- `select_campaign_prop_probability_`: an iterator that is at the end only if
there are no candidates. -/
def selectCampaignPropProbability_ (campaignCandidates : List WeightedCampaign)
    (ecpmOffset : Int) : Except Fault (Option WeightedCampaign) :=
  if campaignCandidates.isEmpty then .ok none
  else do
    let it := draw (·.ecpm) ecpmOffset campaignCandidates
    check it.isSome
    return it

def selectCampaignRandomly_ (campaignCandidates : List WeightedCampaign) (offset : Nat) :
    Option WeightedCampaign :=
  campaignCandidates[offset % campaignCandidates.length]?

end Display

section Text

variable (R : RevenueArith)

def groupMax (group : List WeightedCampaignKeyword) : Int :=
  group.foldl (fun groupMax c => if groupMax < c.actualEcpm then c.actualEcpm else groupMax) 0

/-- One group of `eval_text_campaigns_max_sum_`, which keeps a set of maxima. -/
def insertGroupMax (maxTextCreatives : Nat) (curElements : SortedMap Int Unit) (max : Int) :
    SortedMap Int Unit :=
  if curElements.isEmpty || curElements.first?.any (· < max) then
    let inserted := curElements.put max ()
    if maxTextCreatives < inserted.size then
      match inserted.first? with
      | some least => inserted.erase least
      | none => inserted
    else inserted
  else curElements

def evalTextCampaignsMaxSum_ (grouped : List (Int × List WeightedCampaignKeyword))
    (maxTextCreatives : Nat) : Int :=
  ((grouped.map (fun g => groupMax g.2)).foldl (insertGroupMax maxTextCreatives)
    SortedMap.empty).keys.sum

namespace PropAuction

variable (a : PropAuction)

/-- The random number as a fraction of its bound. -/
def share : Int := R.div (R.ofNat a.random2) (R.ofNat randomParamMax)

def textTagPricing : TagPricing := a.tag.selectTagPricing a.countryCode .text .all

/-- What a size brings to the auction, if it is admitted. -/
def textSelection (tagSize : TagSize) : Except Fault (Option TextSelectionBySize) :=
  if tagSize.maxTextCreatives = 0 then .ok none
  else do
    let filtered := a.textCandidates tagSize
    let (grouped, expectedEcpm) ← groupTextCampaigns_ R
      (fun c : WeightedCampaignKeyword => c.actualEcpm) (·.group) (ExpectedEcpm.add R)
      ExpectedEcpm.zero filtered
    let slotsCount := min tagSize.maxTextCreatives grouped.length
    let value ← expectedEcpm.value R
    let textExpectedEcpm := R.mul value (R.ofNat slotsCount)
    check (decide (0 ≤ textExpectedEcpm))
    let maxTextEcpmSum := evalTextCampaignsMaxSum_ grouped tagSize.maxTextCreatives
    return if a.textTagPricing.cpm ≤ maxTextEcpmSum then
      some ⟨TagSizeMap.empty.put tagSize, textExpectedEcpm, filtered⟩
    else none

end PropAuction

/-- A selection goes to its list by whether anything is expected of it. -/
def TextSelections.push (t : TextSelections) (s : TextSelectionBySize) : TextSelections :=
  if s.expectedEcpm ≠ 0 then
    { t with selections := t.selections ++ [s], ecpmSum := t.ecpmSum + s.expectedEcpm }
  else { t with zeroEcpm := t.zeroEcpm ++ [s] }

/-- The selection drawn; `share` is the fraction the random number makes. Among
sizes that nothing is expected of, the loop looks for the end of the other list,
so that it stops only at a selection. -/
def TextSelections.pick (t : TextSelections) (share : Int) :
    Except Fault (Option TextSelectionBySize) :=
  if !t.selections.isEmpty then
    .ok (draw (·.expectedEcpm) (R.mul t.ecpmSum share) t.selections)
  else if !t.zeroEcpm.isEmpty then do
    let it ← deref (draw (fun _ => R.one) (R.mul (R.ofNat t.zeroEcpm.length) share) t.zeroEcpm)
    return some it
  else .ok none

namespace PropAuction

variable (a : PropAuction)

def textSelections : List TagSize → TextSelections → Except Fault TextSelections
  | [], t => .ok t
  | tagSize :: rest, t => do
    let selection ← a.textSelection R tagSize
    textSelections rest (selection.elim t t.push)

/-- The selections of all sizes, unless only a display ad is asked for. -/
def collectTextSelections : Except Fault TextSelections :=
  if a.onlyDisplayAd then .ok ⟨[], [], 0⟩
  else a.textSelections R (a.tagSizes.sizes.entries.map Prod.snd) ⟨[], [], 0⟩

/-! ## The auction -/

/-- The expected values of display and text by which one is chosen. -/
def weights (display : Int) (result : Option TextSelectionBySize) : Int × Int :=
  let text := (result.map (·.expectedEcpm)).getD 0
  if display = 0 ∧ text = 0 then
    (if a.displayCandidates.isEmpty then display else R.one,
      if result.all (fun s => !s.campaignCandidates.isEmpty) then R.one else text)
  else (display, text)

/-- The campaign of the display auction. -/
def selectDisplay : Except Fault WeightedCampaign := do
  let displayEcpmSum := sumCampaignEcpm_ a.displayCandidates
  let it ←
    if displayEcpmSum ≠ 0 then
      selectCampaignPropProbability_ a.displayCandidates
        (randomOffset R a.displayRand displayEcpmSum)
    else .ok (selectCampaignRandomly_ a.displayCandidates a.displayIndex)
  deref it

/-- The text auction on the size drawn. -/
def selectText (s : TextSelectionBySize) (minTextEcpm : Int) : Except Fault AdSelection := do
  let (_, tagSize) ← deref s.tagSizes.sizes.entries.head?
  let (_, result) ← selectTextCampaignsPropProbability_ R s.campaignCandidates minTextEcpm
    tagSize.maxTextCreatives a.slotDraws
  return { textCampaigns := some result, tagSize := some tagSize, minTextEcpm := minTextEcpm }

/-- The auction among display and text candidates. -/
def selectOix : Except Fault AdSelection := do
  let selections ← a.collectTextSelections R
  let minTextEcpm := max a.textTagPricing.cpm a.minEcpm
  let resultTextSelection ← selections.pick R (a.share R)
  let displayExpected ← campaignEcpmExpectedValue_ R a.displayCandidates
  let (display, text) := a.weights R displayExpected resultTextSelection
  if R.mul (display + text) (a.share R) < display then do
    let campaign ← a.selectDisplay R
    return { displayCampaign := some campaign, minTextEcpm := minTextEcpm }
  else match resultTextSelection with
    | some s =>
      if s.campaignCandidates.isEmpty then .ok { minTextEcpm := minTextEcpm }
      else a.selectText R s minTextEcpm
    | none => .ok { minTextEcpm := minTextEcpm }

/-- The walled garden campaign, if there is one. -/
def selectWalledGarden : Except Fault (Option WeightedCampaign) :=
  if a.wgDisplayCandidates.isEmpty then .ok none
  else do
    let it ← selectCampaignPropProbability_ a.wgDisplayCandidates
      (R.mul (sumCampaignEcpm_ a.wgDisplayCandidates) (a.share R))
    let campaign ← deref it
    return some campaign

def selectCampaignsPropProbability_ : Except Fault AdSelection := do
  let displayCampaign ← a.selectWalledGarden R
  if displayCampaign.isNone && a.tag.marketplace != 'W' then a.selectOix R
  else return { displayCampaign := displayCampaign, walledGarden := true }

end PropAuction

end Text

section Draws

variable {R : RevenueArith} {candidates : List WeightedCampaign}

theorem expectedValue_eq (nonneg : ∀ c ∈ candidates, 0 ≤ c.ecpm) :
    campaignEcpmExpectedValue_ R candidates =
      .ok (mean R (candidates.map (·.ecpm))) := by
  have bids : ∀ e ∈ candidates.map (·.ecpm), 0 ≤ e := by
    intro e mem
    obtain ⟨c, hc, rfl⟩ := List.mem_map.1 mem
    exact nonneg c hc
  have value := value_eq (R := R) bids
  rwa [List.foldl_map] at value

theorem selectCampaignPropProbability_eq (nonneg : ∀ c ∈ candidates, 0 ≤ c.ecpm)
    (offset_nonneg : 0 ≤ offset) (below : offset < sumCampaignEcpm_ candidates) :
    ∃ c ∈ candidates, selectCampaignPropProbability_ candidates offset = .ok (some c) := by
  obtain ⟨c, mem, found⟩ := exists_draw nonneg offset_nonneg below
  have some : candidates.isEmpty = false := by
    simpa using List.ne_nil_of_mem mem
  exact ⟨c, mem, by simp [selectCampaignPropProbability_, some, found]⟩

theorem selectCampaignPropProbability_error (some : candidates ≠ [])
    (nonneg : ∀ c ∈ candidates, 0 ≤ c.ecpm) (offset_nonneg : 0 ≤ offset)
    (above : sumCampaignEcpm_ candidates ≤ offset) :
    selectCampaignPropProbability_ candidates offset = .error .assertFailed := by
  have missed : (draw (·.ecpm) offset candidates).isSome = false := by
    rw [Bool.eq_false_iff]
    intro found
    have below := (draw_isSome_iff nonneg offset_nonneg).1 found
    exact absurd below (not_lt.2 above)
  unfold selectCampaignPropProbability_
  rw [if_neg (by simpa using some)]
  dsimp only
  rw [missed]
  rfl

theorem selectCampaignRandomly_mem (some : candidates ≠ []) (offset : Nat) :
    ∃ c ∈ candidates, selectCampaignRandomly_ candidates offset = Option.some c := by
  have bound : offset % candidates.length < candidates.length :=
    Nat.mod_lt _ (List.length_pos_iff.2 some)
  exact ⟨candidates[offset % candidates.length], List.getElem_mem bound,
    by simp [selectCampaignRandomly_, bound]⟩

theorem sumCampaignEcpm_pos (nonneg : ∀ c ∈ candidates, 0 ≤ c.ecpm) :
    0 < sumCampaignEcpm_ candidates ↔ ∃ c ∈ candidates, c.ecpm ≠ 0 := by
  have total : 0 ≤ sumCampaignEcpm_ candidates := totalWeight_nonneg nonneg
  have zero : sumCampaignEcpm_ candidates = 0 ↔ ∀ c ∈ candidates, c.ecpm = 0 :=
    totalWeight_eq_zero_iff nonneg
  rw [total.lt_iff_ne', Ne, zero]
  push Not
  rfl

theorem randomOffset_lt_iff {rand : Nat} (bound : rand ≤ randMax) (pos : 0 < sum) :
    randomOffset R rand sum < sum ↔ rand ≠ randMax := by
  constructor
  · rintro below rfl
    have whole : 0 < R.ofNat randMax := lt_of_le_of_lt (R.ofNat_nonneg 0) (R.ofNat_lt (by decide))
    rw [randomOffset, R.div_self whole, R.mul_one_left pos.le] at below
    exact lt_irrefl _ below
  · intro less
    obtain ⟨nonneg, lt_one⟩ := R.share_lt_one (lt_of_le_of_ne bound less)
    exact R.mul_lt_right nonneg pos lt_one

theorem randomOffset_nonneg (rand : Nat) (nonneg : 0 ≤ sum) : 0 ≤ randomOffset R rand sum := by
  have whole : 0 < R.ofNat randMax := lt_of_le_of_lt (R.ofNat_nonneg 0) (R.ofNat_lt (by decide))
  exact R.mul_nonneg (R.div_nonneg (R.ofNat_nonneg rand) whole) nonneg

end Draws

section Sizes

variable (R : RevenueArith)

/-- The groups of text candidates as `group_text_campaigns_` gives them. -/
def textGroups (candidates : List WeightedCampaignKeyword) : List (Nat × List WeightedCampaignKeyword) :=
  (IdMaps.fill (fun c : WeightedCampaignKeyword => c.group) candidates).groups

def groupedText (candidates : List WeightedCampaignKeyword) :
    List (Int × List WeightedCampaignKeyword) :=
  groupedMap R (fun c : WeightedCampaignKeyword => c.actualEcpm) (textGroups candidates) []

namespace PropAuction

variable (a : PropAuction)

/-- What the auction takes for granted. -/
structure Sane : Prop where
  wgDisplay : ∀ c ∈ a.wgDisplayCandidates, 0 ≤ c.ecpm
  display : ∀ c ∈ a.displayCandidates, 0 ≤ c.ecpm
  text : ∀ tagSize, ∀ c ∈ a.textCandidates tagSize, 0 ≤ c.actualEcpm
  fees : ∀ tagSize, ∀ c ∈ a.textCandidates tagSize, FeeLeaves R c
  random2 : a.random2 < randomParamMax
  displayRand : a.displayRand ≤ randMax

/-- What is expected of the text candidates of a size. -/
def textExpected (tagSize : TagSize) : Int :=
  let candidates := a.textCandidates tagSize
  R.mul
    (ExpectedEcpm.mean R ((textGroups candidates).map
      (fun g => groupValue R (fun c : WeightedCampaignKeyword => c.actualEcpm) g.2)))
    (R.ofNat (min tagSize.maxTextCreatives (groupedText R candidates).length))

/-- A size has slots for text ads, and its candidates reach the price of the tag. -/
def admits (tagSize : TagSize) : Bool :=
  decide (tagSize.maxTextCreatives ≠ 0) &&
    decide (a.textTagPricing.cpm ≤
      evalTextCampaignsMaxSum_ (groupedText R (a.textCandidates tagSize)) tagSize.maxTextCreatives)

/-- The sizes admitted to the auction. -/
def admitted : List TagSize :=
  if a.onlyDisplayAd then [] else (a.tagSizes.sizes.entries.map Prod.snd).filter (a.admits R)

def promising : List TagSize := (a.admitted R).filter (fun s => decide (a.textExpected R s ≠ 0))

/-- The size on which the random number falls: by what is expected of it, or any
if nothing is expected of all. -/
def sizeDrawn : Option TagSize :=
  if (a.promising R).isEmpty then
    draw (fun _ => R.one) (R.mul (R.ofNat (a.admitted R).length) (a.share R)) (a.admitted R)
  else
    draw (a.textExpected R) (R.mul (totalWeight (a.textExpected R) (a.promising R)) (a.share R))
      (a.promising R)

/-- The selection that a size makes. -/
def selectionOf (tagSize : TagSize) : TextSelectionBySize where
  tagSizes := TagSizeMap.empty.put tagSize
  expectedEcpm := a.textExpected R tagSize
  campaignCandidates := a.textCandidates tagSize

variable {R a}

theorem share_bounds (sane : a.Sane R) : 0 ≤ a.share R ∧ a.share R < R.one :=
  R.share_lt_one sane.random2

theorem groupValues_nonneg (sane : a.Sane R) (tagSize : TagSize) :
    ∀ v ∈ (textGroups (a.textCandidates tagSize)).map
      (fun g => groupValue R (fun c : WeightedCampaignKeyword => c.actualEcpm) g.2), 0 ≤ v := by
  intro v mem
  obtain ⟨⟨id, group⟩, hg, rfl⟩ := List.mem_map.1 mem
  obtain ⟨-, part⟩ := IdMaps.of_mem_groups_fill hg
  exact groupValue_nonneg (fun c hc => sane.text tagSize c (part c hc))

theorem textExpected_nonneg (sane : a.Sane R) (tagSize : TagSize) :
    0 ≤ a.textExpected R tagSize :=
  R.mul_nonneg (mean_nonneg (groupValues_nonneg sane tagSize)) (R.ofNat_nonneg _)

theorem textExpected_of_nil (none : a.textCandidates tagSize = []) :
    a.textExpected R tagSize = 0 := by
  have mean : mean R [] = 0 := rfl
  unfold textExpected
  rw [none]
  change R.mul (ExpectedEcpm.mean R []) _ = 0
  rw [mean]
  exact R.mul_zero_left (R.ofNat_nonneg _)

theorem textSelection_eq (sane : a.Sane R) (tagSize : TagSize) :
    a.textSelection R tagSize =
      .ok (if a.admits R tagSize then some (a.selectionOf R tagSize) else none) := by
  unfold textSelection
  by_cases slots : tagSize.maxTextCreatives = 0
  · simp [slots, admits]
  · have bids : ∀ g ∈ textGroups (a.textCandidates tagSize), ∀ c ∈ g.2, 0 ≤ c.actualEcpm :=
      fun g hg c hc => sane.text tagSize c ((IdMaps.of_mem_groups_fill hg).2 c hc)
    have grouped : groupIdMap_ R (fun c : WeightedCampaignKeyword => c.actualEcpm)
        (add R) (textGroups (a.textCandidates tagSize)) ([], zero) = _ :=
      groupIdMap_eq bids [] zero
    have value := value_eq (R := R) (groupValues_nonneg sane tagSize)
    have expected := textExpected_nonneg sane tagSize
    have pass : check (decide (0 ≤ a.textExpected R tagSize)) = .ok () := by simp [expected]
    rw [if_neg slots]
    dsimp only [groupTextCampaigns_]
    change (groupIdMap_ R _ _ (textGroups (a.textCandidates tagSize)) _ >>= _) = _
    rw [grouped, ok_bind]
    dsimp only
    rw [value, ok_bind]
    change (check (decide (0 ≤ a.textExpected R tagSize)) >>= _) = _
    rw [pass, ok_bind]
    have same : a.admits R tagSize = decide (a.textTagPricing.cpm ≤
        evalTextCampaignsMaxSum_ (groupedText R (a.textCandidates tagSize))
          tagSize.maxTextCreatives) := by
      simp [admits, slots]
    rw [same]
    simp only [decide_eq_true_eq]
    rfl

theorem textSelections_eq (sane : a.Sane R) (sizes : List TagSize) (t : TextSelections) :
    a.textSelections R sizes t =
      .ok (((sizes.filter (a.admits R)).map (a.selectionOf R)).foldl TextSelections.push t) := by
  induction sizes generalizing t with
  | nil => rfl
  | cons tagSize rest ih =>
    rw [textSelections, textSelection_eq sane, ok_bind, ih]
    by_cases here : a.admits R tagSize = true <;> simp [here]

end PropAuction

theorem foldl_push (xs : List TextSelectionBySize) (t : TextSelections) :
    xs.foldl TextSelections.push t =
      { selections := t.selections ++ xs.filter (fun s => decide (s.expectedEcpm ≠ 0))
        zeroEcpm := t.zeroEcpm ++ xs.filter (fun s => decide (s.expectedEcpm = 0))
        ecpmSum := t.ecpmSum +
          totalWeight (·.expectedEcpm) (xs.filter (fun s => decide (s.expectedEcpm ≠ 0))) } := by
  induction xs generalizing t with
  | nil => simp
  | cons s rest ih =>
    rw [List.foldl_cons, ih, TextSelections.push]
    by_cases nothing : s.expectedEcpm = 0
    · simp [nothing]
    · simp [nothing, add_assoc]

namespace PropAuction

variable {R} {a : PropAuction}

theorem mem_promising :
    tagSize ∈ a.promising R ↔ tagSize ∈ a.admitted R ∧ a.textExpected R tagSize ≠ 0 := by
  simp [promising]

theorem sizeDrawn_mem (h : a.sizeDrawn R = some tagSize) : tagSize ∈ a.admitted R := by
  unfold sizeDrawn at h
  split at h
  · exact draw_mem h
  · exact (mem_promising.1 (draw_mem h)).1

theorem exists_sizeDrawn (sane : a.Sane R) (some : a.admitted R ≠ []) :
    ∃ tagSize, a.sizeDrawn R = Option.some tagSize := by
  obtain ⟨share_nonneg, share_lt⟩ := share_bounds sane
  unfold sizeDrawn
  split
  · next none =>
    have count : 0 < R.ofNat (a.admitted R).length :=
      lt_of_le_of_lt (R.ofNat_nonneg 0) (R.ofNat_lt (List.length_pos_iff.2 some))
    have below := R.mul_lt_left share_nonneg count share_lt
    have inside : R.mul (R.ofNat (a.admitted R).length) (a.share R) <
        totalWeight (fun _ => R.one) (a.admitted R) := by
      rwa [totalWeight_const]
    obtain ⟨s, -, found⟩ := exists_draw (fun _ _ => R.one_pos.le)
      (R.mul_nonneg count.le share_nonneg) inside
    exact ⟨s, found⟩
  · next promising =>
    obtain ⟨s, hs⟩ := List.exists_mem_of_ne_nil _ (by simpa using promising)
    have nonneg : ∀ s ∈ a.promising R, 0 ≤ a.textExpected R s :=
      fun s _ => textExpected_nonneg sane s
    have total : 0 < totalWeight (a.textExpected R) (a.promising R) := by
      apply lt_of_le_of_ne (totalWeight_nonneg nonneg)
      intro zero
      exact (mem_promising.1 hs).2 ((totalWeight_eq_zero_iff nonneg).1 zero.symm s hs)
    have below := R.mul_lt_left share_nonneg total share_lt
    obtain ⟨s, -, found⟩ := exists_draw nonneg (R.mul_nonneg total.le share_nonneg) below
    exact ⟨s, found⟩

theorem sizeDrawn_expected (promising : a.promising R ≠ []) (h : a.sizeDrawn R = some tagSize) :
    a.textExpected R tagSize ≠ 0 := by
  unfold sizeDrawn at h
  rw [if_neg (by simpa using promising)] at h
  exact (mem_promising.1 (draw_mem h)).2

theorem pick_map {sizes : List TagSize} :
    (sizes.map (a.selectionOf R)).filter (fun s => decide (s.expectedEcpm ≠ 0)) =
      (sizes.filter (fun s => decide (a.textExpected R s ≠ 0))).map (a.selectionOf R) := by
  rw [List.filter_map]
  rfl

theorem pickTextSelection_eq (sane : a.Sane R) :
    (((a.admitted R).map (a.selectionOf R)).foldl TextSelections.push ⟨[], [], 0⟩).pick R
        (a.share R) =
      .ok ((a.sizeDrawn R).map (a.selectionOf R)) := by
  rw [foldl_push, pick_map]
  unfold TextSelections.pick
  dsimp only
  rw [List.nil_append, List.nil_append, zero_add]
  by_cases promising : a.promising R = []
  · -- then every admitted size is in the other list
    have zero : ∀ s ∈ a.admitted R, a.textExpected R s = 0 := by
      intro s hs
      by_contra some
      have mem := mem_promising.2 ⟨hs, some⟩
      simp [promising] at mem
    have all : ((a.admitted R).map (a.selectionOf R)).filter
        (fun s => decide (s.expectedEcpm = 0)) = (a.admitted R).map (a.selectionOf R) := by
      apply List.filter_eq_self.2
      intro s mem
      obtain ⟨size, hs, rfl⟩ := List.mem_map.1 mem
      exact decide_eq_true (zero size hs)
    have none : (a.admitted R).filter (fun s => decide (a.textExpected R s ≠ 0)) = [] := promising
    rw [all, none]
    by_cases admitted : a.admitted R = []
    · simp [sizeDrawn, PropAuction.promising, admitted, draw, drawFrom]
    · obtain ⟨size, drawn⟩ := exists_sizeDrawn sane admitted
      have found := drawn
      unfold sizeDrawn at found
      rw [if_pos (by simpa using promising)] at found
      simp [admitted, draw_map, found, drawn]
  · have some : (a.admitted R).filter (fun s => decide (a.textExpected R s ≠ 0)) ≠ [] := promising
    have drawn : a.sizeDrawn R = draw (a.textExpected R)
        (R.mul (totalWeight (a.textExpected R) (a.promising R)) (a.share R)) (a.promising R) := by
      unfold sizeDrawn
      rw [if_neg (by simpa using promising)]
    have nonempty : (((a.admitted R).filter (fun s => decide (a.textExpected R s ≠ 0))).map
        (a.selectionOf R)).isEmpty = false := by simpa using some
    rw [nonempty, totalWeight_map, draw_map, drawn]
    rfl

end PropAuction

end Sizes

section Choice

variable (R : RevenueArith) (a : PropAuction)

namespace PropAuction

/-- What is expected of the display candidates. -/
def displayExpected : Int := ExpectedEcpm.mean R (a.displayCandidates.map (·.ecpm))

/-- What is expected of the size drawn. -/
def drawnExpected : Int := ((a.sizeDrawn R).map (a.textExpected R)).getD 0

/-- The weights of display and text. -/
def chances : Int × Int := a.weights R (a.displayExpected R) ((a.sizeDrawn R).map (a.selectionOf R))

/-- The random number falls on display. -/
def DisplayWins : Prop :=
  R.mul ((a.chances R).1 + (a.chances R).2) (a.share R) < (a.chances R).1

/-- The random number falls on a size with text candidates. -/
def TextDrawn (tagSize : TagSize) : Prop :=
  a.sizeDrawn R = some tagSize ∧ a.textCandidates tagSize ≠ []

def minText : Int := max a.textTagPricing.cpm a.minEcpm

variable {R a}

section
variable (sane : a.Sane R)
include sane

theorem selectOix_eq :
    a.selectOix R =
      if R.mul ((a.chances R).1 + (a.chances R).2) (a.share R) < (a.chances R).1 then do
        let campaign ← a.selectDisplay R
        return { displayCampaign := some campaign, minTextEcpm := a.minText }
      else match (a.sizeDrawn R).map (a.selectionOf R) with
        | some s =>
          if s.campaignCandidates.isEmpty then .ok { minTextEcpm := a.minText }
          else a.selectText R s a.minText
        | none => .ok { minTextEcpm := a.minText } := by
  have selections : a.collectTextSelections R =
      .ok (((a.admitted R).map (a.selectionOf R)).foldl TextSelections.push ⟨[], [], 0⟩) := by
    unfold collectTextSelections admitted
    split
    · rfl
    · exact textSelections_eq sane _ _
  unfold selectOix
  rw [selections, ok_bind, pickTextSelection_eq sane, ok_bind, expectedValue_eq sane.display]
  rfl

theorem sum_ne_zero_iff : sumCampaignEcpm_ a.displayCandidates ≠ 0 ↔ a.displayExpected R ≠ 0 := by
  have bids : ∀ e ∈ a.displayCandidates.map (·.ecpm), 0 ≤ e := by
    intro e mem
    obtain ⟨c, hc, rfl⟩ := List.mem_map.1 mem
    exact sane.display c hc
  have mean : a.displayExpected R = 0 ↔ _ := mean_eq_zero_iff (R := R) bids
  have sum : sumCampaignEcpm_ a.displayCandidates = 0 ↔ _ := totalWeight_eq_zero_iff sane.display
  rw [Ne, Ne, mean, sum]
  simp

theorem displayExpected_ne_zero_iff :
    a.displayExpected R ≠ 0 ↔ ∃ c ∈ a.displayCandidates, c.ecpm ≠ 0 := by
  have total : 0 ≤ sumCampaignEcpm_ a.displayCandidates := totalWeight_nonneg sane.display
  rw [← sum_ne_zero_iff sane, ← sumCampaignEcpm_pos sane.display, total.lt_iff_ne']

theorem displayExpected_nonneg : 0 ≤ a.displayExpected R := by
  apply mean_nonneg
  intro e mem
  obtain ⟨c, hc, rfl⟩ := List.mem_map.1 mem
  exact sane.display c hc

end

theorem displayExpected_of_nil (none : a.displayCandidates = []) : a.displayExpected R = 0 := by
  unfold displayExpected
  rw [none]
  rfl

/-- The display draw finds a campaign unless its random number is the greatest. -/
theorem selectDisplay_eq (sane : a.Sane R) (some : a.displayCandidates ≠ [])
    (draws : a.displayExpected R ≠ 0 → a.displayRand ≠ randMax) :
    ∃ c ∈ a.displayCandidates, a.selectDisplay R = .ok c := by
  unfold selectDisplay
  by_cases bids : sumCampaignEcpm_ a.displayCandidates = 0
  · obtain ⟨c, mem, found⟩ := selectCampaignRandomly_mem some a.displayIndex
    exact ⟨c, mem, by simp [bids, found]⟩
  · have total : 0 < sumCampaignEcpm_ a.displayCandidates :=
      lt_of_le_of_ne (totalWeight_nonneg sane.display) (Ne.symm bids)
    have less := draws ((sum_ne_zero_iff sane).1 bids)
    obtain ⟨c, mem, found⟩ := selectCampaignPropProbability_eq sane.display
      (randomOffset_nonneg (R := R) a.displayRand total.le)
      ((randomOffset_lt_iff sane.displayRand total).2 less)
    exact ⟨c, mem, by simp [bids, found]⟩

theorem selectDisplay_error (sane : a.Sane R) (bids : a.displayExpected R ≠ 0)
    (greatest : a.displayRand = randMax) : a.selectDisplay R = .error .assertFailed := by
  have some : a.displayCandidates ≠ [] := fun none => bids (displayExpected_of_nil none)
  have sum := (sum_ne_zero_iff sane).2 bids
  have total : 0 < sumCampaignEcpm_ a.displayCandidates :=
    lt_of_le_of_ne (totalWeight_nonneg sane.display) sum.symm
  have above : sumCampaignEcpm_ a.displayCandidates ≤
      randomOffset R a.displayRand (sumCampaignEcpm_ a.displayCandidates) := by
    apply not_lt.1
    rw [randomOffset_lt_iff sane.displayRand total]
    exact not_not_intro greatest
  have failed := selectCampaignPropProbability_error some sane.display (total.le.trans above) above
  unfold selectDisplay
  dsimp only
  rw [if_pos sum, failed]
  rfl

variable {tagSize : TagSize}

theorem selectText_eq (sane : a.Sane R) (slots : tagSize.maxTextCreatives ≠ 0) (minTextEcpm : Int) :
    ∃ result, a.selectText R (a.selectionOf R tagSize) minTextEcpm =
      .ok { textCampaigns := some result, tagSize := some tagSize, minTextEcpm := minTextEcpm } := by
  obtain ⟨ok, result, run, -, -⟩ := selectTextCampaigns_spec (R := R) (sane.text tagSize)
    (sane.fees tagSize) minTextEcpm (Nat.one_le_iff_ne_zero.2 slots) a.slotDraws
  have first : (a.selectionOf R tagSize).tagSizes.sizes.entries.head? =
      some (tagSize.size.sizeId, tagSize) := rfl
  refine ⟨result, ?_⟩
  unfold selectText
  rw [first, deref_some, ok_bind]
  dsimp only [selectionOf]
  rw [run]
  rfl

theorem admitted_slots (h : tagSize ∈ a.admitted R) : tagSize.maxTextCreatives ≠ 0 := by
  unfold admitted at h
  split at h
  · simp at h
  · have passed := (List.mem_filter.1 h).2
    unfold admits at passed
    simp only [Bool.and_eq_true, decide_eq_true_eq] at passed
    exact passed.1

section
variable (sane : a.Sane R)
include sane

/-- How the auction ends when the random number falls on display. -/
theorem selectOix_display (wins : a.DisplayWins R) (some : a.displayCandidates ≠ [])
    (draws : a.displayExpected R ≠ 0 → a.displayRand ≠ randMax) :
    ∃ c ∈ a.displayCandidates,
      a.selectOix R = .ok { displayCampaign := Option.some c, minTextEcpm := a.minText } := by
  obtain ⟨c, mem, found⟩ := selectDisplay_eq sane some draws
  refine ⟨c, mem, ?_⟩
  unfold DisplayWins at wins
  rw [selectOix_eq sane, if_pos wins, found]
  rfl

theorem selectOix_error (wins : a.DisplayWins R) (bids : a.displayExpected R ≠ 0)
    (greatest : a.displayRand = randMax) : a.selectOix R = .error .assertFailed := by
  unfold DisplayWins at wins
  rw [selectOix_eq sane, if_pos wins, selectDisplay_error sane bids greatest]
  rfl

theorem selectOix_text (loses : ¬ a.DisplayWins R) (drawn : a.TextDrawn R tagSize) :
    ∃ result, a.selectOix R =
      .ok { textCampaigns := some result, tagSize := some tagSize, minTextEcpm := a.minText } := by
  obtain ⟨size, candidates⟩ := drawn
  obtain ⟨result, run⟩ := selectText_eq sane (admitted_slots (sizeDrawn_mem size)) a.minText
  have some : (a.selectionOf R tagSize).campaignCandidates.isEmpty = false := by
    simpa [selectionOf] using candidates
  refine ⟨result, ?_⟩
  unfold DisplayWins at loses
  rw [selectOix_eq sane, if_neg loses, size]
  dsimp only [Option.map_some]
  rw [some, ← run]
  rfl

theorem selectOix_nothing (loses : ¬ a.DisplayWins R)
    (undrawn : ∀ tagSize, ¬ a.TextDrawn R tagSize) :
    a.selectOix R = .ok { minTextEcpm := a.minText } := by
  unfold DisplayWins at loses
  rw [selectOix_eq sane, if_neg loses]
  cases size : a.sizeDrawn R with
  | none => rfl
  | some tagSize =>
    have none : a.textCandidates tagSize = [] := by
      by_contra candidates
      exact undrawn tagSize ⟨size, candidates⟩
    simp [selectionOf, none]

end

theorem chances_of_bids (bids : a.displayExpected R ≠ 0) :
    a.chances R = (a.displayExpected R, a.drawnExpected R) := by
  have text : ((a.sizeDrawn R).map (a.selectionOf R)).map (·.expectedEcpm) =
      (a.sizeDrawn R).map (a.textExpected R) := by
    rw [Option.map_map]
    rfl
  unfold chances weights drawnExpected
  dsimp only
  rw [if_neg (fun h => bids h.1), text]

theorem drawnExpected_of_nil (none : ∀ tagSize ∈ a.admitted R, a.textCandidates tagSize = []) :
    a.drawnExpected R = 0 := by
  unfold drawnExpected
  cases size : a.sizeDrawn R with
  | none => rfl
  | some tagSize => exact textExpected_of_nil (none tagSize (sizeDrawn_mem size))

theorem chances_nonneg (sane : a.Sane R) : 0 ≤ (a.chances R).1 ∧ 0 ≤ (a.chances R).2 := by
  have display := displayExpected_nonneg sane
  have one := R.one_pos.le
  have text : 0 ≤ (((a.sizeDrawn R).map (a.selectionOf R)).map (·.expectedEcpm)).getD 0 := by
    cases a.sizeDrawn R with
    | none => exact le_rfl
    | some tagSize => exact textExpected_nonneg sane tagSize
  unfold chances weights
  dsimp only
  split
  · constructor
    · dsimp only
      split
      · exact display
      · exact one
    · dsimp only
      split
      · exact one
      · exact text
  · exact ⟨display, text⟩

theorem not_displayWins (sane : a.Sane R) (none : a.displayCandidates = []) :
    ¬ a.DisplayWins R := by
  have zero : (a.chances R).1 = 0 := by
    unfold chances weights
    dsimp only
    rw [displayExpected_of_nil none, none]
    split <;> rfl
  obtain ⟨-, text⟩ := chances_nonneg sane
  unfold DisplayWins
  rw [zero, zero_add]
  exact not_lt.2 (R.mul_nonneg text (share_bounds sane).1)

theorem displayWins_of_bids (sane : a.Sane R) (bids : a.displayExpected R ≠ 0)
    (alone : a.drawnExpected R = 0) : a.DisplayWins R := by
  obtain ⟨nonneg, lt_one⟩ := share_bounds sane
  have pos : 0 < a.displayExpected R := lt_of_le_of_ne (displayExpected_nonneg sane) bids.symm
  unfold DisplayWins
  rw [chances_of_bids bids, alone]
  dsimp only
  rw [add_zero]
  exact R.mul_lt_left nonneg pos lt_one

/-- Display campaigns that bid nothing have the weight of one, and so has the
text side when no size is drawn. -/
theorem chances_of_nothing (some : a.displayCandidates ≠ []) (nothing : a.displayExpected R = 0)
    (undrawn : a.sizeDrawn R = none) : a.chances R = (R.one, R.one) := by
  unfold chances weights
  dsimp only
  rw [undrawn, nothing]
  simp [some]

theorem chances_of_empty (some : a.displayCandidates ≠ []) (nothing : a.displayExpected R = 0)
    (drawn : a.sizeDrawn R = Option.some tagSize) (none : a.textCandidates tagSize = []) :
    a.chances R = (R.one, 0) := by
  have expected := textExpected_of_nil (R := R) none
  unfold chances weights
  dsimp only
  rw [drawn, nothing]
  simp [some, selectionOf, expected, none]

theorem share_twice (sane : a.Sane R) : R.mul (R.one + R.one) (a.share R) = 2 * a.share R := by
  have nonneg := (share_bounds sane).1
  have two : R.one + R.one = R.ofNat 2 := by
    unfold RevenueArith.ofNat
    omega
  rw [two, R.mul_comm_of_nonneg (R.ofNat_nonneg 2) nonneg, R.mul_ofNat nonneg]
  omega

/-! ## Landing on a candidate -/

variable (R a)

/-- Display and text compete: there is no walled garden candidate, and the tag
is not for the walled garden only. -/
def Open : Prop := a.wgDisplayCandidates = [] ∧ a.tag.marketplace ≠ 'W'

/-- What the auction is to give. -/
structure LandsOn (r : AdSelection) : Prop where
  walledGarden : a.wgDisplayCandidates ≠ [] →
    (∃ c ∈ a.wgDisplayCandidates, r.displayCampaign = some c) ∧ r.textCampaigns = none
  display : a.wgDisplayCandidates = [] → ∀ c, r.displayCampaign = some c → c ∈ a.displayCandidates
  text : ∀ result, r.textCampaigns = some result →
    ∃ tagSize ∈ a.admitted R, r.tagSize = some tagSize
  onlyDisplay : a.Open → a.displayCandidates ≠ [] →
    (∀ tagSize ∈ a.admitted R, a.textCandidates tagSize = []) →
    r.displayCampaign.isSome ∧ r.textCampaigns = none
  onlyText : a.Open → a.displayCandidates = [] →
    (∃ tagSize ∈ a.admitted R, a.textCandidates tagSize ≠ []) →
    r.displayCampaign = none ∧ r.textCampaigns.isSome

def LandsOnCandidate : Prop :=
  ∃ r, a.selectCampaignsPropProbability_ R = .ok r ∧ a.LandsOn R r

/-- The bids and the random numbers that the draws can deal with. -/
structure DrawsSafely : Prop where
  /-- some walled garden candidate bids -/
  walledGarden : a.wgDisplayCandidates ≠ [] → ∃ c ∈ a.wgDisplayCandidates, c.ecpm ≠ 0
  /-- the greatest random number meets display bids only when text is chosen -/
  greatest : a.Open → a.displayRand = randMax → (∃ c ∈ a.displayCandidates, c.ecpm ≠ 0) →
    a.displayExpected R ≤ R.mul (a.displayExpected R + a.drawnExpected R) (a.share R)
  /-- display campaigns that bid nothing have the lower half to themselves -/
  zeroDisplay : a.Open → a.displayCandidates ≠ [] → (∀ c ∈ a.displayCandidates, c.ecpm = 0) →
    a.admitted R = [] → 2 * a.share R < R.one
  /-- among sizes that nothing is expected of, one with candidates is drawn -/
  zeroText : a.Open → a.displayCandidates = [] →
    (∀ tagSize ∈ a.admitted R, a.textExpected R tagSize = 0) →
    (∃ tagSize ∈ a.admitted R, a.textCandidates tagSize ≠ []) → ∃ tagSize, a.TextDrawn R tagSize

variable {R a}

theorem selectCampaigns_of_open (h : a.Open) :
    a.selectCampaignsPropProbability_ R = a.selectOix R := by
  obtain ⟨empty, marketplace⟩ := h
  simp [selectCampaignsPropProbability_, selectWalledGarden, empty, marketplace]

theorem walledGarden_lands_iff (sane : a.Sane R) (some : a.wgDisplayCandidates ≠ []) :
    a.LandsOnCandidate R ↔ ∃ c ∈ a.wgDisplayCandidates, c.ecpm ≠ 0 := by
  obtain ⟨nonneg, lt_one⟩ := share_bounds sane
  have total : 0 ≤ sumCampaignEcpm_ a.wgDisplayCandidates := totalWeight_nonneg sane.wgDisplay
  have offset := R.mul_nonneg total nonneg
  have candidates : a.wgDisplayCandidates.isEmpty = false := by simpa using some
  rw [← sumCampaignEcpm_pos sane.wgDisplay]
  constructor
  · rintro ⟨r, run, -⟩
    by_contra zero
    have above := (not_lt.1 zero).trans offset
    have failed := selectCampaignPropProbability_error some sane.wgDisplay offset above
    simp [selectCampaignsPropProbability_, selectWalledGarden, candidates, failed, bind,
      Except.bind] at run
  · intro pos
    obtain ⟨c, mem, found⟩ := selectCampaignPropProbability_eq sane.wgDisplay offset
      (R.mul_lt_left nonneg pos lt_one)
    refine ⟨{ displayCampaign := Option.some c, walledGarden := true }, ?_, ?_⟩
    · simp [selectCampaignsPropProbability_, selectWalledGarden, candidates, found]
      rfl
    · constructor
      · intro _
        exact ⟨⟨c, mem, rfl⟩, rfl⟩
      · intro none
        exact absurd none some
      · simp
      · intro h
        exact absurd h.1 some
      · intro h
        exact absurd h.1 some

/-- A tag for the walled garden only gets nothing from elsewhere. -/
theorem lands_of_closed (empty : a.wgDisplayCandidates = []) (marketplace : a.tag.marketplace = 'W') :
    a.LandsOnCandidate R := by
  refine ⟨{ walledGarden := true }, ?_, ?_⟩
  · simp [selectCampaignsPropProbability_, selectWalledGarden, empty, marketplace]
  · constructor
    · intro some
      exact absurd empty some
    · simp
    · simp
    · intro h
      exact absurd marketplace h.2
    · intro h
      exact absurd marketplace h.2

section
variable (sane : a.Sane R)
include sane

theorem drawsSafely_of_lands (h : a.Open) (lands : a.LandsOnCandidate R) : a.DrawsSafely R := by
  obtain ⟨r, run, lands⟩ := lands
  rw [selectCampaigns_of_open h] at run
  constructor
  · intro some
    exact absurd h.1 some
  · intro _ greatest some
    have bids := (displayExpected_ne_zero_iff sane).2 some
    by_contra below
    have wins : a.DisplayWins R := by
      unfold DisplayWins
      rw [chances_of_bids bids]
      exact not_le.1 below
    rw [selectOix_error sane wins bids greatest] at run
    cases run
  · intro _ some zero none
    have nothing : a.displayExpected R = 0 := by
      by_contra bids
      obtain ⟨c, mem, bid⟩ := (displayExpected_ne_zero_iff sane).1 bids
      exact bid (zero c mem)
    have undrawn : a.sizeDrawn R = Option.none := by
      cases size : a.sizeDrawn R with
      | none => rfl
      | some tagSize => simpa [none] using sizeDrawn_mem size
    by_contra above
    have loses : ¬ a.DisplayWins R := by
      unfold DisplayWins
      rw [chances_of_nothing some nothing undrawn]
      dsimp only
      rwa [share_twice sane]
    rw [selectOix_nothing sane loses (by simp [TextDrawn, undrawn])] at run
    cases run
    have chosen := (lands.onlyDisplay h some (by simp [none])).1
    cases chosen
  · intro _ none _ candidates
    by_contra undrawn
    have loses := not_displayWins sane none
    rw [selectOix_nothing sane loses (not_exists.1 undrawn)] at run
    cases run
    have chosen := (lands.onlyText h none candidates).2
    cases chosen

theorem displayWins_of_safe (h : a.Open) (safe : a.DrawsSafely R) (some : a.displayCandidates ≠ [])
    (none : ∀ tagSize ∈ a.admitted R, a.textCandidates tagSize = []) : a.DisplayWins R := by
  by_cases bids : a.displayExpected R = 0
  · have zero : ∀ c ∈ a.displayCandidates, c.ecpm = 0 := by
      intro c mem
      by_contra bid
      exact (displayExpected_ne_zero_iff sane).2 ⟨c, mem, bid⟩ bids
    unfold DisplayWins
    cases size : a.sizeDrawn R with
    | none =>
      have empty : a.admitted R = [] := by
        by_contra admitted
        obtain ⟨tagSize, drawn⟩ := exists_sizeDrawn sane admitted
        simp [size] at drawn
      rw [chances_of_nothing some bids size]
      dsimp only
      rw [share_twice sane]
      exact safe.zeroDisplay h some zero empty
    | some tagSize =>
      rw [chances_of_empty some bids size (none tagSize (sizeDrawn_mem size))]
      dsimp only
      rw [add_zero, R.mul_one_left (share_bounds sane).1]
      exact (share_bounds sane).2
  · exact displayWins_of_bids sane bids (drawnExpected_of_nil none)

theorem textDrawn_of_safe (h : a.Open) (safe : a.DrawsSafely R) (none : a.displayCandidates = [])
    (candidates : ∃ tagSize ∈ a.admitted R, a.textCandidates tagSize ≠ []) :
    ∃ tagSize, a.TextDrawn R tagSize := by
  by_cases promising : a.promising R = []
  · apply safe.zeroText h none _ candidates
    intro tagSize mem
    by_contra expected
    have some := mem_promising.2 ⟨mem, expected⟩
    simp [promising] at some
  · obtain ⟨size, mem, -⟩ := candidates
    obtain ⟨tagSize, drawn⟩ := exists_sizeDrawn sane (List.ne_nil_of_mem mem)
    have expected := sizeDrawn_expected promising drawn
    exact ⟨tagSize, drawn, fun empty => expected (textExpected_of_nil empty)⟩

theorem lands_of_drawsSafely (h : a.Open) (safe : a.DrawsSafely R) : a.LandsOnCandidate R := by
  unfold LandsOnCandidate
  rw [selectCampaigns_of_open h]
  by_cases wins : a.DisplayWins R
  · have some : a.displayCandidates ≠ [] := fun none => not_displayWins sane none wins
    have draws : a.displayExpected R ≠ 0 → a.displayRand ≠ randMax := by
      intro bids greatest
      have above := safe.greatest h greatest ((displayExpected_ne_zero_iff sane).1 bids)
      unfold DisplayWins at wins
      rw [chances_of_bids bids] at wins
      exact absurd wins (not_lt.2 above)
    obtain ⟨c, mem, run⟩ := selectOix_display sane wins some draws
    refine ⟨_, run, ?_⟩
    constructor
    · intro wg
      exact absurd h.1 wg
    · intro _ c' same
      cases same
      exact mem
    · simp
    · intro _ _ _
      exact ⟨rfl, rfl⟩
    · intro _ none
      exact absurd none some
  · by_cases drawn : ∃ tagSize, a.TextDrawn R tagSize
    · obtain ⟨tagSize, drawn⟩ := drawn
      obtain ⟨result, run⟩ := selectOix_text sane wins drawn
      have mem := sizeDrawn_mem drawn.1
      refine ⟨_, run, ?_⟩
      constructor
      · intro wg
        exact absurd h.1 wg
      · simp
      · intro _ _
        exact ⟨tagSize, mem, rfl⟩
      · intro _ _ none
        exact absurd (none tagSize mem) drawn.2
      · intro _ _ _
        exact ⟨rfl, rfl⟩
    · refine ⟨_, selectOix_nothing sane wins (not_exists.1 drawn), ?_⟩
      constructor
      · intro wg
        exact absurd h.1 wg
      · simp
      · simp
      · intro _ some none
        exact absurd (displayWins_of_safe sane h safe some none) wins
      · intro _ none candidates
        exact absurd (textDrawn_of_safe sane h safe none candidates) drawn

end

theorem landsOnCandidate_iff (sane : a.Sane R) : a.LandsOnCandidate R ↔ a.DrawsSafely R := by
  by_cases some : a.wgDisplayCandidates = []
  · by_cases closed : a.tag.marketplace = 'W'
    · have safe : a.DrawsSafely R := by
        constructor
        · intro candidates
          exact absurd some candidates
        · intro h
          exact absurd closed h.2
        · intro h
          exact absurd closed h.2
        · intro h
          exact absurd closed h.2
      exact iff_of_true (lands_of_closed some closed) safe
    · exact ⟨drawsSafely_of_lands sane ⟨some, closed⟩, lands_of_drawsSafely sane ⟨some, closed⟩⟩
  · rw [walledGarden_lands_iff sane some]
    constructor
    · intro bids
      constructor
      · exact fun _ => bids
      · intro h
        exact absurd h.1 some
      · intro h
        exact absurd h.1 some
      · intro h
        exact absurd h.1 some
    · intro safe
      exact safe.walledGarden some

end PropAuction

end Choice

section Example

private def displayCampaign : WeightedCampaign where
  tagPricing := .default
  tagSize := ⟨⟨1, "300x250"⟩, 0⟩
  campaign := default
  creative := default
  availableCreatives := []
  ecpm := 10 ^ 8
  ctr := 0
  convRate := 0

private def displayAuction (displayRand : Nat) : PropAuction where
  tag := default
  tagSizes := TagSizeMap.empty
  countryCode := ""
  minEcpm := 0
  onlyDisplayAd := true
  random2 := 0
  wgDisplayCandidates := []
  displayCandidates := [displayCampaign]
  textCandidates := fun _ => []
  displayRand := displayRand
  displayIndex := 0
  slotDraws := fun _ => ⟨0, 0, 0, 0⟩

private theorem displayAuction_sane {displayRand : Nat} (h : displayRand ≤ randMax) :
    (displayAuction displayRand).Sane .floored := by
  constructor
  · simp [displayAuction]
  · simp [displayAuction, displayCampaign]
  · simp [displayAuction]
  · simp [displayAuction]
  · change 0 < randomParamMax
    decide
  · exact h

/-- The greatest random number makes the whole of the bids, at which the draw of
a display campaign fails its assertion. -/
theorem greatest_rand_fails :
    (displayAuction randMax).Sane .floored ∧
      ¬ (displayAuction randMax).LandsOnCandidate .floored := by
  refine ⟨displayAuction_sane le_rfl, ?_⟩
  rintro ⟨r, run, -⟩
  have failed : ((displayAuction randMax).selectCampaignsPropProbability_ .floored).toOption.isNone =
      true := by
    decide +kernel
  rw [run] at failed
  cases failed

theorem least_rand_lands : (displayAuction 0).LandsOnCandidate .floored := by
  apply (PropAuction.landsOnCandidate_iff (displayAuction_sane (by decide))).2
  constructor
  · intro some
    exact absurd rfl some
  · intro _ greatest
    exact absurd greatest (by decide)
  · intro _ _ zero
    have nothing : displayCampaign.ecpm = 0 := zero _ List.mem_cons_self
    exact absurd nothing (by decide)
  · intro _ none
    cases none

end Example

end AdServer.CampaignManager
