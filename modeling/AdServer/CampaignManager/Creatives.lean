import AdServer.CampaignManager.Config

/-!
# Creatives and the tags they may be shown on

What makes one creative available on a tag: sizes and expansion, content
categories, templates, video and frequency caps.
-/

namespace AdServer.CampaignManager

open AdServer.Lib

/-- The arguments of `filter_creatives` that every creative is checked against. -/
structure CreativeFilter where
  profilingAvailable : Bool
  fullFreqCaps : Finset Nat
  checkClickCategories : Bool
  upExpandSpace : Nat
  rightExpandSpace : Nat
  downExpandSpace : Nat
  leftExpandSpace : Nat
  videoMinDuration : Nat
  videoMaxDuration : Option Nat
  videoSkippableMaxDuration : Option Nat
  videoAllowSkippable : Bool
  videoAllowUnskippable : Bool
  allowedDurations : Finset Nat
  excludeCategories : Finset Nat
  requiredCategories : Finset Nat
  secure : Bool
  filterEmptyDestination : Bool

/-- A request that asks for nothing special. -/
def CreativeFilter.plain : CreativeFilter where
  profilingAvailable := true
  fullFreqCaps := ∅
  checkClickCategories := true
  upExpandSpace := 0
  rightExpandSpace := 0
  downExpandSpace := 0
  leftExpandSpace := 0
  videoMinDuration := 0
  videoMaxDuration := none
  videoSkippableMaxDuration := none
  videoAllowSkippable := true
  videoAllowUnskippable := true
  allowedDurations := ∅
  excludeCategories := ∅
  requiredCategories := ∅
  secure := false
  filterEmptyDestination := false

/-- The part of `CampaignIndex::Key` that creatives are checked against. -/
structure CreativeKey where
  format : String
  userStatus : UserStatus
  deriving DecidableEq

section Availability

variable (templates : CreativeTemplateMap) (key : CreativeKey) (tag : Tag)
  (tagSizes : Option TagSizeMap) (filter : CreativeFilter) (creative : Creative)

/-- `check_tag_sizes`. -/
def checkTagSizes : TagSizeMap := tagSizes.getD tag.sizes

def creativeAvailableBySize (tagSize : TagSize) : Bool :=
  match creative.sizes.find? tagSize.size.sizeId with
  | none => false
  | some crs =>
    !crs.expandable ||
      (tag.allowExpandable &&
        decide (crs.upExpandSpace ≤ filter.upExpandSpace) &&
        decide (crs.rightExpandSpace ≤ filter.rightExpandSpace) &&
        decide (crs.downExpandSpace ≤ filter.downExpandSpace) &&
        decide (crs.leftExpandSpace ≤ filter.leftExpandSpace))

def creativeAvailableBySizes_ : Bool :=
  (checkTagSizes tag tagSizes).sizes.entries.any
    (fun tagSize => creativeAvailableBySize tag filter creative tagSize.2)

/-- One round of the loop of `check_categories_`. -/
def categoryPasses (siteApproveCreative tagExclusion siteExclusion : Bool) (cat : Nat) : Bool :=
  !(tagExclusion && decide (cat ∈ tag.rejectedCategories)) &&
    ((tagExclusion && decide (cat ∈ tag.acceptedCategories)) ||
      !(siteExclusion &&
        (decide (cat ∈ tag.site.rejectedCreativeCategories) ||
          -- really not approved but pending categories
          (!siteApproveCreative && decide (cat ∈ tag.site.approvedCreativeCategories)))))

def checkCategories_ (siteApproveCreative tagExclusion siteExclusion : Bool)
    (creativeCategories : Finset Nat) : Bool :=
  decide (∀ cat ∈ creativeCategories,
    categoryPasses tag siteApproveCreative tagExclusion siteExclusion cat = true)

def creativeAvailableByCategories_ (checkClickUrlCategories : Bool) : Bool :=
  let site := tag.site
  let siteApproveCreative := decide (creative.creativeId ∈ site.approvedCreatives)
  if creative.creativeId ∈ site.rejectedCreatives then false
  else if !site.tagExclusion && !site.siteExclusion then true
  else if !creative.definedContentCategory && site.siteExclusion then false
  else
    checkCategories_ tag siteApproveCreative site.tagExclusion site.siteExclusion
        creative.categories &&
      (!checkClickUrlCategories ||
        checkCategories_ tag siteApproveCreative site.tagExclusion site.siteExclusion
          creative.clickCategories)

/-- The template of a creative in one of its sizes can be read and is active. -/
def templateAvailable (protocolName appFormat : String) : Bool :=
  match templates.get ⟨creative.creativeFormat, protocolName, appFormat⟩ with
  | .ok (some template) => template.status == 'A'
  | .ok none => false
  | .error _ => false

def creativeAvailableByTemplates_ (appFormat : String) : Bool :=
  creative.sizes.entries.any (fun crs =>
    (tag.sizes.sizes.find? crs.1).isSome &&
      templateAvailable templates creative crs.2.size.protocolName appFormat)

def creativeAvailableByExcludeCategories_ (excludeCategories : Finset Nat) : Bool :=
  decide (∀ cat ∈ creative.categories, cat ∉ excludeCategories)

def creativeAvailableByRequiredCategories_ (requiredCategories : Finset Nat) : Bool :=
  decide (requiredCategories = ∅) || decide (∃ cat ∈ creative.categories, cat ∈ requiredCategories)

def videoDurationAvailable : Bool :=
  decide (filter.videoMinDuration ≤ creative.videoDuration) &&
    (if creative.videoSkipOffset.isSome then
      filter.videoSkippableMaxDuration.all (fun max => decide (creative.videoDuration ≤ max))
    else filter.videoMaxDuration.all (fun max => decide (creative.videoDuration ≤ max)))

/-- The lambda `indexed_creative_available` of `filter_creatives`. -/
def indexedCreativeAvailable : Bool :=
  (creative.fcId == 0 || key.userStatus == .optin) &&
    (!filter.secure || creative.httpsSafeFlag) &&
    (!filter.filterEmptyDestination || !creative.destinationUrl.isEmpty) &&
    creativeAvailableBySizes_ tag tagSizes filter creative &&
    creativeAvailableByCategories_ tag creative filter.checkClickCategories &&
    creativeAvailableByTemplates_ templates tag creative key.format &&
    videoDurationAvailable filter creative &&
    (decide (filter.allowedDurations = ∅) ||
      decide (creative.videoDuration ∈ filter.allowedDurations)) &&
    ((filter.videoAllowSkippable && creative.videoSkipOffset.isSome) ||
      (filter.videoAllowUnskippable && creative.videoSkipOffset.isNone)) &&
    (creative.fcId == 0 ||
      (filter.profilingAvailable && decide (creative.fcId ∉ filter.fullFreqCaps))) &&
    creativeAvailableByExcludeCategories_ creative filter.excludeCategories &&
    creativeAvailableByRequiredCategories_ creative filter.requiredCategories

/-- The lambda `creative_available` of `filter_creatives`. -/
def creativeAvailable : Bool :=
  creative.status == 'A' && indexedCreativeAvailable templates key tag tagSizes filter creative

variable {templates key tag tagSizes filter creative}

section
variable (h : indexedCreativeAvailable templates key tag tagSizes filter creative = true)
include h

theorem sizes_of_available : creativeAvailableBySizes_ tag tagSizes filter creative = true := by
  simp only [indexedCreativeAvailable, Bool.and_eq_true] at h
  exact h.1.1.1.1.1.1.1.1.2

theorem templates_of_available :
    creativeAvailableByTemplates_ templates tag creative key.format = true := by
  simp only [indexedCreativeAvailable, Bool.and_eq_true] at h
  exact h.1.1.1.1.1.1.2

end

theorem exists_size_of_available (h : creativeAvailableBySizes_ tag tagSizes filter creative = true) :
    ∃ id tagSize, (checkTagSizes tag tagSizes).sizes.find? id = some tagSize ∧
      id ∈ creative.sizes.keys := by
  obtain ⟨⟨id, tagSize⟩, mem, fits⟩ := List.any_eq_true.1 h
  have found := SortedMap.find?_eq_some.2 mem
  refine ⟨id, tagSize, found, ?_⟩
  have own := (checkTagSizes tag tagSizes).keyed id tagSize found
  unfold creativeAvailableBySize at fits
  rw [own] at fits
  cases here : creative.sizes.find? id with
  | none => simp [here] at fits
  | some crs => exact SortedMap.mem_keys.2 (by simp [here])

/-- A creative that fits by template has an active template in some size. -/
theorem exists_template_of_available {appFormat : String}
    (h : creativeAvailableByTemplates_ templates tag creative appFormat = true) :
    ∃ crs ∈ creative.sizes.entries, ∃ template,
      templates.getValue ⟨creative.creativeFormat, crs.2.size.protocolName, appFormat⟩
        = some template ∧ template.status = 'A' := by
  obtain ⟨crs, mem, fits⟩ := List.any_eq_true.1 h
  obtain ⟨-, active⟩ := Bool.and_eq_true_iff.1 fits
  refine ⟨crs, mem, ?_⟩
  unfold templateAvailable at active
  split at active
  · next template here =>
    exact ⟨template, CreativeTemplateMap.getValue_of_get here, by simpa using active⟩
  · simp at active
  · simp at active

end Availability

end AdServer.CampaignManager
