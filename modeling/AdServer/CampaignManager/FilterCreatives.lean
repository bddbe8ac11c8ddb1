import AdServer.CampaignManager.Creatives
import Mathlib.Data.List.ProdSigma

/-!
# Choosing the creatives of a campaign for a tag

`CampaignIndex::filter_creatives` reads the index by size and app format when
nothing is traced, and scans all creatives when there is a trace.
-/

namespace AdServer.CampaignManager

open AdServer.Lib

variable {creative : Creative}

structure SeqOrder where
  setId : Nat
  imps : Nat
  deriving DecidableEq

def hasActiveTemplate (templates : CreativeTemplateMap) (creative : Creative)
    (protocolName appFormat : String) : Bool :=
  match templates.getValue ⟨creative.creativeFormat, protocolName, appFormat⟩ with
  | some template => template.status == 'A'
  | none => false

/-- `creative_appformats`: the app formats with an active template for the
creative in any of its sizes. -/
def creativeAppformats (templates : CreativeTemplateMap) (creative : Creative) : List String :=
  templates.allTemplateAppformats.filter (fun appFormat =>
    creative.sizes.entries.any (fun crs =>
      hasActiveTemplate templates creative crs.2.size.protocolName appFormat))

/-- The keys a creative is pushed under. -/
def creativeKeys (templates : CreativeTemplateMap) (creative : Creative) :
    List CreativeBySizeKey :=
  (List.product creative.sizes.keys (creativeAppformats templates creative)).map
    (fun key => ⟨key.1, key.2⟩)

namespace Campaign

/-- `Campaign::add_creative`. -/
def addCreative (campaign : Campaign) (creative : Creative) : Campaign :=
  { campaign with
    creatives := campaign.creatives ++ [creative]
    optOrderSets :=
      if creative.status == 'A' || creative.status == 'W' then
        campaign.optOrderSets.put creative.orderSetId ()
      else campaign.optOrderSets }

/-- `Campaign::rebuild_creative_by_size_index`. -/
def rebuildCreativeBySizeIndex (campaign : Campaign) (templates : CreativeTemplateMap) :
    Campaign :=
  { campaign with
    optCreativesBySize :=
      Postings.build (creativeKeys templates)
        (campaign.creatives.filter (fun creative => creative.status == 'A')) }

def withoutCreatives (campaign : Campaign) : Campaign :=
  { campaign with creatives := [], optOrderSets := SortedMap.empty }

/-- A campaign as the configuration source leaves it. -/
def configured (campaign : Campaign) (templates : CreativeTemplateMap)
    (creatives : List Creative) : Campaign :=
  (creatives.foldl addCreative campaign.withoutCreatives).rebuildCreativeBySizeIndex templates

/-- The order set shown next to a user: the one of the user's entry, or the one
after it once it has been shown enough, or the first one when there is none. -/
def searchOrderSetId (campaign : Campaign) (seqOrders : SortedMap Nat SeqOrder)
    (first : Nat) : Nat :=
  match seqOrders.find? campaign.campaignId with
  | none => first
  | some seq =>
    (campaign.optOrderSets.lowerBound
      (if campaign.seqSetRotateImps ≤ seq.imps then (seq.setId + 1) % 2 ^ 64
        else seq.setId)).getD first

def selectedOrderSet (campaign : Campaign) (seqOrders : SortedMap Nat SeqOrder) :
    Option Nat :=
  campaign.optOrderSets.first?.map (campaign.searchOrderSetId seqOrders)

/-- The end of the traced scan. -/
def restrictToOrderSet (campaign : Campaign) (seqOrders : SortedMap Nat SeqOrder)
    (creatives : List Creative) : List Creative :=
  if campaign.seqSetRotateImps ≠ 0 ∧ creatives ≠ [] then
    match campaign.optOrderSets.first? with
    | none => []
    | some first => creatives.filter (fun creative =>
        creative.orderSetId == campaign.searchOrderSetId seqOrders first)
  else creatives

end Campaign

section Filter

variable (templates : CreativeTemplateMap) (key : CreativeKey) (tag : Tag)
  (tagSizes : Option TagSizeMap) (campaign : Campaign) (filter : CreativeFilter)
  (seqOrders : SortedMap Nat SeqOrder)

/-- `filter_creatives` without `trace_params`. -/
def filterCreativesIndexed (creatives : List Creative) : List Creative :=
  let available := indexedCreativeAvailable templates key tag tagSizes filter
  match (checkTagSizes tag tagSizes).sizes.keys with
  | [sizeId] =>
    creatives ++ (campaign.optCreativesBySize.list ⟨sizeId, key.format⟩).filter available
  | sizeIds =>
    Postings.collect available
      (sizeIds.map (fun sizeId => campaign.optCreativesBySize.list ⟨sizeId, key.format⟩)) creatives

/-- `filter_creatives` with `trace_params`, the trace itself left out. -/
def filterCreativesTraced (creatives : List Creative) : List Creative :=
  campaign.restrictToOrderSet seqOrders
    (creatives ++ campaign.creatives.filter
      (creativeAvailable templates key tag tagSizes filter))

def filterCreatives (creatives : List Creative) (traced : Bool) : List Creative :=
  if traced then
    filterCreativesTraced templates key tag tagSizes campaign filter seqOrders creatives
  else filterCreativesIndexed templates key tag tagSizes campaign filter creatives

/-- The accepted creatives, of the selected order set only when sets rotate. -/
def selectedCreatives : List Creative :=
  let accepted := campaign.creatives.filter (creativeAvailable templates key tag tagSizes filter)
  if campaign.seqSetRotateImps = 0 then accepted
  else accepted.filter (fun creative =>
    decide (campaign.selectedOrderSet seqOrders = some creative.orderSetId))

/-- The call without a trace gives the creatives of the call with one, each
once, and these are the selected creatives. -/
def FilterAgrees : Prop :=
  let indexed := filterCreatives templates key tag tagSizes campaign filter seqOrders [] false
  let traced := filterCreatives templates key tag tagSizes campaign filter seqOrders [] true
  indexed.Nodup ∧ indexed.Perm traced ∧
    traced = selectedCreatives templates key tag tagSizes campaign filter seqOrders

/-- No accepted creative belongs to another order set than the selected one. -/
def OneOrderSet : Prop :=
  campaign.seqSetRotateImps = 0 ∨
    ∀ creative ∈ campaign.creatives,
      creativeAvailable templates key tag tagSizes filter creative = true →
        ∀ orderSetId ∈ campaign.selectedOrderSet seqOrders, creative.orderSetId = orderSetId

end Filter

theorem creativeKeys_nodup (templates : CreativeTemplateMap) (creative : Creative) :
    (creativeKeys templates creative).Nodup := by
  have formats : (creativeAppformats templates creative).Nodup := templates.distinct.filter _
  apply List.Nodup.map
  · intro a b same
    have parts := CreativeBySizeKey.mk.inj same
    exact Prod.ext parts.1 parts.2
  · exact creative.sizes.keys_nodup.product formats

variable {templates : CreativeTemplateMap} {creative : Creative}

theorem mem_creativeKeys {key : CreativeBySizeKey} :
    key ∈ creativeKeys templates creative ↔
      key.sizeId ∈ creative.sizes.keys ∧ key.appFormat ∈ creativeAppformats templates creative := by
  obtain ⟨sizeId, appFormat⟩ := key
  simp [creativeKeys]

/-- A creative that some template makes available is indexed under its format. -/
theorem mem_creativeAppformats {tag : Tag} {appFormat : String}
    (h : creativeAvailableByTemplates_ templates tag creative appFormat = true) :
    appFormat ∈ creativeAppformats templates creative := by
  obtain ⟨crs, mem, template, found, active⟩ := exists_template_of_available h
  apply List.mem_filter.2
  constructor
  · exact templates.covered _ template found
  · apply List.any_eq_true.2
    exact ⟨crs, mem, by simp [hasActiveTemplate, found, active]⟩

namespace Campaign

section Configured

variable (base : Campaign) (templates : CreativeTemplateMap) (creatives : List Creative)

theorem foldl_addCreative_creatives (campaign : Campaign) :
    (creatives.foldl addCreative campaign).creatives = campaign.creatives ++ creatives := by
  induction creatives generalizing campaign with
  | nil => simp
  | cons creative rest ih => simp [ih, addCreative]

theorem foldl_addCreative_seqSetRotateImps (campaign : Campaign) :
    (creatives.foldl addCreative campaign).seqSetRotateImps = campaign.seqSetRotateImps := by
  induction creatives generalizing campaign with
  | nil => rfl
  | cons creative rest ih => exact (ih _).trans rfl

@[simp] theorem configured_creatives :
    (configured base templates creatives).creatives = creatives :=
  foldl_addCreative_creatives creatives base.withoutCreatives

@[simp] theorem configured_seqSetRotateImps :
    (configured base templates creatives).seqSetRotateImps = base.seqSetRotateImps :=
  foldl_addCreative_seqSetRotateImps creatives base.withoutCreatives

theorem configured_list (key : CreativeBySizeKey) :
    (configured base templates creatives).optCreativesBySize.list key =
      (creatives.filter (fun creative => creative.status == 'A')).filter
        (fun creative => decide (key ∈ creativeKeys templates creative)) := by
  have all : (creatives.foldl addCreative base.withoutCreatives).creatives =
      creatives := foldl_addCreative_creatives creatives base.withoutCreatives
  change (Postings.build (creativeKeys templates) (List.filter _
    (creatives.foldl addCreative base.withoutCreatives).creatives)).list key = _
  rw [all]
  exact Postings.list_build (fun creative _ => creativeKeys_nodup templates creative) key

theorem foldl_addCreative_optOrderSets (active : creative.status = 'A') (campaign : Campaign)
    (known : creative ∈ creatives ∨ (campaign.optOrderSets.find? creative.orderSetId).isSome) :
    ((creatives.foldl addCreative campaign).optOrderSets.find? creative.orderSetId).isSome := by
  induction creatives generalizing campaign with
  | nil => simpa using known
  | cons next rest ih =>
    apply ih
    have grows : ∀ id, (campaign.optOrderSets.find? id).isSome →
        ((campaign.addCreative next).optOrderSets.find? id).isSome := by
      intro id here
      simp only [addCreative]
      split
      · rw [SortedMap.find?_put]
        split <;> simp [here]
      · exact here
    cases known with
    | inl mem =>
      cases List.mem_cons.1 mem with
      | inl same =>
        subst same
        right
        simp [addCreative, active, SortedMap.find?_put]
      | inr later => exact .inl later
    | inr here => exact .inr (grows _ here)

theorem configured_first (mem : creative ∈ creatives) (active : creative.status = 'A') :
    ∃ first, (configured base templates creatives).optOrderSets.first? =
      some first := by
  have known := foldl_addCreative_optOrderSets creatives active
    base.withoutCreatives (.inl mem)
  apply Option.ne_none_iff_exists'.1
  intro none
  exact SortedMap.first?_eq_none.1 none _ (SortedMap.mem_keys.2 known)

end Configured

end Campaign

section Agreement

variable {base : Campaign} {templates : CreativeTemplateMap}
  {creatives : List Creative} {key : CreativeKey} {tag : Tag} {tagSizes : Option TagSizeMap}
  {filter : CreativeFilter} {seqOrders : SortedMap Nat SeqOrder}

/-- The creatives that pass every check. -/
abbrev accepted (templates : CreativeTemplateMap) (key : CreativeKey) (tag : Tag)
    (tagSizes : Option TagSizeMap) (filter : CreativeFilter) (creatives : List Creative) :
    List Creative :=
  creatives.filter (creativeAvailable templates key tag tagSizes filter)

theorem mem_list_iff (base : Campaign)
    (available : indexedCreativeAvailable templates key tag tagSizes filter creative = true) :
    (∃ sizeId ∈ (checkTagSizes tag tagSizes).sizes.keys,
      creative ∈ (Campaign.configured base templates
        creatives).optCreativesBySize.list ⟨sizeId, key.format⟩) ↔
      creative ∈ creatives ∧ creative.status = 'A' := by
  constructor
  · rintro ⟨sizeId, -, mem⟩
    rw [Campaign.configured_list] at mem
    have active := List.mem_filter.1 (List.mem_of_mem_filter mem)
    exact ⟨active.1, by simpa using active.2⟩
  · rintro ⟨mem, active⟩
    obtain ⟨sizeId, tagSize, checked, own⟩ :=
      exists_size_of_available (sizes_of_available available)
    have format := mem_creativeAppformats (templates_of_available available)
    refine ⟨sizeId, SortedMap.mem_keys.2 (by simp [checked]), ?_⟩
    rw [Campaign.configured_list]
    have keyed : (⟨sizeId, key.format⟩ : CreativeBySizeKey) ∈ creativeKeys templates creative :=
      mem_creativeKeys.2 ⟨own, format⟩
    simp [mem, active, keyed]

theorem mem_untraced :
    creative ∈ filterCreativesIndexed templates key tag tagSizes
        (.configured base templates creatives) filter [] ↔
      creative ∈ accepted templates key tag tagSizes filter creatives := by
  have scan : creative ∈ accepted templates key tag tagSizes filter creatives ↔
      (creative ∈ creatives ∧ creative.status = 'A') ∧
        indexedCreativeAvailable templates key tag tagSizes filter creative = true := by
    simp [accepted, creativeAvailable, and_assoc]
  rw [scan]
  by_cases available :
      indexedCreativeAvailable templates key tag tagSizes filter creative = true
  · rw [← mem_list_iff base available]
    unfold filterCreativesIndexed
    split
    · next sizeId only => simp [only, available]
    · simp [Postings.mem_collect, available]
  · unfold filterCreativesIndexed
    split
    · simp [available]
    · simp [Postings.mem_collect, available]

theorem untraced_nodup (distinct : creatives.Nodup) :
    (filterCreativesIndexed templates key tag tagSizes
      (.configured base templates creatives) filter []).Nodup := by
  unfold filterCreativesIndexed
  split
  · rw [List.nil_append, Campaign.configured_list]
    exact ((distinct.filter _).filter _).filter _
  · exact Postings.collect_nodup _

theorem untraced_perm (distinct : creatives.Nodup) :
    (filterCreativesIndexed templates key tag tagSizes
      (.configured base templates creatives) filter []).Perm
      (accepted templates key tag tagSizes filter creatives) :=
  (List.perm_ext_iff_of_nodup (untraced_nodup distinct) (distinct.filter _)).2
    (fun _ => mem_untraced)

theorem traced_eq_selected (campaign : Campaign) :
    filterCreativesTraced templates key tag tagSizes campaign filter seqOrders [] =
      selectedCreatives templates key tag tagSizes campaign filter seqOrders := by
  unfold filterCreativesTraced selectedCreatives Campaign.restrictToOrderSet
  rw [List.nil_append]
  by_cases rotates : campaign.seqSetRotateImps = 0
  · simp [rotates]
  · by_cases some : campaign.creatives.filter
      (creativeAvailable templates key tag tagSizes filter) = []
    · simp [some]
    · rw [if_pos ⟨rotates, some⟩]
      simp only [rotates, if_false]
      cases first : campaign.optOrderSets.first? with
      | none => simp [Campaign.selectedOrderSet, first]
      | some first =>
        apply List.filter_congr
        intro creative _
        rw [Bool.eq_iff_iff]
        simp only [Campaign.selectedOrderSet, first, Option.map_some,
          Option.some.injEq, decide_eq_true_eq, beq_iff_eq]
        exact eq_comm

/-- Restricting to the selected order set drops nothing exactly when no accepted
creative belongs to another one. -/
theorem selected_eq_accepted_iff :
    (selectedCreatives templates key tag tagSizes
        (.configured base templates creatives) filter seqOrders).length =
        (accepted templates key tag tagSizes filter creatives).length ↔
      OneOrderSet templates key tag tagSizes
        (.configured base templates creatives) filter seqOrders := by
  unfold selectedCreatives OneOrderSet
  simp only [Campaign.configured_creatives,
    Campaign.configured_seqSetRotateImps]
  by_cases rotates : base.seqSetRotateImps = 0
  · simp [rotates]
  · simp only [rotates, if_false, false_or]
    rw [List.length_filter_eq_length_iff]
    constructor
    · intro all creative mem available orderSetId selected
      have own := all creative (List.mem_filter.2 ⟨mem, available⟩)
      rw [decide_eq_true_eq, selected] at own
      exact (Option.some.inj own).symm
    · intro all creative here
      obtain ⟨mem, available⟩ := List.mem_filter.1 here
      have active : creative.status = 'A' := by
        have both := Bool.and_eq_true_iff.1 available
        simpa using both.1
      obtain ⟨first, known⟩ := Campaign.configured_first base templates creatives mem active
      have selected : (Campaign.configured base templates
          creatives).selectedOrderSet seqOrders = some _ := congrArg (Option.map _) known
      rw [decide_eq_true_eq, selected, all creative mem available _ selected]

/-- The path without a trace agrees with the traced one exactly when no
accepted creative belongs to another order set than the selected one. -/
theorem filterCreatives_agrees_iff (distinct : creatives.Nodup) :
    FilterAgrees templates key tag tagSizes
        (.configured base templates creatives) filter seqOrders ↔
      OneOrderSet templates key tag tagSizes
        (.configured base templates creatives) filter seqOrders := by
  let campaign := Campaign.configured base templates creatives
  let indexed := filterCreatives templates key tag tagSizes campaign filter seqOrders [] false
  let traced := filterCreatives templates key tag tagSizes campaign filter seqOrders [] true
  have once : indexed.Nodup := untraced_nodup distinct
  have all : indexed.Perm (accepted templates key tag tagSizes filter creatives) :=
    untraced_perm distinct
  have restricted : traced =
      selectedCreatives templates key tag tagSizes campaign filter seqOrders :=
    traced_eq_selected campaign
  rw [← selected_eq_accepted_iff]
  constructor
  · rintro ⟨-, same, -⟩
    have lengths := same.length_eq.symm.trans all.length_eq
    exact restricted ▸ lengths
  · intro lengths
    have part : (selectedCreatives templates key tag tagSizes campaign filter seqOrders).Sublist
        (accepted templates key tag tagSizes filter creatives) := by
      unfold selectedCreatives
      simp only [campaign, Campaign.configured_creatives]
      split
      · exact List.Sublist.refl _
      · exact List.filter_sublist
    have whole := part.eq_of_length lengths
    have same : indexed.Perm traced := by
      rw [restricted, whole]
      exact all
    exact ⟨once, same, restricted⟩

end Agreement

section Example

private def banner : CreativeSize := ⟨⟨7, "300x250"⟩, 0, 0, 0, 0, false⟩

private def bannerTemplates : CreativeTemplateMap :=
  (CreativeTemplateMap.empty (fun _ => .ok ())).insert ⟨"banner", "300x250", "html"⟩ ⟨"b.html", 'A'⟩

private def bannerTag : Tag :=
  { (default : Tag) with sizes := TagSizeMap.empty.put ⟨⟨7, "300x250"⟩, 1⟩ }

private def bannerCreative (ccid orderSetId : Nat) : Creative :=
  { (default : Creative) with
    ccid := ccid
    creativeId := ccid
    sizes := SortedMap.empty.put 7 banner
    creativeFormat := "banner"
    orderSetId := orderSetId
    status := 'A' }

private def rotating : Campaign := { (default : Campaign) with campaignId := 1, seqSetRotateImps := 2 }

/-- A user who has seen nothing yet is shown the first order set by the traced
scan and both by the other path. -/
theorem second_order_set_kept :
    ¬ FilterAgrees bannerTemplates ⟨"html", .optin⟩ bannerTag none
      (rotating.configured bannerTemplates [bannerCreative 10 1, bannerCreative 11 2]) .plain
      SortedMap.empty := by
  rintro ⟨-, same, -⟩
  revert same
  decide +kernel

theorem one_order_set_kept :
    FilterAgrees bannerTemplates ⟨"html", .optin⟩ bannerTag none
      (rotating.configured bannerTemplates [bannerCreative 10 1, bannerCreative 11 1]) .plain
      SortedMap.empty :=
  (filterCreatives_agrees_iff (by decide +kernel)).2 (.inr (by decide +kernel))

end Example

end AdServer.CampaignManager
