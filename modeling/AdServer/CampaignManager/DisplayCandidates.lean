import AdServer.CampaignManager.DisplayAuction

/-!
# The candidates of the display auction with click rates calculated

`get_all_display_campaign_candidates_` looks at the creatives of every campaign
size by size. A rate check that does not depend on the creative is made once a
size, and what follows it is taken without a check.
-/

namespace AdServer.CampaignManager

open AdServer.Lib

namespace DisplayAuction

variable {creative : Creative} {s : SizedCreative} {tagSize : TagSize}

section Pairs

variable (R : RevenueArith) (a : DisplayAuction) (calculation : CtrCalculation)

/-- `request_params.tag_sizes`, in their order. -/
def requestSizes : List TagSize := a.tagSizes.sizes.entries.map Prod.snd

def fits (tagSize : TagSize) (creative : Creative) : Bool :=
  creativeAvailableBySize a.tag a.filter creative tagSize

/-- The rate check of a creative by itself. -/
def rateOf (tagSize : TagSize) (creative : Creative) : RateCheck :=
  checkRate calculation tagSize creative false

/-- The bid of a creative in a size. -/
def pairEcpm (cell : CampaignSelectionCell) (tagSize : TagSize) (creative : Creative) : Int :=
  a.ctrEcpm R cell.campaign (calculation.getCtr tagSize creative)

/-- The least bid and the goal are reached. -/
def meets (checkMinEcpm : Bool) (cell : CampaignSelectionCell) (tagSize : TagSize)
    (creative : Creative) : Bool :=
  (!checkMinEcpm ||
    checkMinEcpm_ cell.tagPricing a.minEcpm (a.pairEcpm R calculation cell tagSize creative)) &&
  !cell.campaign.missesCtrGoal (calculation.getCtr tagSize creative)

/-- A creative in a size that may be shown. -/
structure Accepted (checkMinEcpm : Bool) (cell : CampaignSelectionCell) (tagSize : TagSize)
    (creative : Creative) : Prop where
  size : tagSize ∈ a.requestSizes
  available : creative ∈ a.availableCreatives cell.campaign
  fits : a.fits tagSize creative = true
  rate : (rateOf calculation tagSize creative).passed = true
  meets : a.meets R calculation checkMinEcpm cell tagSize creative = true

/-- A check in front of a creative did not depend on the creative. -/
def settled (tagSize : TagSize) (before : List Creative) : Bool :=
  before.any fun other => a.fits tagSize other && !(rateOf calculation tagSize other).creativeDependent

/-- The rate a creative is taken with: behind a check that is settled it passes. -/
def rateBehind (settled : Bool) (tagSize : TagSize) (creative : Creative) : RateCheck :=
  if settled then ⟨true, 0, false⟩ else rateOf calculation tagSize creative

/-- A creative in a size that is taken, with the conversion rate it is taken with. -/
structure LookedAt (checkMinEcpm : Bool) (cell : CampaignSelectionCell) (s : SizedCreative) :
    Prop where
  size : s.tagSize ∈ a.requestSizes
  fits : a.fits s.tagSize s.creative = true
  rate : ∃ before after, a.availableCreatives cell.campaign = before ++ s.creative :: after ∧
    (rateBehind calculation (a.settled calculation s.tagSize before) s.tagSize
      s.creative).passed = true ∧
    s.convRate = (rateBehind calculation (a.settled calculation s.tagSize before) s.tagSize
      s.creative).convRate
  meets : a.meets R calculation checkMinEcpm cell s.tagSize s.creative = true

end Pairs

section Passes

variable {R : RevenueArith} {a : DisplayAuction} {calculation : CtrCalculation}

/-- The creatives of a campaign that are taken in a size. -/
def ratedAt (a : DisplayAuction) (calculation : CtrCalculation) (tagSize : TagSize) :
    Bool → List Creative → List SizedCreative
  | _, [] => []
  | rateChecked, creative :: rest =>
    if a.fits tagSize creative then
      let checked := rateBehind calculation rateChecked tagSize creative
      (if checked.passed then [⟨tagSize, creative, checked.convRate⟩] else []) ++
        ratedAt a calculation tagSize (!checked.creativeDependent) rest
    else ratedAt a calculation tagSize rateChecked rest

theorem checkRate_eq (tagSize : TagSize) (creative : Creative) (rateChecked : Bool) :
    checkRate calculation tagSize creative rateChecked =
      rateBehind calculation rateChecked tagSize creative := by
  cases rateChecked <;> rfl

theorem settled_cons (tagSize : TagSize) (creative : Creative) (before : List Creative)
    (rateChecked : Bool) (fits : a.fits tagSize creative = true) :
    (rateChecked || a.settled calculation tagSize (creative :: before)) =
      (!(rateBehind calculation rateChecked tagSize creative).creativeDependent ||
        a.settled calculation tagSize before) := by
  cases rateChecked <;> simp [settled, rateBehind, fits]

variable {tagSize : TagSize} {rate : TagSize → Creative → Int → CtrHolder → CtrHolder}

theorem settled_skip (before : List Creative) (unfit : ¬a.fits tagSize creative = true) :
    a.settled calculation tagSize (creative :: before) = a.settled calculation tagSize before := by
  simp [settled, unfit]

theorem mem_ratedAt {rateChecked : Bool} {creatives : List Creative} :
    s ∈ ratedAt a calculation tagSize rateChecked creatives ↔
      s.tagSize = tagSize ∧ a.fits s.tagSize s.creative = true ∧
        ∃ before after, creatives = before ++ s.creative :: after ∧
          (rateBehind calculation (rateChecked || a.settled calculation s.tagSize before) s.tagSize
            s.creative).passed = true ∧
          s.convRate = (rateBehind calculation
            (rateChecked || a.settled calculation s.tagSize before) s.tagSize s.creative).convRate := by
  induction creatives generalizing rateChecked with
  | nil => simp [ratedAt]
  | cons creative rest ih =>
    rw [ratedAt]
    constructor
    · intro mem
      by_cases here : a.fits tagSize creative = true
      · rw [if_pos here] at mem
        cases List.mem_append.1 mem with
        | inl first =>
          split at first
          · next passed =>
            cases List.mem_singleton.1 first
            exact ⟨rfl, here, [], rest, rfl, by simpa [settled] using passed,
              by simp [settled]⟩
          · simp at first
        | inr later =>
          obtain ⟨size, fits, before, after, rfl, rate⟩ := ih.1 later
          refine ⟨size, fits, creative :: before, after, rfl, ?_⟩
          rw [settled_cons _ _ _ _ (size ▸ here), size]
          rwa [size] at rate
      · rw [if_neg here] at mem
        obtain ⟨size, fits, before, after, rfl, rate⟩ := ih.1 mem
        refine ⟨size, fits, creative :: before, after, rfl, ?_⟩
        rwa [settled_skip _ (size ▸ here)]
    · rintro ⟨rfl, fits, before, after, split, rate⟩
      cases before with
      | nil =>
        obtain ⟨rfl, rfl⟩ := List.cons.inj split
        obtain ⟨passed, convRate⟩ := rate
        have front : (rateChecked || a.settled calculation s.tagSize []) = rateChecked := by
          simp [settled]
        rw [front] at passed convRate
        rw [if_pos fits]
        dsimp only
        rw [if_pos passed, ← convRate]
        exact List.mem_append_left _ List.mem_cons_self
      | cons first before =>
        obtain ⟨rfl, rfl⟩ := List.cons.inj split
        by_cases here : a.fits s.tagSize creative = true
        · rw [settled_cons _ _ _ _ here] at rate
          rw [if_pos here]
          exact List.mem_append_right _ (ih.2 ⟨rfl, fits, before, after, rfl, rate⟩)
        · rw [settled_skip _ here] at rate
          rw [if_neg here]
          exact ih.2 ⟨rfl, fits, before, after, rfl, rate⟩

/-- A creative taken is rated. -/
def rateAll (rate : TagSize → Creative → Int → CtrHolder → CtrHolder) (holder : CtrHolder)
    (taken : List SizedCreative) : CtrHolder :=
  taken.foldl (fun holder s => rate s.tagSize s.creative s.convRate holder) holder

theorem foldl_visitCreative (rate : TagSize → Creative → Int → CtrHolder → CtrHolder)
    (tagSize : TagSize) (creatives : List Creative) (rateChecked : Bool) (holder : CtrHolder) :
    (creatives.foldl (a.visitCreative calculation rate tagSize) (rateChecked, holder)).2 =
      rateAll rate holder (ratedAt a calculation tagSize rateChecked creatives) := by
  induction creatives generalizing rateChecked holder with
  | nil => rfl
  | cons creative rest ih =>
    rw [List.foldl_cons, ratedAt, visitCreative]
    by_cases here : a.fits tagSize creative = true
    · have available : creativeAvailableBySize a.tag a.filter creative tagSize = true := here
      rw [if_pos here, if_pos available, checkRate_eq]
      dsimp only
      rw [ih, rateAll, rateAll, List.foldl_append]
      split <;> rfl
    · have unavailable : ¬creativeAvailableBySize a.tag a.filter creative tagSize = true := here
      rw [if_neg here, if_neg unavailable, ih]

/-- Rating creatives leaves those to look at alone. -/
def KeepsAvailable (rate : TagSize → Creative → Int → CtrHolder → CtrHolder) : Prop :=
  ∀ tagSize creative convRate holder,
    (rate tagSize creative convRate holder).availableCreatives = holder.availableCreatives ∧
      (rate tagSize creative convRate holder).cell = holder.cell

theorem rateKnown_keeps : KeepsAvailable rateKnown := fun _ _ _ _ => ⟨rfl, rfl⟩

theorem rateUnknown_keeps (checkMinEcpm : Bool) :
    KeepsAvailable (a.rateUnknown R calculation checkMinEcpm) := by
  intro tagSize creative convRate holder
  unfold rateUnknown
  dsimp only
  split
  · split
    · exact ⟨rfl, rfl⟩
    · split <;> exact ⟨rfl, rfl⟩
  · exact ⟨rfl, rfl⟩

theorem KeepsAvailable.rateAll (keeps : KeepsAvailable rate) (taken : List SizedCreative)
    (holder : CtrHolder) :
    (rateAll rate holder taken).availableCreatives = holder.availableCreatives ∧
      (rateAll rate holder taken).cell = holder.cell := by
  induction taken generalizing holder with
  | nil => exact ⟨rfl, rfl⟩
  | cons s rest ih =>
    obtain ⟨available, cell⟩ := ih (rate s.tagSize s.creative s.convRate holder)
    obtain ⟨available', cell'⟩ := keeps s.tagSize s.creative s.convRate holder
    exact ⟨available.trans available', cell.trans cell'⟩

theorem foldl_visitHolder (keeps : KeepsAvailable rate) (sizes : List TagSize)
    (holder : CtrHolder) :
    sizes.foldl (fun holder tagSize => a.visitHolder calculation rate tagSize holder) holder =
      rateAll rate holder (sizes.flatMap fun tagSize =>
        ratedAt a calculation tagSize false holder.availableCreatives) := by
  induction sizes generalizing holder with
  | nil => rfl
  | cons tagSize rest ih =>
    rw [List.foldl_cons, ih, visitHolder, foldl_visitCreative, (keeps.rateAll _ _).1,
      List.flatMap_cons]
    exact List.foldl_append.symm

end Passes

section Holders

variable (R : RevenueArith) (a : DisplayAuction) (calculation : CtrCalculation)
  (checkMinEcpm : Bool)

/-- All creatives of a campaign that are taken, size after size. -/
def takenOf (cell : CampaignSelectionCell) : List SizedCreative :=
  a.requestSizes.flatMap fun tagSize =>
    ratedAt a calculation tagSize false (a.availableCreatives cell.campaign)

/-- Campaigns that get a holder with a click rate to calculate. -/
def isUnknown (cell : CampaignSelectionCell) : Bool :=
  (a.checkCampaign cell.campaign && !(a.availableCreatives cell.campaign).isEmpty) &&
    unknownCtr cell.campaign

/-- Campaigns that get a holder with a known bid. -/
def isKnown (cell : CampaignSelectionCell) : Bool :=
  (a.checkCampaign cell.campaign && !(a.availableCreatives cell.campaign).isEmpty) &&
    (!unknownCtr cell.campaign && (!checkMinEcpm ||
      checkMinEcpm_ cell.tagPricing a.minEcpm (defaultCampaignEcpm_ R a.tag cell.campaign)))

/-- The holder of a campaign once all sizes are fetched. -/
def finalHolder (cell : CampaignSelectionCell) : CtrHolder :=
  if unknownCtr cell.campaign then
    rateAll (a.rateUnknown R calculation checkMinEcpm) (a.emptyHolder cell 0 0)
      (a.takenOf calculation cell)
  else rateAll rateKnown
    (a.emptyHolder cell (defaultCampaignEcpm_ R a.tag cell.campaign) cell.campaign.ctr)
    (a.takenOf calculation cell)

variable {R a calculation checkMinEcpm}

theorem filterCampaigns_filter {cells : List CampaignSelectionCell}
    (ctr : ∀ c ∈ cells, 0 ≤ c.campaign.ctr) (holders : CtrHolders) :
    a.filterCampaigns R checkMinEcpm cells holders =
      .ok ⟨holders.unknown ++ (cells.filter a.isUnknown).map (a.emptyHolder · 0 0),
        holders.known ++ (cells.filter (a.isKnown R checkMinEcpm)).map fun c =>
          a.emptyHolder c (defaultCampaignEcpm_ R a.tag c.campaign) c.campaign.ctr⟩ := by
  induction cells generalizing holders with
  | nil => simp [filterCampaigns]
  | cons cell rest ih =>
    have others : ∀ c ∈ rest, 0 ≤ c.campaign.ctr := fun c mem => ctr c (List.mem_cons_of_mem _ mem)
    have nonneg : check (decide (0 ≤ cell.campaign.ctr)) = .ok () := by
      simp [ctr cell List.mem_cons_self]
    rw [filterCampaigns]
    by_cases shown : (a.checkCampaign cell.campaign &&
        !(a.availableCreatives cell.campaign).isEmpty) = true
    · rw [if_pos shown]
      by_cases unknown : unknownCtr cell.campaign = true
      · have isUnknown : a.isUnknown cell = true := by rw [isUnknown, shown, unknown]; rfl
        have isKnown : ¬a.isKnown R checkMinEcpm cell = true := by simp [isKnown, unknown]
        rw [if_pos unknown, ih others, List.filter_cons_of_pos isUnknown,
          List.filter_cons_of_neg isKnown]
        simp
      · have isUnknown : ¬a.isUnknown cell = true := by simp [isUnknown, unknown]
        rw [if_neg unknown, List.filter_cons_of_neg isUnknown]
        dsimp only
        split
        · next low =>
          have isKnown : ¬a.isKnown R checkMinEcpm cell = true := by
            simp only [Bool.and_eq_true, Bool.not_eq_true'] at low
            simp [isKnown, low]
          rw [ih others, List.filter_cons_of_neg isKnown]
        · next reached =>
          have isKnown : a.isKnown R checkMinEcpm cell = true := by
            rw [isKnown, shown]
            cases least : checkMinEcpm
            · simp [unknown]
            · simpa [unknown, least] using reached
          rw [nonneg, ok_bind, ih others, List.filter_cons_of_pos isKnown]
          simp
    · have isUnknown : ¬a.isUnknown cell = true := by simp [isUnknown, shown]
      have isKnown : ¬a.isKnown R checkMinEcpm cell = true := by simp [isKnown, shown]
      rw [if_neg shown, ih others, List.filter_cons_of_neg isUnknown,
        List.filter_cons_of_neg isKnown]

theorem fetchSizes_eq (sizes : List TagSize) (holders : CtrHolders) :
    a.fetchSizes R calculation checkMinEcpm sizes holders =
      ⟨holders.unknown.map fun holder => sizes.foldl (fun holder tagSize =>
          a.visitHolder calculation (a.rateUnknown R calculation checkMinEcpm) tagSize holder) holder,
        holders.known.map fun holder => sizes.foldl (fun holder tagSize =>
          a.visitHolder calculation rateKnown tagSize holder) holder⟩ := by
  induction sizes generalizing holders with
  | nil => simp [fetchSizes]
  | cons tagSize rest ih =>
    have step : a.fetchSizes R calculation checkMinEcpm (tagSize :: rest) holders =
        a.fetchSizes R calculation checkMinEcpm rest
          ⟨holders.unknown.map
              (a.visitHolder calculation (a.rateUnknown R calculation checkMinEcpm) tagSize),
            holders.known.map (a.visitHolder calculation rateKnown tagSize)⟩ := rfl
    rw [step, ih, List.map_map, List.map_map]
    rfl

theorem selectSizedCreatives_append (draws : DisplayDraws) (first rest : List CtrHolder)
    (result : List DisplayCandidate) :
    selectSizedCreatives draws (first ++ rest) result =
      (selectSizedCreatives draws first result >>= selectSizedCreatives draws rest) := by
  induction first generalizing result with
  | nil => rfl
  | cons holder first ih =>
    rw [List.cons_append, selectSizedCreatives, selectSizedCreatives]
    split
    · exact ih result
    · cases deref (draws.selectSized result.length holder.curCreatives) with
      | error fault => rfl
      | ok cr => exact ih _

/-- What a holder becomes: one of its creatives is drawn. -/
def DrawnFrom (draws : DisplayDraws) (holder : CtrHolder) (c : DisplayCandidate) : Prop :=
  ∃ n, ∃ s ∈ holder.curCreatives,
    draws.selectSized n holder.curCreatives = some s ∧ c = holderCandidate holder s

theorem selectSizedCreatives_drawn (draws : DisplayDraws) (holders : List CtrHolder)
    (result : List DisplayCandidate) :
    ∃ more, selectSizedCreatives draws holders result = .ok (result ++ more) ∧
      List.Forall₂ (DrawnFrom draws)
        (holders.filter fun holder => !holder.curCreatives.isEmpty) more := by
  induction holders generalizing result with
  | nil => exact ⟨[], by simp [selectSizedCreatives], .nil⟩
  | cons holder rest ih =>
    rw [selectSizedCreatives]
    by_cases empty : holder.curCreatives.isEmpty = true
    · rw [if_pos empty, List.filter_cons_of_neg (by simp [empty])]
      exact ih result
    · obtain ⟨cr, collected, drawn⟩ := draws.sized_mem result.length holder.curCreatives
        (by simpa using empty)
      obtain ⟨more, run, all⟩ := ih (result ++ [holderCandidate holder cr])
      refine ⟨holderCandidate holder cr :: more, ?_, ?_⟩
      · rw [if_neg empty, drawn, deref_some, ok_bind, run]
        simp
      · rw [List.filter_cons_of_pos (by simp [empty])]
        exact .cons ⟨_, cr, collected, drawn, rfl⟩ all

/-- The holders of a list of campaigns, those with rates to calculate first. -/
def holdersOf (R : RevenueArith) (a : DisplayAuction) (calculation : CtrCalculation)
    (checkMinEcpm : Bool) (cells : List CampaignSelectionCell) : List CtrHolder :=
  (cells.filter a.isUnknown ++ cells.filter (a.isKnown R checkMinEcpm)).map
    (a.finalHolder R calculation checkMinEcpm)

theorem run_eq (draws : DisplayDraws) {cells : List CampaignSelectionCell}
    (ctr : ∀ c ∈ cells, 0 ≤ c.campaign.ctr) (calculated : a.ctrCalculation = some calculation) :
    ∃ all, a.getAllDisplayCampaignCandidates_ R draws checkMinEcpm cells = .ok all ∧
      List.Forall₂ (DrawnFrom draws)
        ((holdersOf R a calculation checkMinEcpm cells).filter fun holder =>
          !holder.curCreatives.isEmpty) all := by
  obtain ⟨all, run, drawn⟩ := selectSizedCreatives_drawn draws
    (holdersOf R a calculation checkMinEcpm cells) []
  refine ⟨all, ?_, drawn⟩
  have unknowns : (cells.filter a.isUnknown).map (a.finalHolder R calculation checkMinEcpm) =
      ((cells.filter a.isUnknown).map (a.emptyHolder · 0 0)).map fun holder =>
        a.requestSizes.foldl (fun holder tagSize => a.visitHolder calculation
          (a.rateUnknown R calculation checkMinEcpm) tagSize holder) holder := by
    rw [List.map_map]
    refine List.map_congr_left fun cell mem => ?_
    have unknown : unknownCtr cell.campaign = true := by
      exact (Bool.and_eq_true_iff.1 (List.mem_filter.1 mem).2).2
    rw [Function.comp, foldl_visitHolder (rateUnknown_keeps checkMinEcpm), finalHolder,
      if_pos unknown]
    rfl
  have knowns : (cells.filter (a.isKnown R checkMinEcpm)).map
        (a.finalHolder R calculation checkMinEcpm) =
      ((cells.filter (a.isKnown R checkMinEcpm)).map fun c =>
        a.emptyHolder c (defaultCampaignEcpm_ R a.tag c.campaign) c.campaign.ctr).map fun holder =>
        a.requestSizes.foldl (fun holder tagSize => a.visitHolder calculation
          rateKnown tagSize holder) holder := by
    rw [List.map_map]
    refine List.map_congr_left fun cell mem => ?_
    have known : ¬unknownCtr cell.campaign = true := by
      have rest := (Bool.and_eq_true_iff.1 (List.mem_filter.1 mem).2).2
      simpa using (Bool.and_eq_true_iff.1 rest).1
    rw [Function.comp, foldl_visitHolder rateKnown_keeps, finalHolder, if_neg known]
    rfl
  unfold getAllDisplayCampaignCandidates_
  rw [calculated]
  dsimp only
  rw [filterCampaigns_filter ctr, ok_bind, fetchSizes_eq]
  rw [holdersOf, List.map_append, unknowns, knowns, selectSizedCreatives_append] at run
  exact run

end Holders

section Kept

variable {R : RevenueArith} {a : DisplayAuction} {calculation : CtrCalculation}
  {checkMinEcpm : Bool} {cell : CampaignSelectionCell}

theorem finalHolder_cell : (a.finalHolder R calculation checkMinEcpm cell).cell = cell := by
  unfold finalHolder
  split
  · exact ((rateUnknown_keeps checkMinEcpm).rateAll _ _).2
  · exact (rateKnown_keeps.rateAll _ _).2

variable {s : SizedCreative} {holder : CtrHolder}

theorem mem_takenOf :
    s ∈ a.takenOf calculation cell ∧ a.meets R calculation checkMinEcpm cell s.tagSize s.creative ↔
      a.LookedAt R calculation checkMinEcpm cell s := by
  constructor
  · rintro ⟨taken, meets⟩
    obtain ⟨tagSize, size, mem⟩ := List.mem_flatMap.1 taken
    obtain ⟨rfl, fits, rate⟩ := mem_ratedAt.1 mem
    exact ⟨size, fits, rate, meets⟩
  · rintro ⟨size, fits, rate, meets⟩
    exact ⟨List.mem_flatMap.2 ⟨s.tagSize, size, mem_ratedAt.2 ⟨rfl, fits, rate⟩⟩, meets⟩

/-- The bid and the creatives of a holder. -/
def CtrHolder.keys (holder : CtrHolder) : Int × List SizedCreative :=
  (holder.ecpm, holder.curCreatives)

/-- The weight of what is taken. -/
def weightOf (R : RevenueArith) (a : DisplayAuction) (calculation : CtrCalculation)
    (cell : CampaignSelectionCell) (s : SizedCreative) : Int :=
  a.pairEcpm R calculation cell s.tagSize s.creative

theorem rateUnknown_keys (s : SizedCreative) (of : holder.cell = cell) :
    CtrHolder.keys (a.rateUnknown R calculation checkMinEcpm s.tagSize s.creative s.convRate holder) =
      if a.meets R calculation checkMinEcpm cell s.tagSize s.creative then
        keepMax (weightOf R a calculation cell) (CtrHolder.keys holder) s
      else CtrHolder.keys holder := by
  subst of
  unfold rateUnknown
  dsimp only
  split
  · next reached =>
    have meets : a.meets R calculation checkMinEcpm holder.cell s.tagSize s.creative = true :=
      reached
    rw [if_pos meets]
    unfold keepMax
    split
    · next more => exact (if_pos more).symm
    · next less =>
      have least : ¬(CtrHolder.keys holder).1 < weightOf R a calculation holder.cell s := less
      rw [if_neg least]
      split
      · next same => exact (if_pos same).symm
      · next other => exact (if_neg other).symm
  · next missed =>
    have fails : ¬a.meets R calculation checkMinEcpm holder.cell s.tagSize s.creative = true :=
      missed
    rw [if_neg fails]

/-- The click rate of a holder is that of one of its creatives, and nought before a bid. -/
def CtrOfSome (calculation : CtrCalculation) (holder : CtrHolder) : Prop :=
  (holder.ecpm = 0 ∧ holder.ctr = 0) ∨
    (0 < holder.ecpm ∧
      ∃ s ∈ holder.curCreatives, holder.ctr = calculation.getCtr s.tagSize s.creative)

theorem rateUnknown_ctrOfSome (s : SizedCreative) (h : CtrOfSome calculation holder) :
    CtrOfSome calculation
      (a.rateUnknown R calculation checkMinEcpm s.tagSize s.creative s.convRate holder) := by
  have nonneg : 0 ≤ holder.ecpm := by
    obtain ⟨zero, -⟩ | ⟨pos, -⟩ := h
    · exact zero.ge
    · exact pos.le
  unfold rateUnknown
  dsimp only
  split
  · split
    · next more => exact .inr ⟨nonneg.trans_lt more, s, List.mem_singleton_self s, rfl⟩
    · split
      · obtain zero | ⟨pos, kept, mem, ctr⟩ := h
        · exact .inl zero
        · exact .inr ⟨pos, kept, List.mem_append_left _ mem, ctr⟩
      · exact h
  · exact h

theorem rateAll_unknown (taken : List SizedCreative) :
    CtrHolder.keys (rateAll (a.rateUnknown R calculation checkMinEcpm) (a.emptyHolder cell 0 0)
        taken) =
      maximaFrom (weightOf R a calculation cell) 0 (taken.filter fun s =>
        a.meets R calculation checkMinEcpm cell s.tagSize s.creative) ∧
    CtrOfSome calculation (rateAll (a.rateUnknown R calculation checkMinEcpm)
      (a.emptyHolder cell 0 0) taken) := by
  induction taken using List.reverseRecOn with
  | nil => exact ⟨rfl, .inl ⟨rfl, rfl⟩⟩
  | append_singleton taken s ih =>
    have last : rateAll (a.rateUnknown R calculation checkMinEcpm) (a.emptyHolder cell 0 0)
          (taken ++ [s]) =
        a.rateUnknown R calculation checkMinEcpm s.tagSize s.creative s.convRate
          (rateAll (a.rateUnknown R calculation checkMinEcpm) (a.emptyHolder cell 0 0) taken) := by
      simp [rateAll]
    have of : (rateAll (a.rateUnknown R calculation checkMinEcpm) (a.emptyHolder cell 0 0)
        taken).cell = cell := ((rateUnknown_keeps checkMinEcpm).rateAll _ _).2
    rw [last, rateUnknown_keys s of, List.filter_append, ih.1]
    refine ⟨?_, rateUnknown_ctrOfSome s ih.2⟩
    by_cases meets : a.meets R calculation checkMinEcpm cell s.tagSize s.creative = true
    · have here : [s].filter (fun s => a.meets R calculation checkMinEcpm cell s.tagSize
          s.creative) = [s] := by simp [meets]
      rw [if_pos meets, here, maximaFrom_append]
    · have none : [s].filter (fun s => a.meets R calculation checkMinEcpm cell s.tagSize
          s.creative) = [] := by simp [meets]
      rw [if_neg meets, none, List.append_nil]

theorem rateAll_known (holder : CtrHolder) (taken : List SizedCreative) :
    rateAll rateKnown holder taken =
      { holder with curCreatives := holder.curCreatives ++ taken } := by
  induction taken generalizing holder with
  | nil => simp [rateAll]
  | cons s rest ih =>
    change rateAll rateKnown (rateKnown s.tagSize s.creative s.convRate holder) rest = _
    rw [ih]
    simp [rateKnown]

/-- A creative taken that makes the greatest bid. -/
structure Greatest (R : RevenueArith) (a : DisplayAuction) (calculation : CtrCalculation)
    (checkMinEcpm : Bool) (cell : CampaignSelectionCell) (s : SizedCreative) : Prop where
  taken : a.LookedAt R calculation checkMinEcpm cell s
  nonneg : 0 ≤ weightOf R a calculation cell s
  le : ∀ other, a.LookedAt R calculation checkMinEcpm cell other →
    weightOf R a calculation cell other ≤ weightOf R a calculation cell s

theorem keys_unknown (unknown : unknownCtr cell.campaign = true) :
    CtrHolder.keys (a.finalHolder R calculation checkMinEcpm cell) =
      maximaFrom (weightOf R a calculation cell) 0 ((a.takenOf calculation cell).filter fun s =>
        a.meets R calculation checkMinEcpm cell s.tagSize s.creative) := by
  rw [finalHolder, if_pos unknown]
  exact (rateAll_unknown _).1

theorem ctrOfSome_unknown (unknown : unknownCtr cell.campaign = true) :
    CtrOfSome calculation (a.finalHolder R calculation checkMinEcpm cell) := by
  rw [finalHolder, if_pos unknown]
  exact (rateAll_unknown _).2

theorem mem_filter_takenOf :
    s ∈ (a.takenOf calculation cell).filter (fun s =>
        a.meets R calculation checkMinEcpm cell s.tagSize s.creative) ↔
      a.LookedAt R calculation checkMinEcpm cell s :=
  List.mem_filter.trans mem_takenOf

section
variable (unknown : unknownCtr cell.campaign = true)
include unknown

theorem mem_kept_unknown :
    s ∈ (a.finalHolder R calculation checkMinEcpm cell).curCreatives ↔
      Greatest R a calculation checkMinEcpm cell s := by
  change s ∈ (CtrHolder.keys (a.finalHolder R calculation checkMinEcpm cell)).2 ↔ _
  rw [keys_unknown unknown, mem_maximaFrom_iff, mem_filter_takenOf]
  constructor
  · rintro ⟨taken, same⟩
    refine ⟨taken, same ▸ start_le_maximaFrom, fun other mem => ?_⟩
    exact same ▸ weight_le_maximaFrom other (mem_filter_takenOf.2 mem)
  · rintro ⟨taken, nonneg, le⟩
    refine ⟨taken, le_antisymm (weight_le_maximaFrom s (mem_filter_takenOf.2 taken)) ?_⟩
    have some := maximaFrom_ne_nil_iff.2 ⟨s, mem_filter_takenOf.2 taken, nonneg⟩
    obtain ⟨best, kept⟩ := List.exists_mem_of_ne_nil _ some
    obtain ⟨mem, same⟩ := mem_maximaFrom kept
    exact same ▸ le best (mem_filter_takenOf.1 mem)

theorem ecpm_of_kept (kept : s ∈ (a.finalHolder R calculation checkMinEcpm cell).curCreatives) :
    (a.finalHolder R calculation checkMinEcpm cell).ecpm = weightOf R a calculation cell s := by
  change s ∈ (CtrHolder.keys (a.finalHolder R calculation checkMinEcpm cell)).2 at kept
  change (CtrHolder.keys (a.finalHolder R calculation checkMinEcpm cell)).1 = _
  rw [keys_unknown unknown] at kept ⊢
  exact (mem_maximaFrom kept).2.symm

theorem kept_ne_nil_unknown :
    (a.finalHolder R calculation checkMinEcpm cell).curCreatives ≠ [] ↔
      ∃ s, a.LookedAt R calculation checkMinEcpm cell s ∧ 0 ≤ weightOf R a calculation cell s := by
  change (CtrHolder.keys (a.finalHolder R calculation checkMinEcpm cell)).2 ≠ [] ↔ _
  rw [keys_unknown unknown, maximaFrom_ne_nil_iff]
  simp only [mem_filter_takenOf]

end

section
variable (known : ¬unknownCtr cell.campaign = true)
include known

theorem finalHolder_known :
    a.finalHolder R calculation checkMinEcpm cell =
      { a.emptyHolder cell (defaultCampaignEcpm_ R a.tag cell.campaign) cell.campaign.ctr with
        curCreatives := a.takenOf calculation cell } := by
  rw [finalHolder, if_neg known, rateAll_known]
  rfl

/-- The bid of a campaign whose click rate is not calculated is the campaign's. -/
theorem weightOf_known (s : SizedCreative) :
    weightOf R a calculation cell s = defaultCampaignEcpm_ R a.tag cell.campaign := by
  simp only [unknownCtr, Bool.or_eq_true, not_or] at known
  exact if_neg known.1

theorem mem_kept_known (listed : a.isKnown R checkMinEcpm cell = true) :
    s ∈ (a.finalHolder R calculation checkMinEcpm cell).curCreatives ↔
      a.LookedAt R calculation checkMinEcpm cell s := by
  have meets : a.meets R calculation checkMinEcpm cell s.tagSize s.creative = true := by
    have least := (Bool.and_eq_true_iff.1 (Bool.and_eq_true_iff.1 listed).2).2
    have bid : a.pairEcpm R calculation cell s.tagSize s.creative =
        defaultCampaignEcpm_ R a.tag cell.campaign := weightOf_known known s
    rw [DisplayAuction.meets, bid, least]
    simp only [unknownCtr, Bool.or_eq_true, not_or, beq_iff_eq] at known
    simp [Campaign.missesCtrGoal, known.2]
  rw [finalHolder_known known, ← mem_takenOf]
  simp [meets]

end

end Kept

section Best

variable (R : RevenueArith) (a : DisplayAuction) (calculation : CtrCalculation)
  (checkMinEcpm : Bool)

/-- A campaign that may be shown with some accepted creative. -/
def Offered (cell : CampaignSelectionCell) : Prop :=
  a.checkCampaign cell.campaign = true ∧
    ∃ tagSize creative, a.Accepted R calculation checkMinEcpm cell tagSize creative

/-- A candidate with the accepted creative of the greatest bid; where a click rate is
calculated, the figures are those of that creative. -/
structure CarriesBest (c : DisplayCandidate) : Prop where
  accepted : a.Accepted R calculation checkMinEcpm c.cell c.weighted.tagSize c.weighted.creative
  greatest : ∀ tagSize creative, a.Accepted R calculation checkMinEcpm c.cell tagSize creative →
    a.pairEcpm R calculation c.cell tagSize creative ≤ c.weighted.ecpm
  ecpm : c.weighted.ecpm =
    a.pairEcpm R calculation c.cell c.weighted.tagSize c.weighted.creative
  ctr : unknownCtr c.cell.campaign = true →
    c.weighted.ctr = calculation.getCtr c.weighted.tagSize c.weighted.creative
  convRate : unknownCtr c.cell.campaign = true →
    c.weighted.convRate = (rateOf calculation c.weighted.tagSize c.weighted.creative).convRate

/-- What the list of candidates should be, whatever is drawn. -/
def ReturnsBest (cells : List CampaignSelectionCell) : Prop :=
  ∀ draws, ∃ all, a.getAllDisplayCampaignCandidates_ R draws checkMinEcpm cells = .ok all ∧
    (all.map (·.cell)).Subperm cells ∧
    (∀ cell ∈ cells, (∃ c ∈ all, c.cell = cell) ↔ a.Offered R calculation checkMinEcpm cell) ∧
    ∀ c ∈ all, a.CarriesBest R calculation checkMinEcpm c

/-- The creatives of the greatest bid are accepted by their own rate check and taken with
their own conversion rate, and they have one click rate, which is nought when the bid is. -/
structure GreatestAreReal (cell : CampaignSelectionCell) : Prop where
  counted : (∃ tagSize creative, a.Accepted R calculation checkMinEcpm cell tagSize creative) →
    ∃ s, a.LookedAt R calculation checkMinEcpm cell s ∧ 0 ≤ weightOf R a calculation cell s
  real : ∀ s, Greatest R a calculation checkMinEcpm cell s →
    (rateOf calculation s.tagSize s.creative).passed = true ∧
      s.convRate = (rateOf calculation s.tagSize s.creative).convRate
  ctr : ∀ s t, Greatest R a calculation checkMinEcpm cell s →
    Greatest R a calculation checkMinEcpm cell t →
      calculation.getCtr s.tagSize s.creative = calculation.getCtr t.tagSize t.creative ∧
        (weightOf R a calculation cell s = 0 → calculation.getCtr s.tagSize s.creative = 0)

/-- The creatives taken are those accepted by their own rate check; of a campaign whose
click rate is calculated those of the greatest bid, with one click rate. -/
def TakenAreReal (cell : CampaignSelectionCell) : Prop :=
  if unknownCtr cell.campaign then a.GreatestAreReal R calculation checkMinEcpm cell
  else ∀ s, a.LookedAt R calculation checkMinEcpm cell s →
    (rateOf calculation s.tagSize s.creative).passed = true

variable {R a calculation checkMinEcpm}

variable {cell : CampaignSelectionCell}

theorem Accepted.lookedAt (h : a.Accepted R calculation checkMinEcpm cell tagSize creative) :
    ∃ convRate, a.LookedAt R calculation checkMinEcpm cell ⟨tagSize, creative, convRate⟩ := by
  obtain ⟨before, after, split⟩ := List.append_of_mem h.available
  have passed : (rateBehind calculation (a.settled calculation tagSize before) tagSize
      creative).passed = true := by
    unfold rateBehind
    split
    · rfl
    · exact h.rate
  exact ⟨(rateBehind calculation (a.settled calculation tagSize before) tagSize creative).convRate,
    h.size, h.fits, ⟨before, after, split, passed, rfl⟩, h.meets⟩

theorem LookedAt.accepted (h : a.LookedAt R calculation checkMinEcpm cell s)
    (rate : (rateOf calculation s.tagSize s.creative).passed = true) :
    a.Accepted R calculation checkMinEcpm cell s.tagSize s.creative := by
  obtain ⟨before, after, split, -⟩ := h.rate
  exact ⟨h.size, split ▸ by simp, h.fits, rate, h.meets⟩

/-- A campaign with a holder is a candidate when it should, with what it should. -/
def CellBest (R : RevenueArith) (a : DisplayAuction) (calculation : CtrCalculation)
    (checkMinEcpm : Bool) (cell : CampaignSelectionCell) : Prop :=
  ((a.finalHolder R calculation checkMinEcpm cell).curCreatives ≠ [] ↔
    a.Offered R calculation checkMinEcpm cell) ∧
  ∀ s ∈ (a.finalHolder R calculation checkMinEcpm cell).curCreatives,
    a.CarriesBest R calculation checkMinEcpm
      (holderCandidate (a.finalHolder R calculation checkMinEcpm cell) s)

theorem cellBest_unknown (listed : a.isUnknown cell = true) :
    CellBest R a calculation checkMinEcpm cell ↔
      a.GreatestAreReal R calculation checkMinEcpm cell := by
  obtain ⟨shown, unknown⟩ := Bool.and_eq_true_iff.1 listed
  have passes := (Bool.and_eq_true_iff.1 shown).1
  have holder_cell := @finalHolder_cell R a calculation checkMinEcpm cell
  constructor
  · rintro ⟨present, best⟩
    have carries : ∀ s, Greatest R a calculation checkMinEcpm cell s →
        a.CarriesBest R calculation checkMinEcpm
          (holderCandidate (a.finalHolder R calculation checkMinEcpm cell) s) :=
      fun s greatest => best s ((mem_kept_unknown unknown).2 greatest)
    have of_cell : ∀ s, unknownCtr (holderCandidate
        (a.finalHolder R calculation checkMinEcpm cell) s).cell.campaign = true :=
      fun s => by rw [holderCandidate, holder_cell, unknown]
    refine ⟨fun some => ?_, fun s greatest => ?_, fun s t greatest greatest' => ?_⟩
    · exact (kept_ne_nil_unknown unknown).1 (present.2 ⟨passes, some⟩)
    · exact ⟨(carries s greatest).accepted.rate, (carries s greatest).convRate (of_cell s)⟩
    · have ctr := (carries s greatest).ctr (of_cell s)
      refine ⟨ctr.symm.trans ((carries t greatest').ctr (of_cell t)), fun zero => ?_⟩
      have bid := ecpm_of_kept unknown ((mem_kept_unknown unknown).2 greatest)
      obtain ⟨-, nought⟩ | ⟨pos, -⟩ := @ctrOfSome_unknown R a calculation checkMinEcpm
        _ unknown
      · exact ctr.symm.trans nought
      · exact absurd (bid.trans zero) pos.ne'
  · rintro ⟨counted, real, ctr⟩
    refine ⟨⟨fun some => ?_, fun offered => ?_⟩, fun s kept => ?_⟩
    · obtain ⟨s, kept⟩ := List.exists_mem_of_ne_nil _ some
      have greatest := (mem_kept_unknown unknown).1 kept
      exact ⟨passes, s.tagSize, s.creative, greatest.taken.accepted (real s greatest).1⟩
    · exact (kept_ne_nil_unknown unknown).2 (counted offered.2)
    · have greatest := (mem_kept_unknown unknown).1 kept
      have bid := ecpm_of_kept unknown kept
      constructor
      · rw [holderCandidate, holder_cell]
        exact greatest.taken.accepted (real s greatest).1
      · intro tagSize creative accepted
        rw [holderCandidate, holder_cell] at accepted ⊢
        obtain ⟨convRate, taken⟩ := accepted.lookedAt
        exact bid ▸ greatest.le _ taken
      · rw [holderCandidate, holder_cell]
        exact bid
      · intro _
        obtain ⟨zero, nought⟩ | ⟨-, t, kept', rate⟩ := @ctrOfSome_unknown R a calculation checkMinEcpm
          _ unknown
        · exact nought.trans ((ctr s s greatest greatest).2 (bid.symm.trans zero)).symm
        · exact rate.trans (ctr t s ((mem_kept_unknown unknown).1 kept') greatest).1
      · intro _
        exact (real s greatest).2

theorem cellBest_known (listed : a.isKnown R checkMinEcpm cell = true) :
    CellBest R a calculation checkMinEcpm cell ↔
      ∀ s, a.LookedAt R calculation checkMinEcpm cell s →
        (rateOf calculation s.tagSize s.creative).passed = true := by
  obtain ⟨shown, rest⟩ := Bool.and_eq_true_iff.1 listed
  have passes := (Bool.and_eq_true_iff.1 shown).1
  have known : ¬unknownCtr cell.campaign = true := by
    simpa using (Bool.and_eq_true_iff.1 rest).1
  have holder_cell := @finalHolder_cell R a calculation checkMinEcpm cell
  have bid : (a.finalHolder R calculation checkMinEcpm cell).ecpm =
      defaultCampaignEcpm_ R a.tag cell.campaign := by
    rw [finalHolder_known known]
    rfl
  constructor
  · rintro ⟨-, best⟩ s taken
    exact (best s ((mem_kept_known known listed).2 taken)).accepted.rate
  · intro real
    refine ⟨⟨fun some => ?_, fun offered => ?_⟩, fun s kept => ?_⟩
    · obtain ⟨s, kept⟩ := List.exists_mem_of_ne_nil _ some
      have taken := (mem_kept_known known listed).1 kept
      exact ⟨passes, s.tagSize, s.creative, taken.accepted (real s taken)⟩
    · obtain ⟨-, tagSize, creative, accepted⟩ := offered
      obtain ⟨convRate, taken⟩ := accepted.lookedAt
      exact List.ne_nil_of_mem ((mem_kept_known known listed).2 taken)
    · have taken := (mem_kept_known known listed).1 kept
      constructor
      · rw [holderCandidate, holder_cell]
        exact taken.accepted (real s taken)
      · intro tagSize creative _
        rw [holderCandidate, holder_cell]
        exact (weightOf_known known ⟨tagSize, creative, 0⟩).trans_le bid.ge
      · rw [holderCandidate, holder_cell]
        exact bid.trans (weightOf_known known s).symm
      · rw [holderCandidate, holder_cell]
        exact fun unknown => absurd unknown known
      · rw [holderCandidate, holder_cell]
        exact fun unknown => absurd unknown known

end Best

section Candidates

variable {R : RevenueArith} {a : DisplayAuction} {calculation : CtrCalculation}
  {checkMinEcpm : Bool}

theorem exists_of_forall₂ {α β : Type} {r : α → β → Prop} {xs : List α} {ys : List β}
    (h : List.Forall₂ r xs ys) {x : α} (mem : x ∈ xs) : ∃ y ∈ ys, r x y := by
  induction h with
  | nil => simp at mem
  | cons first _ ih =>
    cases List.mem_cons.1 mem with
    | inl same => exact ⟨_, List.mem_cons_self, same ▸ first⟩
    | inr later =>
      obtain ⟨y, here, related⟩ := ih later
      exact ⟨y, List.mem_cons_of_mem _ here, related⟩

variable {cells : List CampaignSelectionCell} {cell : CampaignSelectionCell}

theorem mem_holdersOf {holder : CtrHolder} :
    holder ∈ holdersOf R a calculation checkMinEcpm cells ↔
      ∃ cell ∈ cells, (a.isUnknown cell = true ∨ a.isKnown R checkMinEcpm cell = true) ∧
        a.finalHolder R calculation checkMinEcpm cell = holder := by
  simp only [holdersOf, List.mem_map, List.mem_append, List.mem_filter, ← and_or_left, and_assoc]

theorem cells_subperm (cells : List CampaignSelectionCell) :
    (cells.filter a.isUnknown ++ cells.filter (a.isKnown R checkMinEcpm)).Subperm cells := by
  have known_sub : (cells.filter (a.isKnown R checkMinEcpm)).Sublist
      (cells.filter fun cell => !a.isUnknown cell) := by
    refine List.monotone_filter_right cells fun cell known => ?_
    obtain ⟨shown, rest⟩ := Bool.and_eq_true_iff.1 known
    simp [isUnknown, (Bool.and_eq_true_iff.1 rest).1]
  exact ((List.Sublist.refl _).append known_sub).subperm.trans
    (List.filter_append_perm a.isUnknown cells).subperm

theorem forall₂_drawn_cells {draws : DisplayDraws} {holders : List CtrHolder}
    {all : List DisplayCandidate} (h : List.Forall₂ (DrawnFrom draws) holders all) :
    all.map (·.cell) = holders.map (·.cell) := by
  induction h with
  | nil => rfl
  | cons first _ ih =>
    obtain ⟨n, s, -, -, rfl⟩ := first
    rw [List.map_cons, List.map_cons, ih]
    rfl

/-- Draws that take one creative wherever it is. -/
def preferringSized (s : SizedCreative) : DisplayDraws :=
  { DisplayDraws.preferring s.creative 0 with
    selectSized := fun _ holders => (holders.find? fun t =>
      decide (t.tagSize = s.tagSize ∧ t.creative = s.creative ∧ t.convRate = s.convRate)).or
        holders.head?
    sized_mem := by
      intro _ holders some
      cases found : holders.find? fun t =>
          decide (t.tagSize = s.tagSize ∧ t.creative = s.creative ∧ t.convRate = s.convRate) with
      | none => exact ⟨holders.head some, List.head_mem some, List.head?_eq_some_head some⟩
      | some t => exact ⟨t, List.mem_of_find?_eq_some found, rfl⟩ }

theorem preferringSized_select {holders : List SizedCreative} (mem : s ∈ holders) (n : Nat) :
    (preferringSized s).selectSized n holders = some s := by
  change (holders.find? _).or _ = _
  cases found : holders.find? fun t =>
      decide (t.tagSize = s.tagSize ∧ t.creative = s.creative ∧ t.convRate = s.convRate) with
  | none => exact absurd (List.find?_eq_none.1 found s mem) (by simp)
  | some t =>
    have same := List.find?_some found
    simp only [decide_eq_true_eq] at same
    obtain ⟨size, creative, convRate⟩ := same
    cases t
    cases s
    simp_all

/-- A campaign with a creative that reaches what it has to has a holder. -/
theorem listed_of_meets (passes : a.checkCampaign cell.campaign = true)
    (available : creative ∈ a.availableCreatives cell.campaign)
    (meets : a.meets R calculation checkMinEcpm cell tagSize creative = true) :
    a.isUnknown cell = true ∨ a.isKnown R checkMinEcpm cell = true := by
  have shown : (a.checkCampaign cell.campaign &&
      !(a.availableCreatives cell.campaign).isEmpty) = true := by
    simp [passes, List.ne_nil_of_mem available]
  by_cases unknown : unknownCtr cell.campaign = true
  · exact .inl (by rw [isUnknown, shown, unknown]; rfl)
  · refine .inr ?_
    have least := (Bool.and_eq_true_iff.1 meets).1
    have bid : a.pairEcpm R calculation cell tagSize creative =
        defaultCampaignEcpm_ R a.tag cell.campaign :=
      weightOf_known unknown ⟨tagSize, creative, 0⟩
    rw [bid] at least
    rw [isKnown, shown, least]
    simp [unknown]

theorem listed_of_offered (offered : a.Offered R calculation checkMinEcpm cell) :
    a.isUnknown cell = true ∨ a.isKnown R checkMinEcpm cell = true := by
  obtain ⟨passes, tagSize, creative, accepted⟩ := offered
  exact listed_of_meets passes accepted.available accepted.meets

section Run

variable {draws : DisplayDraws} {cells : List CampaignSelectionCell} {all : List DisplayCandidate}

theorem of_mem_all
    (drawn : List.Forall₂ (DrawnFrom draws) ((holdersOf R a calculation checkMinEcpm cells).filter
      fun holder => !holder.curCreatives.isEmpty) all)
    {c : DisplayCandidate} (mem : c ∈ all) :
    c.cell ∈ cells ∧ (a.isUnknown c.cell = true ∨ a.isKnown R checkMinEcpm c.cell = true) ∧
      ∃ s ∈ (a.finalHolder R calculation checkMinEcpm c.cell).curCreatives,
        c = holderCandidate (a.finalHolder R calculation checkMinEcpm c.cell) s := by
  obtain ⟨holder, here, n, s, kept, -, rfl⟩ := exists_of_forall₂ drawn.flip mem
  obtain ⟨cell, inside, listed, rfl⟩ := mem_holdersOf.1 (List.mem_of_mem_filter here)
  change (a.finalHolder R calculation checkMinEcpm cell).cell ∈ cells ∧ _
  have same : (holderCandidate (a.finalHolder R calculation checkMinEcpm cell) s).cell = cell :=
    finalHolder_cell
  rw [same, finalHolder_cell]
  exact ⟨inside, listed, s, kept, rfl⟩

variable {cell : CampaignSelectionCell}

theorem exists_drawn
    (drawn : List.Forall₂ (DrawnFrom draws) ((holdersOf R a calculation checkMinEcpm cells).filter
      fun holder => !holder.curCreatives.isEmpty) all)
    (mem : cell ∈ cells) (listed : a.isUnknown cell = true ∨ a.isKnown R checkMinEcpm cell = true)
    (some : (a.finalHolder R calculation checkMinEcpm cell).curCreatives ≠ []) :
    ∃ c ∈ all, DrawnFrom draws (a.finalHolder R calculation checkMinEcpm cell) c := by
  apply exists_of_forall₂ drawn
  exact List.mem_filter.2 ⟨mem_holdersOf.2 ⟨cell, mem, listed, rfl⟩, by simpa using some⟩

theorem exists_cell_iff
    (drawn : List.Forall₂ (DrawnFrom draws) ((holdersOf R a calculation checkMinEcpm cells).filter
      fun holder => !holder.curCreatives.isEmpty) all)
    (mem : cell ∈ cells) (listed : a.isUnknown cell = true ∨ a.isKnown R checkMinEcpm cell = true) :
    (∃ c ∈ all, c.cell = cell) ↔
      (a.finalHolder R calculation checkMinEcpm cell).curCreatives ≠ [] := by
  constructor
  · rintro ⟨c, here, rfl⟩
    obtain ⟨-, -, s, kept, -⟩ := of_mem_all drawn here
    exact List.ne_nil_of_mem kept
  · intro some
    obtain ⟨c, here, n, s, -, -, rfl⟩ := exists_drawn drawn mem listed some
    exact ⟨_, here, finalHolder_cell⟩

theorem cells_of_run
    (drawn : List.Forall₂ (DrawnFrom draws) ((holdersOf R a calculation checkMinEcpm cells).filter
      fun holder => !holder.curCreatives.isEmpty) all) :
    (all.map (·.cell)).Subperm cells := by
  have holders_cells : (holdersOf R a calculation checkMinEcpm cells).map (·.cell) =
      cells.filter a.isUnknown ++ cells.filter (a.isKnown R checkMinEcpm) := by
    rw [holdersOf, List.map_map]
    exact (List.map_congr_left fun cell _ => finalHolder_cell).trans (List.map_id _)
  rw [forall₂_drawn_cells drawn]
  refine List.Subperm.trans ?_ (@cells_subperm R a checkMinEcpm cells)
  rw [← holders_cells]
  exact (List.filter_sublist.map _).subperm

end Run

theorem returnsBest_iff (ctr : ∀ c ∈ cells, 0 ≤ c.campaign.ctr)
    (calculated : a.ctrCalculation = some calculation) :
    a.ReturnsBest R calculation checkMinEcpm cells ↔
      ∀ cell ∈ cells, a.isUnknown cell = true ∨ a.isKnown R checkMinEcpm cell = true →
        CellBest R a calculation checkMinEcpm cell := by
  constructor
  · intro returns cell mem listed
    constructor
    · obtain ⟨all, run, -, exactly, -⟩ := returns (.preferring default 0)
      obtain ⟨all', run', drawn⟩ := @run_eq R a calculation checkMinEcpm
        (.preferring default 0) cells ctr calculated
      cases Except.ok.inj (run.symm.trans run')
      exact (exists_cell_iff drawn mem listed).symm.trans (exactly cell mem)
    · intro s kept
      obtain ⟨all, run, -, -, best⟩ := returns (preferringSized s)
      obtain ⟨all', run', drawn⟩ := @run_eq R a calculation checkMinEcpm
        (preferringSized s) cells ctr calculated
      cases Except.ok.inj (run.symm.trans run')
      obtain ⟨c, here, n, t, -, chosen, rfl⟩ := exists_drawn drawn mem listed
        (List.ne_nil_of_mem kept)
      cases Option.some.inj ((preferringSized_select kept n).symm.trans chosen)
      exact best _ here
  · intro best draws
    obtain ⟨all, run, drawn⟩ := @run_eq R a calculation checkMinEcpm draws cells ctr calculated
    refine ⟨all, run, cells_of_run drawn, fun cell mem => ?_, fun c mem => ?_⟩
    · by_cases listed : a.isUnknown cell = true ∨ a.isKnown R checkMinEcpm cell = true
      · exact (exists_cell_iff drawn mem listed).trans (best cell mem listed).1
      · refine iff_of_false ?_ fun offered => listed (listed_of_offered offered)
        rintro ⟨c, here, rfl⟩
        exact listed (of_mem_all drawn here).2.1
    · obtain ⟨inside, listed, s, kept, made⟩ := of_mem_all drawn mem
      rw [made]
      exact (best c.cell inside listed).2 s kept

theorem takenAreReal_iff :
    (a.checkCampaign cell.campaign = true → a.TakenAreReal R calculation checkMinEcpm cell) ↔
      (a.isUnknown cell = true ∨ a.isKnown R checkMinEcpm cell = true →
        CellBest R a calculation checkMinEcpm cell) := by
  by_cases listed : a.isUnknown cell = true ∨ a.isKnown R checkMinEcpm cell = true
  · have best_iff : CellBest R a calculation checkMinEcpm cell ↔
        a.TakenAreReal R calculation checkMinEcpm cell := by
      cases listed with
      | inl unknown =>
        rw [TakenAreReal, if_pos (Bool.and_eq_true_iff.1 unknown).2]
        exact cellBest_unknown unknown
      | inr known =>
        have rest := (Bool.and_eq_true_iff.1 (Bool.and_eq_true_iff.1 known).2).1
        rw [TakenAreReal, if_neg (by simpa using rest)]
        exact cellBest_known known
    have passes : a.checkCampaign cell.campaign = true := by
      cases listed with
      | inl unknown => exact (Bool.and_eq_true_iff.1 (Bool.and_eq_true_iff.1 unknown).1).1
      | inr known => exact (Bool.and_eq_true_iff.1 (Bool.and_eq_true_iff.1 known).1).1
    simp [listed, passes, best_iff]
  · refine iff_of_true (fun passes => ?_) fun here => absurd here listed
    have nothing : ∀ s, ¬a.LookedAt R calculation checkMinEcpm cell s := by
      intro s taken
      obtain ⟨before, after, split, -⟩ := taken.rate
      exact listed (listed_of_meets passes (split ▸ by simp) taken.meets)
    unfold TakenAreReal
    split
    · refine ⟨?_, fun s greatest => absurd greatest.taken (nothing s),
        fun s _ greatest => absurd greatest.taken (nothing s)⟩
      rintro ⟨tagSize, creative, accepted⟩
      obtain ⟨convRate, taken⟩ := accepted.lookedAt
      exact absurd taken (nothing _)
    · exact fun s taken => absurd taken (nothing s)

theorem allCandidates_best (R : RevenueArith) {a : DisplayAuction} {calculation : CtrCalculation}
    (calculated : a.ctrCalculation = some calculation) (checkMinEcpm : Bool)
    {cells : List CampaignSelectionCell} (ctr : ∀ c ∈ cells, 0 ≤ c.campaign.ctr) :
    a.ReturnsBest R calculation checkMinEcpm cells ↔ ∀ cell ∈ cells,
      a.checkCampaign cell.campaign = true → a.TakenAreReal R calculation checkMinEcpm cell := by
  rw [returnsBest_iff ctr calculated]
  exact forall₂_congr fun cell _ => takenAreReal_iff.symm

end Candidates

section Example

private def onceTag : Tag :=
  { (default : Tag) with sizes := TagSizeMap.empty.put ⟨⟨7, "250x250"⟩, 0⟩ }

private def onceTemplates : CreativeTemplateMap :=
  (CreativeTemplateMap.empty (fun _ => .ok ())).insert ⟨"square", "250x250", "html"⟩ ⟨"s.html", 'A'⟩

private def onceCreative (ccid : Nat) : Creative :=
  { (default : Creative) with
    ccid := ccid
    sizes := SortedMap.empty.put 7 ⟨⟨7, "250x250"⟩, 0, 0, 0, 0, false⟩
    creativeFormat := "square"
    status := 'A' }

private def onceCell (creatives : List Creative) : CampaignSelectionCell :=
  .make .floored
    ({ (default : Campaign) with ccgRateType := .cpm, ecpm_ := 10 ^ 8 }.configured onceTemplates
      creatives) (10 ^ 8) ⟨1, 0, 0⟩

/-- Every creative has one click rate, and one answer of the rate check. -/
private def onceCalculation (passed : Bool) : CtrCalculation where
  getCtr := fun _ _ => 10 ^ 6
  checkRate := some fun _ _ => ⟨passed, 0, false⟩

private def onceAuction (passed : Bool) : DisplayAuction where
  templates := onceTemplates
  key := ⟨"html", .optin⟩
  tag := onceTag
  tagSizes := onceTag.sizes
  filter := .plain
  seqOrders := SortedMap.empty
  minEcpm := 0
  random2 := 0
  checkCampaign := fun _ => true
  ctrCalculation := some (onceCalculation passed)

/-- The check gives one answer for a size where it says that the creative does not matter. -/
def RateUniform (calculation : CtrCalculation) : Prop :=
  ∀ tagSize creative other, (rateOf calculation tagSize creative).creativeDependent = false →
    rateOf calculation tagSize other = rateOf calculation tagSize creative

/-- The check rejects both creatives, and the second is shown. -/
theorem rejectedSecond_not_returnsBest :
    ¬∀ (R : RevenueArith) (a : DisplayAuction) (calculation : CtrCalculation)
      (checkMinEcpm : Bool) (cells : List CampaignSelectionCell),
      a.ctrCalculation = some calculation → RateUniform calculation →
        (∀ c ∈ cells, 0 ≤ c.campaign.ctr) → a.ReturnsBest R calculation checkMinEcpm cells := by
  intro returns
  have uniform : RateUniform (onceCalculation false) := fun _ _ _ _ => rfl
  obtain ⟨all, run, -, -, best⟩ := returns .floored (onceAuction false) (onceCalculation false) true
    [onceCell [onceCreative 1, onceCreative 2]] rfl uniform (by decide)
    (.preferring default 0)
  have shown : (((onceAuction false).getAllDisplayCampaignCandidates_ .floored
      (.preferring default 0) true
        [onceCell [onceCreative 1, onceCreative 2]]).toOption.map List.length) = some 1 := by
    decide +kernel
  rw [run] at shown
  have some : all ≠ [] := List.ne_nil_of_length_pos (by
    rw [Option.some.inj shown]
    exact one_pos)
  obtain ⟨c, mem⟩ := List.exists_mem_of_ne_nil all some
  exact Bool.false_ne_true (best c mem).accepted.rate

theorem allCandidates_best_one :
    (onceAuction true).ReturnsBest .floored (onceCalculation true) true
      [onceCell [onceCreative 1]] := by
  refine (allCandidates_best .floored rfl true (by decide)).2 ?_
  intro cell mem _
  cases List.mem_singleton.1 mem
  have known : ¬unknownCtr (onceCell [onceCreative 1]).campaign = true := by decide
  rw [TakenAreReal, if_neg known]
  exact fun _ _ => rfl

end Example

end DisplayAuction

end AdServer.CampaignManager
