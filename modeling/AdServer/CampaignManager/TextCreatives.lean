import AdServer.CampaignManager.DisplayAuction

/-!
# The creatives of text candidates

`filter_text_campaign_candidates_` gives every text candidate without a creative
one of those available on the size auctioned. When rates are calculated, one pass
keeps the creatives of the greatest click rate, and compares conversion rates for
equality only.
-/

namespace AdServer.CampaignManager

open AdServer.Lib

namespace TextCreatives

/-- An auction on one size with what the calculations give there. A draw from a
list that is not empty is one of its elements. -/
structure TextEnv extends AuctionEnv where
  /-- `conv_rate_calculation_context->check_rate` -/
  checkRate : Option (Creative → RateCheck)
  select_mem : ∀ n creatives, creatives ≠ [] → ∃ c ∈ creatives, randomSelect n creatives = some c
  select_nil : ∀ n, randomSelect n [] = none

/-- What the pass over the creatives of a candidate writes. -/
structure BestCreatives where
  maxEcpmAvailableCreatives : List Creative
  maxCtr : Int
  maxConvRate : Int
  newEcpm : Int

def BestCreatives.start : BestCreatives := ⟨[], 0, 0, 0⟩

section Filter

variable (R : RevenueArith) (env : TextEnv)

/-- The conversion rate of a creative, not asked for without a calculation. -/
def rate (creative : Creative) : RateCheck :=
  match env.checkRate with
  | none => ⟨true, 0, false⟩
  | some checkRate => checkRate creative

/-- The bid of a candidate at a click rate. -/
def textEcpm (c : WeightedCampaignKeyword) (ctr : Int) : Int :=
  match c.campaignKeyword with
  | some kw => keywordEcpm R kw ctr
  | none => R.mul c.campaign.clickSysRevenue (R.mul ctr R.ecpmFactor)

/-- A creative whose rate is accepted, with its click rate. -/
def compareCreative (campaign : Campaign) (ctr : Int) (creative : Creative)
    (s : BestCreatives) : BestCreatives :=
  if s.maxCtr ≤ ctr ∧ campaign.missesCtrGoal ctr = false then
    if ctr = s.maxCtr ∧ (rate env creative).convRate = s.maxConvRate then
      { s with maxEcpmAvailableCreatives := s.maxEcpmAvailableCreatives ++ [creative] }
    else
      { s with
        maxEcpmAvailableCreatives := [creative]
        maxCtr := ctr
        maxConvRate := (rate env creative).convRate }
  else s

/-- One creative of the pass. -/
def fetchCreative (c : WeightedCampaignKeyword) (s : BestCreatives) (creative : Creative) :
    BestCreatives :=
  if (rate env creative).passed then
    match env.getCtr with
    | none => { s with maxEcpmAvailableCreatives := s.maxEcpmAvailableCreatives ++ [creative] }
    | some getCtr =>
      let s := compareCreative env c.campaign (getCtr creative) creative s
      if c.campaign.useCtr then { s with newEcpm := textEcpm R c s.maxCtr } else s
  else s

/-- A pass is made for a click rate that decides something, or for conversion rates. -/
def ratesCreatives (campaign : Campaign) : Bool :=
  (env.getCtr.isSome && DisplayAuction.unknownCtr campaign) || env.checkRate.isSome

def changesEcpm (campaign : Campaign) : Bool := env.getCtr.isSome && campaign.useCtr

/-- The creatives to choose from, with the greatest rates. -/
def fetchCreatives (c : WeightedCampaignKeyword) : BestCreatives :=
  let available := env.availableCreatives c
  if ratesCreatives env c.campaign then available.foldl (fetchCreative R env c) .start
  else { BestCreatives.start with maxEcpmAvailableCreatives := available }

/-- Whether a candidate is looked at: with the click rate of its campaign a goal
has to be exceeded. -/
def passesGoal (campaign : Campaign) : Bool :=
  campaign.bidStrategy != .minCtrGoal || env.getCtr.isSome ||
    decide (campaign.minCtrGoal < campaign.ctr)

/-- What becomes of a candidate, `n` being kept before it. -/
def candidateOf (n : Nat) (c : WeightedCampaignKeyword) : Option WeightedCampaignKeyword :=
  if passesGoal env c.campaign then
    match c.creative with
    | some _ => some c
    | none =>
      if (env.availableCreatives c).isEmpty then none
      else
        let best := fetchCreatives R env c
        (env.randomSelect n best.maxEcpmAvailableCreatives).map fun creative =>
          { c with
            creative := some creative
            actualEcpm := if changesEcpm env c.campaign then best.newEcpm else c.actualEcpm
            ecpm := if changesEcpm env c.campaign then best.newEcpm else c.ecpm
            convRate := best.maxConvRate }
  else none

/-- `filter_text_campaign_candidates_`. -/
def filterTextCampaignCandidates_ (textCampaigns : List WeightedCampaignKeyword) :
    List WeightedCampaignKeyword :=
  textCampaigns.foldl (fun filtered c => filtered ++ (candidateOf R env filtered.length c).toList) []

end Filter

section Pass

variable {R : RevenueArith} {env : TextEnv}

/-- Accepted by the rate check and, where click rates are calculated, by the goal. -/
def accepts (env : TextEnv) (campaign : Campaign) (creative : Creative) : Bool :=
  (rate env creative).passed && env.getCtr.all fun getCtr => !campaign.missesCtrGoal (getCtr creative)

/-- The creatives of a candidate that may be shown. -/
def accepted (env : TextEnv) (c : WeightedCampaignKeyword) : List Creative :=
  (env.availableCreatives c).filter (accepts env c.campaign)

theorem fetchCreatives_of_none (c : WeightedCampaignKeyword) (none : env.getCtr = none) :
    (fetchCreatives R env c).maxEcpmAvailableCreatives = accepted env c := by
  have same : ∀ creative, accepts env c.campaign creative = (rate env creative).passed := by
    simp [accepts, none]
  unfold fetchCreatives accepted
  by_cases rates : ratesCreatives env c.campaign = true
  · rw [if_pos rates]
    induction env.availableCreatives c using List.reverseRecOn with
    | nil => rfl
    | append_singleton xs x ih =>
      rw [List.foldl_append, List.filter_append, ← ih]
      simp only [List.foldl_cons, List.foldl_nil, fetchCreative, none, List.filter_cons,
        List.filter_nil, same]
      split <;> simp
  · rw [if_neg rates]
    have unchecked : env.checkRate = Option.none := by
      simpa [ratesCreatives, none] using rates
    refine (List.filter_eq_self.2 fun creative _ => ?_).symm
    rw [same, rate, unchecked]

/-- The pass in the form of a pass with two keys. -/
def BestCreatives.keys (s : BestCreatives) : (Int × Int) × List Creative :=
  ((s.maxCtr, s.maxConvRate), s.maxEcpmAvailableCreatives)

theorem compareCreative_keys (campaign : Campaign) {getCtr : Creative → Int} (creative : Creative)
    (s : BestCreatives) :
    (compareCreative env campaign (getCtr creative) creative s).keys =
      if campaign.missesCtrGoal (getCtr creative) = false then
        keepTied getCtr (fun creative => (rate env creative).convRate) s.keys creative
      else s.keys := by
  unfold compareCreative keepTied BestCreatives.keys
  by_cases goal : campaign.missesCtrGoal (getCtr creative) = false
  · simp only [goal, and_true, if_true]
    split
    · split <;> rfl
    · rfl
  · rw [if_neg fun h => goal h.2, if_neg goal]

/-- The bid is that of the greatest click rate as soon as one creative passed. -/
theorem foldl_fetchCreative (c : WeightedCampaignKeyword) {getCtr : Creative → Int}
    (calculated : env.getCtr = some getCtr) (creatives : List Creative) :
    (creatives.foldl (fetchCreative R env c) .start).keys =
      tiedFrom getCtr (fun creative => (rate env creative).convRate) (0, 0)
        (creatives.filter (accepts env c.campaign)) ∧
    (c.campaign.useCtr = true → (∃ creative ∈ creatives, accepts env c.campaign creative = true) →
      (creatives.foldl (fetchCreative R env c) .start).newEcpm =
        textEcpm R c (creatives.foldl (fetchCreative R env c) .start).maxCtr) := by
  have same : ∀ creative, accepts env c.campaign creative =
      ((rate env creative).passed && !c.campaign.missesCtrGoal (getCtr creative)) := by
    simp [accepts, calculated]
  induction creatives using List.reverseRecOn with
  | nil => exact ⟨rfl, by simp⟩
  | append_singleton xs x ih =>
    simp only [List.foldl_append, List.filter_append, List.foldl_cons, List.foldl_nil]
    generalize xs.foldl (fetchCreative R env c) .start = s at ih ⊢
    obtain ⟨kept, bid⟩ := ih
    by_cases passed : (rate env x).passed = true
    · have step := @compareCreative_keys env c.campaign getCtr x s
      simp only [fetchCreative, calculated, passed, if_true]
      refine ⟨?_, fun uses _ => by rw [if_pos uses]⟩
      have unchanged : (if c.campaign.useCtr = true then
          { compareCreative env c.campaign (getCtr x) x s with
            newEcpm := textEcpm R c (compareCreative env c.campaign (getCtr x) x s).maxCtr }
          else compareCreative env c.campaign (getCtr x) x s).keys =
            (compareCreative env c.campaign (getCtr x) x s).keys := by
        split <;> rfl
      rw [unchanged, step, kept]
      by_cases goal : c.campaign.missesCtrGoal (getCtr x) = false
      · have accepted : accepts env c.campaign x = true := by simp [same, passed, goal]
        rw [if_pos goal, List.filter_cons_of_pos accepted, List.filter_nil, tiedFrom_append]
      · have rejected : ¬accepts env c.campaign x = true := by simp [same, goal]
        rw [if_neg goal, List.filter_cons_of_neg rejected, List.filter_nil, List.append_nil]
    · have rejected : ¬accepts env c.campaign x = true := by simp [same, passed]
      rw [List.filter_cons_of_neg rejected, List.filter_nil, List.append_nil, fetchCreative,
        if_neg passed]
      refine ⟨kept, fun uses some => bid uses ?_⟩
      obtain ⟨creative, mem, accepted⟩ := some
      cases List.mem_append.1 mem with
      | inl before => exact ⟨creative, before, accepted⟩
      | inr last => exact absurd (List.mem_singleton.1 last ▸ accepted) rejected

end Pass

section Candidate

variable {R : RevenueArith} {env : TextEnv} {c : WeightedCampaignKeyword} {n : Nat}

theorem fetchCreatives_of_unrated (calculated : env.getCtr.isSome)
    (unrated : ¬ratesCreatives env c.campaign = true) :
    (fetchCreatives R env c).maxEcpmAvailableCreatives = accepted env c := by
  have plain : c.campaign.useCtr = false ∧ c.campaign.bidStrategy ≠ .minCtrGoal ∧
      env.checkRate = none := by
    simpa [ratesCreatives, calculated, DisplayAuction.unknownCtr, and_assoc] using unrated
  unfold fetchCreatives
  rw [if_neg unrated]
  refine (List.filter_eq_self.2 fun creative _ => ?_).symm
  have free : ∀ ctr, c.campaign.missesCtrGoal ctr = false := fun ctr => by
    simp [Campaign.missesCtrGoal, plain.2.1]
  simp [accepts, rate, plain.2.2, free]

theorem candidateOf_isSome_iff (none : c.creative = none) :
    (candidateOf R env n c).isSome ↔
      passesGoal env c.campaign ∧ (fetchCreatives R env c).maxEcpmAvailableCreatives ≠ [] := by
  unfold candidateOf
  rw [none]
  by_cases goal : passesGoal env c.campaign = true
  · simp only [goal, if_true, true_and]
    by_cases empty : env.availableCreatives c = []
    · have nothing : (fetchCreatives R env c).maxEcpmAvailableCreatives = [] := by
        simp [fetchCreatives, empty, BestCreatives.start]
      simp [empty, nothing]
    · simp only [List.isEmpty_iff, empty, if_false, Option.isSome_map]
      constructor
      · intro drawn nothing
        simp [nothing, env.select_nil] at drawn
      · intro some
        obtain ⟨creative, -, drawn⟩ := env.select_mem n _ some
        simp [drawn]
  · simp [goal]

variable {k : WeightedCampaignKeyword} {getCtr : Creative → Int}

theorem mem_candidateOf (none : c.creative = none) (h : k ∈ candidateOf R env n c) :
    ∃ creative ∈ (fetchCreatives R env c).maxEcpmAvailableCreatives,
      k = { c with
        creative := some creative
        actualEcpm := if changesEcpm env c.campaign then (fetchCreatives R env c).newEcpm
          else c.actualEcpm
        ecpm := if changesEcpm env c.campaign then (fetchCreatives R env c).newEcpm else c.ecpm
        convRate := (fetchCreatives R env c).maxConvRate } := by
  have some := ((candidateOf_isSome_iff none).1 (Option.isSome_of_mem h)).2
  obtain ⟨creative, mem, drawn⟩ := env.select_mem n _ some
  refine ⟨creative, mem, ?_⟩
  unfold candidateOf at h
  rw [none] at h
  split at h
  · simp only at h
    split at h
    · simp at h
    · rw [drawn, Option.map_some, Option.mem_def, Option.some.injEq] at h
      exact h.symm
  · simp at h

/-- With click rates the creatives kept have the keys of the last of the greatest. -/
theorem fetchCreatives_spec (calculated : env.getCtr = some getCtr)
    (rates : ratesCreatives env c.campaign = true) :
    ((fetchCreatives R env c).maxEcpmAvailableCreatives = [] ∧
        ∀ creative ∈ accepted env c, getCtr creative < 0) ∨
    ∃ last, LastGreatest getCtr (accepted env c) last ∧ 0 ≤ getCtr last ∧
      (fetchCreatives R env c).maxEcpmAvailableCreatives ≠ [] ∧
      (fetchCreatives R env c).maxConvRate = (rate env last).convRate ∧
      (c.campaign.useCtr = true → (fetchCreatives R env c).newEcpm = textEcpm R c (getCtr last)) ∧
      ∀ creative ∈ (fetchCreatives R env c).maxEcpmAvailableCreatives,
        creative ∈ accepted env c ∧ getCtr creative = getCtr last ∧
          (rate env creative).convRate = (rate env last).convRate := by
  have pass : fetchCreatives R env c =
      (env.availableCreatives c).foldl (fetchCreative R env c) .start := if_pos rates
  obtain ⟨kept, bid⟩ := foldl_fetchCreative (R := R) c calculated (env.availableCreatives c)
  rw [← pass] at kept bid
  change _ = tiedFrom getCtr _ (0, 0) (accepted env c) at kept
  obtain ⟨none, below⟩ | ⟨some, last, greatest, reached, keys⟩ := @tiedFrom_last
    _ _ _ (accepted env c) _ _ getCtr (fun creative => (rate env creative).convRate) (0, 0)
  · rw [none] at kept
    exact .inl ⟨congrArg Prod.snd kept, below⟩
  · have of_kept := fun creative => @mem_tiedFrom _ _ _ (accepted env c) _ _ getCtr
      (fun creative => (rate env creative).convRate) (0, 0) creative
    rw [← kept] at some keys of_kept
    have ctr : (fetchCreatives R env c).maxCtr = getCtr last := congrArg Prod.fst keys
    obtain ⟨here, accepted⟩ := List.mem_filter.1 greatest.mem
    refine .inr ⟨last, greatest, reached, some, congrArg Prod.snd keys, fun uses => ?_, ?_⟩
    · rw [bid uses ⟨last, here, accepted⟩, ctr]
    · intro creative mem
      obtain ⟨mem, same⟩ := of_kept creative mem
      rw [keys] at same
      exact ⟨mem, congrArg Prod.fst same, congrArg Prod.snd same⟩

/-- Without calculated click rates the campaign's own has to meet the goal. -/
def MeetsGoal (env : TextEnv) (campaign : Campaign) : Prop :=
  env.getCtr = none → campaign.missesCtrGoal campaign.ctr = false

/-- The candidate with an accepted creative of the greatest click rate and, among
those, the greatest conversion rate, and the bid that click rate makes. -/
def CarriesBest (R : RevenueArith) (env : TextEnv) (getCtr : Creative → Int)
    (c kept : WeightedCampaignKeyword) : Prop :=
  ∃ creative ∈ accepted env c,
    (∀ other ∈ accepted env c, getCtr other ≤ getCtr creative ∧
      (getCtr other = getCtr creative →
        (rate env other).convRate ≤ (rate env creative).convRate)) ∧
    kept = { c with
      creative := some creative
      actualEcpm := textEcpm R c (getCtr creative)
      ecpm := textEcpm R c (getCtr creative)
      convRate := (rate env creative).convRate }

/-- What should become of a candidate without a creative. -/
structure KeepsBest (R : RevenueArith) (env : TextEnv) (c : WeightedCampaignKeyword)
    (kept : Option WeightedCampaignKeyword) : Prop where
  present : kept.isSome ↔ MeetsGoal env c.campaign ∧
    ∃ creative ∈ env.availableCreatives c, accepts env c.campaign creative
  best : ∀ getCtr ∈ env.getCtr, c.campaign.useCtr → ∀ k ∈ kept, CarriesBest R env getCtr c k

/-- A campaign that may be shown is not just at its goal, not all click rates are below zero,
and the last of the greatest click rates comes with the greatest conversion rate of them. -/
structure BestComesLast (env : TextEnv) (c : WeightedCampaignKeyword) : Prop where
  goal : env.getCtr = none → c.campaign.bidStrategy = .minCtrGoal →
    c.campaign.ctr = c.campaign.minCtrGoal → accepted env c = []
  counted : ∀ getCtr ∈ env.getCtr, ratesCreatives env c.campaign → accepted env c ≠ [] →
    ∃ creative ∈ accepted env c, 0 ≤ getCtr creative
  last : ∀ getCtr ∈ env.getCtr, c.campaign.useCtr →
    ∀ last, LastGreatest getCtr (accepted env c) last → ∀ other ∈ accepted env c,
      getCtr other = getCtr last → (rate env other).convRate ≤ (rate env last).convRate

/-- What is kept is best when the last of the greatest has the greatest conversion rate. -/
theorem carriesBest_iff (unset : c.creative = none) (calculated : env.getCtr = some getCtr)
    (uses : c.campaign.useCtr = true) {last : Creative}
    (greatest : LastGreatest getCtr (accepted env c) last)
    (conv : (fetchCreatives R env c).maxConvRate = (rate env last).convRate)
    (bid : (fetchCreatives R env c).newEcpm = textEcpm R c (getCtr last))
    (of_kept : ∀ creative ∈ (fetchCreatives R env c).maxEcpmAvailableCreatives,
      creative ∈ accepted env c ∧ getCtr creative = getCtr last ∧
        (rate env creative).convRate = (rate env last).convRate)
    (kept : k ∈ candidateOf R env n c) :
    CarriesBest R env getCtr c k ↔ ∀ other ∈ accepted env c,
      getCtr other = getCtr last → (rate env other).convRate ≤ (rate env last).convRate := by
  obtain ⟨creative, mem, rfl⟩ := mem_candidateOf unset kept
  obtain ⟨here, ctr, same⟩ := of_kept creative mem
  have changes : changesEcpm env c.campaign = true := by simp [changesEcpm, calculated, uses]
  constructor
  · rintro ⟨best, best_mem, best_of, eq⟩ other other_mem tied
    have best_conv : (rate env last).convRate = (rate env best).convRate :=
      conv ▸ congrArg WeightedCampaignKeyword.convRate eq
    have best_ctr : getCtr last = getCtr best :=
      le_antisymm (best_of last greatest.mem).1 (greatest.weight_le best best_mem)
    rw [best_conv]
    exact (best_of other other_mem).2 (tied.trans best_ctr)
  · intro conv_last
    refine ⟨creative, here, fun other other_mem => ⟨?_, fun tied => ?_⟩, ?_⟩
    · exact (greatest.weight_le other other_mem).trans ctr.ge
    · exact same ▸ conv_last other other_mem (tied.trans ctr)
    · simp only [changes, if_true, bid, conv, ctr, same]

theorem accepted_ne_nil_iff :
    accepted env c ≠ [] ↔ ∃ creative ∈ env.availableCreatives c, accepts env c.campaign creative := by
  simp [accepted, List.filter_eq_nil_iff]

/-- Without calculated click rates only a campaign just at its goal is lost. -/
theorem keepsBest_of_none (unset : c.creative = none) (none : env.getCtr = none) :
    KeepsBest R env c (candidateOf R env n c) ↔ BestComesLast env c := by
  have some_iff := @candidateOf_isSome_iff R env c n unset
  rw [fetchCreatives_of_none c none] at some_iff
  have passes : passesGoal env c.campaign = true ↔
      c.campaign.bidStrategy = .minCtrGoal → c.campaign.minCtrGoal < c.campaign.ctr := by
    simp [passesGoal, none, imp_iff_not_or]
  have meets : MeetsGoal env c.campaign ↔
      (c.campaign.bidStrategy = .minCtrGoal → c.campaign.minCtrGoal ≤ c.campaign.ctr) := by
    simp [MeetsGoal, none, Campaign.missesCtrGoal]
  constructor
  · rintro ⟨present, -⟩
    refine ⟨fun _ goal same => ?_, by simp [none], by simp [none]⟩
    by_contra some
    rw [← accepted_ne_nil_iff, some_iff, passes, meets] at present
    exact absurd ((present.2 ⟨fun _ => same.ge, some⟩).1 goal) (by omega)
  · rintro ⟨goal, -, -⟩
    refine ⟨?_, by simp [none]⟩
    rw [← accepted_ne_nil_iff, some_iff, passes, meets]
    constructor
    · rintro ⟨exceeds, some⟩
      exact ⟨fun aims => (exceeds aims).le, some⟩
    · rintro ⟨reaches, some⟩
      refine ⟨fun aims => lt_of_le_of_ne (reaches aims) fun same => ?_, some⟩
      exact some (goal none aims same.symm)

theorem keepsBest_of_some (unset : c.creative = none) (calculated : env.getCtr = some getCtr) :
    KeepsBest R env c (candidateOf R env n c) ↔ BestComesLast env c := by
  have some_iff := @candidateOf_isSome_iff R env c n unset
  have passes : passesGoal env c.campaign = true := by simp [passesGoal, calculated]
  have meets : MeetsGoal env c.campaign := fun none => by simp [calculated] at none
  have present_iff : ((candidateOf R env n c).isSome ↔ MeetsGoal env c.campaign ∧
      ∃ creative ∈ env.availableCreatives c, accepts env c.campaign creative) ↔
      ((fetchCreatives R env c).maxEcpmAvailableCreatives ≠ [] ↔ accepted env c ≠ []) := by
    simp [some_iff, passes, meets, accepted_ne_nil_iff]
  by_cases rates : ratesCreatives env c.campaign = true
  · obtain ⟨nothing, below⟩ | ⟨last, greatest, reached, some, conv, bid, kept⟩ :=
      fetchCreatives_spec (R := R) calculated rates
    · have dropped : candidateOf R env n c = none := by
        rw [← Option.not_isSome_iff_eq_none, some_iff]
        simp [nothing]
      constructor
      · rintro ⟨present, -⟩
        have empty : accepted env c = [] := by
          simpa [nothing] using present_iff.1 present
        exact ⟨by simp [calculated], fun _ _ _ some => absurd empty some,
          fun _ _ _ last greatest => absurd greatest.mem (by simp [empty])⟩
      · rintro ⟨-, counted, -⟩
        refine ⟨present_iff.2 ?_, by simp [dropped]⟩
        simp only [nothing, ne_eq, not_true_eq_false, false_iff, not_not]
        by_contra some
        obtain ⟨creative, mem, nonneg⟩ := counted getCtr calculated rates some
        exact absurd (below creative mem) (not_lt.2 nonneg)
    · have present := present_iff.2 (by simp [some, List.ne_nil_of_mem greatest.mem])
      obtain ⟨k, drawn⟩ := Option.isSome_iff_exists.1 (some_iff.2 ⟨passes, some⟩)
      have best_iff := fun uses => carriesBest_iff (n := n) unset calculated uses greatest conv
        (bid uses) kept drawn
      constructor
      · rintro ⟨-, best⟩
        refine ⟨by simp [calculated], ?_, ?_⟩
        · exact fun getCtr' same _ _ =>
            ⟨last, greatest.mem, Option.some.inj (calculated.symm.trans same) ▸ reached⟩
        · intro getCtr' same uses last' greatest'
          cases Option.some.inj (calculated.symm.trans same)
          cases greatest.eq greatest'
          exact (best_iff uses).1 (best getCtr calculated uses k drawn)
      · rintro ⟨-, -, conv_last⟩
        refine ⟨present, fun getCtr' same uses k' drawn' => ?_⟩
        cases Option.some.inj (calculated.symm.trans same)
        cases Option.some.inj (drawn.symm.trans drawn')
        exact (best_iff uses).2 (conv_last getCtr calculated uses last greatest)
  · have all := fetchCreatives_of_unrated (R := R) (c := c) (by simp [calculated]) rates
    have unused : ¬c.campaign.useCtr = true := by
      exact fun uses => rates (by simp [ratesCreatives, calculated, DisplayAuction.unknownCtr, uses])
    constructor
    · rintro -
      exact ⟨by simp [calculated], fun _ _ h => absurd h rates, fun _ _ h => absurd h unused⟩
    · rintro -
      exact ⟨present_iff.2 (by rw [all]), fun _ _ h => absurd h unused⟩

theorem keepsBest_iff (unset : c.creative = none) :
    KeepsBest R env c (candidateOf R env n c) ↔ BestComesLast env c := by
  cases calculated : env.getCtr with
  | none => exact keepsBest_of_none unset calculated
  | some getCtr => exact keepsBest_of_some unset calculated

end Candidate

section Candidates

variable (R : RevenueArith) (env : TextEnv)

/-- Every candidate without a creative adds what it should to what is kept. -/
def KeepsBestOfEach (texts : List WeightedCampaignKeyword) : Prop :=
  ∀ before c after, texts = before ++ c :: after → c.creative = none →
    ∃ kept, filterTextCampaignCandidates_ R env (before ++ [c]) =
        filterTextCampaignCandidates_ R env before ++ kept.toList ∧
      filterTextCampaignCandidates_ R env (before ++ [c]) <+:
        filterTextCampaignCandidates_ R env texts ∧
      KeepsBest R env c kept

variable {R env}

theorem filterText_append (before : List WeightedCampaignKeyword) (c : WeightedCampaignKeyword) :
    filterTextCampaignCandidates_ R env (before ++ [c]) =
      filterTextCampaignCandidates_ R env before ++
        (candidateOf R env (filterTextCampaignCandidates_ R env before).length c).toList := by
  simp [filterTextCampaignCandidates_]

theorem filterText_front (before after : List WeightedCampaignKeyword) :
    filterTextCampaignCandidates_ R env before <+:
      filterTextCampaignCandidates_ R env (before ++ after) := by
  induction after using List.reverseRecOn with
  | nil => simp
  | append_singleton after c ih =>
    rw [← List.append_assoc, filterText_append]
    exact ih.trans (List.prefix_append _ _)

theorem filterText_keepsBest (R : RevenueArith) (env : TextEnv)
    (texts : List WeightedCampaignKeyword) :
    KeepsBestOfEach R env texts ↔ ∀ c ∈ texts, c.creative = none → BestComesLast env c := by
  constructor
  · intro keeps c mem unset
    obtain ⟨before, after, rfl⟩ := List.append_of_mem mem
    obtain ⟨kept, adds, -, best⟩ := keeps before c after rfl unset
    rw [filterText_append] at adds
    have same := congrArg List.head? (List.append_cancel_left adds)
    rw [Option.head?_toList, Option.head?_toList] at same
    exact (keepsBest_iff unset).1 (same ▸ best)
  · rintro best before c after rfl unset
    refine ⟨_, filterText_append before c, ?_, (keepsBest_iff unset).2 (best c (by simp) unset)⟩
    have whole := @filterText_front R env (before ++ [c]) after
    simpa using whole

end Candidates

section Example

private def pairTag : Tag :=
  { (default : Tag) with sizes := TagSizeMap.empty.put ⟨⟨7, "250x250"⟩, 1⟩ }

private def pairTemplates : CreativeTemplateMap :=
  (CreativeTemplateMap.empty (fun _ => .ok ())).insert ⟨"square", "250x250", "html"⟩ ⟨"s.html", 'A'⟩

private def pairCreative (ccid : Nat) : Creative :=
  { (default : Creative) with
    ccid := ccid
    sizes := SortedMap.empty.put 7 ⟨⟨7, "250x250"⟩, 0, 0, 0, 0, false⟩
    creativeFormat := "square"
    status := 'A' }

private def pairText (creatives : List Creative) : WeightedCampaignKeyword where
  campaignKeyword := none
  campaign := ({ (default : Campaign) with ccgRateType := .cpc }.configured pairTemplates creatives)
  creative := none
  actualEcpm := 0
  actualCpc := 0
  ecpm := 0
  ctr := 0
  convRate := 0
  own := by simp

private def pairCtr (_ : Creative) : Int := 10 ^ 6

/-- The first creative converts best. -/
private def pairEnv : TextEnv where
  templates := pairTemplates
  key := ⟨"html", .optin⟩
  tag := pairTag
  tagSize := ⟨⟨7, "250x250"⟩, 1⟩
  filter := .plain
  seqOrders := SortedMap.empty
  getCtr := some pairCtr
  randomSelect := fun _ creatives => creatives.head?
  checkRate := some fun creative => ⟨true, if creative.ccid = 1 then 2 * 10 ^ 6 else 10 ^ 6, true⟩
  select_mem := fun _ creatives some =>
    ⟨creatives.head some, List.head_mem some, List.head?_eq_some_head some⟩
  select_nil := fun _ => rfl

/-- The second creative, with the same click rate, replaces the first though it converts less. -/
theorem laterTie_not_keepsBest :
    ¬∀ (R : RevenueArith) (env : TextEnv) (texts : List WeightedCampaignKeyword),
      KeepsBestOfEach R env texts := by
  intro keeps
  obtain ⟨kept, adds, -, best⟩ := keeps .floored pairEnv
    [pairText [pairCreative 1, pairCreative 2]] [] _ [] rfl rfl
  have rates : (filterTextCampaignCandidates_ .floored pairEnv
      [pairText [pairCreative 1, pairCreative 2]]).map (·.convRate) = [10 ^ 6] := by
    decide +kernel
  change filterTextCampaignCandidates_ .floored pairEnv _ = kept.toList at adds
  rw [List.nil_append] at adds
  rw [adds] at rates
  cases kept with
  | none => simp at rates
  | some k =>
    have convRate : k.convRate = 10 ^ 6 := by simpa using rates
    obtain ⟨creative, -, best_of, eq⟩ := best.best pairCtr rfl (by decide) k rfl
    have first : pairCreative 1 ∈ accepted pairEnv (pairText [pairCreative 1, pairCreative 2]) := by
      decide +kernel
    have more := (best_of _ first).2 rfl
    have conv : k.convRate = (rate pairEnv creative).convRate :=
      congrArg WeightedCampaignKeyword.convRate eq
    have two : (rate pairEnv (pairCreative 1)).convRate = 2 * 10 ^ 6 := by decide
    omega

end Example

end TextCreatives

end AdServer.CampaignManager
