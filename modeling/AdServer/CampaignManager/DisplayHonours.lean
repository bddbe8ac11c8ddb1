import AdServer.CampaignManager.DisplayCandidates

/-!
# The most profitable display campaign

Both paths of the display auction are to return a candidate of the greatest
profit with a size of the request.
-/

namespace AdServer.CampaignManager

open AdServer.Lib

section Honours

variable (R : RevenueArith) (a : DisplayAuction)

namespace DisplayAuction

/-- What the auction is to give with the click rates of the campaigns. -/
structure TakesMostProfitable (draws : DisplayDraws) (cells : List CampaignSelectionCell)
    (all max : List DisplayCandidate) (chosen : Option DisplayCandidate) : Prop where
  runAll : a.getAllDisplayCampaignCandidates_ R draws true cells = .ok all
  runMax : a.getMaxDisplayCampaignCandidates_ R draws cells 0 [] = .ok max
  run : a.selectDisplayCampaign_ R draws .maxEcpm cells = .ok chosen
  some_iff : max ≠ [] ↔ all ≠ []
  among : ∀ c ∈ max, c.cell ∈ all.map (·.cell)
  greatest : ∀ c ∈ max, ∀ b ∈ all, b.cell.ecpm ≤ c.cell.ecpm
  chosen_some_iff : chosen.isSome ↔ max ≠ []
  chosen_mem : ∀ c, chosen = some c → c ∈ max
  size : ∀ c ∈ max, OwnSize c a.tagSizes

/-- What it is to give with click rates calculated. -/
structure TakesGreatestMargin (draws : DisplayDraws) (cells : List CampaignSelectionCell)
    (all : List DisplayCandidate) (chosen : Option DisplayCandidate) : Prop where
  runAll : a.getAllDisplayCampaignCandidates_ R draws true cells = .ok all
  run : a.selectDisplayCampaign_ R draws .maxEcpm cells = .ok chosen
  some_iff : chosen.isSome ↔ all ≠ []
  among : ∀ c, chosen = some c → c ∈ all
  greatest : ∀ c, chosen = some c → ∀ b ∈ all, margin R b ≤ margin R c
  size : ∀ c, chosen = some c → OwnSize c a.tagSizes

/-- The auction returns the most profitable candidate, whatever is drawn. -/
def Honours (cells : List CampaignSelectionCell) : Prop :=
  ∀ draws,
    if a.ctrCalculation.isNone then
      ∃ all max chosen, a.TakesMostProfitable R draws cells all max chosen
    else ∃ all chosen, a.TakesGreatestMargin R draws cells all chosen

/-- The lists on which the fast path stops neither too early nor too late. -/
structure FastPathSafe (cells : List CampaignSelectionCell) : Prop where
  /-- no campaign that may be shown bids too little in front of the first candidate -/
  first : ∀ front c back, cells = front ++ c :: back → a.Candidate R c →
    (∀ b ∈ front, ¬ a.Candidate R b) →
      ∀ b ∈ front, a.checkCampaign b.campaign = true → a.ReachesMin R b
  /-- in front of a candidate of less profit than another the fast path has stopped -/
  less : ∀ front c back, cells = front ++ c :: back → a.Candidate R c →
    (∃ b ∈ front, a.Candidate R b ∧ c.ecpm < b.ecpm) → a.Stopped R [] (front ++ [c])
  /-- the creatives of other candidates have no size of the tag but those of the request -/
  sizes : ∀ front c back, cells = front ++ c :: back → a.Candidate R c →
    ¬ a.Stopped R [] (front ++ [c]) → ∀ creative ∈ a.availableCreatives c.campaign,
      ∀ id ∈ creative.sizes.keys, ∀ tagSize, a.tag.sizes.sizes.find? id = some tagSize →
        a.tagSizes.sizes.find? id = some tagSize

/-- A creative in a size that a campaign may be shown with; where a click rate is calculated,
one of the greatest bid. -/
def Shows (calculation : CtrCalculation) (cell : CampaignSelectionCell) (s : SizedCreative) :
    Prop :=
  a.checkCampaign cell.campaign = true ∧
    if unknownCtr cell.campaign then Greatest R a calculation true cell s
    else a.LookedAt R calculation true cell s

/-- The lists with a cell whose bid leaves a profit that is not negative, if any cell can be
shown at all. -/
def MarginSafe (cells : List CampaignSelectionCell) : Prop :=
  ∀ calculation ∈ a.ctrCalculation,
    (∃ cell ∈ cells, ∃ s, a.Shows R calculation cell s) →
      ∃ cell ∈ cells, ∃ s, a.Shows R calculation cell s ∧
        0 ≤ profit R cell.tagPricing (weightOf R a calculation cell s)

variable {R a}

variable {campaigns : List DisplayCandidate}

theorem selectMaxMargin_eq (some : ∃ c ∈ campaigns, 0 ≤ margin R c) :
    ∃ c ∈ campaigns, a.selectMaxMargin R campaigns = .ok c ∧
      ∀ b ∈ campaigns, margin R b ≤ margin R c := by
  have kept := maximaFrom_ne_nil_iff.2 some
  have bound : a.random2 % (maximaFrom (margin R) 0 campaigns).2.length <
      (maximaFrom (margin R) 0 campaigns).2.length := Nat.mod_lt _ (List.length_pos_iff.2 kept)
  obtain ⟨mem, greatest⟩ := mem_maximaFrom (List.getElem_mem bound)
  have passed : check (!(maximaFrom (margin R) 0 campaigns).2.isEmpty) = .ok () := by
    simp [List.isEmpty_eq_false_iff.2 kept]
  refine ⟨_, mem, ?_, fun b hb => ?_⟩
  · unfold selectMaxMargin
    dsimp only
    rw [passed, ok_bind, List.getElem?_eq_getElem bound, deref_some]
  · rw [greatest]
    exact weight_le_maximaFrom b hb

/-- Without a profit that is not negative the search for the greatest fails. -/
theorem selectMaxMargin_error (none : ∀ c ∈ campaigns, margin R c < 0) :
    a.selectMaxMargin R campaigns = .error .assertFailed := by
  have kept : (maximaFrom (margin R) 0 campaigns).2 = [] := by
    by_contra some
    obtain ⟨c, mem, nonneg⟩ := maximaFrom_ne_nil_iff.1 some
    exact absurd (none c mem) (not_lt.2 nonneg)
  unfold selectMaxMargin
  dsimp only
  rw [kept]
  rfl

variable {draws : DisplayDraws} {cells : List CampaignSelectionCell} {made : List DisplayCandidate}
  {c : CampaignSelectionCell}

theorem forall₂_cells (h : List.Forall₂ (a.MadeOf draws) cells made) :
    made.map (·.cell) = cells := by
  induction h with
  | nil => rfl
  | cons first _ ih => rw [List.map_cons, first.of, ih]

theorem exists_made (h : List.Forall₂ (a.MadeOf draws) cells made) {c : DisplayCandidate}
    (mem : c ∈ made) : c.cell ∈ cells ∧ a.MadeOf draws c.cell c := by
  induction h with
  | nil => simp at mem
  | cons first _ ih =>
    cases List.mem_cons.1 mem with
    | inl same =>
      subst same
      have of := first.of
      rw [← of] at first
      exact ⟨of ▸ List.mem_cons_self, first⟩
    | inr later =>
      obtain ⟨inside, made⟩ := ih later
      exact ⟨List.mem_cons_of_mem _ inside, made⟩

theorem mem_cells_taken :
    c ∈ a.taken R cells 0 ↔
      ∃ front back, cells = front ++ c :: back ∧ a.Candidate R c ∧
        ¬ a.Stopped R [] (front ++ [c]) :=
  mem_taken_iff [] cells c

/-- The runs of the two paths, by the cells they make candidates of. -/
theorem runs_eq (sane : a.Sane cells) (draws : DisplayDraws) (h : a.ctrCalculation = none) :
    ∃ all max, a.getAllDisplayCampaignCandidates_ R draws true cells = .ok all ∧
      a.getMaxDisplayCampaignCandidates_ R draws cells 0 [] = .ok max ∧
      all.map (·.cell) = cells.filter (fun c => decide (a.Candidate R c)) ∧
      List.Forall₂ (a.MadeOf draws) (a.taken R cells 0) max := by
  obtain ⟨all, runAll, alls⟩ := getAllDisplay_eq (R := R) sane draws cells (fun _ mem => mem) []
  obtain ⟨max, runMax, maxs⟩ := getMaxDisplay_eq (R := R) sane draws cells (fun _ mem => mem) 0 []
  refine ⟨all, max, ?_, runMax, forall₂_cells alls, maxs⟩
  unfold getAllDisplayCampaignCandidates_
  rw [h]
  exact runAll

theorem selectDisplayCampaign_fast (draws : DisplayDraws) (h : a.ctrCalculation = none)
    {max : List DisplayCandidate}
    (run : a.getMaxDisplayCampaignCandidates_ R draws cells 0 [] = .ok max) :
    ∃ chosen, a.selectDisplayCampaign_ R draws .maxEcpm cells = .ok chosen ∧
      (chosen.isSome ↔ max ≠ []) ∧ ∀ c, chosen = some c → c ∈ max := by
  unfold selectDisplayCampaign_
  rw [h, run]
  by_cases none : max = []
  · exact ⟨Option.none, by simp [none]; rfl, by simp [none], by simp⟩
  · obtain ⟨c, mem, drawn⟩ := draws.campaign_mem max none
    refine ⟨some c, ?_, by simp [none], fun c' same => Option.some.inj same ▸ mem⟩
    simp [none, drawn]

theorem exists_first (some : ∃ c ∈ cells, a.Candidate R c) :
    ∃ front c back, cells = front ++ c :: back ∧ a.Candidate R c ∧
      ∀ b ∈ front, ¬ a.Candidate R b := by
  induction cells with
  | nil => simp at some
  | cons d rest ih =>
    by_cases here : a.Candidate R d
    · exact ⟨[], d, rest, rfl, here, by simp⟩
    · obtain ⟨c, mem, candidate⟩ := some
      have later : c ∈ rest := by
        cases List.mem_cons.1 mem with
        | inl same => exact absurd (same ▸ candidate) here
        | inr later => exact later
      obtain ⟨front, c', back, split, candidate', none⟩ := ih ⟨c, later, candidate⟩
      refine ⟨d :: front, c', back, by rw [split, List.cons_append], candidate', ?_⟩
      intro b hb
      cases List.mem_cons.1 hb with
      | inl same => exact same ▸ here
      | inr inside => exact none b inside

theorem taken_candidate (h : c ∈ a.taken R cells 0) : c ∈ cells ∧ a.Candidate R c := by
  obtain ⟨front, back, rfl, candidate, -⟩ := mem_cells_taken.1 h
  exact ⟨by simp, candidate⟩

theorem takesMostProfitable_of_safe (sane : a.Sane cells) (draws : DisplayDraws)
    (h : a.ctrCalculation = none) (safe : a.FastPathSafe R cells) :
    ∃ all max chosen, a.TakesMostProfitable R draws cells all max chosen := by
  obtain ⟨all, max, runAll, runMax, alls, maxs⟩ := runs_eq (R := R) sane draws h
  obtain ⟨chosen, run, chosen_some, chosen_mem⟩ := selectDisplayCampaign_fast draws h runMax
  have cells_max := forall₂_cells maxs
  have cell_of : ∀ c ∈ max, c.cell ∈ a.taken R cells 0 := fun c mem => (exists_made maxs mem).1
  have candidate_of : ∀ b ∈ all, b.cell ∈ cells ∧ a.Candidate R b.cell := by
    intro b hb
    have mem : b.cell ∈ all.map (·.cell) := List.mem_map_of_mem hb
    rw [alls] at mem
    obtain ⟨inside, candidate⟩ := List.mem_filter.1 mem
    exact ⟨inside, of_decide_eq_true candidate⟩
  refine ⟨all, max, chosen, runAll, runMax, run, ?_, ?_, ?_, chosen_some, chosen_mem, ?_⟩
  · constructor
    · intro some
      obtain ⟨c, mem⟩ := List.exists_mem_of_ne_nil _ some
      obtain ⟨inside, candidate⟩ := taken_candidate (cell_of c mem)
      have kept : c.cell ∈ all.map (·.cell) := by
        rw [alls]
        exact List.mem_filter.2 ⟨inside, decide_eq_true candidate⟩
      intro none
      simp [none] at kept
    · intro some
      obtain ⟨b, hb⟩ := List.exists_mem_of_ne_nil _ some
      obtain ⟨inside, candidate⟩ := candidate_of b hb
      obtain ⟨front, c, back, split, first, none⟩ := exists_first ⟨b.cell, inside, candidate⟩
      have kept := (taken_of_first none first back).2 (safe.first front c back split first none)
      rw [← split, ← cells_max] at kept
      intro empty
      simp [empty] at kept
  · intro c mem
    obtain ⟨inside, candidate⟩ := taken_candidate (cell_of c mem)
    rw [alls]
    exact List.mem_filter.2 ⟨inside, decide_eq_true candidate⟩
  · intro c mem b hb
    obtain ⟨front, back, split, candidate, goes⟩ := mem_cells_taken.1 (cell_of c mem)
    obtain ⟨inside, bids⟩ := candidate_of b hb
    have sorted := sane.sorted
    rw [split] at inside sorted
    cases List.mem_append.1 inside with
    | inl before =>
      by_contra more
      exact goes (safe.less front c.cell back split candidate ⟨b.cell, before, bids, not_le.1 more⟩)
    | inr after =>
      cases List.mem_cons.1 after with
      | inl same => rw [same]
      | inr later => exact (List.pairwise_cons.1 (List.pairwise_append.1 sorted).2.1).1 _ later
  · intro c mem
    obtain ⟨taken, made⟩ := exists_made maxs mem
    obtain ⟨front, back, split, candidate, goes⟩ := mem_cells_taken.1 taken
    obtain ⟨id, own, found⟩ := made.size
    exact ⟨id, own, safe.sizes front c.cell back split candidate goes _ made.creative id own _ found⟩

theorem safe_of_takesMostProfitable (sane : a.Sane cells) (h : a.ctrCalculation = none)
    (takes : ∀ draws, ∃ all max chosen, a.TakesMostProfitable R draws cells all max chosen) :
    a.FastPathSafe R cells := by
  have paths : ∀ draws, ∃ all max : List DisplayCandidate,
      all.map (·.cell) = cells.filter (fun c => decide (a.Candidate R c)) ∧
      List.Forall₂ (a.MadeOf draws) (a.taken R cells 0) max ∧ (max ≠ [] ↔ all ≠ []) ∧
      (∀ c ∈ max, ∀ b ∈ all, b.cell.ecpm ≤ c.cell.ecpm) ∧ ∀ c ∈ max, OwnSize c a.tagSizes := by
    intro draws
    obtain ⟨all, max, runAll, runMax, alls, maxs⟩ := runs_eq (R := R) sane draws h
    obtain ⟨all', max', chosen, honoured⟩ := takes draws
    have same : all' = all := Except.ok.inj (honoured.runAll.symm.trans runAll)
    have same' : max' = max := Except.ok.inj (honoured.runMax.symm.trans runMax)
    subst same same'
    exact ⟨all', max', alls, maxs, honoured.some_iff, honoured.greatest, honoured.size⟩
  constructor
  · intro front c back split candidate none
    obtain ⟨all, max, alls, maxs, some_iff, -, -⟩ := paths (.preferring default 0)
    have kept : c ∈ all.map (·.cell) := by
      rw [alls, split]
      exact List.mem_filter.2 ⟨by simp, decide_eq_true candidate⟩
    have some : max ≠ [] := by
      apply some_iff.2
      intro empty
      simp [empty] at kept
    apply (taken_of_first none candidate back).1
    rw [← split, ← forall₂_cells maxs]
    simpa using some
  · intro front c back split candidate more
    by_contra goes
    obtain ⟨all, max, alls, maxs, -, greatest, -⟩ := paths (.preferring default 0)
    have taken : c ∈ max.map (·.cell) := by
      rw [forall₂_cells maxs]
      exact mem_cells_taken.2 ⟨front, back, split, candidate, goes⟩
    obtain ⟨b, before, bids, less⟩ := more
    have kept : b ∈ all.map (·.cell) := by
      rw [alls, split]
      exact List.mem_filter.2 ⟨List.mem_append_left _ before, decide_eq_true bids⟩
    obtain ⟨c', hc, rfl⟩ := List.mem_map.1 taken
    obtain ⟨b', hb, rfl⟩ := List.mem_map.1 kept
    exact absurd (greatest c' hc b' hb) (not_le.2 less)
  · intro front c back split candidate goes creative available id own tagSize found
    obtain ⟨offset, selected⟩ := exists_offset (mem_availableSizes.2 ⟨id, own, found⟩)
    obtain ⟨all, max, -, maxs, -, -, sizes⟩ := paths (.preferring creative offset)
    have taken : c ∈ max.map (·.cell) := by
      rw [forall₂_cells maxs]
      exact mem_cells_taken.2 ⟨front, back, split, candidate, goes⟩
    obtain ⟨c', hc, rfl⟩ := List.mem_map.1 taken
    obtain ⟨n, drawn, size⟩ := (exists_made maxs hc).2.drawn
    have same : creative = c'.weighted.creative := by
      have chosen : (DisplayDraws.preferring creative offset).selectCreative n
          (a.availableCreatives c'.cell.campaign) = some creative := if_pos available
      exact Option.some.inj (chosen.symm.trans drawn)
    rw [← same] at size
    have same_size : tagSize = c'.weighted.tagSize :=
      Except.ok.inj (selected.symm.trans size)
    obtain ⟨id', -, found'⟩ := sizes c' hc
    rw [← same_size] at found'
    have key := a.tag.sizes.keyed id tagSize found
    have key' := a.tagSizes.keyed id' tagSize found'
    rw [← key, key']
    exact found'

variable {calculation : CtrCalculation} {cell : CampaignSelectionCell} {s : SizedCreative}

/-- What a campaign may be shown with is what its holder is left with. -/
theorem shows_iff :
    a.Shows R calculation cell s ↔ (a.isUnknown cell = true ∨ a.isKnown R true cell = true) ∧
      s ∈ (a.finalHolder R calculation true cell).curCreatives := by
  have listed_of_taken (passes : a.checkCampaign cell.campaign = true)
      (taken : a.LookedAt R calculation true cell s) :
      a.isUnknown cell = true ∨ a.isKnown R true cell = true := by
    obtain ⟨before, after, split, -⟩ := taken.rate
    exact listed_of_meets passes (split ▸ by simp) taken.meets
  have passes_of_listed (listed : a.isUnknown cell = true ∨ a.isKnown R true cell = true) :
      a.checkCampaign cell.campaign = true := by
    obtain listed | listed := listed
    all_goals exact (Bool.and_eq_true_iff.1 (Bool.and_eq_true_iff.1 listed).1).1
  unfold Shows
  split_ifs with unknown
  · rw [mem_kept_unknown unknown]
    exact ⟨fun h => ⟨listed_of_taken h.1 h.2.taken, h.2⟩, fun h => ⟨passes_of_listed h.1, h.2⟩⟩
  · have known (listed : a.isUnknown cell = true ∨ a.isKnown R true cell = true) :
        a.isKnown R true cell = true :=
      listed.resolve_left fun asked => unknown (Bool.and_eq_true_iff.1 asked).2
    constructor
    · rintro ⟨passes, taken⟩
      have listed := listed_of_taken passes taken
      exact ⟨listed, (mem_kept_known unknown (known listed)).2 taken⟩
    · rintro ⟨listed, kept⟩
      exact ⟨passes_of_listed listed, (mem_kept_known unknown (known listed)).1 kept⟩

theorem Shows.lookedAt (shows_ : a.Shows R calculation cell s) :
    a.LookedAt R calculation true cell s := by
  obtain ⟨-, taken⟩ := shows_
  split_ifs at taken
  · exact taken.taken
  · exact taken

/-- The bid of a candidate is that of the creative it is shown with. -/
theorem margin_holderCandidate (shows_ : a.Shows R calculation cell s) (t : SizedCreative) :
    margin R (holderCandidate (a.finalHolder R calculation true cell) t) =
      profit R cell.tagPricing (weightOf R a calculation cell s) := by
  have bid : (a.finalHolder R calculation true cell).ecpm = weightOf R a calculation cell s := by
    by_cases unknown : unknownCtr cell.campaign = true
    · exact ecpm_of_kept unknown (shows_iff.1 shows_).2
    · rw [weightOf_known unknown, finalHolder_known unknown]
      rfl
  rw [← bid, margin, holderCandidate, finalHolder_cell]

theorem ownSize_of_lookedAt (taken : a.LookedAt R calculation true cell s) (holder : CtrHolder) :
    OwnSize (holderCandidate holder s) a.tagSizes := by
  obtain ⟨⟨id, tagSize⟩, entry, size⟩ := List.mem_map.1 taken.size
  have found : a.tagSizes.sizes.find? id = some s.tagSize := size ▸ SortedMap.find?_eq_some.2 entry
  refine ⟨id, ?_, found⟩
  have fits := taken.fits
  unfold DisplayAuction.fits creativeAvailableBySize at fits
  rw [a.tagSizes.keyed id s.tagSize found] at fits
  cases here : s.creative.sizes.find? id with
  | none => simp [here] at fits
  | some crs => exact SortedMap.mem_keys.2 (by simp [holderCandidate, here])

theorem takesGreatestMargin_iff (sane : a.Sane cells)
    (h : a.ctrCalculation = some calculation) :
    (∀ draws, ∃ all chosen, a.TakesGreatestMargin R draws cells all chosen) ↔
      a.MarginSafe R cells := by
  simp only [MarginSafe, h, Option.mem_some_iff, forall_eq']
  constructor
  · rintro takes ⟨cell, mem, s, shown⟩
    obtain ⟨all, run, drawn⟩ := @run_eq R a calculation true (.preferring default 0) cells
      sane.ctr h
    obtain ⟨all', chosen, honoured⟩ := takes (.preferring default 0)
    cases Except.ok.inj (honoured.runAll.symm.trans run)
    obtain ⟨listed, kept⟩ := shows_iff.1 shown
    obtain ⟨c, here, -⟩ := exists_drawn drawn mem listed (List.ne_nil_of_mem kept)
    have some : all ≠ [] := List.ne_nil_of_mem here
    by_contra none
    have negative : ∀ c ∈ all, margin R c < 0 := by
      intro c here
      obtain ⟨inside, listed, t, kept, made⟩ := of_mem_all drawn here
      by_contra nonneg
      have shown := shows_iff.2 ⟨listed, kept⟩
      refine none ⟨c.cell, inside, t, shown, ?_⟩
      rw [← margin_holderCandidate shown t, ← made]
      exact not_lt.1 nonneg
    have selected := honoured.run
    unfold selectDisplayCampaign_ at selected
    simp [h, run, some, selectMaxMargin_error negative, bind, Except.bind] at selected
  · intro safe draws
    obtain ⟨all, run, drawn⟩ := @run_eq R a calculation true draws cells sane.ctr h
    by_cases none : all = []
    · refine ⟨all, Option.none, run, ?_, by simp [none], by simp, by simp, by simp⟩
      unfold selectDisplayCampaign_
      simp [h, run, none]
      rfl
    · obtain ⟨c, here⟩ := List.exists_mem_of_ne_nil _ none
      obtain ⟨inside, listed, t, kept, -⟩ := of_mem_all drawn here
      obtain ⟨cell, mem, s, shown, nonneg⟩ := safe ⟨c.cell, inside, t, shows_iff.2 ⟨listed, kept⟩⟩
      have leaves : ∃ c ∈ all, 0 ≤ margin R c := by
        obtain ⟨listed, kept⟩ := shows_iff.1 shown
        obtain ⟨c, here, n, t, -, -, rfl⟩ := exists_drawn drawn mem listed
          (List.ne_nil_of_mem kept)
        exact ⟨_, here, (margin_holderCandidate shown t).symm ▸ nonneg⟩
      obtain ⟨best, here, selected, greatest⟩ := selectMaxMargin_eq (a := a) leaves
      refine ⟨all, some best, run, ?_, by simp [none], ?_, ?_, ?_⟩
      · unfold selectDisplayCampaign_
        simp [h, run, none, selected]
      · exact fun c' same => Option.some.inj same ▸ here
      · exact fun c' same => Option.some.inj same ▸ greatest
      · intro c' same
        obtain rfl := Option.some.inj same
        obtain ⟨-, listed, t, kept, made⟩ := of_mem_all drawn here
        rw [made]
        exact ownSize_of_lookedAt (shows_iff.2 ⟨listed, kept⟩).lookedAt _

/-- When the auction returns the most profitable candidate. -/
theorem displayAuction_honours_iff {cells : List CampaignSelectionCell} (sane : a.Sane cells) :
    a.Honours R cells ↔
      if a.ctrCalculation.isNone then a.FastPathSafe R cells else a.MarginSafe R cells := by
  unfold Honours
  cases h : a.ctrCalculation with
  | none =>
    simp only [Option.isNone_none, if_true]
    exact ⟨safe_of_takesMostProfitable sane h,
      fun safe draws => takesMostProfitable_of_safe sane draws h safe⟩
  | some calculation =>
    simp only [Option.isNone_some, Bool.false_eq_true, if_false]
    exact takesGreatestMargin_iff sane h

end DisplayAuction

end Honours

section Example

private def squareTag : Tag :=
  { (default : Tag) with sizes := TagSizeMap.empty.put ⟨⟨7, "250x250"⟩, 0⟩ }

private def squareTemplates : CreativeTemplateMap :=
  (CreativeTemplateMap.empty (fun _ => .ok ())).insert ⟨"square", "250x250", "html"⟩ ⟨"s.html", 'A'⟩

private def squareCreative : Creative :=
  { (default : Creative) with
    sizes := SortedMap.empty.put 7 ⟨⟨7, "250x250"⟩, 0, 0, 0, 0, false⟩
    creativeFormat := "square"
    status := 'A' }

private def squareCell (bid revenueShare : Int) : CampaignSelectionCell :=
  .make .floored
    ({ (default : Campaign) with ccgRateType := .cpm, ecpm_ := bid }.configured squareTemplates
      [squareCreative])
    bid ⟨1, 0, revenueShare⟩

private def squareAuction : DisplayAuction where
  templates := squareTemplates
  key := ⟨"html", .optin⟩
  tag := squareTag
  tagSizes := squareTag.sizes
  filter := .plain
  seqOrders := SortedMap.empty
  minEcpm := 2 * 10 ^ 8
  random2 := 0
  checkCampaign := fun _ => true
  ctrCalculation := none

private def squareDraws : DisplayDraws := .preferring squareCreative 0

/-- A bid below the least one, of a campaign that leaves more of it than a higher
bid does, hides the higher bid. -/
theorem low_bid_hides_candidate :
    squareAuction.Sane [squareCell (10 ^ 8) 0, squareCell (3 * 10 ^ 8) (9 * 10 ^ 7)] ∧
      ¬ squareAuction.Honours .floored
        [squareCell (10 ^ 8) 0, squareCell (3 * 10 ^ 8) (9 * 10 ^ 7)] := by
  constructor
  · constructor
    · exact fun _ _ found => found
    · simp only [List.pairwise_cons, List.mem_singleton, forall_eq, List.not_mem_nil, false_imp_iff,
        implies_true, List.Pairwise.nil, and_true]
      decide
    · intro c mem
      simp only [List.mem_cons, List.not_mem_nil, or_false] at mem
      cases mem with
      | inl first =>
        subst first
        decide
      | inr second =>
        subst second
        decide
  · intro honours
    obtain ⟨all, max, chosen, honoured⟩ := honours squareDraws
    have all_one : ((squareAuction.getAllDisplayCampaignCandidates_ .floored squareDraws true
        [squareCell (10 ^ 8) 0, squareCell (3 * 10 ^ 8) (9 * 10 ^ 7)]).toOption.map
          List.length) = some 1 := by
      decide +kernel
    have max_none : ((squareAuction.getMaxDisplayCampaignCandidates_ .floored squareDraws
        [squareCell (10 ^ 8) 0, squareCell (3 * 10 ^ 8) (9 * 10 ^ 7)] 0 []).toOption.map
          List.length) = some 0 := by
      decide +kernel
    rw [honoured.runAll] at all_one
    rw [honoured.runMax] at max_none
    have one : all.length = 1 := Option.some.inj all_one
    have empty : max = [] := List.length_eq_zero_iff.1 (Option.some.inj max_none)
    have found : max ≠ [] := honoured.some_iff.2 (by intro h; simp [h] at one)
    exact found empty

theorem one_cell_honoured : squareAuction.Honours .floored [squareCell (3 * 10 ^ 8) 0] := by
  have single : ∀ (front : List CampaignSelectionCell) c back,
      [squareCell (3 * 10 ^ 8) 0] = front ++ c :: back → front = [] := by
    intro front c back split
    cases front with
    | nil => rfl
    | cons d front => simp at split
  apply (DisplayAuction.displayAuction_honours_iff _).2
  · change squareAuction.FastPathSafe .floored _
    constructor
    · intro front c back split _ _ b before
      rw [single front c back split] at before
      cases before
    · intro front c back split _ more
      obtain ⟨b, before, -⟩ := more
      rw [single front c back split] at before
      cases before
    · intro front c back _ _ _ creative _ id _ tagSize found
      exact found
  · constructor
    · exact fun _ _ found => found
    · simp
    · intro c mem
      cases List.mem_singleton.1 mem
      decide

end Example

end AdServer.CampaignManager
