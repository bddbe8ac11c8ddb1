import AdServer.UserInfo.Walks

/-!
# Order in the profile

What binary searches and merges rely on: lists by increasing id, requests by
time, stamps in the order of the search.
-/

namespace AdServer.UserInfo

open AdServer.Lib

/-- The profile is in the order its searches and merges rely on. -/
structure UserFreqCapProfile.Ordered (p : UserFreqCapProfile) : Prop where
  freqCaps : ById p.freqCaps
  virtualFreqCaps : ById p.virtualFreqCaps
  publisherAccounts : p.publisherAccounts.Pairwise
    (fun left right => left.publisherAccountId < right.publisherAccountId)
  campaignFreqs : p.campaignFreqs.Pairwise (fun left right => left.campaignId < right.campaignId)
  ucFreqCaps : p.ucFreqCaps.Pairwise (fun left right => left.time ≤ right.time)
  stamps : ∀ fc ∈ p.freqCaps, StampsSorted fc.lastImpressions
  virtualStamps : ∀ fc ∈ p.virtualFreqCaps, StampsSorted fc.lastImpressions

/-- The ids a call comes with are sorted. -/
structure Impressions.Sorted (imps : Impressions) : Prop where
  cFcs : imps.cFcs.Pairwise (· ≤ ·)
  ucFcs : imps.ucFcs.Pairwise (· ≤ ·)
  virtualFcs : imps.virtualFcs.Pairwise (· ≤ ·)

/-- The stamps of a freq cap. -/
def UserFreqCapProfile.stampsOf (p : UserFreqCapProfile) (fcId : Nat) : List Nat :=
  ((p.freqCaps.find? (fun fc => fc.fcId = fcId)).map FreqCap.lastImpressions).getD []

/-- The impressions of the freq cap are stamped. -/
def FreqCapConfig.stamped (cfg : FreqCapConfig) (fcId : Nat) : Bool :=
  decide (fcId ≠ 0) && (cfg.findOrGetDefault fcId).keepsStamps

/-- The impressions find their place among the stamps: a confirmed one comes with
no unconfirmed one and before no unconfirmed stamp that is not later, an
unconfirmed one comes alone and not in the second of a confirmed stamp. -/
structure Impressions.Fit (cfg : FreqCapConfig) (p : UserFreqCapProfile) (imps : Impressions) :
    Prop where
  time : Fits31 (tvSec imps.now)
  confirmed : ∀ fcId ∈ imps.cFcs, cfg.stamped fcId = true → fcId ∉ imps.ucFcs ∧
    ∀ stamp ∈ p.stampsOf fcId, isUcTimestamp stamp = true →
      tvSec imps.now < normalizeImpressionTimestamp stamp
  unconfirmed : ∀ fcId ∈ imps.ucFcs, cfg.stamped fcId = true → imps.ucFcs.count fcId = 1 ∧
    tvSec imps.now ∉ p.stampsOf fcId

instance instDecidableImpressionsSorted (imps : Impressions) : Decidable imps.Sorted :=
  decidable_of_iff (imps.cFcs.Pairwise (· ≤ ·) ∧ imps.ucFcs.Pairwise (· ≤ ·) ∧
    imps.virtualFcs.Pairwise (· ≤ ·))
    ⟨fun ⟨c, uc, virtualIds⟩ => ⟨c, uc, virtualIds⟩, fun h => ⟨h.cFcs, h.ucFcs, h.virtualFcs⟩⟩

instance instDecidableImpressionsFit (cfg : FreqCapConfig) (p : UserFreqCapProfile)
    (imps : Impressions) : Decidable (imps.Fit cfg p) :=
  decidable_of_iff (tvSec imps.now < 2147483648 ∧
    (∀ fcId ∈ imps.cFcs, cfg.stamped fcId = true → fcId ∉ imps.ucFcs ∧
      ∀ stamp ∈ p.stampsOf fcId, isUcTimestamp stamp = true →
        tvSec imps.now < normalizeImpressionTimestamp stamp) ∧
    ∀ fcId ∈ imps.ucFcs, cfg.stamped fcId = true → imps.ucFcs.count fcId = 1 ∧
      tvSec imps.now ∉ p.stampsOf fcId)
    ⟨fun ⟨time, c, uc⟩ => ⟨time, c, uc⟩, fun h => ⟨h.time, h.confirmed, h.unconfirmed⟩⟩

/-- What the operations keep in a profile. -/
structure UserFreqCapProfile.Kept (p : UserFreqCapProfile) : Prop where
  ordered : p.Ordered
  fits32 : ∀ fc ∈ p.freqCaps, Fits32 fc.lastImpressions
  virtualFits : ∀ fc ∈ p.virtualFreqCaps, ∀ stamp ∈ fc.lastImpressions, Fits31 stamp
  requests : ∀ uc ∈ p.ucFreqCaps, Fits31 uc.time ∧ uc.freqCapIds.Pairwise (· ≤ ·)

theorem kept_empty : UserFreqCapProfile.Kept {} := by
  refine ⟨⟨?_, ?_, ?_, ?_, ?_, ?_, ?_⟩, ?_, ?_, ?_⟩ <;> simp [ById]

variable {p : UserFreqCapProfile} {fc : FreqCap} {cfg : FreqCapConfig} {now : Time}
  {fcs left right : List FreqCap} {imps : Impressions} {freqs : List CampaignFreq}
  {stored : Option UserFreqCapProfile}

theorem stampsOf_eq (sorted : ById p.freqCaps) (mem : fc ∈ p.freqCaps) :
    p.stampsOf fc.fcId = fc.lastImpressions := by
  have found : p.freqCaps.find? (fun other => other.fcId = fc.fcId) = some fc := by
    generalize p.freqCaps = fcs at sorted mem
    induction fcs with
    | nil => simp at mem
    | cons first rest ih =>
      obtain ⟨head, tail⟩ := List.pairwise_cons.1 sorted
      obtain rfl | later := List.mem_cons.1 mem
      · exact List.find?_cons_of_pos (by simp)
      · have lower := head fc later
        rw [List.find?_cons_of_neg (by simpa using lower.ne)]
        exact ih tail later
  rw [UserFreqCapProfile.stampsOf, found]
  rfl

section AddCounters

variable {cfg : FreqCapConfig} {now : Time} {fcs : List FreqCap} {counters : List FreqCapCounter}
  (sorted : ById fcs)
  (countersSorted : counters.Pairwise (fun left right => left.fcId < right.fcId))

include sorted countersSorted

theorem byId_addCounters : ById (addCounters cfg now fcs counters) := by
  apply List.Pairwise.filter
  apply pairwise_mergeUnique
  · exact fun _ => rfl
  · exact fun _ => rfl
  · exact fun _ _ same => rfl
  · exact sorted
  · exact countersSorted

theorem mem_addCounters {fc : FreqCap} (mem : fc ∈ addCounters cfg now fcs counters) :
    fc.fcId ≠ 0 ∧
      ((∃ old ∈ fcs, fc = adapt cfg now old ∧ ∀ counter ∈ counters, old.fcId ≠ counter.fcId) ∨
      (∃ counter ∈ counters, fc = adaptCounter cfg now counter ∧
        ∀ old ∈ fcs, old.fcId ≠ counter.fcId) ∨
      ∃ old ∈ fcs, ∃ counter ∈ counters, old.fcId = counter.fcId ∧
        fc = adapt cfg now (mergeCounter now old counter)) := by
  obtain ⟨merged, nonzero⟩ := List.mem_filter.1 mem
  exact ⟨by simpa using nonzero, mem_mergeUnique sorted countersSorted merged⟩

omit sorted countersSorted in
theorem fcId_mem_addCounters {fcId : Nat} :
    fcId ∈ (addCounters cfg now fcs counters).map FreqCap.fcId ↔
      fcId ≠ 0 ∧ (fcId ∈ fcs.map FreqCap.fcId ∨ fcId ∈ counters.map FreqCapCounter.fcId) := by
  have keys : fcId ∈ (mergeUnique FreqCap.fcId FreqCapCounter.fcId (adapt cfg now)
      (adaptCounter cfg now) (fun fc counter => adapt cfg now (mergeCounter now fc counter)) fcs
      counters).map FreqCap.fcId ↔
      fcId ∈ fcs.map FreqCap.fcId ∨ fcId ∈ counters.map FreqCapCounter.fcId := by
    apply mem_keys_mergeUnique
    · exact fun _ => rfl
    · exact fun _ => rfl
    · exact fun _ _ same => rfl
  rw [← keys, addCounters, List.mem_map, List.mem_map]
  constructor
  · rintro ⟨fc, mem, rfl⟩
    obtain ⟨merged, nonzero⟩ := List.mem_filter.1 mem
    exact ⟨by simpa using nonzero, fc, merged, rfl⟩
  · rintro ⟨nonzero, fc, merged, rfl⟩
    exact ⟨fc, List.mem_filter.2 ⟨merged, by simpa using nonzero⟩, rfl⟩

end AddCounters

/-- The counters find their place. -/
def CountersFit (cfg : FreqCapConfig) (now : Time) (fcs : List FreqCap)
    (counters : List FreqCapCounter) : Prop :=
  ∀ counter ∈ counters, cfg.stamped counter.fcId = true →
    (counter.count = 0 ∨ counter.ucCount = 0) ∧ ∀ old ∈ fcs, old.fcId = counter.fcId →
      Placeable now counter.count counter.ucCount old.lastImpressions

section AddCountersOrder

variable {cfg : FreqCapConfig} {now : Time} {fcs : List FreqCap} {counters : List FreqCapCounter}
  (sorted : ById fcs)
  (countersSorted : counters.Pairwise (fun left right => left.fcId < right.fcId))
  (fits : Fits31 (tvSec now)) (stamps : ∀ fc ∈ fcs, StampsSorted fc.lastImpressions)
  (fits32 : ∀ fc ∈ fcs, Fits32 fc.lastImpressions)

include sorted countersSorted fits stamps fits32

theorem stampsSorted_addCounters (fit : CountersFit cfg now fcs counters) :
    ∀ fc ∈ addCounters cfg now fcs counters, StampsSorted fc.lastImpressions := by
  intro fc mem
  obtain ⟨nonzero, ⟨old, inOld, rfl, -⟩ | ⟨counter, inCounters, rfl, -⟩ |
    ⟨old, inOld, counter, inCounters, same, rfl⟩⟩ := mem_addCounters sorted countersSorted mem
  · exact (stamps old inOld).sublist (adapt_sublist cfg now old)
  · simp only [adaptCounter]
    by_cases keeps : (cfg.findOrGetDefault counter.fcId).keepsStamps
    · have is_stamped : cfg.stamped counter.fcId = true := by
        rw [FreqCapConfig.stamped, keeps, Bool.and_true]
        exact decide_eq_true nonzero
      rw [if_pos keeps]
      obtain none_confirmed | none_unconfirmed := (fit counter inCounters is_stamped).1
      · rw [none_confirmed]
        exact stampsSorted_replicate _ _
      · rw [none_unconfirmed, ucStamps, List.replicate_zero, List.append_nil]
        exact stampsSorted_replicate _ _
    · rw [if_neg keeps]
      exact List.Pairwise.nil
  · by_cases keeps : (cfg.findOrGetDefault counter.fcId).keepsStamps
    · have is_stamped : cfg.stamped counter.fcId = true := by
        rw [FreqCapConfig.stamped, keeps, Bool.and_true]
        exact decide_eq_true nonzero
      have placeable := (fit counter inCounters is_stamped).2 old inOld same
      exact (stampsSorted_mergeStamps fits (fits32 old inOld) (stamps old inOld)
        placeable).sublist (adapt_sublist cfg now _)
    · have none_kept : (cfg.findOrGetDefault counter.fcId).keepsStamps = false := by
        simpa using keeps
      have emptied : (adapt cfg now (mergeCounter now old counter)).lastImpressions = [] :=
        adapt_none none_kept
      rw [emptied]
      exact List.Pairwise.nil

end AddCountersOrder

theorem stamp_mem_addCounters {counters : List FreqCapCounter} (sorted : ById fcs)
    (countersSorted : counters.Pairwise (fun left right => left.fcId < right.fcId))
    (mem : fc ∈ addCounters cfg now fcs counters) {stamp : Nat}
    (stamp_mem : stamp ∈ fc.lastImpressions) :
    (∃ old ∈ fcs, stamp ∈ old.lastImpressions) ∨
      ∃ counter ∈ counters, stamp ∈ confirmedStamps counter.count now ++
        ucStamps counter.ucCount now := by
  obtain ⟨-, ⟨old, inOld, rfl, -⟩ | ⟨counter, inCounters, rfl, -⟩ |
    ⟨old, inOld, counter, inCounters, -, rfl⟩⟩ := mem_addCounters sorted countersSorted mem
  · exact Or.inl ⟨old, inOld, (adapt_sublist cfg now old).mem stamp_mem⟩
  · simp only [adaptCounter] at stamp_mem
    split at stamp_mem
    · exact Or.inr ⟨counter, inCounters, stamp_mem⟩
    · simp at stamp_mem
  · have merged := (mergeStamps_perm now counter.count counter.ucCount old.lastImpressions).mem_iff.1
      ((adapt_sublist cfg now _).mem stamp_mem)
    obtain stored | new := List.mem_append.1 merged
    · exact Or.inl ⟨old, inOld, stored⟩
    · exact Or.inr ⟨counter, inCounters, new⟩

theorem Impressions.Fit.counters (fit : imps.Fit cfg p) (imps_sorted : imps.Sorted)
    (sorted : ById p.freqCaps) :
    CountersFit cfg imps.now p.freqCaps (packBoth imps.cFcs imps.ucFcs) := by
  intro counter mem is_stamped
  obtain ⟨count_eq, uc_eq⟩ := mem_packBoth imps_sorted.cFcs imps_sorted.ucFcs mem
  by_cases inC : counter.fcId ∈ imps.cFcs
  · obtain ⟨not_uc, clear⟩ := fit.confirmed counter.fcId inC is_stamped
    rw [List.count_eq_zero.2 not_uc] at uc_eq
    refine ⟨Or.inr uc_eq, fun old inOld same => ⟨fun _ => ⟨uc_eq, ?_⟩, fun some_uc => ?_⟩⟩
    · rw [← same, stampsOf_eq sorted inOld] at clear
      exact clear
    · exact absurd uc_eq some_uc
  · rw [List.count_eq_zero.2 inC, Nat.zero_add] at count_eq
    by_cases inUc : counter.fcId ∈ imps.ucFcs
    · obtain ⟨once, other⟩ := fit.unconfirmed counter.fcId inUc is_stamped
      rw [once] at count_eq
      refine ⟨Or.inl count_eq, fun old inOld same => ⟨fun some_c => ?_, fun _ => ?_⟩⟩
      · exact absurd count_eq some_c
      · rw [← same, stampsOf_eq sorted inOld] at other
        exact other
    · rw [List.count_eq_zero.2 inUc] at count_eq uc_eq
      exact ⟨Or.inl count_eq, fun old _ _ => ⟨fun some_c => absurd count_eq some_c,
        fun some_uc => absurd uc_eq some_uc⟩⟩

/-- Virtual impressions are confirmed, and so are all the stamps they meet. -/
theorem virtual_countersFit {virtualFcs : List Nat} (sorted : virtualFcs.Pairwise (· ≤ ·))
    (fits : ∀ fc ∈ fcs, ∀ stamp ∈ fc.lastImpressions, Fits31 stamp) :
    CountersFit cfg now fcs (packFreqCaps virtualFcs false) := by
  intro counter mem _
  obtain ⟨-, value⟩ := mem_packFreqCaps sorted false mem
  have none_uc : counter.ucCount = 0 := by
    rw [value]
    rfl
  refine ⟨Or.inr none_uc, fun old inOld _ => ⟨fun _ => ⟨none_uc, ?_⟩, fun some_uc => ?_⟩⟩
  · intro stamp stamp_mem is_uc
    have confirmed := isUc_confirmed (fits old inOld stamp stamp_mem)
    rw [confirmed] at is_uc
    cases is_uc
  · exact absurd none_uc some_uc

/-! ## The requests that wait -/

theorem insertUc_perm (ucFreqCaps : List UcFreqCap) (now : Time) (new : UcFreqCap) :
    (insertUc ucFreqCaps now new).Perm (new :: ucFreqCaps) := by
  have parts := List.takeWhile_append_dropWhile
    (p := fun uc : UcFreqCap => decide (tvSec now < uc.time)) (l := ucFreqCaps.reverse)
  have whole := congrArg List.reverse parts
  rw [List.reverse_append, List.reverse_reverse] at whole
  conv_rhs => rw [← whole]
  exact List.perm_middle

theorem pairwise_insertUc {ucFreqCaps : List UcFreqCap} {new : UcFreqCap}
    (sorted : ucFreqCaps.Pairwise (fun left right => left.time ≤ right.time))
    (time_eq : new.time = tvSec now) :
    (insertUc ucFreqCaps now new).Pairwise (fun left right => left.time ≤ right.time) := by
  have latest_first := List.pairwise_reverse.2 sorted
  have later_first : ucFreqCaps.reverse.Pairwise (fun left right =>
      decide (tvSec now < right.time) = true → decide (tvSec now < left.time) = true) := by
    refine latest_first.imp fun {left right} le later => ?_
    simp only [decide_eq_true_eq] at later ⊢
    omega
  have as_reverse : insertUc ucFreqCaps now new =
      (ucFreqCaps.reverse.takeWhile (fun uc => decide (tvSec now < uc.time)) ++ new ::
        ucFreqCaps.reverse.dropWhile (fun uc => decide (tvSec now < uc.time))).reverse := by
    simp [insertUc]
  rw [as_reverse, List.pairwise_reverse, List.pairwise_append, List.pairwise_cons]
  have not_later (uc : UcFreqCap)
      (mem : uc ∈ ucFreqCaps.reverse.dropWhile (fun uc => decide (tvSec now < uc.time))) :
      uc.time ≤ new.time := by
    have := of_mem_dropWhile later_first mem
    simp only [decide_eq_false_iff_not] at this
    omega
  refine ⟨latest_first.sublist (List.takeWhile_sublist _), ⟨not_later,
    latest_first.sublist (List.dropWhile_sublist _)⟩, fun uc mem other other_mem => ?_⟩
  have later := of_mem_takeWhile mem
  simp only [decide_eq_true_eq] at later
  obtain rfl | earlier := List.mem_cons.1 other_mem
  · omega
  · have := not_later other earlier
    omega

/-! ## Campaigns -/

theorem pairwise_addCampaignImp (campaignId : Nat)
    (sorted : freqs.Pairwise (fun left right => left.campaignId < right.campaignId)) :
    (addCampaignImp freqs campaignId).Pairwise
      (fun left right => left.campaignId < right.campaignId) := by
  have before_first : freqs.Pairwise (fun left right =>
      decide (right.campaignId < campaignId) = true →
        decide (left.campaignId < campaignId) = true) := by
    refine sorted.imp fun {left right} lt less => ?_
    simp only [decide_eq_true_eq] at less ⊢
    omega
  obtain ⟨take_eq, drop_eq⟩ := take_lowerBound before_first
  have inserted (other : ∀ freq ∈ freqs.dropWhile (fun freq => decide (freq.campaignId < campaignId)),
      freq.campaignId ≠ campaignId) :
      (freqs.takeWhile (fun freq => decide (freq.campaignId < campaignId)) ++ ⟨campaignId, 1⟩ ::
        freqs.dropWhile (fun freq => decide (freq.campaignId < campaignId))).Pairwise
          (fun left right => left.campaignId < right.campaignId) := by
    have after (freq : CampaignFreq)
        (mem : freq ∈ freqs.dropWhile (fun freq => decide (freq.campaignId < campaignId))) :
        campaignId < freq.campaignId := by
      have not_before := of_mem_dropWhile before_first mem
      have differs := other freq mem
      simp only [decide_eq_false_iff_not] at not_before
      omega
    rw [List.pairwise_append, List.pairwise_cons]
    refine ⟨sorted.sublist (List.takeWhile_sublist _),
      ⟨after, sorted.sublist (List.dropWhile_sublist _)⟩, fun freq mem new new_mem => ?_⟩
    have before := of_mem_takeWhile mem
    simp only [decide_eq_true_eq] at before
    obtain rfl | later := List.mem_cons.1 new_mem
    · exact before
    · have := after new later
      omega
  simp only [addCampaignImp, take_eq, drop_eq]
  rw [← List.head?_drop, drop_eq]
  cases rest_eq : freqs.dropWhile (fun freq => decide (freq.campaignId < campaignId)) with
  | nil =>
    rw [rest_eq] at inserted
    exact inserted (by simp)
  | cons freq rest =>
    have rest_sorted := sorted.sublist
      (List.dropWhile_sublist (fun freq => decide (freq.campaignId < campaignId)))
    rw [rest_eq] at inserted rest_sorted
    obtain ⟨head, -⟩ := List.pairwise_cons.1 rest_sorted
    simp only [List.head?_cons]
    by_cases same : freq.campaignId = campaignId
    · rw [if_pos same]
      -- the ids do not change
      have at_freq : freqs[lowerBound (fun freq => decide (freq.campaignId < campaignId)) freqs]? =
          some freq := by
        rw [← List.head?_drop, drop_eq, rest_eq]
        rfl
      have ids := List.pairwise_map (f := CampaignFreq.campaignId) (R := (· < ·)) (l := freqs)
      rw [← List.pairwise_map (f := CampaignFreq.campaignId) (R := (· < ·)), List.map_set]
      obtain ⟨bound, eq⟩ := List.getElem?_eq_some_iff.1 at_freq
      have unchanged : (freqs.map CampaignFreq.campaignId).set
          (lowerBound (fun freq => decide (freq.campaignId < campaignId)) freqs)
          freq.campaignId = freqs.map CampaignFreq.campaignId := by
        have inside : lowerBound (fun freq => decide (freq.campaignId < campaignId)) freqs <
            (freqs.map CampaignFreq.campaignId).length := by simpa using bound
        refine Eq.trans ?_ (List.set_getElem_self inside)
        simp [eq]
      rw [unchanged]
      exact ids.2 sorted
    · rw [if_neg same]
      apply inserted
      intro other mem
      obtain rfl | later := List.mem_cons.1 mem
      · exact same
      · have lower := head other later
        have not_before : ¬ freq.campaignId < campaignId := by
          have := of_mem_dropWhile before_first (a := freq) (by rw [rest_eq]; simp)
          simpa using this
        omega

theorem pairwise_foldl_addCampaignImp (imps : List Nat)
    (sorted : freqs.Pairwise (fun left right => left.campaignId < right.campaignId)) :
    (imps.foldl addCampaignImp freqs).Pairwise
      (fun left right => left.campaignId < right.campaignId) := by
  induction imps generalizing freqs with
  | nil => exact sorted
  | cons campaignId imps ih => exact ih (pairwise_addCampaignImp campaignId sorted)

section Kept

variable {cfg : FreqCapConfig} {p : UserFreqCapProfile} (h : p.Kept)

include h

theorem updateCampaignFreq_kept (imps : List Nat) : (updateCampaignFreq imps p).Kept :=
  ⟨{ h.ordered with
      campaignFreqs := pairwise_foldl_addCampaignImp imps h.ordered.campaignFreqs },
    h.fits32, h.virtualFits, h.requests⟩

theorem cleanUpCampaignFreqs_kept : (cleanUpCampaignFreqs cfg p).Kept :=
  ⟨{ h.ordered with campaignFreqs := h.ordered.campaignFreqs.filter _ },
    h.fits32, h.virtualFits, h.requests⟩

variable {expired : List UcFreqCap} {imps : Impressions}

section
variable (sub : expired.Sublist p.ucFreqCaps)
include sub

theorem decreases_fit :
    (∀ dec ∈ (countDecreases expired).entries, 0 < dec.2) ∧
      ∀ dec ∈ (countDecreases expired).entries, Fits31 (Decrease.time dec) := by
  refine ⟨fun dec mem => (countDecreases_entries mem).1, fun dec mem => ?_⟩
  obtain ⟨-, uc, inExpired, time_eq⟩ := countDecreases_entries mem
  rw [time_eq]
  exact (h.requests uc (sub.mem inExpired)).1

theorem mem_applyDecreases {left : FreqCap}
    (mem : left ∈ applyDecreases (countDecreases expired).entries p.freqCaps) :
    ∃ fc ∈ p.freqCaps, left.fcId = fc.fcId ∧
      left.totalImpressions = fc.totalImpressions -
        takenBack fc.fcId (countDecreases expired).entries ∧
      left.lastImpressions.Sublist fc.lastImpressions ∧
      ∀ stamp, left.lastImpressions.count stamp = fc.lastImpressions.count stamp -
        takenStamps fc.fcId stamp (countDecreases expired).entries := by
  rw [applyDecreases_eq (countDecreases_sorted expired) h.ordered.freqCaps] at mem
  obtain ⟨fc, inFcs, eq⟩ := List.mem_filterMap.1 mem
  obtain ⟨positive, fits⟩ := decreases_fit h sub
  exact ⟨fc, inFcs, decreaseBy_some positive fits (h.ordered.stamps fc inFcs)
    (h.fits32 fc inFcs) eq⟩

theorem byId_applyDecreases :
    ById (applyDecreases (countDecreases expired).entries p.freqCaps) := by
  obtain ⟨positive, fits⟩ := decreases_fit h sub
  rw [applyDecreases_eq (countDecreases_sorted expired) h.ordered.freqCaps]
  have with_mem := List.Pairwise.and_mem.1 h.ordered.freqCaps
  refine with_mem.filterMap _ fun fc fc' ⟨mem, mem', lt⟩ left eq left' eq' => ?_
  have same := (decreaseBy_some positive fits (h.ordered.stamps fc mem) (h.fits32 fc mem) eq).1
  have same' :=
    (decreaseBy_some positive fits (h.ordered.stamps fc' mem') (h.fits32 fc' mem') eq').1
  rwa [same, same']

end

theorem cleanUp_kept (lowBound : Time) : (cleanUp p lowBound).Kept := by
  have sub := List.takeWhile_sublist (l := p.ucFreqCaps) (isExpired lowBound)
  have rest := List.dropWhile_sublist (l := p.ucFreqCaps) (isExpired lowBound)
  refine ⟨{ h.ordered with
    freqCaps := byId_applyDecreases h sub
    ucFreqCaps := h.ordered.ucFreqCaps.sublist rest
    stamps := fun left mem => ?_ }, fun left mem => ?_, h.virtualFits,
    fun uc mem => h.requests uc (rest.mem mem)⟩
  · obtain ⟨fc, inFcs, -, -, stamps_sub, -⟩ := mem_applyDecreases h sub mem
    exact (h.ordered.stamps fc inFcs).sublist stamps_sub
  · obtain ⟨fc, inFcs, -, -, stamps_sub, -⟩ := mem_applyDecreases h sub mem
    exact fun stamp stamp_mem => h.fits32 fc inFcs stamp (stamps_sub.mem stamp_mem)

theorem cleanUpIfTimedOut_kept (now : Time) : (cleanUpIfTimedOut cfg now p).Kept := by
  unfold cleanUpIfTimedOut
  split
  · exact cleanUp_kept h _
  · exact h

theorem addRequest_kept (imps_sorted : imps.Sorted) (fits : Fits31 (tvSec imps.now)) :
    (addRequest imps p).Kept := by
  unfold addRequest
  split
  · exact h
  · next requestId _ =>
    split
    · exact h
    · have time_eq := toUint_eq fits
      refine ⟨{ h.ordered with ucFreqCaps := pairwise_insertUc h.ordered.ucFreqCaps time_eq },
        h.fits32, h.virtualFits, fun uc mem => ?_⟩
      obtain rfl | stored := List.mem_cons.1 ((insertUc_perm _ _ _).mem_iff.1 mem)
      · exact ⟨time_eq.symm ▸ fits, imps_sorted.ucFcs⟩
      · exact h.requests uc stored

theorem addCounters_kept (imps_sorted : imps.Sorted) (fit : imps.Fit cfg p) :
    UserFreqCapProfile.Kept { p with
      freqCaps := addCounters cfg imps.now p.freqCaps (packBoth imps.cFcs imps.ucFcs)
      virtualFreqCaps := addCounters cfg imps.now p.virtualFreqCaps
        (packFreqCaps imps.virtualFcs false) } := by
  have counters := pairwise_packBoth imps_sorted.cFcs imps_sorted.ucFcs
  have virtualCounters := pairwise_packFreqCaps imps_sorted.virtualFcs false
  have virtual32 : ∀ fc ∈ p.virtualFreqCaps, Fits32 fc.lastImpressions := by
    intro fc mem stamp stamp_mem
    have := h.virtualFits fc mem stamp stamp_mem
    unfold Fits31 at this
    omega
  refine ⟨{ h.ordered with
    freqCaps := byId_addCounters h.ordered.freqCaps counters
    virtualFreqCaps := byId_addCounters h.ordered.virtualFreqCaps virtualCounters
    stamps := stampsSorted_addCounters h.ordered.freqCaps counters fit.time h.ordered.stamps
      h.fits32 (fit.counters imps_sorted h.ordered.freqCaps)
    virtualStamps := stampsSorted_addCounters h.ordered.virtualFreqCaps virtualCounters fit.time
      h.ordered.virtualStamps virtual32 (virtual_countersFit imps_sorted.virtualFcs h.virtualFits) },
    fun fc mem stamp stamp_mem => ?_, fun fc mem stamp stamp_mem => ?_, h.requests⟩
  · obtain ⟨old, inOld, stored⟩ | ⟨counter, -, new⟩ :=
      stamp_mem_addCounters h.ordered.freqCaps counters mem stamp_mem
    · exact h.fits32 old inOld stamp stored
    · simp only [List.mem_append, confirmedStamps, ucStamps, List.mem_replicate] at new
      obtain ⟨-, rfl⟩ | ⟨-, rfl⟩ := new
      · exact toUint_lt _
      · exact toUcTimestamp_lt _
  · obtain ⟨old, inOld, stored⟩ | ⟨counter, inCounters, new⟩ :=
      stamp_mem_addCounters h.ordered.virtualFreqCaps virtualCounters mem stamp_mem
    · exact h.virtualFits old inOld stamp stored
    · obtain ⟨-, value⟩ := mem_packFreqCaps imps_sorted.virtualFcs false inCounters
      have none_uc : counter.ucCount = 0 := by
        rw [value]
        rfl
      rw [none_uc, ucStamps, List.replicate_zero, List.append_nil] at new
      obtain ⟨-, rfl⟩ := List.mem_replicate.1 new
      rw [toUint_eq fit.time]
      exact fit.time

theorem confirmPending_kept {now : Time} {requestId : String} {confirmed : UserFreqCapProfile}
    (found : confirmPending cfg now requestId p = some confirmed) : confirmed.Kept := by
  obtain ⟨uc, pending, rfl⟩ := Option.map_eq_some_iff.1 found
  obtain ⟨fits, idsSorted⟩ := h.requests uc (List.mem_of_find?_eq_some pending)
  apply updateCampaignFreq_kept
  rw [confirmFreqCaps_eq cfg now uc.time idsSorted h.ordered.freqCaps]
  have erased := List.eraseP_sublist (p := fun uc => decide (requestId = uc.requestId))
    (l := p.ucFreqCaps)
  -- the stamps of a freq cap after the walk
  have stamps_of (fc : FreqCap) (mem : fc ∈ p.freqCaps) :
      StampsSorted (if fc.fcId ∈ uc.freqCapIds then confirmFreqCap cfg now uc.time fc
        else fc).lastImpressions ∧
      Fits32 (if fc.fcId ∈ uc.freqCapIds then confirmFreqCap cfg now uc.time fc
        else fc).lastImpressions := by
    have sorted := h.ordered.stamps fc mem
    have fits32 := h.fits32 fc mem
    split
    · have sub := adapt_sublist cfg now
        { fc with lastImpressions := confirmStamp fc.lastImpressions uc.time }
      exact ⟨(stampsSorted_confirmStamp sorted fits32 fits).sublist sub,
        fun stamp stamp_mem => fits32_confirmStamp sorted fits32 fits stamp (sub.mem stamp_mem)⟩
    · exact ⟨sorted, fits32⟩
  refine ⟨{ h.ordered with
    freqCaps := ?_
    ucFreqCaps := h.ordered.ucFreqCaps.sublist erased
    stamps := fun fc mem => ?_ }, fun fc mem => ?_, h.virtualFits,
    fun other mem => h.requests other (erased.mem mem)⟩
  · refine List.pairwise_map.2 (h.ordered.freqCaps.imp fun {left right} lt => ?_)
    have same (fc : FreqCap) : (if fc.fcId ∈ uc.freqCapIds then confirmFreqCap cfg now uc.time fc
        else fc).fcId = fc.fcId := by split <;> rfl
    rwa [same, same]
  · obtain ⟨old, inOld, rfl⟩ := List.mem_map.1 mem
    exact (stamps_of old inOld).1
  · obtain ⟨old, inOld, rfl⟩ := List.mem_map.1 mem
    exact (stamps_of old inOld).2

end Kept

/-! ## The operations -/

section
variable (h : ∀ p ∈ stored, p.Kept)
include h

theorem getD_kept : (stored.getD {}).Kept := by
  cases stored with
  | none => exact kept_empty
  | some p => exact h p rfl

theorem consider_kept (imps_sorted : imps.Sorted) (fit : imps.Fit cfg (stored.getD {})) :
    (consider cfg stored imps).Kept := by
  have counted := addCounters_kept (getD_kept h) imps_sorted fit
  have requested := addRequest_kept counted imps_sorted fit.time
  have cleaned : (cleanUpCampaignFreqs cfg _).Kept :=
    cleanUpCampaignFreqs_kept (updateCampaignFreq_kept requested imps.campaignIds)
  apply cleanUpIfTimedOut_kept
  exact ⟨{ cleaned.ordered with }, cleaned.fits32, cleaned.virtualFits, cleaned.requests⟩

theorem confirmRequest_kept (requestId : String) (now : Time) :
    ∀ p ∈ (confirmRequest cfg stored requestId now).1, p.Kept := by
  intro p mem
  cases stored with
  | none => cases mem
  | some old =>
    have confirmed_kept :
        ((confirmPending cfg now requestId old).getD old).Kept := by
      cases found : confirmPending cfg now requestId old with
      | none => exact h old rfl
      | some confirmed => exact confirmPending_kept (h old rfl) found
    simp only [confirmRequest] at mem
    split at mem
    · obtain rfl := Option.some.inj mem
      exact cleanUpCampaignFreqs_kept (cleanUpIfTimedOut_kept confirmed_kept now)
    · exact h p mem

theorem full_kept (now : Time) : ∀ p ∈ (full cfg stored now).1, p.Kept := by
  intro p mem
  cases stored with
  | none => cases mem
  | some old =>
    obtain rfl := Option.some.inj mem
    split
    · exact cleanUpCampaignFreqs_kept (cleanUp_kept (h old rfl) _)
    · exact h old rfl

end

theorem mem_mergeFreqCaps (leftSorted : ById left) (rightSorted : ById right)
    (mem : fc ∈ mergeFreqCaps cfg now left right) :
    (∃ l ∈ left, fc.lastImpressions.Sublist l.lastImpressions) ∨
      (∃ r ∈ right, fc.lastImpressions.Sublist r.lastImpressions) ∨
      ∃ l ∈ left, ∃ r ∈ right, fc.lastImpressions.Sublist
        (mergeImpressions l.lastImpressions r.lastImpressions) := by
  obtain ⟨l, inLeft, rfl, -⟩ | ⟨r, inRight, rfl, -⟩ | ⟨l, inLeft, r, inRight, -, rfl⟩ :=
    mem_mergeUnique leftSorted rightSorted mem
  · exact Or.inl ⟨l, inLeft, adapt_sublist cfg now l⟩
  · exact Or.inr (Or.inl ⟨r, inRight, adapt_sublist cfg now r⟩)
  · exact Or.inr (Or.inr ⟨l, inLeft, r, inRight, adapt_sublist cfg now (mergeFreqCap l r)⟩)

theorem byId_mergeFreqCaps (leftSorted : ById left) (rightSorted : ById right) :
    ById (mergeFreqCaps cfg now left right) := by
  unfold mergeFreqCaps
  apply pairwise_mergeUnique
  · exact fun _ => rfl
  · exact fun _ => rfl
  · exact fun _ _ same => same
  · exact leftSorted
  · exact rightSorted

theorem stampsSorted_mergeImpressions {left right : List Nat} (leftSorted : StampsSorted left)
    (rightSorted : StampsSorted right) : StampsSorted (mergeImpressions left right) := by
  rw [stampsSorted_iff] at leftSorted rightSorted ⊢
  apply pairwise_merge_of
  · exact fun _ _ _ => Nat.le_trans
  · intro left right first
    have not_less := (lastImpLess_iff right left).not.1 (by simpa using first)
    omega
  · intro left right second
    have less := (lastImpLess_iff right left).1 (by simpa using second)
    omega
  · exact leftSorted
  · exact rightSorted

theorem stampsSorted_mergeFreqCaps (leftSorted : ById left) (rightSorted : ById right)
    (leftStamps : ∀ fc ∈ left, StampsSorted fc.lastImpressions)
    (rightStamps : ∀ fc ∈ right, StampsSorted fc.lastImpressions) :
    ∀ fc ∈ mergeFreqCaps cfg now left right, StampsSorted fc.lastImpressions := by
  intro fc mem
  obtain ⟨l, inLeft, sub⟩ | ⟨r, inRight, sub⟩ | ⟨l, inLeft, r, inRight, sub⟩ :=
    mem_mergeFreqCaps leftSorted rightSorted mem
  · exact (leftStamps l inLeft).sublist sub
  · exact (rightStamps r inRight).sublist sub
  · exact (stampsSorted_mergeImpressions (leftStamps l inLeft) (rightStamps r inRight)).sublist sub

theorem forall_stamps_mergeFreqCaps (leftSorted : ById left) (rightSorted : ById right)
    {good : Nat → Prop} (leftGood : ∀ fc ∈ left, ∀ stamp ∈ fc.lastImpressions, good stamp)
    (rightGood : ∀ fc ∈ right, ∀ stamp ∈ fc.lastImpressions, good stamp) :
    ∀ fc ∈ mergeFreqCaps cfg now left right, ∀ stamp ∈ fc.lastImpressions, good stamp := by
  intro fc mem stamp stamp_mem
  obtain ⟨l, inLeft, sub⟩ | ⟨r, inRight, sub⟩ | ⟨l, inLeft, r, inRight, sub⟩ :=
    mem_mergeFreqCaps leftSorted rightSorted mem
  · exact leftGood l inLeft stamp (sub.mem stamp_mem)
  · exact rightGood r inRight stamp (sub.mem stamp_mem)
  · obtain stored | stored := List.mem_merge.1 (sub.mem stamp_mem)
    · exact leftGood l inLeft stamp stored
    · exact rightGood r inRight stamp stored

theorem merge_kept {stored other : Option UserFreqCapProfile} (h : ∀ p ∈ stored, p.Kept)
    (hother : ∀ p ∈ other, p.Kept) (now : Time) : ∀ p ∈ merge cfg stored other now, p.Kept := by
  intro p mem
  cases other with
  | none => exact h p mem
  | some r =>
    cases stored with
    | none => exact hother p mem
    | some l =>
      obtain rfl := Option.some.inj mem
      have left := h l rfl
      have right := hother r rfl
      apply cleanUpIfTimedOut_kept
      apply cleanUpCampaignFreqs_kept
      refine ⟨⟨?_, ?_, ?_, ?_, ?_, ?_, ?_⟩, ?_, ?_, ?_⟩
      · exact byId_mergeFreqCaps left.ordered.freqCaps right.ordered.freqCaps
      · exact byId_mergeFreqCaps left.ordered.virtualFreqCaps right.ordered.virtualFreqCaps
      · apply pairwise_mergeUnique
        · exact fun _ => rfl
        · exact fun _ => rfl
        · exact fun _ _ same => same
        · exact left.ordered.publisherAccounts
        · exact right.ordered.publisherAccounts
      · apply pairwise_mergeUnique
        · exact fun _ => rfl
        · exact fun _ => rfl
        · exact fun _ _ same => same
        · exact left.ordered.campaignFreqs
        · exact right.ordered.campaignFreqs
      · apply pairwise_merge_of
        · exact fun _ _ _ => Nat.le_trans
        · intro a b first
          simp only [ucFreqCapLess, Bool.not_eq_true', Bool.or_eq_false_iff,
            decide_eq_false_iff_not] at first
          exact Nat.not_lt.1 first.1
        · intro a b second
          simp only [ucFreqCapLess, Bool.not_eq_false', Bool.or_eq_true, Bool.and_eq_true,
            decide_eq_true_eq] at second
          obtain earlier | ⟨same, -⟩ := second
          · exact earlier.le
          · exact same.le
        · exact left.ordered.ucFreqCaps
        · exact right.ordered.ucFreqCaps
      · exact stampsSorted_mergeFreqCaps left.ordered.freqCaps right.ordered.freqCaps
          left.ordered.stamps right.ordered.stamps
      · exact stampsSorted_mergeFreqCaps left.ordered.virtualFreqCaps
          right.ordered.virtualFreqCaps left.ordered.virtualStamps right.ordered.virtualStamps
      · exact forall_stamps_mergeFreqCaps left.ordered.freqCaps right.ordered.freqCaps
          left.fits32 right.fits32
      · exact forall_stamps_mergeFreqCaps left.ordered.virtualFreqCaps
          right.ordered.virtualFreqCaps left.virtualFits right.virtualFits
      · intro uc uc_mem
        obtain stored | stored := List.mem_merge.1 uc_mem
        · exact left.requests uc stored
        · exact right.requests uc stored

theorem considerPublishersOptin_kept (h : ∀ p ∈ stored, p.Kept) {publisherAccountIds : List Nat}
    (sorted : publisherAccountIds.Pairwise (· < ·)) (timestamp : Time) :
    ∀ p ∈ (considerPublishersOptin stored publisherAccountIds timestamp).1, p.Kept := by
  intro p mem
  unfold considerPublishersOptin at mem
  split at mem
  · exact h p mem
  · obtain rfl := Option.some.inj mem
    have old := getD_kept h
    refine ⟨{ old.ordered with publisherAccounts := ?_ }, old.fits32, old.virtualFits, old.requests⟩
    apply pairwise_mergeUnique
    · exact fun _ => rfl
    · exact fun _ => rfl
    · exact fun _ _ same => same
    · exact old.ordered.publisherAccounts
    · exact sorted

/-! ## Whole runs -/

/-- The profiles that can be stored, the impressions considered being `ok`. -/
inductive Built (cfg : FreqCapConfig) (ok : UserFreqCapProfile → Impressions → Prop) :
    Option UserFreqCapProfile → Prop
  | empty : Built cfg ok none
  | consider {stored : Option UserFreqCapProfile} {imps : Impressions} (built : Built cfg ok stored)
      (sorted : imps.Sorted) (fine : ok (stored.getD {}) imps) :
      Built cfg ok (some (consider cfg stored imps))
  | confirmRequest {stored : Option UserFreqCapProfile} (requestId : String) (now : Time)
      (built : Built cfg ok stored) : Built cfg ok (confirmRequest cfg stored requestId now).1
  | full {stored : Option UserFreqCapProfile} (now : Time) (built : Built cfg ok stored) :
      Built cfg ok (full cfg stored now).1
  | merge {stored other : Option UserFreqCapProfile} (now : Time) (built : Built cfg ok stored)
      (builtOther : Built cfg ok other) : Built cfg ok (merge cfg stored other now)
  | considerPublishersOptin {stored : Option UserFreqCapProfile} {publisherAccountIds : List Nat}
      (timestamp : Time) (built : Built cfg ok stored)
      (sorted : publisherAccountIds.Pairwise (· < ·)) :
      Built cfg ok (considerPublishersOptin stored publisherAccountIds timestamp).1

theorem Built.kept (built : Built cfg (fun p imps => imps.Fit cfg p) stored) :
    ∀ p ∈ stored, p.Kept := by
  induction built with
  | empty => simp
  | consider _ sorted fit ih =>
    intro p mem
    obtain rfl := Option.some.inj mem
    exact consider_kept ih sorted fit
  | confirmRequest requestId now _ ih => exact confirmRequest_kept ih requestId now
  | full now _ ih => exact full_kept ih now
  | merge now _ _ ih ihOther => exact merge_kept ih ihOther now
  | considerPublishersOptin timestamp _ sorted ih =>
    exact considerPublishersOptin_kept ih sorted timestamp

/-- Where all impressions find their place, whatever the operations and their
times, the profile is ordered. -/
theorem built_ordered {cfg : FreqCapConfig} {p : UserFreqCapProfile}
    (built : Built cfg (fun p imps => imps.Fit cfg p) (some p)) : p.Ordered :=
  (built.kept p rfl).ordered

/-! An impression that waits for its confirmation and one of a later second. -/

def noCapsConfigured : FreqCapConfig := ⟨60 * second, SortedMap.empty, []⟩

def waitingImps : Impressions :=
  { requestId := some "first", now := 100 * second, cFcs := [], ucFcs := [5] }

def laterImps : Impressions :=
  { requestId := some "second", now := 120 * second, cFcs := [5], ucFcs := [] }

/-- Confirmed first, the two are in order. -/
theorem confirmedBetween_ordered :
    (consider noCapsConfigured
      (confirmRequest noCapsConfigured (some (consider noCapsConfigured none waitingImps))
        "first" (110 * second)).1 laterImps).Ordered :=
  built_ordered (.consider (.confirmRequest "first" (110 * second)
    (.consider .empty (by decide) (by decide +kernel))) (by decide) (by decide +kernel))

/-- The later impression is put before the one that waits. -/
theorem waitingThenConfirmed_unordered : ¬ ∀ (cfg : FreqCapConfig) (p : UserFreqCapProfile),
    Built cfg (fun _ _ => True) (some p) → p.Ordered := by
  intro always
  have ordered := always noCapsConfigured _
    (.consider (.consider .empty (by decide : waitingImps.Sorted) trivial)
      (by decide : laterImps.Sorted) trivial)
  have stamps_of : (consider noCapsConfigured
      (some (consider noCapsConfigured none waitingImps)) laterImps).freqCaps =
      [⟨5, 2, [120, toUcTimestamp 100]⟩] := by decide +kernel
  have misplaced := ordered.stamps ⟨5, 2, [120, toUcTimestamp 100]⟩ (by simp [stamps_of])
  revert misplaced
  decide

end AdServer.UserInfo
