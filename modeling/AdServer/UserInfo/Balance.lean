import AdServer.UserInfo.ProfileOrder

/-!
# The balance of a freq cap

The total of a freq cap is what has been counted for good, the settled
impressions, and what still waits for a confirmation, the pending ones. Stamps
marked unconfirmed are pending impressions, the others settled ones.
-/

namespace AdServer.UserInfo

open AdServer.Lib

/-- The impressions of a request: ids and second. -/
def impsAt (fcIds : List Nat) (time : Nat) : List (Nat × Nat) :=
  fcIds.map fun fcId => (fcId, time)

/-- How many of the impressions are of the freq cap. -/
def countFc (fcId : Nat) (imps : List (Nat × Nat)) : Nat := imps.countP (fun imp => imp.1 = fcId)

theorem countFc_append (fcId : Nat) (imps imps' : List (Nat × Nat)) :
    countFc fcId (imps ++ imps') = countFc fcId imps + countFc fcId imps' :=
  List.countP_append

theorem countFc_impsAt (fcId : Nat) (fcIds : List Nat) (time : Nat) :
    countFc fcId (impsAt fcIds time) = fcIds.count fcId := by
  rw [countFc, impsAt, List.countP_map, List.count_eq_countP]
  congr 1

theorem count_impsAt (fcId second : Nat) (fcIds : List Nat) (time : Nat) :
    (impsAt fcIds time).count (fcId, second) = if second = time then fcIds.count fcId else 0 := by
  induction fcIds with
  | nil => simp [impsAt]
  | cons first rest ih =>
    have cons_eq : impsAt (first :: rest) time = (first, time) :: impsAt rest time := rfl
    rw [cons_eq, List.count_cons, ih, List.count_cons]
    by_cases same : second = time
    · by_cases is_first : first = fcId <;> simp [same, is_first]
    · simp [same, Ne.symm same]

/-- The freq caps show the settled and the pending impressions. -/
structure Balanced (cfg : FreqCapConfig) (fcs : List FreqCap) (settled pending : List (Nat × Nat)) :
    Prop where
  nonzero : ∀ fc ∈ fcs, fc.fcId ≠ 0
  totals : ∀ fc ∈ fcs, fc.totalImpressions = countFc fc.fcId settled + countFc fc.fcId pending
  present : ∀ imp ∈ settled ++ pending, imp.1 ≠ 0 → imp.1 ∈ fcs.map FreqCap.fcId
  bare : ∀ fc ∈ fcs, cfg.stamped fc.fcId = false → fc.lastImpressions = []
  stamps : ∀ fc ∈ fcs, ∀ stamp, fc.lastImpressions.count stamp ≤
    (if isUcTimestamp stamp then pending else settled).count
      (fc.fcId, normalizeImpressionTimestamp stamp)

theorem balanced_nil (cfg : FreqCapConfig) : Balanced cfg [] [] [] := by
  constructor <;> simp

variable {cfg : FreqCapConfig} {fcs : List FreqCap} {settled pending rest : List (Nat × Nat)}
  {now : Time} {p : UserFreqCapProfile}

theorem Balanced.perm {settled settled' pending pending' : List (Nat × Nat)}
    (h : Balanced cfg fcs settled pending) (perm : settled.Perm settled')
    (perm' : pending.Perm pending') : Balanced cfg fcs settled' pending' := by
  refine ⟨h.nonzero, fun fc mem => ?_, fun imp mem => ?_, h.bare, fun fc mem stamp => ?_⟩
  · rw [h.totals fc mem, countFc, countFc, perm.countP_eq, perm'.countP_eq]
    rfl
  · exact h.present imp ((perm.append perm').mem_iff.2 mem)
  · have bound := h.stamps fc mem stamp
    split at bound <;> rename_i uc
    · rwa [if_pos uc, ← perm'.count_eq]
    · rwa [if_neg uc, ← perm.count_eq]

/-- A freq cap and a counter put together; where one of them is missing it
counts nothing. -/
theorem addCounters_counts {counters : List FreqCapCounter} (sorted : ById fcs)
    (countersSorted : counters.Pairwise (fun left right => left.fcId < right.fcId)) {fc : FreqCap}
    (mem : fc ∈ addCounters cfg now fcs counters) : fc.fcId ≠ 0 ∧
      ∃ (old : FreqCap) (counter : FreqCapCounter), old.fcId = fc.fcId ∧ counter.fcId = fc.fcId ∧
        (old ∈ fcs ∨ old = ⟨fc.fcId, 0, []⟩ ∧ fc.fcId ∉ fcs.map FreqCap.fcId) ∧
        (counter ∈ counters ∨ counter = ⟨fc.fcId, 0, 0⟩ ∧
          fc.fcId ∉ counters.map FreqCapCounter.fcId) ∧
        fc.totalImpressions = old.totalImpressions + counter.count + counter.ucCount ∧
        (∀ stamp, fc.lastImpressions.count stamp ≤ (old.lastImpressions ++
          (confirmedStamps counter.count now ++ ucStamps counter.ucCount now)).count stamp) ∧
        ((cfg.findOrGetDefault fc.fcId).keepsStamps = false → fc.lastImpressions = []) := by
  obtain ⟨nonzero, sources⟩ := mem_addCounters sorted countersSorted mem
  refine ⟨nonzero, ?_⟩
  obtain ⟨old, inOld, rfl, no⟩ | ⟨counter, inCounters, rfl, no⟩ |
    ⟨old, inOld, counter, inCounters, same, rfl⟩ := sources
  · have emptied : (cfg.findOrGetDefault old.fcId).keepsStamps = false →
        (adapt cfg now old).lastImpressions = [] := adapt_none
    refine ⟨old, ⟨old.fcId, 0, 0⟩, rfl, rfl, Or.inl inOld, Or.inr ⟨rfl, ?_⟩, rfl,
      fun stamp => ?_, emptied⟩
    · intro present
      obtain ⟨counter, inCounters, eq⟩ := List.mem_map.1 present
      exact no counter inCounters eq.symm
    · rw [List.count_append]
      exact Nat.le_add_right_of_le ((adapt_sublist cfg now old).count_le stamp)
  · refine ⟨⟨counter.fcId, 0, []⟩, counter, rfl, rfl, Or.inr ⟨rfl, ?_⟩, Or.inl inCounters, ?_,
      fun stamp => ?_, fun none_kept => ?_⟩
    · intro present
      obtain ⟨old, inOld, eq⟩ := List.mem_map.1 present
      exact no old inOld eq
    · simp only [adaptCounter]
      omega
    · simp only [adaptCounter, List.nil_append]
      split
      · exact Nat.le_refl _
      · simp
    · have off : (cfg.findOrGetDefault counter.fcId).keepsStamps = false := none_kept
      simp only [adaptCounter, off, Bool.false_eq_true, if_false]
  · have emptied : (cfg.findOrGetDefault counter.fcId).keepsStamps = false →
        (adapt cfg now (mergeCounter now old counter)).lastImpressions = [] :=
      fun none_kept => adapt_none none_kept
    refine ⟨old, counter, same, rfl, Or.inl inOld, Or.inl inCounters, rfl, fun stamp => ?_,
      emptied⟩
    rw [← (mergeStamps_perm now counter.count counter.ucCount old.lastImpressions).count_eq]
    exact (adapt_sublist cfg now (mergeCounter now old counter)).count_le stamp

/-- The impressions of a request are added: the confirmed ones are settled, the
others pending. -/
theorem balanced_addCounters {imps : Impressions} (h : Balanced cfg p.freqCaps settled pending)
    (sorted : ById p.freqCaps) (imps_sorted : imps.Sorted) (fit : imps.Fit cfg p) :
    Balanced cfg (addCounters cfg imps.now p.freqCaps (packBoth imps.cFcs imps.ucFcs))
      (settled ++ impsAt imps.cFcs (tvSec imps.now))
      (pending ++ impsAt imps.ucFcs (tvSec imps.now)) := by
  have counters := pairwise_packBoth imps_sorted.cFcs imps_sorted.ucFcs
  -- what a counter counts, where it may be missing
  have counted {fcId : Nat} {counter : FreqCapCounter} (id_eq : counter.fcId = fcId)
      (source : counter ∈ packBoth imps.cFcs imps.ucFcs ∨ counter = ⟨fcId, 0, 0⟩ ∧
        fcId ∉ (packBoth imps.cFcs imps.ucFcs).map FreqCapCounter.fcId) :
      counter.count = imps.cFcs.count fcId + (imps.ucFcs.count fcId - 1) ∧
        counter.ucCount = min 1 (imps.ucFcs.count fcId) := by
    obtain inCounters | ⟨rfl, absent⟩ := source
    · exact id_eq ▸ mem_packBoth imps_sorted.cFcs imps_sorted.ucFcs inCounters
    · rw [fcId_mem_packBoth imps_sorted.cFcs imps_sorted.ucFcs, not_or] at absent
      rw [List.count_eq_zero.2 absent.1, List.count_eq_zero.2 absent.2]
      exact ⟨rfl, rfl⟩
  refine ⟨fun fc mem => ?_, fun fc mem => ?_, fun imp mem nonzero => ?_, fun fc mem off => ?_,
    fun fc mem stamp => ?_⟩
  · exact (addCounters_counts sorted counters mem).1
  · obtain ⟨nonzero, old, counter, old_id, counter_id, old_source, counter_source, total_eq, -, -⟩ :=
      addCounters_counts sorted counters mem
    obtain ⟨count_eq, uc_eq⟩ := counted counter_id counter_source
    have old_total : old.totalImpressions = countFc fc.fcId settled + countFc fc.fcId pending := by
      obtain inOld | ⟨rfl, absent⟩ := old_source
      · rw [← old_id]
        exact h.totals old inOld
      · have none_of (imps : List (Nat × Nat)) (sub : ∀ imp ∈ imps, imp ∈ settled ++ pending) :
            countFc fc.fcId imps = 0 := by
          rw [countFc, List.countP_eq_zero]
          intro imp imp_mem same
          simp only [decide_eq_true_eq] at same
          exact absent (same ▸ h.present imp (sub imp imp_mem) (same ▸ nonzero))
        rw [none_of settled fun imp => List.mem_append_left _,
          none_of pending fun imp => List.mem_append_right _]
    rw [countFc_append, countFc_append, countFc_impsAt, countFc_impsAt, total_eq, old_total]
    omega
  · rw [fcId_mem_addCounters, fcId_mem_packBoth imps_sorted.cFcs imps_sorted.ucFcs]
    refine ⟨nonzero, ?_⟩
    simp only [List.mem_append] at mem
    have listed {fcIds : List Nat} (new : imp ∈ impsAt fcIds (tvSec imps.now)) : imp.1 ∈ fcIds := by
      obtain ⟨fcId, inIds, rfl⟩ := List.mem_map.1 new
      exact inIds
    obtain (stored | new) | (stored | new) := mem
    · exact Or.inl (h.present imp (List.mem_append_left _ stored) nonzero)
    · exact Or.inr (Or.inl (listed new))
    · exact Or.inl (h.present imp (List.mem_append_right _ stored) nonzero)
    · exact Or.inr (Or.inr (listed new))
  · obtain ⟨nonzero, _, _, -, -, -, -, -, -, none_kept⟩ := addCounters_counts sorted counters mem
    simp only [FreqCapConfig.stamped, decide_eq_true nonzero, Bool.true_and] at off
    exact none_kept off
  · obtain ⟨nonzero, old, counter, old_id, counter_id, old_source, counter_source, -, stamps_le,
      none_kept⟩ := addCounters_counts sorted counters mem
    obtain ⟨count_eq, uc_eq⟩ := counted counter_id counter_source
    cases is_stamped : cfg.stamped fc.fcId with
    | false =>
      simp only [FreqCapConfig.stamped, decide_eq_true nonzero, Bool.true_and] at is_stamped
      rw [none_kept is_stamped]
      exact Nat.zero_le _
    | true =>
      -- the id comes in one of the lists, and in the second at most once
      have separate : counter.count = imps.cFcs.count fc.fcId ∧
          counter.ucCount = imps.ucFcs.count fc.fcId := by
        by_cases inUc : fc.fcId ∈ imps.ucFcs
        · have once := (fit.unconfirmed fc.fcId inUc is_stamped).1
          omega
        · have none_uc := List.count_eq_zero.2 inUc
          omega
      have old_le : old.lastImpressions.count stamp ≤
          (if isUcTimestamp stamp then pending else settled).count
            (fc.fcId, normalizeImpressionTimestamp stamp) := by
        obtain inOld | ⟨rfl, -⟩ := old_source
        · rw [← old_id]
          exact h.stamps old inOld stamp
        · exact Nat.zero_le _
      have new_le := stamps_le stamp
      rw [List.count_append, List.count_append, confirmedStamps, ucStamps, List.count_replicate,
        List.count_replicate, toUint_eq fit.time, separate.1, separate.2] at new_le
      by_cases uc : isUcTimestamp stamp = true
      · have other : ¬ (tvSec imps.now == stamp) = true := by
          intro same
          rw [beq_iff_eq] at same
          rw [← same, isUc_confirmed fit.time] at uc
          cases uc
        rw [if_pos uc] at old_le ⊢
        rw [if_neg other] at new_le
        rw [List.count_append, count_impsAt]
        by_cases same : (toUcTimestamp (tvSec imps.now) == stamp) = true
        · rw [if_pos same] at new_le
          rw [beq_iff_eq] at same
          rw [← same, normalize_uc fit.time] at old_le ⊢
          rw [if_pos rfl]
          rw [← same] at new_le
          omega
        · rw [if_neg same] at new_le
          omega
      · have other : ¬ (toUcTimestamp (tvSec imps.now) == stamp) = true := by
          intro same
          rw [beq_iff_eq] at same
          exact uc (same ▸ isUc_uc fit.time)
        rw [if_neg uc] at old_le ⊢
        rw [if_neg other] at new_le
        rw [List.count_append, count_impsAt]
        by_cases same : (tvSec imps.now == stamp) = true
        · rw [if_pos same] at new_le
          rw [beq_iff_eq] at same
          rw [← same, normalize_confirmed fit.time] at old_le ⊢
          rw [if_pos rfl]
          rw [← same] at new_le
          omega
        · rw [if_neg same] at new_le
          omega

theorem balanced_applyDecreases {expired : List UcFreqCap} (kept : p.Kept)
    (sub : expired.Sublist p.ucFreqCaps)
    (h : Balanced cfg p.freqCaps settled (unconfirmedImps expired ++ rest)) :
    Balanced cfg (applyDecreases (countDecreases expired).entries p.freqCaps) settled rest := by
  refine ⟨fun left mem => ?_, fun left mem => ?_, fun imp mem nonzero => ?_, fun left mem off => ?_,
    fun left mem stamp => ?_⟩
  · obtain ⟨fc, inFcs, same, -⟩ := mem_applyDecreases kept sub mem
    rw [same]
    exact h.nonzero fc inFcs
  · obtain ⟨fc, inFcs, same, total_eq, -⟩ := mem_applyDecreases kept sub mem
    have total := h.totals fc inFcs
    rw [countFc_append] at total
    have taken : takenBack fc.fcId (countDecreases expired).entries =
        countFc fc.fcId (unconfirmedImps expired) := takenBack_countDecreases _ _
    rw [same, total_eq]
    omega
  · have present := h.present imp (by
      simp only [List.mem_append] at mem ⊢
      exact mem.imp_right Or.inr) nonzero
    obtain ⟨fc, inFcs, same⟩ := List.mem_map.1 present
    rw [applyDecreases_eq (countDecreases_sorted expired) kept.ordered.freqCaps]
    -- the impression is left, so not all of its freq cap is taken back
    cases left_eq : decreaseBy (countDecreases expired).entries fc with
    | none =>
      have all_taken := decreaseBy_none left_eq
      have taken : takenBack fc.fcId (countDecreases expired).entries =
        countFc fc.fcId (unconfirmedImps expired) := takenBack_countDecreases _ _
      have total := h.totals fc inFcs
      rw [countFc_append] at total
      have positive : 0 < countFc fc.fcId (settled ++ rest) := by
        rw [countFc, List.countP_pos_iff]
        exact ⟨imp, mem, by simp [same]⟩
      rw [countFc_append] at positive
      omega
    | some left =>
      obtain ⟨positive, fits⟩ := decreases_fit kept sub
      have left_id := (decreaseBy_some positive fits (kept.ordered.stamps fc inFcs)
        (kept.fits32 fc inFcs) left_eq).1
      rw [← same, ← left_id]
      exact List.mem_map_of_mem (List.mem_filterMap.2 ⟨fc, inFcs, left_eq⟩)
  · obtain ⟨fc, inFcs, same, -, stamps_sub, -⟩ := mem_applyDecreases kept sub mem
    rw [same] at off
    rw [h.bare fc inFcs off] at stamps_sub
    exact List.sublist_nil.1 stamps_sub
  · obtain ⟨fc, inFcs, same, -, -, stamps_eq⟩ := mem_applyDecreases kept sub mem
    have bound := h.stamps fc inFcs stamp
    rw [same, stamps_eq]
    by_cases uc : isUcTimestamp stamp = true
    · rw [if_pos uc] at bound ⊢
      rw [List.count_append] at bound
      by_cases stored : stamp ∈ fc.lastImpressions
      · have fits32 := kept.fits32 fc inFcs stamp stored
        -- the decreases of the stamp are those of its second
        have taken : takenStamps fc.fcId stamp (countDecreases expired).entries =
            (unconfirmedImps expired).count (fc.fcId, normalizeImpressionTimestamp stamp) := by
          rw [takenStamps_countDecreases, List.count_eq_countP]
          apply List.countP_congr
          intro imp imp_mem
          obtain ⟨request, inExpired, inIds⟩ := List.mem_flatMap.1 imp_mem
          obtain ⟨fcId, -, rfl⟩ := List.mem_map.1 inIds
          have fits := (kept.requests request (sub.mem inExpired)).1
          simp only [decide_eq_true_eq, beq_iff_eq, Prod.mk.injEq]
          refine and_congr_right fun _ => ⟨fun eq => ?_, fun eq => ?_⟩
          · rw [eq, normalize_uc fits]
          · apply eq_of_stampKey fits32 (toUcTimestamp_lt _)
            rw [stampKey_uc fits, stampKey, if_pos uc, eq]
            rfl
        omega
      · rw [List.count_eq_zero.2 stored, Nat.zero_sub]
        exact Nat.zero_le _
    · rw [if_neg uc] at bound ⊢
      omega

theorem confirmStamp_nil (time : Nat) : confirmStamp [] time = [] := rfl

theorem balanced_confirmFreqCaps {uc : UcFreqCap} (kept : p.Kept) (mem_uc : uc ∈ p.ucFreqCaps)
    (single : ∀ fcId, cfg.stamped fcId = true → uc.freqCapIds.count fcId ≤ 1)
    (h : Balanced cfg p.freqCaps settled (impsAt uc.freqCapIds uc.time ++ rest)) :
    Balanced cfg (confirmFreqCaps cfg now uc.time uc.freqCapIds p.freqCaps)
      (settled ++ impsAt uc.freqCapIds uc.time) rest := by
  obtain ⟨fits, idsSorted⟩ := kept.requests uc mem_uc
  rw [confirmFreqCaps_eq cfg now uc.time idsSorted kept.ordered.freqCaps]
  have same_id (fc : FreqCap) : (if fc.fcId ∈ uc.freqCapIds then confirmFreqCap cfg now uc.time fc
      else fc).fcId = fc.fcId := by split <;> rfl
  have same_total (fc : FreqCap) : (if fc.fcId ∈ uc.freqCapIds then
      confirmFreqCap cfg now uc.time fc else fc).totalImpressions = fc.totalImpressions := by
    split <;> rfl
  have confirmed_sub (fc : FreqCap) : (confirmFreqCap cfg now uc.time fc).lastImpressions.Sublist
      (confirmStamp fc.lastImpressions uc.time) :=
    adapt_sublist cfg now { fc with lastImpressions := confirmStamp fc.lastImpressions uc.time }
  refine ⟨fun fc mem => ?_, fun fc mem => ?_, fun imp mem nonzero => ?_, fun fc mem off => ?_,
    fun fc mem stamp => ?_⟩
  · obtain ⟨old, inOld, rfl⟩ := List.mem_map.1 mem
    rw [same_id]
    exact h.nonzero old inOld
  · obtain ⟨old, inOld, rfl⟩ := List.mem_map.1 mem
    have total := h.totals old inOld
    rw [countFc_append] at total
    rw [same_id, same_total, countFc_append]
    omega
  · have present := h.present imp (by
      simp only [List.mem_append] at mem ⊢
      tauto) nonzero
    rw [List.map_map]
    have ids : FreqCap.fcId ∘ (fun fc => if fc.fcId ∈ uc.freqCapIds then
        confirmFreqCap cfg now uc.time fc else fc) = FreqCap.fcId := funext same_id
    rwa [ids]
  · obtain ⟨old, inOld, rfl⟩ := List.mem_map.1 mem
    rw [same_id] at off
    have nothing := h.bare old inOld off
    split
    · have sub := confirmed_sub old
      rw [nothing, confirmStamp_nil] at sub
      exact List.sublist_nil.1 sub
    · exact nothing
  · obtain ⟨old, inOld, rfl⟩ := List.mem_map.1 mem
    rw [same_id]
    have bound := h.stamps old inOld stamp
    by_cases listed : old.fcId ∈ uc.freqCapIds
    · rw [if_pos listed]
      have le := (confirmed_sub old).count_le stamp
      cases is_stamped : cfg.stamped old.fcId with
      | false =>
        rw [h.bare old inOld is_stamped, confirmStamp_nil] at le
        exact le.trans (Nat.zero_le _)
      | true =>
        have once : uc.freqCapIds.count old.fcId = 1 :=
          Nat.le_antisymm (single old.fcId is_stamped) (List.count_pos_iff.2 listed)
        have sorted := kept.ordered.stamps old inOld
        have fits32 := kept.fits32 old inOld
        rw [count_confirmStamp sorted fits32 fits] at le
        by_cases is_uc : isUcTimestamp stamp = true
        · rw [if_pos is_uc, List.count_append, count_impsAt, once] at bound
          rw [if_pos is_uc]
          have other : ¬ (stamp = uc.time ∧
              old.lastImpressions.count (toUcTimestamp uc.time) ≠ 0) := by
            rintro ⟨same, -⟩
            rw [same, isUc_confirmed fits] at is_uc
            cases is_uc
          rw [if_neg other] at le
          by_cases same : stamp = toUcTimestamp uc.time
          · rw [if_pos same] at le
            rw [if_pos (same ▸ normalize_uc fits)] at bound
            omega
          · rw [if_neg same] at le
            by_cases stored : stamp ∈ old.lastImpressions
            · have other_second : normalizeImpressionTimestamp stamp ≠ uc.time := by
                intro eq
                apply same
                apply eq_of_stampKey (fits32 stamp stored) (toUcTimestamp_lt _)
                rw [stampKey_uc fits, stampKey, if_pos is_uc, eq]
                rfl
              rw [if_neg other_second] at bound
              omega
            · rw [List.count_eq_zero.2 stored] at le
              omega
        · have other : stamp ≠ toUcTimestamp uc.time := by
            intro same
            exact is_uc (same ▸ isUc_uc fits)
          rw [if_neg is_uc] at bound
          rw [if_neg is_uc, List.count_append, count_impsAt, once]
          rw [if_neg other] at le
          split at le
          · next confirmed =>
            obtain ⟨rfl, -⟩ := confirmed
            rw [if_pos (normalize_confirmed fits)]
            omega
          · omega
    · rw [if_neg listed]
      have absent := List.count_eq_zero.2 listed
      by_cases is_uc : isUcTimestamp stamp = true
      · rw [if_pos is_uc, List.count_append, count_impsAt, absent, ite_self, Nat.zero_add] at bound
        rwa [if_pos is_uc]
      · rw [if_neg is_uc] at bound
        rw [if_neg is_uc, List.count_append]
        omega

end AdServer.UserInfo
