import AdServer.RequestInfo.TriggerMatches
import Mathlib.Data.List.Perm.Subperm

/-!
# The indexes that are drawn

`fill_index_sampling` maps a random rank to a free index: it leaves an ascending list inside the
array, and every such list can come of it.
-/

namespace AdServer.RequestInfo.UserTriggerMatch

open AdServer.Lib

/-- The scan passes the indexes that are not above what it looks for, one more free place for
each. -/
theorem insertIndex_split (newVal addInd : Nat) (sampling : List Nat)
    (sorted : sampling.Pairwise (· < ·)) :
    ∃ passed rest, sampling = passed ++ rest ∧
      insertIndex newVal addInd sampling = passed ++ (newVal + addInd + passed.length) :: rest ∧
      (∀ i ∈ passed, i < newVal + addInd + passed.length) ∧
      ∀ i ∈ rest, newVal + addInd + passed.length < i := by
  induction sampling generalizing addInd with
  | nil => exact ⟨[], [], rfl, rfl, by simp, by simp⟩
  | cons index tail ih =>
    obtain ⟨above, tail_sorted⟩ := List.pairwise_cons.1 sorted
    unfold insertIndex
    split
    · rename_i passes
      obtain ⟨passed, rest, split, inserted, below, after⟩ := ih (addInd + 1) tail_sorted
      refine ⟨index :: passed, rest, by rw [split, List.cons_append], ?_, ?_, ?_⟩
      · rw [inserted, List.length_cons, List.cons_append]
        congr 3
        omega
      · intro i hi
        rw [List.length_cons]
        rcases List.mem_cons.1 hi with rfl | hi
        · omega
        · have lt := below i hi
          omega
      · intro i hi
        rw [List.length_cons]
        have lt := after i hi
        omega
    · rename_i stops
      refine ⟨[], index :: tail, rfl, by simp, by simp, ?_⟩
      intro i hi
      rw [List.length_nil]
      rcases List.mem_cons.1 hi with rfl | hi
      · omega
      · have lt := above i hi
        omega

variable {rest l channelTriggers : List Nat} {newVal index : Nat} {draws : Draws}

theorem add_length_le {bound first : Nat} (sorted : (first :: rest).Pairwise (· < ·))
    (below : ∀ i ∈ first :: rest, i < bound) : first + (first :: rest).length ≤ bound := by
  induction rest generalizing first with
  | nil =>
    have lt := below first (by simp)
    simp only [List.length_cons, List.length_nil]
    omega
  | cons next rest ih =>
    obtain ⟨above, sorted'⟩ := List.pairwise_cons.1 sorted
    have later := ih sorted' fun i hi => below i (by simp [hi])
    have lt := above next (by simp)
    simp only [List.length_cons] at later ⊢
    omega

theorem insertIndex_at {newVal addInd index : Nat} {passed rest : List Nat}
    (sorted : passed.Pairwise (· < ·)) (below : ∀ i ∈ passed, i < index)
    (above : ∀ i ∈ rest, index < i) (rank : newVal + addInd + passed.length = index) :
    insertIndex newVal addInd (passed ++ rest) = passed ++ index :: rest := by
  induction passed generalizing addInd with
  | nil =>
    rw [List.length_nil, add_zero] at rank
    cases rest with
    | nil => simp [insertIndex, rank]
    | cons next rest =>
      have lt := above next (by simp)
      simp only [List.nil_append, insertIndex, rank]
      rw [if_neg (by omega)]
  | cons first tail ih =>
    have reach := add_length_le sorted below
    rw [List.length_cons] at rank reach
    simp only [List.cons_append, insertIndex]
    rw [if_pos (by omega), ih (List.pairwise_cons.1 sorted).2 (fun i hi => below i (by simp [hi]))
      (by omega)]

/-- A call of `fill_index_sampling`. -/
structure SamplingCall where
  arraySize : Nat
  samplingSize : Nat
  sampling : List Nat

/-- The indexes given are ascending and inside the array, and there is place for the others. -/
structure SamplingCall.InBounds (call : SamplingCall) : Prop where
  sorted : call.sampling.Pairwise (· < ·)
  below : ∀ i ∈ call.sampling, i < call.arraySize
  fits : call.sampling.length + call.samplingSize ≤ call.arraySize

variable {arraySize samplingSize : Nat} {sampling : List Nat}

theorem insertIndex_inBounds
    (bounds : SamplingCall.InBounds ⟨arraySize, samplingSize + 1, sampling⟩)
    (below : newVal < arraySize - sampling.length) :
    SamplingCall.InBounds ⟨arraySize, samplingSize, insertIndex newVal 0 sampling⟩ ∧
      sampling ⊆ insertIndex newVal 0 sampling := by
  obtain ⟨passed, rest, split, inserted, left, right⟩ :=
    insertIndex_split newVal 0 sampling bounds.sorted
  have sorted := bounds.sorted
  have inside := bounds.below
  have fits := bounds.fits
  have length := insertIndex_length newVal 0 sampling
  dsimp only at sorted inside fits
  rw [split] at sorted inside
  obtain ⟨passed_sorted, rest_sorted, across⟩ := List.pairwise_append.1 sorted
  refine ⟨⟨?_, ?_, by dsimp only; omega⟩, ?_⟩
  · rw [inserted]
    refine List.pairwise_append.2 ⟨passed_sorted, List.pairwise_cons.2 ⟨right, rest_sorted⟩, ?_⟩
    intro i hi j hj
    rcases List.mem_cons.1 hj with rfl | hj
    · exact left i hi
    · exact across i hi j hj
  · have lengths := congrArg List.length split
    rw [List.length_append] at lengths
    rw [inserted]
    intro i hi
    dsimp only
    rcases List.mem_append.1 hi with hi | hi
    · exact inside i (List.mem_append_left _ hi)
    · rcases List.mem_cons.1 hi with rfl | hi
      · omega
      · exact inside i (List.mem_append_right _ hi)
  · intro i hi
    rw [split] at hi
    rw [inserted]
    rcases List.mem_append.1 hi with hi | hi
    · exact List.mem_append_left _ hi
    · exact List.mem_append_right _ (List.mem_cons_of_mem _ hi)

theorem fillIndexSampling_subset (bounds : SamplingCall.InBounds ⟨arraySize, samplingSize, sampling⟩)
    (draws : Draws) :
    (fillIndexSampling arraySize samplingSize sampling draws).1.Pairwise (· < ·) ∧
      (∀ i ∈ (fillIndexSampling arraySize samplingSize sampling draws).1, i < arraySize) ∧
      sampling ⊆ (fillIndexSampling arraySize samplingSize sampling draws).1 := by
  induction samplingSize generalizing sampling draws with
  | zero => exact ⟨bounds.sorted, bounds.below, List.Subset.refl _⟩
  | succ samplingSize ih =>
    have fits := bounds.fits
    dsimp only at fits
    have drawn : draws 0 % (arraySize - sampling.length) < arraySize - sampling.length := by
      apply Nat.mod_lt
      omega
    obtain ⟨bounds', added⟩ := insertIndex_inBounds bounds drawn
    obtain ⟨sorted, below, subset⟩ := ih bounds' fun i => draws (i + 1)
    exact ⟨sorted, below, List.Subset.trans added subset⟩

theorem nodup_of_ascending (sorted : l.Pairwise (· < ·)) : l.Nodup :=
  sorted.imp Nat.ne_of_lt

theorem eq_of_subset {l t : List Nat} (l_sorted : l.Pairwise (· < ·)) (t_sorted : t.Pairwise (· < ·))
    (subset : l ⊆ t) (length : t.length = l.length) : l = t := by
  have perm : l.Perm t :=
    (List.subperm_of_subset (nodup_of_ascending l_sorted) subset).perm_of_length_le length.le
  exact perm.eq_of_pairwise (fun a b _ _ ab ba => absurd ab ba.not_gt) l_sorted t_sorted

theorem exists_sides (sampling : List Nat) (sorted : sampling.Pairwise (· < ·))
    (free : index ∉ sampling) :
    ∃ passed rest, sampling = passed ++ rest ∧ (∀ i ∈ passed, i < index) ∧
      ∀ i ∈ rest, index < i := by
  induction sampling with
  | nil => exact ⟨[], [], rfl, by simp, by simp⟩
  | cons first tail ih =>
    obtain ⟨above, tail_sorted⟩ := List.pairwise_cons.1 sorted
    obtain ⟨ne, tail_free⟩ := not_or.1 (mt List.mem_cons.2 free)
    by_cases before : first < index
    · obtain ⟨passed, rest, split, left, right⟩ := ih tail_sorted tail_free
      refine ⟨first :: passed, rest, by rw [split, List.cons_append], ?_, right⟩
      intro i hi
      rcases List.mem_cons.1 hi with rfl | hi
      · exact before
      · exact left i hi
    · refine ⟨[], first :: tail, rfl, by simp, ?_⟩
      intro i hi
      rcases List.mem_cons.1 hi with rfl | hi
      · omega
      · have lt := above i hi
        omega

theorem exists_draws (bounds : SamplingCall.InBounds ⟨arraySize, samplingSize, sampling⟩)
    {target : List Nat} (sorted : target.Pairwise (· < ·)) (below : ∀ i ∈ target, i < arraySize)
    (subset : sampling ⊆ target) (length : target.length = sampling.length + samplingSize) :
    ∃ draws, (fillIndexSampling arraySize samplingSize sampling draws).1 = target := by
  induction samplingSize generalizing sampling with
  | zero => exact ⟨fun _ => 0, eq_of_subset bounds.sorted sorted subset length⟩
  | succ samplingSize ih =>
    -- an index of the target that is still free
    obtain ⟨index, wanted, free⟩ : ∃ index ∈ target, index ∉ sampling := by
      by_contra none_free
      push Not at none_free
      have shorter := (List.subperm_of_subset (nodup_of_ascending sorted) none_free).length_le
      omega
    obtain ⟨passed, rest, split, left, right⟩ := exists_sides sampling bounds.sorted free
    have parts := bounds.sorted
    have fits := bounds.fits
    have lengths := congrArg List.length split
    dsimp only at parts fits
    rw [split] at parts
    rw [List.length_append] at lengths
    obtain ⟨passed_sorted, rest_sorted, -⟩ := List.pairwise_append.1 parts
    have inside : ∀ i ∈ rest, i < arraySize := by
      intro i hi
      apply below
      apply subset
      rw [split]
      exact List.mem_append_right _ hi
    have before := add_length_le
      (List.pairwise_cons.2 ⟨right, rest_sorted⟩) (by
        intro i hi
        rcases List.mem_cons.1 hi with rfl | hi
        · exact below _ wanted
        · exact inside i hi)
    have after : passed.length ≤ index := by
      cases passed with
      | nil => exact Nat.zero_le _
      | cons first tail =>
        have reach := add_length_le passed_sorted left
        omega
    rw [List.length_cons] at before
    have rank : index - passed.length < arraySize - sampling.length := by omega
    have inserted : insertIndex (index - passed.length) 0 sampling = passed ++ index :: rest := by
      rw [split]
      exact insertIndex_at passed_sorted left right (by omega)
    obtain ⟨bounds', -⟩ := insertIndex_inBounds bounds rank
    rw [inserted] at bounds'
    obtain ⟨draws, reached⟩ := ih bounds'
      (by
        intro i hi
        rcases List.mem_append.1 hi with hi | hi
        · exact subset (split ▸ List.mem_append_left _ hi)
        · rcases List.mem_cons.1 hi with rfl | hi
          · exact wanted
          · exact subset (split ▸ List.mem_append_right _ hi))
      (by
        rw [length, List.length_append, List.length_cons]
        omega)
    refine ⟨fun i => if i = 0 then index - passed.length else draws (i - 1), ?_⟩
    simp only [fillIndexSampling, safeRand, if_true, Nat.mod_eq_of_lt rank, inserted,
      Nat.add_one_sub_one, Nat.add_one_ne_zero, if_false]
    exact reached

/-- A sampling that records its call. -/
def loggedSampling : Sampler (Draws × List SamplingCall) :=
  fun arraySize samplingSize sampling (draws, calls) =>
    let (indexes, draws) := fillIndexSampling arraySize samplingSize sampling draws
    (indexes, draws, calls ++ [⟨arraySize, samplingSize, sampling⟩])

/-- One round of `add_matches` with the calls it makes. -/
def newMatchLogged (time : Nat) (channels : ChannelInfoMap) (field : ChannelInfo → List Nat)
    (positiveGroupSize negativeGroupSize : Nat) (channelId : Nat) (matched : MatchedTriggerIdArray)
    (draws : Draws) : (ChannelMatch × Draws) × List SamplingCall :=
  let (added, draws, calls) := newMatchBy loggedSampling time channels field positiveGroupSize
    negativeGroupSize channelId matched (draws, [])
  ((added, draws), calls)

/-- With the record the result is the same, and the calls recorded are within the bounds. -/
def Follows {A : Type} (plain : A × Draws) (logged : A × Draws × List SamplingCall) : Prop :=
  (logged.1, logged.2.1) = plain ∧ ∀ call ∈ logged.2.2, call.InBounds

variable {calls : List SamplingCall}

theorem inBounds_concat {last : SamplingCall} (before : ∀ call ∈ calls, call.InBounds)
    (inside : last.InBounds) : ∀ call ∈ calls ++ [last], call.InBounds :=
  List.forall_mem_append.2 ⟨before, List.forall_mem_singleton.2 inside⟩

theorem fillNoisedTriggers_follows {noiseSize : Nat} (fits : noiseSize ≤ channelTriggers.length)
    (triggers : List Nat) (res : Noised) (draws : Draws)
    (before : ∀ call ∈ calls, call.InBounds) :
    Follows (fillNoisedTriggers fillIndexSampling channelTriggers noiseSize triggers res draws)
      (fillNoisedTriggers loggedSampling channelTriggers noiseSize triggers res (draws, calls)) := by
  induction triggers generalizing res draws calls with
  | nil => exact ⟨rfl, before⟩
  | cons trigger triggers ih =>
    cases found : triggerIndex channelTriggers trigger with
    | none =>
      simp only [fillNoisedTriggers, found]
      refine ih _ _ (inBounds_concat before ⟨List.Pairwise.nil, by simp, ?_⟩)
      simp only [List.length_nil]
      omega
    | some index =>
      have inside : index < channelTriggers.length := by
        unfold triggerIndex at found
        dsimp only at found
        split at found
        · rename_i there
          obtain rfl := Option.some.inj found
          exact (List.getElem?_eq_some_iff.1 there).1
        · cases found
      simp only [fillNoisedTriggers, found]
      refine ih _ _ (inBounds_concat before ⟨List.pairwise_singleton _ _, by simpa using inside, ?_⟩)
      simp only [List.length_singleton]
      omega

theorem fillCompensateTriggers_follows {deactivated : List Nat} {compensateSize : Nat}
    (fits : compensateSize ≤ channelTriggers.length) (matchedTriggers : Nat) (res : List Nat)
    (draws : Draws) (before : ∀ call ∈ calls, call.InBounds) :
    Follows (fillCompensateTriggers fillIndexSampling channelTriggers deactivated compensateSize
        matchedTriggers res draws)
      (fillCompensateTriggers loggedSampling channelTriggers deactivated compensateSize
        matchedTriggers res (draws, calls)) := by
  induction matchedTriggers generalizing res draws calls with
  | zero => exact ⟨rfl, before⟩
  | succ matchedTriggers ih =>
    refine ih _ _ (inBounds_concat before ⟨List.Pairwise.nil, by simp, ?_⟩)
    simp only [List.length_nil]
    omega

theorem newMatchLogged_follows (time : Nat) (channels : ChannelInfoMap)
    (field : ChannelInfo → List Nat) (positiveGroupSize negativeGroupSize channelId : Nat)
    (matched : MatchedTriggerIdArray) (draws : Draws) :
    Follows (newMatch time channels field positiveGroupSize negativeGroupSize channelId matched draws)
      (newMatchBy loggedSampling time channels field positiveGroupSize negativeGroupSize channelId
        matched (draws, [])) := by
  unfold newMatch newMatchBy
  cases channels.find? channelId with
  | none => exact ⟨rfl, nofun⟩
  | some info =>
    dsimp only
    have few : min positiveGroupSize ((field info).length - 1) ≤ (field info).length := by omega
    obtain ⟨same, bounds⟩ := fillNoisedTriggers_follows few matched.ids ⟨[], []⟩ draws
      (List.forall_mem_nil _)
    rw [← same]
    split
    · obtain ⟨same, bounds⟩ := fillCompensateTriggers_follows (Nat.min_le_right negativeGroupSize _)
        matched.ids.length [] _ bounds
      rw [← same]
      exact ⟨rfl, bounds⟩
    · exact ⟨rfl, bounds⟩

/-- A sampling is an ascending list in the array with the indexes given and as many more as
asked for, any such list can come of it, and every call made for a match is such a call. -/
theorem sampling_exact :
    (∀ arraySize samplingSize sampling,
      SamplingCall.InBounds ⟨arraySize, samplingSize, sampling⟩ → ∀ target : List Nat,
        (∃ draws, (fillIndexSampling arraySize samplingSize sampling draws).1 = target) ↔
          target.Pairwise (· < ·) ∧ (∀ i ∈ target, i < arraySize) ∧ sampling ⊆ target ∧
            target.length = sampling.length + samplingSize) ∧
    ∀ (time : Nat) (channels : ChannelInfoMap) (field : ChannelInfo → List Nat)
      (positiveGroupSize negativeGroupSize channelId : Nat) (matched : MatchedTriggerIdArray)
      (draws : Draws),
      (newMatchLogged time channels field positiveGroupSize negativeGroupSize channelId matched
        draws).1 = newMatch time channels field positiveGroupSize negativeGroupSize channelId
          matched draws ∧
      ∀ call ∈ (newMatchLogged time channels field positiveGroupSize negativeGroupSize channelId
        matched draws).2, call.InBounds := by
  constructor
  · intro arraySize samplingSize sampling bounds target
    constructor
    · rintro ⟨draws, rfl⟩
      obtain ⟨sorted, below, subset⟩ := fillIndexSampling_subset bounds draws
      exact ⟨sorted, below, subset, fillIndexSampling_length _ _ _ _⟩
    · rintro ⟨sorted, below, subset, length⟩
      exact exists_draws bounds sorted below subset length
  · intro time channels field positiveGroupSize negativeGroupSize channelId matched draws
    exact newMatchLogged_follows _ _ _ _ _ _ _ _

theorem sampling_exact_four :
    ∃ draws, (fillIndexSampling 4 2 [1] draws).1 = [0, 1, 3] :=
  (sampling_exact.1 4 2 [1] ⟨by decide, by decide, by decide⟩ [0, 1, 3]).2 (by decide)

end AdServer.RequestInfo.UserTriggerMatch
