import AdServer.Lib.KeyOrder
import AdServer.Lib.MergeUnique
import AdServer.Lib.SortedMap
import Mathlib.Data.List.SplitBy
import Mathlib.Tactic.Ring

/-!
# Stored trigger matches

A visit is stored with the triggers that matched, hidden among random ones: each is put into
a group of positive triggers, and the whole is compensated by groups of negative ones.
-/

namespace AdServer.RequestInfo.UserTriggerMatch

open AdServer.Lib

/-- One value for each of the four types of match. -/
structure ByType (A : Type) where
  page : A
  search : A
  url : A
  urlKeyword : A

structure ByType.Each {A : Type} (p : A → Prop) (all : ByType A) : Prop where
  page : p all.page
  search : p all.search
  url : p all.url
  urlKeyword : p all.urlKeyword

/-- `ChannelMatchWriter`. -/
structure ChannelMatch where
  channelId : Nat
  time : Nat
  triggersInChannel : Nat
  matchedTriggers : Nat
  positiveMatches : List Nat
  negativeMatches : List Nat
  deriving DecidableEq

/-- `Config::ChannelInfo`. -/
structure ChannelInfo where
  timeTo : ByType Nat
  minVisits : ByType Nat
  triggers : ByType (List Nat)

abbrev ChannelInfoMap := SortedMap Nat ChannelInfo

/-- The triggers of a channel that matched: at least one, ordered, without repeats. -/
structure MatchedTriggerIdArray where
  ids : List Nat
  some_id : ids ≠ []
  sorted : ids.Pairwise (· < ·)

abbrev MatchMap := SortedMap Nat MatchedTriggerIdArray

/-- What `safe_rand` will be drawn from. -/
abbrev Draws := Nat → Nat

def safeRand (bound : Nat) (draws : Draws) : Nat × Draws :=
  (draws 0 % bound, fun i => draws (i + 1))

/-- The free index with this number, among the sampling so far. -/
def insertIndex (newVal : Nat) : Nat → List Nat → List Nat
  | addInd, [] => [newVal + addInd]
  | addInd, index :: rest =>
    if index ≤ newVal + addInd then index :: insertIndex newVal (addInd + 1) rest
    else (newVal + addInd) :: index :: rest

def fillIndexSampling (arraySize : Nat) : Nat → List Nat → Draws → List Nat × Draws
  | 0, sampling, draws => (sampling, draws)
  | samplingSize + 1, sampling, draws =>
    let (newVal, draws) := safeRand (arraySize - sampling.length) draws
    fillIndexSampling arraySize samplingSize (insertIndex newVal 0 sampling) draws

/-- What draws the indexes of a sampling. -/
abbrev Sampler (S : Type) := Nat → Nat → List Nat → S → List Nat × S

/-- The index of the trigger, if it is in the channel. -/
def triggerIndex (channelTriggers : List Nat) (trigger : Nat) : Option Nat :=
  let index := (channelTriggers.takeWhile fun other => decide (other < trigger)).length
  if channelTriggers[index]? = some trigger then some index else none

/-- The deactivated triggers and the noised ones. -/
structure Noised where
  deactivated : List Nat
  noised : List Nat

/-- A deactivated trigger is put at an ordered position among the noise. -/
def insertOrdered (trigger : Nat) (noised : List Nat) : List Nat :=
  (noised.takeWhile fun other => decide (other < trigger)) ++ trigger ::
    noised.dropWhile fun other => decide (other < trigger)

def triggersAt (channelTriggers indexes : List Nat) : List Nat :=
  indexes.map (channelTriggers.getD · 0)

section Sampling

variable {S : Type} (sample : Sampler S)

def fillNoisedTriggers (channelTriggers : List Nat) (noiseSize : Nat) :
    List Nat → Noised → S → Noised × S
  | [], res, draws => (res, draws)
  | trigger :: triggers, res, draws =>
    match triggerIndex channelTriggers trigger with
    | some index =>
      let (indexes, draws) := sample channelTriggers.length (noiseSize - 1) [index] draws
      fillNoisedTriggers channelTriggers noiseSize triggers
        { res with noised := res.noised ++ triggersAt channelTriggers indexes } draws
    | none =>
      let (indexes, draws) := sample channelTriggers.length (noiseSize - 1) [] draws
      fillNoisedTriggers channelTriggers noiseSize triggers
        { deactivated := res.deactivated ++ [trigger]
          noised := insertOrdered trigger
            (res.noised ++ triggersAt channelTriggers indexes) } draws

def fillCompensateTriggers (channelTriggers deactivated : List Nat) (compensateSize : Nat) :
    Nat → List Nat → S → List Nat × S
  | 0, res, draws => (res, draws)
  | matchedTriggers + 1, res, draws =>
    let (indexes, draws) := sample (channelTriggers.length + deactivated.length)
      compensateSize [] draws
    fillCompensateTriggers channelTriggers deactivated compensateSize matchedTriggers
      (res ++ indexes.map fun index =>
        if index < channelTriggers.length then channelTriggers.getD index 0
        else deactivated.getD (index - channelTriggers.length) 0) draws

/-- The match of one channel, as it is stored. -/
def newMatchBy (time : Nat) (channels : ChannelInfoMap) (field : ChannelInfo → List Nat)
    (positiveGroupSize negativeGroupSize : Nat) (channelId : Nat) (matched : MatchedTriggerIdArray)
    (draws : S) : ChannelMatch × S :=
  match channels.find? channelId with
  | some info =>
    let channelTriggers := field info
    let (res, draws) := fillNoisedTriggers sample channelTriggers
      (min positiveGroupSize (channelTriggers.length - 1)) matched.ids ⟨[], []⟩ draws
    let (negative, draws) :=
      if 1 < channelTriggers.length then
        fillCompensateTriggers sample channelTriggers res.deactivated
          (min negativeGroupSize channelTriggers.length) matched.ids.length [] draws
      else ([], draws)
    ({ channelId := channelId
       time := time
       triggersInChannel := channelTriggers.length + res.deactivated.length
       matchedTriggers := matched.ids.length
       positiveMatches := res.noised
       negativeMatches := negative }, draws)
  | none =>
    -- a channel that is not active: without noise and compensation
    ({ channelId := channelId
       time := time
       triggersInChannel := 0
       matchedTriggers := matched.ids.length
       positiveMatches := matched.ids
       negativeMatches := [] }, draws)

end Sampling

def newMatch := newMatchBy fillIndexSampling

/-- `add_matches`: the new matches of the channels, in order, each after the stored ones of
its channel that are not later. -/
def addMatches (time : Nat) (channels : ChannelInfoMap) (field : ChannelInfo → List Nat)
    (positiveGroupSize negativeGroupSize : Nat) :
    List (Nat × MatchedTriggerIdArray) → List ChannelMatch → Draws → List ChannelMatch × Draws
  | [], res, draws => (res, draws)
  | (channelId, matched) :: rest, res, draws =>
    let before := fun stored : ChannelMatch => decide (stored.channelId < channelId ∨
      stored.channelId = channelId ∧ stored.time ≤ time)
    let (added, draws) := newMatch time channels field positiveGroupSize negativeGroupSize
      channelId matched draws
    let (after, draws) := addMatches time channels field positiveGroupSize negativeGroupSize rest
      (res.dropWhile before) draws
    (res.takeWhile before ++ added :: after, draws)

/-- `UserTriggerMatchLess`. -/
def matchLess (left right : ChannelMatch) : Bool :=
  decide (left.channelId < right.channelId ∨
    left.channelId = right.channelId ∧ left.time ≤ right.time)

/-- `merge_matches`: `std::merge`, which takes the second one if it is less. -/
def mergeMatches (res new : List ChannelMatch) : List ChannelMatch :=
  if new.isEmpty then res else res.merge new fun left right => !matchLess right left

/-- What is left of the matches of one channel. -/
def clearExcess (time timeTo minVisits : Nat) (group : List ChannelMatch) : List ChannelMatch :=
  (group.drop (group.length - minVisits)).dropWhile fun stored =>
    decide (stored.time + timeTo < time)

def oneDay : Nat := 86400

/-- The matches of one channel, cleared by its limits or by the default ones. -/
def clearChannel (time : Nat) (channels : ChannelInfoMap)
    (minVisitsField timeToField : ChannelInfo → Nat) (maxTriggerVisits : Nat) :
    List ChannelMatch → List ChannelMatch
  | [] => []
  | first :: rest =>
    match channels.find? first.channelId with
    | some info =>
      let minVisits := if 0 < maxTriggerVisits then min maxTriggerVisits (minVisitsField info)
        else minVisitsField info
      clearExcess time (timeToField info) minVisits (first :: rest)
    | none => clearExcess time (oneDay * 60) 1 (first :: rest)

/-- `clear_excess_matches`, one channel after another. -/
def clearExcessMatches (time : Nat) (channels : ChannelInfoMap)
    (minVisitsField timeToField : ChannelInfo → Nat) (maxTriggerVisits : Nat)
    (stored : List ChannelMatch) : List ChannelMatch :=
  (stored.splitBy fun a b => a.channelId == b.channelId).flatMap
    (clearChannel time channels minVisitsField timeToField maxTriggerVisits)

structure Groups where
  positiveGroupSize : Nat
  negativeGroupSize : Nat

/-- `add_matches` of a profile. -/
def addAllMatches (groups : Groups) (time : Nat) (channels : ChannelInfoMap)
    (new : ByType MatchMap) (stored : ByType (List ChannelMatch)) (draws : Draws) :
    ByType (List ChannelMatch) × Draws :=
  let add (field : ChannelInfo → List Nat) (new : MatchMap) :=
    addMatches time channels field groups.positiveGroupSize groups.negativeGroupSize new.entries
  let (page, draws) := add (·.triggers.page) new.page stored.page draws
  let (search, draws) := add (·.triggers.search) new.search stored.search draws
  let (url, draws) := add (·.triggers.url) new.url stored.url draws
  let (urlKeyword, draws) := add (·.triggers.urlKeyword) new.urlKeyword stored.urlKeyword draws
  (⟨page, search, url, urlKeyword⟩, draws)

/-- `merge_matches` of a profile. -/
def mergeAllMatches (stored merged : ByType (List ChannelMatch)) : ByType (List ChannelMatch) where
  page := mergeMatches stored.page merged.page
  search := mergeMatches stored.search merged.search
  url := mergeMatches stored.url merged.url
  urlKeyword := mergeMatches stored.urlKeyword merged.urlKeyword

/-- `clear_excess_matches` of a profile. -/
def clearAllExcessMatches (time : Nat) (channels : ChannelInfoMap) (maxTriggerVisits : Nat)
    (stored : ByType (List ChannelMatch)) : ByType (List ChannelMatch) where
  page := clearExcessMatches time channels (·.minVisits.page) (·.timeTo.page)
    maxTriggerVisits stored.page
  search := clearExcessMatches time channels (·.minVisits.search) (·.timeTo.search)
    maxTriggerVisits stored.search
  url := clearExcessMatches time channels (·.minVisits.url) (·.timeTo.url)
    maxTriggerVisits stored.url
  urlKeyword := clearExcessMatches time channels (·.minVisits.urlKeyword) (·.timeTo.urlKeyword)
    maxTriggerVisits stored.urlKeyword

/-- The profiles that come of these, whatever the configurations and the draws are. -/
inductive Built : ByType (List ChannelMatch) → Prop where
  | new : Built ⟨[], [], [], []⟩
  | add {stored} (groups : Groups) (compensated : 1 ≤ groups.negativeGroupSize) (time : Nat)
      (channels : ChannelInfoMap) (new : ByType MatchMap) (draws : Draws) :
      Built stored → Built (addAllMatches groups time channels new stored draws).1
  | merge {stored merged} : Built stored → Built merged → Built (mergeAllMatches stored merged)
  | clear {stored} (time : Nat) (channels : ChannelInfoMap) (maxTriggerVisits : Nat) :
      Built stored → Built (clearAllExcessMatches time channels maxTriggerVisits stored)

theorem insertIndex_length (newVal addInd : Nat) (sampling : List Nat) :
    (insertIndex newVal addInd sampling).length = sampling.length + 1 := by
  induction sampling generalizing addInd with
  | nil => rfl
  | cons index rest ih =>
    unfold insertIndex
    split_ifs
    · simp only [List.length_cons, ih]
    · rfl

theorem fillIndexSampling_length (arraySize samplingSize : Nat) (sampling : List Nat)
    (draws : Draws) :
    (fillIndexSampling arraySize samplingSize sampling draws).1.length =
      sampling.length + samplingSize := by
  induction samplingSize generalizing sampling draws with
  | zero => rfl
  | succ samplingSize ih =>
    simp only [fillIndexSampling, ih, insertIndex_length]
    omega

theorem insertOrdered_length (trigger : Nat) (noised : List Nat) :
    (insertOrdered trigger noised).length = noised.length + 1 := by
  have split := congrArg List.length
    (List.takeWhile_append_dropWhile (p := fun other => decide (other < trigger)) (l := noised))
  rw [List.length_append] at split
  simp only [insertOrdered, List.length_append, List.length_cons]
  omega

/-- Each trigger is put into a group of the same size, found in the channel or not. -/
theorem fillNoisedTriggers_spec (channelTriggers : List Nat) (noiseSize : Nat)
    (triggers : List Nat) (res : Noised) (draws : Draws) :
    (fillNoisedTriggers fillIndexSampling channelTriggers noiseSize triggers res
      draws).1.noised.length =
      res.noised.length + triggers.length * (1 + (noiseSize - 1)) ∧
    (fillNoisedTriggers fillIndexSampling channelTriggers noiseSize triggers res
      draws).1.deactivated =
      res.deactivated ++
        triggers.filter fun trigger => (triggerIndex channelTriggers trigger).isNone := by
  induction triggers generalizing res draws with
  | nil => simp [fillNoisedTriggers]
  | cons trigger triggers ih =>
    cases found : triggerIndex channelTriggers trigger with
    | some index =>
      simp only [fillNoisedTriggers, found]
      refine ⟨(ih _ _).1.trans ?_, (ih _ _).2.trans (by simp [found])⟩
      simp only [triggersAt, List.length_append, List.length_map, fillIndexSampling_length,
        List.length_nil, List.length_cons]
      ring
    | none =>
      simp only [fillNoisedTriggers, found]
      refine ⟨(ih _ _).1.trans ?_, (ih _ _).2.trans (by simp [found])⟩
      simp only [triggersAt, insertOrdered_length, List.length_append, List.length_map,
        fillIndexSampling_length, List.length_nil, List.length_cons]
      ring

theorem fillCompensateTriggers_length (channelTriggers deactivated : List Nat)
    (compensateSize matchedTriggers : Nat) (res : List Nat) (draws : Draws) :
    (fillCompensateTriggers fillIndexSampling channelTriggers deactivated compensateSize
      matchedTriggers res draws).1.length = res.length + matchedTriggers * compensateSize := by
  induction matchedTriggers generalizing res draws with
  | zero => simp [fillCompensateTriggers]
  | succ matchedTriggers ih =>
    simp only [fillCompensateTriggers, ih, List.length_append, List.length_map,
      fillIndexSampling_length, List.length_nil]
    ring

/-- The sizes of its groups, for each of the matched triggers. -/
structure ChannelMatch.Grouped (stored : ChannelMatch) (positive negative : Nat) : Prop where
  matched : 1 ≤ stored.matchedTriggers
  positive_length : stored.positiveMatches.length = stored.matchedTriggers * positive
  negative_length : stored.negativeMatches.length = stored.matchedTriggers * negative
  one : 1 ≤ positive
  below : 1 < stored.triggersInChannel → positive < stored.triggersInChannel
  single : stored.triggersInChannel ≤ 1 → positive = 1 ∧ negative = 0
  alone : stored.triggersInChannel = 1 → stored.matchedTriggers = 1
  /-- Noise is compensated. -/
  compensated : negative = 0 → positive = 1

structure Stored (list : List ChannelMatch) : Prop where
  grouped : ∀ stored ∈ list, ∃ positive negative, stored.Grouped positive negative
  sorted : list.Pairwise fun a b => a.channelId ≤ b.channelId

theorem MatchedTriggerIdArray.length_pos (matched : MatchedTriggerIdArray) :
    1 ≤ matched.ids.length := List.length_pos_iff.2 matched.some_id

theorem mem_of_triggerIndex {channelTriggers : List Nat} {trigger index : Nat}
    (found : triggerIndex channelTriggers trigger = some index) : trigger ∈ channelTriggers := by
  unfold triggerIndex at found
  dsimp only at found
  split_ifs at found with there
  exact List.mem_of_getElem? there

theorem matched_alone {channelTriggers : List Nat} (matched : MatchedTriggerIdArray)
    (single : channelTriggers.length + (matched.ids.filter fun trigger =>
      (triggerIndex channelTriggers trigger).isNone).length = 1) : matched.ids.length = 1 := by
  have some_id := matched.length_pos
  cases channelTriggers with
  | nil =>
    have all : (matched.ids.filter fun trigger => (triggerIndex [] trigger).isNone) =
        matched.ids := by
      refine List.filter_eq_self.2 fun trigger _ => ?_
      simp [triggerIndex]
    rw [all] at single
    simpa using single
  | cons only rest =>
    simp only [List.length_cons] at single
    obtain rfl : rest = [] := List.length_eq_zero_iff.1 (by omega)
    have same : ∀ trigger ∈ matched.ids, trigger = only := by
      intro trigger there
      have nothing : (matched.ids.filter fun trigger =>
          (triggerIndex [only] trigger).isNone) = [] :=
        List.length_eq_zero_iff.1 (by simp only [List.length_nil] at single; omega)
      have found := List.filter_eq_nil_iff.1 nothing trigger there
      cases index : triggerIndex [only] trigger with
      | none => exact absurd (by simp [index]) found
      | some index => exact List.mem_singleton.1 (mem_of_triggerIndex (by assumption))
    by_contra more
    obtain ⟨first, second, others, ids⟩ : ∃ first second others,
        matched.ids = first :: second :: others := by
      cases h : matched.ids with
      | nil => exact absurd h matched.some_id
      | cons first tail =>
        cases tail with
        | nil => exact absurd (by simp [h]) more
        | cons second others => exact ⟨first, second, others, rfl⟩
    have sorted := matched.sorted
    rw [ids, List.pairwise_cons] at sorted
    have lt := sorted.1 second List.mem_cons_self
    rw [same first (by simp [ids]), same second (by simp [ids])] at lt
    exact lt_irrefl _ lt

theorem newMatch_grouped (time : Nat) (channels : ChannelInfoMap) (field : ChannelInfo → List Nat)
    (positiveGroupSize : Nat) {negativeGroupSize : Nat} (compensated : 1 ≤ negativeGroupSize)
    (channelId : Nat) (matched : MatchedTriggerIdArray) (draws : Draws) :
    ∃ positive negative, (newMatch time channels field positiveGroupSize negativeGroupSize
      channelId matched draws).1.Grouped positive negative := by
  unfold newMatch newMatchBy
  cases channels.find? channelId with
  | none => exact ⟨1, 0, matched.length_pos, by simp, by simp, le_rfl, by simp, by simp, by simp,
      fun _ => rfl⟩
  | some info =>
    obtain ⟨size, deactivated⟩ := fillNoisedTriggers_spec (field info)
      (min positiveGroupSize ((field info).length - 1)) matched.ids ⟨[], []⟩ draws
    dsimp only at size deactivated ⊢
    rw [List.nil_append] at deactivated
    rw [List.length_nil, Nat.zero_add] at size
    refine ⟨1 + (min positiveGroupSize ((field info).length - 1) - 1),
      if 1 < (field info).length then min negativeGroupSize (field info).length else 0,
      matched.length_pos, size, ?_, by omega, fun more => ?_, fun few => ?_, fun one => ?_, ?_⟩
    · split_ifs
      · simp [fillCompensateTriggers_length]
      · simp
    · dsimp only at more ⊢
      omega
    · dsimp only at few
      rw [if_neg (by omega)]
      omega
    · dsimp only at one ⊢
      rw [deactivated] at one
      exact matched_alone matched one
    · split_ifs
      · omega
      · omega

section Operations

variable {list : List ChannelMatch}

theorem Stored.nil : Stored [] := ⟨nofun, List.Pairwise.nil⟩

theorem Stored.sublist (stored : Stored list) {part : List ChannelMatch}
    (sublist : part.Sublist list) : Stored part :=
  ⟨fun one there => stored.grouped one (sublist.subset there), stored.sorted.sublist sublist⟩

theorem newMatch_channelId (time : Nat) (channels : ChannelInfoMap)
    (field : ChannelInfo → List Nat) (positiveGroupSize negativeGroupSize channelId : Nat)
    (matched : MatchedTriggerIdArray) (draws : Draws) :
    (newMatch time channels field positiveGroupSize negativeGroupSize channelId matched
      draws).1.channelId = channelId := by
  unfold newMatch newMatchBy
  cases channels.find? channelId <;> rfl

/-- The channels come in order, and all that is below the first of them has been passed. -/
theorem addMatches_stored (time : Nat) (channels : ChannelInfoMap)
    (field : ChannelInfo → List Nat) (positiveGroupSize : Nat) {negativeGroupSize : Nat}
    (compensated : 1 ≤ negativeGroupSize) (new : List (Nat × MatchedTriggerIdArray))
    (rising : new.Pairwise fun a b => a.1 < b.1) (stored : Stored list) (draws : Draws) :
    Stored (addMatches time channels field positiveGroupSize negativeGroupSize new list draws).1 ∧
    ∀ one ∈ (addMatches time channels field positiveGroupSize negativeGroupSize new list draws).1,
      one ∈ list ∨ one.channelId ∈ new.map Prod.fst := by
  induction new generalizing list draws with
  | nil => exact ⟨stored, fun one there => .inl there⟩
  | cons entry rest ih =>
    obtain ⟨channelId, matched⟩ := entry
    obtain ⟨above, rising⟩ := List.pairwise_cons.1 rising
    let before := fun one : ChannelMatch => decide (one.channelId < channelId ∨
      one.channelId = channelId ∧ one.time ≤ time)
    have split : list.takeWhile before ++ list.dropWhile before = list :=
      List.takeWhile_append_dropWhile
    have front : ∀ one ∈ list.takeWhile before, one.channelId ≤ channelId := by
      intro one there
      have passed := List.mem_takeWhile_imp there
      simp only [before, decide_eq_true_eq] at passed
      omega
    have back : ∀ one ∈ list.dropWhile before, channelId ≤ one.channelId := by
      cases rest_eq : list.dropWhile before with
      | nil => exact nofun
      | cons first tail =>
        have stops := List.head?_dropWhile_not before list
        simp only [rest_eq, List.head?_cons, before, decide_eq_false_iff_not] at stops
        have sorted := stored.sorted.sublist (List.dropWhile_sublist before)
        rw [rest_eq, List.pairwise_cons] at sorted
        intro one there
        obtain rfl | there := List.mem_cons.1 there
        · omega
        · exact le_trans (by omega) (sorted.1 one there)
    simp only [addMatches]
    obtain ⟨after, members⟩ := ih rising (stored.sublist (List.dropWhile_sublist before))
      (newMatch time channels field positiveGroupSize negativeGroupSize channelId matched draws).2
    have own := newMatch_channelId time channels field positiveGroupSize negativeGroupSize
      channelId matched draws
    have later : ∀ one ∈ (addMatches time channels field positiveGroupSize negativeGroupSize rest
        (list.dropWhile before) (newMatch time channels field positiveGroupSize negativeGroupSize
          channelId matched draws).2).1, channelId ≤ one.channelId := by
      intro one there
      obtain kept | new := members one there
      · exact back one kept
      · obtain ⟨entry, there, same⟩ := List.mem_map.1 new
        exact same ▸ (above entry there).le
    refine ⟨⟨?_, ?_⟩, ?_⟩
    · intro one there
      obtain there | there := List.mem_append.1 there
      · exact stored.grouped one ((List.takeWhile_sublist before).subset there)
      · obtain rfl | there := List.mem_cons.1 there
        · exact newMatch_grouped time channels field positiveGroupSize compensated channelId
            matched draws
        · exact after.grouped one there
    · refine List.pairwise_append.2 ⟨stored.sorted.sublist (List.takeWhile_sublist before),
        List.pairwise_cons.2 ⟨?_, after.sorted⟩, ?_⟩
      · intro one there
        rw [own]
        exact later one there
      · intro one there other there'
        refine (front one there).trans ?_
        obtain rfl | there' := List.mem_cons.1 there'
        · exact own.ge
        · exact later other there'
    · intro one there
      obtain there | there := List.mem_append.1 there
      · exact .inl ((List.takeWhile_sublist before).subset there)
      · obtain rfl | there := List.mem_cons.1 there
        · exact .inr (by simp [own])
        · obtain kept | new := members one there
          · exact .inl ((List.dropWhile_sublist before).subset kept)
          · exact .inr (List.mem_cons_of_mem _ new)

theorem mergeMatches_stored {new : List ChannelMatch} (stored : Stored list)
    (merged : Stored new) : Stored (mergeMatches list new) := by
  unfold mergeMatches
  split_ifs
  · exact stored
  · refine ⟨fun one there => ?_, ?_⟩
    · exact (List.mem_merge.1 there).elim (stored.grouped one) (merged.grouped one)
    · apply Lib.pairwise_merge_of
      · exact fun _ _ _ => Nat.le_trans
      · intro a b first
        simp only [matchLess, Bool.not_eq_true', decide_eq_false_iff_not] at first
        omega
      · intro a b second
        simp only [matchLess, Bool.not_eq_false', decide_eq_true_eq] at second
        omega
      · exact stored.sorted
      · exact merged.sorted

theorem clearExcessMatches_sublist (time : Nat) (channels : ChannelInfoMap)
    (minVisitsField timeToField : ChannelInfo → Nat) (maxTriggerVisits : Nat)
    (list : List ChannelMatch) :
    (clearExcessMatches time channels minVisitsField timeToField maxTriggerVisits list).Sublist
      list := by
  have channel : ∀ group : List ChannelMatch,
      (clearChannel time channels minVisitsField timeToField maxTriggerVisits group).Sublist group := by
    rintro (_ | ⟨first, rest⟩)
    · exact List.Sublist.refl _
    · rw [clearChannel]
      split
      · exact (List.dropWhile_sublist _).trans (List.drop_sublist _ _)
      · exact (List.dropWhile_sublist _).trans (List.drop_sublist _ _)
  have groups : ∀ groups : List (List ChannelMatch), (groups.flatMap
      (clearChannel time channels minVisitsField timeToField maxTriggerVisits)).Sublist
        groups.flatten := by
    intro groups
    induction groups with
    | nil => exact List.Sublist.refl _
    | cons group groups ih =>
      rw [List.flatMap_cons, List.flatten_cons]
      exact (channel group).append ih
  have whole := groups (list.splitBy fun a b => a.channelId == b.channelId)
  rwa [List.flatten_splitBy] at whole

end Operations

theorem Built.stored {all : ByType (List ChannelMatch)} (built : Built all) : all.Each Stored := by
  induction built with
  | new => exact ⟨.nil, .nil, .nil, .nil⟩
  | add groups compensated time channels new draws _ ih =>
    exact
      ⟨(addMatches_stored time channels _ _ compensated _ new.page.sorted ih.page _).1,
        (addMatches_stored time channels _ _ compensated _ new.search.sorted ih.search _).1,
        (addMatches_stored time channels _ _ compensated _ new.url.sorted ih.url _).1,
        (addMatches_stored time channels _ _ compensated _ new.urlKeyword.sorted ih.urlKeyword _).1⟩
  | merge _ _ ih ih' =>
    exact ⟨mergeMatches_stored ih.page ih'.page, mergeMatches_stored ih.search ih'.search,
      mergeMatches_stored ih.url ih'.url, mergeMatches_stored ih.urlKeyword ih'.urlKeyword⟩
  | clear time channels maxTriggerVisits _ ih =>
    exact ⟨ih.page.sublist (clearExcessMatches_sublist ..),
      ih.search.sublist (clearExcessMatches_sublist ..),
      ih.url.sublist (clearExcessMatches_sublist ..),
      ih.urlKeyword.sublist (clearExcessMatches_sublist ..)⟩

end AdServer.RequestInfo.UserTriggerMatch
