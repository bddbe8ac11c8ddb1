import AdServer.Lib.Counting
import AdServer.UserInfo.Stamps

/-!
# The walks over sorted ids

The operations go through the freq caps and a list of ids together. Where both
are sorted, each freq cap is met once with all that concerns it.
-/

namespace AdServer.UserInfo

open AdServer.Lib

/-- The freq caps are kept by increasing id. -/
def ById (fcs : List FreqCap) : Prop := fcs.Pairwise (fun left right => left.fcId < right.fcId)

/-- The counter an id has for its occurrences: the first of the unconfirmed ones
counts as such, the others as confirmed. -/
def counterOf (unconfirmed : Bool) (fcId occurrences : Nat) : FreqCapCounter :=
  if unconfirmed then ⟨fcId, occurrences - 1, 1⟩ else ⟨fcId, occurrences, 0⟩

theorem counterOf_fcId (unconfirmed : Bool) (fcId occurrences : Nat) :
    (counterOf unconfirmed fcId occurrences).fcId = fcId := by
  unfold counterOf
  split <;> rfl

/-- What the packing of sorted ids has made of the ids so far. -/
structure Packed (unconfirmed : Bool) (done : List Nat) (packed : List FreqCapCounter) : Prop where
  sorted : packed.Pairwise (fun left right => right.fcId < left.fcId)
  counters : ∀ counter ∈ packed, 0 < done.count counter.fcId ∧
    counter = counterOf unconfirmed counter.fcId (done.count counter.fcId)
  covers : ∀ fcId ∈ done, fcId ∈ packed.map FreqCapCounter.fcId

variable {unconfirmed : Bool} {fcs : List FreqCap}

theorem packed_packOne {done : List Nat} {packed : List FreqCapCounter}
    (h : Packed unconfirmed done packed) {fcId : Nat} (last : ∀ before ∈ done, before ≤ fcId) :
    Packed unconfirmed (done ++ [fcId]) (packOne unconfirmed packed fcId) := by
  have stays (counter : FreqCapCounter) (mem : counter ∈ packed) (other : counter.fcId ≠ fcId) :
      0 < (done ++ [fcId]).count counter.fcId ∧ counter = counterOf unconfirmed counter.fcId
        ((done ++ [fcId]).count counter.fcId) := by
    have same : (done ++ [fcId]).count counter.fcId = done.count counter.fcId := by
      rw [List.count_append, List.count_singleton]
      simp [Ne.symm other]
    rw [same]
    exact h.counters counter mem
  have known (counter : FreqCapCounter) (mem : counter ∈ packed) : counter.fcId ≤ fcId :=
    last counter.fcId (List.count_pos_iff.1 (h.counters counter mem).1)
  have fresh_counter (new : fcId ∉ done) :
      (if unconfirmed then (⟨fcId, 0, 1⟩ : FreqCapCounter) else ⟨fcId, 1, 0⟩) =
        counterOf unconfirmed fcId ((done ++ [fcId]).count fcId) := by
    rw [List.count_append, List.count_eq_zero.2 new, List.count_singleton_self]
    cases unconfirmed <;> rfl
  cases packed with
  | nil =>
    have nothing : done = [] := by
      cases done with
      | nil => rfl
      | cons a rest =>
        have := h.covers a (by simp)
        simp at this
    subst nothing
    have eq := fresh_counter (by simp)
    refine ⟨List.pairwise_singleton _ _, fun counter mem => ?_, fun id mem => ?_⟩
    · have is_new : counter = counterOf unconfirmed fcId (([] ++ [fcId]).count fcId) := by
        rw [← eq]
        simpa [packOne] using mem
      have id_eq : counter.fcId = fcId := by rw [is_new, counterOf_fcId]
      rw [id_eq]
      exact ⟨by simp, is_new⟩
    · obtain rfl : id = fcId := by simpa using mem
      cases unconfirmed <;> simp [packOne]
  | cons back rest =>
    obtain ⟨head, tail⟩ := List.pairwise_cons.1 h.sorted
    by_cases same : back.fcId = fcId
    · obtain ⟨positive, value⟩ := h.counters back (by simp)
      rw [packOne, if_pos same]
      refine ⟨List.pairwise_cons.2 ⟨head, tail⟩, fun counter mem => ?_, fun id mem => ?_⟩
      · obtain rfl | later := List.mem_cons.1 mem
        · have grown : (done ++ [fcId]).count fcId = done.count fcId + 1 := by simp
          simp only [same] at positive value ⊢
          rw [grown]
          refine ⟨Nat.succ_pos _, ?_⟩
          rw [value]
          unfold counterOf
          cases unconfirmed
          · rfl
          · simp only [if_true, FreqCapCounter.mk.injEq, true_and, and_true]
            omega
        · have lower := head counter later
          exact stays counter (by simp [later]) (by omega)
      · obtain before | new := List.mem_append.1 mem
        · simpa using h.covers id before
        · obtain rfl := List.mem_singleton.1 new
          simp [same]
    · have new : fcId ∉ done := by
        intro present
        obtain ⟨counter, mem, eq⟩ := List.mem_map.1 (h.covers fcId present)
        obtain rfl | later := List.mem_cons.1 mem
        · exact same eq
        · have lower := head counter later
          have bound := known back (by simp)
          omega
      have eq := fresh_counter new
      simp only [packOne, if_neg same]
      rw [eq]
      have below (counter : FreqCapCounter) (mem : counter ∈ back :: rest) :
          counter.fcId < fcId := by
        have bound := known counter mem
        have other : counter.fcId ≠ fcId := by
          intro equal
          exact new (equal ▸ List.count_pos_iff.1 (h.counters counter mem).1)
        omega
      refine ⟨List.pairwise_cons.2 ⟨fun counter mem => ?_, h.sorted⟩, fun counter mem => ?_,
        fun id mem => ?_⟩
      · rw [counterOf_fcId]
        exact below counter mem
      · obtain rfl | before := List.mem_cons.1 mem
        · rw [counterOf_fcId]
          exact ⟨by simp, rfl⟩
        · exact stays counter before (below counter before).ne
      · obtain before | added := List.mem_append.1 mem
        · rw [List.map_cons]
          exact List.mem_cons_of_mem _ (h.covers id before)
        · obtain rfl := List.mem_singleton.1 added
          simp [counterOf_fcId]

theorem packed_foldl {fcs : List Nat} (sorted : fcs.Pairwise (· ≤ ·)) :
    Packed unconfirmed fcs (fcs.foldl (packOne unconfirmed) []) := by
  induction fcs using List.reverseRecOn with
  | nil => exact ⟨List.Pairwise.nil, by simp, by simp⟩
  | append_singleton done fcId ih =>
    obtain ⟨before, -, across⟩ := List.pairwise_append.1 sorted
    rw [List.foldl_append]
    exact packed_packOne (ih before) fun id mem => across id mem fcId (by simp)

section Pack

variable {fcs : List Nat} (sorted : fcs.Pairwise (· ≤ ·)) (unconfirmed : Bool)

include sorted

theorem pairwise_packFreqCaps :
    (packFreqCaps fcs unconfirmed).Pairwise (fun left right => left.fcId < right.fcId) := by
  rw [packFreqCaps, List.pairwise_reverse]
  exact (packed_foldl sorted).sorted

theorem mem_packFreqCaps {counter : FreqCapCounter} (mem : counter ∈ packFreqCaps fcs unconfirmed) :
    0 < fcs.count counter.fcId ∧
      counter = counterOf unconfirmed counter.fcId (fcs.count counter.fcId) :=
  (packed_foldl sorted).counters counter (List.mem_reverse.1 mem)

theorem fcId_mem_packFreqCaps {fcId : Nat} :
    fcId ∈ (packFreqCaps fcs unconfirmed).map FreqCapCounter.fcId ↔ fcId ∈ fcs := by
  constructor
  · intro mem
    obtain ⟨counter, inPacked, rfl⟩ := List.mem_map.1 mem
    exact List.count_pos_iff.1 (mem_packFreqCaps sorted unconfirmed inPacked).1
  · intro mem
    have packed : Packed unconfirmed fcs _ := packed_foldl sorted
    have covered := packed.covers fcId mem
    rw [packFreqCaps, List.map_reverse]
    exact List.mem_reverse.2 covered

end Pack

section PackBoth

variable {cFcs ucFcs : List Nat} (cSorted : cFcs.Pairwise (· ≤ ·))
  (ucSorted : ucFcs.Pairwise (· ≤ ·))

include cSorted ucSorted

theorem pairwise_packBoth :
    (packBoth cFcs ucFcs).Pairwise (fun left right => left.fcId < right.fcId) := by
  unfold packBoth
  apply pairwise_mergeUnique
  · exact fun _ => rfl
  · exact fun _ => rfl
  · exact fun _ _ same => same
  · exact pairwise_packFreqCaps cSorted false
  · exact pairwise_packFreqCaps ucSorted true

/-- A counter counts the occurrences in the first list, and in the second one
all but the first as confirmed. -/
theorem mem_packBoth {counter : FreqCapCounter} (mem : counter ∈ packBoth cFcs ucFcs) :
    counter.count = cFcs.count counter.fcId + (ucFcs.count counter.fcId - 1) ∧
      counter.ucCount = min 1 (ucFcs.count counter.fcId) := by
  have no_counter {fcs : List Nat} (sorted : fcs.Pairwise (· ≤ ·)) (unconfirmed : Bool)
      (fcId : Nat) (none_packed : ∀ other ∈ packFreqCaps fcs unconfirmed, other.fcId ≠ fcId) :
      fcs.count fcId = 0 := by
    apply List.count_eq_zero.2
    intro present
    obtain ⟨other, inPacked, eq⟩ :=
      List.mem_map.1 ((fcId_mem_packFreqCaps sorted unconfirmed).2 present)
    exact none_packed other inPacked eq
  obtain ⟨_, inC, rfl, no⟩ | ⟨_, inUc, rfl, no⟩ | ⟨left, inC, right, inUc, same, rfl⟩ :=
    mem_mergeUnique (pairwise_packFreqCaps cSorted false) (pairwise_packFreqCaps ucSorted true) mem
  · obtain ⟨-, value⟩ := mem_packFreqCaps cSorted false inC
    have absent := no_counter ucSorted true counter.fcId fun other h => (no other h).symm
    rw [absent]
    generalize cFcs.count counter.fcId = occurrences at value
    rw [value]
    exact ⟨rfl, rfl⟩
  · obtain ⟨positive, value⟩ := mem_packFreqCaps ucSorted true inUc
    have absent := no_counter cSorted false counter.fcId no
    rw [absent]
    generalize ucFcs.count counter.fcId = occurrences at value positive
    rw [value]
    simp only [counterOf, if_true]
    omega
  · obtain ⟨-, leftValue⟩ := mem_packFreqCaps cSorted false inC
    obtain ⟨positive, rightValue⟩ := mem_packFreqCaps ucSorted true inUc
    simp only
    rw [← same] at rightValue positive
    have leftCount : left.count = cFcs.count left.fcId ∧ left.ucCount = 0 := by
      rw [leftValue, counterOf_fcId]
      exact ⟨rfl, rfl⟩
    have rightCount : right.count = ucFcs.count left.fcId - 1 ∧ right.ucCount = 1 := by
      rw [rightValue]
      exact ⟨rfl, rfl⟩
    omega

theorem fcId_mem_packBoth {fcId : Nat} :
    fcId ∈ (packBoth cFcs ucFcs).map FreqCapCounter.fcId ↔ fcId ∈ cFcs ∨ fcId ∈ ucFcs := by
  unfold packBoth
  rw [← fcId_mem_packFreqCaps cSorted false, ← fcId_mem_packFreqCaps ucSorted true]
  apply mem_keys_mergeUnique
  · exact fun _ => rfl
  · exact fun _ => rfl
  · exact fun _ _ same => same

end PackBoth

/-- Sorted freq caps are skipped up to the first that is not before the id. -/
theorem skipTo_split (fcId : Nat) (sorted : ById fcs) :
    ∃ lower rest, fcs = lower ++ rest ∧ (∀ fc ∈ lower, fc.fcId < fcId) ∧
      (∀ fc ∈ rest, fcId ≤ fc.fcId) ∧ ById rest ∧
      ∀ next : List FreqCap → List FreqCap, next [] = [] →
        skipTo fcId next fcs = lower ++ next rest := by
  induction fcs with
  | nil => exact ⟨[], [], rfl, by simp, by simp, List.Pairwise.nil, fun next h => h.symm⟩
  | cons fc fcs ih =>
    obtain ⟨head, tail⟩ := List.pairwise_cons.1 sorted
    by_cases before : fc.fcId < fcId
    · obtain ⟨lower, rest, rfl, low, high, rest_sorted, skip⟩ := ih tail
      refine ⟨fc :: lower, rest, rfl, ?_, high, rest_sorted, fun next h => ?_⟩
      · simpa using ⟨before, low⟩
      · rw [skipTo, if_pos before, skip next h]
        rfl
    · refine ⟨[], fc :: fcs, rfl, by simp, ?_, sorted, fun next _ => ?_⟩
      · intro other mem
        obtain rfl | later := List.mem_cons.1 mem
        · omega
        · have := head other later
          omega
      · rw [skipTo, if_neg before]
        rfl

/-- A decrease: the id it concerns, the time and how many impressions. -/
abbrev Decrease := (Nat ×ₗ Nat) × Nat

variable {decs : List Decrease}

def Decrease.fcId (dec : Decrease) : Nat := (ofLex dec.1).1

def Decrease.time (dec : Decrease) : Nat := (ofLex dec.1).2

/-- What is left of a freq cap after all the decreases of its id. -/
def decreaseBy : List Decrease → FreqCap → Option FreqCap
  | [], fc => some fc
  | dec :: decs, fc =>
    if fc.fcId = dec.fcId then
      let left := decrease fc dec.time dec.2
      if left.lastImpressions.isEmpty ∧ left.totalImpressions = 0 then none
      else decreaseBy decs left
    else decreaseBy decs fc

theorem decreaseBy_other {fc : FreqCap} (other : ∀ dec ∈ decs, fc.fcId ≠ dec.fcId) :
    decreaseBy decs fc = some fc := by
  induction decs with
  | nil => rfl
  | cons dec decs ih =>
    rw [decreaseBy, if_neg (other dec (by simp))]
    exact ih fun later h => other later (by simp [h])

theorem applyDecreases_eq (decsSorted : decs.Pairwise (fun left right => left.fcId ≤ right.fcId))
    (sorted : ById fcs) : applyDecreases decs fcs = fcs.filterMap (decreaseBy decs) := by
  induction decs generalizing fcs with
  | nil =>
    change fcs = fcs.filterMap some
    exact (List.filterMap_some).symm
  | cons dec decs ih =>
    obtain ⟨headDec, tailDecs⟩ := List.pairwise_cons.1 decsSorted
    obtain ⟨lower, rest, rfl, low, high, rest_sorted, skip⟩ := skipTo_split dec.fcId sorted
    have skipped : lower.filterMap (decreaseBy (dec :: decs)) = lower := by
      rw [List.filterMap_eq_map_iff_forall_eq_some.2, List.map_id]
      intro fc mem
      have before := low fc mem
      refine decreaseBy_other fun other h => ?_
      obtain rfl | later := List.mem_cons.1 h
      · exact before.ne
      · have := headDec other later
        omega
    refine Eq.trans (skip _ rfl) ?_
    rw [List.filterMap_append, skipped]
    congr 1
    cases rest with
    | nil => rfl
    | cons fc rest =>
      obtain ⟨head, tail⟩ := List.pairwise_cons.1 rest_sorted
      have first := high fc (by simp)
      -- the freq caps that follow are not those of this decrease
      have rest_same : rest.filterMap (decreaseBy (dec :: decs)) =
          rest.filterMap (decreaseBy decs) := by
        apply List.filterMap_congr
        intro later mem
        have higher := head later mem
        rw [decreaseBy, if_neg (by omega)]
      change (if fc.fcId = dec.fcId then
          if (decrease fc dec.time dec.2).lastImpressions.isEmpty ∧
              (decrease fc dec.time dec.2).totalImpressions = 0 then applyDecreases decs rest
          else applyDecreases decs (decrease fc dec.time dec.2 :: rest)
        else applyDecreases decs (fc :: rest)) = _
      rw [List.filterMap_cons, rest_same]
      by_cases same : fc.fcId = dec.fcId
      · rw [if_pos same, decreaseBy, if_pos same]
        by_cases emptied : (decrease fc dec.time dec.2).lastImpressions.isEmpty ∧
            (decrease fc dec.time dec.2).totalImpressions = 0
        · simp only [if_pos emptied]
          exact ih tailDecs tail
        · simp only [if_neg emptied]
          have left_sorted : ById (decrease fc dec.time dec.2 :: rest) :=
            List.pairwise_cons.2 ⟨head, tail⟩
          rw [ih tailDecs left_sorted, List.filterMap_cons]
      · rw [if_neg same, decreaseBy, if_neg same, ih tailDecs rest_sorted, List.filterMap_cons]

/-- How many impressions of the id are taken back. -/
def takenBack (fcId : Nat) (decs : List Decrease) : Nat :=
  (decs.map fun dec => (if dec.fcId = fcId then 1 else 0) * dec.2).sum

/-- How many of them have the stamp. -/
def takenStamps (fcId stamp : Nat) (decs : List Decrease) : Nat :=
  (decs.map fun dec =>
    (if dec.fcId = fcId ∧ stamp = toUcTimestamp dec.time then 1 else 0) * dec.2).sum

theorem takenBack_cons (fcId : Nat) (dec : Decrease) (decs : List Decrease) :
    takenBack fcId (dec :: decs) = (if dec.fcId = fcId then dec.2 else 0) + takenBack fcId decs := by
  rw [takenBack, List.map_cons, List.sum_cons, ite_mul, Nat.one_mul, Nat.zero_mul]
  rfl

theorem takenStamps_cons (fcId stamp : Nat) (dec : Decrease) (decs : List Decrease) :
    takenStamps fcId stamp (dec :: decs) =
      (if dec.fcId = fcId ∧ stamp = toUcTimestamp dec.time then dec.2 else 0) +
        takenStamps fcId stamp decs := by
  rw [takenStamps, List.map_cons, List.sum_cons, ite_mul, Nat.one_mul, Nat.zero_mul]
  rfl

section DecreaseBy

variable {decs : List Decrease} (positive : ∀ dec ∈ decs, 0 < dec.2)
  (fits : ∀ dec ∈ decs, Fits31 dec.time) {fc : FreqCap}
  (sorted : StampsSorted fc.lastImpressions) (fits32 : Fits32 fc.lastImpressions)

include positive fits sorted fits32

/-- What is left has the decreases taken from its total and from its stamps. -/
theorem decreaseBy_some {left : FreqCap} (h : decreaseBy decs fc = some left) :
    left.fcId = fc.fcId ∧ left.totalImpressions = fc.totalImpressions - takenBack fc.fcId decs ∧
      left.lastImpressions.Sublist fc.lastImpressions ∧
      ∀ stamp, left.lastImpressions.count stamp =
        fc.lastImpressions.count stamp - takenStamps fc.fcId stamp decs := by
  induction decs generalizing fc with
  | nil =>
    obtain rfl := Option.some.inj h
    exact ⟨rfl, rfl, List.Sublist.refl _, fun stamp => rfl⟩
  | cons dec decs ih =>
    have rest := fun fc sorted fits32 => @ih (fun d m => positive d (by simp [m]))
      (fun d m => fits d (by simp [m])) fc sorted fits32
    rw [decreaseBy] at h
    by_cases same : fc.fcId = dec.fcId
    · simp only [if_pos same] at h
      split at h
      · cases h
      · have sub := eraseStamps_sublist fc.lastImpressions (toUcTimestamp dec.time) dec.2
        obtain ⟨id_eq, total_eq, stamps_sub, stamps_eq⟩ := rest (decrease fc dec.time dec.2)
          (sorted.sublist sub) (fun stamp mem => fits32 stamp (sub.mem mem)) h
        refine ⟨id_eq, ?_, stamps_sub.trans sub, fun stamp => ?_⟩
        · rw [total_eq, takenBack_cons, if_pos same.symm]
          simp only [decrease]
          omega
        · have erased := count_eraseStamps sorted fits32 (fits dec (by simp)) dec.2 stamp
          have amount := positive dec (by simp)
          rw [stamps_eq, takenStamps_cons]
          simp only [decrease]
          rw [erased]
          by_cases uc : stamp = toUcTimestamp dec.time
          · rw [if_pos uc, if_pos ⟨same.symm, uc⟩]
            omega
          · rw [if_neg uc, if_neg fun h => uc h.2]
            omega
    · rw [if_neg same] at h
      obtain ⟨id_eq, total_eq, stamps_sub, stamps_eq⟩ := rest fc sorted fits32 h
      have other : ¬ dec.fcId = fc.fcId := Ne.symm same
      refine ⟨id_eq, ?_, stamps_sub, fun stamp => ?_⟩
      · rw [total_eq, takenBack_cons, if_neg other, Nat.zero_add]
      · rw [stamps_eq, takenStamps_cons, if_neg fun h => other h.1, Nat.zero_add]

omit positive fits sorted fits32 in
theorem decreaseBy_none (h : decreaseBy decs fc = none) :
    fc.totalImpressions ≤ takenBack fc.fcId decs := by
  induction decs generalizing fc with
  | nil => cases h
  | cons dec decs ih =>
    rw [decreaseBy] at h
    by_cases same : fc.fcId = dec.fcId
    · simp only [if_pos same] at h
      rw [takenBack_cons, if_pos same.symm]
      split at h
      · next emptied =>
        have none_left : fc.totalImpressions - dec.2 = 0 := emptied.2
        omega
      · have rest : fc.totalImpressions - dec.2 ≤ takenBack fc.fcId decs := ih h
        omega
    · rw [if_neg same] at h
      have rest := ih h
      rw [takenBack_cons]
      omega

end DecreaseBy

/-- The impressions the requests wait with: ids and times. -/
def unconfirmedImps (ucFreqCaps : List UcFreqCap) : List (Nat × Nat) :=
  ucFreqCaps.flatMap fun uc => uc.freqCapIds.map fun fcId => (fcId, uc.time)

theorem countDecreases_eq (expired : List UcFreqCap) :
    countDecreases expired = SortedMap.countAll ((unconfirmedImps expired).map toLex) := by
  rw [SortedMap.countAll, unconfirmedImps, List.foldl_map, List.foldl_flatMap, countDecreases]
  congr 1
  funext decreases uc
  rw [List.foldl_map]
  rfl

theorem countDecreases_sorted (expired : List UcFreqCap) :
    (countDecreases expired).entries.Pairwise
      (fun left right => Decrease.fcId left ≤ Decrease.fcId right) := by
  refine (countDecreases expired).sorted.imp fun {left right} less => ?_
  obtain lower | ⟨same, -⟩ := Prod.Lex.lt_iff.1 less
  · exact lower.le
  · exact same.le

theorem countDecreases_entries {expired : List UcFreqCap} {dec : Decrease}
    (mem : dec ∈ (countDecreases expired).entries) :
    0 < dec.2 ∧ ∃ uc ∈ expired, dec.time = uc.time := by
  rw [countDecreases_eq] at mem
  refine ⟨SortedMap.pos_countAll mem, ?_⟩
  obtain ⟨imp, inImps, eq⟩ := List.mem_map.1 (SortedMap.mem_of_countAll mem)
  obtain ⟨uc, inExpired, inIds⟩ := List.mem_flatMap.1 inImps
  obtain ⟨fcId, -, rfl⟩ := List.mem_map.1 inIds
  exact ⟨uc, inExpired, by rw [Decrease.time, ← eq]; rfl⟩

/-- Of the freq caps and stamps with a property, as many are counted as occur among the
requests. -/
theorem sumBy_countDecreases (p : Nat × Nat → Prop) [DecidablePred p]
    (expired : List UcFreqCap) :
    SortedMap.sumBy (fun key : Nat ×ₗ Nat => if p (ofLex key) then 1 else 0)
        (countDecreases expired) =
      (unconfirmedImps expired).countP fun imp => p imp := by
  have sums := SortedMap.sumBy_countAll (fun key : Nat ×ₗ Nat =>
    if p (ofLex key) then 1 else 0) ((unconfirmedImps expired).map toLex)
  rw [← countDecreases_eq] at sums
  refine Eq.trans sums ?_
  rw [List.map_map]
  induction unconfirmedImps expired with
  | nil => rfl
  | cons imp rest ih =>
    rw [List.map_cons, List.sum_cons, ih, List.countP_cons, Function.comp, ofLex_toLex]
    by_cases holds : p imp
    · rw [if_pos holds, if_pos (by simpa using holds), Nat.add_comm]
    · rw [if_neg holds, if_neg (by simpa using holds), Nat.zero_add]
      rfl

theorem takenBack_countDecreases (fcId : Nat) (expired : List UcFreqCap) :
    takenBack fcId (countDecreases expired).entries =
      (unconfirmedImps expired).countP (fun imp => imp.1 = fcId) :=
  sumBy_countDecreases (fun imp => imp.1 = fcId) expired

theorem takenStamps_countDecreases (fcId stamp : Nat) (expired : List UcFreqCap) :
    takenStamps fcId stamp (countDecreases expired).entries =
      (unconfirmedImps expired).countP
        (fun imp => imp.1 = fcId ∧ stamp = toUcTimestamp imp.2) :=
  sumBy_countDecreases (fun imp => imp.1 = fcId ∧ stamp = toUcTimestamp imp.2) expired

theorem confirmFreqCaps_eq (cfg : FreqCapConfig) (now : Time) (time : Nat) {ids : List Nat}
    (idsSorted : ids.Pairwise (· ≤ ·)) (sorted : ById fcs) :
    confirmFreqCaps cfg now time ids fcs = fcs.map fun fc =>
      if fc.fcId ∈ ids then confirmFreqCap cfg now time fc else fc := by
  induction ids generalizing fcs with
  | nil => simp [confirmFreqCaps]
  | cons fcId ids ih =>
    obtain ⟨headId, tailIds⟩ := List.pairwise_cons.1 idsSorted
    obtain ⟨lower, rest, rfl, low, high, rest_sorted, skip⟩ := skipTo_split fcId sorted
    have skipped : lower.map (fun fc =>
        if fc.fcId ∈ fcId :: ids then confirmFreqCap cfg now time fc else fc) = lower := by
      refine (List.map_congr_left fun fc mem => ?_).trans (List.map_id lower)
      have before := low fc mem
      rw [if_neg]
      · rfl
      · intro listed
        obtain same | later := List.mem_cons.1 listed
        · omega
        · have := headId fc.fcId later
          omega
    rw [confirmFreqCaps, skip, List.map_append, skipped]
    · congr 1
      cases rest with
      | nil => rfl
      | cons fc rest =>
        obtain ⟨head, tail⟩ := List.pairwise_cons.1 rest_sorted
        have first := high fc (by simp)
        have rest_same : rest.map (fun fc =>
            if fc.fcId ∈ fcId :: ids then confirmFreqCap cfg now time fc else fc) =
            rest.map (fun fc => if fc.fcId ∈ ids then confirmFreqCap cfg now time fc else fc) := by
          apply List.map_congr_left
          intro later mem
          have higher := head later mem
          have other : later.fcId ≠ fcId := by omega
          simp [other]
        simp only []
        rw [List.map_cons, rest_same]
        by_cases same : fcId = fc.fcId
        · rw [if_pos same, ih tailIds tail, if_pos (by simp [same])]
        · have rest_ids : ById (fc :: rest) := rest_sorted
          rw [if_neg same, ih tailIds rest_ids, List.map_cons]
          simp [Ne.symm same]
    · rfl

end AdServer.UserInfo
