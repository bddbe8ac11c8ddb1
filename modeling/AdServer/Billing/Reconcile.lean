import AdServer.Billing.State
import AdServer.Lib.Cursor
import Mathlib.Data.List.TakeWhile
import Mathlib.Data.List.Perm.Subperm

/-!
# Reconciliation with the collected statistics

`BillingContainer::stat`: the days before a cut-off date are replaced by those
of the statistics, entity by entity, by walking the local amounts and the
source side by side in portions.
-/

namespace AdServer.Billing

open AdServer.Lib SortedMap

/-- `AmountDistribution` and `AmountCountDistribution`. -/
structure AmountDistribution (A : Type) where
  prevDaysAmount : A
  prevDay : Time
  dayAmounts : SortedMap Time A

section ReplaceAmount

variable {A : Type} [AddCommGroup A] (scale : A → A)

/-- Days inserted one by one, each starting from the total of those before it. -/
def insertDays : List (Time × A) → A → Days Time A → Days Time A
  | [], _, days => days
  | (date, amount) :: rest, before, days =>
    insertDays rest (before + scale amount) (days.insertNew date ⟨before, scale amount⟩)

/-- `replace_account_amount_` and `replace_amount_`: the days before the end date
are erased and, if there is a source, replaced by its days. The result says
whether the holder has days, and is false when the source is not used. -/
def replaceAmount_ (holder : Days Time A) (source : Option (AmountDistribution A))
    (useSourceEndDate : Time) : Days Time A × Bool :=
  if source.all (fun src => decide (src.prevDay < useSourceEndDate)) then
    let erasedBefore : A := match (holder.lowerBound useSourceEndDate).bind holder.find? with
      | some day => day.before
      | none => 0
    let kept := (holder.filterKeys (fun date => decide (useSourceEndDate ≤ date))).mapWith
      (fun _ day => { day with before := day.before - erasedBefore })
    match source with
    | none => (kept, !kept.isEmpty)
    | some src =>
      let replacing :=
        src.dayAmounts.entries.takeWhile (fun day => decide (day.1 < useSourceEndDate))
      let replacedAmount := replacing.foldl (fun sum day => sum + scale day.2)
        (scale src.prevDaysAmount)
      let moved := kept.mapWith (fun _ day => { day with before := day.before + replacedAmount })
      let based :=
        if src.prevDay ≠ 0 then moved.insertNew src.prevDay ⟨scale src.prevDaysAmount, 0⟩
        else moved
      let days := insertDays scale replacing (scale src.prevDaysAmount) based
      (days, !days.isEmpty)
  else (holder, false)

/-! ## What the source gives an entity that is not recorded -/

/-- The day of a date when the days of a list are inserted in order. -/
def dayOf : List (Time × A) → A → Time → Option (Day A)
  | [], _, _ => none
  | (date, amount) :: rest, before, d =>
    if date = d then some ⟨before, scale amount⟩ else dayOf rest (before + scale amount) d

/-- The day the source has for a date, wherever it is cut. -/
def sourceDay (src : AmountDistribution A) (d : Time) : Option (Day A) :=
  if src.prevDay ≠ 0 ∧ d = src.prevDay then some ⟨scale src.prevDaysAmount, 0⟩
  else dayOf scale src.dayAmounts.entries (scale src.prevDaysAmount) d

variable {scale}

theorem find?_insertDays (l : List (Time × A)) (before : A) (days : Days Time A) (d : Time) :
    (insertDays scale l before days).find? d = (days.find? d).or (dayOf scale l before d) := by
  induction l generalizing before days with
  | nil => simp [insertDays, dayOf]
  | cons entry rest ih =>
    obtain ⟨date, amount⟩ := entry
    rw [insertDays, ih, find?_insertNew, dayOf]
    by_cases e : date = d
    · subst e
      cases h : days.find? date <;> simp
    · cases h : days.find? d <;> simp [e, Ne.symm e]

theorem dayOf_eq_none {l : List (Time × A)} {before : A} {d : Time} (h : ∀ e ∈ l, e.1 ≠ d) :
    dayOf scale l before d = none := by
  induction l generalizing before with
  | nil => rfl
  | cons entry rest ih =>
    rw [dayOf, if_neg (h entry (by simp)), ih fun e he => h e (by simp [he])]

theorem isSome_dayOf (l : List (Time × A)) (before : A) (d : Time) :
    (dayOf scale l before d).isSome ↔ d ∈ l.map Prod.fst := by
  induction l generalizing before with
  | nil => simp [dayOf]
  | cons entry rest ih =>
    obtain ⟨date, amount⟩ := entry
    by_cases e : date = d
    · simp [dayOf, e]
    · simp only [dayOf, if_neg e, ih, List.map_cons, List.mem_cons, Ne.symm e, false_or]

theorem dayOf_takeWhile {l : List (Time × A)} (sorted : l.Pairwise (fun a b => a.1 < b.1))
    (before : A) (endDate d : Time) :
    dayOf scale (l.takeWhile (fun day => decide (day.1 < endDate))) before d =
      if d < endDate then dayOf scale l before d else none := by
  induction l generalizing before with
  | nil => simp [dayOf]
  | cons entry rest ih =>
    obtain ⟨later, sorted'⟩ := List.pairwise_cons.1 sorted
    by_cases lt : entry.1 < endDate
    · rw [List.takeWhile_cons_of_pos (by simpa using lt), dayOf, dayOf, ih sorted']
      by_cases e : entry.1 = d
      · simp [e, e ▸ lt]
      · simp [e]
    · rw [List.takeWhile_cons_of_neg (by simpa using lt)]
      by_cases hd : d < endDate
      · have none_here : dayOf scale (entry :: rest) before d = none := by
          refine dayOf_eq_none fun e he => ?_
          rcases List.mem_cons.1 he with rfl | he
          · exact fun same => lt (same ▸ hd)
          · exact fun same => lt ((later e he).trans (same ▸ hd))
        rw [none_here]
        simp [dayOf]
      · simp [dayOf, hd]

/-- What the source gives an entity that is not recorded: its days on the dates
that the cut-off chooses. -/
theorem replaceAmount_source (src : AmountDistribution A) (endDate d : Time) :
    (replaceAmount_ scale empty (some src) endDate).1.find? d =
      if src.prevDay < endDate ∧ d < endDate then sourceDay scale src d else none := by
  unfold replaceAmount_ sourceDay
  by_cases used : src.prevDay < endDate
  · simp only [Option.all_some, used, decide_true, if_true, true_and]
    rw [find?_insertDays, dayOf_takeWhile src.dayAmounts.sorted]
    by_cases prev : src.prevDay ≠ 0
    · rw [if_pos prev, find?_insertNew]
      by_cases e : d = src.prevDay
      · simp [find?_mapWith, find?_filterKeys, e, prev, used]
      · simp [find?_mapWith, find?_filterKeys, e]
    · simp [find?_mapWith, find?_filterKeys, prev]
  · simp [used]

theorem replaceAmount_source_snd (src : AmountDistribution A) (endDate : Time) :
    (replaceAmount_ scale empty (some src) endDate).2 =
      !(replaceAmount_ scale empty (some src) endDate).1.isEmpty := by
  unfold replaceAmount_
  split
  · rfl
  · rfl

/-- The dates of a source entry. -/
def AmountDistribution.HasDate (src : AmountDistribution A) (d : Time) : Prop :=
  src.prevDay ≠ 0 ∧ d = src.prevDay ∨ d ∈ src.dayAmounts.keys

theorem isSome_sourceDay (src : AmountDistribution A) (d : Time) :
    (sourceDay scale src d).isSome ↔ src.HasDate d := by
  unfold sourceDay AmountDistribution.HasDate
  split
  · rename_i h
    simp [h]
  · rename_i h
    rw [isSome_dayOf]
    simp only [keys, h, false_or]

/-- Two cut-offs choose the same dates of a source entry. -/
def SameDates (src : AmountDistribution A) (endDate endDate' : Time) : Prop :=
  ∀ d, src.HasDate d →
    (src.prevDay < endDate ∧ d < endDate ↔ src.prevDay < endDate' ∧ d < endDate')

theorem replaceAmount_source_eq_iff (src : AmountDistribution A) (endDate endDate' : Time) :
    (replaceAmount_ scale empty (some src) endDate).1 =
        (replaceAmount_ scale empty (some src) endDate').1 ↔
      SameDates src endDate endDate' := by
  constructor
  · intro h d hd
    have dated : (sourceDay scale src d).isSome := (isSome_sourceDay src d).2 hd
    obtain ⟨day, hday⟩ := Option.isSome_iff_exists.1 dated
    have found := congrArg (fun days => days.find? d) h
    simp only [replaceAmount_source, hday] at found
    constructor
    · intro chosen
      by_contra missed
      rw [if_pos chosen, if_neg missed] at found
      cases found
    · intro chosen
      by_contra missed
      rw [if_neg missed, if_pos chosen] at found
      cases found
  · intro h
    refine ext_find fun d => ?_
    rw [replaceAmount_source, replaceAmount_source]
    cases hday : sourceDay scale src d with
    | none => simp
    | some day =>
      have dated : (sourceDay scale src d).isSome := by simp [hday]
      have same := h d ((isSome_sourceDay src d).1 dated)
      simp only [same]

end ReplaceAmount

section Merge

/-- The iterators as keys, the local amounts, and the ids visited so far, which
the code does not keep. -/
structure MergeState (A : Type) where
  amounts : Ledgers Nat Time A
  cur : Option Nat
  source : Option Nat
  visited : List Nat

variable {A E : Type} [AddCommGroup A]

/-- What one reconciliation reads: the statistics, the configuration with its
time offsets, the time the statistics are trusted up to, and the rounding. -/
structure ReplaceContext (A E : Type) where
  sourceAmounts : SortedMap Nat (AmountDistribution A)
  entitiesConfig : Option (SortedMap Nat E)
  timeOffset : E → Time
  baseUseSourceEndTime : Time
  getDate : Time → Time
  scale : A → A
  replacePortionSize : Nat

variable (C : ReplaceContext A E)

/-- `def_use_source_end_date`: the largest possible time offset, UTC + 14. -/
def defUseSourceEndDate : Time := C.getDate (C.baseUseSourceEndTime - oneHour * 14)

/-- `use_source_end_date` for an entity. -/
def useSourceEndDate (entityId : Nat) : Time :=
  match C.entitiesConfig.bind (fun config => config.find? entityId) with
  | some entity => C.getDate (C.baseUseSourceEndTime + C.timeOffset entity)
  | none => defUseSourceEndDate C

/-- Source defined, local not. The end date is that of `entityId`. -/
def visitSource (st : MergeState A) (entityId id : Nat) : MergeState A :=
  let replaced := replaceAmount_ C.scale SortedMap.empty (C.sourceAmounts.find? id)
    (useSourceEndDate C entityId)
  { amounts := if replaced.2 then st.amounts.insertNew id replaced.1 else st.amounts
    cur := st.cur
    source := C.sourceAmounts.upperBound id
    visited := st.visited ++ [id] }

/-- Local defined: replaced in place, and erased when no days are left. -/
def visitLocal (st : MergeState A) (id : Nat) (source : Option (AmountDistribution A))
    (nextSource : Option Nat) : MergeState A :=
  let replaced := replaceAmount_ C.scale (Ledgers.days st.amounts id) source
    (useSourceEndDate C id)
  { amounts :=
      if replaced.1.isEmpty then st.amounts.erase id
      else st.amounts.modify id (fun _ => replaced.1)
    cur := st.amounts.upperBound id
    source := nextSource
    visited := st.visited ++ [id] }

/-- One turn of the inner loop. The entity id that chooses the end date is the
local one unless the local amounts are at their end. -/
def mergeStep (st : MergeState A) : MergeState A :=
  match st.cur, st.source with
  | none, none => st
  | none, some id => visitSource C st id id
  | some cur, none => visitLocal C st cur none none
  | some cur, some id =>
    if id < cur then visitSource C st cur id
    else if cur < id then visitLocal C st cur none (some id)
    else visitLocal C st cur (C.sourceAmounts.find? id) (C.sourceAmounts.upperBound id)

/-- The inner loop, counting up to the portion size. -/
def mergePortion : Nat → MergeState A → MergeState A
  | 0, st => st
  | n + 1, st =>
    if st.cur.isNone && st.source.isNone then st else mergePortion n (mergeStep C st)

/-- The outer loop, with as much fuel as there may be portions. Each portion
takes the lock anew and finds its place by `last_key`. -/
def replaceLoop : Nat → MergeState A → Option Nat → Bool → Option (MergeState A)
  | 0, _, _, _ => none
  | fuel + 1, st, lastKey, targetEndReached =>
    let cur :=
      if targetEndReached then none
      else match lastKey with
        | some key => st.amounts.lowerBound key
        | none => st.amounts.first?
    let st := mergePortion C C.replacePortionSize { st with cur := cur }
    let targetEndReached := st.cur.isNone
    if targetEndReached && st.source.isNone then some st
    else replaceLoop fuel st (if targetEndReached then lastKey else st.cur) targetEndReached

/-- Both functions, generic in the amounts they keep. -/
def replaceLedgers (amounts : Ledgers Nat Time A) : Option (MergeState A) :=
  replaceLoop C (amounts.size + C.sourceAmounts.size + 1)
    ⟨amounts, none, C.sourceAmounts.first?, []⟩ none false

/-! ## What the walk leaves -/

/-- A holder with no days is not kept. -/
def kept (days : Days Time A) : Option (Days Time A) := if days.isEmpty then none else some days

variable (amounts : Ledgers Nat Time A)

/-- What `replace_amount_` gives an id with a cut-off date. -/
def replacedAt (id : Nat) (endDate : Time) : Option (Days Time A) :=
  kept (replaceAmount_ C.scale (Ledgers.days amounts id) (C.sourceAmounts.find? id) endDate).1

/-- Whose time offset cuts an id: its own, or that of the next local id when only
the source has it. -/
def drivingId (id : Nat) : Nat :=
  if (amounts.find? id).isSome then id else (amounts.upperBound id).getD id

def actualAmount (id : Nat) : Option (Days Time A) :=
  replacedAt C amounts id (useSourceEndDate C (drivingId amounts id))

/-- Every id on its own, cut by its own offset. -/
def expectedAmount (id : Nat) : Option (Days Time A) :=
  replacedAt C amounts id (useSourceEndDate C id)

/-- Visited ids have their new amount, the others are untouched, and both
iterators are at their first id that is not visited. -/
structure MergeInv (st : MergeState A) : Prop where
  cur : Cursor amounts st.visited st.cur
  source : Cursor C.sourceAmounts st.visited st.source
  ascending : st.visited.Pairwise (· < ·)
  known : ∀ v ∈ st.visited, v ∈ amounts.keys ∨ v ∈ C.sourceAmounts.keys
  amounts : ∀ id, st.amounts.find? id =
    if id ∈ st.visited then actualAmount C amounts id else amounts.find? id

variable {C amounts} {st : MergeState A} {id : Nat}

theorem MergeInv.visit_ascending (h : MergeInv C amounts st) (above : ∀ v ∈ st.visited, v < id) :
    (st.visited ++ [id]).Pairwise (· < ·) := by
  refine List.pairwise_append.2 ⟨h.ascending, List.pairwise_singleton _ _, ?_⟩
  intro v hv w hw
  exact List.mem_singleton.1 hw ▸ above v hv

omit [AddCommGroup A] in
theorem days_eq_empty (missing : id ∉ amounts.keys) : Ledgers.days amounts id = empty := by
  have : amounts.find? id = none := by
    simpa [mem_keys, Option.not_isSome_iff_eq_none] using missing
  simp [Ledgers.days, this]

theorem visitSource_inv (h : MergeInv C amounts st) (at_id : st.source = some id)
    (before : ∀ c, st.cur = some c → id < c) :
    MergeInv C amounts (visitSource C st (st.cur.getD id) id) := by
  have hsource : Cursor C.sourceAmounts st.visited (some id) := at_id ▸ h.source
  have ⟨hid, above, _⟩ := hsource
  have new := hsource.not_visited
  have missing := h.cur.not_mem new before
  have not_found : amounts.find? id = none := by
    simpa [mem_keys, Option.not_isSome_iff_eq_none] using missing
  have driving : drivingId amounts id = st.cur.getD id := by
    simp [drivingId, not_found, h.cur.upperBound_eq above before]
  obtain ⟨src, found⟩ := Option.isSome_iff_exists.1 (mem_keys.1 hid)
  have actual : actualAmount C amounts id =
      kept (replaceAmount_ C.scale empty (some src)
        (useSourceEndDate C (st.cur.getD id))).1 := by
    rw [actualAmount, replacedAt, driving, days_eq_empty missing, found]
  refine ⟨h.cur.skip before, hsource.advance, h.visit_ascending above, ?_, ?_⟩
  · intro v hv
    rcases List.mem_append.1 hv with hv | hv
    · exact h.known v hv
    · exact .inr (List.mem_singleton.1 hv ▸ hid)
  · intro id'
    have untouched : st.amounts.find? id = none := by rw [h.amounts, if_neg new, not_found]
    simp only [visitSource, found, replaceAmount_source_snd, List.mem_append, List.mem_singleton]
    by_cases e : id' = id
    · subst e
      have now : id' ∈ st.visited ∨ id' = id' := .inr rfl
      rw [if_pos now, actual, kept]
      cases isEmpty (replaceAmount_ C.scale empty (some src)
          (useSourceEndDate C (st.cur.getD id'))).1 with
      | true => simpa using untouched
      | false => simp [find?_insertNew, untouched]
    · simp only [e, or_false]
      rw [← h.amounts id']
      split
      · rw [find?_insertNew, if_neg (fun both => e both.1)]
      · rfl

theorem visitLocal_inv (h : MergeInv C amounts st) (at_id : st.cur = some id)
    {nextSource : Option Nat} (next : Cursor C.sourceAmounts (st.visited ++ [id]) nextSource) :
    MergeInv C amounts (visitLocal C st id (C.sourceAmounts.find? id) nextSource) := by
  have hcur : Cursor amounts st.visited (some id) := at_id ▸ h.cur
  have ⟨hid, above, _⟩ := hcur
  have new := hcur.not_visited
  have untouched : st.amounts.find? id = amounts.find? id := by rw [h.amounts, if_neg new]
  have same_days : Ledgers.days st.amounts id = Ledgers.days amounts id := by
    simp only [Ledgers.days, untouched]
  have driving : drivingId amounts id = id := if_pos (mem_keys.1 hid)
  have advance : st.amounts.upperBound id = amounts.upperBound id := by
    refine hcur.upperBound_congr fun j hj => ?_
    rw [mem_keys, mem_keys, h.amounts, if_neg hj]
  have actual : actualAmount C amounts id = kept (replaceAmount_ C.scale (Ledgers.days amounts id)
      (C.sourceAmounts.find? id) (useSourceEndDate C id)).1 := by
    rw [actualAmount, replacedAt, driving]
  refine ⟨?_, next, h.visit_ascending above, ?_, ?_⟩
  · simp only [visitLocal, advance]
    exact hcur.advance
  · intro v hv
    rcases List.mem_append.1 hv with hv | hv
    · exact h.known v hv
    · exact .inl (List.mem_singleton.1 hv ▸ hid)
  · intro id'
    simp only [visitLocal, same_days, List.mem_append, List.mem_singleton]
    by_cases e : id' = id
    · subst e
      obtain ⟨days, present⟩ := Option.isSome_iff_exists.1 (mem_keys.1 hid)
      have now : id' ∈ st.visited ∨ id' = id' := .inr rfl
      rw [if_pos now, actual, kept]
      split
      · simp [find?_erase]
      · simp [find?_modify, untouched, present]
    · simp only [e, or_false]
      rw [← h.amounts id']
      split
      · rw [find?_erase, if_neg e]
      · rw [find?_modify, if_neg e]

theorem mergeStep_inv (h : MergeInv C amounts st) : MergeInv C amounts (mergeStep C st) := by
  unfold mergeStep
  split
  · exact h
  · rename_i id at_end at_id
    have visited := visitSource_inv h at_id (by simp [at_end])
    rwa [at_end] at visited
  · rename_i id at_id at_end
    have missing : C.sourceAmounts.find? id = none := by
      have := h.source.not_mem ((at_id ▸ h.cur : Cursor amounts _ (some id)).not_visited)
        (by simp [at_end])
      simpa [mem_keys, Option.not_isSome_iff_eq_none] using this
    have visited := visitLocal_inv h at_id
      ((at_end ▸ h.source : Cursor C.sourceAmounts _ none).skip (by simp))
    rwa [missing] at visited
  · rename_i cur id at_cur at_id
    split
    · rename_i lt
      have visited := visitSource_inv h at_id (by simpa [at_cur] using lt)
      rwa [at_cur] at visited
    · split
      · rename_i lt
        have before : ∀ c, some id = some c → cur < c := by simpa using lt
        have missing : C.sourceAmounts.find? cur = none := by
          have := h.source.not_mem ((at_cur ▸ h.cur : Cursor amounts _ (some cur)).not_visited)
            (by simpa [at_id] using lt)
          simpa [mem_keys, Option.not_isSome_iff_eq_none] using this
        have visited := visitLocal_inv h at_cur
          ((at_id ▸ h.source : Cursor C.sourceAmounts _ (some id)).skip before)
        rwa [missing] at visited
      · have same : id = cur := by omega
        subst same
        exact visitLocal_inv h at_cur (at_id ▸ h.source : Cursor C.sourceAmounts _ (some id)).advance

theorem mergeStep_visited (some_left : ¬ (st.cur = none ∧ st.source = none)) :
    (mergeStep C st).visited.length = st.visited.length + 1 := by
  unfold mergeStep
  split
  · rename_i h1 h2
    exact absurd ⟨h1, h2⟩ some_left
  · simp [visitSource]
  · simp [visitLocal]
  · split
    · simp [visitSource]
    · split <;> simp [visitLocal]

/-- A portion ends at the end of both maps or has visited as many ids as it may. -/
theorem mergePortion_spec (h : MergeInv C amounts st) (n : Nat) :
    MergeInv C amounts (mergePortion C n st) ∧
      ((mergePortion C n st).cur = none ∧ (mergePortion C n st).source = none ∨
        (mergePortion C n st).visited.length = st.visited.length + n) := by
  induction n generalizing st with
  | zero => exact ⟨h, .inr rfl⟩
  | succ n ih =>
    unfold mergePortion
    split
    · rename_i ended
      simp only [Bool.and_eq_true, Option.isNone_iff_eq_none] at ended
      exact ⟨h, .inl ended⟩
    · rename_i some_left
      simp only [Bool.and_eq_true, Option.isNone_iff_eq_none] at some_left
      obtain ⟨inv, outcome⟩ := ih (mergeStep_inv h)
      refine ⟨inv, outcome.imp_right fun length => ?_⟩
      rw [length, mergeStep_visited some_left]
      omega

theorem MergeInv.length_le (h : MergeInv C amounts st) :
    st.visited.length ≤ amounts.size + C.sourceAmounts.size := by
  have distinct : st.visited.Nodup := h.ascending.imp fun lt => lt.ne
  have among : st.visited ⊆ amounts.keys ++ C.sourceAmounts.keys :=
    fun v hv => List.mem_append.2 (h.known v hv)
  have bound := (distinct.subperm among).length_le
  simpa [keys, size] using bound

/-- The loop finds its place again after each portion and has fuel for all of
them. -/
theorem replaceLoop_spec (portion : 0 < C.replacePortionSize) (fuel : Nat) (st : MergeState A)
    (lastKey : Option Nat) (targetEndReached : Bool) (h : MergeInv C amounts { st with cur :=
      if targetEndReached then none
      else match lastKey with
        | some key => st.amounts.lowerBound key
        | none => st.amounts.first? })
    (enough : amounts.size + C.sourceAmounts.size < fuel + st.visited.length) :
    ∃ st', replaceLoop C fuel st lastKey targetEndReached = some st' ∧ MergeInv C amounts st' ∧
      st'.cur = none ∧ st'.source = none := by
  induction fuel generalizing st lastKey targetEndReached with
  | zero =>
    have := h.length_le
    dsimp only at this
    omega
  | succ fuel ih =>
    obtain ⟨inv, outcome⟩ := mergePortion_spec h C.replacePortionSize
    unfold replaceLoop
    dsimp only at outcome inv ⊢
    generalize mergePortion C C.replacePortionSize _ = st' at inv outcome ⊢
    by_cases ended : st'.cur = none ∧ st'.source = none
    · refine ⟨st', ?_, inv, ended⟩
      simp [ended]
    · rw [if_neg (by simpa using ended)]
      have length := outcome.resolve_left ended
      refine ih _ _ _ ?_ (by omega)
      have again : (if st'.cur.isNone = true then none
          else match (if st'.cur.isNone = true then lastKey else st'.cur) with
            | some key => st'.amounts.lowerBound key
            | none => st'.amounts.first?) = st'.cur := by
        cases at_cur : st'.cur with
        | none => rfl
        | some key =>
          have hcur : Cursor amounts st'.visited (some key) := at_cur ▸ inv.cur
          have present : key ∈ st'.amounts.keys := by
            rw [mem_keys, inv.amounts, if_neg hcur.not_visited]
            exact mem_keys.1 hcur.1
          exact lowerBound_eq_some.2 ⟨present, le_rfl, fun j _ le => le⟩
      rw [again]
      exact inv

omit amounts in
theorem isEmpty_replaceAmount_none (endDate : Time) :
    (replaceAmount_ C.scale empty none endDate).1.isEmpty = true := rfl

/-- The walk ends, has visited every id of the two maps once, and has left at
each id its actual amount. -/
theorem replaceLedgers_spec (amounts : Ledgers Nat Time A) (portion : 0 < C.replacePortionSize) :
    ∃ st, replaceLedgers C amounts = some st ∧
      (∀ id, st.amounts.find? id = actualAmount C amounts id) ∧ st.visited.Nodup ∧
      ∀ id, id ∈ st.visited ↔ id ∈ amounts.keys ∨ id ∈ C.sourceAmounts.keys := by
  have start : MergeInv C amounts
      ⟨amounts, amounts.first?, C.sourceAmounts.first?, []⟩ :=
    ⟨.first _, .first _, .nil, by simp, by simp⟩
  obtain ⟨st, result, inv, cur_end, source_end⟩ := replaceLoop_spec portion
    (amounts.size + C.sourceAmounts.size + 1) ⟨amounts, none, C.sourceAmounts.first?, []⟩ none false
    start (by simp)
  have visited (id : Nat) : id ∈ st.visited ↔ id ∈ amounts.keys ∨ id ∈ C.sourceAmounts.keys := by
    refine ⟨inv.known id, ?_⟩
    rintro (h | h)
    · exact (cur_end ▸ inv.cur : Cursor amounts _ none) id h
    · exact (source_end ▸ inv.source : Cursor C.sourceAmounts _ none) id h
  refine ⟨st, result, fun id => ?_, inv.ascending.imp fun lt => lt.ne, visited⟩
  rw [inv.amounts id]
  by_cases h : id ∈ st.visited
  · rw [if_pos h]
  · rw [if_neg h]
    have missing := mt (visited id).2 h
    simp only [mem_keys, not_or, Option.not_isSome_iff_eq_none] at missing
    simp only [actualAmount, replacedAt, Ledgers.days, missing.1, missing.2, Option.getD_none, kept,
      isEmpty_replaceAmount_none, if_true]

variable (C amounts)

/-- Every id independently: its own local days, its own source entry and its own
cut-off date; and every id of the two maps is visited exactly once. -/
def Reconciled (result : Option (MergeState A)) : Prop :=
  ∃ st, result = some st ∧ (∀ id, st.amounts.find? id = expectedAmount C amounts id) ∧
    st.visited.Nodup ∧ ∀ id, id ∈ st.visited ↔ id ∈ amounts.keys ∨ id ∈ C.sourceAmounts.keys

/-- Each id that only the source has, and that a local id follows, would be cut
at the same dates by its own offset and by that of the next local id. -/
def CutoffsAgree : Prop :=
  ∀ id src next, C.sourceAmounts.find? id = some src → amounts.find? id = none →
    amounts.upperBound id = some next →
      SameDates src (useSourceEndDate C id) (useSourceEndDate C next)

variable {C amounts}

omit [AddCommGroup A] amounts in
theorem kept_injective {a b : Days Time A} : kept a = kept b ↔ a = b := by
  constructor
  · intro h
    have empty {m : Days Time A} (hm : m.isEmpty = true) : m = empty :=
      ext_find (by simpa using isEmpty_iff.1 hm)
    unfold kept at h
    split at h <;> split at h
    · rename_i ha hb
      rw [empty ha, empty hb]
    · cases h
    · cases h
    · exact Option.some.inj h
  · rintro rfl
    rfl

/-- At an id that only the source has, what is left is what the id's own cut-off
gives exactly when the two cut-offs choose the same dates. -/
theorem actual_eq_expected_iff :
    (∀ id, actualAmount C amounts id = expectedAmount C amounts id) ↔ CutoffsAgree C amounts := by
  constructor
  · intro h id src next found missing following
    have same := h id
    simp only [actualAmount, expectedAmount, replacedAt, drivingId, Ledgers.days, found, missing,
      following, Option.getD_none, Option.getD_some, Option.isSome_none, Bool.false_eq_true,
      if_false, kept_injective, replaceAmount_source_eq_iff] at same
    exact fun d hd => (same d hd).symm
  · intro h id
    unfold actualAmount expectedAmount drivingId
    cases missing : amounts.find? id with
    | some days => rfl
    | none =>
      cases following : amounts.upperBound id with
      | none => rfl
      | some next =>
        cases found : C.sourceAmounts.find? id with
        | none => simp only [replacedAt, Ledgers.days, missing, found, Option.getD_none, kept,
            isEmpty_replaceAmount_none, if_true]
        | some src =>
          simp only [replacedAt, Ledgers.days, missing, found, Option.getD_none, Option.getD_some,
            Option.isSome_none, Bool.false_eq_true, if_false, kept_injective,
            replaceAmount_source_eq_iff]
          exact fun d hd => (h id src next found missing following d hd).symm

theorem reconciled_iff (portion : 0 < C.replacePortionSize) :
    Reconciled C amounts (replaceLedgers C amounts) ↔ CutoffsAgree C amounts := by
  obtain ⟨st, result, left, once, visited⟩ := replaceLedgers_spec amounts portion
  rw [← actual_eq_expected_iff]
  constructor
  · rintro ⟨st', result', expected, -⟩ id
    obtain rfl : st = st' := Option.some.inj (result.symm.trans result')
    rw [← left id, expected id]
  · intro same
    exact ⟨st, result, fun id => (left id).trans (same id), once, visited⟩

end Merge

/-- `BillingContainer` as the two functions see it. -/
structure StatContext where
  timeOfDay : Time
  statDelay : Time
  limitCoef : Int
  replacePortionSize : Nat

def accountContext (P : Platform) (S : StatContext)
    (sourceAmounts : SortedMap Nat (AmountDistribution Int))
    (entitiesConfig : Option (SortedMap Nat Account)) : ReplaceContext Int Account where
  sourceAmounts := sourceAmounts
  entitiesConfig := entitiesConfig
  timeOffset := Account.timeOffset
  baseUseSourceEndTime := S.timeOfDay - S.statDelay
  getDate := P.getDate
  scale := fun amount => P.mul amount S.limitCoef
  replacePortionSize := S.replacePortionSize

def amountContext (P : Platform) (S : StatContext)
    (sourceAmounts : SortedMap Nat (AmountDistribution Counts))
    (entitiesConfig : Option (SortedMap Nat DeliveryLimits)) :
    ReplaceContext Counts DeliveryLimits where
  sourceAmounts := sourceAmounts
  entitiesConfig := entitiesConfig
  timeOffset := DeliveryLimits.timeOffset
  baseUseSourceEndTime := S.timeOfDay - S.statDelay
  getDate := P.getDate
  scale := fun x =>
    ⟨P.mul x.amount S.limitCoef, P.mul x.imps S.limitCoef, P.mul x.clicks S.limitCoef⟩
  replacePortionSize := S.replacePortionSize

/-- `replace_account_amounts_`. -/
def replaceAccountAmounts_ (P : Platform) (S : StatContext) (dayAmounts : Ledgers Nat Time Int)
    (sourceAmounts : SortedMap Nat (AmountDistribution Int))
    (entitiesConfig : Option (SortedMap Nat Account)) : Option (MergeState Int) :=
  replaceLedgers (accountContext P S sourceAmounts entitiesConfig) dayAmounts

/-- `replace_amounts_`. -/
def replaceAmounts_ (P : Platform) (S : StatContext) (dayAmounts : Ledgers Nat Time Counts)
    (sourceAmounts : SortedMap Nat (AmountDistribution Counts))
    (entitiesConfig : Option (SortedMap Nat DeliveryLimits)) : Option (MergeState Counts) :=
  replaceLedgers (amountContext P S sourceAmounts entitiesConfig) dayAmounts

/-- Both functions reconcile every entity on its own exactly when the cut-offs
agree. -/
theorem replaceAmounts_pointwise_iff (P : Platform) (S : StatContext)
    (portion : 0 < S.replacePortionSize) :
    (∀ amounts source config,
      Reconciled (amountContext P S source config) amounts
          (replaceAmounts_ P S amounts source config) ↔
        CutoffsAgree (amountContext P S source config) amounts) ∧
    ∀ amounts source config,
      Reconciled (accountContext P S source config) amounts
          (replaceAccountAmounts_ P S amounts source config) ↔
        CutoffsAgree (accountContext P S source config) amounts :=
  ⟨fun _ source config => reconciled_iff (C := amountContext P S source config) portion,
    fun _ source config => reconciled_iff (C := accountContext P S source config) portion⟩

section Example

/-- Two days trusted, in portions of one. -/
def twoDays : StatContext := ⟨2 * oneDay, 0, 100000000, 1⟩

/-- An account of which only the statistics know: one amount on the second day. -/
def secondDay : SortedMap Nat (AmountDistribution Int) :=
  SortedMap.empty.put 3 ⟨0, 0, SortedMap.empty.put oneDay 100⟩

/-- A later local account, kept for its third day. -/
def laterAccount : Ledgers Nat Time Int :=
  SortedMap.empty.put 5 (SortedMap.empty.put (2 * oneDay) ⟨0, 7⟩)

/-- The later account's offset is `offset`, the first one's is zero. -/
def offsets (offset : Time) : Option (SortedMap Nat Account) :=
  some ((SortedMap.empty.put 3 ⟨true, 0, 1000⟩).put 5 ⟨true, offset, 1000⟩)

/-- The second day ends for the first account, but not yet for the later one,
whose offset is an hour behind: the first account's amount is not taken. -/
theorem neighbour_cutoff_used :
    ¬ ∀ (P : Platform) (S : StatContext), 0 < S.replacePortionSize →
      ∀ (amounts : Ledgers Nat Time Int) (source : SortedMap Nat (AmountDistribution Int))
        (config : Option (SortedMap Nat Account)),
        (∀ id src, source.find? id = some src → src.dayAmounts.isEmpty = false ∨ src.prevDay ≠ 0) →
        Reconciled (accountContext P S source config) amounts
          (replaceAccountAmounts_ P S amounts source config) := by
  intro always
  have day_amounts : ∀ id src, secondDay.find? id = some src →
      src.dayAmounts.isEmpty = false ∨ src.prevDay ≠ 0 := by
    intro id src h
    rw [secondDay, find?_put] at h
    split at h
    · obtain rfl := Option.some.inj h
      exact .inl rfl
    · cases h
  obtain ⟨st, result, expected, -⟩ :=
    always .floored twoDays (by decide) laterAccount secondDay (offsets (-oneHour)) day_amounts
  have left : ((replaceAccountAmounts_ .floored twoDays laterAccount secondDay
      (offsets (-oneHour))).map fun st => st.amounts.find? 3) = some none := by decide +kernel
  rw [result, Option.map_some, expected 3] at left
  exact absurd left (by decide +kernel)

/-- With one offset for both, every portion size reconciles. -/
theorem same_offset_reconciled :
    Reconciled (accountContext .floored twoDays secondDay (offsets 0)) laterAccount
      (replaceAccountAmounts_ .floored twoDays laterAccount secondDay (offsets 0)) := by
  refine ((replaceAmounts_pointwise_iff .floored twoDays (by decide)).2 _ _ _).2 ?_
  intro id src next found missing following d _
  have id_eq : id = 3 := by
    by_contra other
    rw [accountContext, secondDay, find?_put, if_neg other] at found
    cases found
  subst id_eq
  obtain rfl : 5 = next := by
    have : laterAccount.upperBound 3 = some 5 := by decide
    exact Option.some.inj (this.symm.trans following)
  have same : useSourceEndDate (accountContext .floored twoDays secondDay (offsets 0)) 3 =
      useSourceEndDate (accountContext .floored twoDays secondDay (offsets 0)) 5 := by decide +kernel
  rw [same]

end Example

end AdServer.Billing
