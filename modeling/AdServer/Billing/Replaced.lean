import AdServer.Billing.Chained

/-!
# One entity after a reconciliation

What `replace_amount_` and `replace_account_amount_` leave of a chained holder:
nothing counted twice and nothing lost.
-/

namespace AdServer.Billing

open AdServer.Lib

section Replaced

variable {A : Type} [AddCommGroup A] {scale : A → A}

/-- The source days before the cut-off. -/
def sourceBefore (src : AmountDistribution A) (endDate : Time) : List (Time × A) :=
  src.dayAmounts.entries.filter (fun day => decide (day.1 < endDate))

/-- The recorded days from the cut-off on. -/
def recordedFrom (holder : Days Time A) (endDate : Time) : List (Time × Day A) :=
  holder.entries.filter (fun day => decide (endDate ≤ day.1))

omit [AddCommGroup A] in
theorem takeWhile_eq_filter {l : List (Time × A)} (sorted : l.Pairwise (fun a b => a.1 < b.1))
    (endDate : Time) : l.takeWhile (fun day => decide (day.1 < endDate)) =
      l.filter (fun day => decide (day.1 < endDate)) := by
  induction l with
  | nil => rfl
  | cons day rest ih =>
    obtain ⟨later, sorted'⟩ := List.pairwise_cons.1 sorted
    by_cases lt : day.1 < endDate
    · simp [lt, ih sorted']
    · have none_left : rest.filter (fun day => decide (day.1 < endDate)) = [] := by
        apply List.filter_eq_nil_iff.2
        intro e he below
        exact lt ((later e he).trans (by simpa using below))
      simp [lt, none_left]

/-- The days before the cut-off are the source's, those from it on the recorded ones, and the
total is of both. -/
structure ReplacedBy (scale : A → A) (holder : Days Time A) (src : AmountDistribution A)
    (endDate : Time) (days : Days Time A) : Prop where
  chained : days.Chained
  base : src.prevDay ≠ 0 → (days.find? src.prevDay).map Day.before = some (scale src.prevDaysAmount)
  early : ∀ d < endDate, (days.find? d).map Day.value =
    if src.prevDay ≠ 0 ∧ d = src.prevDay then some 0 else (src.dayAmounts.find? d).map scale
  late : ∀ d, endDate ≤ d → (days.find? d).map Day.value = (holder.find? d).map Day.value
  total : days.total =
    (if src.prevDay ≠ 0 ∨ sourceBefore src endDate ≠ [] ∨ recordedFrom holder endDate ≠ [] then
      scale src.prevDaysAmount else 0) +
    (((sourceBefore src endDate).map (fun day => scale day.2)).sum +
      ((recordedFrom holder endDate).map (fun day => day.2.value)).sum)

theorem value_dayOf (l : List (Time × A)) (before : A) (d : Time) :
    (dayOf scale l before d).map Day.value =
      (l.find? (fun day => day.1 == d)).map (fun day => scale day.2) := by
  induction l generalizing before with
  | nil => rfl
  | cons day rest ih =>
    by_cases same : day.1 = d
    · simp [dayOf, same]
    · simp [dayOf, same, ih]

variable {holder : Days Time A} {src : AmountDistribution A} {endDate : Time}

/-- The kept days as they are moved. -/
def movedDays (holder : Days Time A) (endDate : Time) (start : A) : Days Time A :=
  (keptDays holder endDate).shift (start - (keptDays holder endDate).base)

theorem value_movedDays (start : A) (d : Time) :
    ((movedDays holder endDate start).find? d).map Day.value =
      if endDate ≤ d then (holder.find? d).map Day.value else none := by
  rw [movedDays, Days.shift, SortedMap.find?_mapWith, keptDays, SortedMap.find?_filterKeys]
  by_cases late : endDate ≤ d
  · simp [late, Function.comp_def]
  · simp [late]

theorem movedDays_values (start : A) :
    (movedDays holder endDate start).entries.map (fun e => e.2.value) =
      (recordedFrom holder endDate).map (fun day => day.2.value) := by
  simp [movedDays, Days.shift, SortedMap.mapWith, keptDays, SortedMap.filterKeys, recordedFrom,
    Function.comp_def]

theorem base_movedDays (start : A) : (movedDays holder endDate start).base =
    if recordedFrom holder endDate ≠ [] then start else 0 := by
  have same : (keptDays holder endDate).entries = recordedFrom holder endDate := rfl
  rw [← same]
  unfold movedDays
  generalize keptDays holder endDate = kept
  obtain ⟨entries, sorted⟩ := kept
  cases entries with
  | nil => rfl
  | cons day rest => simp [Days.shift, Days.base, SortedMap.mapWith]

theorem movedDays_late (start : A) {d : Time} (h : d ∈ (movedDays holder endDate start).keys) :
    endDate ≤ d := by
  rw [movedDays, Days.keys_shift] at h
  exact (keptDays_late h).1

theorem layDays_values (l : List (Time × A)) (before : A) :
    (layDays scale l before).map (fun e => e.2.value) = l.map (fun day => scale day.2) := by
  induction l generalizing before with
  | nil => rfl
  | cons day rest ih => simp [layDays, ih]

section Used

variable (ordered : src.Ordered) (used : src.prevDay < endDate)

include ordered used

theorem entries_replaced :
    (replaceAmount_ scale holder (some src) endDate).1.entries = sourceDays scale src endDate ++
      (movedDays holder endDate (replacedAmount scale src endDate)).entries := by
  rw [replaceAmount_laid holder used]
  exact entries_laidBefore (fun d hd => movedDays_late _ hd) ordered used

theorem find?_replaced (d : Time) :
    (replaceAmount_ scale holder (some src) endDate).1.find? d =
      (((sourceDays scale src endDate).find? (fun e => e.1 == d)).map Prod.snd).or
        ((movedDays holder endDate (replacedAmount scale src endDate)).find? d) := by
  simp [SortedMap.find?, entries_replaced ordered used, List.find?_append, Option.map_or]

theorem replaceAmount_early {d : Time} (early : d < endDate) :
    (replaceAmount_ scale holder (some src) endDate).1.find? d =
      if src.prevDay ≠ 0 ∧ d = src.prevDay then some ⟨scale src.prevDaysAmount, 0⟩
      else dayOf scale src.dayAmounts.entries (scale src.prevDaysAmount) d := by
  have not_kept : (movedDays holder endDate (replacedAmount scale src endDate)).find? d = none := by
    have kept : ((movedDays holder endDate (replacedAmount scale src endDate)).find? d).map
        Day.value = if endDate ≤ d then (holder.find? d).map Day.value else none :=
      value_movedDays _ d
    rw [if_neg early.not_ge] at kept
    exact Option.map_eq_none_iff.1 kept
  rw [find?_replaced ordered used, not_kept, Option.or_none, find_sourceDays,
    dayOf_takeWhile src.dayAmounts.sorted, if_pos early]

theorem replaceAmount_late {d : Time} (late : endDate ≤ d) :
    ((replaceAmount_ scale holder (some src) endDate).1.find? d).map Day.value =
      (holder.find? d).map Day.value := by
  have not_source : ((sourceDays scale src endDate).find? (fun e => e.1 == d)).map Prod.snd =
      none := by
    have not_prev : ¬ (src.prevDay ≠ 0 ∧ d = src.prevDay) := by
      rintro ⟨-, rfl⟩
      exact used.not_ge late
    rw [find_sourceDays, if_neg not_prev, dayOf_takeWhile src.dayAmounts.sorted,
      if_neg late.not_gt]
  rw [find?_replaced ordered used, not_source, Option.none_or, value_movedDays, if_pos late]

theorem replaceAmount_total (chained : holder.Chained) :
    (replaceAmount_ scale holder (some src) endDate).1.total =
      (if src.prevDay ≠ 0 ∨ sourceBefore src endDate ≠ [] ∨ recordedFrom holder endDate ≠ [] then
        scale src.prevDaysAmount else 0) +
      (((sourceBefore src endDate).map (fun day => scale day.2)).sum +
        ((recordedFrom holder endDate).map (fun day => day.2.value)).sum) := by
  have result_chained : (replaceAmount_ scale holder (some src) endDate).1.Chained :=
    chained_replaceAmount chained (by simpa using ordered) endDate
  have before := takeWhile_eq_filter src.dayAmounts.sorted endDate
  have entries : (replaceAmount_ scale holder (some src) endDate).1.entries =
      sourceDays scale src endDate ++
        (movedDays holder endDate (replacedAmount scale src endDate)).entries :=
    entries_replaced ordered used
  rw [Days.total_eq result_chained]
  congr 1
  · -- the first day starts from what the source has before its days
    unfold Days.base
    rw [entries]
    unfold sourceDays
    rw [before]
    by_cases prev : src.prevDay ≠ 0
    · simp [prev]
    · rw [if_neg prev, List.nil_append]
      cases first : src.dayAmounts.entries.filter (fun day => decide (day.1 < endDate)) with
      | cons day rest => simp [layDays, sourceBefore, first]
      | nil =>
        have start : replacedAmount scale src endDate = scale src.prevDaysAmount := by
          rw [replacedAmount, before, first]
          rfl
        have moved : (movedDays holder endDate (scale src.prevDaysAmount)).base =
            if recordedFrom holder endDate ≠ [] then scale src.prevDaysAmount else 0 :=
          base_movedDays _
        simpa [layDays, sourceBefore, first, prev, start, Days.base] using moved
  · unfold Days.amounts
    rw [entries, List.map_append, List.sum_append, movedDays_values]
    congr 1
    unfold sourceDays sourceBefore
    rw [before, List.map_append, List.sum_append, layDays_values]
    by_cases prev : src.prevDay ≠ 0
    · simp [prev]
    · simp [prev]

/-- A source that is used before the cut-off replaces the days before it, and
nothing else. -/
theorem replaceAmount_replacedBy (chained : holder.Chained) :
    ReplacedBy scale holder src endDate (replaceAmount_ scale holder (some src) endDate).1 where
  chained := chained_replaceAmount chained (by simpa using ordered) endDate
  base prev := by
    rw [replaceAmount_early ordered used used, if_pos ⟨prev, rfl⟩]
    rfl
  early d early := by
    rw [replaceAmount_early ordered used early]
    split
    · rfl
    · rw [value_dayOf, SortedMap.find?, Option.map_map]
      rfl
  late _ late := replaceAmount_late ordered used late
  total := replaceAmount_total ordered used chained

end Used

/-- Without a source the days from the cut-off on are left, from zero. -/
theorem replaceAmount_null_total (chained : holder.Chained) :
    (replaceAmount_ scale holder none endDate).1.Chained ∧
      (∀ d, ((replaceAmount_ scale holder none endDate).1.find? d).map Day.value =
        if endDate ≤ d then (holder.find? d).map Day.value else none) ∧
      (replaceAmount_ scale holder none endDate).1.total =
        ((recordedFrom holder endDate).map (fun day => day.2.value)).sum := by
  have result_chained : (replaceAmount_ scale holder none endDate).1.Chained :=
    chained_replaceAmount chained (by simp) endDate
  have moved : (replaceAmount_ scale holder none endDate).1 = movedDays holder endDate 0 :=
    replaceAmount_null holder endDate
  refine ⟨result_chained, ?_, ?_⟩
  · intro d
    rw [moved, value_movedDays]
  · rw [Days.total_eq result_chained, moved, Days.amounts, movedDays_values, base_movedDays]
    simp

/-- What a reconciliation does to one chained entity, whatever its source. -/
def NeitherDoublesNorLoses (scale : A → A) : Prop :=
  ∀ (holder : Days Time A) (endDate : Time), holder.Chained →
    (∀ src : AmountDistribution A, src.Ordered → src.prevDay < endDate →
      ReplacedBy scale holder src endDate (replaceAmount_ scale holder (some src) endDate).1) ∧
    (∀ src : AmountDistribution A, endDate ≤ src.prevDay →
      (replaceAmount_ scale holder (some src) endDate).1 = holder) ∧
    (replaceAmount_ scale holder none endDate).1.Chained ∧
    (∀ d, ((replaceAmount_ scale holder none endDate).1.find? d).map Day.value =
      if endDate ≤ d then (holder.find? d).map Day.value else none) ∧
    (replaceAmount_ scale holder none endDate).1.total =
      ((recordedFrom holder endDate).map (fun day => day.2.value)).sum

theorem neitherDoublesNorLoses (scale : A → A) : NeitherDoublesNorLoses scale := by
  intro holder endDate chained
  refine ⟨?_, ?_, replaceAmount_null_total chained⟩
  · intro src ordered used
    exact replaceAmount_replacedBy ordered used chained
  · intro src unused
    rw [replaceAmount_unused holder unused.not_gt]

end Replaced

/-- So it is for `replace_account_amount_` and for `replace_amount_`, with the
products by the coefficient of the limits rounded down. -/
theorem replaced_neither_doubles_nor_loses (P : Platform) (S : StatContext) :
    NeitherDoublesNorLoses (fun amount : Int => P.mul amount S.limitCoef) ∧
      NeitherDoublesNorLoses (fun x : Counts =>
        (⟨P.mul x.amount S.limitCoef, P.mul x.imps S.limitCoef, P.mul x.clicks S.limitCoef⟩ :
          Counts)) :=
  ⟨neitherDoublesNorLoses _, neitherDoublesNorLoses _⟩

/-- Days recorded on both sides of a cut-off on the third. -/
def bothSides : Days Time Int :=
  (SortedMap.empty.put oneDay ⟨0, 5⟩).put (3 * oneDay) ⟨5, 7⟩

/-- The source has one hundred up to the first day, and three on the second. -/
def untilSecond : AmountDistribution Int := ⟨100, oneDay, SortedMap.empty.put (2 * oneDay) 3⟩

theorem replaced_neither_doubles_nor_loses_bothSides :
    (replaceAmount_ (fun amount : Int => Platform.floored.mul amount twentyDays.limitCoef) bothSides
      (some untilSecond) (3 * oneDay)).1.total = 110 := by
  have ordered : untilSecond.Ordered := by
    unfold AmountDistribution.Ordered
    decide
  have replaced := ((replaced_neither_doubles_nor_loses .floored twentyDays).1 bothSides
    (3 * oneDay) (by decide)).1 untilSecond ordered (by decide)
  rw [replaced.total]
  decide +kernel

end AdServer.Billing
