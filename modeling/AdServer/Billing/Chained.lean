import AdServer.Billing.Conservation
import AdServer.Billing.Reconcile
import AdServer.Billing.Storage

/-!
# Chained holders over whole runs

A billing server that confirms bids, reconciles with the statistics, stores its
amounts and starts again from what it has stored. Calls are interleaved section
by section.
-/

namespace AdServer.Billing

open AdServer.Lib SortedMap
open AdServer.Lib.Interleaving (tick)

section Ledgers

variable {A : Type} [AddCommGroup A]

/-- Every holder is chained. -/
def ChainedLedgers (amounts : Ledgers Nat Time A) : Prop :=
  ∀ id, (Ledgers.days amounts id).Chained

/-- The date opens no day in front of the base of the holder. -/
def KeepsBase (amounts : Ledgers Nat Time A) (id : Nat) (date : Time) : Prop :=
  ¬ (Ledgers.days amounts id).OpensBeforeBase date

instance [DecidableEq A] (amounts : Ledgers Nat Time A) (id : Nat) (date : Time) :
    Decidable (KeepsBase amounts id date) := inferInstanceAs (Decidable (¬ _))

theorem chainedLedgers_empty : ChainedLedgers (empty : Ledgers Nat Time A) :=
  fun _ => Days.chained_empty

theorem chained_record {amounts : Ledgers Nat Time A} (h : ChainedLedgers amounts) {id : Nat}
    {date : Time} (fits : KeepsBase amounts id date) (amount : A) :
    ChainedLedgers (Ledgers.record amounts id date amount) := by
  intro id'
  rw [Ledgers.days_record]
  by_cases e : id' = id
  · rw [if_pos e]
    exact Days.chained_addAmount (h id) fits amount
  · rw [if_neg e]
    exact h id'

end Ledgers

/-! ## Reconciling -/

/-- The day the earlier amounts are kept under comes before those listed: the
assertion in `replace_amount_`, and what the statistics are selected by. -/
def AmountDistribution.Ordered {A : Type} (src : AmountDistribution A) : Prop :=
  ∀ d ∈ src.dayAmounts.keys, src.prevDay < d

section Replace

variable {A : Type} [AddCommGroup A] {scale : A → A}

/-- The days a source lists, each starting where the one before it ends. -/
def layDays (scale : A → A) : List (Time × A) → A → List (Time × Day A)
  | [], _ => []
  | (date, amount) :: rest, before =>
    (date, ⟨before, scale amount⟩) :: layDays scale rest (before + scale amount)

variable (scale) in
theorem dates_layDays (l : List (Time × A)) (before : A) :
    (layDays scale l before).map Prod.fst = l.map Prod.fst := by
  induction l generalizing before with
  | nil => rfl
  | cons day rest ih => simp [layDays, ih]

theorem dayOf_eq_find (l : List (Time × A)) (before : A) (d : Time) :
    dayOf scale l before d =
      ((layDays scale l before).find? (fun e => e.1 == d)).map Prod.snd := by
  induction l generalizing before with
  | nil => rfl
  | cons day rest ih =>
    by_cases e : day.1 = d <;> simp [dayOf, layDays, e, ih]

variable (scale) in
theorem layDays_chain (l : List (Time × A)) (before : A) :
    (layDays scale l before).IsChain (fun d₁ d₂ => d₂.2.before = d₁.2.before + d₁.2.value) ∧
      (∀ e ∈ (layDays scale l before).head?, e.2.before = before) ∧
      ∀ e ∈ (layDays scale l before).getLast?, e.2.before + e.2.value =
        l.foldl (fun sum day => sum + scale day.2) before := by
  induction l generalizing before with
  | nil => simp [layDays]
  | cons day rest ih =>
    obtain ⟨chain, starts, ends⟩ := ih (before + scale day.2)
    refine ⟨?_, by simp [layDays], ?_⟩
    · refine List.isChain_cons.2 ⟨fun next hnext => ?_, chain⟩
      exact starts next hnext
    · cases later : layDays scale rest (before + scale day.2) with
      | nil =>
        have no_rest : rest = [] := by
          have dates := congrArg (List.map Prod.fst) later
          rw [dates_layDays] at dates
          simpa using dates
        simp [layDays, no_rest]
      | cons next more =>
        rw [later] at ends
        simpa [layDays, later] using ends

/-- The days of a holder from the end date on. -/
def keptDays (holder : Days Time A) (endDate : Time) : Days Time A :=
  holder.filterKeys (fun date => decide (endDate ≤ date))

variable {holder : Days Time A} {endDate : Time} {src : AmountDistribution A}

omit [AddCommGroup A] in
theorem keptDays_late {endDate d : Time} (h : d ∈ (keptDays holder endDate).keys) :
    endDate ≤ d ∧ d ∈ holder.keys := by
  rw [keptDays, mem_keys, find?_filterKeys] at h
  split at h
  · rename_i late
    exact ⟨by simpa using late, mem_keys.2 h⟩
  · simp at h

theorem erasedBefore_eq (holder : Days Time A) (endDate : Time) :
    (match (holder.lowerBound endDate).bind holder.find? with
      | some day => day.before
      | none => 0) = (keptDays holder endDate).base := by
  cases first : holder.lowerBound endDate with
  | none =>
    have nothing (d : Time) : (keptDays holder endDate).find? d = none := by
      by_contra present
      obtain ⟨late, mem⟩ := keptDays_late
        (mem_keys.2 (Option.isSome_iff_ne_none.2 present))
      exact absurd (lowerBound_eq_none.1 first d mem) late.not_gt
    have no_days : (keptDays holder endDate).entries = [] :=
      List.isEmpty_iff.1 (isEmpty_iff.2 nothing)
    simp [Days.base, no_days]
  | some d =>
    obtain ⟨mem, late, least⟩ := lowerBound_eq_some.1 first
    obtain ⟨day, found⟩ := Option.isSome_iff_exists.1 (mem_keys.1 mem)
    have in_kept : (keptDays holder endDate).find? d = some day := by
      rw [keptDays, find?_filterKeys, if_pos (by simpa using late), found]
    rw [Days.base_of_first in_kept fun k hk => least k (keptDays_late hk).2 (keptDays_late hk).1]
    simp [found]

/-- The days a source puts before the end date. -/
def sourceDays (scale : A → A) (src : AmountDistribution A) (endDate : Time) :
    List (Time × Day A) :=
  (if src.prevDay ≠ 0 then [(src.prevDay, ⟨scale src.prevDaysAmount, 0⟩)] else []) ++
    layDays scale (src.dayAmounts.entries.takeWhile (fun day => decide (day.1 < endDate)))
      (scale src.prevDaysAmount)

variable (scale) in
theorem sourceDays_chain (src : AmountDistribution A) (endDate : Time) :
    (sourceDays scale src endDate).IsChain (fun d₁ d₂ => d₂.2.before = d₁.2.before + d₁.2.value) ∧
      ∀ e ∈ (sourceDays scale src endDate).getLast?, e.2.before + e.2.value =
        (src.dayAmounts.entries.takeWhile (fun day => decide (day.1 < endDate))).foldl
          (fun sum day => sum + scale day.2) (scale src.prevDaysAmount) := by
  obtain ⟨chain, starts, ends⟩ := layDays_chain scale
    (src.dayAmounts.entries.takeWhile (fun day => decide (day.1 < endDate)))
    (scale src.prevDaysAmount)
  unfold sourceDays
  by_cases prev : src.prevDay ≠ 0
  · rw [if_pos prev, List.singleton_append]
    refine ⟨List.isChain_cons.2 ⟨fun next hnext => ?_, chain⟩, ?_⟩
    · simpa using starts next hnext
    · cases later : layDays scale
          (src.dayAmounts.entries.takeWhile (fun day => decide (day.1 < endDate)))
          (scale src.prevDaysAmount) with
      | nil =>
        have dates := congrArg (List.map Prod.fst) later
        rw [dates_layDays] at dates
        have none_replaced : src.dayAmounts.entries.takeWhile
            (fun day => decide (day.1 < endDate)) = [] := by simpa using dates
        simp [none_replaced]
      | cons next more =>
        rw [later] at ends
        simpa using ends
  · rw [if_neg prev, List.nil_append]
    exact ⟨chain, ends⟩

variable (scale) in
theorem sourceDays_sorted (ordered : src.Ordered) (used : src.prevDay < endDate) :
    (sourceDays scale src endDate).Pairwise (fun a b => a.1 < b.1) ∧
      ∀ e ∈ sourceDays scale src endDate, e.1 < endDate := by
  set replacing := src.dayAmounts.entries.takeWhile (fun day => decide (day.1 < endDate))
    with replacing_eq
  have dates := dates_layDays scale replacing (scale src.prevDaysAmount)
  have laid_sorted : (layDays scale replacing (scale src.prevDaysAmount)).Pairwise
      (fun a b => a.1 < b.1) := by
    have sorted := (src.dayAmounts.sorted.sublist
      (List.takeWhile_sublist (fun day => decide (day.1 < endDate)))).map Prod.fst
        (S := (· < ·)) (fun _ _ lt => lt)
    rw [← replacing_eq, ← dates] at sorted
    exact List.pairwise_map.1 sorted
  have laid_dates (e : Time × Day A)
      (he : e ∈ layDays scale replacing (scale src.prevDaysAmount)) :
      src.prevDay < e.1 ∧ e.1 < endDate := by
    have mem : e.1 ∈ replacing.map Prod.fst := dates ▸ List.mem_map_of_mem he
    obtain ⟨day, hday, same⟩ := List.mem_map.1 mem
    have below := List.mem_takeWhile_imp hday
    have listed : day ∈ src.dayAmounts.entries := (List.takeWhile_sublist _).subset hday
    rw [← same]
    exact ⟨ordered day.1 (List.mem_map_of_mem listed), by simpa using below⟩
  unfold sourceDays
  by_cases prev : src.prevDay ≠ 0
  · rw [if_pos prev, List.singleton_append]
    refine ⟨List.pairwise_cons.2 ⟨fun e he => (laid_dates e he).1, laid_sorted⟩, ?_⟩
    intro e he
    rcases List.mem_cons.1 he with rfl | he
    · exact used
    · exact (laid_dates e he).2
  · rw [if_neg prev, List.nil_append]
    exact ⟨laid_sorted, fun e he => (laid_dates e he).2⟩

theorem find_sourceDays (src : AmountDistribution A) (endDate d : Time) :
    ((sourceDays scale src endDate).find? (fun e => e.1 == d)).map Prod.snd =
      if src.prevDay ≠ 0 ∧ d = src.prevDay then some ⟨scale src.prevDaysAmount, 0⟩
      else dayOf scale (src.dayAmounts.entries.takeWhile (fun day => decide (day.1 < endDate)))
        (scale src.prevDaysAmount) d := by
  unfold sourceDays
  rw [dayOf_eq_find]
  by_cases prev : src.prevDay ≠ 0
  · rw [if_pos prev, List.singleton_append]
    by_cases at_prev : d = src.prevDay
    · simp [at_prev, prev]
    · simp [at_prev, Ne.symm at_prev]
  · simp [prev]

/-- The amount of a source up to the end date. -/
def replacedAmount (scale : A → A) (src : AmountDistribution A) (endDate : Time) : A :=
  (src.dayAmounts.entries.takeWhile (fun day => decide (day.1 < endDate))).foldl
    (fun sum day => sum + scale day.2) (scale src.prevDaysAmount)

/-- The days of a source inserted in front of others. -/
def laidBefore (scale : A → A) (src : AmountDistribution A) (endDate : Time)
    (moved : Days Time A) : Days Time A :=
  insertDays scale (src.dayAmounts.entries.takeWhile (fun day => decide (day.1 < endDate)))
    (scale src.prevDaysAmount)
    (if src.prevDay ≠ 0 then moved.insertNew src.prevDay ⟨scale src.prevDaysAmount, 0⟩ else moved)

/-- Days that start from the end date are a continuation of those of the source
once they are moved. -/
theorem entries_laidBefore {moved : Days Time A} (late : ∀ d ∈ moved.keys, endDate ≤ d)
    (ordered : src.Ordered) (used : src.prevDay < endDate) :
    (laidBefore scale src endDate moved).entries =
      sourceDays scale src endDate ++ moved.entries := by
  obtain ⟨sorted, early⟩ := sourceDays_sorted scale ordered used
  have both : (sourceDays scale src endDate ++ moved.entries).Pairwise (fun a b => a.1 < b.1) :=
    List.pairwise_append.2 ⟨sorted, moved.sorted, fun e he e' he' =>
      (early e he).trans_le (late e'.1 (List.mem_map_of_mem he'))⟩
  refine congrArg entries (?_ : _ = (⟨_, both⟩ : Days Time A))
  refine ext_find fun d => ?_
  have listed : find? (⟨_, both⟩ : Days Time A) d =
      (((sourceDays scale src endDate).find? (fun e => e.1 == d)).map Prod.snd).or
        (moved.find? d) := by
    simp [find?, List.find?_append, Option.map_or]
  have found_early (day : Day A)
      (h : ((sourceDays scale src endDate).find? (fun e => e.1 == d)).map Prod.snd = some day) :
      moved.find? d = none := by
    obtain ⟨e, he, -⟩ := Option.map_eq_some_iff.1 h
    have at_d : e.1 = d := by simpa using List.find?_some he
    have before_end := early e (List.mem_of_find?_eq_some he)
    by_contra present
    have after_end := late d (mem_keys.2 (Option.isSome_iff_ne_none.2 present))
    rw [at_d] at before_end
    exact absurd before_end after_end.not_gt
  rw [listed, laidBefore, find?_insertDays]
  rw [find_sourceDays] at found_early ⊢
  by_cases prev : src.prevDay ≠ 0
  · rw [if_pos prev, find?_insertNew]
    by_cases at_prev : d = src.prevDay
    · have nothing := found_early ⟨scale src.prevDaysAmount, 0⟩ (by simp [prev, at_prev])
      rw [at_prev] at nothing
      simp [at_prev, prev, nothing]
    · simp only [at_prev, and_false, if_false] at found_early ⊢
      cases from_source : dayOf scale
          (src.dayAmounts.entries.takeWhile (fun day => decide (day.1 < endDate)))
          (scale src.prevDaysAmount) d with
      | none => simp
      | some day => simp [found_early day from_source]
  · simp only [prev, false_and, if_false] at found_early ⊢
    cases from_source : dayOf scale
        (src.dayAmounts.entries.takeWhile (fun day => decide (day.1 < endDate)))
        (scale src.prevDaysAmount) d with
    | none => simp
    | some day => simp [found_early day from_source]

theorem chained_laidBefore {kept : Days Time A} (chained : kept.Chained)
    (late : ∀ d ∈ kept.keys, endDate ≤ d) (ordered : src.Ordered) (used : src.prevDay < endDate) :
    (laidBefore scale src endDate
      (kept.shift (replacedAmount scale src endDate - kept.base))).Chained := by
  have moved_late (d : Time)
      (hd : d ∈ (kept.shift (replacedAmount scale src endDate - kept.base)).keys) : endDate ≤ d :=
    late d (by rwa [Days.keys_shift] at hd)
  obtain ⟨chain, ends⟩ := sourceDays_chain scale src endDate
  unfold Days.Chained
  rw [entries_laidBefore moved_late ordered used]
  refine List.isChain_append.2 ⟨chain, Days.chained_shift chained _, fun last hlast first hfirst => ?_⟩
  have starts : first.2.before = replacedAmount scale src endDate := by
    obtain ⟨entries, sorted⟩ := kept
    cases entries with
    | nil => simp [Days.shift, mapWith] at hfirst
    | cons entry rest =>
      obtain rfl : _ = first := by simpa [Days.shift, mapWith] using hfirst
      simp [Days.base]
  rw [starts, ends last hlast]
  rfl

theorem mapWith_before (days : Days Time A) (erased amount : A) :
    (days.mapWith fun _ day => ({ day with before := day.before - erased + amount } : Day A)) =
      days.shift (amount - erased) := by
  apply ext_entries
  apply List.map_congr_left
  intro e _
  simp only [Prod.mk.injEq, Day.mk.injEq, and_true, true_and]
  rw [sub_add_eq_add_sub, add_sub_assoc]

theorem replaceAmount_null (holder : Days Time A) (endDate : Time) :
    (replaceAmount_ scale holder none endDate).1 =
      (keptDays holder endDate).shift (0 - (keptDays holder endDate).base) := by
  rw [← mapWith_before, ← erasedBefore_eq]
  simp only [add_zero]
  rfl

theorem replaceAmount_laid (holder : Days Time A) (used : src.prevDay < endDate) :
    (replaceAmount_ scale holder (some src) endDate).1 =
      laidBefore scale src endDate ((keptDays holder endDate).shift
        (replacedAmount scale src endDate - (keptDays holder endDate).base)) := by
  rw [← mapWith_before, ← erasedBefore_eq]
  have merged (erased : A) :
      (((keptDays holder endDate).mapWith fun _ day =>
        ({ day with before := day.before - erased } : Day A)).mapWith fun _ day =>
        ({ day with before := day.before + replacedAmount scale src endDate } : Day A)) =
      (keptDays holder endDate).mapWith fun _ day =>
        ({ day with before := day.before - erased + replacedAmount scale src endDate } : Day A) := by
    simp [mapWith, Function.comp_def]
  rw [← merged]
  unfold replaceAmount_
  rw [if_pos (by simpa using used)]
  rfl

theorem replaceAmount_unused (holder : Days Time A) (unused : ¬ src.prevDay < endDate) :
    replaceAmount_ scale holder (some src) endDate = (holder, false) := by
  simp [replaceAmount_, unused]

theorem chained_replaceAmount (h : holder.Chained) {source : Option (AmountDistribution A)}
    (ordered : ∀ src ∈ source, src.Ordered) (endDate : Time) :
    (replaceAmount_ scale holder source endDate).1.Chained := by
  have kept_chained : (keptDays holder endDate).Chained := Days.chained_filterKeys h endDate
  cases source with
  | none =>
    rw [replaceAmount_null]
    exact Days.chained_shift kept_chained _
  | some src =>
    by_cases used : src.prevDay < endDate
    · rw [replaceAmount_laid holder used]
      exact chained_laidBefore kept_chained (fun d hd => (keptDays_late hd).1) (ordered src rfl)
        used
    · rw [replaceAmount_unused holder used]
      exact h

variable {E : Type}

theorem chained_replaceLedgers {C : ReplaceContext A E} {amounts : Ledgers Nat Time A}
    (h : ChainedLedgers amounts)
    (ordered : ∀ id src, C.sourceAmounts.find? id = some src → src.Ordered)
    (portion : 0 < C.replacePortionSize) {st : MergeState A}
    (result : replaceLedgers C amounts = some st) : ChainedLedgers st.amounts := by
  obtain ⟨st', result', left, -, -⟩ := replaceLedgers_spec amounts portion
  obtain rfl : st = st' := Option.some.inj (result.symm.trans result')
  intro id
  unfold Ledgers.days
  rw [left id, actualAmount, replacedAt, kept]
  split
  · exact Days.chained_empty
  · exact chained_replaceAmount (h id) (fun src hsrc => ordered id src hsrc) _

end Replace

section Load

variable {A : Type} [AddCommGroup A]

/-- Records in the order of their dates leave a chain, the zero date among them
or not. -/
theorem addDayRecords_chained {l : List (Time × Day A)} (sorted : l.Pairwise (fun a b => a.1 < b.1))
    {start : Days Time A} (chained : start.Chained)
    (after : ∀ k ∈ start.keys, ∀ day ∈ l, k < day.1) {result : Days Time A}
    (h : l.foldlM (fun added day => addDayRecord added day.1 day.2.value) start = .ok result) :
    result.Chained := by
  induction l generalizing start with
  | nil =>
    obtain rfl : start = result := Except.ok.inj h
    exact chained
  | cons day rest ih =>
    obtain ⟨later, sorted'⟩ := List.pairwise_cons.1 sorted
    rw [List.foldlM_cons] at h
    cases one : addDayRecord start day.1 day.2.value with
    | error e => simp [one, bind, Except.bind] at h
    | ok next =>
      simp only [one, bind, Except.bind] at h
      unfold addDayRecord at one
      split at one
      · split at one
        · cases one
        · obtain rfl := Except.ok.inj one
          refine ih sorted' (Days.chained_shift chained _) (fun k hk d hd => ?_) h
          rw [Days.keys_shift] at hk
          exact after k hk d (by simp [hd])
      · obtain rfl := Except.ok.inj one
        have fits : ¬ start.OpensBeforeBase day.1 :=
          Days.not_opensBeforeBase_last fun k hk => after k hk day (by simp)
        refine ih sorted' (Days.chained_addAmount chained fits _) (fun k hk d hd => ?_) h
        rcases Days.mem_keys_addAmount.1 hk with rfl | hk
        · exact later d hd
        · exact after k hk d (by simp [hd])

theorem reloadDays_ok_chained {days reloaded : Days Time A} (h : reloadDays days = .ok reloaded) :
    reloaded.Chained := by
  unfold reloadDays at h
  cases added : days.entries.foldlM (fun added day => addDayRecord added day.1 day.2.value)
      empty with
  | error e => simp [added, bind, Except.bind] at h
  | ok result =>
    have chained := addDayRecords_chained days.sorted Days.chained_empty (by simp [keys,
      empty]) added
    rw [added] at h
    simp only [bind, Except.bind, addDayRecord, if_true] at h
    split at h
    · cases h
    · obtain rfl := Except.ok.inj h
      exact Days.chained_shift chained _

theorem addRecords_chained {stored amounts : Ledgers Nat Time A}
    (h : addRecords empty (records stored) = .ok amounts) : ChainedLedgers amounts := by
  have step (l : List (Nat × Days Time A)) (nodup : (l.map Prod.fst).Nodup)
      (acc : Ledgers Nat Time A) (fresh : ∀ holder ∈ l, acc.find? holder.1 = none)
      (chained : ChainedLedgers acc) (result : Ledgers Nat Time A)
      (h : addRecords acc (l.flatMap fun holder => holderRecords holder.1 holder.2) = .ok result) :
      ChainedLedgers result := by
    induction l generalizing acc with
    | nil =>
      obtain rfl : acc = result := Except.ok.inj h
      exact chained
    | cons holder rest ih =>
      obtain ⟨new, nodup'⟩ := List.nodup_cons.1 nodup
      have first := addRecords_holder (fresh holder (by simp)) holder.2
      unfold addRecords at first h
      rw [List.flatMap_cons, List.foldlM_append, first] at h
      cases reload : reloadDays holder.2 with
      | error e => simp [reload, Except.map, bind, Except.bind] at h
      | ok days =>
        simp only [reload, Except.map, bind, Except.bind] at h
        refine ih nodup' (acc.put holder.1 days) (fun next hnext => ?_) (fun id => ?_) h
        · have other : next.1 ≠ holder.1 := fun same => new (List.mem_map.2 ⟨next, hnext, same⟩)
          rw [find?_put, if_neg other]
          exact fresh next (by simp [hnext])
        · by_cases e : id = holder.1
          · rw [e, Ledgers.days_put]
            exact reloadDays_ok_chained reload
          · have same : Ledgers.days (acc.put holder.1 days) id = Ledgers.days acc id := by
              simp [Ledgers.days, find?_put, e]
            rw [same]
            exact chained id
  exact step _ stored.keys_nodup _ (fun _ _ => rfl) chainedLedgers_empty _ h

end Load

/-! ## Sections of a call -/

/-- Every holder of the state is chained. -/
structure ChainedState (s : BillingContainerState) : Prop where
  accounts : ChainedLedgers s.accounts
  campaigns : ChainedLedgers s.campaigns
  ccgs : ChainedLedgers s.ccgs

variable (P : Platform)

/-- If the next section of the call adds, its date opens no day in front of the
base of its holder. -/
def SectionKeepsBase (s : BillingContainerState) (call : Call) : Prop :=
  match call.progress with
  | .running sec l =>
    let q := call.request
    let accountFits :=
      KeepsBase s.accounts q.ids.accountId (getDateInAdvTz P l.accountTraits.timeOffset q.ids.time)
    let campaignFits :=
      KeepsBase s.campaigns q.ids.campaignId
        (getDateInAdvTz P l.campaignTraits.timeOffset q.ids.time)
    let ccgFits :=
      KeepsBase s.ccgs q.ids.ccgId (getDateInAdvTz P l.ccgTraits.timeOffset q.ids.time)
    match sec with
    | .account =>
      l.account.available ≠ 0 ∧
          (q.forced = true ∨ Ledgers.total s.accounts q.ids.accountId < l.accountTraits.budget) →
        accountFits
    | .campaign =>
      l.campaign.available.amount ≠ 0 ∧
          (passesLimits P s.campaigns q.ids.campaignId l.campaignTraits q.ids.time
            (decide (l.campaign.available.amount > 0)) = true ∨ q.forced = true) →
        campaignFits
    | .ccg =>
      l.ccg.available.amount ≠ 0 ∧
          (passesLimits P s.ccgs q.ids.ccgId l.ccgTraits q.ids.time
            (decide (l.ccg.available.amount > 0)) = true ∨ q.forced = true) →
        ccgFits
    | .revertCcg => l.ccg.revert.amount ≠ 0 → ccgFits
    | .revertCampaign => l.campaign.revert.amount ≠ 0 → campaignFits
    | .revertAccount => l.account.revert ≠ 0 → accountFits
  | _ => True

theorem confirmBidStep_chained {s : BillingContainerState} {call : Call} (h : ChainedState s)
    (fits : SectionKeepsBase P s call) : ChainedState (confirmBidStep P s call).1 := by
  have writes := confirmBidStep_writes P s call
  generalize (confirmBidStep P s call).1 = s' at writes ⊢
  obtain ⟨accounts, campaigns, ccgs⟩ := h
  cases writes with
  | nothing => exact ⟨accounts, campaigns, ccgs⟩
  | account some_amount allowed =>
    exact ⟨chained_record accounts (fits ⟨some_amount, allowed⟩) _, campaigns, ccgs⟩
  | campaign some_amount accepted =>
    exact ⟨accounts, chained_record campaigns (fits ⟨some_amount, accepted⟩) _, ccgs⟩
  | ccg some_amount accepted =>
    exact ⟨accounts, campaigns, chained_record ccgs (fits ⟨some_amount, accepted⟩) _⟩
  | revertCcg some_amount =>
    exact ⟨accounts, campaigns, chained_record ccgs (fits some_amount) _⟩
  | revertCampaign some_amount =>
    exact ⟨accounts, chained_record campaigns (fits some_amount) _, ccgs⟩
  | revertAccount some_amount =>
    exact ⟨chained_record accounts (fits some_amount) _, campaigns, ccgs⟩

/-- The statistics of one reconciliation. -/
structure BillStat where
  accounts : SortedMap Nat (AmountDistribution Int)
  campaigns : SortedMap Nat (AmountDistribution Counts)
  ccgs : SortedMap Nat (AmountDistribution Counts)

/-- Every entry is in order: the assertions of `replace_account_amount_` and
`replace_amount_`. -/
structure BillStat.Ordered (stat : BillStat) : Prop where
  accounts : ∀ id src, stat.accounts.find? id = some src → src.Ordered
  campaigns : ∀ id src, stat.campaigns.find? id = some src → src.Ordered
  ccgs : ∀ id src, stat.ccgs.find? id = some src → src.Ordered

/-- The files of amounts, by their lines. -/
structure StoredAmounts where
  accounts : List (AmountRecord Int)
  campaigns : List (AmountRecord Counts)
  ccgs : List (AmountRecord Counts)

/-- A server: its state, the calls it has taken, and what it has stored. -/
structure Server where
  state : BillingContainerState
  calls : List Call
  stored : StoredAmounts

/-- Nothing recorded and nothing stored. -/
def Server.empty : Server := ⟨.empty, [], ⟨[], [], []⟩⟩

inductive Event where
  /-- `confirm_bid` is called. -/
  | confirmBid (q : Request)
  /-- The next section of a call, by its number. -/
  | next (i : Nat)
  | stat (S : StatContext) (stat : BillStat) (config : Option Config)
  | dump
  /-- The server starts from its files. -/
  | load

/-- `stat`. -/
def statEvent (S : StatContext) (stat : BillStat) (config : Option Config)
    (s : BillingContainerState) : Option BillingContainerState := do
  let accounts ← replaceAccountAmounts_ P S s.accounts stat.accounts (config.map Config.accounts)
  let campaigns ← replaceAmounts_ P S s.campaigns stat.campaigns (config.map Config.campaigns)
  let ccgs ← replaceAmounts_ P S s.ccgs stat.ccgs (config.map Config.ccgs)
  return ⟨accounts.amounts, campaigns.amounts, ccgs.amounts⟩

/-- `dump_storage_`: a holder without a day fails an assertion. -/
def dumpEvent (s : BillingContainerState) : Option StoredAmounts :=
  if s.accounts.entries.all (fun holder => !holder.2.isEmpty) &&
      s.campaigns.entries.all (fun holder => !holder.2.isEmpty) &&
      s.ccgs.entries.all (fun holder => !holder.2.isEmpty) then
    some ⟨records s.accounts, records s.campaigns, records s.ccgs⟩
  else none

/-- `load_storage_`. -/
def loadEvent (stored : StoredAmounts) : Except LoadError BillingContainerState := do
  let accounts ← addRecords SortedMap.empty stored.accounts
  let campaigns ← addRecords SortedMap.empty stored.campaigns
  let ccgs ← addRecords SortedMap.empty stored.ccgs
  return ⟨accounts, campaigns, ccgs⟩

/-- What an event makes of a server; no value when the server stops. -/
def Server.apply (w : Server) : Event → Option Server
  | .confirmBid q => some { w with calls := w.calls ++ [q.fresh] }
  | .next i =>
    let ticked := tick (confirmBidStep P) (w.state, w.calls) i
    some { w with state := ticked.1, calls := ticked.2 }
  | .stat S stat config => (statEvent P S stat config w.state).map fun s => { w with state := s }
  | .dump => (dumpEvent w.state).map fun stored => { w with stored := stored }
  | .load => (loadEvent w.stored).toOption.map fun s => { w with state := s, calls := [] }

def Server.run (w : Server) : List Event → Option Server
  | [] => some w
  | e :: rest => (w.apply P e).bind (·.run rest)

/-- The statistics are in order, and are walked in portions. -/
def Event.Valid : Event → Prop
  | .stat S source _ => source.Ordered ∧ 0 < S.replacePortionSize
  | _ => True

/-- A section that adds opens no day in front of a base. -/
def Server.Fits (w : Server) : Event → Prop
  | .next i =>
    match w.calls[i]? with
    | some call => SectionKeepsBase P w.state call
    | none => True
  | _ => True

/-- Every event of the run fits the server it comes to. -/
def Server.AllFit (w : Server) : List Event → Prop
  | [] => True
  | e :: rest =>
    w.Fits P e ∧
      match w.apply P e with
      | some next => next.AllFit rest
      | none => True

instance decidableSectionKeepsBase (s : BillingContainerState) :
    ∀ call, Decidable (SectionKeepsBase P s call)
  | ⟨_, .running .account _⟩ | ⟨_, .running .campaign _⟩ | ⟨_, .running .ccg _⟩ =>
    inferInstanceAs (Decidable (_ ∧ _ → _))
  | ⟨_, .running .revertCcg _⟩ | ⟨_, .running .revertCampaign _⟩ | ⟨_, .running .revertAccount _⟩ =>
    inferInstanceAs (Decidable (_ → _))
  | ⟨_, .start⟩ | ⟨_, .returned _⟩ | ⟨_, .thrown⟩ | ⟨_, .aborted⟩ => isTrue trivial

instance decidableServerFits (w : Server) : ∀ e, Decidable (w.Fits P e)
  | .next i =>
    match h : w.calls[i]? with
    | some call => decidable_of_iff (SectionKeepsBase P w.state call) (by simp [Server.Fits, h])
    | none => isTrue (by simp [Server.Fits, h])
  | .confirmBid _ | .stat _ _ _ | .dump | .load => isTrue trivial

instance decidableAllFit : ∀ (w : Server) (events : List Event), Decidable (w.AllFit P events)
  | _, [] => isTrue trivial
  | w, e :: rest =>
    match h : w.apply P e with
    | some next =>
      have := decidableAllFit next rest
      decidable_of_iff (w.Fits P e ∧ next.AllFit P rest) (by simp [Server.AllFit, h])
    | none => decidable_of_iff (w.Fits P e) (by simp [Server.AllFit, h])

/-- The holders are chained, and the files hold what some state was. -/
structure Server.Inv (w : Server) : Prop where
  state : ChainedState w.state
  accounts : ∃ m, w.stored.accounts = records m
  campaigns : ∃ m, w.stored.campaigns = records m
  ccgs : ∃ m, w.stored.ccgs = records m

variable {P}

theorem statEvent_chained {S : StatContext} {stat : BillStat} {config : Option Config}
    (valid : Event.Valid (.stat S stat config)) {s s' : BillingContainerState}
    (h : ChainedState s) (result : statEvent P S stat config s = some s') : ChainedState s' := by
  obtain ⟨ordered, portion⟩ := valid
  simp only [statEvent, Option.bind_eq_bind, Option.bind_eq_some_iff] at result
  obtain ⟨accounts, account_result, campaigns, campaign_result, ccgs, ccg_result, last⟩ := result
  obtain rfl := Option.some.inj last
  exact ⟨chained_replaceLedgers h.accounts ordered.accounts portion account_result,
    chained_replaceLedgers h.campaigns ordered.campaigns portion campaign_result,
    chained_replaceLedgers h.ccgs ordered.ccgs portion ccg_result⟩

theorem loadEvent_chained {accounts : Ledgers Nat Time Int}
    {campaigns ccgs : Ledgers Nat Time Counts} {s : BillingContainerState}
    (result : loadEvent ⟨records accounts, records campaigns, records ccgs⟩ = .ok s) :
    ChainedState s := by
  unfold loadEvent at result
  cases first : addRecords empty (records accounts) with
  | error e => simp [first, bind, Except.bind] at result
  | ok a =>
    cases second : addRecords empty (records campaigns) with
    | error e => simp [first, second, bind, Except.bind] at result
    | ok b =>
      cases third : addRecords empty (records ccgs) with
      | error e => simp [first, second, third, bind, Except.bind] at result
      | ok c =>
        simp only [first, second, third, bind, Except.bind] at result
        obtain rfl := Except.ok.inj result
        exact ⟨addRecords_chained first, addRecords_chained second, addRecords_chained third⟩

theorem apply_inv {w w' : Server} {e : Event} (h : w.Inv) (valid : e.Valid) (fits : w.Fits P e)
    (result : w.apply P e = some w') : w'.Inv := by
  cases e with
  | confirmBid q =>
    obtain rfl := Option.some.inj result
    exact ⟨h.state, h.accounts, h.campaigns, h.ccgs⟩
  | next i =>
    have ticked : ChainedState (tick (confirmBidStep P) (w.state, w.calls) i).1 := by
      cases call : w.calls[i]? with
      | none =>
        rw [Interleaving.tick_missing call]
        exact h.state
      | some c =>
        have own : (tick (confirmBidStep P) (w.state, w.calls) i).1 =
            (confirmBidStep P w.state c).1 :=
          (Interleaving.tick_self (show (w.state, w.calls).2[i]? = some c from call)).1
        rw [own]
        have fits_call : SectionKeepsBase P w.state c := by simpa [Server.Fits, call] using fits
        exact confirmBidStep_chained P h.state fits_call
    obtain rfl := Option.some.inj result
    exact ⟨ticked, h.accounts, h.campaigns, h.ccgs⟩
  | stat S stat config =>
    obtain ⟨s, reconciled, rfl⟩ := Option.map_eq_some_iff.1 result
    exact ⟨statEvent_chained valid h.state reconciled, h.accounts, h.campaigns, h.ccgs⟩
  | dump =>
    obtain ⟨stored, dumped, rfl⟩ := Option.map_eq_some_iff.1 result
    unfold dumpEvent at dumped
    split at dumped
    · obtain rfl := Option.some.inj dumped
      exact ⟨h.state, ⟨_, rfl⟩, ⟨_, rfl⟩, ⟨_, rfl⟩⟩
    · cases dumped
  | load =>
    obtain ⟨s, loaded, rfl⟩ := Option.map_eq_some_iff.1 result
    obtain ⟨accounts, ha⟩ := h.accounts
    obtain ⟨campaigns, hc⟩ := h.campaigns
    obtain ⟨ccgs, hg⟩ := h.ccgs
    refine ⟨?_, h.accounts, h.campaigns, h.ccgs⟩
    have files : w.stored = ⟨records accounts, records campaigns, records ccgs⟩ := by
      rw [← ha, ← hc, ← hg]
    cases read : loadEvent w.stored with
    | error e => simp [read, Except.toOption] at loaded
    | ok s' =>
      obtain rfl : s' = s := by simpa [read, Except.toOption] using loaded
      rw [files] at read
      exact loadEvent_chained read

theorem run_inv {w w' : Server} {events : List Event} (h : w.Inv)
    (valid : ∀ e ∈ events, e.Valid) (fits : w.AllFit P events)
    (result : w.run P events = some w') : w'.Inv := by
  induction events generalizing w with
  | nil =>
    obtain rfl := Option.some.inj result
    exact h
  | cons e rest ih =>
    obtain ⟨first, later⟩ := fits
    obtain ⟨next, applied, result⟩ := Option.bind_eq_some_iff.1 result
    rw [applied] at later
    exact ih (apply_inv h (valid e (by simp)) first applied) (fun e he => valid e (by simp [he]))
      later result

theorem empty_inv : Server.empty.Inv where
  state := ⟨chainedLedgers_empty, chainedLedgers_empty, chainedLedgers_empty⟩
  accounts := ⟨empty, rfl⟩
  campaigns := ⟨empty, rfl⟩
  ccgs := ⟨empty, rfl⟩

/-- The days of a holder are chained and end at its total. -/
def WellKept {A : Type} [AddCommGroup A] (amounts : Ledgers Nat Time A) : Prop :=
  ∀ id days, amounts.find? id = some days →
    (∀ d₁ d₂ day₁ day₂, days.Consecutive d₁ d₂ day₁ day₂ →
      day₂.before = day₁.before + day₁.value) ∧
    Days.total days = Days.base days + Days.amounts days

theorem wellKept {A : Type} [AddCommGroup A] {amounts : Ledgers Nat Time A}
    (h : ChainedLedgers amounts) : WellKept amounts := by
  intro id days found
  have same : Ledgers.days amounts id = days := by simp [Ledgers.days, found]
  have chained := h id
  rw [same] at chained
  exact ⟨Days.chained_iff.1 chained, Days.total_eq chained⟩

/-- In every run from nothing whose sections open no day in front of a base,
every holder of the state reached is chained. -/
theorem run_chained (P : Platform) (events : List Event) (server : Server)
    (valid : ∀ e ∈ events, e.Valid) (fits : Server.empty.AllFit P events)
    (result : Server.empty.run P events = some server) :
    WellKept server.state.accounts ∧ WellKept server.state.campaigns ∧
      WellKept server.state.ccgs := by
  have inv := run_inv empty_inv valid fits result
  exact ⟨wellKept inv.state.accounts, wellKept inv.state.campaigns, wellKept inv.state.ccgs⟩

/-! ## Starting again -/

/-- None of the days is on the zero date. -/
abbrev Dated {A : Type} (amounts : Ledgers Nat Time A) : Prop :=
  ∀ holder ∈ amounts.entries, (0 : Time) ∉ holder.2.keys

theorem addRecords_stored {A : Type} [AddCommGroup A] {amounts : Ledgers Nat Time A}
    (full : amounts.entries.all (fun holder => !holder.2.isEmpty) = true)
    (chained : ChainedLedgers amounts) (dated : Dated amounts) :
    addRecords empty (records amounts) = .ok amounts := by
  apply addRecords_records
  refine ⟨?_, ?_, fun id days found => dated _ (find?_eq_some.1 found)⟩
  · intro id days found
    simpa using List.all_eq_true.1 full _ (find?_eq_some.1 found)
  · intro id days found
    simpa [Ledgers.days, found] using chained id

/-- A server that stores what such a run has left and starts from it has the same amounts. -/
theorem run_restart {events : List Event} {server : Server} {stored : StoredAmounts}
    (valid : ∀ e ∈ events, e.Valid) (fits : Server.empty.AllFit P events)
    (result : Server.empty.run P events = some server)
    (written : dumpEvent server.state = some stored) (accounts : Dated server.state.accounts)
    (campaigns : Dated server.state.campaigns) (ccgs : Dated server.state.ccgs) :
    server.run P [.dump, .load] = some ⟨server.state, [], stored⟩ := by
  obtain ⟨chained, -⟩ := run_inv empty_inv valid fits result
  have loads : loadEvent stored = .ok server.state := by
    unfold dumpEvent at written
    split at written
    · rename_i full
      cases written
      simp only [Bool.and_eq_true] at full
      rw [loadEvent, addRecords_stored full.1.1 chained.accounts accounts,
        addRecords_stored full.1.2 chained.campaigns campaigns,
        addRecords_stored full.2 chained.ccgs ccgs]
      rfl
    · cases written
  simp [Server.run, Server.apply, written, loads, Except.toOption]

section Example

/-- All statistics trusted before the twentieth day. -/
def twentyDays : StatContext := ⟨20 * oneDay, 0, 100000000, 10⟩

/-- An account whose amounts up to the tenth day are known as one sum. -/
def tenthDayBase : BillStat :=
  ⟨SortedMap.empty.put 1 ⟨100, 10 * oneDay, SortedMap.empty⟩, SortedMap.empty, SortedMap.empty⟩

/-- An amount of five confirmed for a given time. -/
def fiveAt (time : Time) : Request :=
  { smallRequest (smallConfig 1000 1000 1000) 5 ⟨5, 1, 0⟩ with ids := ⟨time, 1, 0, 1, 1⟩ }

/-- The statistics, and then one call up to its account section. -/
def baseThenConfirm (time : Time) : List Event :=
  [.stat twentyDays tenthDayBase (some (smallConfig 1000 1000 1000)),
    .confirmBid (fiveAt time), .next 0, .next 0]

theorem baseThenConfirm_valid (time : Time) : ∀ e ∈ baseThenConfirm time, e.Valid := by
  intro e he
  simp only [baseThenConfirm, List.mem_cons, List.not_mem_nil, or_false] at he
  rcases he with rfl | rfl | rfl | rfl
  · refine ⟨⟨fun id src found => ?_, fun id src found => ?_, fun id src found => ?_⟩, by decide⟩
    · rw [tenthDayBase, find?_put] at found
      split at found
      · obtain rfl := Option.some.inj found
        intro d hd
        simp [keys, empty] at hd
      · simp at found
    · simp [tenthDayBase] at found
    · simp [tenthDayBase] at found
  · exact trivial
  · exact trivial
  · exact trivial

/-- A bid of an earlier day than the base opens a day in front of it that starts
from zero: the day of the base no longer starts where that day ends. -/
theorem opened_before_base :
    ¬ ∀ (P : Platform) (events : List Event) (server : Server), (∀ e ∈ events, e.Valid) →
      Server.empty.run P events = some server → WellKept server.state.accounts := by
  intro always
  have days : ((Server.empty.run .floored (baseThenConfirm (5 * oneDay))).map
      fun server => server.state.accounts.find? 1) =
      some (some ((empty.put (5 * oneDay) ⟨0, 5⟩).put (10 * oneDay) ⟨105, 0⟩)) := by
    decide +kernel
  obtain ⟨server, run, found⟩ := Option.map_eq_some_iff.1 days
  have kept := (always .floored _ server (baseThenConfirm_valid _) run 1 _ found).1
  have link := kept (5 * oneDay) (10 * oneDay) ⟨0, 5⟩ ⟨105, 0⟩
    ⟨by decide, by decide, by decide, by decide⟩
  exact absurd link (by decide)

/-- A bid of a later day continues the base. -/
theorem opened_after_base :
    ∃ server, Server.empty.run .floored (baseThenConfirm (15 * oneDay)) = some server ∧
      WellKept server.state.accounts ∧ WellKept server.state.campaigns ∧
      WellKept server.state.ccgs ∧ Ledgers.total server.state.accounts 1 = 105 := by
  have total : ((Server.empty.run .floored (baseThenConfirm (15 * oneDay))).map
      fun server => Ledgers.total server.state.accounts 1) = some 105 := by decide +kernel
  obtain ⟨server, run, total⟩ := Option.map_eq_some_iff.1 total
  obtain ⟨accounts, campaigns, ccgs⟩ := run_chained .floored _ server (baseThenConfirm_valid _)
    (by decide +kernel) run
  exact ⟨server, run, accounts, campaigns, ccgs, total⟩

theorem run_restart_fifteen :
    ∃ server stored, Server.empty.run .floored (baseThenConfirm (15 * oneDay)) = some server ∧
      server.run .floored [.dump, .load] = some ⟨server.state, [], stored⟩ := by
  have runs : ∃ server ∈ Server.empty.run .floored (baseThenConfirm (15 * oneDay)),
      ∃ stored ∈ dumpEvent server.state, Dated server.state.accounts ∧
        Dated server.state.campaigns ∧ Dated server.state.ccgs := by decide +kernel
  obtain ⟨server, result, stored, written, accounts, campaigns, ccgs⟩ := runs
  exact ⟨server, stored, result, run_restart (baseThenConfirm_valid _) (by decide +kernel) result
    written accounts campaigns ccgs⟩

end Example

end AdServer.Billing
