import AdServer.Lib.RunningTotals
import Mathlib.Data.List.Chain
import Mathlib.Algebra.BigOperators.Group.List.Basic

/-!
# Chained days

A ledger kept by day is chained when every day starts where the day before it
ends. The first day may start anywhere: its start is the base of the ledger.
-/

namespace AdServer.Lib

open SortedMap

namespace Days

variable {T A : Type} [LinearOrder T] [AddCommGroup A]

/-- Every day starts where the day before it ends. -/
def Chained (days : Days T A) : Prop :=
  days.entries.IsChain (fun d₁ d₂ => d₂.2.before = d₁.2.before + d₁.2.value)

instance [DecidableEq A] (days : Days T A) : Decidable days.Chained :=
  inferInstanceAs (Decidable (List.IsChain _ _))

/-- Where the first day starts. -/
def base (days : Days T A) : A :=
  match days.entries with
  | [] => 0
  | (_, day) :: _ => day.before

/-- What was added over all days. -/
def amounts (days : Days T A) : A := (days.entries.map (fun entry => entry.2.value)).sum

/-- A day opened at the date would stand in front of a day that does not start
from zero. -/
def OpensBeforeBase (days : Days T A) (date : T) : Prop :=
  (∀ d ∈ days.keys, date < d) ∧ days.base ≠ 0

instance [DecidableEq A] (days : Days T A) (date : T) : Decidable (days.OpensBeforeBase date) :=
  inferInstanceAs (Decidable (_ ∧ _))

/-- The two dates have days and none between them. -/
structure Consecutive (days : Days T A) (d₁ d₂ : T) (day₁ day₂ : Day A) : Prop where
  first : days.find? d₁ = some day₁
  second : days.find? d₂ = some day₂
  lt : d₁ < d₂
  between : ∀ d ∈ days.keys, d ≤ d₁ ∨ d₂ ≤ d

variable {days : Days T A} {d date : T} {day : Day A}

omit [AddCommGroup A] in
theorem consecutive_iff {d₁ d₂ : T} {day₁ day₂ : Day A} :
    days.Consecutive d₁ d₂ day₁ day₂ ↔
      ∃ l₁ l₂, days.entries = l₁ ++ (d₁, day₁) :: (d₂, day₂) :: l₂ := by
  constructor
  · rintro ⟨first, second, lt, between⟩
    obtain ⟨l₁, rest, split⟩ := List.append_of_mem (find?_eq_some.1 first)
    have sorted := days.sorted
    rw [split] at sorted
    obtain ⟨-, tail_sorted, front⟩ := List.pairwise_append.1 sorted
    have mem : (d₂, day₂) ∈ rest := by
      have all := find?_eq_some.1 second
      rw [split] at all
      rcases List.mem_append.1 all with before | after
      · exact absurd (front _ before (d₁, day₁) (by simp)) lt.not_gt
      · rcases List.mem_cons.1 after with same | after
        · obtain ⟨rfl, -⟩ := Prod.mk.inj same
          exact absurd lt (lt_irrefl _)
        · exact after
    cases rest with
    | nil => cases mem
    | cons next l₂ =>
      refine ⟨l₁, l₂, ?_⟩
      rcases List.mem_cons.1 mem with same | later
      · rw [split, same]
      · obtain ⟨after_first, next_sorted⟩ := List.pairwise_cons.1 tail_sorted
        have above : d₁ < next.1 := after_first next (by simp)
        have below : next.1 < d₂ := (List.pairwise_cons.1 next_sorted).1 _ later
        have key : next.1 ∈ days.keys := by
          rw [keys, split]
          simp
        rcases between _ key with h | h
        · exact absurd above h.not_gt
        · exact absurd below h.not_gt
  · rintro ⟨l₁, l₂, split⟩
    have sorted := days.sorted
    rw [split] at sorted
    obtain ⟨-, tail_sorted, front⟩ := List.pairwise_append.1 sorted
    obtain ⟨after_first, next_sorted⟩ := List.pairwise_cons.1 tail_sorted
    refine ⟨find?_eq_some.2 (by simp [split]), find?_eq_some.2 (by simp [split]),
      after_first (d₂, day₂) (by simp), fun d hd => ?_⟩
    rw [keys, split] at hd
    obtain ⟨e, he, rfl⟩ := List.mem_map.1 hd
    rcases List.mem_append.1 he with he | he
    · exact .inl (front _ he (d₁, day₁) (by simp)).le
    · rcases List.mem_cons.1 he with rfl | he
      · exact .inl le_rfl
      · rcases List.mem_cons.1 he with rfl | he
        · exact .inr le_rfl
        · exact .inr ((List.pairwise_cons.1 next_sorted).1 _ he).le

theorem chained_iff :
    days.Chained ↔ ∀ d₁ d₂ day₁ day₂, days.Consecutive d₁ d₂ day₁ day₂ →
      day₂.before = day₁.before + day₁.value := by
  rw [Chained, List.isChain_iff_forall_rel_of_append_cons_cons]
  constructor
  · intro h d₁ d₂ day₁ day₂ next
    obtain ⟨l₁, l₂, split⟩ := consecutive_iff.1 next
    exact h split
  · intro h a b l₁ l₂ split
    exact h a.1 b.1 a.2 b.2 (consecutive_iff.2 ⟨l₁, l₂, split⟩)

@[simp] theorem chained_empty : Chained (empty : Days T A) := List.IsChain.nil

theorem total_eq (h : days.Chained) : days.total = days.base + days.amounts := by
  obtain ⟨entries, sorted⟩ := days
  simp only [total, last?, base, amounts]
  cases entries with
  | nil => simp
  | cons entry rest =>
    simp only [Chained] at h
    clear sorted
    induction rest generalizing entry with
    | nil => simp
    | cons next rest ih =>
      obtain ⟨link, chain⟩ := List.isChain_cons_cons.1 h
      have tail := ih next chain
      simp only [List.getLast?_cons_cons, List.map_cons, List.sum_cons] at tail ⊢
      rw [tail, link]
      exact add_assoc _ _ _

theorem base_of_first (found : days.find? d = some day) (least : ∀ k ∈ days.keys, d ≤ k) :
    days.base = day.before := by
  have mem := find?_eq_some.1 found
  obtain ⟨entries, sorted⟩ := days
  cases entries with
  | nil => cases mem
  | cons entry rest =>
    rcases List.mem_cons.1 mem with same | later
    · simp [base, ← same]
    · have lower := least entry.1 (by simp [keys])
      have upper := (List.pairwise_cons.1 sorted).1 _ later
      exact absurd upper lower.not_gt

/-- What a day of the ledger was before the addition, other than the day added
to. -/
theorem find?_addAmount_other {amount : A} (other : d ≠ date)
    (found : (days.addAmount date amount).find? d = some day) :
    ∃ old, days.find? d = some old ∧ day.value = old.value ∧
      day.before = old.before + if date < d then amount else 0 := by
  rw [find?_addAmount, if_neg other] at found
  obtain ⟨old, same, rfl⟩ := Option.map_eq_some_iff.1 found
  refine ⟨old, same, ?_⟩
  by_cases lt : date < d <;> simp [lt]

/-- Adding on any day, earlier or later than the others, keeps the chain unless
it opens a day in front of a first day that does not start from zero. -/
theorem chained_addAmount (h : days.Chained) (fits : ¬ days.OpensBeforeBase date) (amount : A) :
    (days.addAmount date amount).Chained := by
  rw [chained_iff] at h ⊢
  rintro d₁ d₂ day₁ day₂ ⟨first, second, lt, between⟩
  have old_between (d : T) (hd : d ∈ days.keys) : d ≤ d₁ ∨ d₂ ≤ d :=
    between d (mem_keys_addAmount.2 (.inr hd))
  have date_between := between date (mem_keys_addAmount.2 (.inl rfl))
  by_cases at_second : d₂ = date
  · subst at_second
    obtain ⟨old₁, found₁, value₁, before₁⟩ := find?_addAmount_other lt.ne first
    rw [if_neg lt.not_gt, add_zero] at before₁
    rw [find?_addAmount, if_pos rfl] at second
    have day₂_eq := Option.some.inj second
    cases present : days.find? d₂ with
    | some old₂ =>
      have link := h d₁ d₂ old₁ old₂ ⟨found₁, present, lt, old_between⟩
      simp only [present] at day₂_eq
      rw [← day₂_eq, link, before₁, value₁]
    | none =>
      have previous : days.predecessor? d₂ = some (d₁, old₁) := by
        refine predecessor_eq_some.2 ⟨found₁, lt, fun i hi below => ?_⟩
        exact (old_between i hi).resolve_right below.not_ge
      simp only [present, totalBefore, previous] at day₂_eq
      rw [← day₂_eq, before₁, value₁]
  · obtain ⟨old₂, found₂, value₂, before₂⟩ := find?_addAmount_other at_second second
    by_cases at_first : d₁ = date
    · subst at_first
      rw [if_pos lt] at before₂
      rw [find?_addAmount, if_pos rfl] at first
      have day₁_eq := Option.some.inj first
      cases present : days.find? d₁ with
      | some old₁ =>
        have link := h d₁ d₂ old₁ old₂ ⟨present, found₂, lt, old_between⟩
        simp only [present] at day₁_eq
        rw [before₂, link, ← day₁_eq, add_assoc]
      | none =>
        simp only [present] at day₁_eq
        have start : old₂.before = days.totalBefore d₁ := by
          unfold totalBefore
          cases previous : days.predecessor? d₁ with
          | some entry =>
            obtain ⟨found, below, nearest⟩ := predecessor_eq_some.1 previous
            refine h entry.1 d₂ entry.2 old₂ ⟨found, found₂, below.trans lt, fun d hd => ?_⟩
            rcases old_between d hd with le | ge
            · have absent : d ≠ d₁ := by
                rintro rfl
                simp [mem_keys, present] at hd
              exact .inl (nearest d hd (lt_of_le_of_ne le absent))
            · exact .inr ge
          | none =>
            -- nothing before the date: the next day is the first one
            have above := predecessor_eq_none.1 previous
            have strict (d : T) (hd : d ∈ days.keys) : d₁ < d := by
              refine lt_of_le_of_ne (above d hd) ?_
              rintro rfl
              simp [mem_keys, present] at hd
            have is_base : days.base = old₂.before :=
              base_of_first found₂ fun d hd => (old_between d hd).resolve_left (strict d hd).not_ge
            rw [← is_base]
            by_contra nonzero
            exact fits ⟨strict, nonzero⟩
        rw [before₂, start, ← day₁_eq]
    · obtain ⟨old₁, found₁, value₁, before₁⟩ := find?_addAmount_other at_first first
      have link := h d₁ d₂ old₁ old₂ ⟨found₁, found₂, lt, old_between⟩
      rcases date_between with le | ge
      · have below := lt_of_le_of_ne le (Ne.symm at_first)
        rw [if_pos below] at before₁
        rw [if_pos (below.trans lt)] at before₂
        rw [before₂, link, before₁, value₁, add_right_comm]
      · have above := lt_of_le_of_ne ge at_second
        rw [if_neg (lt.trans above).not_gt, add_zero] at before₁
        rw [if_neg above.not_gt, add_zero] at before₂
        rw [before₂, link, before₁, value₁]

theorem not_opensBeforeBase_last (last : ∀ k ∈ days.keys, k < date) :
    ¬ days.OpensBeforeBase date := by
  rintro ⟨front, nonzero⟩
  cases h : days.entries with
  | nil => simp [base, h] at nonzero
  | cons entry rest =>
    have mem : entry.1 ∈ days.keys := by simp [keys, h]
    exact lt_asymm (front _ mem) (last _ mem)

/-- Every day moves its start. -/
def shift (days : Days T A) (amount : A) : Days T A :=
  days.mapWith (fun _ day => { day with before := day.before + amount })

theorem keys_shift (days : Days T A) (amount : A) : (days.shift amount).keys = days.keys := by
  simp [keys, shift, mapWith]

theorem chained_shift (h : days.Chained) (amount : A) : (days.shift amount).Chained := by
  unfold Chained shift mapWith
  rw [List.isChain_map]
  refine List.IsChain.imp (fun d₁ d₂ link => ?_) h
  simp only [link, add_right_comm]

theorem chained_filterKeys (h : days.Chained) (start : T) :
    Chained (days.filterKeys (fun date => decide (start ≤ date))) := by
  rw [chained_iff] at h ⊢
  rintro d₁ d₂ day₁ day₂ ⟨first, second, lt, between⟩
  rw [find?_filterKeys] at first second
  have from₁ : start ≤ d₁ := by
    by_contra early
    simp [early] at first
  rw [if_pos (by simpa using from₁)] at first
  rw [if_pos (by simpa using from₁.trans lt.le)] at second
  refine h d₁ d₂ day₁ day₂ ⟨first, second, lt, fun d hd => ?_⟩
  by_cases late : start ≤ d
  · refine between d ?_
    rw [mem_keys, find?_filterKeys, if_pos (by simpa using late)]
    exact mem_keys.1 hd
  · exact .inl ((not_le.1 late).le.trans from₁)

theorem entries_addAmount_last (last : ∀ k ∈ days.keys, k < date) (amount : A) :
    (days.addAmount date amount).entries = days.entries ++ [(date, ⟨days.total, amount⟩)] := by
  rw [← entries_append last]
  refine congrArg entries (ext_find fun k => ?_)
  have missing : days.find? date = none := by
    by_contra present
    exact lt_irrefl _ (last date (mem_keys.2 (Option.isSome_iff_ne_none.2 present)))
  have start : days.totalBefore date = days.total := by
    unfold totalBefore total
    cases h : days.last? with
    | none => rw [predecessor_empty h]
    | some entry =>
      have found := (last_eq_some.1 h).1
      have lt := last entry.1 (mem_keys.2 (by simp [found]))
      rw [predecessor_of_last_lt h lt]
  rw [find?_addAmount, find?_append, missing, start]
  by_cases at_date : k = date
  · simp [at_date]
  · rw [if_neg at_date, if_neg at_date]
    cases found : days.find? k with
    | none => rfl
    | some day =>
      have lt := last k (mem_keys.2 (by simp [found]))
      simp [lt.not_gt]

/-- The amounts of the days added one after another. -/
def readd (l : List (T × Day A)) : Days T A :=
  l.foldl (fun days entry => days.addAmount entry.1 entry.2.value) SortedMap.empty

theorem readd_append (l : List (T × Day A)) (entry : T × Day A) :
    readd (l ++ [entry]) = (readd l).addAmount entry.1 entry.2.value := by
  simp [readd]

theorem total_readd (l : List (T × Day A)) :
    (readd l).total = (l.map (fun entry => entry.2.value)).sum := by
  induction l using List.reverseRecOn with
  | nil => rfl
  | append_singleton l entry ih => simp [readd_append, total_addAmount, ih]

theorem mem_keys_readd {l : List (T × Day A)} {k : T} :
    k ∈ (readd l).keys ↔ k ∈ l.map Prod.fst := by
  induction l using List.reverseRecOn with
  | nil => simp [readd, keys, empty]
  | append_singleton l entry ih =>
    rw [readd_append, mem_keys_addAmount, ih]
    simp [or_comm]

/-- Sorted days added in order lay out as they were, each start less the base. -/
theorem entries_readd (h : days.Chained) :
    (readd days.entries).entries =
      days.entries.map (fun entry => (entry.1, ⟨entry.2.before - days.base, entry.2.value⟩)) := by
  obtain ⟨entries, sorted⟩ := days
  induction entries using List.reverseRecOn with
  | nil => rfl
  | append_singleton l entry ih =>
    obtain ⟨l_sorted, -, below⟩ := List.pairwise_append.1 sorted
    have l_chained : Chained (⟨l, l_sorted⟩ : Days T A) := (List.isChain_append.1 h).1
    have last (k : T) (hk : k ∈ (readd l).keys) : k < entry.1 := by
      obtain ⟨e, he, rfl⟩ := List.mem_map.1 (mem_keys_readd.1 hk)
      exact below e he entry (by simp)
    rw [readd_append, entries_addAmount_last last, ih l_sorted l_chained, List.map_append,
      total_readd]
    cases l with
    | nil => simp [base]
    | cons first rest =>
      -- the base is that of the days before, which end where the new one starts
      have ends := total_eq l_chained
      have link := (List.isChain_append.1 h).2.2
      have start : entry.2.before = total (⟨first :: rest, l_sorted⟩ : Days T A) := by
        simp only [total, last?]
        cases end_ : (first :: rest).getLast? with
        | none => simp at end_
        | some e => exact link e (by simp [end_]) entry (by simp)
      have amount : (List.map (fun entry => entry.2.value) (first :: rest)).sum =
          entry.2.before - first.2.before := by
        rw [start, ends]
        simp [base, amounts]
      simp [base, ← amount]

theorem readd_eq (h : days.Chained) : (readd days.entries).shift days.base = days := by
  have entries := entries_readd h
  refine ext_entries ?_
  simp only [shift, mapWith, entries, List.map_map, Function.comp_def, sub_add_cancel]
  exact List.map_id _

end Days

end AdServer.Lib
