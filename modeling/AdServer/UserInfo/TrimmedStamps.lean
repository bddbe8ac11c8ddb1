import AdServer.Lib.KeyOrder
import AdServer.UserInfo.Stamps
import Mathlib.Data.List.Count

/-!
# Trimmed stamps

What `FreqCapAdapter` clears of the stamps of a freq cap, against what
`check_full_freq_caps` asks of them later, when some of the unconfirmed ones have
been taken back.
-/

namespace AdServer.UserInfo

open AdServer.Lib

variable {stamp : Nat} {latestFirst : List Nat}

/-- The stamps without those that expired, each taken out as often as it occurs
among them. -/
def expire (fc : FreqCap) (expired : List Nat) : FreqCap :=
  { fc with lastImpressions := fc.lastImpressions.diff expired }

namespace FreqCapLimits

variable (limits : FreqCapLimits)

def lifeReached (totalImpressions : Nat) : Bool :=
  decide (limits.lifelimit ≠ 0 ∧ limits.lifelimit ≤ totalImpressions)

def inPeriod (t : Time) (stamp : Nat) : Bool :=
  decide (limits.period ≠ 0 ∧ t < normalizeImpressionTimestamp stamp * second + limits.period)

def windowBound (t : Time) : Nat :=
  if limits.windowTime < t then tvSec (t - limits.windowTime) else 0

def inWindow (t : Time) (stamp : Nat) : Bool :=
  decide (limits.windowLimit ≠ 0 ∧ limits.windowBound t ≤ normalizeImpressionTimestamp stamp)

theorem windowBound_mono {now t : Time} (later : now ≤ t) :
    limits.windowBound now ≤ limits.windowBound t := by
  unfold windowBound
  split
  · next passed =>
    rw [if_pos (passed.trans_le later)]
    exact Nat.div_le_div_right (Nat.sub_le_sub_right later _)
  · exact Nat.zero_le _

variable {limits}

theorem inWindow_of_later {now t : Time} (later : now ≤ t) (h : limits.inWindow t stamp) :
    limits.inWindow now stamp := by
  have mono := limits.windowBound_mono later
  simp only [inWindow, decide_eq_true_eq] at h ⊢
  exact ⟨h.1, mono.trans h.2⟩

theorem inPeriod_of_later {now t : Time} (later : now ≤ t) (h : limits.inPeriod t stamp) :
    limits.inPeriod now stamp := by
  simp only [inPeriod, decide_eq_true_eq] at h ⊢
  exact ⟨h.1, later.trans_lt h.2⟩

variable {t : Time} {left right : Nat}
  (le : normalizeImpressionTimestamp left ≤ normalizeImpressionTimestamp right)

include le

theorem inWindow_of_le (h : limits.inWindow t left) : limits.inWindow t right := by
  simp only [inWindow, decide_eq_true_eq] at h ⊢
  exact ⟨h.1, h.2.trans le⟩

theorem inPeriod_of_le (h : limits.inPeriod t left) : limits.inPeriod t right := by
  simp only [inPeriod, decide_eq_true_eq] at h ⊢
  have mono := Nat.mul_le_mul_right second le
  exact ⟨h.1, h.2.trans_le (Nat.add_le_add_right mono _)⟩

end FreqCapLimits

open FreqCapLimits

theorem StampsSorted.byTime {stamps : List Nat} (sorted : StampsSorted stamps) :
    stamps.Pairwise fun left right =>
      normalizeImpressionTimestamp left ≤ normalizeImpressionTimestamp right := by
  apply (stampsSorted_iff.1 sorted).imp
  intro left right le
  unfold stampKey at le
  split at le <;> split at le <;> omega

/-- A freq cap is full by its total, by a stamp in the period, or by the number of
stamps in the window. -/
def FreqCapLimits.FullBy (limits : FreqCapLimits) (t : Time) (totalImpressions : Nat)
    (stamps : List Nat) : Prop :=
  limits.lifeReached totalImpressions ∨
  (∃ stamp ∈ stamps, limits.inPeriod t stamp) ∨
  limits.windowLimit ≠ 0 ∧ limits.windowLimit ≤ stamps.countP (limits.inWindow t)

theorem isFull_iff (cfg : FreqCapConfig) (t : Time) {fc : FreqCap}
    (sorted : StampsSorted fc.lastImpressions) :
    isFull cfg t fc = true ↔
      (cfg.findOrGetDefault fc.fcId).FullBy t fc.totalImpressions fc.lastImpressions := by
  unfold isFull FreqCapLimits.FullBy lifeReached
  generalize cfg.findOrGetDefault fc.fcId = limits
  by_cases reached : limits.lifelimit ≠ 0 ∧ limits.lifelimit ≤ fc.totalImpressions
  · simp [reached]
  rw [if_neg reached, decide_eq_true_iff, or_iff_right reached]
  obtain none_stored | ⟨rest, latest, stamps_eq⟩ := fc.lastImpressions.eq_nil_or_concat
  · simp [none_stored]
  rw [stamps_eq, List.concat_eq_append] at sorted ⊢
  have byTime := sorted.byTime
  have latest_last := (List.pairwise_append.1 byTime).2.2
  have counted : ((rest ++ [latest]).dropWhile fun imp =>
      decide (normalizeImpressionTimestamp imp < limits.windowBound t)).length =
      (rest ++ [latest]).countP fun imp =>
        decide (limits.windowBound t ≤ normalizeImpressionTimestamp imp) := by
    rw [KeyOrder.dropWhile_lt_eq_filter byTime, List.countP_eq_length_filter]
  have period : (∃ stamp ∈ rest ++ [latest], limits.inPeriod t stamp = true) ↔
      limits.inPeriod t latest = true := by
    constructor
    · rintro ⟨stamp, mem, h⟩
      obtain mem | mem := List.mem_append.1 mem
      · exact inPeriod_of_le (latest_last stamp mem latest (by simp)) h
      · rwa [List.mem_singleton.1 mem] at h
    · exact fun h => ⟨latest, by simp, h⟩
  rw [period]
  simp only [List.getLast?_append, List.getLast?_singleton, Option.some_or]
  change (if _ then _ else if _ then decide (_ ≤ List.length (List.dropWhile (fun imp =>
    decide (_ < limits.windowBound t)) _)) else _) = true ↔ _
  rw [counted]
  simp only [inPeriod, decide_eq_true_eq]
  split
  · next h => simp [h]
  · next h =>
    by_cases windowed : limits.windowLimit = 0
    · simp [windowed, h]
    · have inWindow_eq : limits.inWindow t = fun imp =>
          decide (limits.windowBound t ≤ normalizeImpressionTimestamp imp) := by
        funext imp
        simp [inWindow, windowed]
      simp [windowed, h, inWindow_eq]

/-- The stamps from the back that the window keeps. -/
def FreqCapLimits.windowKept (limits : FreqCapLimits) (now : Time) (counted : Nat)
    (latestFirst : List Nat) : Nat :=
  if limits.windowLimit ≠ 0 then
    windowCount limits.windowLimit (limits.windowBound now) counted latestFirst
  else 0

def isConfirmed (stamp : Nat) : Bool := !isUcTimestamp stamp

/-- The window keeps stamps in it, and clears none that is in it before more than
its limit are counted. -/
theorem windowKept_spec (limits : FreqCapLimits) (now : Time)
    (byTime : latestFirst.Pairwise fun later earlier =>
      normalizeImpressionTimestamp earlier ≤ normalizeImpressionTimestamp later)
    (counted : Nat) :
    (∀ stamp ∈ latestFirst.take (limits.windowKept now counted latestFirst),
      limits.inWindow now stamp) ∧
    ((∀ stamp ∈ latestFirst.drop (limits.windowKept now counted latestFirst),
      ¬ limits.inWindow now stamp) ∨
    limits.windowLimit <
      counted + (latestFirst.take (limits.windowKept now counted latestFirst)).countP
        isConfirmed) := by
  unfold windowKept
  by_cases windowed : limits.windowLimit = 0
  · simp [windowed, inWindow]
  rw [if_pos windowed]
  induction latestFirst generalizing counted with
  | nil => simp [windowCount]
  | cons latest rest ih =>
    have step := ih byTime.of_cons (if isUcTimestamp latest then counted else counted + 1)
    rw [windowCount]
    split
    · next goes_on =>
      have latest_in : limits.inWindow now latest := by
        simpa [inWindow, windowed] using goes_on.2
      rw [List.take_succ_cons, List.drop_succ_cons]
      refine ⟨List.forall_mem_cons.2 ⟨latest_in, step.1⟩, step.2.imp_right fun exceeds => ?_⟩
      have counts : isConfirmed latest = !isUcTimestamp latest := rfl
      rw [List.countP_cons, counts]
      cases uc : isUcTimestamp latest <;> simp [uc] at exceeds ⊢ <;> omega
    · next stops =>
      refine ⟨by simp, ?_⟩
      by_cases room : counted ≤ limits.windowLimit
      · have before : normalizeImpressionTimestamp latest < limits.windowBound now := by
          omega
        left
        intro stamp mem inside
        have le : normalizeImpressionTimestamp stamp ≤ normalizeImpressionTimestamp latest := by
          obtain rfl | mem := List.mem_cons.1 mem
          · exact le_rfl
          · exact (List.pairwise_cons.1 byTime).1 stamp mem
        simp only [inWindow, decide_eq_true_eq] at inside
        omega
      · right
        simp
        omega

/-- What the adapter clears and what it keeps. -/
structure Trimmed (limits : FreqCapLimits) (now : Time) (cleared kept : List Nat) : Prop where
  /-- Of a record with its latest stamp in the period one stamp is kept at least. -/
  period : ∀ stamp ∈ cleared ++ kept, limits.inPeriod now stamp → kept ≠ []
  window : ∀ stamp ∈ kept.dropLast, limits.inWindow now stamp
  outside : (∀ stamp ∈ cleared, ¬ limits.inWindow now stamp) ∨
    limits.windowLimit < kept.countP isConfirmed

theorem keptCount_eq (limits : FreqCapLimits) (now : Time) (latest : Nat) (rest : List Nat) :
    keptCount limits now (latest :: rest) =
      if limits.inPeriod now latest then
        limits.windowKept now (if isUcTimestamp latest then 0 else 1) rest + 1
      else limits.windowKept now 0 (latest :: rest) := by
  have period_iff : (limits.period ≠ 0 ∧
      now < limits.period + normalizeImpressionTimestamp latest * second) ↔
      limits.inPeriod now latest = true := by
    rw [inPeriod, decide_eq_true_iff, Nat.add_comm limits.period]
  unfold keptCount windowKept windowBound
  simp only [period_iff]
  split <;> split <;> simp [Nat.add_comm]

theorem keptCount_spec (limits : FreqCapLimits) (now : Time)
    (byTime : latestFirst.Pairwise fun later earlier =>
      normalizeImpressionTimestamp earlier ≤ normalizeImpressionTimestamp later) :
    (∀ stamp ∈ latestFirst, limits.inPeriod now stamp →
      latestFirst.take (keptCount limits now latestFirst) ≠ []) ∧
    (∀ stamp ∈ (latestFirst.take (keptCount limits now latestFirst)).tail,
      limits.inWindow now stamp) ∧
    ((∀ stamp ∈ latestFirst.drop (keptCount limits now latestFirst),
      ¬ limits.inWindow now stamp) ∨
    limits.windowLimit <
      (latestFirst.take (keptCount limits now latestFirst)).countP isConfirmed) := by
  cases latestFirst with
  | nil => simp [keptCount]
  | cons latest rest =>
    rw [keptCount_eq]
    by_cases period : limits.inPeriod now latest
    · obtain ⟨inside, outside⟩ := windowKept_spec limits now byTime.of_cons
        (if isUcTimestamp latest then 0 else 1)
      rw [if_pos period, List.take_succ_cons, List.drop_succ_cons]
      refine ⟨fun _ _ _ => List.cons_ne_nil _ _, inside, outside.imp_right fun exceeds => ?_⟩
      have counts : isConfirmed latest = !isUcTimestamp latest := rfl
      rw [List.countP_cons, counts]
      cases uc : isUcTimestamp latest <;> simp [uc] at exceeds ⊢ <;> omega
    · obtain ⟨inside, outside⟩ := windowKept_spec limits now byTime 0
      rw [if_neg period]
      refine ⟨fun stamp mem h => absurd ?_ period, fun stamp mem =>
        inside stamp (List.mem_of_mem_tail mem), by simpa using outside⟩
      obtain rfl | mem := List.mem_cons.1 mem
      · exact h
      · exact inPeriod_of_le ((List.pairwise_cons.1 byTime).1 stamp mem) h

theorem adapt_trimmed (cfg : FreqCapConfig) (now : Time) {fc : FreqCap}
    (sorted : StampsSorted fc.lastImpressions) :
    ∃ cleared, fc.lastImpressions = cleared ++ (adapt cfg now fc).lastImpressions ∧
      Trimmed (cfg.findOrGetDefault fc.fcId) now cleared (adapt cfg now fc).lastImpressions := by
  change ∃ cleared, _ = cleared ++ fc.lastImpressions.drop (fc.lastImpressions.length -
    keptCount (cfg.findOrGetDefault fc.fcId) now fc.lastImpressions.reverse) ∧
    Trimmed _ now cleared (fc.lastImpressions.drop _)
  generalize cfg.findOrGetDefault fc.fcId = limits
  have byTime := List.pairwise_reverse.2 sorted.byTime
  obtain ⟨period, window, outside⟩ := keptCount_spec limits now byTime
  generalize keptCount limits now fc.lastImpressions.reverse = count at period window outside
  have kept_eq : fc.lastImpressions.drop (fc.lastImpressions.length - count) =
      (fc.lastImpressions.reverse.take count).reverse := by
    rw [List.take_reverse, List.reverse_reverse]
  have cleared_eq : fc.lastImpressions.take (fc.lastImpressions.length - count) =
      (fc.lastImpressions.reverse.drop count).reverse := by
    rw [List.drop_reverse, List.reverse_reverse]
  refine ⟨_, (List.take_append_drop _ _).symm, ?_, ?_, ?_⟩
  · rw [List.take_append_drop, kept_eq]
    intro stamp mem h
    simpa using period stamp (by simpa using mem) h
  · rw [kept_eq, List.dropLast_reverse]
    intro stamp mem
    exact window stamp (List.mem_reverse.1 mem)
  · rw [kept_eq, cleared_eq]
    simpa only [List.mem_reverse, List.countP_reverse] using outside

section Expiring

variable {cleared kept expired : List Nat} {p : Nat → Bool}

/-- Where no stamp that was cleared is asked for, what is left is the same. -/
theorem countP_diff_append (none_cleared : ∀ stamp ∈ cleared, ¬ p stamp) :
    ((cleared ++ kept).diff expired).countP p = (kept.diff expired).countP p := by
  have same : (((cleared ++ kept).diff expired).filter p).Perm ((kept.diff expired).filter p) := by
    rw [List.perm_iff_count]
    intro stamp
    by_cases asked : p stamp
    · have not_cleared : stamp ∉ cleared := fun mem => none_cleared stamp mem asked
      rw [List.count_filter asked, List.count_filter asked, List.count_diff, List.count_diff,
        List.count_append, List.count_eq_zero.2 not_cleared, Nat.zero_add]
    · have not_mem (stamps : List Nat) : stamp ∉ stamps.filter p :=
        fun mem => asked (List.mem_filter.1 mem).2
      rw [List.count_eq_zero.2 (not_mem _), List.count_eq_zero.2 (not_mem _)]
  rw [List.countP_eq_length_filter, List.countP_eq_length_filter, same.length_eq]

theorem kept_diff_sublist (cleared kept expired : List Nat) :
    (kept.diff expired).Sublist ((cleared ++ kept).diff expired) :=
  (List.sublist_append_right cleared kept).diff_right

theorem countP_confirmed_diff (unconfirmed : ∀ stamp ∈ expired, isUcTimestamp stamp) :
    (kept.diff expired).countP isConfirmed = kept.countP isConfirmed := by
  induction expired generalizing kept with
  | nil => rfl
  | cons stamp rest ih =>
    have uc := unconfirmed stamp (by simp)
    rw [List.diff_cons, ih fun other mem => unconfirmed other (by simp [mem]),
      List.countP_erase]
    simp [isConfirmed, uc]

theorem diff_eq_nil_iff (stamps : List Nat) :
    stamps.diff expired = [] ↔ ∀ stamp, stamps.count stamp ≤ expired.count stamp := by
  rw [List.eq_nil_iff_forall_not_mem]
  refine forall_congr' fun stamp => ?_
  rw [← List.count_eq_zero, List.count_diff, Nat.sub_eq_zero_iff_le]

end Expiring

/-- All the stamps that the adapter goes by expire, the latest one and those in the
window, and one before them, still in the period, does not. -/
structure Uncovers (limits : FreqCapLimits) (now t : Time) (fc : FreqCap) (expired : List Nat) :
    Prop where
  unlimited : ¬ limits.lifeReached fc.totalImpressions
  latest : ∀ stamp ∈ fc.lastImpressions.getLast?, stamp ∈ expired
  window : (fc.lastImpressions.filter (limits.inWindow now)).diff expired = []
  period : ∃ stamp ∈ fc.lastImpressions.diff expired, limits.inPeriod t stamp

section Later

variable {limits : FreqCapLimits} {now t : Time} {cleared kept expired : List Nat}
  (later : now ≤ t) (trimmed : Trimmed limits now cleared kept)
  (sorted : StampsSorted (cleared ++ kept)) (unconfirmed : ∀ stamp ∈ expired, isUcTimestamp stamp)

include later trimmed sorted unconfirmed

theorem window_same :
    limits.windowLimit ≤ ((cleared ++ kept).diff expired).countP (limits.inWindow t) ↔
      limits.windowLimit ≤ (kept.diff expired).countP (limits.inWindow t) := by
  by_cases seen : ∃ stamp ∈ cleared, limits.inWindow t stamp
  · -- all that is kept is in the window then, and more than the limit is confirmed
    obtain ⟨stamp, mem, inside⟩ := seen
    have exceeds : limits.windowLimit < kept.countP isConfirmed :=
      trimmed.outside.resolve_left fun outside =>
        outside stamp mem (inWindow_of_later later inside)
    have all_inside : ∀ other ∈ kept.diff expired, limits.inWindow t other := by
      intro other other_mem
      have le := (List.pairwise_append.1 sorted.byTime).2.2 stamp mem other
        (List.diff_subset _ _ other_mem)
      exact inWindow_of_le le inside
    have confirmed_left : limits.windowLimit ≤ (kept.diff expired).countP (limits.inWindow t) := by
      rw [List.countP_eq_length.2 all_inside]
      calc limits.windowLimit ≤ kept.countP isConfirmed := exceeds.le
        _ = (kept.diff expired).countP isConfirmed := (countP_confirmed_diff unconfirmed).symm
        _ ≤ _ := List.countP_le_length
    have sub := kept_diff_sublist cleared kept expired
    exact iff_of_true (confirmed_left.trans sub.countP_le) confirmed_left
  · rw [countP_diff_append fun stamp mem inside => seen ⟨stamp, mem, inside⟩]

omit later trimmed unconfirmed in
/-- While something that is kept stays, the period's verdict is the same. -/
theorem period_same (stays : kept.diff expired ≠ []) :
    (∃ stamp ∈ (cleared ++ kept).diff expired, limits.inPeriod t stamp) ↔
      ∃ stamp ∈ kept.diff expired, limits.inPeriod t stamp := by
  constructor
  · rintro ⟨stamp, mem, period⟩
    by_cases was_cleared : stamp ∈ cleared
    · obtain ⟨other, other_mem⟩ := List.exists_mem_of_ne_nil _ stays
      have le := (List.pairwise_append.1 sorted.byTime).2.2 stamp was_cleared other
        (List.diff_subset _ _ other_mem)
      exact ⟨other, other_mem, inPeriod_of_le le period⟩
    · rw [← List.count_pos_iff, List.count_diff, List.count_append,
        List.count_eq_zero.2 was_cleared, Nat.zero_add, ← List.count_diff,
        List.count_pos_iff] at mem
      exact ⟨stamp, mem, period⟩
  · rintro ⟨stamp, mem, period⟩
    have sub := kept_diff_sublist cleared kept expired
    exact ⟨stamp, sub.mem mem, period⟩

/-- What is kept expires as a whole just where the latest stamp and those in the
window do. -/
theorem kept_expires_iff
    (period : ∃ stamp ∈ (cleared ++ kept).diff expired, limits.inPeriod t stamp) :
    kept.diff expired = [] ↔ (∀ stamp ∈ (cleared ++ kept).getLast?, stamp ∈ expired) ∧
      ((cleared ++ kept).filter (limits.inWindow now)).diff expired = [] := by
  obtain ⟨stamp, mem, inside⟩ := period
  have kept_some := trimmed.period stamp (List.diff_subset _ _ mem)
    (inPeriod_of_later later inside)
  obtain nothing | ⟨rest, latest, rfl⟩ := kept.eq_nil_or_concat
  · exact absurd nothing kept_some
  rw [List.concat_eq_append] at *
  have latest_iff : (∀ stamp ∈ (cleared ++ (rest ++ [latest])).getLast?, stamp ∈ expired) ↔
      latest ∈ expired := by
    simp
  rw [latest_iff]
  constructor
  · intro all_expire
    have counts := (diff_eq_nil_iff _).1 all_expire
    have members : ∀ stamp ∈ rest ++ [latest], stamp ∈ expired := by
      intro stamp mem
      exact List.count_pos_iff.1 ((List.count_pos_iff.2 mem).trans_le (counts stamp))
    have none_confirmed : (rest ++ [latest]).countP isConfirmed = 0 := by
      rw [List.countP_eq_zero]
      intro stamp mem
      simp [isConfirmed, unconfirmed stamp (members stamp mem)]
    have outside := trimmed.outside.resolve_right (by omega)
    rw [List.filter_append, List.filter_eq_nil_iff.2 outside, List.nil_append, diff_eq_nil_iff]
    exact ⟨members latest (by simp), fun stamp =>
      (List.filter_sublist.count_le stamp).trans (counts stamp)⟩
  · rintro ⟨latest_expires, window_expires⟩
    cases rest with
    | nil => simp [List.cons_diff_of_mem latest_expires]
    | cons first rest =>
      have window := trimmed.window
      rw [List.dropLast_concat] at window
      have le := (List.pairwise_append.1 (List.pairwise_append.1 sorted.byTime).2.1).2.2 first
        (by simp) latest (by simp)
      have all_inside : ∀ stamp ∈ first :: rest ++ [latest], limits.inWindow now stamp := by
        intro stamp mem
        obtain mem | mem := List.mem_append.1 mem
        · exact window stamp mem
        · rw [List.mem_singleton.1 mem]
          exact inWindow_of_le le (window first (by simp))
      rw [diff_eq_nil_iff] at window_expires ⊢
      intro stamp
      refine le_trans ?_ (window_expires stamp)
      rw [List.filter_append, List.filter_eq_self.2 all_inside]
      exact (List.sublist_append_right _ _).count_le stamp

end Later

/-- Clearing stamps at `now` cannot be seen by the check at a later time, unless
what was kept expires and uncovers what was not. -/
theorem isFull_trimmed_iff {cfg : FreqCapConfig} {now t : Time} {fc : FreqCap}
    {expired : List Nat} (later : now ≤ t) (sorted : StampsSorted fc.lastImpressions)
    (unconfirmed : ∀ stamp ∈ expired, isUcTimestamp stamp) :
    isFull cfg t (expire (adapt cfg now fc) expired) = isFull cfg t (expire fc expired) ↔
      ¬ Uncovers (cfg.findOrGetDefault fc.fcId) now t fc expired := by
  obtain ⟨cleared, stamps_eq, trimmed⟩ := adapt_trimmed cfg now sorted
  have trimmed_full := @isFull_iff cfg t (expire (adapt cfg now fc) expired)
    ((sorted.sublist (adapt_sublist cfg now fc)).sublist (List.diff_sublist _ _))
  have full := @isFull_iff cfg t (expire fc expired)
    (sorted.sublist (List.diff_sublist _ _))
  rw [Bool.eq_iff_iff, trimmed_full, full]
  change (FreqCapLimits.FullBy (cfg.findOrGetDefault fc.fcId) t fc.totalImpressions
    ((adapt cfg now fc).lastImpressions.diff expired) ↔
    FreqCapLimits.FullBy (cfg.findOrGetDefault fc.fcId) t fc.totalImpressions
      (fc.lastImpressions.diff expired)) ↔ _
  generalize cfg.findOrGetDefault fc.fcId = limits at trimmed ⊢
  generalize (adapt cfg now fc).lastImpressions = kept at stamps_eq trimmed ⊢
  unfold FreqCapLimits.FullBy
  rw [stamps_eq] at sorted ⊢
  rw [window_same later trimmed sorted unconfirmed]
  by_cases period : ∃ stamp ∈ (cleared ++ kept).diff expired, limits.inPeriod t stamp
  · have expires_iff := kept_expires_iff later trimmed sorted unconfirmed period
    by_cases all_expire : kept.diff expired = []
    · obtain ⟨latest, window⟩ := expires_iff.1 all_expire
      rw [← stamps_eq] at latest window period
      have uncovers_iff : Uncovers limits now t fc expired ↔
          ¬ limits.lifeReached fc.totalImpressions :=
        ⟨Uncovers.unlimited, fun unlimited => ⟨unlimited, latest, window, period⟩⟩
      rw [uncovers_iff, not_not, ← stamps_eq, all_expire]
      simp [period]
    · rw [period_same sorted all_expire]
      refine iff_of_true Iff.rfl fun uncovers => all_expire (expires_iff.2 ?_)
      rw [← stamps_eq]
      exact ⟨uncovers.latest, uncovers.window⟩
  · have kept_period : ¬ ∃ stamp ∈ kept.diff expired, limits.inPeriod t stamp := by
      rintro ⟨stamp, mem, inside⟩
      have sub := kept_diff_sublist cleared kept expired
      exact period ⟨stamp, sub.mem mem, inside⟩
    apply iff_of_true
    · rw [iff_false_intro period, iff_false_intro kept_period]
    · intro uncovers
      exact period (stamps_eq ▸ uncovers.period)

/-- Impressions of a cap with a period of 100 s: one confirmed and, ten seconds
later, one that is not. -/
def onePeriod : FreqCapConfig :=
  ⟨0, SortedMap.empty.put 1 ⟨0, 100 * second, 0, 0⟩, []⟩

def twoImpressions : FreqCap := ⟨1, 2, [50, toUcTimestamp 60]⟩

/-- The second one expires: by what is kept the cap is not full, though the
first was shown 30 s ago. -/
theorem trimmed_not_full :
    ¬ ∀ (cfg : FreqCapConfig) (now t : Time) (fc : FreqCap) (expired : List Nat),
      now ≤ t → StampsSorted fc.lastImpressions →
      (∀ stamp ∈ expired, isUcTimestamp stamp) → expired.Sublist fc.lastImpressions →
      isFull cfg t (expire (adapt cfg now fc) expired) = isFull cfg t (expire fc expired) := by
  intro all_same
  have same := all_same onePeriod (70 * second) (80 * second) twoImpressions [toUcTimestamp 60]
    (by decide) (by decide) (by decide) (by decide)
  exact absurd same (by decide)

/-- While the second one stays, what was cleared cannot be seen. -/
theorem isFull_trimmed_unexpired :
    isFull onePeriod (80 * second) (expire (adapt onePeriod (70 * second) twoImpressions) []) =
      isFull onePeriod (80 * second) (expire twoImpressions []) :=
  (isFull_trimmed_iff (by decide) (by decide) (by simp)).2
    fun uncovers => absurd (uncovers.latest (toUcTimestamp 60) (by decide)) List.not_mem_nil

end AdServer.UserInfo
