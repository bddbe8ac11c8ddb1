import AdServer.UserInfo.FreqCapOperations

/-!
# Stamps in order

The stamps of a freq cap are searched by bisection, so they have to be sorted:
by time, the unconfirmed of one time before the confirmed.
-/

namespace AdServer.UserInfo

open AdServer.Lib

def stampKey (stamp : Nat) : Nat :=
  2 * normalizeImpressionTimestamp stamp + if isUcTimestamp stamp then 0 else 1

theorem lastImpLess_iff (left right : Nat) :
    lastImpLess left right = true ↔ stampKey left < stampKey right := by
  unfold lastImpLess stampKey
  cases isUcTimestamp left <;> cases isUcTimestamp right <;>
    simp only [Bool.not_true, Bool.not_false, Bool.and_true, Bool.and_false, if_true, if_false,
      Bool.false_eq_true] <;> split <;> (try split) <;> simp <;> omega

/-- No stamp is less than one before it. -/
def StampsSorted (stamps : List Nat) : Prop :=
  stamps.Pairwise (fun left right => lastImpLess right left = false)

instance instDecidableStampsSorted (stamps : List Nat) : Decidable (StampsSorted stamps) :=
  inferInstanceAs (Decidable (stamps.Pairwise _))

variable {stamps : List Nat} {now : Time}

theorem stampsSorted_iff :
    StampsSorted stamps ↔ stamps.Pairwise (fun left right => stampKey left ≤ stampKey right) := by
  unfold StampsSorted
  apply iff_of_eq
  congr 1
  funext left right
  rw [← Bool.not_eq_true, lastImpLess_iff, Nat.not_lt]

theorem StampsSorted.sublist {stamps stamps' : List Nat} (h : StampsSorted stamps)
    (sub : stamps'.Sublist stamps) : StampsSorted stamps' :=
  List.Pairwise.sublist sub h

/-- The stamps are unsigned integers of 32 bits. -/
def Fits32 (stamps : List Nat) : Prop := ∀ stamp ∈ stamps, stamp < 4294967296

/-- Seconds that leave the top bit free. -/
def Fits31 (seconds : Nat) : Prop := seconds < 2147483648

section Values

variable {time : Nat} (fits : Fits31 time)

include fits

theorem toUint_eq : toUint time = time := by
  unfold Fits31 at fits
  unfold toUint
  omega

theorem toUcTimestamp_eq : toUcTimestamp time = time + 2147483648 := by
  unfold Fits31 at fits
  unfold toUcTimestamp toUint
  omega

theorem normalize_confirmed : normalizeImpressionTimestamp time = time := by
  unfold Fits31 at fits
  unfold normalizeImpressionTimestamp
  omega

theorem isUc_confirmed : isUcTimestamp time = false := by
  unfold Fits31 at fits
  unfold isUcTimestamp
  simp only [decide_eq_false_iff_not]
  omega

theorem stampKey_confirmed : stampKey time = 2 * time + 1 := by
  rw [stampKey, normalize_confirmed fits, isUc_confirmed fits]
  rfl

theorem normalize_uc : normalizeImpressionTimestamp (toUcTimestamp time) = time := by
  rw [toUcTimestamp_eq fits]
  unfold Fits31 at fits
  unfold normalizeImpressionTimestamp
  omega

theorem isUc_uc : isUcTimestamp (toUcTimestamp time) = true := by
  rw [toUcTimestamp_eq fits]
  unfold Fits31 at fits
  unfold isUcTimestamp
  simp only [decide_eq_true_eq]
  omega

theorem stampKey_uc : stampKey (toUcTimestamp time) = 2 * time := by
  rw [stampKey, normalize_uc fits, isUc_uc fits]
  rfl

/-- Against a time that leaves the top bit free, a stamp as it is counts as later
when its time is, or when it is unconfirmed. -/
theorem lt_stamp_iff {stamp : Nat} (h : stamp < 4294967296) :
    time < stamp ↔ isUcTimestamp stamp = true ∨ time < normalizeImpressionTimestamp stamp := by
  unfold Fits31 at fits
  unfold isUcTimestamp normalizeImpressionTimestamp
  simp only [decide_eq_true_eq]
  omega

end Values

theorem toUint_lt (value : Nat) : toUint value < 4294967296 := Nat.mod_lt _ (by decide)

theorem toUcTimestamp_lt (value : Nat) : toUcTimestamp value < 4294967296 := by
  unfold toUcTimestamp
  omega

theorem eq_of_stampKey {left right : Nat} (hl : left < 4294967296) (hr : right < 4294967296)
    (same : stampKey left = stampKey right) : left = right := by
  unfold stampKey normalizeImpressionTimestamp isUcTimestamp at same
  simp only [decide_eq_true_eq] at same
  split at same <;> split at same <;> omega

theorem mergeStamps_done (now : Time) (count ucCount : Nat) (stamps : List Nat) :
    mergeStamps now count ucCount true true stamps = stamps := by
  induction stamps with
  | nil => rfl
  | cons imp rest ih =>
    rw [mergeStamps]
    simp only [Bool.not_true, Bool.false_and, Bool.false_eq_true, if_false, Bool.or_false,
      List.nil_append]
    rw [ih]

/-- The stamps not after the time. -/
def notAfter (now : Time) (stamp : Nat) : Bool :=
  decide (normalizeImpressionTimestamp stamp ≤ tvSec now)

/-- Where the comparison with the stamp as it is goes the same way, both kinds
are put in at one place. -/
theorem mergeStamps_confirmed (now : Time) (count ucCount : Nat)
    (same : ∀ stamp ∈ stamps, tvSec now < stamp ↔ tvSec now < normalizeImpressionTimestamp stamp) :
    mergeStamps now count ucCount false false stamps =
      stamps.takeWhile (notAfter now) ++ (confirmedStamps count now ++ ucStamps ucCount now) ++
        stamps.dropWhile (notAfter now) := by
  induction stamps with
  | nil => simp [mergeStamps]
  | cons imp rest ih =>
    have rest_same := ih fun stamp h => same stamp (by simp [h])
    by_cases after : tvSec now < normalizeImpressionTimestamp imp
    · have here : tvSec now < imp := (same imp (by simp)).2 after
      have stop : ¬ notAfter now imp = true := by simp [notAfter, after]
      rw [mergeStamps, List.takeWhile_cons_of_neg stop, List.dropWhile_cons_of_neg stop]
      simp [here, after, mergeStamps_done]
    · have not_here : ¬ tvSec now < imp := fun h => after ((same imp (by simp)).1 h)
      have go : notAfter now imp = true := by simpa [notAfter] using after
      rw [mergeStamps, List.takeWhile_cons_of_pos go, List.dropWhile_cons_of_pos go]
      simp [not_here, after, rest_same]

theorem mergeStamps_uc (now : Time) (ucCount : Nat) (inserted : Bool) (stamps : List Nat) :
    mergeStamps now 0 ucCount inserted false stamps =
      stamps.takeWhile (notAfter now) ++ ucStamps ucCount now ++
        stamps.dropWhile (notAfter now) := by
  have none_confirmed (inserted : Bool) : mergeStamps now 0 ucCount inserted true = id := by
    funext stamps
    induction stamps generalizing inserted with
    | nil => simp [mergeStamps, confirmedStamps]
    | cons imp rest ih => simp [mergeStamps, confirmedStamps, ih]
  induction stamps generalizing inserted with
  | nil => simp [mergeStamps, confirmedStamps]
  | cons imp rest ih =>
    by_cases after : tvSec now < normalizeImpressionTimestamp imp
    · have stop : ¬ notAfter now imp = true := by simp [notAfter, after]
      rw [mergeStamps, List.takeWhile_cons_of_neg stop, List.dropWhile_cons_of_neg stop]
      simp [after, confirmedStamps, none_confirmed]
    · have go : notAfter now imp = true := by simpa [notAfter] using after
      rw [mergeStamps, List.takeWhile_cons_of_pos go, List.dropWhile_cons_of_pos go]
      simp [after, confirmedStamps, ih]

theorem mergeStamps_perm (now : Time) (count ucCount : Nat) (stamps : List Nat) :
    (mergeStamps now count ucCount false false stamps).Perm
      (stamps ++ (confirmedStamps count now ++ ucStamps ucCount now)) := by
  have general (stamps : List Nat) (inserted ucInserted : Bool) :
      (mergeStamps now count ucCount inserted ucInserted stamps).Perm
        (stamps ++ ((if inserted then [] else confirmedStamps count now) ++
          (if ucInserted then [] else ucStamps ucCount now))) := by
    induction stamps generalizing inserted ucInserted with
    | nil => exact .refl _
    | cons imp rest ih =>
      rw [mergeStamps, List.perm_iff_count]
      intro stamp
      have rest_count := fun inserted ucInserted =>
        (List.perm_iff_count.1 (ih inserted ucInserted)) stamp
      simp only [List.count_append, List.count_cons, rest_count]
      cases inserted <;> cases ucInserted <;>
        cases decide (tvSec now < imp) <;>
        cases decide (tvSec now < normalizeImpressionTimestamp imp) <;> simp <;> omega
  exact general stamps false false

theorem notAfter_first (sorted : StampsSorted stamps) :
    stamps.Pairwise (fun left right => notAfter now right = true → notAfter now left = true) := by
  refine (stampsSorted_iff.1 sorted).imp fun {left right} le later => ?_
  have le_norm : normalizeImpressionTimestamp left ≤ normalizeImpressionTimestamp right := by
    unfold stampKey at le
    split at le <;> split at le <;> omega
  simp only [notAfter, decide_eq_true_eq] at later ⊢
  omega

theorem stampsSorted_placed {stamps block : List Nat} (sorted : StampsSorted stamps)
    (in_order : StampsSorted block)
    (low : ∀ stamp ∈ stamps, notAfter now stamp = true → ∀ new ∈ block, stampKey stamp ≤ stampKey new)
    (high : ∀ new ∈ block, stampKey new ≤ 2 * tvSec now + 1) :
    StampsSorted (stamps.takeWhile (notAfter now) ++ block ++ stamps.dropWhile (notAfter now)) := by
  have parts := stampsSorted_iff.1 sorted
  rw [← List.takeWhile_append_dropWhile (p := notAfter now) (l := stamps),
    List.pairwise_append] at parts
  obtain ⟨first, last, across⟩ := parts
  have after (stamp : Nat) (mem : stamp ∈ stamps.dropWhile (notAfter now)) :
      2 * tvSec now + 2 ≤ stampKey stamp := by
    have later := of_mem_dropWhile (notAfter_first sorted) mem
    simp only [notAfter, decide_eq_false_iff_not] at later
    unfold stampKey
    omega
  rw [stampsSorted_iff, List.append_assoc, List.pairwise_append, List.pairwise_append]
  refine ⟨first, ⟨stampsSorted_iff.1 in_order, last, fun new hnew stamp mem => ?_⟩, ?_⟩
  · have := after stamp mem
    have := high new hnew
    omega
  · intro stamp mem other hother
    obtain new | later := List.mem_append.1 hother
    · exact low stamp ((List.takeWhile_sublist _).mem mem) (of_mem_takeWhile mem) other new
    · exact across stamp mem other later

theorem stampsSorted_replicate (count stamp : Nat) : StampsSorted (List.replicate count stamp) := by
  rw [stampsSorted_iff, List.pairwise_replicate]
  exact Or.inr le_rfl

/-- A counter's stamps have their place among those stored: confirmed ones with no
unconfirmed stamp that is not later, an unconfirmed one with no confirmed stamp
of its second. -/
structure Placeable (now : Time) (count ucCount : Nat) (stamps : List Nat) : Prop where
  confirmed : count ≠ 0 → ucCount = 0 ∧
    ∀ stamp ∈ stamps, isUcTimestamp stamp = true → tvSec now < normalizeImpressionTimestamp stamp
  unconfirmed : ucCount ≠ 0 → tvSec now ∉ stamps

theorem stampsSorted_mergeStamps {count ucCount : Nat} (fits : Fits31 (tvSec now))
    (fits32 : Fits32 stamps) (sorted : StampsSorted stamps)
    (placeable : Placeable now count ucCount stamps) :
    StampsSorted (mergeStamps now count ucCount false false stamps) := by
  by_cases none_confirmed : count = 0
  · subst none_confirmed
    rw [mergeStamps_uc]
    apply stampsSorted_placed sorted (stampsSorted_replicate _ _)
    · intro stamp mem before new hnew
      obtain ⟨some_new, rfl⟩ := List.mem_replicate.1 hnew
      have other := placeable.unconfirmed some_new
      rw [stampKey_uc fits]
      simp only [notAfter, decide_eq_true_eq] at before
      by_cases uc : isUcTimestamp stamp
      · simp only [stampKey, uc, if_true]
        omega
      · have value : normalizeImpressionTimestamp stamp = stamp := by
          have bound := fits32 stamp mem
          unfold isUcTimestamp at uc
          unfold normalizeImpressionTimestamp
          simp only [decide_eq_true_eq] at uc
          omega
        have earlier : normalizeImpressionTimestamp stamp ≠ tvSec now := by
          rw [value]
          exact fun same => other (same ▸ mem)
        simp only [stampKey, uc, Bool.false_eq_true, if_false]
        omega
    · intro new hnew
      obtain ⟨-, rfl⟩ := List.mem_replicate.1 hnew
      rw [stampKey_uc fits]
      omega
  · obtain ⟨rfl, clear⟩ := placeable.confirmed none_confirmed
    rw [mergeStamps_confirmed now count 0]
    · rw [ucStamps, List.replicate_zero, List.append_nil, confirmedStamps, toUint_eq fits]
      apply stampsSorted_placed sorted (stampsSorted_replicate _ _)
      · intro stamp mem before new hnew
        obtain ⟨-, rfl⟩ := List.mem_replicate.1 hnew
        rw [stampKey_confirmed fits]
        simp only [notAfter, decide_eq_true_eq] at before
        unfold stampKey
        split <;> omega
      · intro new hnew
        obtain ⟨-, rfl⟩ := List.mem_replicate.1 hnew
        rw [stampKey_confirmed fits]
    · intro stamp mem
      rw [lt_stamp_iff fits (fits32 stamp mem)]
      exact ⟨fun h => h.elim (clear stamp mem) id, Or.inr⟩

theorem adapt_sublist (cfg : FreqCapConfig) (now : Time) (fc : FreqCap) :
    (adapt cfg now fc).lastImpressions.Sublist fc.lastImpressions :=
  List.drop_sublist _ _

theorem keptCount_none {limits : FreqCapLimits} (none_kept : limits.keepsStamps = false)
    (now : Time) (latestFirst : List Nat) : keptCount limits now latestFirst = 0 := by
  simp only [FreqCapLimits.keepsStamps, Bool.or_eq_false_iff, decide_eq_false_iff_not,
    not_not] at none_kept
  cases latestFirst with
  | nil => rfl
  | cons latest rest => simp [keptCount, none_kept]

theorem adapt_none {cfg : FreqCapConfig} {fc : FreqCap}
    (none_kept : (cfg.findOrGetDefault fc.fcId).keepsStamps = false) :
    (adapt cfg now fc).lastImpressions = [] := by
  simp only [adapt, keptCount_none none_kept]
  exact List.drop_eq_nil_iff.2 (by omega)

theorem dropStamps_sublist (ucTime count : Nat) (stamps : List Nat) :
    (dropStamps ucTime count stamps).Sublist stamps := by
  induction stamps generalizing count with
  | nil => cases count <;> exact List.Sublist.slnil
  | cons imp rest ih =>
    cases count with
    | zero => exact List.Sublist.refl _
    | succ count =>
      rw [dropStamps]
      split
      · exact (ih count).cons imp
      · exact List.Sublist.refl _

theorem eraseStamps_sublist (stamps : List Nat) (ucTime count : Nat) :
    (eraseStamps stamps ucTime count).Sublist stamps := by
  have parts := List.take_append_drop (lowerBound (lastImpLess · ucTime) stamps) stamps
  conv_rhs => rw [← parts]
  exact (List.Sublist.refl _).append (dropStamps_sublist _ _ _)

theorem lastImpLess_first (sorted : StampsSorted stamps) (stamp : Nat) :
    stamps.Pairwise (fun left right =>
      lastImpLess right stamp = true → lastImpLess left stamp = true) := by
  refine (stampsSorted_iff.1 sorted).imp fun {left right} le less => ?_
  rw [lastImpLess_iff] at less ⊢
  omega

theorem stamps_around (sorted : StampsSorted stamps) (fits32 : Fits32 stamps) {time : Nat}
    (fits : Fits31 time) :
    ∃ earlier count later, stamps = earlier ++ List.replicate count (toUcTimestamp time) ++ later ∧
      stamps.take (lowerBound (lastImpLess · (toUcTimestamp time)) stamps) = earlier ∧
      stamps.drop (lowerBound (lastImpLess · (toUcTimestamp time)) stamps) =
        List.replicate count (toUcTimestamp time) ++ later ∧
      (∀ stamp ∈ earlier, stampKey stamp < 2 * time) ∧
      ∀ stamp ∈ later, 2 * time + 1 ≤ stampKey stamp := by
  have first := lastImpLess_first sorted (toUcTimestamp time)
  obtain ⟨take_eq, drop_eq⟩ := take_lowerBound first
  set rest := stamps.dropWhile (lastImpLess · (toUcTimestamp time)) with rest_eq
  have rest_sub : rest.Sublist stamps := List.dropWhile_sublist _
  have rest_sorted := sorted.sublist rest_sub
  have rest_key (stamp : Nat) (mem : stamp ∈ rest) : 2 * time ≤ stampKey stamp := by
    have not_less := of_mem_dropWhile first mem
    have not_key := (lastImpLess_iff stamp (toUcTimestamp time)).not.1 (by simp [not_less])
    rw [stampKey_uc fits] at not_key
    omega
  -- among the rest the equal stamps come first
  have equal_first : rest.Pairwise (fun left right =>
      decide (right = toUcTimestamp time) = true → decide (left = toUcTimestamp time) = true) := by
    have with_mem := List.Pairwise.and_mem.1 (stampsSorted_iff.1 rest_sorted)
    refine with_mem.imp fun {left right} ⟨inLeft, inRight, le⟩ equal => ?_
    simp only [decide_eq_true_eq] at equal ⊢
    apply eq_of_stampKey (fits32 left (rest_sub.mem inLeft)) (toUcTimestamp_lt time)
    have := rest_key left inLeft
    rw [equal, stampKey_uc fits] at le
    rw [stampKey_uc fits]
    omega
  have run := List.takeWhile_append_dropWhile (p := fun stamp =>
    decide (stamp = toUcTimestamp time)) (l := rest)
  have equal : rest.takeWhile (fun stamp => decide (stamp = toUcTimestamp time)) =
      List.replicate (rest.takeWhile (fun stamp => decide (stamp = toUcTimestamp time))).length
        (toUcTimestamp time) := by
    rw [List.eq_replicate_iff]
    exact ⟨rfl, fun stamp mem => by simpa using of_mem_takeWhile mem⟩
  rw [equal] at run
  refine ⟨_, _, _, ?_, take_eq, drop_eq.trans run.symm, ?_, ?_⟩
  · rw [List.append_assoc, run]
    exact (List.takeWhile_append_dropWhile ..).symm
  · intro stamp mem
    have less := of_mem_takeWhile mem
    rwa [lastImpLess_iff, stampKey_uc fits] at less
  · intro stamp mem
    have inRest : stamp ∈ rest := (List.dropWhile_sublist _).mem mem
    have low := rest_key stamp inRest
    have other := of_mem_dropWhile equal_first mem
    simp only [decide_eq_false_iff_not] at other
    have differs : stampKey stamp ≠ 2 * time := by
      intro same
      exact other (eq_of_stampKey (fits32 stamp (rest_sub.mem inRest)) (toUcTimestamp_lt time)
        (same.trans (stampKey_uc fits).symm))
    omega

section Search

variable {stamps : List Nat} {time : Nat}

theorem dropStamps_replicate {later : List Nat} {ucTime : Nat} (other : ucTime ∉ later)
    (count run : Nat) : dropStamps ucTime count (List.replicate run ucTime ++ later) =
      List.replicate (run - count) ucTime ++ later := by
  induction count generalizing run with
  | zero => cases run <;> cases later <;> rfl
  | succ count ih =>
    cases run with
    | zero =>
      cases later with
      | nil => simp [dropStamps]
      | cons imp rest =>
        have differs : imp ≠ ucTime := fun same => other (by simp [same])
        simp [dropStamps, differs]
    | succ run =>
      rw [List.replicate_succ, List.cons_append, dropStamps, if_pos rfl, ih run,
        Nat.add_sub_add_right]

section
variable (sorted : StampsSorted stamps)
include sorted

section
variable (fits32 : Fits32 stamps)
include fits32

section
variable (fits : Fits31 time)
include fits

/-- Of sorted stamps just the unconfirmed ones of the second are taken out. -/
theorem count_eraseStamps (count stamp : Nat) :
    (eraseStamps stamps (toUcTimestamp time) count).count stamp =
      if stamp = toUcTimestamp time then stamps.count stamp - max count 1
      else stamps.count stamp := by
  obtain ⟨earlier, run, later, eq, take_eq, drop_eq, low, high⟩ := stamps_around sorted fits32 fits
  have not_later : toUcTimestamp time ∉ later := by
    intro mem
    have := high _ mem
    rw [stampKey_uc fits] at this
    omega
  have not_earlier : toUcTimestamp time ∉ earlier := by
    intro mem
    have := low _ mem
    rw [stampKey_uc fits] at this
    omega
  simp only [eraseStamps, take_eq, drop_eq, dropStamps_replicate not_later, List.count_append]
  rw [eq, List.count_append, List.count_append]
  by_cases same : stamp = toUcTimestamp time
  · subst same
    rw [if_pos rfl, List.count_replicate_self, List.count_replicate_self,
      List.count_eq_zero.2 not_later, List.count_eq_zero.2 not_earlier]
    omega
  · rw [if_neg same, List.count_replicate, List.count_replicate]
    simp [Ne.symm same]

theorem confirmStamp_eq : ∃ earlier run later,
      stamps = earlier ++ List.replicate run (toUcTimestamp time) ++ later ∧
      (∀ stamp ∈ earlier, stampKey stamp < 2 * time) ∧
      (∀ stamp ∈ later, 2 * time + 1 ≤ stampKey stamp) ∧
      confirmStamp stamps time = earlier ++ List.replicate (run - 1) (toUcTimestamp time) ++
        if run = 0 then later else time :: later := by
  obtain ⟨earlier, run, later, eq, take_eq, drop_eq, low, high⟩ := stamps_around sorted fits32 fits
  refine ⟨earlier, run, later, eq, low, high, ?_⟩
  have not_later : toUcTimestamp time ∉ later := by
    intro mem
    have := high _ mem
    rw [stampKey_uc fits] at this
    omega
  simp only [confirmStamp, take_eq, drop_eq]
  cases run with
  | zero =>
    rw [List.replicate_zero, List.append_nil] at eq
    cases later with
    | nil => simpa using eq
    | cons imp rest =>
      have differs : imp ≠ toUcTimestamp time := fun same => not_later (by simp [same])
      simpa [differs] using eq
  | succ run =>
    have equal : ∀ stamp ∈ List.replicate run (toUcTimestamp time),
        decide (stamp = toUcTimestamp time) = true := by
      intro stamp mem
      simpa using (List.mem_replicate.1 mem).2
    have stop : later.takeWhile (fun stamp => decide (stamp = toUcTimestamp time)) = [] ∧
        later.dropWhile (fun stamp => decide (stamp = toUcTimestamp time)) = later := by
      cases later with
      | nil => exact ⟨rfl, rfl⟩
      | cons imp rest =>
        have differs : imp ≠ toUcTimestamp time := fun same => not_later (by simp [same])
        simp [differs]
    rw [List.replicate_succ, List.cons_append]
    simp only [if_true]
    rw [List.takeWhile_append_of_pos equal, List.dropWhile_append_of_pos equal, stop.1, stop.2]
    simp

theorem stampsSorted_confirmStamp : StampsSorted (confirmStamp stamps time) := by
  obtain ⟨earlier, run, later, eq, low, high, confirmed⟩ := confirmStamp_eq sorted fits32 fits
  have parts := stampsSorted_iff.1 sorted
  rw [eq, List.pairwise_append, List.pairwise_append] at parts
  obtain ⟨⟨first, -, -⟩, last, -⟩ := parts
  have last' : (if run = 0 then later else time :: later).Pairwise
      (fun left right => stampKey left ≤ stampKey right) ∧
      ∀ stamp ∈ (if run = 0 then later else time :: later), 2 * time + 1 ≤ stampKey stamp := by
    split
    · exact ⟨last, high⟩
    · have key := stampKey_confirmed fits
      refine ⟨List.pairwise_cons.2 ⟨fun stamp mem => key ▸ high stamp mem, last⟩, fun stamp mem => ?_⟩
      obtain rfl | later_mem := List.mem_cons.1 mem
      · exact key.ge
      · exact high stamp later_mem
  rw [confirmed, stampsSorted_iff, List.pairwise_append, List.pairwise_append]
  have uc_key := stampKey_uc fits
  refine ⟨⟨first, List.pairwise_replicate.2 (Or.inr le_rfl), ?_⟩, last'.1, ?_⟩
  · intro stamp mem new hnew
    obtain ⟨-, rfl⟩ := List.mem_replicate.1 hnew
    have := low stamp mem
    omega
  · intro stamp mem new hnew
    have after := last'.2 new hnew
    obtain before | equal := List.mem_append.1 mem
    · have := low stamp before
      omega
    · obtain ⟨-, rfl⟩ := List.mem_replicate.1 equal
      omega

/-- Confirming turns one unconfirmed stamp of the second, if there is one, into a
confirmed one. -/
theorem count_confirmStamp (stamp : Nat) :
    (confirmStamp stamps time).count stamp =
      if stamp = toUcTimestamp time then stamps.count stamp - 1
      else if stamp = time ∧ stamps.count (toUcTimestamp time) ≠ 0 then stamps.count stamp + 1
      else stamps.count stamp := by
  obtain ⟨earlier, run, later, eq, low, high, confirmed⟩ := confirmStamp_eq sorted fits32 fits
  have uc_key := stampKey_uc fits
  have not_later : toUcTimestamp time ∉ later := by
    intro mem
    have := high _ mem
    omega
  have not_earlier : toUcTimestamp time ∉ earlier := by
    intro mem
    have := low _ mem
    omega
  have differs : time ≠ toUcTimestamp time := by
    intro same
    have key := stampKey_confirmed fits
    rw [← same] at uc_key
    omega
  have run_count : stamps.count (toUcTimestamp time) = run := by
    rw [eq, List.count_append, List.count_append, List.count_replicate_self,
      List.count_eq_zero.2 not_later, List.count_eq_zero.2 not_earlier]
    omega
  rw [confirmed, run_count, eq, List.count_append, List.count_append, List.count_append,
    List.count_append]
  by_cases uc : stamp = toUcTimestamp time
  · subst uc
    rw [if_pos rfl, List.count_replicate_self, List.count_replicate_self,
      List.count_eq_zero.2 not_earlier]
    split <;> simp [List.count_eq_zero.2 not_later, differs]
  · have none_replicated (n : Nat) : (List.replicate n (toUcTimestamp time)).count stamp = 0 := by
      rw [List.count_replicate]
      simp [Ne.symm uc]
    rw [if_neg uc, none_replicated, none_replicated]
    by_cases nothing : run = 0
    · rw [if_pos nothing, if_neg fun h => h.2 nothing]
    · rw [if_neg nothing, List.count_cons]
      by_cases confirmed : stamp = time
      · have same : (time == stamp) = true := by simp [confirmed]
        rw [if_pos same, if_pos ⟨confirmed, nothing⟩]
        omega
      · have other : ¬ (time == stamp) = true := by simpa using Ne.symm confirmed
        rw [if_neg other, if_neg fun h : stamp = time ∧ run ≠ 0 => confirmed h.1]
        omega

theorem fits32_confirmStamp : Fits32 (confirmStamp stamps time) := by
  intro stamp mem
  have positive := List.count_pos_iff.2 mem
  rw [count_confirmStamp sorted fits32 fits] at positive
  by_cases stored : stamp ∈ stamps
  · exact fits32 stamp stored
  · have none_stored := List.count_eq_zero.2 stored
    split at positive
    · omega
    · split at positive
      · next confirmed =>
        unfold Fits31 at fits
        omega
      · omega

end

end

end

end Search

end AdServer.UserInfo
