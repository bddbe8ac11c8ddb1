import AdServer.UserInfo.ChannelDictionary
import Mathlib.Algebra.Order.Ring.Nat
import Mathlib.Data.List.Count
import Mathlib.Data.List.TakeWhile

/-!
# Excess visits

Of the visits of a channel with short intervals only those are kept that can matter:
in a window of the shortest interval the middle of many visits is erased.
-/

namespace AdServer.UserInfo.ExcessVisits

/-- The seconds that an interval spans. -/
def windowSize (interval : ChannelInterval) : Nat := interval.timeTo - interval.timeFrom

theorem none_bounded : ∀ interval ∈ ([] : List ChannelInterval), interval.timeTo ≤ 0 := by simp

theorem none_empty : ([] : List ChannelInterval) = [] → 0 = 0 := fun _ => rfl

def noIntervals : ChannelIntervalList := ⟨[], 0, none_bounded, none_empty⟩

/-- A list of short intervals with the limits that the visits are erased by. -/
structure ShortIntervals where
  list : ChannelIntervalList := noIntervals
  maxVisits : Nat := 0
  minWindowSize : Nat := 2 ^ 64 - 1
  visits_le : ∀ interval ∈ list.intervals, interval.minVisits ≤ maxVisits := by
    simp [noIntervals]
  visits_mem : maxVisits = 0 ∨ ∃ interval ∈ list.intervals, interval.minVisits = maxVisits := by
    simp
  size_le : ∀ interval ∈ list.intervals, minWindowSize ≤ windowSize interval := by
    simp [noIntervals]

theorem mem_insert {list : ChannelIntervalList} {interval other : ChannelInterval} :
    other ∈ (list.insert interval).intervals ↔ other = interval ∨ other ∈ list.intervals :=
  (insertInterval_perm _ _).mem_iff.trans List.mem_cons

/-- `ChannelIntervalList::insert`. -/
def ShortIntervals.insert (intervals : ShortIntervals) (interval : ChannelInterval) :
    ShortIntervals where
  list := intervals.list.insert interval
  maxVisits := if intervals.maxVisits < interval.minVisits then interval.minVisits
    else intervals.maxVisits
  minWindowSize := if windowSize interval < intervals.minWindowSize then windowSize interval
    else intervals.minWindowSize
  visits_le := by
    intro other mem
    obtain rfl | old := mem_insert.1 mem
    · split <;> omega
    · have low := intervals.visits_le other old
      split <;> omega
  visits_mem := by
    split
    · exact .inr ⟨interval, mem_insert.2 (.inl rfl), rfl⟩
    · exact intervals.visits_mem.imp_right fun ⟨other, mem, most⟩ =>
        ⟨other, mem_insert.2 (.inr mem), most⟩
  size_le := by
    intro other mem
    obtain rfl | old := mem_insert.1 mem
    · split <;> omega
    · have low := intervals.size_le other old
      split <;> omega

def insertAll (intervals : List ChannelInterval) : ShortIntervals :=
  intervals.foldl ShortIntervals.insert {}

/-- The stamps before `window_begin_it`, those from there to `window_end_it`
(`window_imps` of them), and the place of `erase_candidate_it` among these. -/
structure Scan where
  front : List Nat := []
  window : List Nat := []
  candidate : Nat := 0

def Scan.kept (scan : Scan) : List Nat := scan.front ++ scan.window

/-- `*window_end_it - *window_begin_it`, of 32 bits. -/
def distance (stamp first : Nat) : Nat := (stamp + 2 ^ 32 - first) % 2 ^ 32

/-- The window's begin is moved until the stamp is within its size. -/
def slide (minWindowSize : Nat) (stamp : Nat) (scan : Scan) : Scan :=
  let leaves (first : Nat) : Bool := minWindowSize < distance stamp first
  { front := scan.front ++ scan.window.takeWhile leaves
    window := scan.window.dropWhile leaves
    candidate := if scan.window.takeWhile leaves = [] then scan.candidate else 0 }

/-- The stamp comes into the window, and one behind its begin goes; nothing if that were
the begin itself or the stamp. -/
def push (maxVisits : Nat) (stamp : Nat) (scan : Scan) : Option Scan :=
  let candidate := if 2 * maxVisits % 2 ^ 64 < scan.window.length then scan.candidate + 1
    else scan.candidate
  if 4 * maxVisits % 2 ^ 64 ≤ scan.window.length then
    if 0 < candidate ∧ candidate < scan.window.length then
      some { front := scan.front, window := scan.window.eraseIdx candidate ++ [stamp],
             candidate := candidate - 1 }
    else none
  else some { front := scan.front, window := scan.window ++ [stamp], candidate := candidate }

def scanAll (maxVisits minWindowSize : Nat) : List Nat → Scan → Option Scan
  | [], scan => some scan
  | stamp :: stamps, scan =>
    (push maxVisits stamp (slide minWindowSize stamp scan)).bind
      (scanAll maxVisits minWindowSize stamps)

/-- `delete_excess_timestamps_`. -/
def deleteExcessTimestamps (intervals : ShortIntervals) (stamps : List Nat) : Option (List Nat) :=
  if intervals.maxVisits = 0 then some []
  else (scanAll intervals.maxVisits intervals.minWindowSize stamps {}).map Scan.kept

/-- The visits of an interval are counted down in `fill_channels_results_`. -/
def countDown (interval : ChannelInterval) (now : Nat) : Nat → List Nat → Bool
  | _, [] => false
  | visits, stamp :: stamps =>
    if now < stamp + interval.timeFrom then false
    else if now ≤ stamp + interval.timeTo then
      if visits - 1 = 0 then true else countDown interval now (visits - 1) stamps
    else countDown interval now visits stamps

def isMatched (interval : ChannelInterval) (now : Nat) (stamps : List Nat) : Bool :=
  countDown interval now interval.minVisits stamps

/-- Whatever the stamps and the time, each interval is matched by what is kept if and only
if it is by all. -/
def KeepsMatching (intervals : ShortIntervals) : Prop :=
  ∀ stamps : List Nat, stamps.Pairwise (· ≤ ·) → (∀ stamp ∈ stamps, stamp < 2 ^ 32) →
    ∃ kept, deleteExcessTimestamps intervals stamps = some kept ∧ kept.Sublist stamps ∧
      kept.Pairwise (· ≤ ·) ∧ ∀ now, (∀ stamp ∈ stamps, stamp ≤ now) →
        ∀ interval ∈ intervals.list.intervals,
          isMatched interval now kept = isMatched interval now stamps

/-- Nothing that the interval needs is erased: it ends now, or asks for two visits, or for
three in a window of nearly twice the size, or no window is slid. -/
def Spared (minWindowSize : Nat) (interval : ChannelInterval) : Prop :=
  interval.timeFrom = 0 ∨ interval.minVisits ≤ 2 ∨ minWindowSize = 0 ∨
    2 ^ 32 ≤ minWindowSize + 1 ∨ interval.minVisits = 3 ∧
      (2 * minWindowSize ≤ windowSize interval + 1 ∨ 2 ^ 32 ≤ windowSize interval + 2)

/-! ## Counting down -/

/-- The stamps that an interval counts. -/
def counts (interval : ChannelInterval) (now stamp : Nat) : Bool :=
  stamp + interval.timeFrom ≤ now && now ≤ stamp + interval.timeTo

variable {interval : ChannelInterval} {first : Nat} {window : List Nat} {intervals : ShortIntervals}

theorem countDown_iff {now visits : Nat} {stamps : List Nat} (sorted : stamps.Pairwise (· ≤ ·))
    (some_visits : 0 < visits) :
    countDown interval now visits stamps = true ↔ visits ≤ stamps.countP (counts interval now) := by
  induction stamps generalizing visits with
  | nil => simp [countDown, some_visits.ne']
  | cons stamp stamps ih =>
    rw [List.pairwise_cons] at sorted
    rw [countDown, List.countP_cons]
    split
    · rename_i ended
      have none_counts : stamps.countP (counts interval now) = 0 := by
        rw [List.countP_eq_zero]
        intro later mem
        have order := sorted.1 later mem
        simp [counts]
        omega
      have other : counts interval now stamp = false := by
        simp [counts]
        omega
      simp [none_counts, other, some_visits.ne']
    · rename_i begun
      split
      · rename_i inside
        have own : counts interval now stamp = true := by
          simp [counts, inside]
          omega
        rw [if_pos own]
        split
        · simp
          omega
        · rw [ih sorted.2 (by omega)]
          omega
      · rename_i outside
        have other : counts interval now stamp = false := by
          simp [counts, outside]
        rw [ih sorted.2 some_visits]
        simp [other]

/-! ## The window -/

/-- The place behind the window's begin where the next stamp goes, while none leaves. -/
def Scan.reach (maxVisits : Nat) (scan : Scan) : Nat :=
  scan.candidate + min (4 * maxVisits + 1 - scan.window.length) (2 * maxVisits)

/-- What holds after each stamp of `stamps`: where the begin was moved, a stamp
before it is near, and the first two behind it stay. -/
structure Sound (maxVisits minWindowSize : Nat) (stamps : List Nat) (scan : Scan) : Prop where
  sublist : scan.kept.Sublist stamps
  length_le : scan.window.length ≤ 4 * maxVisits
  two_le : 2 ≤ scan.reach maxVisits
  reach_le : scan.reach maxVisits ≤ 2 * maxVisits
  narrow : ∀ first ∈ scan.window.head?, ∀ stamp ∈ scan.window, stamp ≤ first + minWindowSize
  near : scan.reach maxVisits = 2 * maxVisits ∨
    ∃ last ∈ scan.front, ∀ first ∈ scan.window.head?, first ≤ last + minWindowSize
  left : ∀ stamp ∈ scan.front, stamp + minWindowSize + 1 < 2 ^ 32

variable {maxVisits minWindowSize : Nat} {stamps : List Nat} {scan : Scan} {stamp : Nat}

theorem distance_eq (order : first ≤ stamp) (fits : stamp < 2 ^ 32) :
    distance stamp first = stamp - first := by
  rw [distance]
  omega

theorem slide_kept (minWindowSize stamp : Nat) (scan : Scan) :
    (slide minWindowSize stamp scan).kept = scan.kept := by
  simp only [Scan.kept, slide, List.append_assoc, List.takeWhile_append_dropWhile]

theorem slide_within (sorted : window.Pairwise (· ≤ ·)) (order : ∀ first ∈ window, first ≤ stamp)
    (fits : stamp < 2 ^ 32) :
    ∀ first ∈ window.dropWhile (fun first => decide (minWindowSize < distance stamp first)),
      stamp ≤ first + minWindowSize := by
  induction window with
  | nil => simp
  | cons first window ih =>
    rw [List.pairwise_cons] at sorted
    have size := distance_eq (order first (List.mem_cons_self ..)) fits
    by_cases leaves : minWindowSize < distance stamp first
    · rw [List.dropWhile_cons_of_pos (by simpa using leaves)]
      exact ih sorted.2 fun other mem => order other (List.mem_cons_of_mem _ mem)
    · rw [List.dropWhile_cons_of_neg (by simpa using leaves)]
      intro other mem
      have later : first ≤ other := by
        obtain rfl | mem := List.mem_cons.1 mem
        · exact Nat.le_refl _
        · exact sorted.1 other mem
      omega

theorem sound_shift {front shifted stay : List Nat} {candidate : Nat}
    (sound : Sound maxVisits minWindowSize stamps ⟨front, shifted ++ stay, candidate⟩)
    (sorted : (shifted ++ stay).Pairwise (· ≤ ·)) (moved : shifted ≠ [])
    (passed : ∀ first ∈ shifted, first + minWindowSize + 1 < 2 ^ 32) :
    Sound maxVisits minWindowSize stamps ⟨front ++ shifted, stay, 0⟩ := by
  obtain ⟨first, shifted, rfl⟩ := List.exists_cons_of_ne_nil moved
  have length_le := sound.length_le
  have limits := sound.two_le.trans sound.reach_le
  have narrow := sound.narrow first rfl
  rw [List.cons_append, List.pairwise_cons] at sorted
  simp only [List.cons_append, List.length_cons, List.length_append] at length_le narrow
  have behind (stamp : Nat) (mem : stamp ∈ stay) : first ≤ stamp ∧ stamp ≤ first + minWindowSize :=
    ⟨sorted.1 stamp (List.mem_append_right _ mem),
      narrow stamp (List.mem_cons_of_mem _ (List.mem_append_right _ mem))⟩
  constructor
  · have sublist := sound.sublist
    rwa [Scan.kept, ← List.append_assoc] at sublist
  · simp only
    omega
  · simp only [Scan.reach]
    omega
  · simp only [Scan.reach]
    omega
  · intro begin_stamp head stamp mem
    have near := behind begin_stamp (List.mem_of_mem_head? head)
    have far := behind stamp mem
    omega
  · refine .inr ⟨first, List.mem_append_right _ (List.mem_cons_self ..), ?_⟩
    intro begin_stamp head
    exact (behind begin_stamp (List.mem_of_mem_head? head)).2
  · intro stamp mem
    exact (List.mem_append.1 mem).elim (sound.left stamp) (passed stamp)

theorem slide_sound (sound : Sound maxVisits minWindowSize stamps scan)
    (sorted : stamps.Pairwise (· ≤ ·)) (order : ∀ first ∈ stamps, first ≤ stamp)
    (fits : stamp < 2 ^ 32) :
    Sound maxVisits minWindowSize stamps (slide minWindowSize stamp scan) := by
  have inWindow : scan.window.Sublist stamps :=
    (List.sublist_append_right ..).trans sound.sublist
  have whole := List.takeWhile_append_dropWhile
    (p := fun first => decide (minWindowSize < distance stamp first)) (l := scan.window)
  by_cases still : scan.window.takeWhile
      (fun first => decide (minWindowSize < distance stamp first)) = []
  · rw [still, List.nil_append] at whole
    have same : slide minWindowSize stamp scan = scan := by
      simp only [slide, still, whole, List.append_nil, if_true]
    rwa [same]
  · rw [slide, if_neg still]
    refine @sound_shift _ _ _ _ _ _ scan.candidate (by rwa [whole])
      (by rw [whole]; exact sorted.sublist inWindow) still fun first mem => ?_
    have member : first ∈ stamps :=
      inWindow.mem ((List.takeWhile_sublist _).mem mem)
    have leaves := List.mem_takeWhile_imp mem
    rw [decide_eq_true_eq, distance_eq (order first member) fits] at leaves
    omega

theorem push_eq (short : maxVisits < 2 ^ 62) (stamp : Nat) (scan : Scan) :
    push maxVisits stamp scan =
      let candidate := if 2 * maxVisits < scan.window.length then scan.candidate + 1
        else scan.candidate
      if 4 * maxVisits ≤ scan.window.length then
        if 0 < candidate ∧ candidate < scan.window.length then
          some ⟨scan.front, scan.window.eraseIdx candidate ++ [stamp], candidate - 1⟩
        else none
      else some ⟨scan.front, scan.window ++ [stamp], candidate⟩ := by
  rw [push, Nat.mod_eq_of_lt (by omega), Nat.mod_eq_of_lt (by omega)]

section
variable (sound : Sound maxVisits minWindowSize stamps scan)
include sound

/-- A stamp comes into a full window when the one at its reach is erased, else it is
added. -/
theorem push_cases (short : maxVisits < 2 ^ 62) (stamp : Nat) :
    (scan.window.length + 1 ≤ 4 * maxVisits ∧ ∃ candidate,
      push maxVisits stamp scan = some ⟨scan.front, scan.window ++ [stamp], candidate⟩ ∧
      candidate + min (4 * maxVisits + 1 - (scan.window.length + 1)) (2 * maxVisits) =
        scan.reach maxVisits) ∨
    (scan.window.length = 4 * maxVisits ∧ scan.reach maxVisits = scan.candidate + 1 ∧
      push maxVisits stamp scan = some ⟨scan.front,
        scan.window.eraseIdx (scan.reach maxVisits) ++ [stamp], scan.candidate⟩) := by
  have length_le := sound.length_le
  have two_le := sound.two_le
  have reach_le := sound.reach_le
  rw [push_eq short]
  rw [Scan.reach] at two_le reach_le ⊢
  by_cases full : 4 * maxVisits ≤ scan.window.length
  · refine .inr ⟨by omega, by omega, ?_⟩
    have many : 2 * maxVisits < scan.window.length := by omega
    have place : scan.candidate + min (4 * maxVisits + 1 - scan.window.length) (2 * maxVisits) =
        scan.candidate + 1 := by omega
    rw [place]
    simp only [many, full, if_true]
    rw [if_pos (by omega), Nat.add_sub_cancel]
  · refine .inl ⟨by omega, ?_⟩
    simp only [full, if_false]
    refine ⟨_, rfl, ?_⟩
    split <;> omega

theorem sound_push {candidate : Nat} (sublist : window.Sublist scan.window)
    (head : window.head? = scan.window.head?) (length_le : window.length + 1 ≤ 4 * maxVisits)
    (reach : candidate + min (4 * maxVisits + 1 - (window.length + 1)) (2 * maxVisits) =
      scan.reach maxVisits)
    (within : ∀ first ∈ scan.window, stamp ≤ first + minWindowSize) :
    Sound maxVisits minWindowSize (stamps ++ [stamp])
      ⟨scan.front, window ++ [stamp], candidate⟩ := by
  have same_reach : Scan.reach maxVisits ⟨scan.front, window ++ [stamp], candidate⟩ =
      scan.reach maxVisits := by
    rw [← reach, Scan.reach, List.length_append, List.length_singleton]
  constructor
  · rw [Scan.kept, ← List.append_assoc]
    exact ((sublist.append_left _).trans sound.sublist).append_right _
  · rwa [List.length_append, List.length_singleton]
  · rw [same_reach]
    exact sound.two_le
  · rw [same_reach]
    exact sound.reach_le
  · intro first own other mem
    cases window with
    | nil =>
      obtain rfl := Option.some.inj own
      simp at mem
      omega
    | cons start window =>
      obtain rfl : start = first := Option.some.inj own
      have first_mem := List.mem_of_mem_head? (head ▸ rfl : start ∈ scan.window.head?)
      obtain old | new := List.mem_append.1 mem
      · exact sound.narrow start (head ▸ rfl) other (sublist.mem old)
      · rw [List.mem_singleton.1 new]
        exact within start first_mem
  · rw [same_reach]
    cases window with
    | nil =>
      have reach_le := sound.reach_le
      refine .inl ?_
      simp only [List.length_nil] at reach
      omega
    | cons first window =>
      refine sound.near.imp_right fun ⟨last, mem, near⟩ => ⟨last, mem, fun begin_stamp own => ?_⟩
      obtain rfl := Option.some.inj own
      exact near first (head ▸ rfl)
  · exact sound.left

end

/-! ## Counted visits -/

/-- Of the stamps that an interval counts as many are kept as it asks for. -/
def Counted (interval : ChannelInterval) (now : Nat) (stamps kept : List Nat) : Prop :=
  min interval.minVisits (stamps.countP (counts interval now)) ≤
    kept.countP (counts interval now)

variable {interval : ChannelInterval} {now : Nat}

section
variable (sound : Sound maxVisits minWindowSize stamps scan)
include sound

theorem counted_erase (sorted : stamps.Pairwise (· ≤ ·)) (order : ∀ first ∈ stamps, first ≤ stamp)
    (fits : stamp < 2 ^ 32) (within : ∀ first ∈ scan.window, stamp ≤ first + minWindowSize)
    (full : scan.window.length = 4 * maxVisits) (proper : interval.timeFrom ≤ interval.timeTo)
    (visits : interval.minVisits ≤ maxVisits) (size : minWindowSize ≤ windowSize interval)
    (spared : Spared minWindowSize interval) (past : stamp ≤ now) {erased : Nat}
    (own : counts interval now erased = true)
    (place : scan.window.take (scan.reach maxVisits) ++
      erased :: scan.window.drop (scan.reach maxVisits + 1) = scan.window) :
    interval.minVisits ≤ scan.front.countP (counts interval now) +
      ((scan.window.take (scan.reach maxVisits)).countP (counts interval now) +
        (scan.window.drop (scan.reach maxVisits + 1) ++ [stamp]).countP (counts interval now)) := by
  have two_le := sound.two_le
  have reach_le := sound.reach_le
  have inWindow : ∀ first ∈ scan.window, first ∈ stamps := fun first mem =>
    sound.sublist.mem (List.mem_append_right _ mem)
  have kept_sorted := sorted.sublist sound.sublist
  rw [Scan.kept, List.pairwise_append] at kept_sorted
  obtain ⟨-, window_sorted, front_before⟩ := kept_sorted
  rw [← place, List.pairwise_append, List.pairwise_cons] at window_sorted
  have erased_mem : erased ∈ scan.window := by
    rw [← place]
    simp
  have width : windowSize interval + interval.timeFrom = interval.timeTo :=
    Nat.sub_add_cancel proper
  have own_limits : erased + interval.timeFrom ≤ now ∧ now ≤ erased + interval.timeTo := by
    simpa [counts] using own
  by_cases reached : stamp + interval.timeFrom ≤ now
  · -- the window ends behind the stamp: all from the erased one on are counted
    have later : (scan.window.drop (scan.reach maxVisits + 1) ++ [stamp]).countP
        (counts interval now) = 4 * maxVisits - scan.reach maxVisits := by
      have all : ∀ other ∈ scan.window.drop (scan.reach maxVisits + 1) ++ [stamp],
          counts interval now other = true := by
        intro other mem
        have behind : erased ≤ other ∧ other ≤ stamp := by
          obtain old | new := List.mem_append.1 mem
          · exact ⟨window_sorted.2.1.1 other old,
              order other (inWindow other (List.mem_of_mem_drop old))⟩
          · rw [List.mem_singleton.1 new]
            exact ⟨order erased (inWindow erased erased_mem), Nat.le_refl _⟩
        simp [counts]
        omega
      rw [List.countP_eq_length.2 all]
      simp [full]
      omega
    omega
  · -- it ends before the stamp, and begins before all of the window
    have sooner : (scan.window.take (scan.reach maxVisits)).countP (counts interval now) =
        scan.reach maxVisits := by
      have all : ∀ other ∈ scan.window.take (scan.reach maxVisits),
          counts interval now other = true := by
        intro other mem
        have before := window_sorted.2.2 other mem erased (List.mem_cons_self ..)
        have close := within other (List.mem_of_mem_take mem)
        simp [counts]
        omega
      rw [List.countP_eq_length.2 all, List.length_take]
      omega
    have near_erased := within erased erased_mem
    obtain now_ended | few | zero | wide | ⟨three, wide⟩ := spared
    · omega
    · omega
    · omega
    · obtain middle | ⟨last, mem, -⟩ := sound.near
      · omega
      · have left := sound.left last mem
        omega
    · obtain middle | ⟨last, mem, near⟩ := sound.near
      · omega
      · obtain ⟨first, window, window_eq⟩ := List.exists_cons_of_ne_nil
          (List.ne_nil_of_mem erased_mem)
        have near_first := near first (by rw [window_eq]; rfl)
        have within_first := within first (by rw [window_eq]; exact List.mem_cons_self ..)
        have before := front_before last mem erased erased_mem
        have counted : counts interval now last = true := by
          simp [counts]
          omega
        have one := List.countP_pos_iff.2 ⟨last, mem, counted⟩
        omega

theorem step_sound (short : maxVisits < 2 ^ 62) (sorted : stamps.Pairwise (· ≤ ·))
    (order : ∀ first ∈ stamps, first ≤ stamp) (fits : stamp < 2 ^ 32) :
    ∃ after, push maxVisits stamp (slide minWindowSize stamp scan) = some after ∧
      Sound maxVisits minWindowSize (stamps ++ [stamp]) after ∧
      ∀ interval now, interval.timeFrom ≤ interval.timeTo → interval.minVisits ≤ maxVisits →
        minWindowSize ≤ windowSize interval → Spared minWindowSize interval → stamp ≤ now →
        Counted interval now stamps scan.kept →
          Counted interval now (stamps ++ [stamp]) after.kept := by
  have sound_slid := slide_sound sound sorted order fits
  have inWindow : scan.window.Sublist stamps :=
    (List.sublist_append_right ..).trans sound.sublist
  have within : ∀ first ∈ (slide minWindowSize stamp scan).window,
      stamp ≤ first + minWindowSize :=
    slide_within (sorted.sublist inWindow) (fun first mem => order first (inWindow.mem mem)) fits
  have kept := slide_kept minWindowSize stamp scan
  generalize slide minWindowSize stamp scan = slid at within sound_slid kept ⊢
  rw [← kept]
  obtain ⟨room, candidate, pushed, reach⟩ | ⟨full, reach, pushed⟩ :=
    push_cases sound_slid short stamp
  · refine ⟨_, pushed, sound_push sound_slid (List.Sublist.refl _) rfl room reach within, ?_⟩
    intro interval now _ _ _ _ _ counted
    simp only [Counted, Scan.kept, List.countP_append, ← Nat.add_assoc] at counted ⊢
    omega
  · have two_le := sound_slid.two_le
    have reach_le := sound_slid.reach_le
    have bound : slid.reach maxVisits < slid.window.length := by omega
    have place : slid.window.take (slid.reach maxVisits) ++
        slid.window[slid.reach maxVisits] :: slid.window.drop (slid.reach maxVisits + 1) =
          slid.window := by
      rw [← List.drop_eq_getElem_cons bound, List.take_append_drop]
    have erase := List.eraseIdx_eq_take_drop_succ slid.window (slid.reach maxVisits)
    refine ⟨_, pushed, sound_push sound_slid (List.eraseIdx_sublist ..) ?_ ?_ ?_ within, ?_⟩
    · obtain ⟨first, rest, window⟩ := List.exists_cons_of_length_pos (Nat.zero_lt_of_lt bound)
      obtain ⟨place, behind⟩ : ∃ place, slid.reach maxVisits = place + 1 :=
        ⟨slid.reach maxVisits - 1, by omega⟩
      rw [window, behind, List.eraseIdx_cons_succ]
      rfl
    · rw [List.length_eraseIdx_of_lt bound]
      omega
    · rw [List.length_eraseIdx_of_lt bound]
      omega
    · intro interval now proper visits size spared past counted
      simp only [Counted, Scan.kept, List.countP_append] at counted ⊢
      by_cases own : counts interval now slid.window[slid.reach maxVisits] = true
      · have enough := counted_erase sound_slid sorted order fits within full proper visits size
          spared past own place
        rw [erase]
        simp only [List.countP_append] at enough ⊢
        omega
      · rw [← place, List.countP_append, List.countP_cons_of_neg own] at counted
        rw [erase, List.countP_append]
        omega

end

theorem scanAll_sound (later : List Nat) (sound : Sound maxVisits minWindowSize stamps scan)
    (short : maxVisits < 2 ^ 62) (sorted : (stamps ++ later).Pairwise (· ≤ ·))
    (fits : ∀ stamp ∈ later, stamp < 2 ^ 32) :
    ∃ after, scanAll maxVisits minWindowSize later scan = some after ∧
      Sound maxVisits minWindowSize (stamps ++ later) after ∧
      ∀ interval now, interval.timeFrom ≤ interval.timeTo → interval.minVisits ≤ maxVisits →
        minWindowSize ≤ windowSize interval → Spared minWindowSize interval →
        (∀ stamp ∈ later, stamp ≤ now) → Counted interval now stamps scan.kept →
          Counted interval now (stamps ++ later) after.kept := by
  induction later generalizing stamps scan with
  | nil =>
    rw [List.append_nil]
    exact ⟨scan, rfl, sound, fun _ _ _ _ _ _ _ counted => counted⟩
  | cons stamp later ih =>
    obtain ⟨sorted_stamps, -, order⟩ := List.pairwise_append.1 sorted
    obtain ⟨next, pushed, sound_next, step⟩ := step_sound sound short sorted_stamps
      (fun first mem => order first mem stamp (List.mem_cons_self ..))
      (fits stamp (List.mem_cons_self ..))
    rw [List.append_cons] at sorted ⊢
    obtain ⟨after, scans, sound_after, rest⟩ := ih sound_next sorted
      fun other mem => fits other (List.mem_cons_of_mem _ mem)
    refine ⟨after, ?_, sound_after, ?_⟩
    · rw [scanAll, pushed]
      exact scans
    · intro interval now proper visits size spared past counted
      apply rest interval now proper visits size spared
      · exact fun other mem => past other (List.mem_cons_of_mem _ mem)
      · exact step interval now proper visits size spared (past stamp (List.mem_cons_self ..))
          counted

theorem start_sound (some_visits : 0 < maxVisits) : Sound maxVisits minWindowSize [] {} := by
  constructor
  · exact List.Sublist.refl _
  · exact Nat.zero_le _
  · simp only [Scan.reach, List.length_nil]
    omega
  · simp only [Scan.reach, List.length_nil]
    omega
  · simp
  · refine .inl ?_
    simp only [Scan.reach, List.length_nil]
    omega
  · simp

theorem keepsMatching_of_spared (short : intervals.maxVisits < 2 ^ 62)
    (proper : ∀ interval ∈ intervals.list.intervals,
      interval.timeFrom ≤ interval.timeTo ∧ 1 ≤ interval.minVisits)
    (spared : ∀ interval ∈ intervals.list.intervals, Spared intervals.minWindowSize interval) :
    KeepsMatching intervals := by
  intro stamps sorted fits
  by_cases no_visits : intervals.maxVisits = 0
  · refine ⟨[], by rw [deleteExcessTimestamps, if_pos no_visits], List.nil_sublist _,
      List.Pairwise.nil, fun now past interval mem => ?_⟩
    have visits := intervals.visits_le interval mem
    have one := (proper interval mem).2
    omega
  · obtain ⟨after, scans, sound, kept⟩ := scanAll_sound stamps
      (start_sound (Nat.pos_of_ne_zero no_visits)) short sorted fits
    rw [List.nil_append] at sound kept
    refine ⟨after.kept, by rw [deleteExcessTimestamps, if_neg no_visits, scans]; rfl,
      sound.sublist, sorted.sublist sound.sublist, fun now past interval mem => ?_⟩
    obtain ⟨order, one⟩ := proper interval mem
    have counted := kept interval now order (intervals.visits_le interval mem)
      (intervals.size_le interval mem) (spared interval mem) past (Nat.min_le_right _ _)
    have fewer := sound.sublist.countP_le (p := counts interval now)
    rw [Counted] at counted
    rw [Bool.eq_iff_iff, isMatched, isMatched, countDown_iff (sorted.sublist sound.sublist) one,
      countDown_iff sorted one]
    omega

/-! ## Where too many are erased -/

theorem slide_still {front rest : List Nat} {candidate : Nat} (order : first ≤ stamp)
    (fits : stamp < 2 ^ 32) (near : stamp ≤ first + minWindowSize) :
    slide minWindowSize stamp ⟨front, first :: rest, candidate⟩ =
      ⟨front, first :: rest, candidate⟩ := by
  have stays : ¬ minWindowSize < distance stamp first := by
    rw [distance_eq order fits]
    omega
  simp [slide, stays]

variable {size later : Nat}

theorem scanAll_fill (short : maxVisits < 2 ^ 62) (fits : size < 2 ^ 32) (rest : List Nat)
    (more : Nat) {filled : Nat} (candidate : Nat) (room : filled + more + 1 ≤ 4 * maxVisits) :
    ∃ candidate', scanAll maxVisits size (List.replicate more size ++ rest)
        ⟨[], 0 :: List.replicate filled size, candidate⟩ =
      scanAll maxVisits size rest ⟨[], 0 :: List.replicate (filled + more) size, candidate'⟩ := by
  induction more generalizing filled candidate with
  | zero => exact ⟨candidate, rfl⟩
  | succ more ih =>
    have added (place : Nat) : push maxVisits size ⟨[], 0 :: List.replicate filled size, place⟩ =
        some ⟨[], 0 :: List.replicate (filled + 1) size,
          if 2 * maxVisits < filled + 1 then place + 1 else place⟩ := by
      have room : ¬ 4 * maxVisits ≤ filled + 1 := by omega
      simp [push_eq short, room, List.replicate_succ']
    obtain ⟨candidate', fills⟩ := @ih (filled + 1) _ (by omega)
    refine ⟨candidate', ?_⟩
    rw [List.replicate_succ, List.cons_append, scanAll, slide_still (Nat.zero_le _) fits (by omega),
      added, Option.bind_some, fills, Nat.add_right_comm, Nat.add_assoc]

theorem scanAll_erase (short : maxVisits < 2 ^ 62) (order : size ≤ later) (fits : later < 2 ^ 32)
    (near : later ≤ 2 * size) (left : Nat) {behind : Nat}
    (full : left + behind + 2 = 4 * maxVisits) :
    scanAll maxVisits size (List.replicate left later)
        ⟨[0], size :: size :: (List.replicate left size ++ List.replicate behind later), 1⟩ =
      some ⟨[0], size :: size :: List.replicate (left + behind) later, 1⟩ := by
  induction left generalizing behind with
  | zero => simp [scanAll]
  | succ left ih =>
    have erased : push maxVisits later
        ⟨[0], size :: size :: (List.replicate (left + 1) size ++ List.replicate behind later), 1⟩ =
          some ⟨[0], size :: size :: (List.replicate left size ++
            List.replicate (behind + 1) later), 1⟩ := by
      have length : (size :: size ::
          (List.replicate (left + 1) size ++ List.replicate behind later)).length =
            4 * maxVisits := by
        simp
        omega
      have many : 2 * maxVisits < 4 * maxVisits := by omega
      simp only [push_eq short, length, many, if_true, Nat.le_refl]
      rw [if_pos (by omega), List.replicate_succ, List.replicate_succ', ← List.append_assoc]
      rfl
    rw [List.replicate_succ (n := left) (a := later), scanAll,
      slide_still order fits (by omega), erased, Option.bind_some, ih (by omega),
      Nat.add_right_comm left 1 behind, Nat.add_assoc]

/-- One stamp, many where the window ends, and as many that move its begin. -/
def crowd (maxVisits size later : Nat) : List Nat :=
  0 :: (List.replicate (4 * maxVisits - 1) size ++ List.replicate (4 * maxVisits - 2) later)

theorem scanAll_crowd (some_visits : 0 < maxVisits) (short : maxVisits < 2 ^ 62)
    (order : size < later) (fits : later < 2 ^ 32) (near : later ≤ 2 * size) :
    scanAll maxVisits size (crowd maxVisits size later) {} =
      some ⟨[0], size :: size :: List.replicate (4 * maxVisits - 2) later, 1⟩ := by
  have first : push maxVisits 0 (slide size 0 {}) = some ⟨[], [0], 0⟩ := by
    simp [push_eq short, slide, some_visits.ne']
  obtain ⟨rest, rest_eq⟩ : ∃ rest, 4 * maxVisits = rest + 3 := ⟨4 * maxVisits - 3, by omega⟩
  obtain ⟨candidate, fills⟩ := @scanAll_fill _ _ short (order.trans fits)
    (List.replicate (rest + 1) later) (rest + 2) 0 0 (by omega)
  have moved : push maxVisits later
      (slide size later ⟨[], 0 :: List.replicate (0 + (rest + 2)) size, candidate⟩) =
        some ⟨[0], size :: size :: (List.replicate rest size ++ List.replicate 1 later), 1⟩ := by
    have leaves : size < distance later 0 := by
      rw [distance_eq (Nat.zero_le _) fits]
      omega
    have stays : ¬ size < distance later size := by
      rw [distance_eq order.le fits]
      omega
    have many : 2 * maxVisits < rest + 2 := by omega
    have room : ¬ rest + 3 ≤ rest + 2 := by omega
    simp [slide, push_eq short, List.replicate_succ, leaves, stays, rest_eq, many]
  have ends : crowd maxVisits size later =
      0 :: (List.replicate (rest + 2) size ++ List.replicate (rest + 1) later) := by
    rw [crowd, rest_eq]
    rfl
  rw [ends, scanAll, first, Option.bind_some]
  refine fills.trans ?_
  rw [List.replicate_succ, scanAll, moved, Option.bind_some,
    scanAll_erase short order.le fits near rest (by omega), rest_eq]
  rfl

theorem crowd_sorted (order : size ≤ later) : (crowd maxVisits size later).Pairwise (· ≤ ·) := by
  rw [crowd, List.pairwise_cons, List.pairwise_append]
  refine ⟨fun _ _ => Nat.zero_le _, List.pairwise_replicate.2 (.inr (Nat.le_refl _)),
    List.pairwise_replicate.2 (.inr (Nat.le_refl _)), fun first mem last mem' => ?_⟩
  rw [List.eq_of_mem_replicate mem, List.eq_of_mem_replicate mem']
  exact order

theorem crowd_le (order : size ≤ later) : ∀ stamp ∈ crowd maxVisits size later, stamp ≤ later := by
  intro stamp mem
  obtain rfl | mem := List.mem_cons.1 mem
  · exact Nat.zero_le _
  · obtain mem | mem := List.mem_append.1 mem
    · rw [List.eq_of_mem_replicate mem]
      exact order
    · rw [List.eq_of_mem_replicate mem]

/-- Of a crowd an interval that ends before the last stamps is left two visits, or three
where it begins with the first. -/
theorem spared_of_keepsMatching (short : intervals.maxVisits < 2 ^ 62)
    (proper : ∀ interval ∈ intervals.list.intervals,
      interval.timeFrom ≤ interval.timeTo ∧ 1 ≤ interval.minVisits)
    (keeps : KeepsMatching intervals) (mem : interval ∈ intervals.list.intervals) :
    Spared intervals.minWindowSize interval := by
  obtain ⟨order, one⟩ := proper interval mem
  have visits := intervals.visits_le interval mem
  have size_le := intervals.size_le interval mem
  have width : windowSize interval + interval.timeFrom = interval.timeTo :=
    Nat.sub_add_cancel order
  by_contra unspared
  obtain ⟨later, above, near, fits, few⟩ : ∃ later, intervals.minWindowSize < later ∧
      later ≤ 2 * intervals.minWindowSize ∧ later < 2 ^ 32 ∧
      (4 ≤ interval.minVisits ∨ windowSize interval + 1 < later) := by
    unfold Spared at unspared
    by_cases three : interval.minVisits = 3
    · exact ⟨windowSize interval + 2, by omega, by omega, by omega, by omega⟩
    · exact ⟨intervals.minWindowSize + 1, by omega, by omega, by omega, by omega⟩
  unfold Spared at unspared
  obtain ⟨kept, erases, -, sorted, same⟩ := keeps _
    (@crowd_sorted intervals.maxVisits _ _ above.le)
    fun stamp mem => (crowd_le above.le stamp mem).trans_lt fits
  rw [deleteExcessTimestamps, if_neg (by omega),
    scanAll_crowd (by omega) short above fits near, Option.map_some, Option.some.injEq] at erases
  have all_past : ∀ stamp ∈ crowd intervals.maxVisits intervals.minWindowSize later,
      stamp ≤ later - 1 + interval.timeFrom := by
    intro stamp mem
    have le := crowd_le above.le stamp mem
    omega
  have matched := same (later - 1 + interval.timeFrom) all_past interval mem
  rw [Bool.eq_iff_iff, isMatched, isMatched, countDown_iff sorted one,
    countDown_iff (crowd_sorted above.le) one] at matched
  have last : counts interval (later - 1 + interval.timeFrom) later = false := by
    simp [counts]
    omega
  have middle : counts interval (later - 1 + interval.timeFrom) intervals.minWindowSize = true := by
    simp [counts]
    omega
  have enough : interval.minVisits ≤
      (crowd intervals.maxVisits intervals.minWindowSize later).countP
        (counts interval (later - 1 + interval.timeFrom)) := by
    rw [crowd, List.countP_cons, List.countP_append, List.countP_replicate, if_pos middle]
    omega
  have kept_count := matched.2 enough
  rw [← erases, Scan.kept] at kept_count
  simp only [List.singleton_append, List.countP_cons, List.countP_replicate, last, middle,
    if_true, Bool.false_eq_true, if_false] at kept_count
  obtain four | wide := few
  · split at kept_count <;> omega
  · have first : counts interval (later - 1 + interval.timeFrom) 0 = false := by
      simp [counts]
      omega
    simp only [first, Bool.false_eq_true, if_false] at kept_count
    omega

/-- The limits of the intervals decide whether the erasing can be seen. -/
theorem keepsMatching_iff (intervals : ShortIntervals)
    (proper : ∀ interval ∈ intervals.list.intervals,
      interval.timeFrom ≤ interval.timeTo ∧ 1 ≤ interval.minVisits)
    (short : ∀ interval ∈ intervals.list.intervals, interval.minVisits < 2 ^ 62) :
    KeepsMatching intervals ↔
      ∀ interval ∈ intervals.list.intervals, Spared intervals.minWindowSize interval := by
  have short : intervals.maxVisits < 2 ^ 62 := by
    obtain zero | ⟨interval, mem, most⟩ := intervals.visits_mem
    · omega
    · exact most ▸ short interval mem
  constructor
  · exact fun keeps _ mem => spared_of_keepsMatching short proper keeps mem
  · exact keepsMatching_of_spared short proper

/-- Three visits in twice the window of the other interval. -/
theorem keepsMatching_wide : KeepsMatching (insertAll [⟨10, 30, 3, 1⟩, ⟨0, 10, 2, 1⟩]) :=
  (keepsMatching_iff (insertAll [⟨10, 30, 3, 1⟩, ⟨0, 10, 2, 1⟩]) (by decide) (by decide)).2
    (by unfold Spared; decide)

/-- Sixteen visits at the end of the window, of which two are kept. -/
theorem not_matched_kept : ∃ kept,
    deleteExcessTimestamps (insertAll [⟨10, 20, 4, 1⟩]) (crowd 4 10 11) = some kept ∧
      isMatched ⟨10, 20, 4, 1⟩ 20 (crowd 4 10 11) = true ∧
        isMatched ⟨10, 20, 4, 1⟩ 20 kept = false := by
  refine ⟨[0, 10, 10] ++ List.replicate 14 11, ?_, ?_, ?_⟩ <;> decide

end AdServer.UserInfo.ExcessVisits
