import AdServer.Reach.AppearanceMask
import Mathlib.Algebra.BigOperators.Group.List.Basic
import Mathlib.Tactic.Ring

/-!
# What is reported of a day

What is collected for a day is told by what the record tracks, and adds up to the
change of the pairs of neighbouring days.
-/

namespace AdServer.Reach

open AdServer.Lib

variable {next before : Nat}

/-- The dates of the report on a day and the one before it. -/
def reported : Option Nat × Nat → Int × Int
  | (none, day) => (dayTime day, 0)
  | (some before, day) =>
    (dayTime day, max (dayTime before) (dayTime day - oneDay * lastAppearanceMaxDiff))

def appearance (id : Nat) (link : Option Nat × Nat) (counter : Int) : IdAppearance :=
  ⟨id, (reported link).1, (reported link).2, counter⟩

/-- The sum of the counters of an id under two dates. -/
def net (reports : List IdAppearance) (id : Nat) (dates : Int × Int) : Int :=
  ((reports.filter fun report => report.id = id ∧
    (report.date, report.lastAppearanceDate) = dates).map IdAppearance.counter).sum

/-- How often two dates are those of a day and the one before it. -/
def transitions (seen : List Nat) (dates : Int × Int) : Nat :=
  ((Neighbours.links none seen).map reported).count dates

theorem net_append (a b : List IdAppearance) (id : Nat) (dates : Int × Int) :
    net (a ++ b) id dates = net a id dates + net b id dates := by
  unfold net
  rw [List.filter_append, List.map_append, List.sum_append]

theorem net_appearance (id id' : Nat) (link : Option Nat × Nat) (counter : Int) (dates : Int × Int) :
    net [appearance id link counter] id' dates =
      if id = id' ∧ reported link = dates then counter else 0 := by
  unfold net appearance
  rw [List.filter_cons]
  by_cases same : id = id' ∧ reported link = dates
  · simp [same]
  · rw [if_neg (by simpa using same), if_neg same]
    rfl

theorem net_cons (report : IdAppearance) (rest : List IdAppearance) (id : Nat) (dates : Int × Int) :
    net (report :: rest) id dates = net [report] id dates + net rest id dates :=
  net_append [report] rest id dates

theorem net_other {reports : List IdAppearance} {id : Nat}
    (other : ∀ report ∈ reports, report.id ≠ id) (dates : Int × Int) : net reports id dates = 0 := by
  unfold net
  have none : (reports.filter fun report => report.id = id ∧
      (report.date, report.lastAppearanceDate) = dates) = [] := by
    rw [List.filter_eq_nil_iff]
    intro report member
    simp [other report member]
  rw [none]
  rfl

variable {seen : List Nat} {day last i : Nat} {record : Record}

theorem transitions_greatest (greatest : ∀ other ∈ seen, other < day) (id : Nat)
    (dates : Int × Int) :
    (transitions (Neighbours.insertNew day seen) dates : Int) =
      transitions seen dates + net [appearance id (seen.getLast?, day) 1] id dates := by
  unfold transitions
  rw [Neighbours.links_insertNew_greatest greatest, List.map_append, List.count_append, net_appearance]
  push_cast
  congr 1
  rw [List.map_singleton, List.count_singleton]
  by_cases same : reported (seen.getLast?, day) = dates
  · simp [same]
  · simp [same]

theorem transitions_take_apart (sorted : seen.Pairwise (· < ·)) {day next : Nat} (new : day ∉ seen)
    (is_next : Neighbours.IsNext seen day next) (id : Nat) (dates : Int × Int) :
    (transitions (Neighbours.insertNew day seen) dates : Int) = transitions seen dates +
      net [appearance id ((seen.filter (· < day)).getLast?, next) (-1),
        appearance id ((seen.filter (· < day)).getLast?, day) 1,
        appearance id (some day, next) 1] id dates := by
  obtain ⟨front, back, whole, apart⟩ := Neighbours.links_insertNew sorted new is_next
  unfold transitions
  rw [whole, apart, net_cons, net_appearance, net_cons, net_appearance, net_appearance]
  simp only [List.map_append, List.map_cons, List.count_append, List.count_cons, beq_iff_eq, true_and]
  push_cast
  split_ifs <;> ring

variable {bits : BitAlgs} {machine : Machine}

theorem getLsbD_lowMask {count : Nat} (lt : count < 64) (i : Nat) :
    (1#64 <<< count - 1).getLsbD i = decide (i < count) := by
  have pow : 2 ^ count < 2 ^ 64 := Nat.pow_lt_pow_right (by omega) lt
  have some_pow : 0 < 2 ^ count := Nat.two_pow_pos count
  have shifted : (1#64 <<< count).toNat = 2 ^ count := by
    rw [BitVec.toNat_shiftLeft, Nat.shiftLeft_eq, BitVec.toNat_ofNat, Nat.mod_eq_of_lt (by omega)]
    omega
  have value : (1#64 <<< count - 1).toNat = 2 ^ count - 1 := by
    have one : (1 : BitVec 64).toNat = 1 := rfl
    rw [BitVec.toNat_sub, shifted, one]
    omega
  rw [← BitVec.testBit_toNat, value, Nat.testBit_two_pow_sub_one]

theorem Tracks.day_of_bit (tracks : Tracks seen record last) (low : i < 63)
    (set : record.prevAppearancesMask.getLsbD i = true) :
    ∃ day ∈ seen, day + i + 1 = last := (tracks.days i low).mp set

theorem Tracks.bit_of_day (tracks : Tracks seen record last) (member : day ∈ seen) (low : i < 63)
    (at_day : day + i + 1 = last) : record.prevAppearancesMask.getLsbD i = true :=
  (tracks.days i low).mpr ⟨day, member, at_day⟩

section Earlier

variable {seen : List Nat} {record : Record} {last day pos : Nat} (tracks : Tracks seen record last)
  (at_day : day + pos + 1 = last) (low : pos < 63)

include tracks at_day low

theorem Tracks.bit_unset : machine.shr record.prevAppearancesMask pos &&& 1#64 = 0 ↔ day ∉ seen := by
  rw [shr_of_lt _ rfl (by omega)]
  constructor
  · intro none member
    have bit := congrArg (fun mask : BitVec 64 => mask.getLsbD 0) none
    have set := tracks.bit_of_day member low at_day
    simp [set] at bit
  · intro new
    by_contra some_bit
    obtain ⟨i, set⟩ := ne_zero_iff_getLsbD.mp some_bit
    rw [BitVec.getLsbD_and, BitVec.getLsbD_ushiftRight, BitVec.getLsbD_one, Bool.and_eq_true,
      Bool.and_eq_true, decide_eq_true_eq, decide_eq_true_eq] at set
    obtain ⟨set, -, rfl⟩ := set
    obtain ⟨other, member, at_other⟩ := tracks.day_of_bit low set
    obtain rfl : other = day := by omega
    exact new member

theorem Tracks.lowest_before (new : day ∉ seen) (is_before : Neighbours.IsBefore seen day before)
    (near : last ≤ before + 63) :
    pos + bits.lowestBit (machine.shr record.prevAppearancesMask pos) + 1 + before = last := by
  rw [shr_of_lt _ rfl (by omega)]
  have below := is_before.below
  have set : (record.prevAppearancesMask >>> pos).getLsbD (day - before) = true := by
    rw [BitVec.getLsbD_ushiftRight]
    exact tracks.bit_of_day is_before.member (by omega) (by omega)
  have least := bits.lowest_least _ _ set
  have found := bits.lowest_set _ (ne_zero_iff_getLsbD.mpr ⟨_, set⟩)
  rw [BitVec.getLsbD_ushiftRight] at found
  obtain ⟨other, member, at_other⟩ := tracks.day_of_bit (by omega) found
  have differs : other ≠ day := fun same => new (same ▸ member)
  have le := is_before.greatest other member (by omega)
  omega

theorem Tracks.lowest_none (new : day ∉ seen) (none : ∀ other ∈ seen, other < day → other + 63 < last) :
    63 < pos + bits.lowestBit (machine.shr record.prevAppearancesMask pos) + 1 := by
  rw [shr_of_lt _ rfl (by omega)]
  by_cases zero : record.prevAppearancesMask >>> pos = 0
  · rw [zero, bits.lowest_zero]
    omega
  · have found := bits.lowest_set _ zero
    rw [BitVec.getLsbD_ushiftRight] at found
    by_contra inside
    obtain ⟨other, member, at_other⟩ := tracks.day_of_bit (by omega) found
    have differs : other ≠ day := fun same => new (same ▸ member)
    have := none other member (by omega)
    omega

theorem Tracks.highest_after (new : day ∉ seen) (is_next : Neighbours.IsNext seen day next) :
    (if (bits.highestBit (record.prevAppearancesMask &&& (machine.shl 1#64 (pos + 1) - 1)) : Int) <
        maxDayBitPos then
      record.lastAppearanceDate - oneDay * (bits.highestBit (record.prevAppearancesMask &&&
        (machine.shl 1#64 (pos + 1) - 1)) + 1)
    else record.lastAppearanceDate) = dayTime next := by
  rw [shl_of_lt _ (show (pos : Int) + 1 = (pos + 1 : Nat) by omega) (by omega)]
  have bit (i : Nat) : (record.prevAppearancesMask &&& (1#64 <<< (pos + 1) - 1)).getLsbD i = true ↔
      i ≤ pos ∧ record.prevAppearancesMask.getLsbD i = true := by
    rw [BitVec.getLsbD_and, getLsbD_lowMask (by omega), Bool.and_eq_true, decide_eq_true_eq]
    rw [and_comm, Nat.lt_succ_iff]
  revert bit
  generalize record.prevAppearancesMask &&& (1#64 <<< (pos + 1) - 1) = mask
  intro bit
  have above := is_next.above
  have le_last := tracks.greatest next is_next.member
  by_cases own : next = last
  · have zero : mask = 0 := by
      by_contra some_bit
      obtain ⟨i, set⟩ := ne_zero_iff_getLsbD.mp some_bit
      obtain ⟨inside, set⟩ := (bit i).mp set
      obtain ⟨other, member, at_other⟩ := tracks.day_of_bit (by omega) set
      have differs : other ≠ day := fun same => new (same ▸ member)
      have := is_next.least other member (by omega)
      omega
    rw [zero, bits.highest_zero, if_neg (by unfold maxDayBitPos; omega), tracks.date, own]
  · have set : mask.getLsbD (last - next - 1) = true :=
      (bit _).mpr ⟨by omega, tracks.bit_of_day is_next.member (by omega) (by omega)⟩
    have greatest := bits.highest_greatest _ _ set
    have found := bits.highest_set _ (ne_zero_iff_getLsbD.mpr ⟨_, set⟩)
    revert greatest found
    generalize bits.highestBit mask = highest
    intro greatest found
    obtain ⟨inside, found⟩ := (bit _).mp found
    obtain ⟨other, member, at_other⟩ := tracks.day_of_bit (by omega) found
    have differs : other ≠ day := fun same => new (same ▸ member)
    have least := is_next.least other member (by omega)
    have here : last = next + highest + 1 := by omega
    rw [if_pos (by unfold maxDayBitPos; omega), tracks.date, here]
    unfold dayTime
    push_cast
    ring

/-- A reappearance between two days: the pair of them is taken apart. -/
theorem Tracks.collect_between (id : Nat) (new : day ∉ seen)
    (is_before : Neighbours.IsBefore seen day before) (near : last ≤ before + 63)
    (is_next : Neighbours.IsNext seen day next) :
    collectReappearance bits machine id (dayTime day) record =
      (true, [appearance id (some before, next) (-1), appearance id (some before, day) 1,
        appearance id (some day, next) 1]) := by
  have pos_eq : (record.lastAppearanceDate - dayTime day).tdiv oneDay - 1 = pos := by
    rw [tracks.date, tdiv_dayTime]
    omega
  have before_pos : pos + bits.lowestBit (machine.shr record.prevAppearancesMask pos) + 1 + before =
      last := tracks.lowest_before at_day low new is_before near
  have before_date : record.lastAppearanceDate -
      oneDay * (pos + bits.lowestBit (machine.shr record.prevAppearancesMask pos) + 1) =
        dayTime before := by
    rw [tracks.date, ← before_pos]
    unfold dayTime
    push_cast
    ring
  unfold collectReappearance
  simp only [pos_eq]
  rw [if_pos ⟨by unfold maxDayBitPos; omega, (tracks.bit_unset at_day low).mpr new⟩,
    tracks.highest_after at_day low new is_next, if_pos (by unfold maxDayBitPos; omega),
    before_date]
  rfl

/-- A reappearance before the first day, which the record has: the total appearance moves. -/
theorem Tracks.collect_first (id : Nat) (first : ∀ other ∈ seen, day < other)
    (is_next : Neighbours.IsNext seen day next) :
    collectReappearance bits machine id (dayTime day) record =
      (true, [appearance id (none, next) (-1), appearance id (none, day) 1,
        appearance id (some day, next) 1]) := by
  have new : day ∉ seen := fun member => absurd (first day member) (lt_irrefl day)
  have pos_eq : (record.lastAppearanceDate - dayTime day).tdiv oneDay - 1 = pos := by
    rw [tracks.date, tdiv_dayTime]
    omega
  have before_pos : 63 < pos + bits.lowestBit (machine.shr record.prevAppearancesMask pos) + 1 := by
    refine tracks.lowest_none at_day low new fun other member below => ?_
    have := first other member
    omega
  have total : record.prevAppearancesMask &&& totalAppearanceMask ≠ 0 := by
    rw [total_ne_zero, tracks.total]
    intro other member
    have := first other member
    omega
  unfold collectReappearance
  simp only [pos_eq]
  rw [if_pos ⟨by unfold maxDayBitPos; omega, (tracks.bit_unset at_day low).mpr new⟩,
    tracks.highest_after at_day low new is_next, if_neg (by unfold maxDayBitPos; omega), if_pos total]
  rfl

theorem Tracks.collect_again (id : Nat) (member : day ∈ seen) :
    collectReappearance bits machine id (dayTime day) record = (false, []) := by
  have pos_eq : (record.lastAppearanceDate - dayTime day).tdiv oneDay - 1 = pos := by
    rw [tracks.date, tdiv_dayTime]
    omega
  unfold collectReappearance
  simp only [pos_eq]
  rw [if_neg]
  rintro ⟨-, none⟩
  exact (tracks.bit_unset at_day low).mp none member

end Earlier

section Collect

variable {seen : List Nat} {record : Record} {last : Nat} {records : Records} {id day : Nat}

theorem collectAppearance_new (none : records.find? id = none) :
    collectAppearance bits machine records id (dayTime day) =
      (true, [appearance id (.none, day) 1]) := by
  unfold collectAppearance
  rw [none]
  rfl

theorem collectAppearance_later (found : records.find? id = some record)
    (tracks : Tracks seen record last) (later : last < day) :
    collectAppearance bits machine records id (dayTime day) =
      (true, [appearance id (some last, day) 1]) := by
  unfold collectAppearance
  rw [found]
  simp only [tracks.date, if_pos (dayTime_lt.mpr later)]
  rfl

theorem collectAppearance_seen (found : records.find? id = some record)
    (tracks : Tracks seen record last) (member : day ∈ seen) (recent : last ≤ day + 63) :
    collectAppearance bits machine records id (dayTime day) = (false, []) := by
  have le := tracks.greatest day member
  unfold collectAppearance
  rw [found]
  simp only [tracks.date]
  rw [if_neg (by rw [dayTime_lt]; omega)]
  split_ifs with earlier
  · rw [dayTime_lt] at earlier
    exact tracks.collect_again (show day + (last - day - 1) + 1 = last by omega) (by omega) id member
  · rfl

/-- What is between the day before and the day after, or before the first day. -/
theorem collectAppearance_earlier (sorted : seen.Pairwise (· < ·))
    (found : records.find? id = some record) (tracks : Tracks seen record last) (new : day ∉ seen)
    (earlier : day < last) (recent : last ≤ day + 63) (is_next : Neighbours.IsNext seen day next)
    (reaches : (∃ other ∈ seen, other < day) → ∃ other ∈ seen, other < day ∧ last ≤ other + 63) :
    collectAppearance bits machine records id (dayTime day) =
      (true, [appearance id ((seen.filter (· < day)).getLast?, next) (-1),
        appearance id ((seen.filter (· < day)).getLast?, day) 1,
        appearance id (some day, next) 1]) := by
  have at_day : day + (last - day - 1) + 1 = last := by omega
  unfold collectAppearance
  rw [found]
  simp only [tracks.date]
  rw [if_neg (by rw [dayTime_lt]; omega), if_pos (dayTime_lt.mpr earlier)]
  cases before : (seen.filter (· < day)).getLast? with
  | none =>
    have first : ∀ other ∈ seen, day < other := by
      intro other member
      have differs : other ≠ day := fun same => new (same ▸ member)
      have not_below := List.filter_eq_nil_iff.mp (List.getLast?_eq_none_iff.mp before) other member
      simp only [decide_eq_true_eq] at not_below
      omega
    exact tracks.collect_first at_day (by omega) id first is_next
  | some before' =>
    obtain ⟨member, greatest⟩ := (Neighbours.getLast?_eq_some (sorted.filter _)).mp before
    obtain ⟨inside, below⟩ := List.mem_filter.mp member
    have is_before : Neighbours.IsBefore seen day before' :=
      ⟨inside, of_decide_eq_true below, fun other h lt =>
        greatest other (List.mem_filter.mpr ⟨h, by simpa using lt⟩)⟩
    obtain ⟨other, h, lt, near⟩ := reaches ⟨before', inside, is_before.below⟩
    have := is_before.greatest other h lt
    exact tracks.collect_between at_day (by omega) id new is_before (by omega) is_next

end Collect

end AdServer.Reach
