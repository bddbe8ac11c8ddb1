import AdServer.Reach.Appearance
import AdServer.Lib.Neighbours

/-!
# Days in a record

`Tracks`: a record has the last of the days seen, the days at most 63 days before it, and
the flag of the total appearance while it has all of them.
-/

namespace AdServer.Reach

open AdServer.Lib

def dayTime (day : Nat) : Int := day * oneDay

structure Tracks (seen : List Nat) (record : Record) (last : Nat) : Prop where
  date : record.lastAppearanceDate = dayTime last
  member : last ∈ seen
  greatest : ∀ day ∈ seen, day ≤ last
  days : ∀ i < 63, record.prevAppearancesMask.getLsbD i = true ↔ ∃ day ∈ seen, day + i + 1 = last
  total : record.prevAppearancesMask.getLsbD 63 = true ↔ ∀ day ∈ seen, last ≤ day + 63

theorem tdiv_dayTime (a b : Nat) : (dayTime a - dayTime b).tdiv oneDay = (a : Int) - b := by
  unfold dayTime
  rw [← Int.sub_mul, Int.mul_tdiv_cancel _ (by decide)]

theorem dayTime_lt {a b : Nat} : dayTime a < dayTime b ↔ a < b := by
  unfold dayTime oneDay
  omega

variable {day : Nat} {count : Int} {mask : BitVec 64} {seen : List Nat} {record : Record}

theorem toUInt_dayTime (fits : dayTime day < 2 ^ 32) : toUInt (dayTime day) = dayTime day := by
  unfold toUInt
  apply Int.emod_eq_of_lt _ fits
  unfold dayTime oneDay
  omega

variable {bits : BitAlgs} {machine : Machine}

theorem shl_of_lt (mask : BitVec 64) {n : Nat} (same : count = n) (lt : n < 64) :
    machine.shl mask count = mask <<< n := by
  unfold Machine.shl
  rw [if_pos (by omega), same, Int.toNat_natCast]

theorem shr_of_lt (mask : BitVec 64) {n : Nat} (same : count = n) (lt : n < 64) :
    machine.shr mask count = mask >>> n := by
  unfold Machine.shr
  rw [if_pos (by omega), same, Int.toNat_natCast]

theorem getLsbD_totalAppearanceMask (i : Nat) :
    totalAppearanceMask.getLsbD i = decide (i = 63) := by
  unfold totalAppearanceMask
  rw [BitVec.getLsbD_shiftLeft, BitVec.getLsbD_one]
  by_cases top : i = 63
  · simp [top]
  · by_cases below : i < 63
    · simp [below, top]
    · have : ¬ i < 64 := by omega
      simp [this, top]

theorem ne_zero_iff_getLsbD : mask ≠ 0 ↔ ∃ i, mask.getLsbD i = true := by
  constructor
  · intro some_bit
    by_contra none
    apply some_bit
    apply BitVec.eq_of_getLsbD_eq
    intro i _
    have : mask.getLsbD i ≠ true := fun set => none ⟨i, set⟩
    simpa using this
  · rintro ⟨i, set⟩ rfl
    simp at set

theorem getLsbD_onlyDays (mask : BitVec 64) (i : Nat) :
    (mask &&& ~~~totalAppearanceMask).getLsbD i = (decide (i < 63) && mask.getLsbD i) := by
  rw [BitVec.getLsbD_and, BitVec.getLsbD_not, getLsbD_totalAppearanceMask]
  by_cases low : i < 63
  · have : i < 64 := by omega
    have other : i ≠ 63 := by omega
    simp [low, this, other]
  · by_cases top : i = 63
    · simp [top]
    · have : ¬ i < 64 := by omega
      simp [low, this]

theorem total_ne_zero : mask &&& totalAppearanceMask ≠ 0 ↔ mask.getLsbD 63 = true := by
  rw [ne_zero_iff_getLsbD]
  constructor
  · rintro ⟨i, set⟩
    rw [BitVec.getLsbD_and, getLsbD_totalAppearanceMask, Bool.and_eq_true, decide_eq_true_eq] at set
    rw [← set.2]
    exact set.1
  · intro set
    exact ⟨63, by rw [BitVec.getLsbD_and, getLsbD_totalAppearanceMask, set]; rfl⟩

theorem getLsbD_keptFlag (lost : Prop) [Decidable lost] (mask : BitVec 64) (i : Nat) :
    (if lost then 0 else mask &&& totalAppearanceMask).getLsbD i =
      decide (i = 63 ∧ ¬ lost ∧ mask.getLsbD 63 = true) := by
  split_ifs with is_lost
  · simp [is_lost]
  · rw [BitVec.getLsbD_and, getLsbD_totalAppearanceMask]
    by_cases top : i = 63
    · simp [top, is_lost]
    · simp [top]

theorem eldestDayBitLost_iff {onlyDays : BitVec 64} {gap : Nat} (lt : gap < 64) :
    machine.shr (machine.shl onlyDays gap &&& ~~~totalAppearanceMask) gap ^^^ onlyDays ≠ 0 ↔
      ∃ i, onlyDays.getLsbD i = true ∧ 63 ≤ i + gap := by
  rw [shl_of_lt _ rfl lt, shr_of_lt _ rfl lt, ne_zero_iff_getLsbD]
  apply exists_congr
  intro i
  rw [BitVec.getLsbD_xor, BitVec.getLsbD_ushiftRight, getLsbD_onlyDays, BitVec.getLsbD_shiftLeft]
  have back : gap + i - gap = i := by omega
  have not_lt : ¬ gap + i < gap := by omega
  rw [back]
  by_cases fits : gap + i < 63
  · have inside : gap + i < 64 := by omega
    have none : ¬ 63 ≤ i + gap := by omega
    simp [fits, inside, none]
  · have moved : 63 ≤ i + gap := by omega
    simp [fits, moved]

theorem getLsbD_moved (onlyDays : BitVec 64) {gap : Nat} (some_gap : 0 < gap) (lt : gap < 64)
    {i : Nat} (inside : i < 64) :
    (machine.shl (onlyDays <<< 1 ||| 1#64) (gap - 1)).getLsbD i = true ↔
      i + 1 = gap ∨ gap ≤ i ∧ onlyDays.getLsbD (i - gap) = true := by
  rw [shl_of_lt _ (show (gap : Int) - 1 = (gap - 1 : Nat) by omega) (by omega),
    BitVec.getLsbD_shiftLeft, BitVec.getLsbD_or, BitVec.getLsbD_shiftLeft, BitVec.getLsbD_one]
  by_cases own : i + 1 = gap
  · have zero : i - (gap - 1) = 0 := by omega
    have from_here : ¬ i < gap - 1 := by omega
    simp [own, inside, zero, from_here]
  · by_cases after : gap ≤ i
    · have from_here : ¬ i < gap - 1 := by omega
      have later : i - (gap - 1) ≠ 0 := by omega
      have small : i - (gap - 1) < 64 := by omega
      have one : i - (gap - 1) - 1 = i - gap := by omega
      simp only [own, after, inside, from_here, one, small, later, decide_true, decide_false,
        Bool.not_false, Bool.true_and, Bool.and_false, Bool.or_false, Nat.lt_one_iff, false_or,
        true_and]
    · have before : i < gap - 1 := by omega
      simp [own, after, before]

theorem tracks_later {last day : Nat} (tracks : Tracks seen record last) (later : last < day)
    (near : day ≤ last + 63) (none_at_64 : ∀ other ∈ seen, other + 64 ≠ day)
    (fits : dayTime day < 2 ^ 32) :
    Tracks (Neighbours.insertNew day seen) (updateRecord machine (dayTime day) record) day := by
  obtain ⟨gap, rfl⟩ : ∃ gap, day = last + gap := ⟨day - last, by omega⟩
  have diff : (dayTime (last + gap) - record.lastAppearanceDate).tdiv oneDay = (gap : Int) := by
    rw [tracks.date, tdiv_dayTime]
    omega
  generalize only : record.prevAppearancesMask &&& ~~~totalAppearanceMask = onlyDays
  have onlyDays_iff (i : Nat) : onlyDays.getLsbD i = true ↔
      i < 63 ∧ ∃ other ∈ seen, other + i + 1 = last := by
    rw [← only, getLsbD_onlyDays, Bool.and_eq_true, decide_eq_true_eq]
    constructor
    · rintro ⟨low, set⟩
      exact ⟨low, (tracks.days i low).mp set⟩
    · rintro ⟨low, some_day⟩
      exact ⟨low, (tracks.days i low).mpr some_day⟩
  have lost := @eldestDayBitLost_iff machine onlyDays gap (by omega)
  have updated : updateRecord machine (dayTime (last + gap)) record =
      { prevAppearancesMask := machine.shl (onlyDays <<< 1 ||| 1#64) (gap - 1) |||
          if machine.shr (machine.shl onlyDays gap &&& ~~~totalAppearanceMask) gap ^^^ onlyDays ≠ 0
          then 0 else record.prevAppearancesMask &&& totalAppearanceMask
        lastAppearanceDate := dayTime (last + gap) } := by
    simp only [updateRecord, diff, only, toUInt_dayTime fits]
    exact if_pos (by omega)
  rw [updated]
  refine ⟨rfl, Neighbours.mem_insertNew.mpr (.inl rfl), ?_, ?_, ?_⟩
  · intro other member
    rcases Neighbours.mem_insertNew.mp member with rfl | member
    · exact le_rfl
    · have := tracks.greatest other member
      omega
  · intro i low
    have other : i ≠ 63 := by omega
    have moved := @getLsbD_moved machine onlyDays gap (by omega) (by omega) i (by omega)
    dsimp only
    rw [BitVec.getLsbD_or, getLsbD_keptFlag, decide_eq_false (by simp [other]), Bool.or_false, moved]
    constructor
    · rintro (own | ⟨after, set⟩)
      · exact ⟨last, Neighbours.mem_insertNew.mpr (.inr tracks.member), by omega⟩
      · obtain ⟨-, day, member, at_day⟩ := (onlyDays_iff _).mp set
        exact ⟨day, Neighbours.mem_insertNew.mpr (.inr member), by omega⟩
    · rintro ⟨day, member, at_day⟩
      rcases Neighbours.mem_insertNew.mp member with rfl | member
      · omega
      · have le := tracks.greatest day member
        by_cases own : day = last
        · left
          omega
        · right
          exact ⟨by omega, (onlyDays_iff _).mpr ⟨by omega, day, member, by omega⟩⟩
  · have moved := @getLsbD_moved machine onlyDays gap (by omega) (by omega) 63 (by omega)
    have not_moved : ¬ (63 + 1 = gap ∨ gap ≤ 63 ∧ onlyDays.getLsbD (63 - gap) = true) := by
      rintro (own | ⟨-, set⟩)
      · omega
      · obtain ⟨-, day, member, at_day⟩ := (onlyDays_iff _).mp set
        exact none_at_64 day member (by omega)
    rw [← moved, Bool.not_eq_true] at not_moved
    dsimp only
    rw [BitVec.getLsbD_or, not_moved, Bool.false_or, getLsbD_keptFlag, decide_eq_true_eq, tracks.total, lost]
    constructor
    · rintro ⟨-, kept, all⟩ day member
      rcases Neighbours.mem_insertNew.mp member with rfl | member
      · omega
      · have le := tracks.greatest day member
        have recent := all day member
        by_contra far
        by_cases own : day = last
        · omega
        · exact kept ⟨last - day - 1,
            (onlyDays_iff _).mpr ⟨by omega, day, member, by omega⟩, by omega⟩
    · intro all
      have all_seen := fun day member => all day (Neighbours.mem_insertNew.mpr (.inr member))
      refine ⟨rfl, ?_, fun day member => ?_⟩
      · rintro ⟨i, set, moved_out⟩
        obtain ⟨-, day, member, at_day⟩ := (onlyDays_iff i).mp set
        have := all_seen day member
        omega
      · have := all_seen day member
        omega

theorem tracks_earlier {last day : Nat} (tracks : Tracks seen record last) (earlier : day < last)
    (near : last ≤ day + 63) :
    Tracks (Neighbours.insertNew day seen) (updateRecord machine (dayTime day) record) last := by
  obtain ⟨gap, rfl⟩ : ∃ gap, last = day + gap + 1 := ⟨last - day - 1, by omega⟩
  have diff : (dayTime day - record.lastAppearanceDate).tdiv oneDay = -(gap + 1 : Nat) := by
    rw [tracks.date, tdiv_dayTime]
    omega
  have updated : updateRecord machine (dayTime day) record =
      { record with prevAppearancesMask := record.prevAppearancesMask ||| 1#64 <<< gap } := by
    simp only [updateRecord, diff]
    rw [if_neg (by omega), if_pos (by unfold maxDayBitPos; omega),
      shl_of_lt _ (show -(-((gap + 1 : Nat) : Int)) - 1 = (gap : Nat) by omega) (by omega)]
  have bit (i : Nat) (inside : i < 64) :
      (record.prevAppearancesMask ||| 1#64 <<< gap).getLsbD i = true ↔
        record.prevAppearancesMask.getLsbD i = true ∨ i = gap := by
    rw [BitVec.getLsbD_or, BitVec.getLsbD_shiftLeft, BitVec.getLsbD_one, Bool.or_eq_true]
    apply or_congr_right
    simp only [Bool.and_eq_true, decide_eq_true_eq, Bool.not_eq_true', decide_eq_false_iff_not]
    omega
  rw [updated]
  refine ⟨tracks.date, Neighbours.mem_insertNew.mpr (.inr tracks.member), ?_, ?_, ?_⟩
  · intro other member
    rcases Neighbours.mem_insertNew.mp member with rfl | member
    · omega
    · exact tracks.greatest other member
  · intro i low
    rw [bit i (by omega), tracks.days i low]
    constructor
    · rintro (⟨other, member, at_other⟩ | rfl)
      · exact ⟨other, Neighbours.mem_insertNew.mpr (.inr member), at_other⟩
      · exact ⟨day, Neighbours.mem_insertNew.mpr (.inl rfl), by omega⟩
    · rintro ⟨other, member, at_other⟩
      rcases Neighbours.mem_insertNew.mp member with rfl | member
      · exact .inr (by omega)
      · exact .inl ⟨other, member, at_other⟩
  · rw [bit 63 (by omega), tracks.total]
    constructor
    · rintro (all | top) other member
      · rcases Neighbours.mem_insertNew.mp member with rfl | member
        · exact near
        · exact all other member
      · omega
    · exact fun all => .inl fun other member => all other (Neighbours.mem_insertNew.mpr (.inr member))

theorem tracks_inserted (fits : dayTime day < 2 ^ 32) :
    Tracks [day] (insertedRecord (dayTime day)) day := by
  refine ⟨toUInt_dayTime fits, List.mem_singleton_self _, ?_, ?_, ?_⟩
  · intro other member
    exact (List.mem_singleton.mp member).le
  · intro i low
    have other : i ≠ 63 := by omega
    simp only [insertedRecord, getLsbD_totalAppearanceMask, decide_eq_true_eq, List.mem_singleton]
    constructor
    · exact fun top => absurd top other
    · rintro ⟨_, rfl, at_day⟩
      omega
  · simp [insertedRecord, getLsbD_totalAppearanceMask]

end AdServer.Reach
