import AdServer.Reach.AppearanceSteps

/-!
# Runs of days

The days of the ids are processed one by one.

In another run a late day comes after a lost day and before all that the record still has:
the transition that it divides stays reported.
-/

namespace AdServer.Reach

open AdServer.Lib

/-- A day of an id. The callers update only what `collect_appearance` has collected;
`anyway` is set if the record is updated in any case. -/
structure Visit where
  id : Nat
  day : Nat
  anyway : Bool

section Runs

variable (bits : BitAlgs) (machine : Machine)

structure State where
  records : Records
  reports : List IdAppearance

def State.start : State := ⟨.empty, []⟩

/-- `collect_appearance` and then `update_appearance`. -/
def State.process (s : State) (visit : Visit) : State :=
  let (appeared, collected) :=
    collectAppearance bits machine s.records visit.id (dayTime visit.day)
  { records :=
      if appeared || visit.anyway then
        updateAppearance machine s.records visit.id (dayTime visit.day)
      else s.records
    reports := s.reports ++ collected }

def processAll (visits : List Visit) : State := visits.foldl (State.process bits machine) .start

def daysOf (visits : List Visit) (id : Nat) : List Nat :=
  (visits.filter fun visit => visit.id = id).map Visit.day

/-- The distinct days in their order. -/
def sortedDays (days : List Nat) : List Nat :=
  days.foldl (fun seen day => Neighbours.insertNew day seen) []

/-- The last day of a record and the days of its mask. -/
def Record.Represents (record : Record) (day : Nat) : Prop :=
  record.lastAppearanceDate = dayTime day ∨
    ∃ i < 63, record.prevAppearancesMask.getLsbD i = true ∧
      record.lastAppearanceDate - oneDay * ((i : Int) + 1) = dayTime day

/-- The reports on an id add up to its transitions, and the flag of its record tells whether
it has the first day. -/
structure AddsUp (s : State) (id : Nat) (seen : List Nat) : Prop where
  reports : ∀ dates, net s.reports id dates = transitions seen dates
  total : ∀ first, seen.head? = some first → ∃ record, s.records.find? id = some record ∧
    (record.prevAppearancesMask &&& totalAppearanceMask ≠ 0 ↔ record.Represents first)

/-- What holds of each visit and the days of its id before it. -/
def Along (holds : List Nat → Visit → Prop) : List Visit → List Visit → Prop
  | _, [] => True
  | before, visit :: rest =>
    holds (daysOf before visit.id) visit ∧ Along holds (before ++ [visit]) rest

def Visit.Recent (seen : List Nat) (visit : Visit) : Prop := ∀ other ∈ seen, other ≤ visit.day + 31

/-- The record can keep the day, and the last day is not put into the mask. -/
structure Visit.Kept (seen : List Nat) (visit : Visit) : Prop where
  kept : Reach.Kept seen visit.day
  again : visit.day ∈ seen → (∀ other ∈ seen, other ≤ visit.day) → visit.anyway = false

structure Holds (s : State) (id : Nat) (seen : List Nat) : Prop where
  known : Known s.records id seen
  reports : ∀ dates, net s.reports id dates = transitions seen dates

variable {bits machine} {s : State} {id : Nat} {seen : List Nat}

variable {day : Nat} {days : List Nat}

theorem Tracks.represents_iff {record : Record} {last : Nat} (tracks : Tracks seen record last)
    (member : day ∈ seen) : record.Represents day ↔ last ≤ day + 63 := by
  have le := tracks.greatest day member
  unfold Record.Represents
  rw [tracks.date]
  constructor
  · rintro (same | ⟨i, low, -, same⟩)
    · unfold dayTime oneDay at same
      omega
    · unfold dayTime oneDay at same
      omega
  · intro near
    by_cases own : day = last
    · exact .inl (by rw [own])
    · refine .inr ⟨last - day - 1, by omega, tracks.bit_of_day member (by omega) (by omega), ?_⟩
      unfold dayTime oneDay
      omega

theorem Holds.addsUp (h : Holds s id seen) : AddsUp s id seen := by
  refine ⟨h.reports, fun first head => ?_⟩
  rcases h.known.record with ⟨rfl, -⟩ | ⟨record, last, found, tracks⟩
  · cases head
  · refine ⟨record, found, ?_⟩
    obtain ⟨rest, rfl⟩ := List.head?_eq_some_iff.mp head
    have least := (List.pairwise_cons.mp h.known.sorted).1
    rw [total_ne_zero, tracks.total, tracks.represents_iff List.mem_cons_self]
    constructor
    · exact fun all => all first List.mem_cons_self
    · intro near other member
      rcases List.mem_cons.mp member with rfl | member
      · exact near
      · have := least other member
        omega

theorem Holds.process_other (h : Holds s id seen) {visit : Visit} (other : visit.id ≠ id) :
    Holds (s.process bits machine visit) id seen := by
  unfold State.process
  refine ⟨?_, fun dates => ?_⟩
  · dsimp only
    split_ifs
    · exact h.known.update_other other _
    · exact h.known
  · dsimp only
    rw [net_append, h.reports, net_other (fun report member => ?_), Int.add_zero]
    rw [id_of_mem_collectAppearance member]
    exact other

theorem Holds.process (h : Holds s id seen) {anyway : Bool}
    (recent : Visit.Recent seen ⟨id, day, anyway⟩) (kept : Visit.Kept seen ⟨id, day, anyway⟩) :
    Holds (s.process bits machine ⟨id, day, anyway⟩) id (Neighbours.insertNew day seen) := by
  obtain ⟨appeared, change⟩ := @Known.collect bits machine _ _ _ _ h.known recent kept.kept
  unfold State.process
  refine ⟨?_, fun dates => ?_⟩
  · dsimp only
    rw [appeared]
    split_ifs with updates
    · apply h.known.update recent kept.kept
      intro member
      by_contra last
      push Not at last
      have skipped : anyway = false := kept.again member last
      simp [member, skipped] at updates
    · have member : day ∈ seen := by
        by_contra new
        simp [new] at updates
      rw [Neighbours.insertNew_of_mem h.known.sorted member]
      exact h.known
  · dsimp only
    rw [net_append, h.reports, change]

theorem daysOf_append (front back : List Visit) (id : Nat) :
    daysOf (front ++ back) id = daysOf front id ++ daysOf back id := by
  unfold daysOf
  rw [List.filter_append, List.map_append]

theorem mem_sortedDays : day ∈ sortedDays days ↔ day ∈ days := by
  unfold sortedDays
  induction days using List.reverseRecOn with
  | nil => rfl
  | append_singleton front last ih =>
    rw [List.foldl_append, List.foldl_cons, List.foldl_nil, Neighbours.mem_insertNew, ih]
    simp [or_comm]

theorem sortedDays_append (days : List Nat) (day : Nat) :
    sortedDays (days ++ [day]) = Neighbours.insertNew day (sortedDays days) := by
  unfold sortedDays
  rw [List.foldl_append]
  rfl

/-- Only which days there are matters. -/
theorem Kept.congr (kept : Reach.Kept days day) (same : ∀ other, other ∈ seen ↔ other ∈ days) :
    Reach.Kept seen day := by
  obtain ⟨fits, near, reaches⟩ := kept
  simp only [← same] at near reaches
  exact ⟨fits, near, reaches⟩

theorem process_holds {before : List Visit} (s : State)
    (holds : ∀ id, Holds s id (sortedDays (daysOf before id))) {visit : Visit}
    (recent : visit.Recent (daysOf before visit.id)) (kept : visit.Kept (daysOf before visit.id))
    (id : Nat) : Holds (s.process bits machine visit) id (sortedDays (daysOf (before ++ [visit]) id)) := by
  rw [daysOf_append]
  by_cases own : visit.id = id
  · subst own
    have last : daysOf [visit] visit.id = [visit.day] := by simp [daysOf]
    rw [last, sortedDays_append]
    refine (holds visit.id).process (fun other member => recent other (mem_sortedDays.mp member))
      ⟨Kept.congr kept.kept fun other => mem_sortedDays, ?_⟩
    intro member greatest
    exact kept.again (mem_sortedDays.mp member) fun other h => greatest other (mem_sortedDays.mpr h)
  · have none : daysOf [visit] id = [] := by simp [daysOf, own]
    rw [none, List.append_nil]
    exact (holds id).process_other own

theorem foldl_process_holds {visits before : List Visit} {s : State}
    (holds : ∀ id, Holds s id (sortedDays (daysOf before id)))
    (recent : Along (fun seen visit => visit.Recent seen) before visits)
    (kept : Along (fun seen visit => visit.Kept seen) before visits) (id : Nat) :
    Holds (visits.foldl (State.process bits machine) s) id (sortedDays (daysOf (before ++ visits) id)) := by
  induction visits generalizing before s with
  | nil =>
    rw [List.append_nil]
    exact holds id
  | cons visit rest ih =>
    have next := fun id => @process_holds bits machine before s holds visit recent.1 kept.1 id
    have done := ih next recent.2 kept.2
    rwa [List.append_assoc] at done

theorem holds_start (id : Nat) : Holds .start id [] :=
  ⟨⟨.nil, .inl ⟨rfl, SortedMap.find?_empty id⟩⟩, fun _ => rfl⟩

end Runs

/-- For any ids and days, each at most 31 days before the newest one of its id. -/
theorem processAll_addsUp (bits : BitAlgs) (machine : Machine) (visits : List Visit)
    (recent : Along (fun seen visit => visit.Recent seen) [] visits)
    (kept : Along (fun seen visit => visit.Kept seen) [] visits) (id : Nat) :
    AddsUp (processAll bits machine visits) id (sortedDays (daysOf visits id)) :=
  (foldl_process_holds (fun id => holds_start id) recent kept id).addsUp

instance decidableRecent (seen : List Nat) (visit : Visit) : Decidable (visit.Recent seen) :=
  inferInstanceAs (Decidable (∀ other ∈ seen, other ≤ visit.day + 31))

instance decidableKept (seen : List Nat) (visit : Visit) : Decidable (visit.Kept seen) :=
  decidable_of_iff
    ((dayTime visit.day < 2 ^ 32 ∧
      ((∀ other ∈ seen, other < visit.day) →
        ∀ other ∈ seen, other + 64 ≠ visit.day ∧ ∃ newest ∈ seen, visit.day ≤ newest + 63) ∧
      (visit.day ∉ seen → (∃ other ∈ seen, visit.day < other) → (∃ other ∈ seen, other < visit.day) →
        ∃ other ∈ seen, other < visit.day ∧ ∀ newest ∈ seen, newest ≤ other + 63)) ∧
      (visit.day ∈ seen → (∀ other ∈ seen, other ≤ visit.day) → visit.anyway = false))
    ⟨fun h => ⟨⟨h.1.1, h.1.2.1, h.1.2.2⟩, h.2⟩,
      fun h => ⟨⟨h.kept.fits, h.kept.near, h.kept.reaches⟩, h.again⟩⟩

instance decidableAlong (holds : List Nat → Visit → Prop) [∀ seen visit, Decidable (holds seen visit)] :
    (before visits : List Visit) → Decidable (Along holds before visits)
  | _, [] => isTrue trivial
  | before, visit :: rest =>
    have := decidableAlong holds (before ++ [visit]) rest
    inferInstanceAs (Decidable (holds (daysOf before visit.id) visit ∧ Along holds (before ++ [visit]) rest))

/-- The searches of the positions by counting zeros. -/
def countZeros : BitAlgs where
  lowestBit mask := mask.ctz.toNat
  highestBit mask := if mask = 0 then 64 else 63 - mask.clz.toNat
  lowest_zero := by decide +kernel
  lowest_set mask some_bit := BitVec.getLsbD_true_ctz_of_ne_zero some_bit
  lowest_least mask i set := by
    by_contra below
    rw [BitVec.getLsbD_false_of_lt_ctz (by omega)] at set
    cases set
  highest_zero := if_pos rfl
  highest_set mask some_bit := by
    rw [if_neg some_bit]
    exact BitVec.getLsbD_true_clz_of_ne_zero (by omega) some_bit
  highest_greatest mask i set := by
    have some_bit : mask ≠ 0 := ne_zero_iff_getLsbD.mpr ⟨i, set⟩
    have small := BitVec.toNat_lt_two_pow_sub_clz (x := mask)
    have large : 2 ^ i ≤ mask.toNat := Nat.ge_two_pow_of_testBit set
    have exponents := (Nat.pow_lt_pow_iff_right (a := 2) (by omega)).mp (large.trans_lt small)
    rw [if_neg some_bit]
    omega

/-- Shifts by their count without its high bits. -/
def lowBits : Machine where
  undefinedShl mask count := mask <<< (count % 64).toNat
  undefinedShr mask count := mask >>> (count % 64).toNat

/-- Two ids; days between, before the first one, again, and after a loss. -/
def visited : List Visit :=
  [⟨1, 100, false⟩, ⟨1, 110, false⟩, ⟨2, 111, false⟩, ⟨1, 105, true⟩, ⟨1, 95, false⟩, ⟨1, 105, true⟩,
    ⟨1, 110, false⟩, ⟨1, 150, false⟩, ⟨2, 90, false⟩, ⟨1, 170, false⟩, ⟨1, 140, false⟩]

theorem visited_addsUp :
    AddsUp (processAll countZeros lowBits visited) 1 (sortedDays (daysOf visited 1)) :=
  processAll_addsUp countZeros lowBits visited (by decide +kernel) (by decide +kernel) 1

/-- A day 20 days before the last one, and the only day before it is lost. -/
def lostBefore : List Visit := [⟨1, 1, false⟩, ⟨1, 61, false⟩, ⟨1, 71, false⟩, ⟨1, 51, false⟩]

/-- The transition from the first day to day 61 stays reported. -/
theorem lostBefore_not_addsUp :
    ¬ ∀ visits : List Visit, Along (fun seen visit => visit.Recent seen) [] visits → ∀ id,
      AddsUp (processAll countZeros lowBits visits) id (sortedDays (daysOf visits id)) := by
  intro addsUp
  have sums := (addsUp lostBefore (by decide) 1).reports (dayTime 61, dayTime 30)
  revert sums
  decide +kernel

end AdServer.Reach
