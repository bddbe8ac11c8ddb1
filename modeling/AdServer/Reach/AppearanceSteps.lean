import AdServer.Reach.AppearanceReports

/-!
# A day of an id

What is collected for a day is the change of the transitions, and the record
tracks the days with the new one.
-/

namespace AdServer.Reach

open AdServer.Lib

/-- What a record can keep: the date fits it, a new last day is at most 63 days after the
one before and not 64 days after any, and a late day has a day before it in the record unless
it is the first. -/
structure Kept (seen : List Nat) (day : Nat) : Prop where
  fits : dayTime day < 2 ^ 32
  near : (∀ other ∈ seen, other < day) →
    ∀ other ∈ seen, other + 64 ≠ day ∧ ∃ newest ∈ seen, day ≤ newest + 63
  reaches : day ∉ seen → (∃ other ∈ seen, day < other) → (∃ other ∈ seen, other < day) →
    ∃ other ∈ seen, other < day ∧ ∀ newest ∈ seen, newest ≤ other + 63

/-- The days of an id that its record tracks. -/
structure Known (records : Records) (id : Nat) (seen : List Nat) : Prop where
  sorted : seen.Pairwise (· < ·)
  record : (seen = [] ∧ records.find? id = none) ∨
    ∃ record last, records.find? id = some record ∧ Tracks seen record last

variable {bits : BitAlgs} {machine : Machine} {records : Records} {id day : Nat} {seen : List Nat}

theorem find?_updateAppearance (records : Records) (id : Nat) (time : Int) (id' : Nat) :
    (updateAppearance machine records id time).find? id' =
      if id' = id then
        some (((records.find? id).map (updateRecord machine time)).getD (insertedRecord time))
      else records.find? id' := by
  unfold updateAppearance
  cases records.find? id with
  | none => exact SortedMap.find?_put ..
  | some record => exact SortedMap.find?_put ..

theorem id_of_mem_collectAppearance {time : Int} {report : IdAppearance}
    (member : report ∈ (collectAppearance bits machine records id time).2) : report.id = id := by
  unfold collectAppearance collectReappearance normalizedAppearance at member
  revert member
  cases records.find? id with
  | none => simp +contextual
  | some record =>
    dsimp only
    split_ifs <;> simp +contextual [or_imp]

theorem Known.exists_next {last : Nat} (last_member : last ∈ seen) (sorted : seen.Pairwise (· < ·))
    (earlier : day < last) : ∃ next, Neighbours.IsNext seen day next := by
  have some_above : seen.filter (day < ·) ≠ [] :=
    List.ne_nil_of_mem (List.mem_filter.mpr ⟨last_member, by simpa using earlier⟩)
  obtain ⟨next, rest, split⟩ := List.exists_cons_of_ne_nil some_above
  have inside : next ∈ seen.filter (day < ·) := by simp [split]
  obtain ⟨member, above⟩ := List.mem_filter.mp inside
  refine ⟨next, member, of_decide_eq_true above, fun other h lt => ?_⟩
  have listed : other ∈ seen.filter (day < ·) := List.mem_filter.mpr ⟨h, by simpa using lt⟩
  have order := sorted.filter (day < ·)
  rw [split] at listed order
  rcases List.mem_cons.mp listed with rfl | listed
  · exact le_rfl
  · exact ((List.pairwise_cons.mp order).1 other listed).le

section
variable (known : Known records id seen)
include known

theorem Known.collect (recent : ∀ other ∈ seen, other ≤ day + 31) (kept : Kept seen day) :
    ((collectAppearance bits machine records id (dayTime day)).1 = decide (day ∉ seen)) ∧
    ∀ dates, (transitions (Neighbours.insertNew day seen) dates : Int) = transitions seen dates +
      net (collectAppearance bits machine records id (dayTime day)).2 id dates := by
  rcases known.record with ⟨rfl, none⟩ | ⟨record, last, found, tracks⟩
  · rw [collectAppearance_new none]
    exact ⟨rfl, transitions_greatest (by simp) id⟩
  · have last_recent := recent last tracks.member
    by_cases member : day ∈ seen
    · rw [collectAppearance_seen found tracks member (by omega),
        Neighbours.insertNew_of_mem known.sorted member]
      exact ⟨by simp [member], fun dates => by simp [net]⟩
    · by_cases later : last < day
      · have below : ∀ other ∈ seen, other < day :=
          fun other h => (tracks.greatest other h).trans_lt later
        have before : seen.getLast? = some last :=
          (Neighbours.getLast?_eq_some known.sorted).mpr ⟨tracks.member, tracks.greatest⟩
        rw [collectAppearance_later found tracks later, ← before]
        exact ⟨by simp [member], transitions_greatest below id⟩
      · have differs : day ≠ last := fun same => member (same ▸ tracks.member)
        have earlier : day < last := by omega
        obtain ⟨next, is_next⟩ := Known.exists_next tracks.member known.sorted earlier
        rw [collectAppearance_earlier known.sorted found tracks member earlier (by omega) is_next]
        · exact ⟨by simp [member], transitions_take_apart known.sorted member is_next id⟩
        · intro some_before
          obtain ⟨other, h, lt, near⟩ :=
            kept.reaches member ⟨last, tracks.member, earlier⟩ some_before
          exact ⟨other, h, lt, near last tracks.member⟩

theorem Known.update (recent : ∀ other ∈ seen, other ≤ day + 31) (kept : Kept seen day)
    (not_last : day ∈ seen → ∃ other ∈ seen, day < other) :
    Known (updateAppearance machine records id (dayTime day)) id (Neighbours.insertNew day seen) := by
  refine ⟨Neighbours.sorted_insertNew day known.sorted, .inr ?_⟩
  rw [find?_updateAppearance, if_pos rfl]
  rcases known.record with ⟨rfl, none⟩ | ⟨record, last, found, tracks⟩
  · rw [none]
    exact ⟨_, day, rfl, tracks_inserted kept.fits⟩
  · rw [found]
    have last_recent := recent last tracks.member
    by_cases later : last < day
    · have below : ∀ other ∈ seen, other < day :=
        fun other h => (tracks.greatest other h).trans_lt later
      obtain ⟨-, newest, h, near⟩ := kept.near below last tracks.member
      have newest_le := tracks.greatest newest h
      exact ⟨_, day, rfl, tracks_later tracks later (by omega)
        (fun other member => (kept.near below other member).1) kept.fits⟩
    · have earlier : day < last := by
        by_cases member : day ∈ seen
        · obtain ⟨other, h, lt⟩ := not_last member
          have := tracks.greatest other h
          omega
        · have differs : day ≠ last := fun same => member (same ▸ tracks.member)
          omega
      exact ⟨_, last, rfl, tracks_earlier tracks earlier (by omega)⟩

theorem Known.update_other {id' : Nat} (other : id' ≠ id) (time : Int) :
    Known (updateAppearance machine records id' time) id seen := by
  refine ⟨known.sorted, ?_⟩
  rw [find?_updateAppearance, if_neg (Ne.symm other)]
  exact known.record

end

end AdServer.Reach
