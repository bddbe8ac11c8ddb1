import AdServer.Lib.SortedMap

/-!
# Walking a sorted map

An iterator that walks a map upwards, beside others that walk other maps, and
the keys that have been visited so far, all of them smaller than where it is.
-/

namespace AdServer.Lib

variable {K V W : Type} [LinearOrder K]

/-- The iterator is at the first key of the map that is not visited, or at the
end when all are. -/
def Cursor (m : SortedMap K V) (visited : List K) : Option K → Prop
  | some k => k ∈ m.keys ∧ (∀ v ∈ visited, v < k) ∧ ∀ j ∈ m.keys, j < k → j ∈ visited
  | none => ∀ j ∈ m.keys, j ∈ visited

namespace Cursor

variable {m : SortedMap K V} {visited : List K} {k : K}

theorem first (m : SortedMap K V) : Cursor m [] m.first? := by
  cases h : m.first? with
  | none =>
    intro j hj
    exact absurd hj (SortedMap.first?_eq_none.1 h j)
  | some k =>
    obtain ⟨hk, least⟩ := SortedMap.first?_eq_some.1 h
    exact ⟨hk, by simp, fun j hj lt => absurd (least j hj) lt.not_ge⟩

theorem advance (h : Cursor m visited (some k)) : Cursor m (visited ++ [k]) (m.upperBound k) := by
  obtain ⟨hk, below, all⟩ := h
  cases next : m.upperBound k with
  | none =>
    intro j hj
    rcases (SortedMap.upperBound_eq_none.1 next j hj).lt_or_eq with lt | rfl
    · exact List.mem_append_left _ (all j hj lt)
    · simp
  | some k' =>
    obtain ⟨hk', lt, least⟩ := SortedMap.upperBound_eq_some.1 next
    refine ⟨hk', fun v hv => ?_, fun j hj hjk => ?_⟩
    · rcases List.mem_append.1 hv with hv | hv
      · exact (below v hv).trans lt
      · exact List.mem_singleton.1 hv ▸ lt
    · rcases lt_trichotomy j k with hlt | rfl | hgt
      · exact List.mem_append_left _ (all j hj hlt)
      · simp
      · exact absurd (least j hj hgt) hjk.not_ge

theorem skip {it : Option K} (h : Cursor m visited it) {j : K} (before : ∀ c, it = some c → j < c) :
    Cursor m (visited ++ [j]) it := by
  cases it with
  | none =>
    intro i hi
    exact List.mem_append_left _ (h i hi)
  | some c =>
    obtain ⟨hc, below, all⟩ := h
    refine ⟨hc, fun v hv => ?_, fun i hi lt => List.mem_append_left _ (all i hi lt)⟩
    rcases List.mem_append.1 hv with hv | hv
    · exact below v hv
    · exact List.mem_singleton.1 hv ▸ before c rfl

theorem not_visited (h : Cursor m visited (some k)) : k ∉ visited :=
  fun hv => lt_irrefl k (h.2.1 k hv)

theorem not_mem {it : Option K} (h : Cursor m visited it) {j : K} (new : j ∉ visited)
    (before : ∀ c, it = some c → j < c) : j ∉ m.keys := by
  intro hj
  cases it with
  | none => exact new (h j hj)
  | some c => exact new (h.2.2 j hj (before c rfl))

/-- From a key above all that is visited, and not above the iterator, the next
key of the map is where the iterator is. -/
theorem upperBound_eq {it : Option K} (h : Cursor m visited it) {j : K}
    (above : ∀ v ∈ visited, v < j) (before : ∀ c, it = some c → j < c) : m.upperBound j = it := by
  cases it with
  | none => exact SortedMap.upperBound_eq_none.2 fun i hi => (above i (h i hi)).le
  | some c =>
    obtain ⟨hc, -, all⟩ := h
    refine SortedMap.upperBound_eq_some.2 ⟨hc, before c rfl, fun i hi lt => ?_⟩
    by_contra hlt
    exact absurd (above i (all i hi (not_le.1 hlt))) lt.not_gt

theorem upperBound_congr {n : SortedMap K W} (h : Cursor m visited (some k))
    (same : ∀ j, j ∉ visited → (j ∈ n.keys ↔ j ∈ m.keys)) : n.upperBound k = m.upperBound k := by
  have later {j : K} (lt : k < j) : j ∈ n.keys ↔ j ∈ m.keys :=
    same j fun hv => absurd (h.2.1 j hv) lt.not_gt
  cases next : m.upperBound k with
  | none =>
    refine SortedMap.upperBound_eq_none.2 fun j hj => ?_
    by_contra lt
    exact lt (SortedMap.upperBound_eq_none.1 next j ((later (not_le.1 lt)).1 hj))
  | some k' =>
    obtain ⟨hk', lt, least⟩ := SortedMap.upperBound_eq_some.1 next
    exact SortedMap.upperBound_eq_some.2
      ⟨(later lt).2 hk', lt, fun j hj hlt => least j ((later hlt).1 hj) hlt⟩

end Cursor

end AdServer.Lib
