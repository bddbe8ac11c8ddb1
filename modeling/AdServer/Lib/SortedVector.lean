import Mathlib.Data.Finset.Sort
import Mathlib.Data.List.TakeWhile

/-!
# Sorted vectors as sets

A set kept as a sorted vector: a member is looked for at its lower bound, and a
new one is inserted there.
-/

namespace AdServer.Lib.SortedVector

variable {α : Type} [LinearOrder α] {a : α} {l : List α}

/-- What comes before the first member that is not below, and the rest. -/
def lowerBound (a : α) (l : List α) : List α × List α :=
  l.span fun other => decide (other < a)

theorem lowerBound_eq (a : α) (l : List α) :
    lowerBound a l = (l.takeWhile fun other => decide (other < a),
      l.dropWhile fun other => decide (other < a)) :=
  List.span_eq_takeWhile_dropWhile ..

theorem lowerBound_append (a : α) (l : List α) :
    (lowerBound a l).1 ++ (lowerBound a l).2 = l := by
  rw [lowerBound_eq]
  exact List.takeWhile_append_dropWhile

theorem lt_of_mem_before {b : α} (h : b ∈ (lowerBound a l).1) : b < a := by
  rw [lowerBound_eq] at h
  simpa using List.mem_takeWhile_imp h

theorem le_of_head_after {b : α} (h : (lowerBound a l).2.head? = some b) : a ≤ b := by
  rw [lowerBound_eq] at h
  have stops := List.head?_dropWhile_not (fun other => decide (other < a)) l
  simp only [h] at stops
  simpa using stops

theorem le_of_mem_after {b : α} (sorted : l.Pairwise (· < ·)) (h : b ∈ (lowerBound a l).2) :
    a ≤ b := by
  have rest : (lowerBound a l).2.Pairwise (· < ·) := by
    rw [← lowerBound_append a l] at sorted
    exact (List.pairwise_append.1 sorted).2.1
  cases found : (lowerBound a l).2 with
  | nil => simp [found] at h
  | cons first after =>
    rw [found] at h rest
    have low : a ≤ first := le_of_head_after (l := l) (by rw [found]; rfl)
    rcases List.mem_cons.1 h with rfl | later
    · exact low
    · exact low.trans ((List.pairwise_cons.1 rest).1 b later).le

theorem head_lowerBound_iff (sorted : l.Pairwise (· < ·)) :
    (lowerBound a l).2.head? = some a ↔ a ∈ l := by
  constructor
  · intro h
    rw [← lowerBound_append a l]
    exact List.mem_append_right _ (List.mem_of_head? h)
  · intro h
    rw [← lowerBound_append a l] at h
    rcases List.mem_append.1 h with before | after
    · exact absurd (lt_of_mem_before before) (lt_irrefl a)
    · cases found : (lowerBound a l).2 with
      | nil => simp [found] at after
      | cons first rest =>
        have low : a ≤ first := le_of_head_after (l := l) (by rw [found]; rfl)
        have rest_sorted : (first :: rest).Pairwise (· < ·) := by
          rw [← lowerBound_append a l, found] at sorted
          exact (List.pairwise_append.1 sorted).2.1
        rw [found] at after
        rcases List.mem_cons.1 after with rfl | later
        · rfl
        · exact absurd ((List.pairwise_cons.1 rest_sorted).1 a later) (not_lt.2 low)

theorem perm_insert (a : α) (l : List α) :
    ((lowerBound a l).1 ++ a :: (lowerBound a l).2).Perm (a :: l) := by
  have := @List.perm_middle _ a (lowerBound a l).1 (lowerBound a l).2
  rwa [lowerBound_append] at this

theorem sorted_insert (sorted : l.Pairwise (· < ·)) (absent : a ∉ l) :
    ((lowerBound a l).1 ++ a :: (lowerBound a l).2).Pairwise (· < ·) := by
  have parts := sorted
  rw [← lowerBound_append a l] at parts
  obtain ⟨before, after, across⟩ := List.pairwise_append.1 parts
  refine List.pairwise_append.2 ⟨before, List.pairwise_cons.2 ⟨?_, after⟩, ?_⟩
  · intro b later
    have member : b ∈ l := by
      rw [← lowerBound_append a l]
      exact List.mem_append_right _ later
    have distinct : a ≠ b := by
      rintro rfl
      exact absent member
    exact lt_of_le_of_ne (le_of_mem_after sorted later) distinct
  · intro b earlier c later
    rcases List.mem_cons.1 later with rfl | later
    · exact lt_of_mem_before earlier
    · exact across b earlier c later

theorem sort_sorted (s : Finset α) : s.sort.Pairwise (· < ·) := s.sortedLT_sort.pairwise

theorem insert_lowerBound {s : Finset α} (absent : a ∉ s) :
    (lowerBound a s.sort).1 ++ a :: (lowerBound a s.sort).2 = (insert a s).sort := by
  have absent' : a ∉ s.sort := fun h => absent ((Finset.mem_sort _).1 h)
  refine (@List.Perm.eq_of_pairwise _ (· < ·) _ _ ?_
    (sorted_insert (sort_sorted s) absent') (sort_sorted _) ?_)
  · intro b c _ _ below above
    exact absurd (below.trans above) (lt_irrefl b)
  · refine (perm_insert a _).trans ?_
    rw [List.perm_ext_iff_of_nodup (List.nodup_cons.2 ⟨absent', s.sort_nodup _⟩)
      (Finset.sort_nodup _ _)]
    intro b
    simp

theorem lowerBound_of_all_lt (below : ∀ b ∈ l, b < a) : lowerBound a l = (l, []) := by
  have all : ∀ b ∈ l, decide (b < a) = true := fun b h => decide_eq_true (below b h)
  rw [lowerBound_eq, List.takeWhile_eq_self_iff.2 all, List.dropWhile_eq_nil_iff.2 all]

end AdServer.Lib.SortedVector
