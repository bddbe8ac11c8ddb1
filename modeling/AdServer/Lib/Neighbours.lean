import Mathlib.Data.List.Pairwise
import Mathlib.Order.Lattice

/-!
# Neighbours in a sorted list

The members of a sorted list, each with the one before it, and what a new member
changes in these pairs.
-/

namespace AdServer.Lib.Neighbours

variable {α : Type}

/-- Each member with the one before it. -/
def links : Option α → List α → List (Option α × α)
  | _, [] => []
  | before, a :: rest => (before, a) :: links (some a) rest

theorem links_append (before : Option α) (front back : List α) :
    links before (front ++ back) = links before front ++ links (front.getLast?.or before) back := by
  induction front generalizing before with
  | nil => rfl
  | cons a rest ih =>
    rw [List.cons_append, links, links, ih, List.cons_append, List.getLast?_cons]
    cases rest.getLast? <;> rfl

variable [LinearOrder α]

/-- In its place, unless it is there. -/
def insertNew (a : α) (l : List α) : List α :=
  l.filter (· < a) ++ a :: l.filter (a < ·)

variable {a next : α} {l : List α}

theorem mem_insertNew {a b : α} : b ∈ insertNew a l ↔ b = a ∨ b ∈ l := by
  simp only [insertNew, List.mem_append, List.mem_cons, List.mem_filter, decide_eq_true_eq]
  constructor
  · rintro (⟨member, -⟩ | rfl | ⟨member, -⟩)
    · exact .inr member
    · exact .inl rfl
    · exact .inr member
  · rintro (rfl | member)
    · exact .inr (.inl rfl)
    · rcases lt_trichotomy b a with lt | rfl | gt
      · exact .inl ⟨member, lt⟩
      · exact .inr (.inl rfl)
      · exact .inr (.inr ⟨member, gt⟩)

theorem sorted_insertNew (a : α) (sorted : l.Pairwise (· < ·)) :
    (insertNew a l).Pairwise (· < ·) := by
  refine List.pairwise_append.mpr ⟨sorted.filter _, List.pairwise_cons.mpr ⟨?_, sorted.filter _⟩, ?_⟩
  · intro b member
    exact of_decide_eq_true (List.mem_filter.mp member).2
  · intro b hb c hc
    have below : b < a := of_decide_eq_true (List.mem_filter.mp hb).2
    rcases List.mem_cons.mp hc with rfl | hc
    · exact below
    · exact below.trans (of_decide_eq_true (List.mem_filter.mp hc).2)

theorem sides (sorted : l.Pairwise (· < ·)) (a : α) : l = l.filter (· < a) ++ l.filter (a ≤ ·) := by
  induction l with
  | nil => rfl
  | cons b l ih =>
    obtain ⟨above, rest⟩ := List.pairwise_cons.mp sorted
    by_cases below : b < a
    · rw [List.filter_cons_of_pos (by simpa using below), List.filter_cons_of_neg (by simpa using below),
        List.cons_append, ← ih rest]
    · have later : ∀ c ∈ l, a ≤ c := fun c member => (not_lt.mp below).trans (above c member).le
      have none : l.filter (· < a) = [] := by
        rw [List.filter_eq_nil_iff]
        intro c member
        simpa using later c member
      have all : l.filter (a ≤ ·) = l := by
        rw [List.filter_eq_self]
        intro c member
        simpa using later c member
      rw [List.filter_cons_of_neg (by simpa using below), none,
        List.filter_cons_of_pos (by simpa using below), all, List.nil_append]

theorem filter_le_of_not_mem (new : a ∉ l) : l.filter (a ≤ ·) = l.filter (a < ·) := by
  apply List.filter_congr
  intro b member
  have differs : a ≠ b := fun same => new (same ▸ member)
  simp [le_iff_lt_or_eq, differs]

theorem insertNew_of_mem (sorted : l.Pairwise (· < ·)) (member : a ∈ l) : insertNew a l = l := by
  obtain ⟨front, back, rfl⟩ := List.append_of_mem member
  obtain ⟨-, others, across⟩ := List.pairwise_append.mp sorted
  have before : ∀ b ∈ front, b < a := fun b hb => across b hb a List.mem_cons_self
  have after : ∀ b ∈ back, a < b := (List.pairwise_cons.mp others).1
  have keep_front : front.filter (· < a) = front :=
    List.filter_eq_self.mpr fun b hb => by simpa using before b hb
  have keep_back : back.filter (a < ·) = back :=
    List.filter_eq_self.mpr fun b hb => by simpa using after b hb
  have no_back : back.filter (· < a) = [] :=
    List.filter_eq_nil_iff.mpr fun b hb => by simpa using (after b hb).le
  have no_front : front.filter (a < ·) = [] :=
    List.filter_eq_nil_iff.mpr fun b hb => by simpa using (before b hb).le
  simp [insertNew, keep_front, keep_back, no_back, no_front]

/-- The least member above a place. -/
structure IsNext (l : List α) (a next : α) : Prop where
  member : next ∈ l
  above : a < next
  least : ∀ b ∈ l, a < b → next ≤ b

theorem IsNext.filter (sorted : l.Pairwise (· < ·)) (is_next : IsNext l a next) :
    l.filter (a < ·) = next :: l.filter (next < ·) := by
  have split := sides sorted next
  have upper : l.filter (next ≤ ·) = next :: l.filter (next < ·) := by
    have kept := insertNew_of_mem sorted is_next.member
    rw [insertNew] at kept
    conv at kept => rhs; rw [split]
    exact (List.append_cancel_left kept).symm
  rw [← upper]
  apply List.filter_congr
  intro b member
  have := is_next.least b member
  by_cases above : a < b
  · simp [above, this above]
  · have : ¬ next ≤ b := fun le => above (is_next.above.trans_le le)
    simp [above, this]

/-- The greatest member below a place. -/
structure IsBefore (l : List α) (a before : α) : Prop where
  member : before ∈ l
  below : before < a
  greatest : ∀ b ∈ l, b < a → b ≤ before

theorem getLast?_eq_some (sorted : l.Pairwise (· < ·)) :
    l.getLast? = some a ↔ a ∈ l ∧ ∀ b ∈ l, b ≤ a := by
  constructor
  · intro last
    obtain ⟨front, rfl⟩ := List.getLast?_eq_some_iff.mp last
    refine ⟨by simp, fun b member => ?_⟩
    rcases List.mem_append.mp member with member | member
    · exact ((List.pairwise_append.mp sorted).2.2 b member a List.mem_cons_self).le
    · exact (List.mem_singleton.mp member).le
  · rintro ⟨member, greatest⟩
    cases last : l.getLast? with
    | none =>
      rw [List.getLast?_eq_none_iff.mp last] at member
      cases member
    | some b =>
      obtain ⟨front, rfl⟩ := List.getLast?_eq_some_iff.mp last
      rcases List.mem_append.mp member with inside | inside
      · have lt := (List.pairwise_append.mp sorted).2.2 a inside b List.mem_cons_self
        exact absurd (greatest b (by simp)) (not_le.mpr lt)
      · rw [List.mem_singleton.mp inside]

theorem links_insertNew_greatest (greatest : ∀ b ∈ l, b < a) :
    links none (insertNew a l) = links none l ++ [(l.getLast?, a)] := by
  have below : l.filter (· < a) = l :=
    List.filter_eq_self.mpr fun b member => by simpa using greatest b member
  have above : l.filter (a < ·) = [] :=
    List.filter_eq_nil_iff.mpr fun b member => by simpa using (greatest b member).le
  rw [insertNew, below, above, links_append, Option.or_none]
  rfl

theorem links_insertNew (sorted : l.Pairwise (· < ·)) (new : a ∉ l) (is_next : IsNext l a next) :
    ∃ front back,
      links none l = front ++ ((l.filter (· < a)).getLast?, next) :: back ∧
      links none (insertNew a l) =
        front ++ ((l.filter (· < a)).getLast?, a) :: (some a, next) :: back := by
  refine ⟨links none (l.filter (· < a)), links (some next) (l.filter (next < ·)), ?_, ?_⟩
  · conv_lhs => rw [sides sorted a, filter_le_of_not_mem new, is_next.filter sorted]
    rw [links_append, Option.or_none]
    rfl
  · rw [insertNew, is_next.filter sorted, links_append, Option.or_none]
    rfl

end AdServer.Lib.Neighbours
