import Mathlib.Data.List.DropRight
import Mathlib.Data.List.Infix
import Mathlib.Order.Lattice

/-!
# Lists in the order of a key

A list whose keys never fall, equal keys being allowed: where the walks from its
ends stop, and the two places at which a member can be inserted.
-/

namespace AdServer.Lib.KeyOrder

section Walks

variable {α : Type} {l : List α} {p : α → Bool}

theorem dropWhile_eq_filter (first : l.Pairwise fun a b => p b = true → p a = true) :
    l.dropWhile p = l.filter fun a => !p a := by
  induction l with
  | nil => rfl
  | cons a l ih =>
    rw [List.pairwise_cons] at first
    by_cases holds : p a = true
    · rw [List.dropWhile_cons_of_pos holds, ih first.2, List.filter_cons_of_neg (by simp [holds])]
    · rw [List.dropWhile_cons_of_neg holds, List.filter_eq_self.mpr]
      rintro b (_ | ⟨_, hb⟩)
      · simpa using holds
      · simp only [Bool.not_eq_true', Bool.not_eq_true] at holds ⊢
        by_contra later
        rw [Bool.not_eq_false] at later
        rw [first.1 b hb later] at holds
        cases holds

theorem takeWhile_eq_filter (first : l.Pairwise fun a b => p b = true → p a = true) :
    l.takeWhile p = l.filter p := by
  have split := @List.takeWhile_append_dropWhile _ p l
  conv_rhs => rw [← split]
  have front : (l.takeWhile p).filter p = l.takeWhile p := by
    apply List.filter_eq_self.mpr
    intro a ha
    exact List.mem_takeWhile_imp ha
  have back : (l.dropWhile p).filter p = [] := by
    rw [dropWhile_eq_filter first]
    simp [List.filter_filter]
  rw [List.filter_append, front, back, List.append_nil]

section
variable (p : α → Bool)

theorem take_length_takeWhile (l : List α) : l.take (l.takeWhile p).length = l.takeWhile p :=
  (List.prefix_iff_eq_take.mp (List.takeWhile_prefix p)).symm

theorem drop_length_takeWhile (l : List α) : l.drop (l.takeWhile p).length = l.dropWhile p := by
  induction l with
  | nil => rfl
  | cons a l ih => by_cases holds : p a = true <;> simp [holds, ih]

theorem rdropWhile_append_rtakeWhile (l : List α) : l.rdropWhile p ++ l.rtakeWhile p = l := by
  rw [List.rdropWhile, List.rtakeWhile, ← List.reverse_append,
    List.takeWhile_append_dropWhile, List.reverse_reverse]

theorem perm_insertLast (x : α) (l : List α) :
    (l.rdropWhile p ++ x :: l.rtakeWhile p).Perm (x :: l) := by
  apply List.perm_middle.trans
  rw [rdropWhile_append_rtakeWhile]

theorem perm_insertFirst (x : α) (l : List α) :
    (l.takeWhile p ++ x :: l.dropWhile p).Perm (x :: l) := by
  apply List.perm_middle.trans
  rw [List.takeWhile_append_dropWhile]

end

theorem pairwise_insert {r : α → α → Prop} {front back : List α} {x : α}
    (sorted : (front ++ back).Pairwise r) (before : ∀ a ∈ front, r a x)
    (after : ∀ a ∈ back, r x a) : (front ++ x :: back).Pairwise r := by
  rw [List.pairwise_append] at sorted ⊢
  rw [List.pairwise_cons]
  refine ⟨sorted.1, ⟨after, sorted.2.1⟩, ?_⟩
  rintro a ha b (_ | ⟨_, hb⟩)
  · exact before a ha
  · exact sorted.2.2 a ha b hb

end Walks

variable {α κ : Type} [LinearOrder κ] {key : α → κ} {l : List α} {k : κ} {x : α}

section
variable (sorted : l.Pairwise fun a b => key a ≤ key b)
include sorted

theorem first_lt : l.Pairwise fun a b => decide (key b < k) = true → decide (key a < k) = true := by
  apply sorted.imp
  intro a b hab
  simpa using hab.trans_lt

theorem dropWhile_lt_eq_filter :
    (l.dropWhile fun a => decide (key a < k)) = l.filter fun a => decide (k ≤ key a) := by
  rw [dropWhile_eq_filter (first_lt sorted)]
  apply List.filter_congr
  intro a _
  rw [← decide_not]
  exact decide_eq_decide.mpr not_lt

theorem first_eq :
    (l.dropWhile fun a => decide (key a < k)).Pairwise fun a b =>
      decide (key b = k) = true → decide (key a = k) = true := by
  rw [dropWhile_lt_eq_filter sorted]
  apply (sorted.filter _).imp_of_mem
  intro a b ha _ hab
  have notBelow := of_decide_eq_true (List.mem_filter.mp ha).2
  simp only [decide_eq_true_eq]
  rintro rfl
  exact hab.antisymm notBelow

/-- The members whose key is the bound, from the first one that is not below it. -/
theorem group_eq_filter :
    ((l.dropWhile fun a => decide (key a < k)).takeWhile fun a => decide (key a = k)) =
      l.filter fun a => decide (key a = k) := by
  rw [takeWhile_eq_filter (first_eq sorted), dropWhile_lt_eq_filter sorted, List.filter_filter]
  apply List.filter_congr
  intro a _
  rw [← Bool.decide_and]
  exact decide_eq_decide.mpr (and_iff_left_of_imp fun same => same.ge)

theorem ne_of_mem_dropWhile
    (h : x ∈ (l.dropWhile fun a => decide (key a < k)).dropWhile fun a => decide (key a = k)) :
    key x ≠ k := by
  rw [dropWhile_eq_filter (first_eq sorted)] at h
  simpa using (List.mem_filter.mp h).2

theorem le_of_mem_dropWhile (h : x ∈ l.dropWhile fun a => decide (key a < k)) : k ≤ key x := by
  rw [dropWhile_lt_eq_filter sorted] at h
  simpa using (List.mem_filter.mp h).2

end

theorem lt_of_mem_takeWhile (h : x ∈ l.takeWhile fun a => decide (key a < k)) : key x < k := by
  simpa using List.mem_takeWhile_imp h

theorem lt_of_mem_rtakeWhile (h : x ∈ l.rtakeWhile fun a => decide (k < key a)) :
    k < key x := by
  simpa using List.mem_rtakeWhile_imp h

section
variable (sorted : l.Pairwise fun a b => key a ≤ key b)
include sorted

theorem not_of_mem_rdropWhile {p : α → Bool} (upward : ∀ a b, key a ≤ key b → p a → p b)
    (h : x ∈ l.rdropWhile p) : ¬ p x := by
  induction l using List.reverseRecOn with
  | nil => simp at h
  | append_singleton l a ih =>
    rw [List.pairwise_append] at sorted
    by_cases above : p a
    · rw [List.rdropWhile_concat_pos _ _ _ above] at h
      exact ih sorted.1 h
    · rw [List.rdropWhile_concat_neg _ _ _ above] at h
      rcases List.mem_append.mp h with h | h
      · exact fun holds =>
          above (upward x a (sorted.2.2 x h a (List.mem_singleton.mpr rfl)) holds)
      · rwa [List.mem_singleton.mp h]

theorem le_of_mem_rdropWhile (h : x ∈ l.rdropWhile fun a => decide (k < key a)) : key x ≤ k := by
  have below := not_of_mem_rdropWhile sorted
    (fun a b le above => decide_eq_true ((of_decide_eq_true above).trans_le le)) h
  simpa using below

theorem lt_of_mem_rdropWhile (h : x ∈ l.rdropWhile fun a => decide (k ≤ key a)) : key x < k := by
  have below := not_of_mem_rdropWhile sorted
    (fun a b le above => decide_eq_true ((of_decide_eq_true above).trans le)) h
  simpa using below

theorem pairwise_insertFirst (hk : key x = k) :
    ((l.takeWhile fun a => decide (key a < k)) ++ x ::
      l.dropWhile fun a => decide (key a < k)).Pairwise fun a b => key a ≤ key b := by
  apply pairwise_insert
  · rw [List.takeWhile_append_dropWhile]
    exact sorted
  · intro a ha
    rw [hk]
    exact (lt_of_mem_takeWhile ha).le
  · intro a ha
    rw [hk]
    exact le_of_mem_dropWhile sorted ha

theorem pairwise_insertLast (hk : key x = k) :
    ((l.rdropWhile fun a => decide (k < key a)) ++ x ::
      l.rtakeWhile fun a => decide (k < key a)).Pairwise fun a b => key a ≤ key b := by
  apply pairwise_insert
  · rw [rdropWhile_append_rtakeWhile]
    exact sorted
  · intro a ha
    rw [hk]
    exact le_of_mem_rdropWhile sorted ha
  · intro a ha
    rw [hk]
    exact (lt_of_mem_rtakeWhile ha).le

end

end AdServer.Lib.KeyOrder
