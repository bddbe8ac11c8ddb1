import Mathlib.Algebra.BigOperators.Group.Multiset.Basic
import Mathlib.Algebra.Order.BigOperators.Group.Multiset
import Mathlib.Algebra.Order.Ring.Int
import Mathlib.Data.Finset.Max
import Mathlib.Data.List.Sort
import Mathlib.Data.Multiset.OrderedMonoid
import Mathlib.Tactic.Ring

/-!
# The greatest elements of a list

What may be exchanged for greater elements has no greater sum, and the same sum only
when there is nothing to exchange. So no few elements of a list have a greater sum
than its greatest ones.
-/

namespace AdServer.Lib

variable {few kept : Multiset Int}

/-- The elements that only the first one has make up less than those that only the second has. -/
theorem sum_lt_of_exchange (nonneg : ∀ y ∈ kept, 0 ≤ y) (card : few.card ≤ kept.card)
    (least : ∀ x ∈ few, ∀ y ∈ kept, x < y) (some_few : few ≠ 0) : few.sum < kept.sum := by
  have some_kept : kept ≠ 0 := Multiset.card_pos.1 ((Multiset.card_pos.2 some_few).trans_le card)
  obtain ⟨m, inside', minimal⟩ := Multiset.exists_min_image id some_kept
  have below : few.sum ≤ few.card • (m - 1) :=
    Multiset.sum_le_card_nsmul few (m - 1) fun x inside => Int.le_sub_one_of_lt (least x inside m inside')
  have above : kept.card • m ≤ kept.sum := Multiset.card_nsmul_le_sum minimal
  have pos := Multiset.card_pos.2 some_few
  rw [nsmul_eq_mul] at below above
  have step : (few.card : Int) * m ≤ kept.card * m :=
    mul_le_mul_of_nonneg_right (by exact_mod_cast card) (nonneg m inside')
  have : (few.card : Int) * (m - 1) = few.card * m - few.card := by ring
  omega

theorem sum_le_of_exchange (nonneg : ∀ y ∈ kept, 0 ≤ y)
    (card : few - kept ≠ 0 → few.card ≤ kept.card) (least : ∀ x ∈ few - kept, ∀ y ∈ kept, x ≤ y) :
    few.sum ≤ kept.sum ∧ (few.sum = kept.sum → few ≤ kept) := by
  have few_sum : few.sum = (few - kept).sum + (few ∩ kept).sum := by
    rw [← Multiset.sum_add, Multiset.sub_add_inter]
  have kept_sum : kept.sum = (kept - few).sum + (few ∩ kept).sum := by
    rw [← Multiset.sum_add, Multiset.inter_comm, Multiset.sub_add_inter]
  have rest_nonneg : ∀ y ∈ kept - few, 0 ≤ y := fun y inside =>
    nonneg y (Multiset.mem_of_le tsub_le_self inside)
  by_cases none : few - kept = 0
  · have sum_nonneg := Multiset.sum_nonneg rest_nonneg
    refine ⟨by rw [few_sum, kept_sum, none, Multiset.sum_zero]; omega, fun _ => ?_⟩
    exact tsub_eq_zero_iff_le.1 none
  · have card_rest : (few - kept).card ≤ (kept - few).card := by
      have few_card := congrArg Multiset.card (Multiset.sub_add_inter few kept)
      have kept_card := congrArg Multiset.card (Multiset.sub_add_inter kept few)
      rw [Multiset.card_add] at few_card kept_card
      rw [Multiset.inter_comm] at kept_card
      have := card none
      omega
    have lt : (few - kept).sum < (kept - few).sum := by
      refine sum_lt_of_exchange rest_nonneg card_rest ?_ none
      intro x inside y inside'
      refine lt_of_le_of_ne (least x inside y (Multiset.mem_of_le tsub_le_self inside')) ?_
      rintro rfl
      rw [← Multiset.count_pos, Multiset.count_sub] at inside inside'
      omega
    exact ⟨by omega, fun same => by omega⟩

/-- No more than so many of the greatest elements, the greatest first. -/
def greatest (k : Nat) (l : List Int) : List Int := (l.mergeSort (fun a b => decide (b ≤ a))).take k

section Greatest

variable {k : Nat} {l : List Int}

theorem greatest_le_self : (greatest k l : Multiset Int) ≤ l :=
  (List.take_sublist _ _).subperm.trans (List.mergeSort_perm _ _).subperm

theorem length_greatest : (greatest k l).length = min k l.length := by
  rw [greatest, List.length_take, List.length_mergeSort]

theorem le_of_not_greatest {x y : Int} (out : x ∈ (l : Multiset Int) - greatest k l)
    (inside : y ∈ greatest k l) : x ≤ y := by
  have sorted : (l.mergeSort fun a b => decide (b ≤ a)).Pairwise fun a b => b ≤ a := by
    have := @List.pairwise_mergeSort Int (fun a b => decide (b ≤ a))
      (fun a b c => by simpa using fun h h' => le_trans h' h) (fun a b => by simpa using le_total b a) l
    simpa using this
  have split := List.take_append_drop k (l.mergeSort fun a b => decide (b ≤ a))
  have rest : (l : Multiset Int) - greatest k l =
      ((l.mergeSort fun a b => decide (b ≤ a)).drop k : List Int) := by
    rw [← Multiset.coe_eq_coe.2 (List.mergeSort_perm l fun a b => decide (b ≤ a))]
    nth_rewrite 1 [← split]
    rw [← Multiset.coe_add, greatest, add_tsub_cancel_left]
  rw [rest, Multiset.mem_coe] at out
  rw [← split, List.pairwise_append] at sorted
  exact sorted.2.2 y inside x out

theorem sum_le_greatest (nonneg : ∀ x ∈ l, 0 ≤ x) {few : Multiset Int} (le : few ≤ l)
    (card : few.card ≤ k) :
    few.sum ≤ (greatest k l).sum ∧ (few.sum = (greatest k l).sum → few ≤ greatest k l) := by
  rw [← Multiset.sum_coe]
  refine sum_le_of_exchange ?_ (fun _ => ?_) ?_
  · intro y inside
    exact nonneg y (Multiset.mem_of_le greatest_le_self inside)
  · rw [Multiset.coe_card, length_greatest, le_min_iff]
    exact ⟨card, Multiset.card_le_card le⟩
  · intro x out y inside
    exact le_of_not_greatest (Multiset.mem_of_le (tsub_le_tsub_right le _) out) inside

end Greatest

end AdServer.Lib
