import Mathlib.Data.List.DropRight
import Mathlib.Tactic.Ring

/-!
# Nesting depth along a list

Each element opens, closes or leaves the depth as it is, by a weight.
-/

namespace AdServer.Lib

variable {α : Type} {weight : α → Int}

def depth (weight : α → Int) (xs : List α) : Int := (xs.map weight).sum

@[simp]
theorem depth_nil : depth weight [] = 0 := rfl

@[simp]
theorem depth_cons (x : α) (xs : List α) :
    depth weight (x :: xs) = weight x + depth weight xs := by
  simp [depth]

@[simp]
theorem depth_append (xs ys : List α) :
    depth weight (xs ++ ys) = depth weight xs + depth weight ys := by
  simp [depth]

theorem depth_flat {xs : List α} (flat : ∀ x ∈ xs, weight x = 0) : depth weight xs = 0 := by
  induction xs with
  | nil => rfl
  | cons x xs ih =>
    rw [depth_cons, flat x List.mem_cons_self, ih fun y mem => flat y (List.mem_cons_of_mem x mem)]
    rfl

/-- `P` holds of every element and the depth before it, from `n` on. -/
def Along (weight : α → Int) (P : Int → α → Prop) : Int → List α → Prop
  | _, [] => True
  | n, x :: xs => P n x ∧ Along weight P (n + weight x) xs

section

variable {P Q : Int → α → Prop} {n : Int} {xs ys : List α}

@[simp]
theorem along_nil : Along weight P n [] := trivial

@[simp]
theorem along_cons {x : α} :
    Along weight P n (x :: xs) ↔ P n x ∧ Along weight P (n + weight x) xs := Iff.rfl

@[simp]
theorem along_append :
    Along weight P n (xs ++ ys) ↔
      Along weight P n xs ∧ Along weight P (n + depth weight xs) ys := by
  induction xs generalizing n with
  | nil => simp
  | cons x xs ih => simp [ih, and_assoc, add_assoc]

theorem Along.imp (h : Along weight P n xs) (imp : ∀ d, ∀ x ∈ xs, P d x → Q d x) :
    Along weight Q n xs := by
  induction xs generalizing n with
  | nil => trivial
  | cons x xs ih =>
    constructor
    · exact imp n x List.mem_cons_self h.1
    · exact ih h.2 fun d y mem => imp d y (List.mem_cons_of_mem x mem)

theorem Along.and (left : Along weight P n xs) (right : Along weight Q n xs) :
    Along weight (fun d x => P d x ∧ Q d x) n xs := by
  induction xs generalizing n with
  | nil => trivial
  | cons x xs ih => exact ⟨⟨left.1, right.1⟩, ih left.2 right.2⟩

theorem along_of_forall (h : ∀ d, ∀ x ∈ xs, P d x) : Along weight P n xs := by
  induction xs generalizing n with
  | nil => trivial
  | cons x xs ih =>
    exact ⟨h n x List.mem_cons_self, ih fun d y mem => h d y (List.mem_cons_of_mem x mem)⟩

/-- The depth is counted from anywhere. -/
theorem along_shift {k : Int} :
    Along weight P (n + k) xs ↔ Along weight (fun d x => P (d + k) x) n xs := by
  induction xs generalizing n with
  | nil => simp
  | cons x xs ih => simp [← ih, add_right_comm]

theorem along_flat (flat : ∀ x ∈ xs, weight x = 0) :
    Along weight P n xs ↔ ∀ x ∈ xs, P n x := by
  induction xs with
  | nil => simp
  | cons x xs ih =>
    rw [along_cons, flat x List.mem_cons_self, add_zero,
      ih fun y mem => flat y (List.mem_cons_of_mem x mem), List.forall_mem_cons]

end

section

variable [DecidableEq α] {mark : α}

/-- What is left after as many marks as counted down to zero; none where the list ends
before. -/
def skip (mark : α) : List α → Int → Option (List α)
  | [], _ => none
  | x :: xs, count =>
    if x = mark then if count - 1 = 0 then some xs else skip mark xs (count - 1)
    else skip mark xs count

theorem skip_nonpos {xs : List α} {count : Int} (nonpos : count ≤ 0) :
    skip mark xs count = none := by
  induction xs generalizing count with
  | nil => rfl
  | cons x xs ih =>
    have left : ¬ count - 1 = 0 := by omega
    rw [skip, if_neg left, ih (by omega), ih nonpos, ite_self]

theorem skip_append {xs : List α} (ys : List α) {count : Int} (pos : 0 < count)
    (marks : count ≤ xs.count mark) :
    ∃ left, left <:+ xs ∧ (left.count mark : Int) = xs.count mark - count ∧
      skip mark (xs ++ ys) count = some (left ++ ys) := by
  induction xs generalizing count with
  | nil => rw [List.count_nil] at marks; omega
  | cons x xs ih =>
    rw [List.cons_append, skip]
    by_cases hit : x = mark
    · subst hit
      rw [List.count_cons_self] at marks ⊢
      by_cases last : count - 1 = 0
      · exact ⟨xs, List.suffix_cons x xs, by omega, by simp [last]⟩
      · obtain ⟨left, suffix, counted, eq⟩ := ih (by omega : 0 < count - 1) (by omega)
        exact ⟨left, suffix.trans (List.suffix_cons x xs), by omega, by simp [last, eq]⟩
    · rw [List.count_cons_of_ne hit] at marks ⊢
      obtain ⟨left, suffix, counted, eq⟩ := ih pos marks
      exact ⟨left, suffix.trans (List.suffix_cons x xs), counted, by simp [hit, eq]⟩

end

end AdServer.Lib
