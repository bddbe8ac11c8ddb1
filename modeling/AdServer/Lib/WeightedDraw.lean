import Mathlib.Algebra.Order.BigOperators.Group.List
import Mathlib.Algebra.Order.Ring.Int

/-!
# Weighted draws

A position in a list is found by running sums: the first element at which the
sum of the weights so far exceeds an offset.
-/

namespace AdServer.Lib

variable {α : Type} (weight : α → Int)

/-- The sum of all weights. -/
def totalWeight (xs : List α) : Int := (xs.map weight).sum

def drawFrom (offset : Int) : Int → List α → Option α
  | _, [] => none
  | sum, x :: rest =>
    if offset < sum + weight x then some x else drawFrom offset (sum + weight x) rest

/-- The first element whose running sum exceeds the offset. -/
def draw (offset : Int) (xs : List α) : Option α := drawFrom weight offset 0 xs

variable {weight} {offset sum : Int} {xs : List α}

@[simp] theorem totalWeight_nil : totalWeight weight [] = 0 := rfl

@[simp] theorem totalWeight_cons (x : α) (xs : List α) :
    totalWeight weight (x :: xs) = weight x + totalWeight weight xs := by
  simp [totalWeight]

section
variable (nonneg : ∀ x ∈ xs, 0 ≤ weight x)
include nonneg

theorem totalWeight_nonneg : 0 ≤ totalWeight weight xs := by
  apply List.sum_nonneg
  intro w hw
  obtain ⟨x, mem, rfl⟩ := List.mem_map.1 hw
  exact nonneg x mem

theorem totalWeight_eq_zero_iff : totalWeight weight xs = 0 ↔ ∀ x ∈ xs, weight x = 0 := by
  induction xs with
  | nil => simp
  | cons x rest ih =>
    have first := nonneg x List.mem_cons_self
    have others : ∀ y ∈ rest, 0 ≤ weight y := fun y mem => nonneg y (List.mem_cons_of_mem _ mem)
    have later := totalWeight_nonneg others
    rw [totalWeight_cons, List.forall_mem_cons, ← ih others]
    omega

theorem drawFrom_isSome_iff (before : sum ≤ offset) :
    (drawFrom weight offset sum xs).isSome ↔ offset < sum + totalWeight weight xs := by
  induction xs generalizing sum with
  | nil =>
    simp only [drawFrom, totalWeight_nil]
    simpa using before
  | cons x rest ih =>
    have others : ∀ y ∈ rest, 0 ≤ weight y := fun y mem => nonneg y (List.mem_cons_of_mem _ mem)
    have later := totalWeight_nonneg others
    rw [totalWeight_cons, drawFrom]
    by_cases here : offset < sum + weight x
    · simp only [here, if_true, Option.isSome_some, true_iff]
      omega
    · rw [if_neg here, ih others (by omega), add_assoc]

theorem draw_isSome_iff (offset_nonneg : 0 ≤ offset) :
    (draw weight offset xs).isSome ↔ offset < totalWeight weight xs := by
  have found := drawFrom_isSome_iff nonneg offset_nonneg
  rwa [zero_add] at found

end

theorem drawFrom_mem {x : α} (h : drawFrom weight offset sum xs = some x) : x ∈ xs := by
  induction xs generalizing sum with
  | nil => simp [drawFrom] at h
  | cons y rest ih =>
    rw [drawFrom] at h
    split at h
    · cases h
      exact List.mem_cons_self
    · exact List.mem_cons_of_mem _ (ih h)

theorem draw_mem {x : α} (h : draw weight offset xs = some x) : x ∈ xs := drawFrom_mem h

theorem drawFrom_map {β : Type} (f : β → α) (ys : List β) :
    drawFrom weight offset sum (ys.map f) =
      (drawFrom (fun y => weight (f y)) offset sum ys).map f := by
  induction ys generalizing sum with
  | nil => rfl
  | cons y rest ih =>
    rw [List.map_cons, drawFrom, drawFrom, ih]
    split <;> rfl

theorem draw_map {β : Type} (f : β → α) (ys : List β) :
    draw weight offset (ys.map f) = (draw (fun y => weight (f y)) offset ys).map f :=
  drawFrom_map f ys

theorem totalWeight_map {β : Type} (f : β → α) (ys : List β) :
    totalWeight weight (ys.map f) = totalWeight (fun y => weight (f y)) ys := by
  simp [totalWeight, Function.comp_def]

theorem totalWeight_const (c : Int) (xs : List α) :
    totalWeight (fun _ => c) xs = xs.length * c := by
  simp [totalWeight]

/-- A draw below the total finds one of the elements. -/
theorem exists_draw (nonneg : ∀ x ∈ xs, 0 ≤ weight x) (offset_nonneg : 0 ≤ offset)
    (below : offset < totalWeight weight xs) : ∃ x ∈ xs, draw weight offset xs = some x := by
  obtain ⟨x, found⟩ := Option.isSome_iff_exists.1 ((draw_isSome_iff nonneg offset_nonneg).2 below)
  exact ⟨x, draw_mem found, found⟩

end AdServer.Lib
