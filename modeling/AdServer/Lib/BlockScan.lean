import Mathlib.Algebra.GroupWithZero.Nat
import Mathlib.Data.List.Basic
import Mathlib.Data.List.TakeWhile

/-!
# Searching a list block by block

A search for the first element of a kind that looks at a whole block at once, as
vector instructions do: every lane of the block is compared, and the lowest lane
that compares true gives the place. What is shorter than a block is left to
another search.
-/

namespace AdServer.Lib.BlockScan

variable {α : Type}

/-- One comparison for each lane. -/
abbrev Lanes := List Bool

/-- The lanes that hold `value`. -/
def cmpeq [DecidableEq α] (block : List α) (value : α) : Lanes :=
  block.map fun lane => decide (lane = value)

def orLanes : Lanes → Lanes → Lanes := List.zipWith (· || ·)

/-- The number of lanes below the lowest one that is set. -/
def countTrailing (mask : Lanes) : Nat := mask.idxOf true

theorem orLanes_map (block : List α) (p q : α → Bool) :
    orLanes (block.map p) (block.map q) = block.map fun lane => p lane || q lane := by
  simp [orLanes, List.zipWith_map]

/-- The first element of the kind in whole blocks of `width`; the rest is for
`narrow`. -/
def scanBlocks (width : Nat) [NeZero width] (mask : List α → Lanes)
    (narrow : List α → List α) (l : List α) : List α :=
  if width ≤ l.length then
    if true ∈ mask (l.take width) then l.drop (countTrailing (mask (l.take width)))
    else scanBlocks width mask narrow (l.drop width)
  else narrow l
termination_by l.length
decreasing_by
  have := Nat.pos_of_neZero width
  simp only [List.length_drop]
  omega

variable {width : Nat} [NeZero width] {mask : List α → Lanes} {narrow : List α → List α}
  {p : α → Bool}

theorem drop_countTrailing {l : List α} (found : true ∈ l.map p) :
    l.drop (countTrailing (l.map p)) = l.dropWhile (! p ·) := by
  induction l with
  | nil => simp at found
  | cons a l ih =>
    cases here : p a with
    | true => simp [countTrailing, here]
    | false =>
      have later : true ∈ l.map p := by simpa [here] using found
      have next : countTrailing ((a :: l).map p) = countTrailing (l.map p) + 1 := by
        simp [countTrailing, here]
      rw [next, List.drop_succ_cons, ih later]
      simp [here]

theorem countTrailing_lt {l : List α} (found : true ∈ l.map p) :
    countTrailing (l.map p) < l.length := by
  simpa [countTrailing] using List.idxOf_lt_length_of_mem found

theorem scanBlocks_eq (lanes : ∀ block, mask block = block.map p)
    (tail : ∀ l, narrow l = l.dropWhile (! p ·)) (l : List α) :
    scanBlocks width mask narrow l = l.dropWhile (! p ·) := by
  fun_induction scanBlocks width mask narrow l with
  | case1 l fits found =>
    rw [lanes] at found ⊢
    have inside := countTrailing_lt found
    have split := drop_countTrailing found
    have stops : ((l.take width).dropWhile (! p ·)).isEmpty = false := by
      obtain ⟨a, member, yes⟩ := List.mem_map.1 found
      simpa [List.dropWhile_eq_nil_iff] using ⟨a, member, yes⟩
    have whole := @List.dropWhile_append _ (! p ·) (l.take width) (l.drop width)
    rw [List.take_append_drop, stops, if_neg Bool.false_ne_true, ← split,
      ← List.drop_append_of_le_length inside.le, List.take_append_drop] at whole
    exact whole.symm
  | case2 l fits absent ih =>
    rw [lanes] at absent
    have skipped : ∀ a ∈ l.take width, (!p a) = true := by
      intro a member
      have : p a ≠ true := fun yes => absent (List.mem_map.2 ⟨a, member, yes⟩)
      simpa using this
    have whole := @List.dropWhile_append_of_pos _ (! p ·) _ (l.drop width) skipped
    rw [List.take_append_drop] at whole
    rw [ih, whole]
  | case3 l short => exact tail l

end AdServer.Lib.BlockScan
