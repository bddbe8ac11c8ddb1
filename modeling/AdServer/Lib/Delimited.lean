import Mathlib.Data.List.Basic

/-!
# Delimited text

Pieces written one after another with a separator between them, and read back
by splitting at the separators.
-/

namespace AdServer.Lib

variable {C : Type}

/-- A piece, with the separator before it unless it is the first. -/
def writePiece (sep : C) (out : List C × Bool) (piece : List C) : List C × Bool :=
  (if out.2 then out.1 ++ sep :: piece else out.1 ++ piece, true)

theorem writePieces_started (sep : C) (pieces : List (List C)) (text : List C) :
    pieces.foldl (writePiece sep) (text, true) = (text ++ pieces.flatMap (sep :: ·), true) := by
  induction pieces generalizing text with
  | nil => simp
  | cons piece rest ih => simp [writePiece, ih]

theorem intercalate_cons (sep : C) (piece : List C) (rest : List (List C)) :
    [sep].intercalate (piece :: rest) = piece ++ rest.flatMap (sep :: ·) := by
  induction rest generalizing piece with
  | nil => simp [List.intercalate_singleton]
  | cons next rest ih =>
    rw [List.intercalate_cons_cons, ih]
    simp

theorem writePieces_eq (sep : C) (pieces : List (List C)) :
    pieces.foldl (writePiece sep) ([], false) = ([sep].intercalate pieces, !pieces.isEmpty) := by
  cases pieces with
  | nil => rfl
  | cons piece rest =>
    rw [List.foldl_cons, intercalate_cons]
    simp [writePiece, writePieces_started]

variable {p : C → Bool} {sep : C} {pieces : List (List C)}

theorem splitOnP_intercalate (hsep : p sep = true) (some_piece : pieces ≠ []) :
    ([sep].intercalate pieces).splitOnP p = pieces.flatMap (List.splitOnP p) := by
  induction pieces with
  | nil => exact absurd rfl some_piece
  | cons piece rest ih =>
    cases rest with
    | nil => simp [List.intercalate_singleton]
    | cons next rest =>
      rw [List.intercalate_cons_cons, List.append_assoc, List.singleton_append,
        List.splitOnP_append_cons _ _ hsep, ih (by simp)]
      simp

theorem splitOnP_intercalate_clean (hsep : p sep = true) (some_piece : pieces ≠ [])
    (clean : ∀ piece ∈ pieces, ∀ c ∈ piece, p c = false) :
    ([sep].intercalate pieces).splitOnP p = pieces := by
  rw [splitOnP_intercalate hsep some_piece]
  clear some_piece
  induction pieces with
  | nil => rfl
  | cons piece rest ih =>
    rw [List.flatMap_cons, List.splitOnP_eq_singleton (clean piece (by simp)),
      ih fun q hq => clean q (by simp [hq])]
    rfl

/-- Lines that end with the separator, and a last one that does not. -/
theorem splitOnP_terminated (hsep : p sep = true) {lines : List (List C)} {last : List C}
    (clean : ∀ line ∈ lines, ∀ c ∈ line, p c = false) (clean_last : ∀ c ∈ last, p c = false) :
    (lines.flatMap (· ++ [sep]) ++ last).splitOnP p = lines ++ [last] := by
  induction lines with
  | nil => simp [List.splitOnP_eq_singleton clean_last]
  | cons line rest ih =>
    rw [List.flatMap_cons, List.append_assoc, List.append_assoc, List.singleton_append,
      List.splitOnP_append_cons_of_forall_mem (clean line (by simp)) _ hsep,
      ih fun next hnext => clean next (by simp [hnext])]
    rfl

theorem mem_intercalate {sep c : C} (h : c ∈ [sep].intercalate pieces) :
    c = sep ∨ ∃ piece ∈ pieces, c ∈ piece := by
  cases pieces with
  | nil => cases h
  | cons piece rest =>
    rw [intercalate_cons] at h
    simp only [List.mem_append, List.mem_flatMap, List.mem_cons] at h
    rcases h with h | ⟨next, hnext, h | h⟩
    · exact .inr ⟨piece, by simp, h⟩
    · exact .inl h
    · exact .inr ⟨next, by simp [hnext], h⟩

end AdServer.Lib
