import Mathlib.Order.Lattice
import Mathlib.Data.List.Induction

/-!
# Keeping the greatest

One pass over a list that keeps every element of the greatest weight met so far,
with a start value that all of them have to reach.
-/

namespace AdServer.Lib

variable {α β : Type} [LinearOrder β] (weight : α → β)

def keepMax (kept : β × List α) (x : α) : β × List α :=
  if kept.1 < weight x then (weight x, [x])
  else if weight x = kept.1 then (kept.1, kept.2 ++ [x])
  else kept

/-- The greatest weight, of the start value or an element, and the elements that
have it. -/
def maximaFrom (start : β) (xs : List α) : β × List α := xs.foldl (keepMax weight) (start, [])

variable {weight} {start : β} {xs : List α}

theorem maximaFrom_append (x : α) :
    maximaFrom weight start (xs ++ [x]) = keepMax weight (maximaFrom weight start xs) x := by
  simp [maximaFrom]

theorem le_keepMax (kept : β × List α) (x : α) :
    kept.1 ≤ (keepMax weight kept x).1 ∧ weight x ≤ (keepMax weight kept x).1 := by
  unfold keepMax
  split
  · next more => exact ⟨more.le, le_rfl⟩
  · next less =>
    split
    · next same => exact ⟨le_rfl, same.le⟩
    · exact ⟨le_rfl, not_lt.1 less⟩

theorem start_le_maximaFrom : start ≤ (maximaFrom weight start xs).1 := by
  induction xs using List.reverseRecOn with
  | nil => exact le_rfl
  | append_singleton xs x ih =>
    rw [maximaFrom_append]
    exact ih.trans (le_keepMax _ x).1

theorem weight_le_maximaFrom : ∀ x ∈ xs, weight x ≤ (maximaFrom weight start xs).1 := by
  induction xs using List.reverseRecOn with
  | nil => simp
  | append_singleton xs x ih =>
    intro y mem
    rw [maximaFrom_append]
    cases List.mem_append.1 mem with
    | inl before => exact (ih y before).trans (le_keepMax _ x).1
    | inr last =>
      cases List.mem_singleton.1 last
      exact (le_keepMax _ x).2

theorem mem_maximaFrom {y : α} (h : y ∈ (maximaFrom weight start xs).2) :
    y ∈ xs ∧ weight y = (maximaFrom weight start xs).1 := by
  induction xs using List.reverseRecOn with
  | nil => simp [maximaFrom] at h
  | append_singleton xs x ih =>
    rw [maximaFrom_append] at h ⊢
    unfold keepMax at h ⊢
    split at h
    · next more =>
      rw [if_pos more]
      cases List.mem_singleton.1 h
      exact ⟨by simp, rfl⟩
    · next less =>
      rw [if_neg less]
      split at h
      · next same =>
        rw [if_pos same]
        cases List.mem_append.1 h with
        | inl before =>
          obtain ⟨mem, eq⟩ := ih before
          exact ⟨List.mem_append_left _ mem, eq⟩
        | inr last =>
          cases List.mem_singleton.1 last
          exact ⟨by simp, same⟩
      · next other =>
        rw [if_neg other]
        obtain ⟨mem, eq⟩ := ih h
        exact ⟨List.mem_append_left _ mem, eq⟩

theorem mem_maximaFrom_iff {y : α} :
    y ∈ (maximaFrom weight start xs).2 ↔ y ∈ xs ∧ weight y = (maximaFrom weight start xs).1 := by
  refine ⟨mem_maximaFrom, ?_⟩
  induction xs using List.reverseRecOn with
  | nil => simp
  | append_singleton xs x ih =>
    rintro ⟨mem, eq⟩
    rw [maximaFrom_append] at eq ⊢
    unfold keepMax at eq ⊢
    split at eq
    · next more =>
      rw [if_pos more]
      cases List.mem_append.1 mem with
      | inl before => exact absurd (weight_le_maximaFrom y before) (not_le.2 (more.trans_eq eq.symm))
      | inr last => exact last
    · next less =>
      rw [if_neg less]
      cases List.mem_append.1 mem with
      | inl before =>
        split at eq
        · next same => exact if_pos same ▸ List.mem_append_left _ (ih ⟨before, eq⟩)
        · next other => exact if_neg other ▸ ih ⟨before, eq⟩
      | inr last =>
        cases List.mem_singleton.1 last
        have same : weight y = (maximaFrom weight start xs).1 := by
          split at eq <;> exact eq
        rw [if_pos same]
        simp

theorem maximaFrom_of_nil (h : (maximaFrom weight start xs).2 = []) :
    (maximaFrom weight start xs).1 = start ∧ ∀ x ∈ xs, weight x < start := by
  induction xs using List.reverseRecOn with
  | nil => simp [maximaFrom]
  | append_singleton xs x ih =>
    rw [maximaFrom_append] at h ⊢
    unfold keepMax at h ⊢
    split at h
    · simp at h
    · next less =>
      rw [if_neg less]
      split at h
      · simp at h
      · next other =>
        rw [if_neg other]
        obtain ⟨same, below⟩ := ih h
        refine ⟨same, fun y mem => ?_⟩
        cases List.mem_append.1 mem with
        | inl before => exact below y before
        | inr last =>
          cases List.mem_singleton.1 last
          rw [same] at less other
          exact lt_of_le_of_ne (not_lt.1 less) other

theorem maximaFrom_ne_nil_iff :
    (maximaFrom weight start xs).2 ≠ [] ↔ ∃ x ∈ xs, start ≤ weight x := by
  constructor
  · intro some
    obtain ⟨y, kept⟩ := List.exists_mem_of_ne_nil _ some
    obtain ⟨mem, eq⟩ := mem_maximaFrom kept
    exact ⟨y, mem, eq ▸ start_le_maximaFrom⟩
  · rintro ⟨x, mem, reached⟩ none
    exact absurd ((maximaFrom_of_nil none).2 x mem) (not_lt.2 reached)

section Tied

variable {γ : Type} [DecidableEq γ] (weight : α → β) (tie : α → γ)

/-- Another key starts over, also one that is less. -/
def keepTied (kept : (β × γ) × List α) (x : α) : (β × γ) × List α :=
  if kept.1.1 ≤ weight x then
    if weight x = kept.1.1 ∧ tie x = kept.1.2 then (kept.1, kept.2 ++ [x])
    else ((weight x, tie x), [x])
  else kept

def tiedFrom (start : β × γ) (xs : List α) : (β × γ) × List α :=
  xs.foldl (keepTied weight tie) (start, [])

/-- Nothing after it reaches it. -/
def LastGreatest (xs : List α) (last : α) : Prop :=
  ∃ before after, xs = before ++ last :: after ∧ (∀ x ∈ before, weight x ≤ weight last) ∧
    ∀ x ∈ after, weight x < weight last

variable {weight tie} {start : β × γ} {last other x : α}

namespace LastGreatest

section
variable (h : LastGreatest weight xs last)
include h

theorem mem : last ∈ xs := by
  obtain ⟨before, after, rfl, -, -⟩ := h
  simp

theorem weight_le : ∀ x ∈ xs, weight x ≤ weight last := by
  obtain ⟨before, after, rfl, le, lt⟩ := h
  intro x mem
  cases List.mem_append.1 mem with
  | inl here => exact le x here
  | inr here =>
    cases List.mem_cons.1 here with
    | inl same => exact same ▸ le_rfl
    | inr here => exact (lt x here).le

theorem eq (h' : LastGreatest weight xs other) : last = other := by
  obtain ⟨before, after, rfl, le, lt⟩ := id h
  obtain ⟨before', after', same, le', lt'⟩ := id h'
  obtain ⟨between, rfl, tail⟩ | ⟨between, rfl, tail⟩ := List.append_eq_append_iff.1 same
  · cases between with
    | nil => exact (List.cons.inj tail).1
    | cons y between =>
      obtain ⟨rfl, rfl⟩ := List.cons.inj tail
      exact absurd (lt other (by simp)) (not_lt.2 (le' last (by simp)))
  · cases between with
    | nil => exact (List.cons.inj tail).1.symm
    | cons y between =>
      obtain ⟨rfl, rfl⟩ := List.cons.inj tail
      exact absurd (lt' last (by simp)) (not_lt.2 (le other (by simp)))

end

theorem append_singleton (h : ∀ y ∈ xs, weight y ≤ weight x) :
    LastGreatest weight (xs ++ [x]) x :=
  ⟨xs, [], rfl, h, by simp⟩

theorem append_less (h : LastGreatest weight xs last) (less : weight x < weight last) :
    LastGreatest weight (xs ++ [x]) last := by
  obtain ⟨before, after, rfl, le, lt⟩ := h
  refine ⟨before, after ++ [x], by simp, le, ?_⟩
  intro y mem
  cases List.mem_append.1 mem with
  | inl here => exact lt y here
  | inr here => exact List.mem_singleton.1 here ▸ less

end LastGreatest

theorem tiedFrom_append (x : α) :
    tiedFrom weight tie start (xs ++ [x]) = keepTied weight tie (tiedFrom weight tie start xs) x := by
  simp [tiedFrom]

theorem mem_tiedFrom {y : α} (h : y ∈ (tiedFrom weight tie start xs).2) :
    y ∈ xs ∧ (weight y, tie y) = (tiedFrom weight tie start xs).1 := by
  induction xs using List.reverseRecOn with
  | nil => simp [tiedFrom] at h
  | append_singleton xs x ih =>
    rw [tiedFrom_append] at h ⊢
    unfold keepTied at h ⊢
    split at h
    · next reached =>
      rw [if_pos reached]
      split at h
      · next same =>
        rw [if_pos same]
        cases List.mem_append.1 h with
        | inl before =>
          obtain ⟨mem, eq⟩ := ih before
          exact ⟨List.mem_append_left _ mem, eq⟩
        | inr last =>
          cases List.mem_singleton.1 last
          exact ⟨by simp, Prod.ext same.1 same.2⟩
      · next other =>
        rw [if_neg other]
        cases List.mem_singleton.1 h
        exact ⟨by simp, rfl⟩
    · next below =>
      rw [if_neg below]
      obtain ⟨mem, eq⟩ := ih h
      exact ⟨List.mem_append_left _ mem, eq⟩

/-- The keys kept are those of the last of the greatest, if that one is kept. -/
theorem tiedFrom_last :
    (tiedFrom weight tie start xs = (start, []) ∧ ∀ x ∈ xs, weight x < start.1) ∨
    (tiedFrom weight tie start xs).2 ≠ [] ∧ ∃ last, LastGreatest weight xs last ∧
      start.1 ≤ weight last ∧ (tiedFrom weight tie start xs).1 = (weight last, tie last) := by
  induction xs using List.reverseRecOn with
  | nil => exact .inl ⟨rfl, by simp⟩
  | append_singleton xs x ih =>
    rw [tiedFrom_append]
    unfold keepTied
    obtain ⟨none, below⟩ | ⟨some, last, greatest, reached, keys⟩ := ih
    · rw [none]
      by_cases reached : start.1 ≤ weight x
      · refine .inr ⟨?_, x, .append_singleton fun y mem => ((below y mem).trans_le reached).le,
          reached, ?_⟩
        · simp only [if_pos reached]
          split <;> simp
        · simp only [if_pos reached]
          split
          · next same => exact (Prod.ext same.1 same.2).symm
          · rfl
      · refine .inl ⟨if_neg reached, fun y mem => ?_⟩
        cases List.mem_append.1 mem with
        | inl before => exact below y before
        | inr here => exact List.mem_singleton.1 here ▸ not_le.1 reached
    · refine .inr ?_
      rw [keys]
      by_cases more : weight last ≤ weight x
      · simp only [if_pos more]
        refine ⟨by split <;> simp, x,
          .append_singleton fun y mem => (greatest.weight_le y mem).trans more,
          reached.trans more, ?_⟩
        split
        · next same => exact (Prod.ext same.1 same.2).symm
        · rfl
      · rw [if_neg more]
        exact ⟨some, last, greatest.append_less (not_le.1 more), reached, keys⟩

end Tied

end AdServer.Lib
