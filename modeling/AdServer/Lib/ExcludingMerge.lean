import Mathlib.Data.List.Basic
import Mathlib.Order.Lattice

/-!
# Merging with elements left out

Two sequences are merged, and the elements of the second that a predicate refuses
are left out. The predicate has a state, which passes through the sequence, and
may fail.
-/

namespace AdServer.Lib

variable {A S : Type} [LinearOrder A] (pred : S → A → Option (Bool × S))

/-- `std::copy_if`. -/
def copyIf : S → List A → Option (List A)
  | _, [] => some []
  | state, a :: rest =>
    match pred state a with
    | none => none
    | some (keeps, state) => (copyIf state rest).map fun kept => if keeps then a :: kept else kept

/-- What comes before and after `a` of the first sequence, which is `alone` with what follows it;
`rest` merges what follows. -/
def mergeAtExcluding (a : A) (alone : List A) (rest : S → List A → Option (List A)) :
    S → List A → Option (List A)
  | _, [] => some alone
  | state, b :: second =>
    if b < a then
      match pred state b with
      | none => none
      | some (keeps, state) => (mergeAtExcluding a alone rest state second).map fun merged =>
        if keeps then b :: merged else merged
    else (rest state (b :: second)).map (a :: ·)

/-- `merge_if_not_exclude`: the predicate is about the second sequence. -/
def mergeIfNotExclude : List A → S → List A → Option (List A)
  | [], state, second => copyIf pred state second
  | a :: first, state, second =>
    mergeAtExcluding pred a (a :: first) (mergeIfNotExclude first) state second

variable {pred}

omit [LinearOrder A] in
theorem copyIf_sublist {state : S} {l kept : List A} (h : copyIf pred state l = some kept) :
    kept.Sublist l := by
  induction l generalizing state kept with
  | nil =>
    cases h
    exact List.Sublist.refl _
  | cons a rest ih =>
    rw [copyIf] at h
    split at h
    · cases h
    · next keeps state called =>
      obtain ⟨later, done, rfl⟩ := Option.map_eq_some_iff.1 h
      split
      · exact (ih done).cons_cons a
      · exact (ih done).cons a

/-- Where the second sequence is in order, elements can be left out before. -/
theorem mergeIfNotExclude_eq (first : List A) (state : S) {second : List A}
    (ordered : second.Pairwise (· ≤ ·)) :
    mergeIfNotExclude pred first state second =
      (copyIf pred state second).map fun kept => first.merge kept fun a b => decide (a ≤ b) := by
  induction first generalizing state second with
  | nil => simp [mergeIfNotExclude]
  | cons a first ihFirst =>
    induction second generalizing state with
    | nil => simp [mergeIfNotExclude, mergeAtExcluding, copyIf]
    | cons b second ihSecond =>
      have later (state : S) := ihSecond state (List.pairwise_cons.1 ordered).2
      simp only [mergeIfNotExclude] at later ⊢
      rw [mergeAtExcluding]
      split
      · next before =>
        rw [copyIf]
        cases pred state b with
        | none => rfl
        | some called =>
          obtain ⟨keeps, state⟩ := called
          simp only [later, Option.map_map]
          congr 1
          funext kept
          cases keeps with
          | false => rfl
          | true =>
            simp only [Function.comp_apply, if_true]
            rw [List.cons_merge_cons, if_neg (by simpa using before)]
      · next notBefore =>
        have le : a ≤ b := not_lt.1 notBefore
        rw [ihFirst state ordered, Option.map_map]
        cases copied : copyIf pred state (b :: second) with
        | none => rfl
        | some kept =>
          simp only [Option.map_some, Function.comp_apply, Option.some.injEq]
          cases kept with
          | nil => simp
          | cons c kept =>
            have inside : c ∈ b :: second := (copyIf_sublist copied).mem List.mem_cons_self
            have above : a ≤ c := by
              rcases List.mem_cons.1 inside with rfl | later
              · exact le
              · exact le_trans le ((List.pairwise_cons.1 ordered).1 c later)
            rw [List.cons_merge_cons, if_pos (by simpa using above)]

end AdServer.Lib
