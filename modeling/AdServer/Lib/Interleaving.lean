import Mathlib.Algebra.BigOperators.Ring.List
import Mathlib.Tactic.Linarith

/-!
# Processes interleaved on a shared state

A process is its program counter and local variables. Each of its sections runs
alone on the shared state; a schedule says whose section comes next.
-/

namespace AdServer.Lib.Interleaving

variable {S P : Type} (step : S → P → S × P)

/-- The shared state and the processes, by number. -/
abbrev World (S P : Type) := S × List P

/-- One section of process `i`. A number that names no process does nothing. -/
def tick (w : World S P) (i : Nat) : World S P :=
  match w.2[i]? with
  | none => w
  | some p => ((step w.1 p).1, w.2.set i (step w.1 p).2)

def run (w : World S P) (schedule : List Nat) : World S P :=
  schedule.foldl (tick step) w

/-- How much the sections of process `i` moved the measure `m`. -/
def ledger (m : S → Int) (w : World S P) : List Nat → Nat → Int
  | [], _ => 0
  | j :: rest, i =>
    (if i = j then m (tick step w j).1 - m w.1 else 0) + ledger m (tick step w j) rest i

/-- Every section along the schedule meets the condition where it starts. -/
def AllSections (ok : S → P → Prop) (w : World S P) : List Nat → Prop
  | [] => True
  | j :: rest => (∀ p, w.2[j]? = some p → ok w.1 p) ∧ AllSections ok (tick step w j) rest

instance instDecidableAllSections (ok : S → P → Prop) [∀ s p, Decidable (ok s p)] :
    ∀ (w : World S P) (schedule : List Nat), Decidable (AllSections step ok w schedule)
  | _, [] => isTrue trivial
  | w, j :: rest =>
    have := instDecidableAllSections ok (tick step w j) rest
    match h : w.2[j]? with
    | none => decidable_of_iff (AllSections step ok (tick step w j) rest) (by simp [AllSections, h])
    | some p =>
      decidable_of_iff (ok w.1 p ∧ AllSections step ok (tick step w j) rest)
        (by simp [AllSections, h])

variable {step}

@[simp] theorem run_nil (w : World S P) : run step w [] = w := rfl

variable {w : World S P} {i : Nat} {ok : S → P → Prop}

theorem tick_self {p : P} (h : w.2[i]? = some p) :
    (tick step w i).1 = (step w.1 p).1 ∧ (tick step w i).2[i]? = some (step w.1 p).2 := by
  have bound : i < w.2.length := (List.getElem?_eq_some_iff.1 h).1
  simp only [tick, h]
  exact ⟨trivial, List.getElem?_set_self bound⟩

theorem tick_other (w : World S P) {i j : Nat} (h : j ≠ i) :
    (tick step w j).2[i]? = w.2[i]? := by
  unfold tick
  split
  · rfl
  · simp [h]

theorem tick_missing (h : w.2[i]? = none) : tick step w i = w := by
  simp [tick, h]

theorem allSections_of_forall (h : ∀ s p, ok s p) (w : World S P) (schedule : List Nat) :
    AllSections step ok w schedule := by
  induction schedule generalizing w with
  | nil => exact trivial
  | cons j rest ih => exact ⟨fun p _ => h w.1 p, ih _⟩

theorem allSections_prefix {taken rest : List Nat} (h : AllSections step ok w (taken ++ rest)) :
    AllSections step ok w taken := by
  induction taken generalizing w with
  | nil => exact trivial
  | cons j taken ih => exact ⟨h.1, ih h.2⟩

section Invariants

variable {Inv : Nat → S → P → Prop}

/-- Every process has its invariant against the present shared state. -/
def Holds (Inv : Nat → S → P → Prop) (w : World S P) : Prop :=
  ∀ i p, w.2[i]? = some p → Inv i w.1 p

/-- A section keeps the invariant of its own process and of every other one. -/
structure Kept (step : S → P → S × P) (Inv : Nat → S → P → Prop) : Prop where
  own : ∀ i s p, Inv i s p → Inv i (step s p).1 (step s p).2
  other : ∀ i j s p q, Inv i s p → Inv j s q → Inv i (step s q).1 p

variable {w : World S P} {i : Nat} {p q : P}

section
variable (kept : Kept step Inv)
include kept

theorem tick_inv (h : Holds Inv w) (j : Nat) : Holds Inv (tick step w j) := by
  cases hj : w.2[j]? with
  | none => rwa [tick_missing hj]
  | some q =>
    have hs : (tick step w j).1 = (step w.1 q).1 := (tick_self hj).1
    have hq : (tick step w j).2[j]? = some (step w.1 q).2 := (tick_self hj).2
    intro i p hp
    rw [hs]
    by_cases e : j = i
    · subst e
      rw [hq] at hp
      obtain rfl := Option.some.inj hp
      exact kept.own j w.1 q (h j q hj)
    · rw [tick_other w e] at hp
      exact kept.other i j w.1 p q (h i p hp) (h j q hj)

theorem run_inv (h : Holds Inv w) (schedule : List Nat) : Holds Inv (run step w schedule) := by
  induction schedule generalizing w with
  | nil => exact h
  | cons j rest ih => exact ih (tick_inv kept h j)

/-- A process that owes what its sections move settles the ledger. -/
theorem ledger_eq (m : S → Int) (owed : Nat → P → Int)
    (pays : ∀ i s p, Inv i s p → m (step s p).1 - m s = owed i (step s p).2 - owed i p)
    (h : Holds Inv w) (schedule : List Nat) (hp : w.2[i]? = some p)
    (hq : (run step w schedule).2[i]? = some q) :
    ledger step m w schedule i = owed i q - owed i p := by
  induction schedule generalizing w p with
  | nil =>
    rw [run_nil, hp] at hq
    obtain rfl := Option.some.inj hq
    simp [ledger]
  | cons j rest ih =>
    have hold := tick_inv kept h j
    simp only [ledger]
    by_cases e : j = i
    · subst e
      have hs : (tick step w j).1 = (step w.1 p).1 := (tick_self hp).1
      have hnext : (tick step w j).2[j]? = some (step w.1 p).2 := (tick_self hp).2
      rw [ih hold hnext hq, if_pos rfl, hs, pays j w.1 p (h j p hp)]
      omega
    · rw [if_neg (Ne.symm e), ih hold ((tick_other w e).trans hp) hq]
      omega

/-- An invariant of the shared state along a schedule whose sections all meet
the condition. -/
theorem run_shared_inv {Shared : S → Prop} {ok : S → P → Prop}
    (keeps : ∀ i s p, Inv i s p → ok s p → Shared s → Shared (step s p).1) (h : Holds Inv w)
    (start : Shared w.1) (schedule : List Nat) (all : AllSections step ok w schedule) :
    Shared (run step w schedule).1 := by
  induction schedule generalizing w with
  | nil => exact start
  | cons j rest ih =>
    obtain ⟨hj, hrest⟩ := all
    refine ih (tick_inv kept h j) ?_ hrest
    cases e : w.2[j]? with
    | none => rwa [tick_missing e]
    | some p =>
      rw [(tick_self e).1]
      exact keeps j w.1 p (h j p e) (hj p e) start

end

/-- A process alone on the state keeps what its own sections keep. -/
theorem run_alone {Inv : S → P → Prop} (own : ∀ s p, Inv s p → Inv (step s p).1 (step s p).2)
    {s : S} (h : Inv s p) (n : Nat) :
    ∃ s' p', run step (s, [p]) (List.replicate n 0) = (s', [p']) ∧ Inv s' p' := by
  induction n generalizing s p with
  | zero => exact ⟨s, p, rfl, h⟩
  | succ n ih => exact ih (own s p h)

/-- A rank that every own section of an unfinished process lowers bounds the
sections it takes. -/
theorem rank_run (rank : P → Nat) (lower : ∀ s p, rank (step s p).2 ≤ rank p - 1)
    (schedule : List Nat) (hp : w.2[i]? = some p) (hq : (run step w schedule).2[i]? = some q) :
    rank q ≤ rank p - schedule.count i := by
  induction schedule generalizing w p with
  | nil =>
    rw [run_nil, hp] at hq
    obtain rfl := Option.some.inj hq
    simp
  | cons j rest ih =>
    by_cases e : j = i
    · subst e
      have after := ih (tick_self hp).2 hq
      have own := lower w.1 p
      rw [List.count_cons_self]
      omega
    · rw [List.count_cons_of_ne e]
      exact ih ((tick_other w e).trans hp) hq

end Invariants

end AdServer.Lib.Interleaving
