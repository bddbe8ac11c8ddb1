import Mathlib.Data.List.Nodup

/-!
# Parent chains

A forest written down child by child: some keys are roots, and `above` gives the key
above another.
-/

namespace AdServer.Lib

section

variable {K : Type} {isRoot isRoot' : K → Prop} {above above' : K → Option K} {k p : K}
  {m n : Nat}

/-- What `find` gives for a key among records of distinct keys. -/
theorem find?_key {A : Type} [DecidableEq K] {key : A → K} {l : List A} {a : A}
    (distinct : (l.map key).Nodup) :
    l.find? (fun a => key a == k) = some a ↔ a ∈ l ∧ key a = k := by
  constructor
  · intro found
    exact ⟨List.mem_of_find?_eq_some found, by simpa using List.find?_some found⟩
  · rintro ⟨mem, rfl⟩
    obtain ⟨b, found⟩ : ∃ b, l.find? (fun b => key b == key a) = some b :=
      Option.isSome_iff_exists.1 (List.find?_isSome.2 ⟨a, mem, by simp⟩)
    rw [found, List.inj_on_of_nodup_map distinct (List.mem_of_find?_eq_some found) mem
      (by simpa using List.find?_some found)]

variable (isRoot above) in
inductive Level : Nat → K → Prop
  | root {k : K} (top : isRoot k) : Level 0 k
  | under {n : Nat} {k p : K} (up : above k = some p) (higher : Level n p) : Level (n + 1) k

variable (isRoot above) in
def Rooted (k : K) : Prop := ∃ n, Level isRoot above n k

variable (above) in
/-- So many steps up. -/
def climb : Nat → K → Option K
  | 0, k => some k
  | n + 1, k => (above k).bind (climb n)

theorem climb_succ (up : above k = some p) : climb above (n + 1) k = climb above n p := by
  simp [climb, up]

theorem climb_add : climb above (m + n) k = (climb above m k).bind (climb above n) := by
  induction m generalizing k with
  | zero => simp [climb]
  | succ m ih =>
    rw [Nat.add_right_comm]
    cases up : above k with
    | none => simp [climb, up]
    | some p => rw [climb_succ up, climb_succ up, ih]

theorem climb_last (climbed : climb above n k = some p) :
    climb above (n + 1) k = above p := by
  rw [climb_add, climbed]
  simp [climb]

/-- The chain from below goes on where it has come to. -/
theorem Level.of_climb (climbed : climb above m k = some p)
    (level : Level isRoot above n p) : Level isRoot above (m + n) k := by
  induction m generalizing k with
  | zero => cases climbed; simpa using level
  | succ m ih =>
    cases up : above k with
    | none => simp [climb, up] at climbed
    | some q =>
      rw [climb_succ up] at climbed
      rw [Nat.add_right_comm]
      exact .under up (ih climbed)

theorem Level.exists_of_le (level : Level isRoot above n k) (le : m ≤ n) :
    ∃ p, Level isRoot above m p := by
  induction level with
  | root top =>
    obtain rfl := Nat.le_zero.1 le
    exact ⟨_, .root top⟩
  | under up higher ih =>
    rcases Nat.le_succ_iff.1 le with le | rfl
    · exact ih le
    · exact ⟨_, .under up higher⟩

theorem Level.transfer
    (same : ∀ k p, above k = some p → Rooted isRoot above p → above' k = some p)
    (level : Level isRoot above n k) (tops : ∀ k, isRoot k → isRoot' k) :
    Level isRoot' above' n k := by
  induction level with
  | root top => exact .root (tops _ top)
  | under up higher ih => exact .under (same _ _ up ⟨_, higher⟩) ih

variable (top : ∀ k, isRoot k → above k = none)
include top

theorem Level.unique (first : Level isRoot above m k) (second : Level isRoot above n k) :
    m = n := by
  induction first generalizing n with
  | root root =>
    cases second with
    | root _ => rfl
    | under up _ => simp [top _ root] at up
  | under up _ ih =>
    cases second with
    | root root => simp [top _ root] at up
    | under up' higher =>
      cases up.symm.trans up'
      rw [ih higher]

theorem rooted_iff (up : above k = some p) :
    Rooted isRoot above k ↔ Rooted isRoot above p := by
  constructor
  · rintro ⟨n, level⟩
    cases level with
    | root root => simp [top _ root] at up
    | under up' higher =>
      cases up.symm.trans up'
      exact ⟨_, higher⟩
  · rintro ⟨n, level⟩
    exact ⟨_, .under up level⟩

theorem Level.acyclic (level : Level isRoot above n k) : climb above (m + 1) k ≠ some k := by
  intro back
  have := level.unique top (level.of_climb back)
  omega

/-- A bound on the levels of finitely many keys. -/
theorem exists_level_lt (keys : List K) :
    ∃ bound, ∀ k ∈ keys, ∀ n, Level isRoot above n k → n < bound := by
  induction keys with
  | nil => simp
  | cons k rest ih =>
    obtain ⟨bound, lt⟩ := ih
    by_cases rooted : Rooted isRoot above k
    · obtain ⟨n, level⟩ := rooted
      refine ⟨max bound (n + 1), List.forall_mem_cons.2 ⟨?_, ?_⟩⟩
      · intro m level'
        have := level.unique top level'
        omega
      · intro q mem m level'
        have := lt q mem m level'
        omega
    · exact ⟨bound, List.forall_mem_cons.2 ⟨fun m level => absurd ⟨m, level⟩ rooted, lt⟩⟩

end

end AdServer.Lib
