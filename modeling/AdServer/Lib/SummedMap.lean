import AdServer.Lib.SortedMap
import Mathlib.Algebra.BigOperators.Group.List.Basic
import Mathlib.Data.List.Nodup
import Mathlib.Tactic.Abel

/-!
# Maps of sums

A map from keys to amounts, an absent key standing for zero, into which amounts are added key
by key.
-/

namespace AdServer.Lib.SortedMap

variable {K A : Type} [LinearOrder K]

/-- A map has at most one entry at a key. -/
theorem filter_entries (m : SortedMap K A) (k : K) :
    m.entries.filter (fun e => e.1 == k) = ((m.find? k).map fun v => (k, v)).toList := by
  cases found : m.find? k with
  | none =>
    refine List.filter_eq_nil_iff.2 fun e there same => ?_
    obtain rfl : e.1 = k := by simpa using same
    exact find?_eq_none.1 found e.2 there
  | some v =>
    have nodup : m.entries.Nodup := m.sorted.imp fun lt same => lt.ne (congrArg Prod.fst same)
    apply List.perm_singleton.1
    refine (List.perm_ext_iff_of_nodup (nodup.filter _) (List.nodup_singleton _)).2 fun e => ?_
    rw [List.mem_filter, List.mem_singleton]
    constructor
    · rintro ⟨inside, same⟩
      obtain rfl : e.1 = k := by simpa using same
      have value := find?_eq_some.2 inside
      rw [found] at value
      exact Prod.ext rfl (Option.some.inj value).symm
    · rintro rfl
      exact ⟨find?_eq_some.1 found, by simp⟩

section Monoid

variable [AddCommMonoid A]

/-- The amount at a key, zero where there is none. -/
def value (m : SortedMap K A) (k : K) : A := (m.find? k).getD 0

/-- `m[k] += v`. -/
def addAt (m : SortedMap K A) (k : K) (v : A) : SortedMap K A := m.put k (m.value k + v)

def addAll (m : SortedMap K A) (l : List (K × A)) : SortedMap K A :=
  l.foldl (fun m e => m.addAt e.1 e.2) m

/-- The sum over the keys that pass the test. -/
def totalOf (p : K → Bool) (m : SortedMap K A) : A :=
  ((m.entries.filter fun e => p e.1).map Prod.snd).sum

/-- What a list of amounts adds to a key. -/
def amountAt (k : K) (l : List (K × A)) : A := ((l.filter fun e => e.1 == k).map Prod.snd).sum

@[simp] theorem value_empty (k : K) : (empty : SortedMap K A).value k = 0 := rfl

@[simp] theorem totalOf_empty (p : K → Bool) : (empty : SortedMap K A).totalOf p = 0 := rfl

theorem value_addAt (m : SortedMap K A) (k k' : K) (v : A) :
    (m.addAt k v).value k' = m.value k' + if k' = k then v else 0 := by
  unfold addAt value
  rw [find?_put]
  split_ifs with same
  · subst same
    rfl
  · rw [add_zero]

theorem value_addAll (m : SortedMap K A) (l : List (K × A)) (k : K) :
    (m.addAll l).value k = m.value k + amountAt k l := by
  induction l generalizing m with
  | nil => simp [addAll, amountAt]
  | cons e l ih =>
    have step : (m.addAll (e :: l)) = (m.addAt e.1 e.2).addAll l := rfl
    rw [step, ih, value_addAt, add_assoc]
    congr 1
    unfold amountAt
    by_cases same : e.1 = k
    · simp [same]
    · simp [same, Ne.symm same]

theorem amountAt_entries (m : SortedMap K A) (k : K) : amountAt k m.entries = m.value k := by
  unfold amountAt value
  rw [filter_entries]
  cases m.find? k <;> simp

end Monoid

section Group

variable [AddCommGroup A]

def negate (m : SortedMap K A) : SortedMap K A := m.mapWith fun _ v => -v

theorem value_negate (m : SortedMap K A) (k : K) : m.negate.value k = -m.value k := by
  unfold negate value
  rw [find?_mapWith]
  cases m.find? k <;> simp

end Group

end AdServer.Lib.SortedMap
