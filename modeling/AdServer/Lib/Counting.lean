import AdServer.Lib.SortedMap
import Mathlib.Algebra.BigOperators.Group.List.Basic
import Mathlib.Algebra.Ring.Nat

/-!
# Counting keys in a map

A map that counts how often each key occurs in a list.
-/

namespace AdServer.Lib.SortedMap

variable {K : Type} [LinearOrder K]

/-- Counts the key once more. -/
def countOne (m : SortedMap K Nat) (k : K) : SortedMap K Nat :=
  m.put k ((m.find? k).getD 0 + 1)

def countAll (l : List K) : SortedMap K Nat := l.foldl countOne empty

/-- The counts, each as often as its key is worth. -/
def sumBy (f : K → Nat) (m : SortedMap K Nat) : Nat := (m.entries.map fun e => f e.1 * e.2).sum

theorem sum_putList (f : K → Nat) {k : K} (v : Nat) {entries : List (K × Nat)}
    (sorted : entries.Pairwise (fun a b => a.1 < b.1)) :
    ((putList k v entries).map fun e => f e.1 * e.2).sum +
        f k * ((entries.find? (fun e => e.1 = k)).map Prod.snd).getD 0 =
      (entries.map fun e => f e.1 * e.2).sum + f k * v := by
  induction entries with
  | nil => simp [putList]
  | cons e rest ih =>
    obtain ⟨head, tail⟩ := List.pairwise_cons.1 sorted
    rw [putList]
    split
    · next before =>
      have absent : (e :: rest).find? (fun e => e.1 = k) = none := by
        rw [List.find?_eq_none]
        intro other mem
        obtain rfl | later := List.mem_cons.1 mem
        · simpa using before.ne'
        · simpa using (before.trans (head other later)).ne'
      rw [absent]
      simp only [List.map_cons, List.sum_cons, Option.map_none, Option.getD_none, Nat.mul_zero]
      omega
    · split
      · next after =>
        have step := ih tail
        rw [List.find?_cons_of_neg (by simpa using after.ne)]
        simp only [List.map_cons, List.sum_cons]
        omega
      · next not_before not_after =>
        have same : e.1 = k := le_antisymm (not_lt.1 not_before) (not_lt.1 not_after)
        rw [List.find?_cons_of_pos (by simpa using same)]
        simp only [List.map_cons, List.sum_cons, Option.map_some, Option.getD_some, same]
        omega

theorem sumBy_countOne (f : K → Nat) (m : SortedMap K Nat) (k : K) :
    sumBy f (countOne m k) = sumBy f m + f k := by
  have put := sum_putList f (k := k) ((m.find? k).getD 0 + 1) m.sorted
  have same : (m.entries.find? (fun e => e.1 = k)).map Prod.snd = m.find? k := by
    unfold find?
    congr 2
  rw [same, Nat.mul_add, Nat.mul_one] at put
  have values : sumBy f (countOne m k) =
      ((putList k ((m.find? k).getD 0 + 1) m.entries).map fun e => f e.1 * e.2).sum := rfl
  rw [values, sumBy]
  omega

theorem sumBy_countAll (f : K → Nat) (l : List K) : sumBy f (countAll l) = (l.map f).sum := by
  have general (m : SortedMap K Nat) : sumBy f (l.foldl countOne m) = sumBy f m + (l.map f).sum := by
    induction l generalizing m with
    | nil => simp
    | cons k rest ih =>
      rw [List.foldl_cons, ih, sumBy_countOne, List.map_cons, List.sum_cons]
      omega
  have nothing : sumBy f (empty : SortedMap K Nat) = 0 := rfl
  rw [countAll, general, nothing, Nat.zero_add]

theorem countAll_entries (l : List K) :
    ∀ e ∈ (countAll l).entries, 0 < e.2 ∧ e.1 ∈ l := by
  have general (done : List K) (m : SortedMap K Nat)
      (h : ∀ e ∈ m.entries, 0 < e.2 ∧ e.1 ∈ done ++ l) :
      ∀ e ∈ (l.foldl countOne m).entries, 0 < e.2 ∧ e.1 ∈ done ++ l := by
    induction l generalizing done m with
    | nil => exact h
    | cons k rest ih =>
      have step := ih (done ++ [k]) (countOne m k) fun e mem => by
        rw [List.append_assoc, List.singleton_append]
        obtain ⟨key, value⟩ := e
        have found := find?_eq_some.2 mem
        rw [countOne, find?_put] at found
        split at found
        · next same =>
          obtain rfl := Option.some.inj found
          exact ⟨Nat.succ_pos _, by simp [same]⟩
        · exact h (key, value) (find?_eq_some.1 found)
      rw [List.append_assoc, List.singleton_append] at step
      exact step
  have start := general [] empty (by simp [empty])
  rwa [List.nil_append] at start

theorem pos_countAll {l : List K} {e : K × Nat} (h : e ∈ (countAll l).entries) : 0 < e.2 :=
  (countAll_entries l e h).1

theorem mem_of_countAll {l : List K} {e : K × Nat} (h : e ∈ (countAll l).entries) : e.1 ∈ l :=
  (countAll_entries l e h).2

end AdServer.Lib.SortedMap
