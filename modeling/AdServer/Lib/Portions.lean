import AdServer.Lib.SortedMap

/-!
# Reading a map in portions

A reader that takes a bounded number of elements at a time, leaves the map, and
finds its place again by the key it stopped before.
-/

namespace AdServer.Lib

namespace SortedMap

variable {K V : Type} [LinearOrder K] (m : SortedMap K V)

/-- Up to `n` elements from the iterator on, and where it stops. -/
def takePortion : Nat → Option K → List (K × V) × Option K
  | 0, cur => ([], cur)
  | _ + 1, none => ([], none)
  | n + 1, some k =>
    let rest := takePortion n (m.upperBound k)
    ((m.find? k).toList.map (fun v => (k, v)) ++ rest.1, rest.2)

/-- Portion by portion, with as much fuel as there may be portions. -/
def readPortions (portionSize : Nat) : Nat → Option K → Option (List (K × V))
  | 0, _ => none
  | fuel + 1, lastKey =>
    let cur := match lastKey with
      | some key => m.lowerBound key
      | none => m.first?
    let portion := m.takePortion portionSize cur
    match portion.2 with
    | none => some portion.1
    | some key => (readPortions portionSize fuel (some key)).map (portion.1 ++ ·)

variable {m}

/-- The iterator at the first element of what is left. -/
def headKey (rest : List (K × V)) : Option K := rest.head?.map Prod.fst

variable {done rest : List (K × V)} {e : K × V} {portionSize : Nat}

theorem lowerBound_split (split : m.entries = done ++ e :: rest) : m.lowerBound e.1 = some e.1 := by
  have sorted := m.sorted
  rw [split] at sorted
  have front := (List.pairwise_append.1 sorted).2.2
  have skip : done.find? (fun d => decide (e.1 ≤ d.1)) = none := by
    rw [List.find?_eq_none]
    intro d hd
    simpa using front d hd e (by simp)
  simp [lowerBound, split, List.find?_append, skip]

theorem upperBound_split (split : m.entries = done ++ e :: rest) :
    m.upperBound e.1 = headKey rest := by
  have sorted := m.sorted
  rw [split] at sorted
  obtain ⟨-, tail, front⟩ := List.pairwise_append.1 sorted
  have skip : done.find? (fun d => decide (e.1 < d.1)) = none := by
    rw [List.find?_eq_none]
    intro d hd
    simpa using (front d hd e (by simp)).le
  have next : rest.find? (fun d => decide (e.1 < d.1)) = rest.head? := by
    cases rest with
    | nil => rfl
    | cons a rest => simp [(List.pairwise_cons.1 tail).1 a (by simp)]
  simp [upperBound, headKey, split, List.find?_append, skip, next]

theorem takePortion_split (n : Nat) (split : m.entries = done ++ rest) :
    m.takePortion n (headKey rest) = (rest.take n, headKey (rest.drop n)) := by
  induction n generalizing done rest with
  | zero => rfl
  | succ n ih =>
    cases rest with
    | nil => rfl
    | cons e rest =>
      have found : m.find? e.1 = some e.2 := find?_eq_some.2 (by simp [split])
      have next := upperBound_split split
      have tail := ih (show m.entries = (done ++ [e]) ++ rest by simp [split])
      simp only [takePortion, headKey, List.head?_cons, Option.map_some, found, next] at tail ⊢
      simp [tail]

theorem readPortions_split (pos : 0 < portionSize) (fuel : Nat)
    (split : m.entries = done ++ e :: rest) (enough : rest.length < fuel) :
    m.readPortions portionSize fuel (some e.1) = some (e :: rest) := by
  induction fuel generalizing done e rest with
  | zero => omega
  | succ fuel ih =>
    have taken := takePortion_split portionSize split
    simp only [headKey, List.head?_cons, Option.map_some] at taken
    simp only [readPortions, lowerBound_split split, taken]
    cases left : (e :: rest).drop portionSize with
    | nil =>
      have all : (e :: rest).take portionSize = e :: rest :=
        List.take_of_length_le (List.drop_eq_nil_iff.1 left)
      simp [all]
    | cons next rest' =>
      have whole : (e :: rest).take portionSize ++ next :: rest' = e :: rest := by
        rw [← left, List.take_append_drop]
      have fewer : rest'.length < fuel := by
        have lengths := congrArg List.length left
        simp only [List.length_drop, List.length_cons] at lengths
        omega
      have later := ih (show m.entries = (done ++ (e :: rest).take portionSize) ++ next :: rest' by
        rw [split, List.append_assoc, whole]) fewer
      simp [later, whole]

theorem readPortions_eq (m : SortedMap K V) (pos : 0 < portionSize) :
    m.readPortions portionSize (m.size + 1) none = some m.entries := by
  cases h : m.entries with
  | nil =>
    obtain ⟨n, rfl⟩ : ∃ n, portionSize = n + 1 := ⟨portionSize - 1, by omega⟩
    simp [readPortions, first?, h, takePortion]
  | cons e rest =>
    have split : m.entries = [] ++ e :: rest := by simp [h]
    have first : m.first? = some e.1 := by simp [first?, h]
    have same : m.readPortions portionSize (m.size + 1) none =
        m.readPortions portionSize (m.size + 1) (some e.1) := by
      simp only [readPortions, first, lowerBound_split split]
    rw [same, readPortions_split pos _ split (by simp only [size, h, List.length_cons]; omega)]

theorem find?_foldl_put (l : List (K × V)) (nodup : (l.map Prod.fst).Nodup) (acc : SortedMap K V)
    (k : K) :
    (l.foldl (fun acc e => acc.put e.1 e.2) acc).find? k =
      ((l.find? (fun e => e.1 == k)).map Prod.snd).or (acc.find? k) := by
  induction l generalizing acc with
  | nil => simp
  | cons e rest ih =>
    obtain ⟨fresh, nodup'⟩ := List.nodup_cons.1 nodup
    rw [List.foldl_cons, ih nodup', find?_put]
    by_cases at_key : e.1 = k
    · have none_later : rest.find? (fun e => e.1 == k) = none := by
        rw [List.find?_eq_none]
        intro d hd same
        exact fresh (List.mem_map.2 ⟨d, hd, (beq_iff_eq.1 same).trans at_key.symm⟩)
      simp [at_key, none_later]
    · simp [at_key, Ne.symm at_key]

theorem foldl_put_entries (m : SortedMap K V) :
    m.entries.foldl (fun acc e => acc.put e.1 e.2) empty = m := by
  refine ext_find fun k => ?_
  rw [find?_foldl_put _ m.keys_nodup, find?_empty, Option.or_none, find?]

end SortedMap

end AdServer.Lib
