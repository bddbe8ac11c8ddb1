import AdServer.Billing.Storage
import AdServer.Lib.NestedMaps

/-!
# Stored dated values

A file with a line for each key and date that has something, shared by the rates
of the creative groups and the least rates of the campaigns.
-/

namespace AdServer.Billing

open AdServer.Lib

/-- The hours in the order the vector is walked. -/
def hours : List (Fin 24) := List.finRange 24

/-- The separators of `ListSepType`. -/
def isListSep (c : Char) : Bool := c == ',' || c == '|'

/-- The exception a part of a cell is rejected with. -/
def invalid (what : String) (part : Text) : String :=
  "invalid " ++ what ++ " '" ++ String.ofList part ++ "'"

section Dated

variable {K V W : Type} [LinearOrder K]

/-- The values of a map that no writer changes, a line for each date that has
something, read in portions. -/
def saveDates (line : K × Time × V → Text) (isEmpty : V → Bool) (portionSize : Nat)
    (m : SortedMap K (SortedMap Time V)) : Option Text := do
  let saved ← m.readPortions portionSize (m.size + 1) none
  return (saved.foldl (fun out key =>
    key.2.entries.foldl (fun out date =>
      if !isEmpty date.2 then writePiece '\n' out (line (key.1, date.1, date.2)) else out) out)
    ([], false)).1

/-- The values that are written. -/
def written (isEmpty : V → Bool) (m : SortedMap K (SortedMap Time V)) : List (K × Time × V) :=
  m.entries₂.filter fun e => !isEmpty e.2.2

theorem saveDates_eq (line : K × Time × V → Text) (isEmpty : V → Bool) {portionSize : Nat}
    (pos : 0 < portionSize) (m : SortedMap K (SortedMap Time V)) :
    saveDates line isEmpty portionSize m =
      some (['\n'].intercalate ((written isEmpty m).map line)) := by
  have inner (key : K) (l : List (Time × V)) (out : Text × Bool) :
      l.foldl (fun out date =>
          if !isEmpty date.2 then writePiece '\n' out (line (key, date.1, date.2)) else out) out =
        (((l.map fun date => (key, date.1, date.2)).filter fun e => !isEmpty e.2.2).map line).foldl
          (writePiece '\n') out := by
    induction l generalizing out with
    | nil => rfl
    | cons date rest ih =>
      rw [List.foldl_cons, ih, List.map_cons]
      cases empty : isEmpty date.2 <;> simp [empty]
  have outer (l : List (K × SortedMap Time V)) (out : Text × Bool) :
      l.foldl (fun out key =>
          key.2.entries.foldl (fun out date =>
            if !isEmpty date.2 then writePiece '\n' out (line (key.1, date.1, date.2)) else out)
            out) out =
        (((l.flatMap fun e => e.2.entries.map fun d => (e.1, d.1, d.2)).filter
          fun e => !isEmpty e.2.2).map line).foldl (writePiece '\n') out := by
    induction l generalizing out with
    | nil => rfl
    | cons key rest ih =>
      rw [List.foldl_cons, ih, inner, List.flatMap_cons, List.filter_append, List.map_append,
        List.foldl_append]
  have all := outer m.entries ([], false)
  change _ = ((written isEmpty m).map line).foldl (writePiece '\n') ([], false) at all
  rw [writePieces_eq] at all
  rw [saveDates, SortedMap.readPortions_eq m pos]
  exact congrArg (fun out => some out.1) all

/-- Reading a file of dated values puts those that were written, as they are
read, one by one. -/
theorem readFile_saveDates {line : K × Time × V → Text} {isEmpty : V → Bool} {portionSize : Nat}
    (pos : 0 < portionSize) {m : SortedMap K (SortedMap Time V)}
    (clean : ∀ e ∈ m.entries₂, ∀ c ∈ line e, (c == '\n') = false)
    (full : ∀ e ∈ m.entries₂, line e ≠ [])
    {read : Text → SortedMap K (SortedMap Time W) → Except LoadError (SortedMap K (SortedMap Time W))}
    {step : SortedMap K (SortedMap Time W) → K × Time × W → SortedMap K (SortedMap Time W)}
    (puts : SortedMap.PutsNew step) {value : V → W}
    (inverse : ∀ e ∈ m.entries₂, isEmpty e.2.2 = false → ∀ acc,
      read (line e) acc = .ok (step acc (e.1, e.2.1, value e.2.2))) (FUN path : String) :
    ∃ file, saveDates line isEmpty portionSize m = some file ∧
      readFile FUN path read file SortedMap.empty =
        .ok (m.filterMap₂ fun v => if isEmpty v then none else some (value v)) := by
  refine ⟨_, saveDates_eq line isEmpty pos m, ?_⟩
  have of_written (e : K × Time × V) (he : e ∈ written isEmpty m) :
      e ∈ m.entries₂ ∧ isEmpty e.2.2 = false := by
    obtain ⟨he, some_value⟩ := List.mem_filter.1 he
    exact ⟨he, by simpa using some_value⟩
  have added (l : List (K × Time × V)) (hl : ∀ e ∈ l, e ∈ written isEmpty m)
      (acc : SortedMap K (SortedMap Time W)) :
      (l.map line).foldlM (fun acc line => read line acc) acc =
        .ok ((l.map fun e => (e.1, e.2.1, value e.2.2)).foldl step acc) := by
    induction l generalizing acc with
    | nil => rfl
    | cons e rest ih =>
      obtain ⟨he, some_value⟩ := of_written e (hl e (by simp))
      rw [List.map_cons, List.foldlM_cons, inverse e he some_value]
      exact ih (fun f hf => hl f (by simp [hf])) _
  have rebuilt : ((written isEmpty m).map fun e => (e.1, e.2.1, value e.2.2)).foldl step
      SortedMap.empty = m.filterMap₂ fun v => if isEmpty v then none else some (value v) := by
    have whole := SortedMap.foldl_entries₂ puts
      (SortedMap.filterMap₂_full (fun v => if isEmpty v then none else some (value v)) m)
    rw [SortedMap.entries₂_filterMap₂] at whole
    rw [← whole, written]
    congr 1
    generalize m.entries₂ = l
    induction l with
    | nil => rfl
    | cons e rest ih => cases empty : isEmpty e.2.2 <;> simp [empty, ih]
  unfold readFile
  by_cases empty : (['\n'].intercalate ((written isEmpty m).map line)).isEmpty
  · -- nothing was written: no line is empty
    rw [if_pos empty]
    have nothing : written isEmpty m = [] := by
      cases h : written isEmpty m with
      | nil => rfl
      | cons e rest =>
        rw [h, List.map_cons, intercalate_cons] at empty
        have some_line := full e (of_written e (by simp [h])).1
        simp [some_line] at empty
    rw [nothing] at rebuilt
    exact congrArg Except.ok rebuilt
  · rw [if_neg empty]
    have some_line : (written isEmpty m).map line ≠ [] := by
      intro none_written
      simp [none_written] at empty
    rw [splitOnP_intercalate_clean (by decide) some_line]
    · refine readLines_ok (fun l hl => ?_) ?_
      · obtain ⟨e, he, rfl⟩ := List.mem_map.1 hl
        exact full e (of_written e he).1
      · rw [added _ (fun _ he => he), rebuilt]
    · intro l hl
      obtain ⟨e, he, rfl⟩ := List.mem_map.1 hl
      exact clean e (of_written e he).1

theorem mem_entries₂ {m : SortedMap K (SortedMap Time V)}
    {e : K × Time × V} (h : e ∈ m.entries₂) :
    ∃ dates, m.find? e.1 = some dates ∧ dates.find? e.2.1 = some e.2.2 := by
  obtain ⟨key, hkey, h⟩ := List.mem_flatMap.1 h
  obtain ⟨date, hdate, rfl⟩ := List.mem_map.1 h
  exact ⟨key.2, SortedMap.find?_eq_some.2 hkey, SortedMap.find?_eq_some.2 hdate⟩

end Dated

end AdServer.Billing
