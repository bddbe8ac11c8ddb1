import Mathlib.Order.Lattice
import Mathlib.Data.List.Induction

/-!
# Maps ordered by key

A finite map kept as a list sorted by key, with the operations of an ordered
associative container: find, insert, assign, erase, the two bound searches and
the last element. An iterator into such a map is the key it points at, since
inserting and erasing other keys never moves it.
-/

namespace AdServer.Lib

/-- A map with its keys in strictly increasing order. -/
structure SortedMap (K V : Type) [LinearOrder K] where
  entries : List (K × V)
  sorted : entries.Pairwise (fun a b => a.1 < b.1)

namespace SortedMap

variable {K V W : Type} [LinearOrder K]

instance [DecidableEq V] : DecidableEq (SortedMap K V) := fun a b =>
  decidable_of_iff (a.entries = b.entries) (by cases a; cases b; simp)

def empty : SortedMap K V := ⟨[], List.Pairwise.nil⟩

instance : Inhabited (SortedMap K V) := ⟨empty⟩

def find? (m : SortedMap K V) (k : K) : Option V :=
  (m.entries.find? (fun e => e.1 == k)).map Prod.snd

def keys (m : SortedMap K V) : List K := m.entries.map Prod.fst

/-- The first key not less than `k`: `std::map::lower_bound`. -/
def lowerBound (m : SortedMap K V) (k : K) : Option K :=
  (m.entries.find? (fun e => decide (k ≤ e.1))).map Prod.fst

/-- The first key greater than `k`: `std::map::upper_bound`, and also the next
position after an element with key `k`. -/
def upperBound (m : SortedMap K V) (k : K) : Option K :=
  (m.entries.find? (fun e => decide (k < e.1))).map Prod.fst

/-- The key `begin()` points at. -/
def first? (m : SortedMap K V) : Option K := m.entries.head?.map Prod.fst

/-- The element `rbegin()` points at. -/
def last? (m : SortedMap K V) : Option (K × V) := m.entries.getLast?

def putList (k : K) (v : V) : List (K × V) → List (K × V)
  | [] => [(k, v)]
  | e :: rest =>
    if k < e.1 then (k, v) :: e :: rest
    else if e.1 < k then e :: putList k v rest
    else (k, v) :: rest

variable {k k' j : K} {v : V} {l : List (K × V)}

theorem mem_putList {e : K × V} (h : e ∈ putList k v l) : e = (k, v) ∨ e ∈ l := by
  induction l with
  | nil => simpa [putList] using h
  | cons a rest ih =>
    simp only [putList] at h
    split at h
    · simpa using h
    · split at h
      · rcases List.mem_cons.1 h with rfl | h
        · exact .inr (by simp)
        · exact (ih h).imp_right (fun h => by simp [h])
      · rcases List.mem_cons.1 h with rfl | h
        · exact .inl rfl
        · exact .inr (by simp [h])

theorem putList_sorted (k : K) (v : V) (h : l.Pairwise (fun a b => a.1 < b.1)) :
    (putList k v l).Pairwise (fun a b => a.1 < b.1) := by
  induction l with
  | nil => simp [putList]
  | cons a rest ih =>
    obtain ⟨ha, hr⟩ := List.pairwise_cons.1 h
    simp only [putList]
    split
    · rename_i hk
      refine List.pairwise_cons.2 ⟨fun e he => ?_, h⟩
      rcases List.mem_cons.1 he with rfl | he
      · exact hk
      · exact hk.trans (ha e he)
    · split
      · rename_i hk
        refine List.pairwise_cons.2 ⟨fun e he => ?_, ih hr⟩
        rcases mem_putList he with rfl | he
        · exact hk
        · exact ha e he
      · rename_i hk hk'
        have hka : k = a.1 := le_antisymm (not_lt.1 hk') (not_lt.1 hk)
        exact List.pairwise_cons.2 ⟨fun e he => hka ▸ ha e he, hr⟩

/-- Insert or assign. -/
def put (m : SortedMap K V) (k : K) (v : V) : SortedMap K V :=
  ⟨putList k v m.entries, putList_sorted k v m.sorted⟩

/-- `std::map::insert`: an element already there keeps its value. -/
def insertNew (m : SortedMap K V) (k : K) (v : V) : SortedMap K V :=
  if (m.find? k).isSome then m else m.put k v

/-- The elements whose key passes the test. -/
def filterKeys (m : SortedMap K V) (p : K → Bool) : SortedMap K V :=
  ⟨m.entries.filter (fun e => p e.1), m.sorted.filter _⟩

def erase (m : SortedMap K V) (k : K) : SortedMap K V :=
  m.filterKeys (fun k' => k' != k)

/-- Every value rewritten in place, its key in view. -/
def mapWith (m : SortedMap K V) (f : K → V → W) : SortedMap K W :=
  ⟨m.entries.map (fun e => (e.1, f e.1 e.2)), m.sorted.map _ (fun _ _ h => h)⟩

def modify (m : SortedMap K V) (k : K) (f : V → V) : SortedMap K V :=
  m.mapWith (fun k' v => if k' = k then f v else v)

/-- The element before the position of `k`: `--it` from there. -/
def predecessor? (m : SortedMap K V) (k : K) : Option (K × V) :=
  (m.filterKeys (fun k' => decide (k' < k))).last?

def isEmpty (m : SortedMap K V) : Bool := m.entries.isEmpty

def size (m : SortedMap K V) : Nat := m.entries.length

theorem find?_eq_some {m : SortedMap K V} : m.find? k = some v ↔ (k, v) ∈ m.entries := by
  obtain ⟨l, hl⟩ := m
  simp only [find?]
  induction l with
  | nil => simp
  | cons a rest ih =>
    obtain ⟨ha, hr⟩ := List.pairwise_cons.1 hl
    by_cases hk : a.1 = k
    · subst hk
      constructor
      · intro h
        simp only [List.find?_cons, beq_self_eq_true, Option.map_some, Option.some.injEq] at h
        exact List.mem_cons.2 (.inl (Prod.ext rfl h.symm))
      · intro h
        rcases List.mem_cons.1 h with h | h
        · obtain rfl : v = a.2 := congrArg Prod.snd h
          simp
        · exact absurd (ha _ h) (lt_irrefl _)
    · rw [List.find?_cons_of_neg (by simpa using hk), ih hr, List.mem_cons]
      constructor
      · exact .inr
      · rintro (h | h)
        · exact absurd (congrArg Prod.fst h).symm hk
        · exact h

theorem find?_eq_none {m : SortedMap K V} : m.find? k = none ↔ ∀ v, (k, v) ∉ m.entries := by
  constructor
  · intro h v hv
    simp [find?_eq_some.2 hv] at h
  · intro h
    cases hf : m.find? k with
    | none => rfl
    | some v => exact absurd (find?_eq_some.1 hf) (h v)

theorem mem_keys {m : SortedMap K V} : k ∈ m.keys ↔ (m.find? k).isSome := by
  simp only [keys, List.mem_map, Prod.exists, Option.isSome_iff_exists, find?_eq_some]
  constructor
  · rintro ⟨a, v, h, rfl⟩; exact ⟨v, h⟩
  · rintro ⟨v, h⟩; exact ⟨k, v, h, rfl⟩

theorem keys_nodup (m : SortedMap K V) : m.keys.Nodup := by
  have rising : m.keys.Pairwise (· < ·) := List.pairwise_map.2 m.sorted
  exact rising.imp (fun lt => lt.ne)

/-- A map is determined by its lookups. -/
theorem ext_find {m n : SortedMap K V} (h : ∀ k, m.find? k = n.find? k) : m = n := by
  have hmem : ∀ e, e ∈ m.entries ↔ e ∈ n.entries := by
    rintro ⟨k, v⟩
    rw [← find?_eq_some, ← find?_eq_some, h k]
  have nodup (m : SortedMap K V) : m.entries.Nodup :=
    m.sorted.imp (fun {a b} hab heq => absurd (heq ▸ hab) (lt_irrefl b.1))
  have hp : m.entries.Perm n.entries := (List.perm_ext_iff_of_nodup (nodup m) (nodup n)).2 hmem
  have he : m.entries = n.entries :=
    hp.eq_of_pairwise (fun a b _ _ hab hba => absurd hba (lt_asymm hab)) m.sorted n.sorted
  cases m; cases n; simpa using he

@[simp] theorem find?_empty (k : K) : (empty : SortedMap K V).find? k = none := rfl

section
variable (m : SortedMap K V)

theorem find?_put (k k' : K) (v : V) :
    (m.put k v).find? k' = if k' = k then some v else m.find? k' := by
  obtain ⟨l, hl⟩ := m
  simp only [put, find?]
  clear hl
  induction l with
  | nil =>
    by_cases h : k = k'
    · simp [putList, h]
    · simp [putList, h, Ne.symm h]
  | cons a rest ih =>
    simp only [putList]
    split
    · by_cases h : k = k'
      · simp [h]
      · simp [h, Ne.symm h]
    · split
      · rename_i hlt
        by_cases ha : a.1 = k'
        · have : k' ≠ k := fun h => absurd hlt (by simp [ha, h])
          simp [ha, this]
        · rw [List.find?_cons_of_neg (by simpa using ha), ih,
            List.find?_cons_of_neg (by simpa using ha)]
      · rename_i h1 h2
        have hka : a.1 = k := le_antisymm (not_lt.1 h1) (not_lt.1 h2)
        by_cases h : k = k'
        · simp [h]
        · simp [h, hka, Ne.symm h]

theorem put_put (k : K) (v v' : V) : (m.put k v).put k v' = m.put k v' := by
  refine ext_find fun k' => ?_
  simp only [find?_put]
  by_cases e : k' = k <;> simp [e]

theorem find?_filterKeys (p : K → Bool) (k : K) :
    (m.filterKeys p).find? k = if p k then m.find? k else none := by
  apply Option.ext
  intro v
  rw [find?_eq_some]
  split
  · rename_i hp
    rw [find?_eq_some]; simp [filterKeys, hp]
  · rename_i hp
    simp [filterKeys, hp]

theorem find?_erase (k k' : K) : (m.erase k).find? k' = if k' = k then none else m.find? k' := by
  rw [erase, find?_filterKeys]
  by_cases h : k' = k <;> simp [h]

theorem find?_mapWith (f : K → V → W) (k : K) : (m.mapWith f).find? k = (m.find? k).map (f k) := by
  obtain ⟨l, hl⟩ := m
  simp only [mapWith, find?]
  clear hl
  induction l with
  | nil => rfl
  | cons a rest ih =>
    by_cases h : a.1 = k
    · simp [h]
    · simp only [List.map_cons]
      rw [List.find?_cons_of_neg (by simpa using h), List.find?_cons_of_neg (by simpa using h)]
      exact ih

theorem find?_modify (k k' : K) (f : V → V) :
    (m.modify k f).find? k' = if k' = k then (m.find? k').map f else m.find? k' := by
  rw [modify, find?_mapWith]
  by_cases h : k' = k <;> simp [h]

theorem find?_insertNew (k k' : K) (v : V) :
    (m.insertNew k v).find? k' =
      if k' = k ∧ m.find? k = none then some v else m.find? k' := by
  unfold insertNew
  cases h : m.find? k with
  | none => simp [find?_put]
  | some w => simp

end

theorem isEmpty_iff {m : SortedMap K V} : m.isEmpty = true ↔ ∀ k, m.find? k = none := by
  obtain ⟨l, hl⟩ := m
  simp only [isEmpty, List.isEmpty_iff]
  constructor
  · rintro rfl k; rfl
  · intro h
    apply List.eq_nil_iff_forall_not_mem.2
    rintro ⟨k, v⟩ hmem
    have found : (⟨l, hl⟩ : SortedMap K V).find? k = some v := find?_eq_some.2 hmem
    rw [h k] at found
    cases found

/-- In a list sorted by key, the first element whose key passes a test is the
least such key. -/
theorem search_eq_some (m : SortedMap K V) (p : K → Bool) (k : K) :
    (m.entries.find? (fun e => p e.1)).map Prod.fst = some k ↔
      k ∈ m.keys ∧ p k = true ∧ ∀ k' ∈ m.keys, p k' = true → k ≤ k' := by
  obtain ⟨l, hl⟩ := m
  simp only [keys]
  induction l with
  | nil => simp
  | cons a rest ih =>
    obtain ⟨ha, hr⟩ := List.pairwise_cons.1 hl
    have least (k' : K) (h : k' ∈ (a :: rest).map Prod.fst) : a.1 ≤ k' := by
      rcases List.mem_cons.1 h with rfl | h
      · exact le_rfl
      · obtain ⟨e, he, rfl⟩ := List.mem_map.1 h
        exact (ha e he).le
    by_cases hp : p a.1 = true
    · rw [List.find?_cons_of_pos (p := fun e : K × V => p e.1) hp]
      simp only [Option.map_some, Option.some.injEq]
      constructor
      · rintro rfl
        exact ⟨by simp, hp, fun k' h _ => least k' h⟩
      · rintro ⟨hk, _, hmin⟩
        exact le_antisymm (least k hk) (hmin a.1 (by simp) hp)
    · rw [List.find?_cons_of_neg (p := fun e : K × V => p e.1) hp, ih hr]
      constructor
      · rintro ⟨hk, hpk, hmin⟩
        refine ⟨by simp only [List.map_cons, List.mem_cons]; exact .inr hk, hpk, fun k' h hp' => ?_⟩
        rcases List.mem_cons.1 h with rfl | h
        · exact absurd hp' hp
        · exact hmin k' h hp'
      · rintro ⟨hk, hpk, hmin⟩
        rcases List.mem_cons.1 hk with rfl | hk
        · exact absurd hpk hp
        · exact ⟨hk, hpk, fun k' h hp' => hmin k' (by simp only [List.map_cons, List.mem_cons]; exact .inr h) hp'⟩

theorem lowerBound_eq_some {m : SortedMap K V} :
    m.lowerBound k = some k' ↔ k' ∈ m.keys ∧ k ≤ k' ∧ ∀ j ∈ m.keys, k ≤ j → k' ≤ j := by
  simpa [lowerBound] using search_eq_some m (fun j => decide (k ≤ j)) k'

theorem upperBound_eq_some {m : SortedMap K V} :
    m.upperBound k = some k' ↔ k' ∈ m.keys ∧ k < k' ∧ ∀ j ∈ m.keys, k < j → k' ≤ j := by
  simpa [upperBound] using search_eq_some m (fun j => decide (k < j)) k'

theorem lowerBound_eq_none {m : SortedMap K V} : m.lowerBound k = none ↔ ∀ j ∈ m.keys, j < k := by
  simp only [lowerBound, Option.map_eq_none_iff, List.find?_eq_none, decide_eq_true_eq, not_le,
    keys, List.mem_map, forall_exists_index, and_imp, forall_apply_eq_imp_iff₂]

theorem upperBound_eq_none {m : SortedMap K V} : m.upperBound k = none ↔ ∀ j ∈ m.keys, j ≤ k := by
  simp only [upperBound, Option.map_eq_none_iff, List.find?_eq_none, decide_eq_true_eq, not_lt,
    keys, List.mem_map, forall_exists_index, and_imp, forall_apply_eq_imp_iff₂]

theorem first?_eq_some {m : SortedMap K V} :
    m.first? = some k ↔ k ∈ m.keys ∧ ∀ j ∈ m.keys, k ≤ j := by
  have h : m.first? = (m.entries.find? (fun _ => true)).map Prod.fst := by
    unfold first?
    cases m.entries <;> rfl
  rw [h, search_eq_some m (fun _ => true) k]
  simp

theorem first?_eq_none {m : SortedMap K V} : m.first? = none ↔ ∀ j, j ∉ m.keys := by
  simp only [first?, Option.map_eq_none_iff, List.head?_eq_none_iff, keys]
  constructor
  · intro h j; simp [h]
  · intro h
    apply List.eq_nil_iff_forall_not_mem.2
    intro e he
    exact h e.1 (List.mem_map.2 ⟨e, he, rfl⟩)

theorem last_eq_some {m : SortedMap K V} :
    m.last? = some (k, v) ↔ m.find? k = some v ∧ ∀ j ∈ m.keys, j ≤ k := by
  rw [find?_eq_some]
  obtain ⟨l, hl⟩ := m
  simp only [last?, keys]
  induction l using List.reverseRecOn with
  | nil => simp
  | append_singleton l a _ =>
    obtain ⟨_, _, hla⟩ := List.pairwise_append.1 hl
    have greatest (e : K × V) (he : e ∈ l ++ [a]) : e.1 ≤ a.1 := by
      rcases List.mem_append.1 he with he | he
      · exact (hla e he a (by simp)).le
      · rw [List.mem_singleton.1 he]
    rw [List.getLast?_concat]
    constructor
    · intro h
      obtain rfl := Option.some.inj h
      refine ⟨by simp, fun j hj => ?_⟩
      obtain ⟨e, he, rfl⟩ := List.mem_map.1 hj
      exact greatest e he
    · rintro ⟨hmem, hmax⟩
      rcases List.mem_append.1 hmem with h | h
      · exact absurd (hla _ h a (by simp)) (not_lt.2 (hmax a.1 (by simp)))
      · rw [List.mem_singleton.1 h]

theorem last_eq_none {m : SortedMap K V} : m.last? = none ↔ ∀ k, m.find? k = none := by
  rw [← isEmpty_iff]
  simp [last?, isEmpty]

theorem predecessor_of_last_lt {m : SortedMap K V} (h : m.last? = some (j, v)) (lt : j < k) :
    m.predecessor? k = some (j, v) := by
  obtain ⟨found, greatest⟩ := last_eq_some.1 h
  refine last_eq_some.2 ⟨by simp [find?_filterKeys, lt, found], fun i hi => ?_⟩
  rw [mem_keys, find?_filterKeys] at hi
  split at hi
  · exact greatest i (mem_keys.2 hi)
  · simp at hi

theorem predecessor_empty {m : SortedMap K V} (h : m.last? = none) (k : K) :
    m.predecessor? k = none := by
  refine last_eq_none.2 fun j => ?_
  simp [find?_filterKeys, last_eq_none.1 h j]

theorem predecessor_eq_some {m : SortedMap K V} :
    m.predecessor? k = some (j, v) ↔
      m.find? j = some v ∧ j < k ∧ ∀ i ∈ m.keys, i < k → i ≤ j := by
  unfold predecessor?
  rw [last_eq_some, find?_filterKeys]
  have keys (i : K) : i ∈ (m.filterKeys (fun k' => decide (k' < k))).keys ↔
      i < k ∧ i ∈ m.keys := by
    rw [mem_keys, mem_keys, find?_filterKeys]
    by_cases lt : i < k <;> simp [lt]
  simp only [keys]
  by_cases lt : j < k
  · simp only [lt, decide_true, if_true, true_and]
    exact and_congr_right fun _ => ⟨fun h i hi below => h i ⟨below, hi⟩, fun h i hi => h i hi.2 hi.1⟩
  · simp [lt]

theorem predecessor_eq_none {m : SortedMap K V} :
    m.predecessor? k = none ↔ ∀ i ∈ m.keys, k ≤ i := by
  unfold predecessor?
  rw [last_eq_none]
  constructor
  · intro h i hi
    by_contra below
    have none_here := h i
    rw [find?_filterKeys, if_pos (by simpa using below)] at none_here
    simp [mem_keys, none_here] at hi
  · intro h i
    rw [find?_filterKeys]
    by_cases below : i < k
    · rw [if_pos (by simpa using below)]
      by_contra found
      exact absurd (h i (mem_keys.2 (Option.isSome_iff_ne_none.2 found))) below.not_ge
    · rw [if_neg (by simpa using below)]

/-- The map with a last element appended. -/
def append (m : SortedMap K V) (k : K) (v : V) (last : ∀ j ∈ m.keys, j < k) : SortedMap K V :=
  ⟨m.entries ++ [(k, v)], by
    refine List.pairwise_append.2 ⟨m.sorted, by simp, fun e he e' he' => ?_⟩
    rw [List.mem_singleton.1 he']
    exact last e.1 (List.mem_map_of_mem he)⟩

theorem entries_append {m : SortedMap K V} (last : ∀ j ∈ m.keys, j < k) :
    (m.append k v last).entries = m.entries ++ [(k, v)] := rfl

theorem find?_append {m : SortedMap K V} (last : ∀ j ∈ m.keys, j < k) (k' : K) :
    (m.append k v last).find? k' = if k' = k then some v else m.find? k' := by
  have missing : m.find? k = none := by
    by_contra present
    exact lt_irrefl _ (last k (mem_keys.2 (Option.isSome_iff_ne_none.2 present)))
  rw [find?, entries_append, List.find?_append, Option.map_or]
  change (m.find? k').or _ = _
  by_cases e : k' = k
  · simp [e, missing]
  · cases m.find? k' <;> simp [e, Ne.symm e]

theorem ext_entries {m n : SortedMap K V} (h : m.entries = n.entries) : m = n := by
  cases m
  cases n
  simpa using h

end SortedMap

end AdServer.Lib
