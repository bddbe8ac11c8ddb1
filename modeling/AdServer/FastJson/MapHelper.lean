import Mathlib.Data.List.TakeDrop
import Mathlib.Data.List.TakeWhile
import Mathlib.Order.Lattice

/-!
# The map of the JSON parser

A map that keeps one element by itself, up to seven in a sorted vector, and more
in a hash table. A key that is there already keeps its value.
-/

namespace AdServer.FastJson

variable {K V : Type} [LinearOrder K] [BEq K] [LawfulBEq K]

/-- What a `MapHelper` holds, by its mode. The one element is missing only before
the first `emplace`. -/
inductive Storage (K V : Type) where
  | single (element : Option (K × V))
  | vector (elements : List (K × V))
  | hash (elements : List (K × V))

def hashStorageMinSize : Nat := 8

/-- `unordered_map::emplace`. -/
def hashEmplace (key : K) (value : V) (elements : List (K × V)) : List (K × V) :=
  if (elements.lookup key).isSome then elements else (key, value) :: elements

/-- What comes before the first key that is not below, and the rest. -/
def lowerBound (key : K) (elements : List (K × V)) : List (K × V) × List (K × V) :=
  elements.span fun element => decide (element.1 < key)

def emplaceVector (key : K) (value : V) (elements : List (K × V)) : Storage K V :=
  if elements.length + 1 < hashStorageMinSize then
    let place := lowerBound key elements
    if place.2.head?.any fun element => element.1 = key then .vector elements
    else .vector (place.1 ++ (key, value) :: place.2)
  else
    let hashed := elements.foldl (fun table element => hashEmplace element.1 element.2 table) []
    .hash (hashEmplace key value hashed)

/-- `MapHelper::emplace`. -/
def Storage.emplace (key : K) (value : V) : Storage K V → Storage K V
  | .single none => .single (some (key, value))
  | .single (some first) =>
    if first.1 = key then .single (some first) else emplaceVector key value [first]
  | .vector elements => emplaceVector key value elements
  | .hash elements => .hash (hashEmplace key value elements)

/-- `MapHelper::find`. -/
def Storage.find (key : K) : Storage K V → Option V
  | .single element => (element.filter fun element => element.1 = key).map (·.2)
  | .vector elements =>
    ((lowerBound key elements).2.head?.filter fun element => element.1 = key).map (·.2)
  | .hash elements => elements.lookup key

/-- The keys of the vector increase. -/
def Storage.Ordered : Storage K V → Prop
  | .single _ => True
  | .vector elements => elements.Pairwise fun a b => a.1 < b.1
  | .hash _ => True

structure MapHelper (K V : Type) [LinearOrder K] where
  storage : Storage K V
  ordered : storage.Ordered

omit [BEq K] [LawfulBEq K] in
theorem lowerBound_eq (key : K) (elements : List (K × V)) :
    lowerBound key elements = (elements.takeWhile fun element => decide (element.1 < key),
      elements.dropWhile fun element => decide (element.1 < key)) :=
  List.span_eq_takeWhile_dropWhile _ _

omit [BEq K] [LawfulBEq K] in
theorem lowerBound_append (key : K) (elements : List (K × V)) :
    (lowerBound key elements).1 ++ (lowerBound key elements).2 = elements := by
  rw [lowerBound_eq]
  exact List.takeWhile_append_dropWhile

theorem lookup_first (key : K) (first : K × V) (rest : List (K × V)) :
    (first :: rest).lookup key = if key = first.1 then some first.2 else rest.lookup key := by
  obtain ⟨firstKey, firstValue⟩ := first
  rw [List.lookup_cons]
  by_cases here : key = firstKey
  · simp [here]
  · rw [beq_false_of_ne here, if_neg here]

variable {key : K} {storage : Storage K V} {value : V}

theorem lookup_of_all_lt {elements : List (K × V)} (below : ∀ element ∈ elements, element.1 < key) :
    elements.lookup key = none := by
  rw [List.lookup_eq_none_iff]
  intro element member
  simpa using (below element member).ne'

theorem lookup_of_all_gt {elements : List (K × V)} (above : ∀ element ∈ elements, key < element.1) :
    elements.lookup key = none := by
  rw [List.lookup_eq_none_iff]
  intro element member
  simpa using (above element member).ne

omit [BEq K] [LawfulBEq K] in
theorem lt_of_mem_before {elements : List (K × V)} {element : K × V}
    (before : element ∈ (lowerBound key elements).1) : element.1 < key := by
  rw [lowerBound_eq] at before
  simpa using List.mem_takeWhile_imp before

theorem find_lowerBound {elements : List (K × V)} (key : K)
    (ordered : elements.Pairwise fun a b => a.1 < b.1) :
    ((lowerBound key elements).2.head?.filter fun element => element.1 = key).map (·.2) =
      elements.lookup key := by
  induction elements with
  | nil => rfl
  | cons first rest ih =>
    obtain ⟨above, ordered⟩ := List.pairwise_cons.1 ordered
    have ih := ih ordered
    rw [lowerBound_eq] at ih ⊢
    rw [lookup_first]
    rcases lt_trichotomy first.1 key with below | here | above'
    · simpa [List.dropWhile_cons, below, below.ne'] using ih
    · simp [here, Option.filter_some]
    · have later : rest.lookup key = none :=
        lookup_of_all_gt fun element member => above'.trans (above element member)
      simp [not_lt.2 above'.le, above'.ne', above'.ne, later]

/-- All the elements, however they are kept. -/
def Storage.elements : Storage K V → List (K × V)
  | .single element => element.toList
  | .vector elements => elements
  | .hash elements => elements

theorem find_eq_lookup (ordered : storage.Ordered) (key : K) :
    storage.find key = storage.elements.lookup key := by
  cases storage with
  | single element =>
    cases element with
    | none => rfl
    | some element =>
      simp only [Storage.find, Storage.elements, Option.toList, lookup_first, Option.filter_some]
      by_cases here : element.1 = key
      · simp [here]
      · simp [here, Ne.symm here]
  | vector elements => exact find_lowerBound key ordered
  | hash elements => rfl

/-- The key has its old value, or else the new one; other keys keep theirs. -/
def FirstWins (key : K) (value : V) (before after : List (K × V)) : Prop :=
  ∀ k, after.lookup k = if k = key then some ((before.lookup key).getD value)
    else before.lookup k

theorem firstWins_cons {elements : List (K × V)} (absent : elements.lookup key = none) :
    FirstWins key value elements ((key, value) :: elements) := by
  intro k
  rw [lookup_first, absent, Option.getD_none]

omit [LawfulBEq K] in
theorem firstWins_refl {value found : V} {elements : List (K × V)}
    (present : elements.lookup key = some found) : FirstWins key value elements elements := by
  intro k
  by_cases here : k = key
  · simp [here, present]
  · simp [here]

theorem firstWins_hashEmplace (key : K) (value : V) (elements : List (K × V)) :
    FirstWins key value elements (hashEmplace key value elements) := by
  rw [hashEmplace]
  cases found : elements.lookup key with
  | none => simpa using firstWins_cons found
  | some value' => simpa using firstWins_refl found

theorem firstWins_insert {elements : List (K × V)} (absent : elements.lookup key = none) :
    FirstWins key value elements
      ((lowerBound key elements).1 ++ (key, value) :: (lowerBound key elements).2) := by
  have before : (lowerBound key elements).1.lookup key = none :=
    lookup_of_all_lt fun _ member => lt_of_mem_before member
  intro k
  rw [List.lookup_append]
  by_cases here : k = key
  · simp [here, before, lookup_first, absent]
  · have parts := congrArg (List.lookup k) (lowerBound_append key elements)
    rw [List.lookup_append] at parts
    simpa [here, lookup_first] using parts

theorem lookup_foldl_hashEmplace (elements table : List (K × V)) (key : K) :
    (elements.foldl (fun table element => hashEmplace element.1 element.2 table) table).lookup key =
      (table.lookup key).or (elements.lookup key) := by
  induction elements generalizing table with
  | nil => simp
  | cons first rest ih =>
    rw [List.foldl_cons, ih, firstWins_hashEmplace first.1 first.2 table key, lookup_first]
    by_cases here : key = first.1
    · cases found : table.lookup first.1 <;> simp [here, found]
    · simp [here]

theorem pairwise_insert {elements : List (K × V)} (ordered : elements.Pairwise fun a b => a.1 < b.1)
    (absent : elements.lookup key = none) :
    ((lowerBound key elements).1 ++ (key, value) :: (lowerBound key elements).2).Pairwise
      fun a b => a.1 < b.1 := by
  have distinct : ∀ element ∈ elements, element.1 ≠ key := by
    intro element member same
    have := List.lookup_eq_none_iff.1 absent element member
    simp [same] at this
  induction elements with
  | nil => simp [lowerBound_eq]
  | cons first rest ih =>
    obtain ⟨above, ordered⟩ := List.pairwise_cons.1 ordered
    have rest_absent : rest.lookup key = none := by
      rw [List.lookup_eq_none_iff]
      intro element member
      simpa using (distinct element (List.mem_cons_of_mem _ member)).symm
    have ih := ih ordered rest_absent fun element member =>
      distinct element (List.mem_cons_of_mem _ member)
    have parts := lowerBound_append key rest
    by_cases below : first.1 < key
    · have place : lowerBound key (first :: rest) =
          (first :: (lowerBound key rest).1, (lowerBound key rest).2) := by
        simp [lowerBound_eq, below]
      rw [place, List.cons_append]
      refine List.pairwise_cons.2 ⟨?_, ih⟩
      intro element member
      rcases List.mem_append.1 member with early | late
      · exact above element (parts ▸ List.mem_append_left _ early)
      · rcases List.mem_cons.1 late with rfl | late
        · exact below
        · exact above element (parts ▸ List.mem_append_right _ late)
    · have place : lowerBound key (first :: rest) = ([], first :: rest) := by
        simp [lowerBound_eq, below]
      have low : key < first.1 :=
        lt_of_le_of_ne (not_lt.1 below) (distinct first List.mem_cons_self).symm
      rw [place]
      refine List.pairwise_cons.2 ⟨?_, List.pairwise_cons.2 ⟨above, ordered⟩⟩
      intro element member
      rcases List.mem_cons.1 member with rfl | later
      · exact low
      · exact low.trans (above element later)

theorem any_lowerBound {elements : List (K × V)} (key : K)
    (ordered : elements.Pairwise fun a b => a.1 < b.1) :
    ((lowerBound key elements).2.head?.any fun element => element.1 = key) =
      (elements.lookup key).isSome := by
  rw [← find_lowerBound key ordered]
  cases (lowerBound key elements).2.head? with
  | none => rfl
  | some element => by_cases here : element.1 = key <;> simp [here]

theorem emplaceVector_spec {elements : List (K × V)} (key : K) (value : V)
    (ordered : elements.Pairwise fun a b => a.1 < b.1) :
    (emplaceVector key value elements).Ordered ∧
      FirstWins key value elements (emplaceVector key value elements).elements := by
  simp only [emplaceVector, any_lowerBound key ordered]
  split
  · cases found : elements.lookup key with
    | some value' => exact ⟨ordered, firstWins_refl found⟩
    | none => exact ⟨pairwise_insert ordered found, firstWins_insert found⟩
  · refine ⟨trivial, fun k => ?_⟩
    simp only [Storage.elements, firstWins_hashEmplace key value _ k, lookup_foldl_hashEmplace,
      List.lookup_nil, Option.none_or]

theorem emplace_spec (ordered : storage.Ordered) (key : K) (value : V) :
    (storage.emplace key value).Ordered ∧
      FirstWins key value storage.elements (storage.emplace key value).elements := by
  cases storage with
  | single element =>
    cases element with
    | none => exact ⟨trivial, firstWins_cons rfl⟩
    | some first =>
      by_cases here : first.1 = key
      · rw [Storage.emplace, if_pos here]
        have present : ([first] : List (K × V)).lookup key = some first.2 := by
          simp [lookup_first, here]
        exact ⟨trivial, firstWins_refl present⟩
      · rw [Storage.emplace, if_neg here]
        exact emplaceVector_spec key value (List.pairwise_singleton _ _)
  | vector elements => exact emplaceVector_spec key value ordered
  | hash elements => exact ⟨trivial, firstWins_hashEmplace key value elements⟩

namespace MapHelper

def empty : MapHelper K V := ⟨.single none, trivial⟩

def emplace (key : K) (value : V) (map : MapHelper K V) : MapHelper K V :=
  ⟨map.storage.emplace key value, (emplace_spec map.ordered key value).1⟩

def find (key : K) (map : MapHelper K V) : Option V := map.storage.find key

/-- The map that elements make, put in one after another. -/
def ofElements (elements : List (K × V)) : MapHelper K V :=
  elements.foldl (fun map element => map.emplace element.1 element.2) empty

theorem find_emplace (key k : K) (value : V) (map : MapHelper K V) :
    (map.emplace key value).find k =
      if k = key then some ((map.find key).getD value) else map.find k := by
  have wins := (emplace_spec map.ordered key value).2
  simp only [find, find_eq_lookup map.ordered,
    find_eq_lookup (map.emplace key value).ordered]
  exact wins k

theorem find_foldl (elements : List (K × V)) (map : MapHelper K V) (key : K) :
    (elements.foldl (fun map element => map.emplace element.1 element.2) map).find key =
      (map.find key).or (elements.lookup key) := by
  induction elements generalizing map with
  | nil => simp
  | cons first rest ih =>
    rw [List.foldl_cons, ih, find_emplace, lookup_first]
    by_cases here : key = first.1
    · cases found : map.find first.1 <;> simp [here, found]
    · simp [here]

theorem find_ofElements (elements : List (K × V)) (key : K) :
    (ofElements elements).find key = elements.lookup key := by
  rw [ofElements, find_foldl]
  rfl

end MapHelper

end AdServer.FastJson
