import AdServer.Lib.SortedMap
import Mathlib.Data.List.Perm.Basic

/-!
# Buckets in order

A map from keys to lists, read from the greatest key down, and loops over it
that stop as soon as they have enough.
-/

namespace AdServer.Lib

section Buckets

variable {K V : Type} [LinearOrder K]

namespace SortedMap

/-- The list of a key, empty when the key is absent. -/
def bucket (m : SortedMap K (List V)) (k : K) : List V := (m.find? k).getD []

/-- `get_or_create(map, key).push_back(x)`. -/
def pushMapped (m : SortedMap K (List V)) (k : K) (x : V) : SortedMap K (List V) :=
  m.put k (m.bucket k ++ [x])

/-- The buckets from the greatest key down. -/
def descending (m : SortedMap K (List V)) : List V :=
  (m.entries.reverse.map Prod.snd).flatten

@[simp] theorem descending_empty : (empty : SortedMap K (List V)).descending = [] := rfl

variable {x : V} {k : K} {l : List V}

theorem mem_descending {m : SortedMap K (List V)} :
    x ∈ m.descending ↔ ∃ k l, m.find? k = some l ∧ x ∈ l := by
  simp only [descending, List.mem_flatten, List.mem_map, List.mem_reverse, find?_eq_some]
  constructor
  · rintro ⟨l, ⟨e, he, rfl⟩, hx⟩
    exact ⟨e.1, e.2, he, hx⟩
  · rintro ⟨k, l, he, hx⟩
    exact ⟨l, ⟨(k, l), he, rfl⟩, hx⟩

/-- The items of a list of buckets. -/
def items (entries : List (K × List V)) : List V := (entries.map Prod.snd).flatten

theorem descending_perm_items (m : SortedMap K (List V)) :
    m.descending.Perm (items m.entries) := by
  rw [descending, List.map_reverse]
  exact (List.reverse_perm _).flatten

theorem items_putList_perm {entries : List (K × List V)}
    (sorted : entries.Pairwise (fun a b => a.1 < b.1))
    (more : l.Perm (x :: ((entries.find? (fun e => e.1 == k)).map Prod.snd).getD [])) :
    (items (putList k l entries)).Perm (x :: items entries) := by
  induction entries with
  | nil => simpa [items, putList] using more
  | cons e rest ih =>
    obtain ⟨above, sorted⟩ := List.pairwise_cons.1 sorted
    rw [putList]
    rcases lt_trichotomy k e.1 with lt | rfl | gt
    · rw [if_pos lt]
      have absent : (e :: rest).find? (fun e => e.1 == k) = none := by
        apply List.find?_eq_none.2
        intro e' he'
        have below : k < e'.1 := by
          cases List.mem_cons.1 he' with
          | inl same => exact same ▸ lt
          | inr later => exact lt.trans (above e' later)
        simp [below.ne']
      rw [absent] at more
      exact more.append_right _
    · rw [if_neg (lt_irrefl _), if_neg (lt_irrefl _)]
      have here : (e :: rest).find? (fun e' => e'.1 == e.1) = some e := by simp
      rw [here] at more
      exact more.append_right _
    · rw [if_neg gt.not_gt, if_pos gt]
      have later : (e :: rest).find? (fun e' => e'.1 == k) = rest.find? (fun e' => e'.1 == k) := by
        simp [gt.ne]
      rw [later] at more
      exact ((ih sorted more).append_left e.2).trans List.perm_middle

theorem descending_put_perm (m : SortedMap K (List V)) (more : l.Perm (x :: m.bucket k)) :
    (m.put k l).descending.Perm (x :: m.descending) := by
  apply (descending_perm_items _).trans
  apply (items_putList_perm m.sorted more).trans
  exact (descending_perm_items m).symm.cons x

theorem descending_push (m : SortedMap K (List V)) (x : V) (least : ∀ k' ∈ m.keys, k ≤ k') :
    (m.pushMapped k x).descending = m.descending ++ [x] := by
  obtain ⟨entries, sorted⟩ := m
  cases entries with
  | nil => rfl
  | cons e rest =>
    have first : k ≤ e.1 := least e.1 (by simp [keys])
    rcases first.lt_or_eq with lt | rfl
    · have absent : (⟨e :: rest, sorted⟩ : SortedMap K (List V)).find? k = none := by
        apply find?_eq_none.2
        intro l mem
        have below : e.1 ≤ k := by
          cases List.mem_cons.1 mem with
          | inl same => exact (congrArg Prod.fst same).ge
          | inr later => exact ((List.pairwise_cons.1 sorted).1 _ later).le
        exact absurd lt below.not_gt
      simp [descending, pushMapped, bucket, absent, put, putList, lt]
    · have here : (⟨e :: rest, sorted⟩ : SortedMap K (List V)).find? e.1 = some e.2 :=
        find?_eq_some.2 List.mem_cons_self
      simp [descending, pushMapped, bucket, here, put, putList]

/-- No bucket is empty. -/
def Filled (m : SortedMap K (List V)) : Prop := ∀ k l, m.find? k = some l → l ≠ []

theorem filled_empty : (empty : SortedMap K (List V)).Filled := by
  intro k l h
  cases h

theorem Filled.pushMapped {m : SortedMap K (List V)} (h : m.Filled) (k : K) (x : V) :
    (m.pushMapped k x).Filled := by
  intro k' l found
  rw [SortedMap.pushMapped, find?_put] at found
  split at found
  · cases found
    exact List.append_ne_nil_of_right_ne_nil _ (List.cons_ne_nil x [])
  · exact h k' l found

theorem Filled.front {m : SortedMap K (List V)} (h : m.Filled) {rest : List V}
    (read : m.descending = x :: rest) : ∃ top, m.last? = some top ∧ top.2.head? = some x := by
  rcases List.eq_nil_or_concat m.entries with none | ⟨init, top, split⟩
  · simp [descending, none] at read
  · have last : m.last? = some top := by simp [last?, split]
    have some : top.2 ≠ [] := h top.1 top.2 (find?_eq_some.2 (by simp [split]))
    obtain ⟨y, ys, bucket⟩ := List.exists_cons_of_ne_nil some
    rw [descending, split] at read
    simp only [List.concat_eq_append, List.reverse_append, List.reverse_cons, List.reverse_nil,
      List.nil_append, List.map_cons, List.flatten_cons, bucket,
      List.cons_append, List.cons.injEq] at read
    exact ⟨top, last, by simp [bucket, read.1]⟩

theorem Filled.isEmpty_iff {m : SortedMap K (List V)} (h : m.Filled) :
    m.isEmpty = true ↔ m.descending = [] := by
  rw [SortedMap.isEmpty_iff]
  constructor
  · intro none
    apply List.eq_nil_iff_forall_not_mem.2
    intro x mem
    obtain ⟨k, l, found, -⟩ := mem_descending.1 mem
    simp [none k] at found
  · intro none k
    cases found : m.find? k with
    | none => rfl
    | some l =>
      obtain ⟨x, mem⟩ := List.exists_mem_of_ne_nil l (h k l found)
      have read : x ∈ m.descending := mem_descending.2 ⟨k, l, found, mem⟩
      simp [none] at read

theorem descending_sorted {m : SortedMap K (List V)} {key : V → K}
    (keyed : ∀ k l, m.find? k = some l → ∀ x ∈ l, key x = k) :
    m.descending.Pairwise (fun a b => key b ≤ key a) := by
  have own : ∀ e ∈ m.entries, ∀ x ∈ e.2, key x = e.1 := fun e he =>
    keyed e.1 e.2 (find?_eq_some.2 he)
  rw [descending, List.pairwise_flatten]
  constructor
  · intro l hl
    obtain ⟨e, he, rfl⟩ := List.mem_map.1 hl
    have mem := List.mem_reverse.1 he
    rw [List.pairwise_iff_forall_sublist]
    intro a b both
    rw [own e mem a (both.subset (by simp)), own e mem b (both.subset (by simp))]
  · rw [List.pairwise_map, List.pairwise_reverse]
    apply m.sorted.imp_of_mem
    intro a b ha hb lt x hx y hy
    rw [own b hb x hx, own a ha y hy]
    exact lt.le

end SortedMap

end Buckets

section RunWhile

variable {X S : Type} (go : S → Bool) (step : X → S → S)

/-- A loop over a list as long as the state says so. -/
def runWhile : List X → S → S
  | [], s => s
  | x :: rest, s => if go s then runWhile rest (step x s) else s

variable {go step}

theorem runWhile_stopped {s : S} (stopped : go s = false) (xs : List X) :
    runWhile go step xs s = s := by
  cases xs with
  | nil => rfl
  | cons x rest => rw [runWhile, stopped, if_neg (by simp)]

theorem runWhile_append (xs ys : List X) (s : S) :
    runWhile go step (xs ++ ys) s = runWhile go step ys (runWhile go step xs s) := by
  induction xs generalizing s with
  | nil => rfl
  | cons x rest ih =>
    cases more : go s with
    | true => simp [runWhile, more, ih]
    | false => simp [runWhile, more, runWhile_stopped more]

theorem runWhile_nested {Y : Type} (f : Y → List X) (ys : List Y) (s : S) :
    runWhile go (fun y s => runWhile go step (f y) s) ys s =
      runWhile go step (ys.flatMap f) s := by
  induction ys generalizing s with
  | nil => rfl
  | cons y rest ih =>
    rw [List.flatMap_cons, runWhile_append]
    cases more : go s with
    | true => rw [runWhile, if_pos more, ih]
    | false => rw [runWhile_stopped more, runWhile_stopped more, runWhile_stopped more]

theorem runWhile_map {Y : Type} (f : Y → X) (ys : List Y) (s : S) :
    runWhile go step (ys.map f) s = runWhile go (fun y => step (f y)) ys s := by
  induction ys generalizing s with
  | nil => rfl
  | cons y rest ih => simp only [List.map_cons, runWhile, ih]

end RunWhile

end AdServer.Lib
