import Mathlib.Algebra.GroupWithZero.Nat
import Mathlib.Data.List.Basic
import Mathlib.Order.Lattice

/-!
# Merging lists that are sorted by a key

Two lists whose keys increase strictly are merged into one, elements of one key
becoming one; and binary search in a list that is sorted.
-/

namespace AdServer.Lib

section MergeUnique

variable {A B C K : Type} [LinearOrder K] (keyA : A → K) (keyB : B → K) (left : A → C)
  (right : B → C) (both : A → B → C)

/-- The elements of the second list up to the place of `a`; `rest` merges what
follows `a`. -/
def mergeAt (a : A) (alone : List C) (rest : List B → List C) : List B → List C
  | [] => alone
  | b :: bs =>
    if keyA a < keyB b then left a :: rest (b :: bs)
    else if keyB b < keyA a then right b :: mergeAt a alone rest bs
    else both a b :: rest bs

/-- Merges by key; elements of the two lists with one key are put together. -/
def mergeUnique : List A → List B → List C
  | [], bs => bs.map right
  | a :: as, bs => mergeAt keyA keyB left right both a ((a :: as).map left) (mergeUnique as) bs

variable {keyA keyB left right both}

@[simp] theorem mergeUnique_nil (bs : List B) :
    mergeUnique keyA keyB left right both [] bs = bs.map right := rfl

@[simp] theorem mergeUnique_cons_nil (a : A) (as : List A) :
    mergeUnique keyA keyB left right both (a :: as) [] = (a :: as).map left := rfl

theorem mergeUnique_nil_right (as : List A) :
    mergeUnique keyA keyB left right both as [] = as.map left := by
  cases as <;> rfl

section
variable {a : A} {as : List A} {b : B} {bs : List B}

theorem mergeUnique_cons_lt (lt : keyA a < keyB b) :
    mergeUnique keyA keyB left right both (a :: as) (b :: bs) =
      left a :: mergeUnique keyA keyB left right both as (b :: bs) := if_pos lt

theorem mergeUnique_cons_gt (lt : keyB b < keyA a) :
    mergeUnique keyA keyB left right both (a :: as) (b :: bs) =
      right b :: mergeUnique keyA keyB left right both (a :: as) bs :=
  (if_neg lt.not_gt).trans (if_pos lt)

theorem mergeUnique_cons_same (same : keyA a = keyB b) :
    mergeUnique keyA keyB left right both (a :: as) (b :: bs) =
      both a b :: mergeUnique keyA keyB left right both as bs :=
  (if_neg same.not_lt).trans (if_neg same.not_gt)

end

variable (keyA keyB) in
theorem mergeUnique_induction {motive : List A → List B → Prop} (nil : ∀ bs, motive [] bs)
    (cons_nil : ∀ a as, motive (a :: as) [])
    (first : ∀ a as b bs, keyA a < keyB b → motive as (b :: bs) → motive (a :: as) (b :: bs))
    (second : ∀ a as b bs, keyB b < keyA a → motive (a :: as) bs → motive (a :: as) (b :: bs))
    (same : ∀ a as b bs, keyA a = keyB b → motive as bs → motive (a :: as) (b :: bs))
    (as : List A) (bs : List B) : motive as bs := by
  induction as generalizing bs with
  | nil => exact nil bs
  | cons a as ihA =>
    induction bs with
    | nil => exact cons_nil a as
    | cons b bs ihB =>
      obtain lt | eq | lt := lt_trichotomy (keyA a) (keyB b)
      · exact first a as b bs lt (ihA (b :: bs))
      · exact same a as b bs eq (ihA bs)
      · exact second a as b bs lt ihB

variable {as : List A} {bs : List B}

theorem lt_of_lt_head {k : K} {a : A} (sorted : (a :: as).Pairwise (fun a a' => keyA a < keyA a'))
    (lt : k < keyA a) : ∀ a' ∈ a :: as, k < keyA a' := by
  intro a' mem
  cases List.mem_cons.1 mem with
  | inl head => rwa [head]
  | inr tail => exact lt.trans ((List.pairwise_cons.1 sorted).1 a' tail)

/-- An element comes from the left alone, from the right alone, or from both. -/
theorem mem_mergeUnique (sortedA : as.Pairwise (fun a a' => keyA a < keyA a'))
    (sortedB : bs.Pairwise (fun b b' => keyB b < keyB b')) {c : C}
    (mem : c ∈ mergeUnique keyA keyB left right both as bs) :
    (∃ a ∈ as, c = left a ∧ ∀ b ∈ bs, keyA a ≠ keyB b) ∨
      (∃ b ∈ bs, c = right b ∧ ∀ a ∈ as, keyA a ≠ keyB b) ∨
      ∃ a ∈ as, ∃ b ∈ bs, keyA a = keyB b ∧ c = both a b := by
  induction as, bs using mergeUnique_induction keyA keyB with
  | nil bs =>
    obtain ⟨b, inB, rfl⟩ := List.mem_map.1 mem
    exact Or.inr (Or.inl ⟨b, inB, rfl, by simp⟩)
  | cons_nil a as =>
    obtain ⟨a', inA, rfl⟩ := List.mem_map.1 mem
    exact Or.inl ⟨a', inA, rfl, by simp⟩
  | first a as b bs lt ih =>
    have tailA := (List.pairwise_cons.1 sortedA).2
    have below := lt_of_lt_head sortedB lt
    rw [mergeUnique_cons_lt lt] at mem
    obtain rfl | later := List.mem_cons.1 mem
    · exact Or.inl ⟨a, by simp, rfl, fun b' inB => (below b' inB).ne⟩
    · obtain ⟨a', inA, eq, no⟩ | ⟨b', inB, eq, no⟩ | ⟨a', inA, b', inB, same, eq⟩ :=
        ih tailA sortedB later
      · exact Or.inl ⟨a', by simp [inA], eq, no⟩
      · refine Or.inr (Or.inl ⟨b', inB, eq, fun a' inA => ?_⟩)
        obtain rfl | inA := List.mem_cons.1 inA
        · exact (below b' inB).ne
        · exact no a' inA
      · exact Or.inr (Or.inr ⟨a', by simp [inA], b', inB, same, eq⟩)
  | second a as b bs lt ih =>
    have tailB := (List.pairwise_cons.1 sortedB).2
    have below := lt_of_lt_head sortedA lt
    rw [mergeUnique_cons_gt lt] at mem
    obtain rfl | later := List.mem_cons.1 mem
    · exact Or.inr (Or.inl ⟨b, by simp, rfl, fun a' inA => (below a' inA).ne'⟩)
    · obtain ⟨a', inA, eq, no⟩ | ⟨b', inB, eq, no⟩ | ⟨a', inA, b', inB, same, eq⟩ :=
        ih sortedA tailB later
      · refine Or.inl ⟨a', inA, eq, fun b' inB => ?_⟩
        obtain rfl | inB := List.mem_cons.1 inB
        · exact (below a' inA).ne'
        · exact no b' inB
      · exact Or.inr (Or.inl ⟨b', by simp [inB], eq, no⟩)
      · exact Or.inr (Or.inr ⟨a', inA, b', by simp [inB], same, eq⟩)
  | same a as b bs same ih =>
    obtain ⟨headA, tailA⟩ := List.pairwise_cons.1 sortedA
    obtain ⟨headB, tailB⟩ := List.pairwise_cons.1 sortedB
    rw [mergeUnique_cons_same same] at mem
    obtain rfl | later := List.mem_cons.1 mem
    · exact Or.inr (Or.inr ⟨a, by simp, b, by simp, same, rfl⟩)
    · obtain ⟨a', inA, eq, no⟩ | ⟨b', inB, eq, no⟩ | ⟨a', inA, b', inB, same', eq⟩ :=
        ih tailA tailB later
      · refine Or.inl ⟨a', by simp [inA], eq, fun b' inB => ?_⟩
        obtain rfl | inB := List.mem_cons.1 inB
        · exact (same.symm.trans_lt (headA a' inA)).ne'
        · exact no b' inB
      · refine Or.inr (Or.inl ⟨b', by simp [inB], eq, fun a' inA => ?_⟩)
        obtain rfl | inA := List.mem_cons.1 inA
        · exact (same.trans_lt (headB b' inB)).ne
        · exact no a' inA
      · exact Or.inr (Or.inr ⟨a', by simp [inA], b', by simp [inB], same', eq⟩)

section Keys

variable {keyC : C → K} (keyLeft : ∀ a, keyC (left a) = keyA a)
  (keyRight : ∀ b, keyC (right b) = keyB b)
  (keyBoth : ∀ a b, keyA a = keyB b → keyC (both a b) = keyB b)

include keyLeft keyRight keyBoth

variable {as : List A} {bs : List B}

theorem mem_keys_mergeUnique {k : K} :
    k ∈ (mergeUnique keyA keyB left right both as bs).map keyC ↔
      k ∈ as.map keyA ∨ k ∈ bs.map keyB := by
  induction as, bs using mergeUnique_induction keyA keyB with
  | nil bs => simp [keyRight]
  | cons_nil a as => simp [keyLeft]
  | first a as b bs lt ih =>
    rw [mergeUnique_cons_lt lt, List.map_cons, List.mem_cons, ih, keyLeft, List.map_cons (l := as),
      List.mem_cons]
    tauto
  | second a as b bs lt ih =>
    rw [mergeUnique_cons_gt lt, List.map_cons, List.mem_cons, ih, keyRight,
      List.map_cons (l := bs), List.mem_cons (l := bs.map keyB)]
    tauto
  | same a as b bs same ih =>
    rw [mergeUnique_cons_same same, List.map_cons, List.mem_cons, ih,
      keyBoth a b same, List.map_cons, List.mem_cons, List.map_cons, List.mem_cons, same]
    tauto

theorem pairwise_mergeUnique_of {r : K → K → Prop} (trans : ∀ {k l m}, r k l → r l m → r k m)
    (of_lt : ∀ {k l}, k < l → r k l) (sortedA : as.Pairwise (fun a a' => r (keyA a) (keyA a')))
    (sortedB : bs.Pairwise (fun b b' => r (keyB b) (keyB b'))) :
    (mergeUnique keyA keyB left right both as bs).Pairwise (fun c c' => r (keyC c) (keyC c')) := by
  -- what comes after a head has a key of one of the two rests
  have later {as : List A} {bs : List B} {k : K} (aboveA : ∀ a ∈ as, r k (keyA a))
      (aboveB : ∀ b ∈ bs, r k (keyB b)) {c : C}
      (mem : c ∈ mergeUnique keyA keyB left right both as bs) : r k (keyC c) := by
    have key := (mem_keys_mergeUnique keyLeft keyRight keyBoth).1 (List.mem_map_of_mem mem)
    obtain inA | inB := key
    · obtain ⟨a, mem, eq⟩ := List.mem_map.1 inA
      exact eq ▸ aboveA a mem
    · obtain ⟨b, mem, eq⟩ := List.mem_map.1 inB
      exact eq ▸ aboveB b mem
  have below_head {D : Type} {key : D → K} {k : K} {d : D} {ds : List D}
      (sorted : (d :: ds).Pairwise (fun d d' => r (key d) (key d'))) (below : r k (key d)) :
      ∀ d' ∈ d :: ds, r k (key d') := by
    intro d' mem
    obtain rfl | tail := List.mem_cons.1 mem
    · exact below
    · exact trans below ((List.pairwise_cons.1 sorted).1 d' tail)
  induction as, bs using mergeUnique_induction keyA keyB with
  | nil bs =>
    rw [mergeUnique_nil, List.pairwise_map]
    simpa only [keyRight] using sortedB
  | cons_nil a as =>
    rw [mergeUnique_cons_nil, List.pairwise_map]
    simpa only [keyLeft] using sortedA
  | first a as b bs lt ih =>
    obtain ⟨headA, tailA⟩ := List.pairwise_cons.1 sortedA
    rw [mergeUnique_cons_lt lt, List.pairwise_cons]
    refine ⟨fun c mem => ?_, ih tailA sortedB⟩
    rw [keyLeft]
    exact later headA (below_head sortedB (of_lt lt)) mem
  | second a as b bs lt ih =>
    obtain ⟨headB, tailB⟩ := List.pairwise_cons.1 sortedB
    rw [mergeUnique_cons_gt lt, List.pairwise_cons]
    refine ⟨fun c mem => ?_, ih sortedA tailB⟩
    rw [keyRight]
    exact later (below_head sortedA (of_lt lt)) headB mem
  | same a as b bs same ih =>
    obtain ⟨headA, tailA⟩ := List.pairwise_cons.1 sortedA
    obtain ⟨headB, tailB⟩ := List.pairwise_cons.1 sortedB
    rw [mergeUnique_cons_same same, List.pairwise_cons]
    refine ⟨fun c mem => ?_, ih tailA tailB⟩
    rw [keyBoth a b same]
    exact later (fun a' inA => same ▸ headA a' inA) headB mem

theorem pairwise_mergeUnique (sortedA : as.Pairwise (fun a a' => keyA a < keyA a'))
    (sortedB : bs.Pairwise (fun b b' => keyB b < keyB b')) :
    (mergeUnique keyA keyB left right both as bs).Pairwise (fun c c' => keyC c < keyC c') :=
  pairwise_mergeUnique_of keyLeft keyRight keyBoth (r := (· < ·)) lt_trans id sortedA sortedB

theorem pairwise_le_mergeUnique (sortedA : as.Pairwise (fun a a' => keyA a ≤ keyA a'))
    (sortedB : bs.Pairwise (fun b b' => keyB b ≤ keyB b')) :
    (mergeUnique keyA keyB left right both as bs).Pairwise (fun c c' => keyC c ≤ keyC c') :=
  pairwise_mergeUnique_of keyLeft keyRight keyBoth (r := (· ≤ ·)) le_trans le_of_lt sortedA sortedB

/-- Of lists sorted by key, the elements of one key are merged among themselves. -/
theorem filter_mergeUnique (k : K) (sortedA : as.Pairwise (fun a a' => keyA a ≤ keyA a'))
    (sortedB : bs.Pairwise (fun b b' => keyB b ≤ keyB b')) :
    (mergeUnique keyA keyB left right both as bs).filter (fun c => keyC c = k) =
      mergeUnique keyA keyB left right both (as.filter (fun a => keyA a = k))
        (bs.filter (fun b => keyB b = k)) := by
  have none_left {D : Type} {key : D → K} {d : D} {ds : List D}
      (sorted : (d :: ds).Pairwise (fun d d' => key d ≤ key d')) (lt : k < key d) :
      (d :: ds).filter (fun d => key d = k) = [] := by
    rw [List.filter_eq_nil_iff]
    intro d' mem
    obtain rfl | tail := List.mem_cons.1 mem
    · simpa using lt.ne'
    · simpa using (lt.trans_le ((List.pairwise_cons.1 sorted).1 d' tail)).ne'
  induction as, bs using mergeUnique_induction keyA keyB with
  | nil bs =>
    rw [List.filter_nil, mergeUnique_nil, mergeUnique_nil, List.filter_map]
    congr 2
    funext b
    simp [keyRight]
  | cons_nil a as =>
    rw [List.filter_nil, mergeUnique_nil_right, mergeUnique_nil_right, List.filter_map]
    congr 2
    funext a
    simp [keyLeft]
  | first a as b bs lt ih =>
    have step := ih (List.pairwise_cons.1 sortedA).2 sortedB
    rw [mergeUnique_cons_lt lt]
    by_cases is_k : keyA a = k
    · rw [none_left sortedB (is_k ▸ lt)] at step ⊢
      rw [List.filter_cons_of_pos (by simpa [keyLeft] using is_k), step,
        List.filter_cons_of_pos (by simpa using is_k), mergeUnique_nil_right,
        mergeUnique_nil_right, List.map_cons]
    · rw [List.filter_cons_of_neg (by simpa [keyLeft] using is_k), step,
        List.filter_cons_of_neg (a := a) (by simpa using is_k)]
  | second a as b bs lt ih =>
    have step := ih sortedA (List.pairwise_cons.1 sortedB).2
    rw [mergeUnique_cons_gt lt]
    by_cases is_k : keyB b = k
    · rw [none_left sortedA (is_k ▸ lt)] at step ⊢
      rw [List.filter_cons_of_pos (by simpa [keyRight] using is_k), step,
        List.filter_cons_of_pos (by simpa using is_k), mergeUnique_nil, mergeUnique_nil,
        List.map_cons]
    · rw [List.filter_cons_of_neg (by simpa [keyRight] using is_k), step,
        List.filter_cons_of_neg (a := b) (by simpa using is_k)]
  | same a as b bs same ih =>
    have step := ih (List.pairwise_cons.1 sortedA).2 (List.pairwise_cons.1 sortedB).2
    rw [mergeUnique_cons_same same]
    by_cases is_k : keyB b = k
    · rw [List.filter_cons_of_pos (by simpa [keyBoth a b same] using is_k), step,
        List.filter_cons_of_pos (by simpa [same] using is_k),
        List.filter_cons_of_pos (by simpa using is_k), mergeUnique_cons_same same]
    · rw [List.filter_cons_of_neg (by simpa [keyBoth a b same] using is_k), step,
        List.filter_cons_of_neg (by simpa [same] using is_k),
        List.filter_cons_of_neg (by simpa using is_k)]

end Keys

theorem mergeUnique_same (k : K) (sameA : ∀ a ∈ as, keyA a = k) (sameB : ∀ b ∈ bs, keyB b = k)
    (lengths : as.length = bs.length) :
    mergeUnique keyA keyB left right both as bs = List.zipWith both as bs := by
  induction as generalizing bs with
  | nil =>
    obtain rfl := List.length_eq_zero_iff.1 lengths.symm
    rfl
  | cons a as ih =>
    cases bs with
    | nil => simp at lengths
    | cons b bs =>
      have a_k := sameA a (by simp)
      have b_k := sameB b (by simp)
      have rest := @ih bs (fun a' mem => sameA a' (by simp [mem]))
        (fun b' mem => sameB b' (by simp [mem])) (by simpa using lengths)
      rw [mergeUnique_cons_same (a_k.trans b_k.symm), rest, List.zipWith_cons_cons]

/-- What holds of all that is put into the merged list holds in it, in whatever
order the lists are. -/
theorem forall_mergeUnique {P : C → Prop} (ofLeft : ∀ a ∈ as, P (left a))
    (ofRight : ∀ b ∈ bs, P (right b))
    (ofBoth : ∀ a ∈ as, ∀ b ∈ bs, keyA a = keyB b → P (both a b)) :
    ∀ c ∈ mergeUnique keyA keyB left right both as bs, P c := by
  induction as, bs using mergeUnique_induction keyA keyB with
  | nil bs =>
    intro c mem
    obtain ⟨b, inB, rfl⟩ := List.mem_map.1 mem
    exact ofRight b inB
  | cons_nil a as =>
    intro c mem
    obtain ⟨a', inA, rfl⟩ := List.mem_map.1 mem
    exact ofLeft a' inA
  | first a as b bs lt ih =>
    have rest := ih (fun a' mem => ofLeft a' (by simp [mem])) ofRight
      (fun a' mem => ofBoth a' (by simp [mem]))
    rw [mergeUnique_cons_lt lt, List.forall_mem_cons]
    exact ⟨ofLeft a (by simp), rest⟩
  | second a as b bs lt ih =>
    have rest := ih ofLeft (fun b' mem => ofRight b' (by simp [mem]))
      (fun a' mem b' mem' => ofBoth a' mem b' (by simp [mem']))
    rw [mergeUnique_cons_gt lt, List.forall_mem_cons]
    exact ⟨ofRight b (by simp), rest⟩
  | same a as b bs same ih =>
    have rest := ih (fun a' mem => ofLeft a' (by simp [mem]))
      (fun b' mem => ofRight b' (by simp [mem]))
      (fun a' mem b' mem' => ofBoth a' (by simp [mem]) b' (by simp [mem']))
    rw [mergeUnique_cons_same same, List.forall_mem_cons]
    exact ⟨ofBoth a (by simp) b (by simp) same, rest⟩

theorem mergeUnique_congr {left' : A → C} {right' : B → C} {both' : A → B → C}
    (sameLeft : ∀ a ∈ as, left a = left' a) (sameRight : ∀ b ∈ bs, right b = right' b)
    (sameBoth : ∀ a ∈ as, ∀ b ∈ bs, keyA a = keyB b → both a b = both' a b) :
    mergeUnique keyA keyB left right both as bs = mergeUnique keyA keyB left' right' both' as bs := by
  induction as, bs using mergeUnique_induction keyA keyB with
  | nil bs => exact List.map_congr_left sameRight
  | cons_nil a as => exact List.map_congr_left sameLeft
  | first a as b bs lt ih =>
    rw [mergeUnique_cons_lt lt, mergeUnique_cons_lt lt, sameLeft a (by simp)]
    rw [ih (fun a' mem => sameLeft a' (by simp [mem])) sameRight
      fun a' mem => sameBoth a' (by simp [mem])]
  | second a as b bs lt ih =>
    rw [mergeUnique_cons_gt lt, mergeUnique_cons_gt lt, sameRight b (by simp)]
    rw [ih sameLeft (fun b' mem => sameRight b' (by simp [mem]))
      fun a' memA b' mem => sameBoth a' memA b' (by simp [mem])]
  | same a as b bs same ih =>
    rw [mergeUnique_cons_same same, mergeUnique_cons_same same,
      sameBoth a (by simp) b (by simp) same]
    rw [ih (fun a' mem => sameLeft a' (by simp [mem])) (fun b' mem => sameRight b' (by simp [mem]))
      fun a' memA b' mem => sameBoth a' (by simp [memA]) b' (by simp [mem])]

/-- A measure that adds up where elements are put together adds up over the lists,
in whatever order they are. -/
theorem sum_mergeUnique {f : C → Nat} (adds : ∀ a ∈ as, ∀ b ∈ bs, keyA a = keyB b →
      f (both a b) = f (left a) + f (right b)) :
    ((mergeUnique keyA keyB left right both as bs).map f).sum =
      (as.map fun a => f (left a)).sum + (bs.map fun b => f (right b)).sum := by
  induction as, bs using mergeUnique_induction keyA keyB with
  | nil bs => simp [Function.comp_def]
  | cons_nil a as => simp [Function.comp_def]
  | first a as b bs lt ih =>
    have rest := ih fun a' mem => adds a' (by simp [mem])
    rw [mergeUnique_cons_lt lt, List.map_cons, List.sum_cons, rest,
      List.map_cons (l := as), List.sum_cons]
    omega
  | second a as b bs lt ih =>
    have rest := ih fun a' memA b' mem => adds a' memA b' (by simp [mem])
    rw [mergeUnique_cons_gt lt, List.map_cons, List.sum_cons, rest,
      List.map_cons (l := bs), List.sum_cons (l := bs.map _)]
    omega
  | same a as b bs same ih =>
    have rest := ih fun a' memA b' mem => adds a' (by simp [memA]) b' (by simp [mem])
    rw [mergeUnique_cons_same same, List.map_cons, List.sum_cons, rest,
      adds a (by simp) b (by simp) same, List.map_cons, List.sum_cons, List.map_cons, List.sum_cons]
    omega

end MergeUnique

section Runs

variable {A C K : Type} [LinearOrder K] {keyA : A → K} {keyC : C → K} {run : A → List C}
  (of_key : ∀ a, ∀ c ∈ run a, keyC c = keyA a)

include of_key

theorem pairwise_le_flatMap {as : List A} (sorted : as.Pairwise (fun a a' => keyA a < keyA a')) :
    (as.flatMap run).Pairwise (fun c c' => keyC c ≤ keyC c') := by
  induction as with
  | nil => exact List.Pairwise.nil
  | cons a as ih =>
    obtain ⟨head, tail⟩ := List.pairwise_cons.1 sorted
    rw [List.flatMap_cons, List.pairwise_append]
    refine ⟨?_, ih tail, fun c mem c' mem' => ?_⟩
    · rw [List.pairwise_iff_forall_sublist]
      intro c c' sub
      rw [of_key a c (sub.mem (by simp)), of_key a c' (sub.mem (by simp))]
    · obtain ⟨a', inAs, inRun⟩ := List.mem_flatMap.1 mem'
      rw [of_key a c mem, of_key a' c' inRun]
      exact (head a' inAs).le

theorem filter_flatMap_run (k : K) {as : List A}
    (sorted : as.Pairwise (fun a a' => keyA a < keyA a')) :
    (as.flatMap run).filter (fun c => keyC c = k) =
      ((as.find? (fun a => keyA a = k)).map run).getD [] := by
  induction as with
  | nil => rfl
  | cons a as ih =>
    obtain ⟨head, tail⟩ := List.pairwise_cons.1 sorted
    rw [List.flatMap_cons, List.filter_append, ih tail]
    by_cases is_k : keyA a = k
    · have own : (run a).filter (fun c => keyC c = k) = run a := by
        rw [List.filter_eq_self]
        intro c mem
        simpa [of_key a c mem] using is_k
      have no_other : as.find? (fun a => keyA a = k) = none := by
        rw [List.find?_eq_none]
        intro a' mem
        have lt := head a' mem
        simpa using (is_k ▸ lt).ne'
      rw [own, no_other, List.find?_cons_of_pos (by simpa using is_k)]
      simp
    · have other : (run a).filter (fun c => keyC c = k) = [] := by
        rw [List.filter_eq_nil_iff]
        intro c mem
        simpa [of_key a c mem] using is_k
      rw [other, List.find?_cons_of_neg (by simpa using is_k), List.nil_append]

end Runs

/-- Lists sorted by a relation stay so when they are merged by a test that keeps
to it. -/
theorem pairwise_merge_of {A : Type} {R : A → A → Prop} {le : A → A → Bool}
    (trans : ∀ a b c, R a b → R b c → R a c) (pos : ∀ a b, le a b = true → R a b)
    (neg : ∀ a b, le a b = false → R b a) {l l' : List A} (h : l.Pairwise R)
    (h' : l'.Pairwise R) : (l.merge l' le).Pairwise R := by
  induction l generalizing l' with
  | nil => rwa [List.nil_merge]
  | cons a l ihA =>
    induction l' with
    | nil => rwa [List.merge_right]
    | cons b l' ihB =>
      obtain ⟨headA, tailA⟩ := List.pairwise_cons.1 h
      obtain ⟨headB, tailB⟩ := List.pairwise_cons.1 h'
      rw [List.cons_merge_cons]
      by_cases first : le a b = true
      · rw [if_pos first, List.pairwise_cons]
        refine ⟨fun c mem => ?_, ihA tailA h'⟩
        have below := pos a b first
        obtain inA | inB := List.mem_merge.1 mem
        · exact headA c inA
        · obtain rfl | later := List.mem_cons.1 inB
          · exact below
          · exact trans a b c below (headB c later)
      · rw [if_neg first, List.pairwise_cons]
        refine ⟨fun c mem => ?_, ihB tailB⟩
        have below := neg a b (by simpa using first)
        obtain inA | inB := List.mem_merge.1 mem
        · obtain rfl | later := List.mem_cons.1 inA
          · exact below
          · exact trans b a c below (headA c later)
        · exact headB c inB

section Partitioned

variable {A : Type} {p : A → Bool}

theorem of_mem_dropWhile {l : List A} (sorted : l.Pairwise (fun a b => p b = true → p a = true))
    {a : A} (mem : a ∈ l.dropWhile p) : p a = false := by
  induction l with
  | nil => simp at mem
  | cons b rest ih =>
    obtain ⟨head, tail⟩ := List.pairwise_cons.1 sorted
    by_cases first : p b
    · rw [List.dropWhile_cons_of_pos first] at mem
      exact ih tail mem
    · rw [List.dropWhile_cons_of_neg first] at mem
      obtain rfl | later := List.mem_cons.1 mem
      · simpa using first
      · by_contra holds
        exact first (head a later (by simpa using holds))

theorem of_mem_takeWhile {l : List A} {a : A} (mem : a ∈ l.takeWhile p) : p a = true := by
  induction l with
  | nil => simp at mem
  | cons b rest ih =>
    by_cases first : p b
    · rw [List.takeWhile_cons_of_pos first] at mem
      obtain rfl | later := List.mem_cons.1 mem
      · exact first
      · exact ih later
    · rw [List.takeWhile_cons_of_neg first] at mem
      simp at mem

end Partitioned

section LowerBound

variable {A : Type} (before : A → Bool)

/-- `std::lower_bound` between two positions, with fuel for the length. -/
def lowerBoundFrom (l : List A) : Nat → Nat → Nat → Nat
  | 0, first, _ => first
  | fuel + 1, first, length =>
    if length = 0 then first
    else
      let half := length / 2
      if (l[first + half]?).any before then
        lowerBoundFrom l fuel (first + half + 1) (length - half - 1)
      else lowerBoundFrom l fuel first half

/-- The position binary search ends at for a value; `before` holds of what is
less than the value. -/
def lowerBound (l : List A) : Nat := lowerBoundFrom before l l.length 0 l.length

variable {before}

theorem lowerBoundFrom_spec {l : List A} {split : Nat}
    (low : ∀ i < split, (l[i]?).any before = true)
    (high : ∀ i ≥ split, (l[i]?).any before = false) {fuel first length : Nat}
    (enough : length ≤ fuel) (from_first : first ≤ split) (in_range : split ≤ first + length) :
    lowerBoundFrom before l fuel first length = split := by
  induction fuel generalizing first length with
  | zero =>
    have nothing : length = 0 := by omega
    unfold lowerBoundFrom
    omega
  | succ fuel ih =>
    unfold lowerBoundFrom
    split
    · omega
    · by_cases smaller : (l[first + length / 2]?).any before = true
      · rw [if_pos smaller]
        have inside : first + length / 2 < split := by
          by_contra outside
          rw [high _ (by omega)] at smaller
          simp at smaller
        exact ih (by omega) (by omega) (by omega)
      · rw [if_neg smaller]
        have outside : split ≤ first + length / 2 := by
          by_contra inside
          exact smaller (low _ (by omega))
        exact ih (by omega) from_first outside

/-- In a list sorted so that what is less comes first, binary search ends where
that part does. -/
theorem lowerBound_eq {l : List A}
    (sorted : l.Pairwise (fun a b => before b = true → before a = true)) :
    lowerBound before l = (l.takeWhile before).length := by
  have partition : ∀ l' : List A, l'.Pairwise (fun a b => before b = true → before a = true) →
      (∀ i < (l'.takeWhile before).length, (l'[i]?).any before = true) ∧
        ∀ i ≥ (l'.takeWhile before).length, (l'[i]?).any before = false := by
    intro l' sorted
    induction l' with
    | nil => simp
    | cons a rest ih =>
      obtain ⟨head, tail⟩ := List.pairwise_cons.1 sorted
      by_cases first : before a
      · obtain ⟨low, high⟩ := ih tail
        rw [List.takeWhile_cons_of_pos first]
        constructor
        · intro i bound
          cases i with
          | zero => simpa using first
          | succ i => simpa using low i (by simpa using bound)
        · intro i bound
          cases i with
          | zero => simp at bound
          | succ i => simpa using high i (by simpa using bound)
      · rw [List.takeWhile_cons_of_neg first]
        refine ⟨by simp, fun i _ => ?_⟩
        cases i with
        | zero => simpa using first
        | succ i =>
          cases at_i : rest[i]? with
          | none => simp [at_i]
          | some b =>
            have later := head b (List.mem_of_getElem? at_i)
            simp only [List.getElem?_cons_succ, at_i, Option.any_some]
            by_contra smaller
            exact first (later (by simpa using smaller))
  obtain ⟨low, high⟩ := partition l sorted
  apply lowerBoundFrom_spec low high (Nat.le_refl _) (Nat.zero_le _)
  rw [Nat.zero_add]
  exact (List.takeWhile_sublist before).length_le

theorem take_lowerBound {l : List A}
    (sorted : l.Pairwise (fun a b => before b = true → before a = true)) :
    l.take (lowerBound before l) = l.takeWhile before ∧
      l.drop (lowerBound before l) = l.dropWhile before := by
  rw [lowerBound_eq sorted]
  have parts := List.takeWhile_append_dropWhile (p := before) (l := l)
  constructor
  · exact (congrArg (List.take _) parts.symm).trans (List.take_left' rfl)
  · exact (congrArg (List.drop _) parts.symm).trans (List.drop_left' rfl)

end LowerBound

end AdServer.Lib
