import Mathlib.Data.List.AList

/-!
# Posting lists

Lists kept by key: every item is appended to the lists of its keys, and later
the lists of several keys are read through a set of the items already seen.
-/

namespace AdServer.Lib

/-- A list of items for each key. -/
abbrev Postings (K V : Type) := AList (fun _ : K => List V)

namespace Postings

section Build

variable {K V : Type} [DecidableEq K]

/-- The list of a key, empty when the key is absent. -/
def list (m : Postings K V) (k : K) : List V := (m.lookup k).getD []

def push (m : Postings K V) (k : K) (v : V) : Postings K V := m.insert k (m.list k ++ [v])

def pushAll (m : Postings K V) (ks : List K) (v : V) : Postings K V :=
  ks.foldl (fun m k => m.push k v) m

/-- Every item is appended to the list of each of its keys. -/
def build (keysOf : V → List K) (items : List V) : Postings K V :=
  items.foldl (fun m v => m.pushAll (keysOf v) v) ∅

@[simp] theorem list_empty (k : K) : list (∅ : Postings K V) k = [] := rfl

@[simp] theorem list_push (m : Postings K V) (k k' : K) (v : V) :
    (m.push k v).list k' = if k' = k then m.list k' ++ [v] else m.list k' := by
  by_cases h : k' = k
  · subst h
    simp [list, push]
  · simp [list, push, AList.lookup_insert_ne h, h]

theorem list_pushAll {ks : List K} (distinct : ks.Nodup) (m : Postings K V) (v : V) (k : K) :
    (m.pushAll ks v).list k = if k ∈ ks then m.list k ++ [v] else m.list k := by
  induction ks generalizing m with
  | nil => simp [pushAll]
  | cons k' rest ih =>
    obtain ⟨fresh, distinct⟩ := List.nodup_cons.1 distinct
    have later := ih distinct (m.push k' v)
    rw [list_push] at later
    change ((m.push k' v).pushAll rest v).list k = _
    rw [later]
    by_cases h : k = k'
    · subst h
      simp [fresh]
    · simp [h]

variable {keysOf : V → List K} {items : List V}

theorem list_foldl (distinct : ∀ v ∈ items, (keysOf v).Nodup) (m : Postings K V) (k : K) :
    list (items.foldl (fun m v => m.pushAll (keysOf v) v) m) k =
      m.list k ++ items.filter (fun v => decide (k ∈ keysOf v)) := by
  induction items generalizing m with
  | nil => simp
  | cons v rest ih =>
    rw [List.foldl_cons, ih (fun w hw => distinct w (List.mem_cons_of_mem _ hw)),
      list_pushAll (distinct v List.mem_cons_self)]
    by_cases h : k ∈ keysOf v <;> simp [h]

theorem list_build (distinct : ∀ v ∈ items, (keysOf v).Nodup) (k : K) :
    (build keysOf items).list k = items.filter (fun v => decide (k ∈ keysOf v)) := by
  have all := list_foldl distinct ∅ k
  rwa [list_empty, List.nil_append] at all

end Build

section Collect

variable {V : Type} [DecidableEq V] (wanted : V → Bool)

/-- Appending the items that are met for the first time and wanted, with the
set of those met so far. -/
def collectList : List V → List V × List V → List V × List V
  | [], state => state
  | v :: rest, (seen, found) =>
    if v ∈ seen then collectList rest (seen, found)
    else collectList rest (v :: seen, if wanted v then found ++ [v] else found)

/-- Several lists read one after another through one set of seen items. -/
def collect (lists : List (List V)) (found : List V) : List V :=
  (lists.foldl (fun state l => collectList wanted l state) ([], found)).2

/-- What has been found so far is what is wanted among what has been seen. -/
structure Collected (state : List V × List V) : Prop where
  found : ∀ v, v ∈ state.2 ↔ v ∈ state.1 ∧ wanted v = true
  nodup : state.2.Nodup

variable {wanted}

theorem collectList_spec {l : List V} {state : List V × List V} (h : Collected wanted state) :
    Collected wanted (collectList wanted l state) ∧
      ∀ v, v ∈ (collectList wanted l state).1 ↔ v ∈ state.1 ∨ v ∈ l := by
  induction l generalizing state with
  | nil => exact ⟨h, by simp [collectList]⟩
  | cons v rest ih =>
    obtain ⟨seen, found⟩ := state
    simp only [collectList]
    by_cases old : v ∈ seen
    · rw [if_pos old]
      obtain ⟨kept, members⟩ := ih h
      refine ⟨kept, fun w => ?_⟩
      rw [members w, List.mem_cons]
      constructor
      · rintro (hw | hw)
        · exact .inl hw
        · exact .inr (.inr hw)
      · rintro (hw | rfl | hw)
        · exact .inl hw
        · exact .inl old
        · exact .inr hw
    · rw [if_neg old]
      have fresh : v ∉ found := fun hv => old ((h.found v).1 hv).1
      have next : Collected wanted (v :: seen, if wanted v then found ++ [v] else found) := by
        constructor
        · intro w
          have before := h.found w
          by_cases hv : wanted v = true
          · simp only [hv, if_true, List.mem_append, List.mem_cons]
            by_cases hw : w = v
            · simp [hw, hv]
            · simpa [hw] using before
          · simp only [hv, List.mem_cons]
            by_cases hw : w = v
            · simp [hw, fresh, hv]
            · simpa [hw] using before
        · by_cases hv : wanted v = true
          · simp only [hv, if_true]
            exact List.concat_eq_append ▸ h.nodup.concat fresh
          · simpa [hv] using h.nodup
      obtain ⟨kept, members⟩ := ih next
      refine ⟨kept, fun w => ?_⟩
      rw [members w]
      simp only [List.mem_cons]
      tauto

theorem collect_spec (lists : List (List V)) {state : List V × List V}
    (h : Collected wanted state) :
    Collected wanted (lists.foldl (fun state l => collectList wanted l state) state) ∧
      ∀ v, v ∈ (lists.foldl (fun state l => collectList wanted l state) state).1 ↔
        v ∈ state.1 ∨ ∃ l ∈ lists, v ∈ l := by
  induction lists generalizing state with
  | nil => exact ⟨h, by simp⟩
  | cons l rest ih =>
    obtain ⟨kept, members⟩ := collectList_spec (l := l) h
    obtain ⟨final, all⟩ := ih kept
    refine ⟨final, fun v => ?_⟩
    rw [List.foldl_cons, all v, members v]
    simp [or_assoc]

omit [DecidableEq V] in
theorem nothing_collected : Collected wanted ([], []) := ⟨by simp, by simp⟩

theorem mem_collect (lists : List (List V)) (v : V) :
    v ∈ collect wanted lists [] ↔ (∃ l ∈ lists, v ∈ l) ∧ wanted v = true := by
  have start : Collected wanted ([], []) := nothing_collected
  obtain ⟨kept, members⟩ := collect_spec lists start
  have found := kept.found v
  rw [members v] at found
  simpa [collect] using found

theorem collect_nodup (lists : List (List V)) : (collect wanted lists []).Nodup :=
  (collect_spec lists nothing_collected).1.nodup

end Collect

end Postings

end AdServer.Lib
