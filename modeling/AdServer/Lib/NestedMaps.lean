import AdServer.Lib.Portions

/-!
# Maps of maps

Maps kept by two keys, the inner ones created when they are first written to.
-/

namespace AdServer.Lib

namespace SortedMap

variable {K D V W : Type} [LinearOrder K] [LinearOrder D]

/-- Every value rewritten, or dropped with its key. -/
def filterMap (f : V → Option W) (m : SortedMap K V) : SortedMap K W :=
  ⟨m.entries.filterMap (fun e => (f e.2).map fun w => (e.1, w)), by
    refine List.Pairwise.filterMap _ (fun a a' lt b hb b' hb' => ?_) m.sorted
    obtain ⟨w, -, rfl⟩ := Option.map_eq_some_iff.1 hb
    obtain ⟨w', -, rfl⟩ := Option.map_eq_some_iff.1 hb'
    exact lt⟩

theorem find?_filterMap (f : V → Option W) (m : SortedMap K V) (k : K) :
    (m.filterMap f).find? k = (m.find? k).bind f := by
  cases h : (m.find? k).bind f with
  | some w =>
    obtain ⟨v, found, made⟩ := Option.bind_eq_some_iff.1 h
    refine find?_eq_some.2 (List.mem_filterMap.2 ⟨(k, v), find?_eq_some.1 found, ?_⟩)
    simp [made]
  | none =>
    by_contra present
    obtain ⟨w, found⟩ := Option.ne_none_iff_exists'.1 present
    obtain ⟨e, he, made⟩ := List.mem_filterMap.1 (find?_eq_some.1 found)
    obtain ⟨w', made', same⟩ := Option.map_eq_some_iff.1 made
    obtain ⟨rfl, rfl⟩ := Prod.mk.inj same
    rw [find?_eq_some.2 he] at h
    simp [made'] at h

/-- The inner map of a key, empty before its first element. -/
def inner (m : SortedMap K (SortedMap D V)) (k : K) : SortedMap D V := (m.find? k).getD empty

/-- The elements by both keys, in order. -/
def entries₂ (m : SortedMap K (SortedMap D V)) : List (K × D × V) :=
  m.entries.flatMap (fun e => e.2.entries.map fun d => (e.1, d.1, d.2))

variable {step : SortedMap K (SortedMap D V) → K × D × V → SortedMap K (SortedMap D V)}

/-- A step puts an element that is not there. -/
def PutsNew (step : SortedMap K (SortedMap D V) → K × D × V → SortedMap K (SortedMap D V)) : Prop :=
  ∀ m k d v, (inner m k).find? d = none → step m (k, d, v) = m.put k ((inner m k).put d v)

theorem inner_put (m : SortedMap K (SortedMap D V)) (k : K) (d : SortedMap D V) :
    inner (m.put k d) k = d := by
  simp [inner, find?_put]

theorem foldl_inner (puts : PutsNew step) (k : K) {l : List (D × V)}
    (nodup : (l.map Prod.fst).Nodup) {m : SortedMap K (SortedMap D V)}
    (fresh : ∀ d ∈ l, (inner m k).find? d.1 = none) (some_element : l ≠ []) :
    (l.map fun d => (k, d.1, d.2)).foldl step m =
      m.put k (l.foldl (fun acc d => acc.put d.1 d.2) (inner m k)) := by
  induction l generalizing m with
  | nil => exact absurd rfl some_element
  | cons d rest ih =>
    obtain ⟨new, nodup'⟩ := List.nodup_cons.1 nodup
    rw [List.map_cons, List.foldl_cons, puts m k d.1 d.2 (fresh d (by simp)), List.foldl_cons]
    by_cases last : rest = []
    · simp [last]
    · rw [ih nodup' (fun e he => ?_) last, inner_put, put_put]
      have other : e.1 ≠ d.1 := fun same => new (List.mem_map.2 ⟨e, he, same⟩)
      rw [inner_put, find?_put, if_neg other]
      exact fresh e (by simp [he])

theorem foldl_outer (puts : PutsNew step) {l : List (K × SortedMap D V)}
    (nodup : (l.map Prod.fst).Nodup) {m : SortedMap K (SortedMap D V)}
    (fresh : ∀ e ∈ l, m.find? e.1 = none) (full : ∀ e ∈ l, e.2.isEmpty = false) :
    (l.flatMap fun e => e.2.entries.map fun d => (e.1, d.1, d.2)).foldl step m =
      l.foldl (fun acc e => acc.put e.1 e.2) m := by
  induction l generalizing m with
  | nil => rfl
  | cons e rest ih =>
    obtain ⟨new, nodup'⟩ := List.nodup_cons.1 nodup
    have nothing : inner m e.1 = empty := by simp [inner, fresh e (by simp)]
    have some_element : e.2.entries ≠ [] := by simpa [isEmpty] using full e (by simp)
    rw [List.flatMap_cons, List.foldl_append,
      foldl_inner puts e.1 e.2.keys_nodup (fun d _ => by rw [nothing, find?_empty]) some_element,
      nothing, foldl_put_entries, List.foldl_cons]
    refine ih nodup' (fun f hf => ?_) (fun f hf => full f (by simp [hf]))
    have other : f.1 ≠ e.1 := fun same => new (List.mem_map.2 ⟨f, hf, same⟩)
    rw [find?_put, if_neg other]
    exact fresh f (by simp [hf])

theorem foldl_entries₂ (puts : PutsNew step) {m : SortedMap K (SortedMap D V)}
    (full : ∀ k d, m.find? k = some d → d.isEmpty = false) :
    m.entries₂.foldl step empty = m := by
  rw [entries₂, foldl_outer puts m.keys_nodup (fun _ _ => rfl), foldl_put_entries]
  intro e he
  exact full e.1 e.2 (find?_eq_some.2 he)

/-- The values rewritten or dropped, and with them the keys left without any. -/
def filterMap₂ (f : V → Option W) (m : SortedMap K (SortedMap D V)) :
    SortedMap K (SortedMap D W) :=
  m.filterMap (fun d => if (d.filterMap f).isEmpty then none else some (d.filterMap f))

theorem filterMap₂_full (f : V → Option W) (m : SortedMap K (SortedMap D V)) (k : K)
    (d : SortedMap D W) (h : (m.filterMap₂ f).find? k = some d) : d.isEmpty = false := by
  rw [filterMap₂, find?_filterMap] at h
  obtain ⟨d', -, made⟩ := Option.bind_eq_some_iff.1 h
  split at made
  · cases made
  · rename_i full
    obtain rfl := Option.some.inj made
    simpa using full

theorem entries₂_filterMap₂ (f : V → Option W) (m : SortedMap K (SortedMap D V)) :
    (m.filterMap₂ f).entries₂ =
      m.entries₂.filterMap (fun e => (f e.2.2).map fun w => (e.1, e.2.1, w)) := by
  unfold entries₂ filterMap₂
  simp only [filterMap]
  generalize m.entries = l
  induction l with
  | nil => rfl
  | cons e rest ih =>
    rw [List.flatMap_cons, List.filterMap_append, ← ih, List.filterMap_map]
    have here : e.2.entries.filterMap
        ((fun x : K × D × V => (f x.2.2).map fun w => (x.1, x.2.1, w)) ∘
          fun d => (e.1, d.1, d.2)) =
        (e.2.entries.filterMap fun d => (f d.2).map fun w => (d.1, w)).map
          fun d => (e.1, d.1, d.2) := by
      rw [List.map_filterMap]
      refine congrArg (fun g => List.filterMap g e.2.entries) (funext fun d => ?_)
      cases h : f d.2 <;> simp [h]
    rw [here]
    cases kept : e.2.entries.filterMap fun d => (f d.2).map fun w => (d.1, w) with
    | nil => simp [isEmpty, kept]
    | cons d ds => simp [isEmpty, kept]

end SortedMap

end AdServer.Lib
