import Mathlib.Data.List.Nodup
import Mathlib.Data.List.Perm.Basic

/-!
# Sums in cells

What a map of sums has at one key: nothing, or a value. A map may refuse to keep a zero. The
addition of the values need have its laws on the sound ones only.
-/

namespace AdServer.Lib

/-- An addition whose laws hold on the sound values. -/
class SoundSum (D : Type) where
  zero : D
  plus : D → D → D
  isZero : D → Bool
  Sound : D → Prop
  sound_zero : Sound zero
  sound_plus : ∀ {a b}, Sound a → Sound b → Sound (plus a b)
  plus_comm : ∀ {a b}, Sound a → Sound b → plus a b = plus b a
  plus_assoc : ∀ {a b c}, Sound a → Sound b → Sound c → plus (plus a b) c = plus a (plus b c)
  zero_plus : ∀ {a}, Sound a → plus zero a = a
  isZero_iff : ∀ {a}, Sound a → (isZero a = true ↔ a = zero)

namespace SoundSum

variable {D : Type} [SoundSum D] {exclude : Bool}

variable {a d : D} {ds as bs : List D}

theorem plus_zero (sound : Sound a) : plus a zero = a := by
  rw [plus_comm sound sound_zero, zero_plus sound]

def total (ds : List D) : D := ds.foldr plus zero

theorem sound_total (sound : ∀ d ∈ ds, Sound d) : Sound (total ds) := by
  induction ds with
  | nil => exact sound_zero
  | cons d ds ih =>
    apply sound_plus
    · exact sound d List.mem_cons_self
    · exact ih fun e there => sound e (List.mem_cons_of_mem d there)

theorem total_singleton (sound : Sound d) : total [d] = d := plus_zero sound

theorem total_append (soundA : ∀ d ∈ as, Sound d) (soundB : ∀ d ∈ bs, Sound d) :
    total (as ++ bs) = plus (total as) (total bs) := by
  induction as with
  | nil => exact (zero_plus (sound_total soundB)).symm
  | cons d as ih =>
    have rest : ∀ e ∈ as, Sound e := fun e there => soundA e (List.mem_cons_of_mem d there)
    change plus d (total (as ++ bs)) = plus (plus d (total as)) (total bs)
    rw [ih rest, plus_assoc (soundA d List.mem_cons_self) (sound_total rest) (sound_total soundB)]

theorem total_perm (same : as.Perm bs) (sound : ∀ d ∈ as, Sound d) : total as = total bs := by
  induction same with
  | nil => rfl
  | @cons d as bs _ ih =>
    change plus d (total as) = plus d (total bs)
    rw [ih fun e there => sound e (List.mem_cons_of_mem d there)]
  | swap a b ds =>
    have soundA := sound a (by simp)
    have soundB := sound b (by simp)
    have soundT : Sound (total ds) := sound_total fun e there => sound e (by simp [there])
    change plus b (plus a (total ds)) = plus a (plus b (total ds))
    rw [← plus_assoc soundB soundA soundT, plus_comm soundB soundA, plus_assoc soundA soundB soundT]
  | @trans as bs cs first second ih ih' =>
    exact (ih sound).trans (ih' fun d there => sound d (first.mem_iff.2 there))

def excluded (exclude : Bool) (d : D) : Bool := exclude && isZero d

/-- The cell of a value: empty for one that is excluded. -/
def keep (exclude : Bool) (d : D) : Option D := if excluded exclude d then none else some d

def combine (exclude : Bool) : Option D → Option D → Option D
  | none, b => b
  | some a, none => some a
  | some a, some b => keep exclude (plus a b)

/-- The cell that a list of values adds up to. -/
def cellSum (exclude : Bool) (ds : List D) : Option D :=
  if ds = [] then none else keep exclude (total ds)

/-- What a cell may have: a sound value that is not excluded. -/
def CellSound (exclude : Bool) (cell : Option D) : Prop :=
  ∀ d, cell = some d → Sound d ∧ excluded exclude d = false

@[simp] theorem combine_none (cell : Option D) : combine exclude cell none = cell := by
  cases cell <;> rfl

@[simp] theorem none_combine (cell : Option D) : combine exclude none cell = cell := rfl

theorem cellSound_none : CellSound exclude (none : Option D) := nofun

theorem cellSound_keep (sound : Sound d) : CellSound exclude (keep exclude d) := by
  intro e kept
  unfold keep at kept
  split_ifs at kept with out
  cases kept
  exact ⟨sound, by simpa using out⟩

theorem excluded_iff (sound : Sound d) : excluded exclude d = true ↔ exclude = true ∧ d = zero := by
  simp [excluded, isZero_iff sound]

theorem keep_of_excluded (out : excluded exclude d = true) : keep exclude d = none :=
  if_pos out

theorem keep_of_not_excluded (inside : excluded exclude d = false) : keep exclude d = some d :=
  if_neg (by simp [inside])

theorem cellSound_combine {a b : Option D} (soundA : CellSound exclude a)
    (soundB : CellSound exclude b) : CellSound exclude (combine exclude a b) := by
  cases a with
  | none => exact soundB
  | some x =>
    cases b with
    | none => exact soundA
    | some y => exact cellSound_keep (sound_plus (soundA x rfl).1 (soundB y rfl).1)

theorem combine_keep (sound : CellSound exclude (some a)) (soundD : Sound d) :
    combine exclude (some a) (keep exclude d) = keep exclude (plus a d) := by
  obtain ⟨soundA, inside⟩ := sound a rfl
  cases out : excluded exclude d with
  | false => rw [keep_of_not_excluded out]; rfl
  | true =>
    obtain ⟨_, rfl⟩ := (excluded_iff soundD).1 out
    rw [keep_of_excluded out, plus_zero soundA, keep_of_not_excluded inside]
    rfl

theorem combine_comm {a b : Option D} (soundA : CellSound exclude a)
    (soundB : CellSound exclude b) : combine exclude a b = combine exclude b a := by
  cases a with
  | none => simp
  | some x =>
    cases b with
    | none => simp
    | some y =>
      change keep exclude (plus x y) = keep exclude (plus y x)
      rw [plus_comm (soundA x rfl).1 (soundB y rfl).1]

theorem combine_assoc {a b c : Option D} (soundA : CellSound exclude a)
    (soundB : CellSound exclude b) (soundC : CellSound exclude c) :
    combine exclude (combine exclude a b) c = combine exclude a (combine exclude b c) := by
  cases a with
  | none => simp
  | some x =>
    cases b with
    | none => simp
    | some y =>
      cases c with
      | none => simp
      | some z =>
        have soundX := (soundA x rfl).1
        have soundY := (soundB y rfl).1
        have soundZ := (soundC z rfl).1
        change combine exclude (keep exclude (plus x y)) (some z) =
          combine exclude (some x) (keep exclude (plus y z))
        rw [combine_keep soundA (sound_plus soundY soundZ)]
        cases out : excluded exclude (plus x y) with
        | false =>
          rw [keep_of_not_excluded out, ← plus_assoc soundX soundY soundZ]
          rfl
        | true =>
          -- a sum that is dropped is zero, so what comes after it is the whole sum
          obtain ⟨_, cancels⟩ := (excluded_iff (sound_plus soundX soundY)).1 out
          rw [keep_of_excluded out, ← plus_assoc soundX soundY soundZ, cancels, zero_plus soundZ,
            keep_of_not_excluded (soundC z rfl).2]
          rfl

theorem cellSum_singleton (sound : Sound d) : cellSum exclude [d] = keep exclude d := by
  rw [cellSum, if_neg (by simp), total_singleton sound]

theorem cellSound_cellSum (sound : ∀ d ∈ ds, Sound d) : CellSound exclude (cellSum exclude ds) := by
  unfold cellSum
  split_ifs with nothing
  · exact cellSound_none
  · exact cellSound_keep (sound_total sound)

theorem combine_keep_keep {a b : D} (soundA : Sound a) (soundB : Sound b) :
    combine exclude (keep exclude a) (keep exclude b) = keep exclude (plus a b) := by
  cases out : excluded exclude a with
  | false =>
    rw [keep_of_not_excluded out]
    apply combine_keep _ soundB
    rintro d ⟨⟩
    exact ⟨soundA, out⟩
  | true =>
    obtain ⟨_, rfl⟩ := (excluded_iff soundA).1 out
    rw [keep_of_excluded out, zero_plus soundB]
    rfl

theorem cellSum_append (soundA : ∀ d ∈ as, Sound d) (soundB : ∀ d ∈ bs, Sound d) :
    cellSum exclude (as ++ bs) = combine exclude (cellSum exclude as) (cellSum exclude bs) := by
  by_cases noA : as = []
  · subst noA
    rfl
  by_cases noB : bs = []
  · subst noB
    rw [List.append_nil]
    exact (combine_none _).symm
  have some_ : as ++ bs ≠ [] := by simp [noA]
  rw [cellSum, if_neg some_, total_append soundA soundB, cellSum, if_neg noA, cellSum, if_neg noB,
    combine_keep_keep (sound_total soundA) (sound_total soundB)]

theorem cellSum_perm (same : as.Perm bs) (sound : ∀ d ∈ as, Sound d) :
    cellSum exclude as = cellSum exclude bs := by
  unfold cellSum
  rw [total_perm same sound]
  by_cases nothing : as = []
  · subst nothing
    rw [if_pos rfl, if_pos same.symm.eq_nil]
  · rw [if_neg nothing, if_neg fun none_ => nothing (none_ ▸ same).eq_nil]

end SoundSum

section Loops

variable {S K V A : Type} [DecidableEq K] (look : S → K → A) {step : S → K × V → S}
  {f : A → V → A}

/-- A loop over entries with distinct keys, each step at its own key, has changed every key once. -/
theorem look_foldl
    (touches : ∀ s e k, look (step s e) k = if k = e.1 then f (look s k) e.2 else look s k)
    {l : List (K × V)} (distinct : (l.map Prod.fst).Nodup) (s : S) (k : K) :
    (∀ v, (k, v) ∈ l → look (l.foldl step s) k = f (look s k) v) ∧
      ((∀ v, (k, v) ∉ l) → look (l.foldl step s) k = look s k) := by
  induction l generalizing s with
  | nil => exact ⟨nofun, fun _ => rfl⟩
  | cons e l ih =>
    obtain ⟨new, distinct⟩ := List.nodup_cons.1 distinct
    obtain ⟨inside, outside⟩ := ih distinct (step s e)
    refine ⟨fun v there => ?_, fun absent => ?_⟩
    · obtain rfl | there := List.mem_cons.1 there
      · rw [List.foldl_cons, outside fun w later => new (List.mem_map.2 ⟨(k, w), later, rfl⟩),
          touches, if_pos rfl]
      · have other : k ≠ e.1 := by
          rintro rfl
          exact new (List.mem_map.2 ⟨(e.1, v), there, rfl⟩)
        rw [List.foldl_cons, inside v there, touches, if_neg other]
    · have other : k ≠ e.1 := by
        rintro rfl
        exact absent e.2 List.mem_cons_self
      rw [List.foldl_cons, outside fun v there => absent v (List.mem_cons_of_mem e there), touches,
        if_neg other]

end Loops

end AdServer.Lib
