import AdServer.Lib.CellSums
import AdServer.Lib.SortedMap
import Mathlib.Algebra.Group.Basic

/-!
# The collector of statistics

A collector has one value for each key and adds up what is added under the same key, by copying
or by moving, from single values, other collectors and containers. A collector that excludes null
values has none for a key whose sum is null. The data of a collector may be collectors again.
-/

namespace AdServer.LogProcessing

open Lib SoundSum

/-- What a collector asks of its data: `+=`, `is_null`, `merge_data_` and `data += data`. -/
class CollectorData (D : Type) extends SoundSum D where
  mergeData : D → D → D
  twice : D → D
  mergeData_eq : ∀ {a b}, Sound a → Sound b → mergeData a b = plus a b
  twice_eq : ∀ {a}, Sound a → twice a = plus a a

export CollectorData (mergeData twice mergeData_eq twice_eq)

/-- Elementary data: an exact commutative addition, and `is_null` true for zero only. -/
@[reducible] def CollectorData.elementary {D : Type} [AddCommMonoid D] (isNull : D → Bool)
    (isNull_iff : ∀ d, isNull d = true ↔ d = 0) : CollectorData D where
  zero := 0
  plus := (· + ·)
  isZero := isNull
  Sound := fun _ => True
  sound_zero := trivial
  sound_plus := fun _ _ => trivial
  plus_comm := fun _ _ => add_comm _ _
  plus_assoc := fun _ _ _ => add_assoc _ _ _
  zero_plus := fun _ => zero_add _
  isZero_iff := fun _ => isNull_iff _
  mergeData := (· + ·)
  twice := fun d => d + d
  mergeData_eq := fun _ _ => rfl
  twice_eq := fun _ => rfl

/-- What `add` takes in place of the data: `DataT(data)` and `+= data`. -/
class Mediator (D M : Type) [CollectorData D] where
  convert : M → D
  plusOf : D → M → D
  Fit : M → Prop
  sound_convert : ∀ {m}, Fit m → Sound (convert m)
  plusOf_eq : ∀ {d m}, Sound d → Fit m → plusOf d m = plus d (convert m)

export Mediator (convert plusOf Fit sound_convert plusOf_eq)

instance CollectorData.itself {D : Type} [CollectorData D] : Mediator D D where
  convert := id
  plusOf := plus
  Fit := Sound
  sound_convert := id
  plusOf_eq := fun _ _ => rfl

/-- The order in which the loops over a map meet its entries. -/
class IterationOrder (K D : Type) [LinearOrder K] where
  order : SortedMap K D → List (K × D)
  perm : ∀ m, (order m).Perm m.entries

export IterationOrder (order)

/-- The order of `std::map`. -/
@[reducible] def IterationOrder.ordered (K D : Type) [LinearOrder K] : IterationOrder K D where
  order := SortedMap.entries
  perm := fun _ => .refl _

structure StatCollector (K D : Type) [LinearOrder K] (excludeNullValues : Bool) where
  map : SortedMap K D

namespace StatCollector

variable {K D M : Type} [LinearOrder K] [CollectorData D] {ex : Bool}

def empty : StatCollector K D ex := ⟨SortedMap.empty⟩

def isEmpty (c : StatCollector K D ex) : Bool := c.map.isEmpty

def find? (c : StatCollector K D ex) (key : K) : Option D := c.map.find? key

/-- `ValueOps::remove_if_excludable`, at the element with this key. -/
def removeIfExcludable (c : StatCollector K D ex) (key : K) : StatCollector K D ex :=
  match c.map.find? key with
  | none => c
  | some data => if excluded ex data then ⟨c.map.erase key⟩ else c

/-- `add(const KeyT&, const Mediator&)`. -/
def add [Mediator D M] (c : StatCollector K D ex) (key : K) (data : M) : StatCollector K D ex :=
  match c.map.find? key with
  | none => ⟨c.map.put key (convert data)⟩
  | some old => removeIfExcludable ⟨c.map.put key (plusOf old data)⟩ key

/-- Find, then `emplace` or `merge_data_`. -/
def emplaceOrMerge (c : StatCollector K D ex) (key : K) (data : D) : StatCollector K D ex :=
  match c.map.find? key with
  | none => ⟨c.map.put key data⟩
  | some old => removeIfExcludable ⟨c.map.put key (mergeData old data)⟩ key

/-- `add(const KeyT&, Data&&)`. -/
def addData (c : StatCollector K D ex) (key : K) (data : D) : StatCollector K D ex :=
  c.emplaceOrMerge key data

/-- `add(KeyT&&, Data&&)`. -/
def addKeyData (c : StatCollector K D ex) (key : K) (data : D) : StatCollector K D ex :=
  c.emplaceOrMerge key data

/-- `move_data(const KEY_&, DATA_&)`. -/
def moveData (c : StatCollector K D ex) (key : K) (data : D) : StatCollector K D ex :=
  if excluded ex data then c else c.emplaceOrMerge key data

/-- `move_data(KEY_&&, DATA_&)`. -/
def moveKeyData (c : StatCollector K D ex) (key : K) (data : D) : StatCollector K D ex :=
  if excluded ex data then c else c.emplaceOrMerge key data

/-- `add_elem`. -/
def addElem (c : StatCollector K D ex) (value : K × D) : StatCollector K D ex :=
  if excluded ex value.2 then c
  else
    match c.map.find? value.1 with
    | none => ⟨c.map.put value.1 value.2⟩
    | some old => removeIfExcludable ⟨c.map.put value.1 (plus old value.2)⟩ value.1

/-- `add(const ValueT&)`. -/
def addValue (c : StatCollector K D ex) (value : K × D) : StatCollector K D ex := c.addElem value

/-- `add(ValueT&&)`. -/
def addMovedValue (c : StatCollector K D ex) (value : K × D) : StatCollector K D ex :=
  if excluded ex value.2 then c else c.emplaceOrMerge value.1 value.2

/-- `operator+=(const Container&)`. -/
def plusContainer [Mediator D M] (c : StatCollector K D ex) (container : List (K × M)) :
    StatCollector K D ex :=
  container.foldl (fun c value => c.add value.1 value.2) c

section Loops

variable [IterationOrder K D]

/-- `operator+=(const StatCollector&)` of another collector. -/
def plus (c other : StatCollector K D ex) : StatCollector K D ex :=
  (order other.map).foldl addElem c

/-- `operator+=(const StatCollector&)` of itself. -/
def plusSelf (c : StatCollector K D ex) : StatCollector K D ex :=
  (order c.map).foldl
    (fun c value => removeIfExcludable ⟨c.map.modify value.1 twice⟩ value.1) c

/-- `merge(StatCollector&&)` of another collector: the two of them afterwards. -/
def mergeMoved (c other : StatCollector K D ex) : StatCollector K D ex × StatCollector K D ex :=
  if c.isEmpty then (other, c)
  else
    ((order other.map).foldl
      (fun c value => if excluded ex value.2 then c else c.emplaceOrMerge value.1 value.2) c, empty)

/-- `merge(StatCollector&&)` of itself. -/
def mergeMovedSelf (c : StatCollector K D ex) : StatCollector K D ex := c

/-- `load_i_`: none where it throws. A blank line after a value may end the reading. -/
def loadI (read : String → Option (K × D)) (stopAtBlankLine : Bool) :
    SortedMap K D → List String → Option (SortedMap K D)
  | _, [] => none
  | tmp, line :: rest =>
    match read line with
    | none => none
    | some value =>
      if (tmp.find? value.1).isSome then none
      else
        match rest with
        | [] => some (tmp.put value.1 value.2)
        | next :: _ =>
          if stopAtBlankLine && next == "" then some (tmp.put value.1 value.2)
          else loadI read stopAtBlankLine (tmp.put value.1 value.2) rest

/-- `load`, of what `load_i_` has read. -/
def loadRead (c : StatCollector K D ex) (tmp : SortedMap K D) : StatCollector K D ex :=
  if c.isEmpty then ⟨tmp⟩ else (c.mergeMoved ⟨tmp⟩).1

def load (read : String → Option (K × D)) (stopAtBlankLine : Bool) (c : StatCollector K D ex)
    (lines : List String) : Option (StatCollector K D ex) :=
  (loadI read stopAtBlankLine SortedMap.empty lines).map c.loadRead

end Loops

omit [CollectorData D] in
theorem ext_find {c c' : StatCollector K D ex} (same : ∀ k, c.find? k = c'.find? k) : c = c' := by
  cases c
  cases c'
  exact congrArg StatCollector.mk (SortedMap.ext_find same)

omit [CollectorData D] in
@[simp] theorem find?_empty (k : K) : (empty : StatCollector K D ex).find? k = none := rfl

variable {c : StatCollector K D ex} {cell : Option D} {data : D}

omit [CollectorData D] in
theorem find?_of_isEmpty (nothing : c.isEmpty = true) (k : K) : c.find? k = none :=
  SortedMap.isEmpty_iff.1 nothing k

theorem find?_removeIfExcludable (c : StatCollector K D ex) (key k : K) :
    (c.removeIfExcludable key).find? k =
      if k = key then (c.find? k).bind (keep ex) else c.find? k := by
  unfold removeIfExcludable
  cases found : c.map.find? key with
  | none =>
    split_ifs with same
    · subst same
      simp [find?, found]
    · rfl
  | some data =>
    cases out : excluded ex data with
    | true =>
      dsimp only
      rw [out, if_pos rfl]
      change (c.map.erase key).find? k = _
      rw [SortedMap.find?_erase]
      split_ifs with same
      · subst same
        simp [find?, found, keep_of_excluded out]
      · rfl
    | false =>
      dsimp only
      rw [out, if_neg Bool.false_ne_true]
      split_ifs with same
      · subst same
        simp [find?, found, keep_of_not_excluded out]
      · rfl

omit [CollectorData D] in
theorem find?_put (c : StatCollector K D ex) (key k : K) (data : D) :
    (⟨c.map.put key data⟩ : StatCollector K D ex).find? k =
      if k = key then some data else c.find? k :=
  SortedMap.find?_put c.map key k data

theorem find?_putKept (c : StatCollector K D ex) (key k : K) (data : D) :
    (removeIfExcludable ⟨c.map.put key data⟩ key : StatCollector K D ex).find? k =
      if k = key then keep ex data else c.find? k := by
  rw [find?_removeIfExcludable, find?_put]
  split_ifs <;> rfl

/-- The cell after an insertion that adds by `f`. -/
def cellAfter (ex : Bool) (new : D) (f : D → D) : Option D → Option D
  | none => some new
  | some old => keep ex (f old)

theorem find?_insertion (c : StatCollector K D ex) (key k : K) (new : D) (f : D → D) :
    (match c.map.find? key with
      | none => ⟨c.map.put key new⟩
      | some old => removeIfExcludable ⟨c.map.put key (f old)⟩ key : StatCollector K D ex).find? k =
      if k = key then cellAfter ex new f (c.find? k) else c.find? k := by
  cases found : c.map.find? key with
  | none =>
    change (⟨c.map.put key new⟩ : StatCollector K D ex).find? k = _
    rw [find?_put]
    split_ifs with same
    · subst same
      rw [find?, found]
      rfl
    · rfl
  | some old =>
    change (removeIfExcludable ⟨c.map.put key (f old)⟩ key : StatCollector K D ex).find? k = _
    rw [find?_putKept]
    split_ifs with same
    · subst same
      rw [find?, found]
      rfl
    · rfl

theorem find?_add [Mediator D M] (c : StatCollector K D ex) (key k : K) (data : M) :
    (c.add key data).find? k =
      if k = key then cellAfter ex (convert data) (plusOf · data) (c.find? k) else c.find? k :=
  find?_insertion c key k (convert data) (plusOf · data)

theorem find?_emplaceOrMerge (c : StatCollector K D ex) (key k : K) (data : D) :
    (c.emplaceOrMerge key data).find? k =
      if k = key then cellAfter ex data (mergeData · data) (c.find? k) else c.find? k :=
  find?_insertion c key k data (mergeData · data)

/-- The cell after an insertion that leaves excluded data out. -/
def cellUnlessExcluded (ex : Bool) (f : D → D → D) (cell : Option D) (data : D) : Option D :=
  if excluded ex data then cell else cellAfter ex data (f · data) cell

theorem find?_addElem (c : StatCollector K D ex) (value : K × D) (k : K) :
    (c.addElem value).find? k =
      if k = value.1 then cellUnlessExcluded ex SoundSum.plus (c.find? k) value.2
      else c.find? k := by
  unfold addElem cellUnlessExcluded
  cases out : excluded ex value.2 with
  | true => simp
  | false =>
    rw [if_neg Bool.false_ne_true, if_neg Bool.false_ne_true]
    exact find?_insertion c value.1 k value.2 (SoundSum.plus · value.2)

theorem find?_mergeElem (c : StatCollector K D ex) (value : K × D) (k : K) :
    (if excluded ex value.2 then c else c.emplaceOrMerge value.1 value.2).find? k =
      if k = value.1 then cellUnlessExcluded ex mergeData (c.find? k) value.2
      else c.find? k := by
  unfold cellUnlessExcluded
  cases out : excluded ex value.2 with
  | true => simp
  | false =>
    rw [if_neg Bool.false_ne_true, if_neg Bool.false_ne_true]
    exact find?_emplaceOrMerge c value.1 k value.2

/-- Every value is sound, and none of them is null where nulls are excluded. -/
def Clean (c : StatCollector K D ex) : Prop := ∀ k, CellSound ex (c.find? k)

theorem clean_empty : (empty : StatCollector K D ex).Clean := fun _ => cellSound_none

theorem cellAfter_eq {f : D → D} (sound : CellSound ex cell) (soundData : Sound data)
    (adds : ∀ old, cell = some old → f old = SoundSum.plus old data)
    (present : excluded ex data = true → cell ≠ none) :
    cellAfter ex data f cell = combine ex cell (keep ex data) := by
  cases cell with
  | none =>
    have inside : excluded ex data = false := by
      by_contra out
      exact present (by simpa using out) rfl
    rw [keep_of_not_excluded inside]
    rfl
  | some old =>
    change keep ex (f old) = _
    rw [adds old rfl, combine_keep sound soundData]

theorem cellUnlessExcluded_eq {f : D → D → D} (sound : CellSound ex cell) (soundData : Sound data)
    (adds : ∀ old, cell = some old → f old data = SoundSum.plus old data) :
    cellUnlessExcluded ex f cell data = combine ex cell (keep ex data) := by
  unfold cellUnlessExcluded
  cases out : excluded ex data with
  | true => simp [keep_of_excluded out]
  | false =>
    rw [if_neg Bool.false_ne_true]
    exact cellAfter_eq sound soundData adds (by simp [out])

theorem keep_of_find? (clean : c.Clean) {k : K} (found : c.find? k = some data) :
    keep ex data = some data :=
  keep_of_not_excluded (clean k data found).2

section Loops

variable [IterationOrder K D]

omit [CollectorData D] in
theorem find?_foldl_order {step : StatCollector K D ex → K × D → StatCollector K D ex}
    {f : Option D → D → Option D}
    (touches : ∀ c e k, (step c e).find? k = if k = e.1 then f (c.find? k) e.2 else c.find? k)
    (c other : StatCollector K D ex) (k : K) :
    ((order other.map).foldl step c).find? k =
      match other.find? k with
      | none => c.find? k
      | some data => f (c.find? k) data := by
  have same := IterationOrder.perm other.map
  have distinct : ((order other.map).map Prod.fst).Nodup :=
    (same.map Prod.fst).nodup_iff.2 other.map.keys_nodup
  obtain ⟨inside, outside⟩ := look_foldl find? touches distinct c k
  cases found : other.find? k with
  | none =>
    apply outside
    intro data there
    exact SortedMap.find?_eq_none.1 found data (same.mem_iff.1 there)
  | some data =>
    apply inside
    exact same.mem_iff.2 (SortedMap.find?_eq_some.1 found)

variable {c other : StatCollector K D ex}

theorem find?_plus (clean : c.Clean) (cleanOther : other.Clean) (k : K) :
    (c.plus other).find? k = combine ex (c.find? k) (other.find? k) := by
  unfold plus
  rw [find?_foldl_order find?_addElem]
  cases found : other.find? k with
  | none => simp
  | some data =>
    dsimp only
    rw [cellUnlessExcluded_eq (clean k) (cleanOther k data found).1 fun _ _ => rfl,
      keep_of_find? cleanOther found]

theorem find?_plusSelf (clean : c.Clean) (k : K) :
    c.plusSelf.find? k = combine ex (c.find? k) (c.find? k) := by
  let doubled (cell : Option D) (_ : D) := cell.bind fun d => keep ex (twice d)
  have touches (c : StatCollector K D ex) (e : K × D) (k : K) :
      (removeIfExcludable ⟨c.map.modify e.1 twice⟩ e.1 : StatCollector K D ex).find? k =
        if k = e.1 then doubled (c.find? k) e.2 else c.find? k := by
    rw [find?_removeIfExcludable]
    change (if k = e.1 then ((c.map.modify e.1 twice).find? k).bind (keep ex)
      else (c.map.modify e.1 twice).find? k) = _
    rw [SortedMap.find?_modify]
    split_ifs with same
    · change ((c.find? k).map twice).bind (keep ex) = (c.find? k).bind fun d => keep ex (twice d)
      cases c.find? k <;> rfl
    · rfl
  unfold plusSelf
  rw [find?_foldl_order (f := doubled) touches]
  cases found : c.find? k with
  | none => rfl
  | some data =>
    change keep ex (twice data) = keep ex (SoundSum.plus data data)
    rw [twice_eq (clean k data found).1]

theorem find?_mergeMoved (clean : c.Clean) (cleanOther : other.Clean) (k : K) :
    (c.mergeMoved other).1.find? k = combine ex (c.find? k) (other.find? k) := by
  unfold mergeMoved
  split_ifs with nothing
  · rw [find?_of_isEmpty nothing]
    rfl
  · change ((order other.map).foldl _ c).find? k = _
    rw [find?_foldl_order find?_mergeElem]
    cases found : other.find? k with
    | none => simp
    | some data =>
      dsimp only
      have soundData := (cleanOther k data found).1
      have adds (old : D) (there : c.find? k = some old) :
          mergeData old data = SoundSum.plus old data :=
        mergeData_eq (clean k old there).1 soundData
      rw [cellUnlessExcluded_eq (clean k) soundData adds, keep_of_find? cleanOther found]

/-- Whichever way it was merged, the other collector is left empty. -/
theorem mergeMoved_snd (c other : StatCollector K D ex) : (c.mergeMoved other).2 = empty := by
  unfold mergeMoved
  split_ifs with nothing
  · exact ext_find (find?_of_isEmpty nothing)
  · rfl

/-- What is loaded may hold nulls unless it comes into an empty collector. -/
theorem find?_loadRead {tmp : SortedMap K D} (clean : c.Clean)
    (sound : ∀ k data, tmp.find? k = some data → Sound data)
    (fits : c.isEmpty = true → ∀ k data, tmp.find? k = some data → excluded ex data = false)
    (k : K) : (c.loadRead tmp).find? k = combine ex (c.find? k) ((tmp.find? k).bind (keep ex)) := by
  unfold loadRead mergeMoved
  split_ifs with nothing
  · rw [find?_of_isEmpty nothing]
    change tmp.find? k = (tmp.find? k).bind (keep ex)
    cases found : tmp.find? k with
    | none => rfl
    | some data => exact (keep_of_not_excluded (fits nothing k data found)).symm
  · change ((order tmp).foldl _ c).find? k = _
    rw [find?_foldl_order find?_mergeElem c ⟨tmp⟩]
    change (match tmp.find? k with | none => _ | some data => _) = _
    cases found : tmp.find? k with
    | none => exact (combine_none _).symm
    | some data =>
      have adds (old : D) (there : c.find? k = some old) :
          mergeData old data = SoundSum.plus old data :=
        mergeData_eq (clean k old there).1 (sound k data found)
      exact cellUnlessExcluded_eq (clean k) (sound k data found) adds

theorem Clean.plus (clean : c.Clean) (cleanOther : other.Clean) : (c.plus other).Clean := by
  intro k
  rw [find?_plus clean cleanOther]
  exact cellSound_combine (clean k) (cleanOther k)

/-- A collector as the data of another collector. -/
instance collectorData : CollectorData (StatCollector K D ex) where
  zero := empty
  plus := plus
  isZero := isEmpty
  Sound := Clean
  sound_zero := clean_empty
  sound_plus := Clean.plus
  plus_comm := by
    intro a b cleanA cleanB
    refine ext_find fun k => ?_
    rw [find?_plus cleanA cleanB, find?_plus cleanB cleanA, combine_comm (cleanA k) (cleanB k)]
  plus_assoc := by
    intro a b c cleanA cleanB cleanC
    refine ext_find fun k => ?_
    rw [find?_plus (cleanA.plus cleanB) cleanC, find?_plus cleanA cleanB,
      find?_plus cleanA (cleanB.plus cleanC), find?_plus cleanB cleanC,
      combine_assoc (cleanA k) (cleanB k) (cleanC k)]
  zero_plus := by
    intro a cleanA
    refine ext_find fun k => ?_
    rw [find?_plus clean_empty cleanA]
    rfl
  isZero_iff := by
    intro a _
    refine ⟨fun nothing => ext_find (find?_of_isEmpty nothing), ?_⟩
    rintro rfl
    rfl
  mergeData := fun c other => (c.mergeMoved other).1
  twice := plusSelf
  mergeData_eq := by
    intro a b cleanA cleanB
    refine ext_find fun k => ?_
    rw [find?_mergeMoved cleanA cleanB, find?_plus cleanA cleanB]
  twice_eq := by
    intro a cleanA
    refine ext_find fun k => ?_
    rw [find?_plusSelf cleanA, find?_plus cleanA cleanA]

end Loops

end StatCollector

end AdServer.LogProcessing
