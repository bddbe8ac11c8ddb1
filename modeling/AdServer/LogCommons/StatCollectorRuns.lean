import AdServer.Lib.SummedMap
import AdServer.LogCommons.StatCollector

/-!
# Runs of calls on collectors

Collectors are filled by any calls, in any order, from data, from containers and from each
other. Beside them stands what was added to each, as if every call had copied.
-/

namespace AdServer.LogProcessing

open Lib SoundSum

namespace StatCollector

variable {ι K D M : Type} [LinearOrder K] [CollectorData D] [Mediator D M] {ex : Bool}

/-- The data of a list of additions at a key. -/
def dataAt (key : K) (added : List (K × D)) : List D :=
  (added.filter fun e => e.1 == key).map Prod.snd

/-- What a list of additions comes to at a key. -/
def sumAt (ex : Bool) (added : List (K × D)) (key : K) : Option D := cellSum ex (dataAt key added)

def SoundList (added : List (K × D)) : Prop := ∀ e ∈ added, Sound e.2

variable {added more : List (K × D)} {data : D} {c c' : StatCollector K D ex} {key : K}

omit [LinearOrder K] in
theorem SoundList.append (sound : SoundList added) (soundMore : SoundList more) :
    SoundList (added ++ more) := by
  intro e there
  obtain there | there := List.mem_append.1 there
  · exact sound e there
  · exact soundMore e there

theorem SoundList.dataAt (sound : SoundList added) (key : K) : ∀ d ∈ dataAt key added, Sound d := by
  intro d there
  obtain ⟨e, inside, rfl⟩ := List.mem_map.1 there
  exact sound e (List.mem_filter.1 inside).1

omit [CollectorData D] in
theorem dataAt_append (key : K) (added more : List (K × D)) :
    dataAt key (added ++ more) = dataAt key added ++ dataAt key more := by
  simp [dataAt]

theorem sumAt_append (sound : SoundList added) (soundMore : SoundList more) (key : K) :
    sumAt ex (added ++ more) key = combine ex (sumAt ex added key) (sumAt ex more key) := by
  unfold sumAt
  rw [dataAt_append, cellSum_append (sound.dataAt key) (soundMore.dataAt key)]

theorem sumAt_perm {added other : List (K × D)} (same : added.Perm other)
    (sound : SoundList added) (key : K) : sumAt ex added key = sumAt ex other key :=
  cellSum_perm ((same.filter _).map _) (sound.dataAt key)

theorem sumAt_singleton (key : K) (sound : Sound data) (k : K) :
    sumAt ex [(key, data)] k = if k = key then keep ex data else none := by
  unfold sumAt dataAt
  by_cases same : k = key
  · subst same
    rw [if_pos rfl, ← cellSum_singleton sound]
    simp
  · rw [if_neg same]
    simp [cellSum, Ne.symm same]

theorem cellSound_sumAt (sound : SoundList added) (key : K) : CellSound ex (sumAt ex added key) :=
  cellSound_cellSum (sound.dataAt key)

/-- The collector has, at every key, what it had and what was added. -/
def Extends (c c' : StatCollector K D ex) (added : List (K × D)) : Prop :=
  ∀ k, c'.find? k = combine ex (c.find? k) (sumAt ex added k)

theorem Extends.clean (extends_ : Extends c c' added) (clean : c.Clean) (sound : SoundList added) :
    c'.Clean := by
  intro k
  rw [extends_ k]
  exact cellSound_combine (clean k) (cellSound_sumAt sound k)

theorem extends_insertion (sound : Sound data)
    (at_key : c'.find? key = combine ex (c.find? key) (keep ex data))
    (elsewhere : ∀ k, k ≠ key → c'.find? k = c.find? k) : Extends c c' [(key, data)] := by
  intro k
  rw [sumAt_singleton key sound]
  by_cases same : k = key
  · subst same
    rw [if_pos rfl, at_key]
  · rw [if_neg same, combine_none, elsewhere k same]

/-- What `add` must not do: bring a null to a key that has nothing. -/
def AddMeets (c : StatCollector K D ex) (key : K) (data : D) : Prop :=
  Sound data ∧ (excluded ex data = true → c.find? key ≠ none)

theorem extends_add (clean : c.Clean) {data : M} (fit : Fit D data)
    (meets : AddMeets c key (convert data)) : Extends c (c.add key data) [(key, convert data)] := by
  apply extends_insertion meets.1
  · rw [find?_add, if_pos rfl]
    apply cellAfter_eq (clean key) meets.1 _ meets.2
    intro old there
    exact plusOf_eq (clean key old there).1 fit
  · intro k other
    rw [find?_add, if_neg other]

theorem extends_emplaceOrMerge (clean : c.Clean) (meets : AddMeets c key data) :
    Extends c (c.emplaceOrMerge key data) [(key, data)] := by
  apply extends_insertion meets.1
  · rw [find?_emplaceOrMerge, if_pos rfl]
    apply cellAfter_eq (clean key) meets.1 _ meets.2
    intro old there
    exact mergeData_eq (clean key old there).1 meets.1
  · intro k other
    rw [find?_emplaceOrMerge, if_neg other]

theorem extends_mergeElem (clean : c.Clean) (sound : Sound data) :
    Extends c (if excluded ex data then c else c.emplaceOrMerge key data) [(key, data)] := by
  apply extends_insertion sound
  · rw [find?_mergeElem c (key, data), if_pos rfl]
    apply cellUnlessExcluded_eq (clean key) sound
    intro old there
    exact mergeData_eq (clean key old there).1 sound
  · intro k other
    rw [find?_mergeElem c (key, data), if_neg other]

theorem extends_addElem (clean : c.Clean) {value : K × D} (sound : Sound value.2) :
    Extends c (c.addElem value) [value] := by
  apply extends_insertion sound
  · rw [find?_addElem, if_pos rfl]
    exact cellUnlessExcluded_eq (clean value.1) sound fun _ _ => rfl
  · intro k other
    rw [find?_addElem, if_neg other]

theorem Extends.trans {c c' c'' : StatCollector K D ex} (clean : c.Clean) (sound : SoundList added)
    (soundMore : SoundList more) (first : Extends c c' added) (second : Extends c' c'' more) :
    Extends c c'' (added ++ more) := by
  intro k
  rw [second k, first k, sumAt_append sound soundMore,
    combine_assoc (clean k) (cellSound_sumAt sound k) (cellSound_sumAt soundMore k)]

theorem Extends.refl (c : StatCollector K D ex) : Extends c c [] := fun _ => (combine_none _).symm

/-- Each addition of a container meets what `add` needs, at its turn. -/
def AddsMeet : StatCollector K D ex → List (K × M) → Prop
  | _, [] => True
  | c, value :: rest =>
    Fit D value.2 ∧ AddMeets c value.1 (convert value.2) ∧ AddsMeet (c.add value.1 value.2) rest

/-- The additions that a container stands for. -/
def additions (container : List (K × M)) : List (K × D) :=
  container.map fun value => (value.1, convert value.2)

theorem extends_plusContainer (clean : c.Clean) {container : List (K × M)}
    (meets : AddsMeet c container) :
    SoundList (additions (D := D) container) ∧
      Extends c (c.plusContainer container) (additions container) := by
  induction container generalizing c with
  | nil => exact ⟨nofun, .refl c⟩
  | cons value rest ih =>
    obtain ⟨fit, first, later⟩ := meets
    have sound : SoundList [(value.1, (convert value.2 : D))] := by
      intro e there
      obtain rfl := List.mem_singleton.1 there
      exact first.1
    have step := extends_add clean fit first
    obtain ⟨soundRest, extends_⟩ := ih (step.clean clean sound) later
    exact ⟨sound.append soundRest, step.trans clean sound soundRest extends_⟩

end StatCollector

open StatCollector

/-- A call on the collector `i`; a second collector `j` may be the same one. -/
inductive Call (ι K D M : Type) where
  | add (i : ι) (key : K) (data : M)
  | addData (i : ι) (key : K) (data : D)
  | addKeyData (i : ι) (key : K) (data : D)
  | addValue (i : ι) (value : K × D)
  | addMovedValue (i : ι) (value : K × D)
  | moveData (i : ι) (key : K) (data : D)
  | moveKeyData (i : ι) (key : K) (data : D)
  | plus (i j : ι)
  | plusMoved (i j : ι)
  | plusContainer (i : ι) (container : List (K × M))
  | merge (i j : ι)
  | mergeMoved (i j : ι)
  | load (i : ι) (lines : List String)

namespace Call

variable {ι K D M : Type} [DecidableEq ι] [LinearOrder K] [CollectorData D] [Mediator D M]
  {ex : Bool} [IterationOrder K D]

section Collectors

variable (cs : ι → StatCollector K D ex)

def change (i : ι) (f : StatCollector K D ex → StatCollector K D ex) : ι → StatCollector K D ex :=
  Function.update cs i (f (cs i))

/-- `operator+=(const StatCollector&)`, and `merge(const StatCollector&)`. -/
def plusCopy (i j : ι) : ι → StatCollector K D ex :=
  if i = j then change cs i plusSelf else change cs i fun c => c.plus (cs j)

/-- `merge(StatCollector&&)`, and `operator+=(StatCollector&&)`. -/
def plusMove (i j : ι) : ι → StatCollector K D ex :=
  if i = j then change cs i mergeMovedSelf
  else
    let merged := (cs i).mergeMoved (cs j)
    Function.update (Function.update cs j merged.2) i merged.1

variable (read : String → Option (K × D)) (stopAtBlankLine : Bool)

/-- The collectors after a call; a `load` that throws has changed nothing. -/
def run : Call ι K D M → ι → StatCollector K D ex
  | add i key data => change cs i fun c => c.add key data
  | addData i key data => change cs i fun c => c.addData key data
  | addKeyData i key data => change cs i fun c => c.addKeyData key data
  | addValue i value => change cs i fun c => c.addValue value
  | addMovedValue i value => change cs i fun c => c.addMovedValue value
  | moveData i key data => change cs i fun c => c.moveData key data
  | moveKeyData i key data => change cs i fun c => c.moveKeyData key data
  | plus i j => plusCopy cs i j
  | plusMoved i j => plusMove cs i j
  | plusContainer i container => change cs i fun c => c.plusContainer container
  | merge i j => plusCopy cs i j
  | mergeMoved i j => plusMove cs i j
  | load i lines => change cs i fun c => (c.load read stopAtBlankLine lines).getD c

end Collectors

section Additions

variable (added : ι → List (K × D))

def give (i : ι) (more : List (K × D)) : ι → List (K × D) :=
  Function.update added i (added i ++ more)

/-- What a moved collector gives up. -/
def giveUp (i j : ι) : ι → List (K × D) :=
  Function.update (if i = j then added else Function.update added j []) i (added i ++ added j)

/-- What a file gives, if it could be read. -/
def giveLoaded (i : ι) : Option (SortedMap K D) → ι → List (K × D)
  | none => added
  | some tmp => give added i tmp.entries

variable (read : String → Option (K × D)) (stopAtBlankLine : Bool)

/-- What has been added to each collector after a call, as if it copied. -/
def record : Call ι K D M → ι → List (K × D)
  | add i key data => give added i [(key, convert data)]
  | addData i key data => give added i [(key, data)]
  | addKeyData i key data => give added i [(key, data)]
  | addValue i value => give added i [value]
  | addMovedValue i value => give added i [value]
  | moveData i key data => give added i [(key, data)]
  | moveKeyData i key data => give added i [(key, data)]
  | plus i j => give added i (added j)
  | plusMoved i j => giveUp added i j
  | plusContainer i container => give added i (additions container)
  | merge i j => give added i (added j)
  | mergeMoved i j => giveUp added i j
  | load i lines => giveLoaded added i (loadI read stopAtBlankLine SortedMap.empty lines)

end Additions

/-- A collector moved into itself merges nothing, so its data must be their own doubles. -/
def SelfMoveMeets (c : StatCollector K D ex) : Prop :=
  ∀ k data, c.find? k = some data → SoundSum.plus data data = data

/-- What is loaded into an empty collector must hold no null where nulls are excluded. -/
def LoadMeets (read : String → Option (K × D)) (stopAtBlankLine : Bool) (c : StatCollector K D ex)
    (lines : List String) : Prop :=
  ∀ tmp, loadI read stopAtBlankLine SortedMap.empty lines = some tmp →
    ∀ e ∈ tmp.entries, Sound e.2 ∧ (c.isEmpty = true → excluded ex e.2 = false)

/-- The call reaches no path that skips the exclusion or the self merge. -/
def Meets (read : String → Option (K × D)) (stopAtBlankLine : Bool)
    (cs : ι → StatCollector K D ex) : Call ι K D M → Prop
  | add i key data => Fit D data ∧ AddMeets (cs i) key (convert data)
  | addData i key data => AddMeets (cs i) key data
  | addKeyData i key data => AddMeets (cs i) key data
  | addValue _ value => Sound value.2
  | addMovedValue _ value => Sound value.2
  | moveData _ _ data => Sound data
  | moveKeyData _ _ data => Sound data
  | plus _ _ => True
  | plusMoved i j => i = j → SelfMoveMeets (cs i)
  | plusContainer i container => AddsMeet (cs i) container
  | merge _ _ => True
  | mergeMoved i j => i = j → SelfMoveMeets (cs i)
  | load i lines => LoadMeets read stopAtBlankLine (cs i) lines

/-- Every collector is the sum of what was added to it. -/
def Summed (cs : ι → StatCollector K D ex) (added : ι → List (K × D)) : Prop :=
  ∀ i, SoundList (added i) ∧ ∀ k, (cs i).find? k = sumAt ex (added i) k

variable {cs : ι → StatCollector K D ex} {added : ι → List (K × D)} {more : List (K × D)}
  {read : String → Option (K × D)} {stopAtBlankLine : Bool}

omit [DecidableEq ι] [IterationOrder K D] in
theorem Summed.clean (summed : Summed cs added) (i : ι) : (cs i).Clean := by
  intro k
  rw [(summed i).2 k]
  exact cellSound_sumAt (summed i).1 k

omit [IterationOrder K D] in
theorem Summed.update (summed : Summed cs added) (i : ι) {c : StatCollector K D ex}
    (sound : SoundList more) (sums : ∀ k, c.find? k = sumAt ex more k) :
    Summed (Function.update cs i c) (Function.update added i more) := by
  intro i'
  by_cases same : i' = i
  · subst same
    rw [Function.update_self, Function.update_self]
    exact ⟨sound, sums⟩
  · rw [Function.update_of_ne same, Function.update_of_ne same]
    exact summed i'

omit [IterationOrder K D] in
theorem Summed.give (summed : Summed cs added) (i : ι)
    {f : StatCollector K D ex → StatCollector K D ex} (sound : SoundList more)
    (extends_ : Extends (cs i) (f (cs i)) more) : Summed (change cs i f) (give added i more) := by
  apply summed.update i ((summed i).1.append sound)
  intro k
  rw [extends_ k, (summed i).2 k, sumAt_append (summed i).1 sound]

omit [LinearOrder K] [IterationOrder K D] in
theorem soundList_singleton {value : K × D} (sound : Sound value.2) : SoundList [value] := by
  intro e there
  obtain rfl := List.mem_singleton.1 there
  exact sound

theorem Summed.plusCopy (summed : Summed cs added) (i j : ι) :
    Summed (plusCopy cs i j) (Call.give added i (added j)) := by
  unfold Call.plusCopy
  split_ifs with same
  · subst same
    apply summed.give i (summed i).1
    intro k
    rw [find?_plusSelf (summed.clean i), (summed i).2 k]
  · apply summed.give i (summed j).1
    intro k
    rw [find?_plus (summed.clean i) (summed.clean j), (summed j).2 k]

theorem Summed.plusMove (summed : Summed cs added) (i j : ι)
    (meets : i = j → SelfMoveMeets (cs i)) : Summed (plusMove cs i j) (giveUp added i j) := by
  unfold Call.plusMove giveUp
  by_cases same : i = j
  · subst same
    rw [if_pos rfl, if_pos rfl]
    apply summed.give i (summed i).1
    intro k
    rw [← (summed i).2 k]
    change (cs i).find? k = _
    cases found : (cs i).find? k with
    | none => rfl
    | some data =>
      change some data = keep ex (SoundSum.plus data data)
      rw [meets rfl k data found, keep_of_find? (summed.clean i) found]
  · rw [if_neg same, if_neg same]
    have emptied : Summed (Function.update cs j ((cs i).mergeMoved (cs j)).2)
        (Function.update added j []) := by
      apply summed.update j fun _ there => absurd there List.not_mem_nil
      intro k
      rw [mergeMoved_snd]
      rfl
    apply emptied.update i ((summed i).1.append (summed j).1)
    intro k
    rw [find?_mergeMoved (summed.clean i) (summed.clean j), (summed i).2 k, (summed j).2 k,
      sumAt_append (summed i).1 (summed j).1]

omit [IterationOrder K D] in
theorem sumAt_entries {tmp : SortedMap K D} (sound : SoundList tmp.entries) (k : K) :
    sumAt ex tmp.entries k = (tmp.find? k).bind (keep ex) := by
  unfold sumAt dataAt
  rw [SortedMap.filter_entries]
  cases found : tmp.find? k with
  | none => rfl
  | some data => exact cellSum_singleton (sound _ (SortedMap.find?_eq_some.1 found))

theorem Summed.load (summed : Summed cs added) (i : ι) {lines : List String}
    (meets : LoadMeets read stopAtBlankLine (cs i) lines) :
    Summed (change cs i fun c => (c.load read stopAtBlankLine lines).getD c)
      (giveLoaded added i (loadI read stopAtBlankLine SortedMap.empty lines)) := by
  unfold StatCollector.load
  cases loaded : loadI read stopAtBlankLine SortedMap.empty lines with
  | none =>
    change Summed (Function.update cs i (cs i)) added
    rw [Function.update_eq_self]
    exact summed
  | some tmp =>
    have held := meets tmp loaded
    have sound : SoundList tmp.entries := fun e there => (held e there).1
    apply summed.give i sound
    intro k
    rw [sumAt_entries sound]
    refine find?_loadRead (summed.clean i) (fun k data found => ?_) (fun nothing k data found => ?_) k
    · exact sound _ (SortedMap.find?_eq_some.1 found)
    · exact (held _ (SortedMap.find?_eq_some.1 found)).2 nothing

theorem run_summed (summed : Summed cs added) (call : Call ι K D M)
    (meets : call.Meets read stopAtBlankLine cs) :
    Summed (call.run cs read stopAtBlankLine) (call.record added read stopAtBlankLine) := by
  cases call with
  | add i key data =>
    obtain ⟨fit, meets⟩ := meets
    exact summed.give i (soundList_singleton meets.1) (extends_add (summed.clean i) fit meets)
  | addData i key data =>
    exact summed.give i (soundList_singleton meets.1)
      (extends_emplaceOrMerge (summed.clean i) meets)
  | addKeyData i key data =>
    exact summed.give i (soundList_singleton meets.1)
      (extends_emplaceOrMerge (summed.clean i) meets)
  | addValue i value =>
    exact summed.give i (soundList_singleton meets) (extends_addElem (summed.clean i) meets)
  | addMovedValue i value =>
    exact summed.give i (soundList_singleton meets) (extends_mergeElem (summed.clean i) meets)
  | moveData i key data =>
    exact summed.give i (soundList_singleton meets) (extends_mergeElem (summed.clean i) meets)
  | moveKeyData i key data =>
    exact summed.give i (soundList_singleton meets) (extends_mergeElem (summed.clean i) meets)
  | plus i j => exact summed.plusCopy i j
  | plusMoved i j => exact summed.plusMove i j meets
  | plusContainer i container =>
    obtain ⟨sound, extends_⟩ := extends_plusContainer (summed.clean i) meets
    exact summed.give i sound extends_
  | merge i j => exact summed.plusCopy i j
  | mergeMoved i j => exact summed.plusMove i j meets
  | load i lines => exact summed.load i meets

section Runs

variable (read : String → Option (K × D)) (stopAtBlankLine : Bool)

def runAll (calls : List (Call ι K D M)) (cs : ι → StatCollector K D ex) :
    ι → StatCollector K D ex :=
  calls.foldl (fun cs call => call.run cs read stopAtBlankLine) cs

def recordAll (calls : List (Call ι K D M)) (added : ι → List (K × D)) : ι → List (K × D) :=
  calls.foldl (fun added call => call.record added read stopAtBlankLine) added

def AllMeet : List (Call ι K D M) → (ι → StatCollector K D ex) → Prop
  | [], _ => True
  | call :: rest, cs =>
    call.Meets read stopAtBlankLine cs ∧ AllMeet rest (call.run cs read stopAtBlankLine)

def start : ι → StatCollector K D ex := fun _ => StatCollector.empty

def nothingAdded : ι → List (K × D) := fun _ => []

end Runs

omit [DecidableEq ι] [IterationOrder K D] in
theorem start_summed : Summed (start : ι → StatCollector K D ex) nothingAdded :=
  fun _ => ⟨fun _ there => absurd there List.not_mem_nil, fun _ => rfl⟩

theorem runAll_summed {calls : List (Call ι K D M)} (summed : Summed cs added)
    (meet : AllMeet read stopAtBlankLine calls cs) :
    Summed (runAll read stopAtBlankLine calls cs) (recordAll read stopAtBlankLine calls added) := by
  induction calls generalizing cs added with
  | nil => exact summed
  | cons call rest ih => exact ih (run_summed summed call meet.1) meet.2

omit [DecidableEq ι] [IterationOrder K D] in
theorem Summed.eq_of_perm {ι' : Type} {cs' : ι' → StatCollector K D ex} {added' : ι' → List (K × D)}
    (summed : Summed cs added) (summed' : Summed cs' added') {i : ι} {i' : ι'}
    (same : (added i).Perm (added' i')) : cs i = cs' i' := by
  refine ext_find fun k => ?_
  rw [(summed i).2 k, (summed' i').2 k, sumAt_perm same (summed i).1]

/-- Every collector holds, key by key, the sum of what was added to it, and no excluded null. -/
def SumsUp (cs : ι → StatCollector K D ex) (added : ι → List (K × D)) : Prop :=
  ∀ i k, (cs i).find? k = sumAt ex (added i) k ∧
    ∀ data, (cs i).find? k = some data → excluded ex data = false

omit [DecidableEq ι] [IterationOrder K D] in
theorem Summed.sumsUp (summed : Summed cs added) : SumsUp cs added :=
  fun i k => ⟨(summed i).2 k, fun data found => (summed.clean i k data found).2⟩

/-- Where no null reaches a key that has nothing through a path that does not look, and nothing
is moved into itself, collectors are sums, the same for the same additions in any order. -/
theorem run_sumsUp {ι' : Type} [DecidableEq ι'] (read : String → Option (K × D))
    (stopAtBlankLine : Bool) {calls : List (Call ι K D M)} {calls' : List (Call ι' K D M)}
    (meet : AllMeet read stopAtBlankLine calls (start : ι → StatCollector K D ex))
    (meet' : AllMeet read stopAtBlankLine calls' (start : ι' → StatCollector K D ex)) :
    SumsUp (runAll read stopAtBlankLine calls (start : ι → StatCollector K D ex))
        (recordAll read stopAtBlankLine calls nothingAdded) ∧
      ∀ i i', (recordAll read stopAtBlankLine calls nothingAdded i).Perm
          (recordAll read stopAtBlankLine calls' nothingAdded i') →
        runAll read stopAtBlankLine calls (start : ι → StatCollector K D ex) i =
          runAll read stopAtBlankLine calls' (start : ι' → StatCollector K D ex) i' := by
  have summed := runAll_summed start_summed meet
  have summed' := runAll_summed start_summed meet'
  exact ⟨summed.sumsUp, fun i i' same => summed.eq_of_perm summed' same⟩

section Integers

local instance integers : CollectorData ℤ := .elementary (fun d => d == 0) fun d => by simp

local instance : IterationOrder ℕ ℤ := .ordered ℕ ℤ

def movedCalls : List (Call Bool ℕ ℤ ℤ) :=
  [.add false 1 5, .addData false 2 3, .add false 1 (-5), .plusMoved true false]

def copiedCalls : List (Call Unit ℕ ℤ ℤ) :=
  [.addValue () (2, 3), .moveData () 1 5, .addMovedValue () (1, -5)]

/-- A sum that comes to nothing leaves no key, by copying or by moving. -/
theorem run_sumsUp_movedOrCopied :
    runAll (fun _ => none) true movedCalls (start : Bool → StatCollector ℕ ℤ true) true =
      runAll (fun _ => none) true copiedCalls (start : Unit → StatCollector ℕ ℤ true) () := by
  have moved : AllMeet (fun _ => none) true movedCalls
      (start : Bool → StatCollector ℕ ℤ true) :=
    ⟨⟨trivial, trivial, by decide⟩, ⟨trivial, by decide⟩, ⟨trivial, trivial, by decide⟩, nofun,
      trivial⟩
  have copied : AllMeet (fun _ => none) true copiedCalls
      (start : Unit → StatCollector ℕ ℤ true) :=
    ⟨trivial, trivial, trivial, trivial⟩
  exact (run_sumsUp (fun _ => none) true moved copied).2 true () (by decide)

/-- `add` stores a null at a key that has nothing, and a collector moved into itself is not
doubled. -/
theorem not_sumsUp_nullAdded :
    ¬ SumsUp (runAll (fun _ => none) true ([.add () 1 0] : List (Call Unit ℕ ℤ ℤ))
          (start : Unit → StatCollector ℕ ℤ true))
        (recordAll (fun _ => none) true ([.add () 1 0] : List (Call Unit ℕ ℤ ℤ)) nothingAdded) ∧
      ¬ SumsUp (runAll (fun _ => none) true
          ([.addValue () (1, 5), .mergeMoved () ()] : List (Call Unit ℕ ℤ ℤ))
          (start : Unit → StatCollector ℕ ℤ true))
        (recordAll (fun _ => none) true
          ([.addValue () (1, 5), .mergeMoved () ()] : List (Call Unit ℕ ℤ ℤ)) nothingAdded) := by
  constructor
  · intro sumsUp
    exact absurd ((sumsUp () 1).2 0 rfl) (by decide)
  · intro sumsUp
    exact absurd (sumsUp () 1).1 (by decide)

end Integers

end Call

end AdServer.LogProcessing
