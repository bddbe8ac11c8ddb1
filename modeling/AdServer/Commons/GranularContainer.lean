import Mathlib.Data.List.AList
import Mathlib.Data.List.Induction

/-!
# Containers by version

Each version of a container is built from the one before it. An element that
is equal to that of the version before is taken over with its timestamp; ids
that are not active any more keep the time of their removal until they are
cleaned.

An element is an address, as its timestamp is in an object that several
containers share.
-/

namespace AdServer.Commons

abbrev TimestampValue := Int

section Containers

variable {Key Address Value : Type} [DecidableEq Key]

/-- `NoCopyGranularContainer`; its maps may be ordered or not. -/
structure GranularContainer (Key Address : Type) where
  active : AList fun _ : Key => Address := ∅
  inactive : AList fun _ : Key => TimestampValue := ∅

/-- The timestamps of the objects, and a container. -/
structure Versioned (Key Address : Type) where
  timestamps : Address → TimestampValue
  container : GranularContainer Key Address := {}

section Operations

variable [DecidableEq Address] [DecidableEq Value] (content : Address → Value)

/-- Whether the element is new, and the container with it. -/
def activate (id : Key) (val : Address) (sysdate : TimestampValue)
    (oldContainer : Option (GranularContainer Key Address)) (v : Versioned Key Address) :
    Bool × Versioned Key Address :=
  let inactive := v.container.inactive.erase id
  let old := (oldContainer.bind (·.active.lookup id)).filter (content val = content ·)
  match old with
  | some el => (false, { v with container := ⟨v.container.active.insert id el, inactive⟩ })
  | none =>
    let current := (v.container.active.lookup id).filter (content val = content ·)
    match current with
    | some _ => (false, { v with container := ⟨v.container.active, inactive⟩ })
    | none =>
      (true, ⟨Function.update v.timestamps val sysdate,
        ⟨v.container.active.insert id val, inactive⟩⟩)

/-- One element of a loop of `deactivate_nonactive`, and whether its id is inserted. -/
def deactivateEntry (id : Key) (timestamp : TimestampValue) (c : GranularContainer Key Address) :
    Bool × GranularContainer Key Address :=
  if c.active.lookup id = none ∧ c.inactive.lookup id = none then
    (true, { c with inactive := c.inactive.insert id timestamp })
  else (false, c)

/-- How many ids are deactivated now, and the container with them and those of before. -/
def deactivateNonactive (oldContainer : GranularContainer Key Address)
    (sysdate : TimestampValue) (c : GranularContainer Key Address) :
    Nat × GranularContainer Key Address :=
  let (count, c) := oldContainer.active.entries.foldl
    (fun (count, c) entry =>
      let (inserted, c) := deactivateEntry entry.1 sysdate c
      (count + inserted.toNat, c)) (0, c)
  (count, oldContainer.inactive.entries.foldl
    (fun c entry => (deactivateEntry entry.1 entry.2 c).2) c)

/-- The loop of `clean_deactivated`: what it has passed, and the new map once an element to erase
was found. -/
def cleanEntries (timestamp : TimestampValue) :
    List (Sigma fun _ : Key => TimestampValue) → List (Sigma fun _ : Key => TimestampValue) →
    Option (AList fun _ : Key => TimestampValue) → Option (AList fun _ : Key => TimestampValue)
  | _, [], found => found
  | passed, entry :: entries, found =>
    if entry.2 < timestamp then
      cleanEntries timestamp (passed ++ [entry]) entries (found <|> some passed.toAList)
    else
      cleanEntries timestamp (passed ++ [entry]) entries
        (found.map fun m => m.insert entry.1 entry.2)

def cleanDeactivated (timestamp : TimestampValue) (c : GranularContainer Key Address) :
    GranularContainer Key Address :=
  { c with inactive := (cleanEntries timestamp [] c.inactive.entries none).getD c.inactive }

end Operations

/-- What a version is built from: its elements in the order of their activation, its time, and the
time up to which its removals are cleaned, if they are. -/
structure Version (Key Address : Type) where
  elements : AList fun _ : Key => Address
  sysdate : TimestampValue
  cleaned : Option TimestampValue

variable [DecidableEq Value] (content : Address → Value)

/-- The element of the version before, where it is equal. -/
def reuse (old : GranularContainer Key Address) (id : Key) (val : Address) : Address :=
  ((old.active.lookup id).filter (content val = content ·)).getD val

theorem content_reuse {old : GranularContainer Key Address} {id : Key} {val : Address} :
    content (reuse content old id val) = content val := by
  unfold reuse
  cases equal : (old.active.lookup id).filter (content val = content ·) with
  | none => rfl
  | some el => exact (of_decide_eq_true (Option.filter_eq_some_iff.1 equal).2).symm

variable [DecidableEq Address]

/-- The elements are activated one by one, from an empty container. -/
def activateAll (old : Versioned Key Address) (version : Version Key Address) :
    Versioned Key Address :=
  version.elements.entries.foldl
    (fun v element =>
      (activate content element.1 element.2 version.sysdate (some old.container) v).2)
    { timestamps := old.timestamps }

def build (old : Versioned Key Address) (version : Version Key Address) :
    Versioned Key Address :=
  let v := activateAll content old version
  let c := (deactivateNonactive old.container version.sysdate v.container).2
  ⟨v.timestamps, (version.cleaned.map (cleanDeactivated · c)).getD c⟩

variable {content} {old c : GranularContainer Key Address} {id id' : Key}
variable {val el : Address} {sysdate timestamp : TimestampValue} {v : Versioned Key Address}

theorem activate_fresh (content : Address → Value) (old : GranularContainer Key Address)
    (val : Address) (sysdate : TimestampValue) (fresh : v.container.active.lookup id = none) :
    (activate content id val sysdate (some old) v).2.container =
      ⟨v.container.active.insert id (reuse content old id val), v.container.inactive.erase id⟩ ∧
    (old.active.lookup id = some (reuse content old id val) ∧
      (activate content id val sysdate (some old) v).2.timestamps = v.timestamps ∨
    reuse content old id val = val ∧
      (activate content id val sysdate (some old) v).2.timestamps =
        Function.update v.timestamps val sysdate) := by
  unfold activate reuse
  cases equal : (old.active.lookup id).filter (content val = content ·) with
  | none => simp [equal, fresh]
  | some el =>
    simp only [Option.bind_some, equal, Option.getD_some]
    exact ⟨trivial, .inl ⟨(Option.filter_eq_some_iff.1 equal).1, trivial⟩⟩

/-- What a list of elements does to a container that has none of them. -/
theorem foldl_activate (content : Address → Value) (old : GranularContainer Key Address)
    (sysdate : TimestampValue) {elements : List (Sigma fun _ : Key => Address)}
    (distinct : elements.NodupKeys)
    (fresh : ∀ id ∈ elements.keys, v.container.active.lookup id = none) :
    let v' := elements.foldl
      (fun v element => (activate content element.1 element.2 sysdate (some old) v).2) v
    (∀ id, v'.container.active.lookup id =
      (v.container.active.lookup id).or ((elements.dlookup id).map (reuse content old id))) ∧
    (∀ id, v.container.inactive.lookup id = none → v'.container.inactive.lookup id = none) ∧
    (∀ el, v'.timestamps el = v.timestamps el ∨ v'.timestamps el = sysdate) ∧
    ∀ id val, elements.dlookup id = some val →
      old.active.lookup id = some (reuse content old id val) ∨
        v'.timestamps (reuse content old id val) = sysdate := by
  induction elements generalizing v with
  | nil => simp
  | cons element elements ih =>
    obtain ⟨id', val'⟩ := element
    rw [List.nodupKeys_cons] at distinct
    obtain ⟨container, timestamps⟩ :=
      activate_fresh content old val' sysdate (fresh id' (by simp))
    set v₁ := (activate content id' val' sysdate (some old) v).2 with is_v₁
    have stamped (el : Address) :
        v₁.timestamps el = v.timestamps el ∨ v₁.timestamps el = sysdate := by
      obtain ⟨-, same⟩ | ⟨-, updated⟩ := timestamps
      · exact .inl (congrFun same el)
      · rw [updated]
        by_cases own : el = val'
        · exact .inr (own ▸ Function.update_self ..)
        · exact .inl (Function.update_of_ne own ..)
    obtain ⟨active, inactive, times, new⟩ := ih (v := v₁) distinct.2 (fun id member => by
      have ne : id ≠ id' := fun same => distinct.1 (same ▸ member)
      rw [container, AList.lookup_insert_ne ne]
      exact fresh id (by simp [member]))
    refine ⟨fun id => ?_, fun id absent => inactive id ?_, fun el => ?_, fun id val found => ?_⟩
    · rw [List.foldl_cons, ← is_v₁, active, container]
      by_cases same : id = id'
      · subst same
        rw [AList.lookup_insert, fresh id (by simp), List.dlookup_cons_eq]
        rfl
      · rw [AList.lookup_insert_ne same, List.dlookup_cons_ne _ _ same]
    · rw [container]
      by_cases same : id = id'
      · exact same ▸ AList.lookup_erase _ _
      · rwa [AList.lookup_erase_ne same]
    · obtain same | now := times el
      · exact same ▸ stamped el
      · exact .inr now
    · by_cases same : id = id'
      · subst same
        cases (List.dlookup_cons_eq _ _ _).symm.trans found
        obtain ⟨taken_over, -⟩ | ⟨own, updated⟩ := timestamps
        · exact .inl taken_over
        · right
          obtain kept | now := times (reuse content old id val')
          · rw [List.foldl_cons, ← is_v₁, kept, own, updated, Function.update_self]
          · exact now
      · exact new id val ((List.dlookup_cons_ne _ _ same).symm.trans found)

section Removals

omit [DecidableEq Value] [DecidableEq Address]

theorem active_deactivateEntry : (deactivateEntry id' timestamp c).2.active = c.active := by
  unfold deactivateEntry
  split_ifs <;> rfl

theorem lookup_deactivateEntry : (deactivateEntry id' timestamp c).2.inactive.lookup id =
    (c.inactive.lookup id).or
      (if id = id' ∧ c.active.lookup id = none then some timestamp else none) := by
  by_cases same : id = id'
  · subst same
    cases active : c.active.lookup id <;> cases inactive : c.inactive.lookup id <;>
      simp [deactivateEntry, active, inactive]
  · have other : ¬(id = id' ∧ c.active.lookup id = none) := fun both => same both.1
    rw [if_neg other, Option.or_none, deactivateEntry]
    split_ifs
    · exact AList.lookup_insert_ne same
    · rfl

/-- An id that is not active gets the timestamp of the first entry that has it. -/
theorem foldl_deactivateEntry {Entry : Type} (entries : List (Sigma fun _ : Key => Entry))
    (stamp : Entry → TimestampValue) (c : GranularContainer Key Address) :
    let c' := entries.foldl (fun c entry => (deactivateEntry entry.1 (stamp entry.2) c).2) c
    c'.active = c.active ∧ ∀ id, c'.inactive.lookup id =
      (c.inactive.lookup id).or
        (if c.active.lookup id = none then (entries.dlookup id).map stamp else none) := by
  induction entries generalizing c with
  | nil => simp
  | cons entry entries ih =>
    obtain ⟨active, inactive⟩ := ih (deactivateEntry entry.1 (stamp entry.2) c).2
    refine ⟨active.trans active_deactivateEntry, fun id => ?_⟩
    rw [List.foldl_cons, inactive, lookup_deactivateEntry, active_deactivateEntry, Option.or_assoc]
    congr 1
    by_cases same : id = entry.1
    · subst same
      rw [List.dlookup_cons_eq]
      split_ifs <;> simp_all
    · rw [List.dlookup_cons_ne _ _ same, if_neg (fun both => same both.1), Option.none_or]

/-- What was active or inactive before and is not active any more is inactive. -/
theorem lookup_deactivateNonactive (old c : GranularContainer Key Address)
    (sysdate : TimestampValue) :
    (deactivateNonactive old sysdate c).2.active = c.active ∧
    ∀ id, (deactivateNonactive old sysdate c).2.inactive.lookup id =
      (c.inactive.lookup id).or
        (if c.active.lookup id = none then
          ((old.active.lookup id).map fun _ => sysdate).or (old.inactive.lookup id)
        else none) := by
  have counted (entries : List (Sigma fun _ : Key => Address)) (n : Nat)
      (c : GranularContainer Key Address) : (entries.foldl
        (fun (count, c) entry =>
          let (inserted, c) := deactivateEntry entry.1 sysdate c
          (count + inserted.toNat, c)) (n, c)).2 =
        entries.foldl (fun c entry => (deactivateEntry entry.1 sysdate c).2) c := by
    induction entries generalizing n c with
    | nil => rfl
    | cons entry entries ih => exact ih _ _
  obtain ⟨active₁, inactive₁⟩ := foldl_deactivateEntry old.active.entries (fun _ => sysdate) c
  obtain ⟨active₂, inactive₂⟩ := foldl_deactivateEntry old.inactive.entries id
    (old.active.entries.foldl (fun c entry => (deactivateEntry entry.1 sysdate c).2) c)
  simp only [deactivateNonactive, counted]
  refine ⟨active₂.trans active₁, fun id => ?_⟩
  refine (inactive₂ id).trans ?_
  rw [inactive₁, active₁, Option.or_assoc, Option.map_id]
  congr 1
  split_ifs <;> rfl

/-- What the loop has found is what it has passed without what is to be erased. -/
theorem cleanEntries_spec (timestamp : TimestampValue)
    (entries passed : List (Sigma fun _ : Key => TimestampValue))
    (found : Option (AList fun _ : Key => TimestampValue))
    (distinct : (passed ++ entries).NodupKeys)
    (sofar : ∀ id, ((found.map AList.entries).getD passed).dlookup id =
      (passed.dlookup id).filter (timestamp ≤ ·)) (id : Key) :
    (((cleanEntries timestamp passed entries found).map AList.entries).getD
      (passed ++ entries)).dlookup id =
        ((passed ++ entries).dlookup id).filter (timestamp ≤ ·) := by
  induction entries generalizing passed found with
  | nil => simpa [cleanEntries] using sofar id
  | cons entry entries ih =>
    have absent : entry.1 ∉ passed.keys := by
      have once := (List.nodupKeys_cons.1 (List.nodupKeys_middle.1 distinct)).1
      exact fun member => once (List.keys_append ▸ List.mem_append_left _ member)
    rw [List.append_cons] at distinct ⊢
    have one (id : Key) : (passed ++ [entry]).dlookup id =
        if id = entry.1 then some entry.2 else passed.dlookup id := by
      rw [List.dlookup_append]
      by_cases same : id = entry.1
      · subst same
        rw [if_pos rfl, List.dlookup_eq_none.2 absent, List.dlookup_cons_eq, Option.none_or]
      · rw [if_neg same, List.dlookup_cons_ne _ _ same, List.dlookup_nil, Option.or_none]
    rw [cleanEntries]
    split_ifs with erased
    · refine ih _ _ distinct fun id => ?_
      have new : (((found <|> some passed.toAList).map AList.entries).getD
          (passed ++ [entry])).dlookup id = (passed.dlookup id).filter (timestamp ≤ ·) := by
        rw [← sofar id]
        cases found with
        | none => exact AList.lookup_to_alist passed
        | some m => rfl
      rw [new, one]
      by_cases same : id = entry.1
      · subst same
        rw [if_pos rfl, List.dlookup_eq_none.2 absent]
        simp [Option.filter, Int.not_le.2 erased]
      · rw [if_neg same]
    · refine ih _ _ distinct fun id => ?_
      have kept := sofar id
      rw [one]
      cases found with
      | none =>
        rw [Option.map_none, Option.map_none, Option.getD_none, one]
        split_ifs
        · simp [Option.filter, Int.not_lt.1 erased]
        · exact kept
      | some m =>
        rw [Option.map_some, Option.map_some, Option.getD_some]
        change (m.insert entry.1 entry.2).lookup id = _
        split_ifs with same
        · rw [same, AList.lookup_insert]
          simp [Option.filter, Int.not_lt.1 erased]
        · rw [AList.lookup_insert_ne same]
          exact kept

theorem lookup_cleanDeactivated :
    (cleanDeactivated timestamp c).active = c.active ∧ ∀ id,
      (cleanDeactivated timestamp c).inactive.lookup id =
        (c.inactive.lookup id).filter (timestamp ≤ ·) := by
  refine ⟨rfl, fun id => ?_⟩
  have spec := cleanEntries_spec timestamp c.inactive.entries [] none c.inactive.nodupKeys
    (fun _ => rfl) id
  rw [List.nil_append] at spec
  unfold cleanDeactivated
  cases found : cleanEntries timestamp [] c.inactive.entries none with
  | none => rwa [found] at spec
  | some m => rwa [found] at spec

end Removals

variable {old : Versioned Key Address} {version : Version Key Address} {since : TimestampValue}

theorem activateAll_spec (content : Address → Value) (old : Versioned Key Address)
    (version : Version Key Address) :
    let v := activateAll content old version
    (∀ id, v.container.active.lookup id =
      (version.elements.lookup id).map (reuse content old.container id)) ∧
    (∀ id, v.container.inactive.lookup id = none) ∧
    (∀ el, v.timestamps el = old.timestamps el ∨ v.timestamps el = version.sysdate) ∧
    ∀ id val, version.elements.lookup id = some val →
      old.container.active.lookup id = some (reuse content old.container id val) ∨
        v.timestamps (reuse content old.container id val) = version.sysdate := by
  obtain ⟨active, inactive, times, new⟩ := foldl_activate content old.container version.sysdate
    (v := { timestamps := old.timestamps }) version.elements.nodupKeys
    (fun id _ => AList.lookup_empty id)
  refine ⟨fun id => (active id).trans ?_, fun id => inactive id (AList.lookup_empty id), times, new⟩
  rw [AList.lookup_empty, Option.none_or]
  rfl

theorem active_build (id : Key) : (build content old version).container.active.lookup id =
    (version.elements.lookup id).map (reuse content old.container id) := by
  have kept := (lookup_deactivateNonactive old.container
    (activateAll content old version).container version.sysdate).1
  rw [← (activateAll_spec content old version).1 id, ← kept]
  unfold build
  cases version.cleaned with
  | none => rfl
  | some cleaned => exact congrArg (AList.lookup id) lookup_cleanDeactivated.1

theorem inactive_build (id : Key) : (build content old version).container.inactive.lookup id =
    (if version.elements.lookup id = none then
      ((old.container.active.lookup id).map fun _ => version.sysdate).or
        (old.container.inactive.lookup id)
    else none).filter fun timestamp => ∀ cleaned ∈ version.cleaned, cleaned ≤ timestamp := by
  obtain ⟨active, inactive, -, -⟩ := activateAll_spec content old version
  have removed := (lookup_deactivateNonactive old.container
    (activateAll content old version).container version.sysdate).2 id
  simp only [inactive, active, Option.none_or, Option.map_eq_none_iff] at removed
  rw [← removed]
  unfold build
  cases version.cleaned with
  | none =>
    simp only [Option.map_none, Option.getD_none]
    generalize AList.lookup id _ = found
    cases found with
    | none => rfl
    | some timestamp => exact (Option.filter_eq_some_iff.2 ⟨rfl, by simp⟩).symm
  | some cleaned =>
    refine (lookup_cleanDeactivated.2 id).trans ?_
    simp

theorem new_build {id : Key} {el : Address}
    (found : (build content old version).container.active.lookup id = some el) :
    old.container.active.lookup id = some el ∨
      (build content old version).timestamps el = version.sysdate := by
  rw [active_build, Option.map_eq_some_iff] at found
  obtain ⟨val, given, rfl⟩ := found
  exact (activateAll_spec content old version).2.2.2 id val given

theorem timestamps_build (content : Address → Value) (old : Versioned Key Address)
    (version : Version Key Address) (el : Address) :
    (build content old version).timestamps el = old.timestamps el ∨
      (build content old version).timestamps el = version.sysdate :=
  (activateAll_spec content old version).2.2.1 el

section Chains

variable (content)

/-- The versions that follow one another. -/
def chain (v : Versioned Key Address) (versions : List (Version Key Address)) :
    Versioned Key Address :=
  versions.foldl (build content) v

theorem chain_append (v : Versioned Key Address) (versions versions' : List (Version Key Address)) :
    chain content v (versions ++ versions') =
      chain content (chain content v versions) versions' := List.foldl_append

/-- The active values of a container. -/
def values (c : GranularContainer Key Address) (id : Key) : Option Value :=
  (c.active.lookup id).map content

/-- The values that the last version was built from. -/
def givenValues (versions : List (Version Key Address)) (id : Key) : Option Value :=
  (versions.getLast?.bind (·.elements.lookup id)).map content

def lastStamp (start : TimestampValue) (versions : List (Version Key Address)) : TimestampValue :=
  (versions.getLast?.map Version.sysdate).getD start

/-- The removals and the elements that are younger than the version of a client, applied to its
values. -/
def caughtUp (timestamps : Address → TimestampValue) (since : TimestampValue)
    (client : Key → Option Value) (c : GranularContainer Key Address) (id : Key) : Option Value :=
  match (c.active.lookup id).filter (since < timestamps ·) with
  | some el => some (content el)
  | none => if ((c.inactive.lookup id).filter (since < ·)).isSome then none else client id

variable {content} {v : Versioned Key Address} {versions : List (Version Key Address)}
variable {id : Key} {el : Address}

section
variable (later : ∀ version ∈ versions, since < version.sysdate)
include later

/-- An object has its timestamp since an old version, unless the timestamp is younger. -/
theorem timestamps_of_old (unstamped : (chain content v versions).timestamps el ≤ since) :
    v.timestamps el = (chain content v versions).timestamps el := by
  induction versions generalizing v with
  | nil => rfl
  | cons version versions ih =>
    have same := ih (v := build content v version)
      (fun version member => later version (List.mem_cons_of_mem _ member)) unstamped
    obtain kept | now := timestamps_build content v version el
    · exact kept.symm.trans same
    · have early : version.sysdate ≤ since := now ▸ same ▸ unstamped
      exact absurd early (Int.not_le.2 (later version List.mem_cons_self))

/-- An element with an old timestamp was active already. -/
theorem unchanged_of_old (found : (chain content v versions).container.active.lookup id = some el)
    (unstamped : (chain content v versions).timestamps el ≤ since) :
    v.container.active.lookup id = some el := by
  induction versions generalizing v with
  | nil => exact found
  | cons version versions ih =>
    have others : ∀ version ∈ versions, since < version.sysdate := fun version member =>
      later version (List.mem_cons_of_mem _ member)
    have before := ih (v := build content v version) others found unstamped
    obtain same | now := new_build before
    · exact same
    · have kept := timestamps_of_old (v := build content v version) others unstamped
      have early : version.sysdate ≤ since := now ▸ kept ▸ unstamped
      exact absurd early (Int.not_le.2 (later version List.mem_cons_self))

end

/-- The id is active, or its removal is younger than the version of the client. -/
def Noted (since : TimestampValue) (c : GranularContainer Key Address) (id : Key) : Prop :=
  c.active.lookup id = none → ∃ timestamp, c.inactive.lookup id = some timestamp ∧ since < timestamp

theorem noted_build (later : since < version.sysdate)
    (kept : ∀ cleaned ∈ version.cleaned, cleaned ≤ since) (noted : Noted since v.container id) :
    Noted since (build content v version).container id := by
  intro absent
  rw [active_build, Option.map_eq_none_iff] at absent
  obtain ⟨timestamp, removed, younger⟩ : ∃ timestamp,
      ((v.container.active.lookup id).map fun _ => version.sysdate).or
        (v.container.inactive.lookup id) = some timestamp ∧ since < timestamp := by
    cases active : v.container.active.lookup id with
    | none => exact noted active
    | some el => exact ⟨version.sysdate, rfl, later⟩
  refine ⟨timestamp, ?_, younger⟩
  rw [inactive_build, if_pos absent, removed]
  refine Option.filter_eq_some_iff.2 ⟨rfl, decide_eq_true fun cleaned member => ?_⟩
  exact Int.le_trans (kept cleaned member) (Int.le_of_lt younger)

theorem noted_chain (later : ∀ version ∈ versions, since < version.sysdate)
    (kept : ∀ version ∈ versions, ∀ cleaned ∈ version.cleaned, cleaned ≤ since)
    (noted : Noted since v.container id) : Noted since (chain content v versions).container id := by
  induction versions generalizing v with
  | nil => exact noted
  | cons version versions ih =>
    exact ih (fun version member => later version (List.mem_cons_of_mem _ member))
      (fun version member => kept version (List.mem_cons_of_mem _ member))
      (noted_build (later version List.mem_cons_self) (kept version List.mem_cons_self) noted)

theorem values_chain (start : Address → TimestampValue) :
    values content (chain content ⟨start, {}⟩ versions).container =
      givenValues content versions := by
  funext id
  cases versions using List.reverseRecOn with
  | nil => rfl
  | append_singleton versions version =>
    rw [values, chain, List.foldl_append, List.foldl_cons, List.foldl_nil, active_build,
      givenValues, List.getLast?_concat, Option.bind_some, Option.map_map]
    cases version.elements.lookup id with
    | none => rfl
    | some val => exact congrArg some (content_reuse content)

theorem apart_chain (start : Address → TimestampValue)
    (found : (chain content ⟨start, {}⟩ versions).container.active.lookup id = some el) :
    (chain content ⟨start, {}⟩ versions).container.inactive.lookup id = none := by
  cases versions using List.reverseRecOn with
  | nil => rfl
  | append_singleton versions version =>
    rw [chain, List.foldl_append, List.foldl_cons, List.foldl_nil] at found ⊢
    rw [active_build, Option.map_eq_some_iff] at found
    obtain ⟨val, given, -⟩ := found
    rw [inactive_build, if_neg (by simp [given])]
    rfl

/-- `earlier` are the versions up to that of the client, `between` those up to that of the
container it gets, and `after` are any others that may have given an object a younger timestamp
by then. -/
theorem chain_catches_up (content : Address → Value) (start : Address → TimestampValue)
    (before : TimestampValue) (earlier between after : List (Version Key Address))
    (increasing : (before :: (earlier ++ between ++ after).map Version.sysdate).Pairwise (· < ·))
    (kept : ∀ version ∈ between, ∀ cleaned ∈ version.cleaned,
      cleaned ≤ lastStamp before earlier) :
    let client := (chain content ⟨start, {}⟩ earlier).container
    let current := (chain content ⟨start, {}⟩ (earlier ++ between)).container
    let timestamps := (chain content ⟨start, {}⟩ (earlier ++ between ++ after)).timestamps
    (∀ id, current.active.lookup id = none ∨ current.inactive.lookup id = none) ∧
    values content current = givenValues content (earlier ++ between) ∧
    caughtUp content timestamps (lastStamp before earlier) (values content client) current =
      givenValues content (earlier ++ between) := by
  intro client current timestamps
  have later : ∀ version ∈ between ++ after, lastStamp before earlier < version.sysdate := by
    rw [List.append_assoc, List.map_append, ← List.cons_append, List.pairwise_append] at increasing
    intro version member
    refine increasing.2.2 _ ?_ _ (List.mem_map_of_mem member)
    rw [lastStamp]
    cases last : earlier.getLast? with
    | none => exact List.mem_cons_self
    | some version =>
      exact List.mem_cons_of_mem _ (List.mem_map_of_mem (List.mem_of_getLast? last))
  have is_values : values content current = givenValues content (earlier ++ between) :=
    values_chain start
  refine ⟨fun id => ?_, is_values, ?_⟩
  · cases active : current.active.lookup id with
    | none => exact .inl rfl
    | some el => exact .inr (apart_chain start active)
  · rw [← is_values]
    funext id
    unfold caughtUp
    cases active : current.active.lookup id with
    | none =>
      rw [values, values, active, Option.filter_none]
      change ite _ _ _ = none
      cases known : client.active.lookup id with
      | none => exact ite_self none
      | some el =>
        -- it was removed since then
        have noted : Noted (lastStamp before earlier) client id := fun absent =>
          absurd absent (by simp [known])
        have noted_now : Noted (lastStamp before earlier) current id := by
          change Noted _ (chain content ⟨start, {}⟩ (earlier ++ between)).container id
          rw [chain_append]
          exact noted_chain
            (fun version member => later version (List.mem_append_left _ member)) kept noted
        obtain ⟨timestamp, removed, younger⟩ := noted_now active
        rw [removed, if_pos]
        simp [Option.filter, younger]
    | some el =>
      by_cases younger : lastStamp before earlier < timestamps el
      · simp [Option.filter, younger, values, active]
      · -- it has not changed since then, and it is not inactive
        have hidden : (some el).filter (lastStamp before earlier < timestamps ·) = none := by
          simp [Option.filter, younger]
        have same : (chain content ⟨start, {}⟩ (earlier ++ between)).timestamps el =
            timestamps el := by
          change _ = (chain content ⟨start, {}⟩ (earlier ++ between ++ after)).timestamps el
          rw [chain_append content _ (earlier ++ between)]
          refine timestamps_of_old
            (fun version member => later version (List.mem_append_right between member)) ?_
          rw [← chain_append]
          exact Int.not_lt.1 younger
        have unchanged : client.active.lookup id = some el := by
          have found : (chain content (chain content ⟨start, {}⟩ earlier)
              between).container.active.lookup id = some el := by
            rw [← chain_append]
            exact active
          refine unchanged_of_old
            (fun version member => later version (List.mem_append_left _ member)) found ?_
          rw [← chain_append, same]
          exact Int.not_lt.1 younger
        rw [hidden, apart_chain start active, values, values, active, unchanged]
        rfl

end Chains

end Containers

/-- The value of an id is removed, and comes back in another object; the removals are cleaned up to
the version of the client. -/
def comesBack : List (Version Nat Nat) :=
  [⟨∅, 2, none⟩, ⟨(∅ : AList fun _ : Nat => Nat).insert 7 1, 3, some 1⟩]

theorem chain_catches_up_comesBack :
    let content : Nat → Char := fun _ => 'a'
    let earlier := [⟨(∅ : AList fun _ : Nat => Nat).insert 7 0, 1, none⟩]
    let current := chain content ⟨fun _ => 0, {}⟩ (earlier ++ comesBack)
    caughtUp content current.timestamps 1
      (values content (chain content ⟨fun _ => 0, {}⟩ earlier).container) current.container 7 =
      some 'a' :=
  congrFun (chain_catches_up (fun _ => 'a') (fun _ => 0) 0
    [⟨(∅ : AList fun _ : Nat => Nat).insert 7 0, 1, none⟩] comesBack []
    (by decide) (by decide)).2.2 7

end AdServer.Commons
