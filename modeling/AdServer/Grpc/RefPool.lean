import AdServer.Lib.SortedMap
import AdServer.Grpc.BatchingQueue
import Mathlib.Data.Prod.Lex

/-!
# The pool of references

A holder is available, bad until its time has come, on trial, or being probed
by the references that share a guard. Old references may still report it bad in
any of these places, and guards of earlier probes may end in any of them.
-/

namespace AdServer.Grpc

open AdServer.Lib AdServer.Lib.Runs SortedMap

/-- A holder is known by its address. What the pool only writes of it is left out. -/
structure RefHolder where
  bad : Bool := false
  probing : Bool := false
  badBeforeTime : Option Time := none
  deriving DecidableEq

/-- `ProbeGuard`, by its number and its holder. -/
structure ProbeGuard where
  number : Nat
  refHolder : Nat
  deriving DecidableEq

structure Ref where
  refHolder : Nat
  probeGuard : Option ProbeGuard
  deriving DecidableEq

/-- By the time first, and then by the address. -/
abbrev BadRefKey := Time ×ₗ Nat

def BadRefKey.of (badBeforeTime : Time) (refHolder : Nat) : BadRefKey :=
  toLex (badBeforeTime, refHolder)

def BadRefKey.badBeforeTime (key : BadRefKey) : Time := (ofLex key).1

def BadRefKey.refHolder (key : BadRefKey) : Nat := (ofLex key).2

structure RefPool where
  refHolders : Nat → RefHolder
  availableRefHolders : List Nat
  tryRefHolders : List Nat
  badRefHolders : SortedMap BadRefKey Nat
  scheduledBadTime : Option Time
  nextRefIndex : Nat
  tryRefCount : Nat

namespace RefPool

/-- After `init_refs_`. -/
def new (holders : List Nat) : RefPool :=
  ⟨fun _ => {}, holders, [], .empty, none, 0, 0⟩

def setHolder (p : RefPool) (h : Nat) (holder : RefHolder) : RefPool :=
  { p with refHolders := Function.update p.refHolders h holder }

/-- The locked section of `get_object` that takes a holder for trial. -/
def takeTry (p : RefPool) : Option (RefPool × Nat) :=
  p.tryRefHolders.getLast?.map fun h =>
    ({ p.setHolder h { p.refHolders h with probing := true } with
      tryRefHolders := p.tryRefHolders.dropLast
      tryRefCount := p.tryRefHolders.dropLast.length }, h)

/-- The first part of `mark_as_bad_`: the holder leaves the place where it is found. -/
def remove (p : RefPool) (h : Nat) : RefPool :=
  if h ∈ p.availableRefHolders then
    { p with availableRefHolders := p.availableRefHolders.erase h }
  else
    match (p.refHolders h).badBeforeTime with
    | some time => { p with badRefHolders := p.badRefHolders.erase (.of time h) }
    | none =>
      if !(p.refHolders h).probing && h ∈ p.tryRefHolders then
        { p with
          tryRefHolders := p.tryRefHolders.erase h
          tryRefCount := (p.tryRefHolders.erase h).length }
      else p

/-- The second part: the holder is bad until the time. -/
def mark (p : RefPool) (h : Nat) (time : Time) : RefPool :=
  { p.setHolder h ⟨true, false, some time⟩ with
    badRefHolders := p.badRefHolders.insertNew (.of time h) h }

/-- The locked section of `mark_as_bad_`, with the time to schedule. -/
def markAsBad (p : RefPool) (h : Nat) (badBeforeTime : Time) : RefPool × Option Time :=
  let previousFirst := p.badRefHolders.first?.map BadRefKey.badBeforeTime
  let time := ((p.refHolders h).badBeforeTime.map (max · badBeforeTime)).getD badBeforeTime
  let marked := (p.remove h).mark h time
  if previousFirst.all (time < ·) then ({ marked with scheduledBadTime := some time }, some time)
  else (marked, none)

def finishProbe (p : RefPool) (h : Nat) : RefPool :=
  if !(p.refHolders h).probing || (p.refHolders h).bad then p
  else { p.setHolder h {} with availableRefHolders := p.availableRefHolders ++ [h] }

/-- The holders under the bad keys that pass a test. -/
def badWhere (p : RefPool) (test : BadRefKey → Bool) : List Nat :=
  (p.badRefHolders.filterKeys test).entries.map Prod.snd

/-- The bad holders whose time has come: the map has them first. -/
def ready (p : RefPool) (now : Time) : List Nat := p.badWhere fun key => key.badBeforeTime ≤ now

/-- The locked section of `move_ready_bad_refs_`, with the time to schedule. -/
def moveReadyBadRefs (p : RefPool) (now expectedBadTime : Time) : RefPool × Option Time :=
  if p.scheduledBadTime ≠ some expectedBadTime then (p, none)
  else
    match p.badRefHolders.first?.map BadRefKey.badBeforeTime with
    | none => ({ p with scheduledBadTime := none }, none)
    | some first =>
      if now < first then ({ p with scheduledBadTime := some first }, some first)
      else
        let left := p.badRefHolders.filterKeys fun key => now < key.badBeforeTime
        let next := left.first?.map BadRefKey.badBeforeTime
        ({ p with
          refHolders := fun h => if h ∈ p.ready now then {} else p.refHolders h
          badRefHolders := left
          tryRefHolders := p.tryRefHolders ++ p.ready now
          tryRefCount := (p.tryRefHolders ++ p.ready now).length
          scheduledBadTime := next }, next)

end RefPool

/-- The pool, the runs pending in its scheduler, and the references alive. -/
structure PoolState where
  pool : RefPool
  scheduler : Multiset Time
  refs : Multiset Ref
  nextGuard : Nat

/-- A call of the pool, by what it does next. -/
inductive PoolCall where
  /-- `get_object` looks at `try_ref_count_`. -/
  | getting
  | lockingTry
  /-- `next_ref_index_.fetch_add`. -/
  | choosing
  | picking (refIndex : Nat)
  | marking (refHolder : Nat) (badBeforeTime : Time)
  /-- `schedule_bad_refs_move_`, after the lock. -/
  | scheduling (badTime : Time)
  /-- The destructor of a guard. -/
  | finishing (refHolder : Nat)
  | moving (expectedBadTime : Time)
  deriving DecidableEq

namespace PoolState

def schedules (time : Option Time) : Multiset PoolCall := time.elim 0 fun time => {.scheduling time}

/-- One section of a call. -/
def section_ (now : Time) (s : PoolState) : PoolCall → Option (PoolState × Multiset PoolCall)
  | .getting => some (s, {if s.pool.tryRefCount ≠ 0 then .lockingTry else .choosing})
  | .lockingTry =>
    some (match s.pool.takeTry with
      | some (pool, h) =>
        ({ s with
          pool := pool
          refs := ⟨h, some ⟨s.nextGuard, h⟩⟩ ::ₘ s.refs
          nextGuard := s.nextGuard + 1 }, 0)
      | none => (s, {.choosing}))
  | .choosing =>
    some ({ s with pool := { s.pool with nextRefIndex := s.pool.nextRefIndex + 1 } },
      {.picking s.pool.nextRefIndex})
  | .picking refIndex =>
    let available := s.pool.availableRefHolders
    some (match available[refIndex % available.length]? with
      | some h => ({ s with refs := ⟨h, none⟩ ::ₘ s.refs }, 0)
      | none => (s, 0))
  | .marking h badBeforeTime =>
    let (pool, time) := s.pool.markAsBad h badBeforeTime
    some ({ s with pool := pool }, schedules time)
  | .scheduling time => some ({ s with scheduler := time ::ₘ s.scheduler }, 0)
  | .finishing h => some ({ s with pool := s.pool.finishProbe h }, 0)
  | .moving expectedBadTime =>
    let (pool, time) := s.pool.moveReadyBadRefs now expectedBadTime
    some ({ s with pool := pool }, schedules time)

end PoolState

abbrev PoolWorld := World PoolState PoolCall

inductive PoolEvent where
  | getObject
  | copy (ref : Ref)
  | markAsBad (ref : Ref) (badBeforeTime : Time)
  | destroy (ref : Ref)
  /-- The scheduler runs a task. -/
  | runTask (badTime : Time)
  | goOn (call : PoolCall) (now : Time)

namespace PoolWorld

def start (holders : List Nat) : PoolWorld := ⟨⟨.new holders, 0, 0, 0⟩, 0⟩

/-- The guard of a reference ends with the last reference that shares it. -/
def endsGuard (ref : Ref) (refs : Multiset Ref) : Multiset PoolCall :=
  match ref.probeGuard with
  | none => 0
  | some probeGuard =>
    if some probeGuard ∈ refs.map Ref.probeGuard then 0
    else {.finishing probeGuard.refHolder}

def step (w : PoolWorld) : PoolEvent → Option PoolWorld
  | .getObject => some { w with calls := .getting ::ₘ w.calls }
  | .copy ref =>
    if ref ∈ w.shared.refs then some { w with shared.refs := ref ::ₘ w.shared.refs } else none
  | .markAsBad ref badBeforeTime =>
    if ref ∈ w.shared.refs then
      some { w with calls := .marking ref.refHolder badBeforeTime ::ₘ w.calls }
    else none
  | .destroy ref =>
    if ref ∈ w.shared.refs then
      some {
        shared := { w.shared with refs := w.shared.refs.erase ref }
        calls := endsGuard ref (w.shared.refs.erase ref) + w.calls }
    else none
  | .runTask badTime =>
    if badTime ∈ w.shared.scheduler then
      some {
        shared := { w.shared with scheduler := w.shared.scheduler.erase badTime }
        calls := .moving badTime ::ₘ w.calls }
    else none
  | .goOn call now => w.goOn (PoolState.section_ now) call

end PoolWorld

namespace RefPool

/-- In how many places the holder is. -/
def places (p : RefPool) (h : Nat) : Nat :=
  p.availableRefHolders.count h + p.tryRefHolders.count h +
    (p.refHolders h).badBeforeTime.isSome.toNat + (p.refHolders h).probing.toNat

/-- The holders of the pool are each in one place, and the bad ones under their times. -/
structure Sound (holders : List Nat) (p : RefPool) : Prop where
  once : ∀ h, p.places h = if h ∈ holders then 1 else 0
  bad_flag : ∀ h, (p.refHolders h).bad = (p.refHolders h).badBeforeTime.isSome
  find_bad : ∀ key, p.badRefHolders.find? key =
    if (p.refHolders key.refHolder).badBeforeTime = some key.badBeforeTime then
      some key.refHolder
    else none
  try_count : p.tryRefCount = p.tryRefHolders.length
  scheduled : ∀ key ∈ p.badRefHolders.keys, ∃ time, p.scheduledBadTime = some time ∧
    time ≤ key.badBeforeTime

end RefPool

section Sound

variable {holders : List Nat} {p p' : RefPool} {h : Nat}

@[simp] theorem BadRefKey.badBeforeTime_of (time : Time) (h : Nat) :
    (BadRefKey.of time h).badBeforeTime = time := rfl

@[simp] theorem BadRefKey.refHolder_of (time : Time) (h : Nat) :
    (BadRefKey.of time h).refHolder = h := rfl

theorem BadRefKey.eta (key : BadRefKey) : key = .of key.badBeforeTime key.refHolder := rfl

theorem BadRefKey.badBeforeTime_le {key key' : BadRefKey} (le : key ≤ key') :
    key.badBeforeTime ≤ key'.badBeforeTime :=
  (Prod.Lex.le_iff.1 le).elim le_of_lt fun same => same.1.le

namespace RefPool

section
variable (holder : RefHolder)

@[simp] theorem refHolders_setHolder (h' : Nat) :
    (p.setHolder h holder).refHolders h' = if h' = h then holder else p.refHolders h' := by
  simp [setHolder, Function.update_apply]

@[simp] theorem availableRefHolders_setHolder :
    (p.setHolder h holder).availableRefHolders = p.availableRefHolders := rfl

@[simp] theorem tryRefHolders_setHolder :
    (p.setHolder h holder).tryRefHolders = p.tryRefHolders := rfl

@[simp] theorem badRefHolders_setHolder :
    (p.setHolder h holder).badRefHolders = p.badRefHolders := rfl

@[simp] theorem scheduledBadTime_setHolder :
    (p.setHolder h holder).scheduledBadTime = p.scheduledBadTime := rfl

end

theorem new_sound (distinct : holders.Nodup) : (new holders).Sound holders := by
  refine ⟨fun h => ?_, fun h => rfl, fun key => ?_, rfl, fun key member => ?_⟩
  · simp [new, places, distinct.count]
  · simp [new]
  · simp [new, keys, empty] at member

section
variable (sound : p.Sound holders)
include sound

theorem Sound.places_le (h : Nat) : p.places h ≤ 1 := by
  rw [sound.once]
  split_ifs <;> omega

theorem Sound.known (placed : 0 < p.places h) : h ∈ holders := by
  by_contra unknown
  rw [sound.once, if_neg unknown] at placed
  exact lt_irrefl _ placed

/-- A section that leaves the bad holders and the schedule alone, and moves the others. -/
theorem Sound.moved (once : ∀ h, p'.places h = p.places h)
    (flags : ∀ h, (p'.refHolders h).bad = (p.refHolders h).bad)
    (times : ∀ h, (p'.refHolders h).badBeforeTime = (p.refHolders h).badBeforeTime)
    (bad : p'.badRefHolders = p.badRefHolders)
    (try_count : p'.tryRefCount = p'.tryRefHolders.length)
    (schedule : p'.scheduledBadTime = p.scheduledBadTime) : p'.Sound holders := by
  refine ⟨fun h => (once h).trans (sound.once h), fun h => ?_, fun key => ?_, try_count, ?_⟩
  · rw [flags, times, sound.bad_flag]
  · rw [bad, times, sound.find_bad]
  · rw [bad, schedule]
    exact sound.scheduled

theorem takeTry_sound (taken : p.takeTry = some (p', h)) :
    p'.Sound holders ∧ h ∈ holders ∧ p'.scheduledBadTime = p.scheduledBadTime ∧
      ∀ h', h' ≠ h → (p'.refHolders h').probing = (p.refHolders h').probing := by
  simp only [takeTry, Option.map_eq_some_iff, Prod.mk.injEq] at taken
  obtain ⟨h, last, rfl, rfl⟩ := taken
  obtain ⟨front, tried⟩ := List.getLast?_eq_some_iff.1 last
  refine ⟨sound.moved (fun h' => ?_) (fun h' => ?_) (fun h' => ?_) rfl rfl rfl,
    sound.known ?_, rfl, fun h' other => by simp [other]⟩
  · by_cases same : h' = h
    · have at_most := sound.places_le h
      subst same
      simp only [places, tried, List.count_append, List.count_singleton_self] at at_most
      simp [places, tried]
      omega
    · simp [places, tried, same, Ne.symm same]
  · by_cases same : h' = h <;> simp [same]
  · by_cases same : h' = h <;> simp [same]
  · simp only [places, tried, List.count_append, List.count_singleton_self]
    omega

theorem Sound.badBeforeTime_of_probing (probing : (p.refHolders h).probing = true) :
    (p.refHolders h).badBeforeTime = none := by
  have at_most := sound.places_le h
  rw [places, probing, Bool.toNat_true] at at_most
  cases badBeforeTime : (p.refHolders h).badBeforeTime with
  | none => rfl
  | some time =>
    rw [badBeforeTime, Option.isSome_some, Bool.toNat_true] at at_most
    omega

theorem finishProbe_sound (h : Nat) :
    (p.finishProbe h).Sound holders ∧ ((p.finishProbe h).refHolders h).probing = false ∧
      ∀ h', h' ≠ h →
        ((p.finishProbe h).refHolders h').probing = (p.refHolders h').probing := by
  unfold finishProbe
  cases probing : (p.refHolders h).probing with
  | false => exact ⟨by simpa using sound, by simpa using probing, by simp⟩
  | true =>
    have no_time := sound.badBeforeTime_of_probing probing
    have not_bad : (p.refHolders h).bad = false := by rw [sound.bad_flag, no_time]; rfl
    simp only [not_bad, Bool.not_true, Bool.or_self, Bool.false_eq_true, ↓reduceIte]
    refine ⟨sound.moved (fun h' => ?_) (fun h' => ?_) (fun h' => ?_) rfl ?_ rfl, by simp,
      fun h' other => by simp [other]⟩
    · by_cases same : h' = h
      · subst same
        simp [places, probing, no_time]
        omega
      · simp [places, same, Ne.symm same]
    · by_cases same : h' = h
      · simp [same, not_bad]
      · simp [same]
    · by_cases same : h' = h
      · simp [same, no_time]
      · simp [same]
    · exact sound.try_count

end

/-- The holder is in no list any more, and nothing else has changed. -/
structure Removed (p : RefPool) (h : Nat) (p' : RefPool) : Prop where
  gone : p'.availableRefHolders.count h + p'.tryRefHolders.count h = 0
  others : ∀ h', h' ≠ h → p'.availableRefHolders.count h' = p.availableRefHolders.count h' ∧
    p'.tryRefHolders.count h' = p.tryRefHolders.count h'
  bad : ∀ key, p'.badRefHolders.find? key =
    if key.refHolder = h then none else p.badRefHolders.find? key
  same_holders : p'.refHolders = p.refHolders
  same_schedule : p'.scheduledBadTime = p.scheduledBadTime
  try_count : p'.tryRefCount = p'.tryRefHolders.length

theorem remove_removed (sound : p.Sound holders) (h : Nat) : Removed p h (p.remove h) := by
  have at_most := sound.places_le h
  rw [places] at at_most
  -- a holder that is not bad has no key
  have no_key : (p.refHolders h).badBeforeTime = none → ∀ key, p.badRefHolders.find? key =
      if key.refHolder = h then none else p.badRefHolders.find? key := by
    intro not_bad key
    split_ifs with same
    · rw [sound.find_bad, same, not_bad, if_neg (by simp)]
    · rfl
  unfold remove
  by_cases available : h ∈ p.availableRefHolders
  · rw [if_pos available]
    have counted := List.count_pos_iff.2 available
    refine ⟨?_, fun h' other => ?_, no_key ?_, rfl, rfl, sound.try_count⟩
    · simp only [List.count_erase_self]
      omega
    · simp [List.count_erase_of_ne other]
    · cases badBeforeTime : (p.refHolders h).badBeforeTime with
      | none => rfl
      | some time =>
        rw [badBeforeTime, Option.isSome_some, Bool.toNat_true] at at_most
        omega
  · rw [if_neg available]
    have not_there := List.count_eq_zero.2 available
    cases badBeforeTime : (p.refHolders h).badBeforeTime with
    | some time =>
      rw [badBeforeTime, Option.isSome_some, Bool.toNat_true] at at_most
      refine ⟨by dsimp only; omega, fun _ _ => ⟨rfl, rfl⟩, fun key => ?_, rfl, rfl,
        sound.try_count⟩
      simp only [find?_erase]
      by_cases same : key.refHolder = h
      · rw [if_pos same, sound.find_bad, same, badBeforeTime]
        by_cases its_time : time = key.badBeforeTime
        · rw [if_pos (by rw [its_time, ← same, ← BadRefKey.eta])]
        · rw [if_neg, if_neg (by simpa using its_time)]
          rintro rfl
          exact its_time rfl
      · rw [if_neg same, if_neg]
        rintro rfl
        exact same rfl
    | none =>
      dsimp only
      by_cases on_trial : (!(p.refHolders h).probing && h ∈ p.tryRefHolders) = true
      · rw [if_pos on_trial]
        simp only [Bool.and_eq_true, Bool.not_eq_true', decide_eq_true_eq] at on_trial
        have counted := List.count_pos_iff.2 on_trial.2
        refine ⟨?_, fun h' other => ?_, no_key badBeforeTime, rfl, rfl, rfl⟩
        · simp only [List.count_erase_self]
          omega
        · simp [List.count_erase_of_ne other]
      · rw [if_neg on_trial]
        refine ⟨?_, fun _ _ => ⟨rfl, rfl⟩, no_key badBeforeTime, rfl, rfl, sound.try_count⟩
        cases probing : (p.refHolders h).probing with
        | true =>
          rw [probing, Bool.toNat_true] at at_most
          omega
        | false =>
          rw [probing] at on_trial
          simp only [Bool.not_false, Bool.true_and, decide_eq_true_eq] at on_trial
          rw [not_there, List.count_eq_zero.2 on_trial]

theorem mark_find {removed : RefPool} (removed_h : Removed p h removed) (time : Time)
    (key : BadRefKey) : (removed.mark h time).badRefHolders.find? key =
      if key.refHolder = h then if key.badBeforeTime = time then some h else none
      else p.badRefHolders.find? key := by
  have free : removed.badRefHolders.find? (.of time h) = none := by simp [removed_h.bad]
  simp only [mark, find?_insertNew, free, removed_h.bad key]
  by_cases same : key.refHolder = h
  · by_cases its_time : key.badBeforeTime = time
    · rw [if_pos ⟨by rw [← its_time, ← same, ← BadRefKey.eta], trivial⟩, if_pos same, if_pos its_time]
    · rw [if_neg, if_pos same, if_pos same, if_neg its_time]
      rintro ⟨rfl, -⟩
      exact its_time rfl
  · rw [if_neg, if_neg same, if_neg same]
    rintro ⟨rfl, -⟩
    exact same rfl

section
variable (sound : p.Sound holders)
include sound

theorem markAsBad_sound (known : h ∈ holders) (badBeforeTime : Time) :
    (p.markAsBad h badBeforeTime).1.Sound holders ∧
      (∀ h', ((p.markAsBad h badBeforeTime).1.refHolders h').probing = true →
        (p.refHolders h').probing = true) ∧
      (p.markAsBad h badBeforeTime).1.scheduledBadTime =
        (p.markAsBad h badBeforeTime).2.or p.scheduledBadTime := by
  have removed := remove_removed sound h
  unfold markAsBad
  generalize ((p.refHolders h).badBeforeTime.map (max · badBeforeTime)).getD badBeforeTime = time
  dsimp only
  have find := mark_find removed time
  have holder : ∀ h', ((p.remove h).mark h time).refHolders h' =
      if h' = h then ⟨true, false, some time⟩ else p.refHolders h' := by
    simp [mark, removed.same_holders]
  have probing : ∀ h', (((p.remove h).mark h time).refHolders h').probing = true →
      (p.refHolders h').probing = true := by
    intro h' probing
    rw [holder] at probing
    split_ifs at probing
    exact probing
  have once : ∀ h', ((p.remove h).mark h time).places h' = if h' ∈ holders then 1 else 0 := by
    intro h'
    rw [places, holder]
    change (p.remove h).availableRefHolders.count h' + (p.remove h).tryRefHolders.count h' + _ + _
      = _
    by_cases same : h' = h
    · subst same
      simp [removed.gone, known]
    · obtain ⟨available, on_trial⟩ := removed.others h' same
      rw [available, on_trial, if_neg same, ← sound.once h', places]
  have bad_flag : ∀ h', (((p.remove h).mark h time).refHolders h').bad =
      (((p.remove h).mark h time).refHolders h').badBeforeTime.isSome := by
    intro h'
    rw [holder]
    split_ifs
    · rfl
    · exact sound.bad_flag h'
  have find_bad : ∀ key, ((p.remove h).mark h time).badRefHolders.find? key =
      if (((p.remove h).mark h time).refHolders key.refHolder).badBeforeTime =
          some key.badBeforeTime then some key.refHolder else none := by
    intro key
    rw [find, holder, sound.find_bad]
    by_cases same : key.refHolder = h
    · simp [same, eq_comm]
    · simp [same]
  split_ifs with first
  · refine ⟨⟨once, bad_flag, find_bad, removed.try_count, fun key member => ?_⟩, probing, rfl⟩
    refine ⟨time, rfl, ?_⟩
    rw [mem_keys, find] at member
    split_ifs at member with same its_time
    · exact its_time.ge
    · simp at member
    · cases least : p.badRefHolders.first? with
      | none => exact absurd (mem_keys.2 member) (first?_eq_none.1 least key)
      | some front =>
        simp only [least, Option.map_some, Option.all_some, decide_eq_true_eq] at first
        exact first.le.trans (BadRefKey.badBeforeTime_le
          ((first?_eq_some.1 least).2 key (mem_keys.2 member)))
  · refine ⟨⟨once, bad_flag, find_bad, removed.try_count, fun key member => ?_⟩, probing,
      removed.same_schedule⟩
    cases least : p.badRefHolders.first? with
    | none => simp [least] at first
    | some front =>
      simp only [least, Option.map_some, Option.all_some, decide_eq_true_eq, not_lt] at first
      obtain ⟨in_front, is_least⟩ := first?_eq_some.1 least
      obtain ⟨scheduled, is_scheduled, le⟩ := sound.scheduled front in_front
      refine ⟨scheduled, removed.same_schedule.trans is_scheduled, le.trans ?_⟩
      rw [mem_keys, find] at member
      split_ifs at member with same its_time
      · exact its_time ▸ first
      · simp at member
      · exact BadRefKey.badBeforeTime_le (is_least key (mem_keys.2 member))

theorem Sound.count_badWhere (test : BadRefKey → Bool) (h : Nat) :
    (p.badWhere test).count h =
      ((p.refHolders h).badBeforeTime.any fun time => test (.of time h)).toNat := by
  have entry : ∀ key h', (key, h') ∈ (p.badRefHolders.filterKeys test).entries ↔
      test key = true ∧ (p.refHolders h').badBeforeTime = some key.badBeforeTime ∧
        h' = key.refHolder := by
    intro key h'
    rw [← find?_eq_some, find?_filterKeys, sound.find_bad]
    constructor
    · intro found
      split_ifs at found with passes is_bad
      cases found
      exact ⟨passes, is_bad, rfl⟩
    · rintro ⟨passes, is_bad, rfl⟩
      rw [if_pos passes, if_pos is_bad]
  have distinct : (p.badWhere test).Nodup := by
    refine List.Nodup.map_on ?_ (List.Nodup.of_map Prod.fst (keys_nodup _))
    rintro ⟨key, h'⟩ member ⟨key', h''⟩ member' same
    obtain ⟨-, is_bad, rfl⟩ := (entry key h').1 member
    obtain ⟨-, is_bad', rfl⟩ := (entry key' h'').1 member'
    have same_holder : key.refHolder = key'.refHolder := same
    rw [same_holder, is_bad', Option.some.injEq] at is_bad
    rw [key.eta, key'.eta, is_bad, same_holder]
  have member : h ∈ p.badWhere test ↔
      ((p.refHolders h).badBeforeTime.any fun time => test (.of time h)) = true := by
    rw [badWhere, List.mem_map, Option.any_eq_true]
    constructor
    · rintro ⟨⟨key, h'⟩, found, rfl⟩
      obtain ⟨passes, is_bad, rfl⟩ := (entry key h').1 found
      exact ⟨_, is_bad, passes⟩
    · rintro ⟨time, is_bad, passes⟩
      exact ⟨(.of time h, h), (entry _ _).2 ⟨passes, is_bad, rfl⟩, rfl⟩
  rw [distinct.count]
  simp only [member]
  cases (p.refHolders h).badBeforeTime.any fun time => test (.of time h) <;> rfl

theorem Sound.mem_ready (now : Time) (h : Nat) :
    h ∈ p.ready now ↔ ∃ time, (p.refHolders h).badBeforeTime = some time ∧ time ≤ now := by
  rw [← List.count_pos_iff, Nat.pos_iff_ne_zero, ready, sound.count_badWhere]
  cases (p.refHolders h).badBeforeTime with
  | none => simp
  | some time =>
    simp only [Option.any_some, ne_eq, Bool.toNat_eq_zero, Bool.not_eq_false, Option.some.injEq,
      exists_eq_left', BadRefKey.badBeforeTime_of]
    exact decide_eq_true_iff

theorem moveReadyBadRefs_sound (now expectedBadTime : Time) :
    (p.moveReadyBadRefs now expectedBadTime).1.Sound holders ∧
      (∀ h, ((p.moveReadyBadRefs now expectedBadTime).1.refHolders h).probing = true →
        (p.refHolders h).probing = true) ∧
      ∀ time, (p.moveReadyBadRefs now expectedBadTime).1.scheduledBadTime = some time →
        (p.moveReadyBadRefs now expectedBadTime).2 = some time ∨
          p.scheduledBadTime = some time ∧ time ≠ expectedBadTime := by
  unfold moveReadyBadRefs
  split_ifs with not_current
  · refine ⟨sound, fun _ => id, fun time is_scheduled => .inr ⟨is_scheduled, ?_⟩⟩
    rintro rfl
    exact not_current is_scheduled
  cases least : p.badRefHolders.first? with
  | none =>
    have no_keys := first?_eq_none.1 least
    refine ⟨⟨sound.once, sound.bad_flag, sound.find_bad, sound.try_count, fun key member => ?_⟩,
      fun _ => id, fun time is_scheduled => ?_⟩
    · exact absurd member (no_keys key)
    · cases is_scheduled
  | some front =>
    have is_least := (first?_eq_some.1 least).2
    dsimp only [Option.map_some]
    split_ifs with early
    · refine ⟨⟨sound.once, sound.bad_flag, sound.find_bad, sound.try_count, fun key member => ?_⟩,
        fun _ => id, fun time => .inl⟩
      exact ⟨_, rfl, BadRefKey.badBeforeTime_le (is_least key member)⟩
    refine ⟨⟨fun h => ?_, fun h => ?_, fun key => ?_, rfl, fun key member => ?_⟩, fun h => ?_,
      fun time => .inl⟩
    · have counted := sound.count_badWhere (fun key => key.badBeforeTime ≤ now) h
      have at_most := sound.places_le h
      rw [← sound.once h]
      rw [places] at at_most ⊢
      simp only [List.count_append, ready, counted, places]
      change _ + _ + (if h ∈ p.ready now then ({} : RefHolder) else _).badBeforeTime.isSome.toNat +
        (if h ∈ p.ready now then ({} : RefHolder) else _).probing.toNat = _
      simp only [sound.mem_ready]
      cases badBeforeTime : (p.refHolders h).badBeforeTime with
      | none => simp [badBeforeTime]
      | some time =>
        by_cases due : time ≤ now
        · simp [badBeforeTime] at at_most
          simp [due]
          omega
        · simp [badBeforeTime, due]
    · dsimp only
      split_ifs
      · rfl
      · exact sound.bad_flag h
    · rw [find?_filterKeys, sound.find_bad]
      simp only [sound.mem_ready, decide_eq_true_eq]
      cases badBeforeTime : (p.refHolders key.refHolder).badBeforeTime with
      | none => simp [badBeforeTime]
      | some time =>
        by_cases its_time : time = key.badBeforeTime
        · by_cases due : key.badBeforeTime ≤ now
          · simp [its_time, due, not_lt.2 due]
          · simp [its_time, due, not_le.1 due, badBeforeTime]
        · by_cases due : time ≤ now <;> simp [its_time, due, badBeforeTime]
    · obtain ⟨front', is_front⟩ : ∃ front', (p.badRefHolders.filterKeys fun key =>
          decide (now < key.badBeforeTime)).first? = some front' := by
        refine Option.ne_none_iff_exists'.1 fun none_left => ?_
        exact first?_eq_none.1 none_left key member
      refine ⟨front'.badBeforeTime, by rw [is_front, Option.map_some], ?_⟩
      exact BadRefKey.badBeforeTime_le ((first?_eq_some.1 is_front).2 key member)
    · dsimp only
      split_ifs
      · exact fun impossible => nomatch impossible
      · exact id

end

end RefPool

end Sound

/-! ## Runs -/

/-- The call is for a holder of the pool. -/
def PoolCall.Known (holders : List Nat) : PoolCall → Prop
  | .marking h _ | .finishing h => h ∈ holders
  | _ => True

/-- The call hands the time over to the scheduler, or has been called for it. -/
def PoolCall.Carries (time : Time) (call : PoolCall) : Prop :=
  call = .scheduling time ∨ call = .moving time

/-- A reference that is alive holds a guard of the holder, or the guard is just ending. -/
def PoolWorld.Probed (w : PoolWorld) (h : Nat) : Prop :=
  (∃ ref ∈ w.shared.refs, ref.refHolder = h ∧
    ∃ probeGuard ∈ ref.probeGuard, probeGuard.refHolder = h) ∨ .finishing h ∈ w.calls

def PoolWorld.Carried (w : PoolWorld) (time : Time) : Prop :=
  time ∈ w.shared.scheduler ∨ ∃ call ∈ w.calls, call.Carries time

/-- What the pool promises between any two sections. -/
structure Settled (holders : List Nat) (w : PoolWorld) : Prop where
  /-- A holder is in one of the lists, or is being probed. -/
  once : ∀ h ∈ holders, w.shared.pool.availableRefHolders.count h +
    w.shared.pool.tryRefHolders.count h +
    (w.shared.pool.badRefHolders.entries.map Prod.snd).count h +
    (w.shared.pool.refHolders h).probing.toNat = 1
  bad_key : ∀ key h, w.shared.pool.badRefHolders.find? key = some h →
    (w.shared.pool.refHolders h).badBeforeTime = some key.badBeforeTime ∧ key.refHolder = h
  probed : ∀ h, (w.shared.pool.refHolders h).probing = true → w.Probed h
  try_count : w.shared.pool.tryRefCount = w.shared.pool.tryRefHolders.length
  scheduled : w.shared.pool.badRefHolders.isEmpty = false →
    ∃ time, w.shared.pool.scheduledBadTime = some time ∧
      (∀ key ∈ w.shared.pool.badRefHolders.keys, time ≤ key.badBeforeTime) ∧ w.Carried time

/-- What holds of the pool, its references and its calls after any run. -/
structure PoolWorld.Inv (holders : List Nat) (w : PoolWorld) : Prop where
  sound : w.shared.pool.Sound holders
  known_refs : ∀ ref ∈ w.shared.refs, ref.refHolder ∈ holders ∧
    ∀ probeGuard ∈ ref.probeGuard, probeGuard.refHolder = ref.refHolder
  known_calls : ∀ call ∈ w.calls, call.Known holders
  probed : ∀ h, (w.shared.pool.refHolders h).probing = true → w.Probed h
  carried : ∀ time, w.shared.pool.scheduledBadTime = some time → w.Carried time

section Runs

variable {holders : List Nat} {w w' : PoolWorld}

theorem PoolWorld.start_inv (distinct : holders.Nodup) : (start holders).Inv holders := by
  refine ⟨RefPool.new_sound distinct, ?_, ?_, ?_, ?_⟩
  · simp [start]
  · simp [start]
  · simp [start, RefPool.new]
  · simp [start, RefPool.new]

theorem RefPool.Sound.settled_bad {p : RefPool} (sound : p.Sound holders) (h : Nat) :
    (p.badRefHolders.entries.map Prod.snd).count h =
      (p.refHolders h).badBeforeTime.isSome.toNat := by
  have all : p.badRefHolders.entries = (p.badRefHolders.filterKeys fun _ => true).entries := by
    simp [filterKeys]
  have counted := sound.count_badWhere (fun _ => true) h
  rw [RefPool.badWhere, ← all] at counted
  rw [counted]
  cases (p.refHolders h).badBeforeTime <;> rfl

theorem PoolWorld.Inv.settled (inv : w.Inv holders) : Settled holders w := by
  obtain ⟨sound, -, -, probed, carried⟩ := inv
  refine ⟨fun h known => ?_, fun key h found => ?_, probed, sound.try_count, fun bad => ?_⟩
  · have once := sound.once h
    rw [RefPool.places, if_pos known] at once
    rw [sound.settled_bad]
    omega
  · rw [sound.find_bad] at found
    split_ifs at found with is_bad
    cases found
    exact ⟨is_bad, rfl⟩
  · obtain ⟨key, member⟩ : ∃ key, key ∈ w.shared.pool.badRefHolders.keys := by
      by_contra none_bad
      push Not at none_bad
      have empty := isEmpty_iff.2 fun key =>
        Option.not_isSome_iff_eq_none.1 fun found => none_bad key (mem_keys.2 found)
      rw [bad] at empty
      cases empty
    obtain ⟨time, is_scheduled, -⟩ := sound.scheduled key member
    refine ⟨time, is_scheduled, fun key' member' => ?_, carried time is_scheduled⟩
    obtain ⟨time', is_scheduled', le⟩ := sound.scheduled key' member'
    rw [is_scheduled, Option.some.injEq] at is_scheduled'
    exact is_scheduled' ▸ le

theorem PoolWorld.Probed.mono {h : Nat} (probed : w.Probed h)
    (refs : ∀ ref ∈ w.shared.refs, ref ∈ w'.shared.refs)
    (calls : .finishing h ∈ w.calls → .finishing h ∈ w'.calls) : w'.Probed h := by
  obtain ⟨ref, member, its_guard⟩ | finishing := probed
  · exact .inl ⟨ref, refs ref member, its_guard⟩
  · exact .inr (calls finishing)

variable {time : Time} {refs : Multiset Ref}

theorem PoolWorld.Carried.mono (carried : w.Carried time)
    (scheduler : ∀ time ∈ w.shared.scheduler, time ∈ w'.shared.scheduler)
    (calls : ∀ call ∈ w.calls, call.Carries time → w'.Carried time) : w'.Carried time := by
  obtain pending | ⟨call, member, carries⟩ := carried
  · exact .inl (scheduler time pending)
  · exact calls call member carries

variable {s s' : PoolState} {call : PoolCall} {next rest : Multiset PoolCall}

/-- A section that leaves the scheduler alone, and schedules what it has changed. -/
theorem PoolWorld.Inv.section_ {pool : RefPool} {guards : Nat}
    (inv : PoolWorld.Inv holders ⟨s, call ::ₘ rest⟩) (sound : pool.Sound holders)
    (kept : ∀ ref ∈ s.refs, ref ∈ refs)
    (known_refs : ∀ ref ∈ refs, ref ∈ s.refs ∨ ref.refHolder ∈ holders ∧
      ∀ probeGuard ∈ ref.probeGuard, probeGuard.refHolder = ref.refHolder)
    (known_calls : ∀ other ∈ next, other.Known holders)
    (probed : ∀ h, (pool.refHolders h).probing = true →
      (s.pool.refHolders h).probing = true ∧ call ≠ .finishing h ∨
        ∃ ref ∈ refs, ref.refHolder = h ∧
          ∃ probeGuard ∈ ref.probeGuard, probeGuard.refHolder = h)
    (carried : ∀ time, pool.scheduledBadTime = some time → .scheduling time ∈ next ∨
      s.pool.scheduledBadTime = some time ∧ ¬ call.Carries time) :
    PoolWorld.Inv holders ⟨⟨pool, s.scheduler, refs, guards⟩, next + rest⟩ := by
  obtain ⟨-, known_refs_before, known_calls_before, probed_before, carried_before⟩ := inv
  refine ⟨sound, fun ref member => ?_, fun other member => ?_, fun h probing => ?_,
    fun time is_scheduled => ?_⟩
  · exact (known_refs ref member).elim (known_refs_before ref) id
  · exact (Multiset.mem_add.1 member).elim (known_calls other) fun member =>
      known_calls_before other (Multiset.mem_cons_of_mem member)
  · obtain ⟨probing_before, other⟩ | guarded := probed h probing
    · exact (probed_before h probing_before).mono kept fun member =>
        mem_gone_on member (Ne.symm other)
    · exact .inl guarded
  · obtain hands_over | ⟨was_scheduled, idle⟩ := carried time is_scheduled
    · exact .inr ⟨_, Multiset.mem_add.2 (.inl hands_over), .inl rfl⟩
    · refine (carried_before time was_scheduled).mono (fun _ => id) fun other member carries => ?_
      refine .inr ⟨other, mem_gone_on member ?_, carries⟩
      rintro rfl
      exact idle carries

theorem PoolWorld.Inv.look {index : Nat} (inv : PoolWorld.Inv holders ⟨s, call ::ₘ rest⟩)
    (known_calls : ∀ other ∈ next, other.Known holders) (not_finishing : ∀ h, call ≠ .finishing h)
    (not_carrying : ∀ time, ¬ call.Carries time) :
    PoolWorld.Inv holders
      ⟨{ s with pool := { s.pool with nextRefIndex := index } }, next + rest⟩ :=
  inv.section_ ⟨inv.sound.once, inv.sound.bad_flag, inv.sound.find_bad, inv.sound.try_count,
    inv.sound.scheduled⟩ (fun _ => id) (fun _ => .inl) known_calls
    (fun h probing => .inl ⟨probing, not_finishing h⟩)
    fun time is_scheduled => .inr ⟨is_scheduled, not_carrying time⟩

theorem schedules_known (time : Option Time) :
    ∀ other ∈ PoolState.schedules time, other.Known holders := by
  intro other member
  cases time with
  | none => simp [PoolState.schedules] at member
  | some time =>
    rw [Multiset.mem_singleton.1 member]
    trivial

theorem mem_schedules : PoolCall.scheduling time ∈ PoolState.schedules (some time) :=
  Multiset.mem_singleton_self _

theorem pool_section_inv {now : Time} (inv : PoolWorld.Inv holders ⟨s, call ::ₘ rest⟩)
    (stepped : s.section_ now call = some (s', next)) :
    PoolWorld.Inv holders ⟨s', next + rest⟩ := by
  have known := inv.known_calls call (Multiset.mem_cons_self _ _)
  have sound_before : s.pool.Sound holders := inv.sound
  cases call with
  | getting =>
    cases stepped
    refine inv.look ?_ (by simp) (by simp [PoolCall.Carries])
    split_ifs <;> simp [PoolCall.Known]
  | lockingTry =>
    simp only [PoolState.section_, Option.some.injEq] at stepped
    cases taken : s.pool.takeTry with
    | none =>
      simp only [taken, Prod.mk.injEq] at stepped
      obtain ⟨rfl, rfl⟩ := stepped
      exact inv.look (by simp [PoolCall.Known]) (by simp) (by simp [PoolCall.Carries])
    | some found =>
      obtain ⟨pool, h⟩ := found
      simp only [taken, Prod.mk.injEq] at stepped
      obtain ⟨rfl, rfl⟩ := stepped
      obtain ⟨sound, known, same_schedule, others⟩ := RefPool.takeTry_sound inv.sound taken
      refine inv.section_ sound (fun _ => Multiset.mem_cons_of_mem) (fun ref member => ?_) (by simp)
        (fun h' probing => ?_) fun time is_scheduled => ?_
      · obtain rfl | member := Multiset.mem_cons.1 member
        · exact .inr ⟨known, by simp⟩
        · exact .inl member
      · by_cases same : h' = h
        · exact .inr ⟨_, Multiset.mem_cons_self _ _, same.symm, _, rfl, same.symm⟩
        · exact .inl ⟨others h' same ▸ probing, by simp⟩
      · exact .inr ⟨same_schedule ▸ is_scheduled, by simp [PoolCall.Carries]⟩
  | choosing =>
    cases stepped
    exact inv.look (by simp [PoolCall.Known]) (by simp) (by simp [PoolCall.Carries])
  | picking refIndex =>
    simp only [PoolState.section_, Option.some.injEq] at stepped
    split at stepped
    · rename_i h picked
      cases stepped
      have placed : 0 < s.pool.places h := by
        have counted := List.count_pos_iff.2 (List.mem_of_getElem? picked)
        rw [RefPool.places]
        omega
      refine inv.section_ inv.sound (fun _ => Multiset.mem_cons_of_mem) (fun ref member => ?_)
        (by simp) (fun h' probing => .inl ⟨probing, by simp⟩)
        fun time is_scheduled => .inr ⟨is_scheduled, by simp [PoolCall.Carries]⟩
      obtain rfl | member := Multiset.mem_cons.1 member
      · exact .inr ⟨inv.sound.known placed, by simp⟩
      · exact .inl member
    · cases stepped
      exact inv.look (by simp) (by simp) (by simp [PoolCall.Carries])
  | marking h badBeforeTime =>
    simp only [PoolState.section_, Option.some.injEq, Prod.mk.injEq] at stepped
    obtain ⟨rfl, rfl⟩ := stepped
    obtain ⟨sound, probing_before, scheduled⟩ :=
      RefPool.markAsBad_sound sound_before known badBeforeTime
    refine inv.section_ sound (fun _ => id) (fun _ => .inl) (schedules_known _)
      (fun h' probing => .inl ⟨probing_before h' probing, by simp⟩) fun time is_scheduled => ?_
    rw [scheduled, Option.or_eq_some_iff] at is_scheduled
    obtain set_now | ⟨-, was_scheduled⟩ := is_scheduled
    · rw [set_now]
      exact .inl mem_schedules
    · exact .inr ⟨was_scheduled, by simp [PoolCall.Carries]⟩
  | scheduling badTime =>
    cases stepped
    obtain ⟨sound, known_refs, known_calls, probed, carried⟩ := inv
    refine ⟨sound, known_refs, fun other member => ?_, fun h probing => ?_,
      fun time is_scheduled => ?_⟩
    · exact known_calls other (Multiset.mem_cons_of_mem (by simpa using member))
    · exact (probed h probing).mono (fun _ => id) fun member => mem_gone_on member (by simp)
    · refine (carried time is_scheduled).mono (fun _ => Multiset.mem_cons_of_mem)
        fun other member carries => ?_
      by_cases same : other = .scheduling badTime
      · subst same
        obtain rfl : badTime = time := by simpa [PoolCall.Carries] using carries
        exact .inl (Multiset.mem_cons_self _ _)
      · exact .inr ⟨other, mem_gone_on member same, carries⟩
  | finishing h =>
    cases stepped
    obtain ⟨sound, finished, others⟩ := RefPool.finishProbe_sound inv.sound h
    have same_schedule : (s.pool.finishProbe h).scheduledBadTime = s.pool.scheduledBadTime := by
      unfold RefPool.finishProbe
      split_ifs <;> rfl
    refine inv.section_ sound (fun _ => id) (fun _ => .inl) (by simp) (fun h' probing => ?_)
      fun time is_scheduled => .inr ⟨same_schedule ▸ is_scheduled, by simp [PoolCall.Carries]⟩
    by_cases same : h' = h
    · rw [same, finished] at probing
      cases probing
    · exact .inl ⟨others h' same ▸ probing, by simpa using Ne.symm same⟩
  | moving expectedBadTime =>
    simp only [PoolState.section_, Option.some.injEq, Prod.mk.injEq] at stepped
    obtain ⟨rfl, rfl⟩ := stepped
    obtain ⟨sound, probing_before, scheduled⟩ :=
      RefPool.moveReadyBadRefs_sound sound_before now expectedBadTime
    refine inv.section_ sound (fun _ => id) (fun _ => .inl) (schedules_known _)
      (fun h' probing => .inl ⟨probing_before h' probing, by simp⟩) fun time is_scheduled => ?_
    obtain set_now | ⟨was_scheduled, other⟩ := scheduled time is_scheduled
    · rw [set_now]
      exact .inl mem_schedules
    · exact .inr ⟨was_scheduled, by simpa [PoolCall.Carries] using Ne.symm other⟩

theorem PoolWorld.mem_endsGuard {ref : Ref} :
    call ∈ endsGuard ref refs ↔ ∃ probeGuard ∈ ref.probeGuard,
      some probeGuard ∉ refs.map Ref.probeGuard ∧ call = .finishing probeGuard.refHolder := by
  unfold endsGuard
  cases ref.probeGuard with
  | none => simp
  | some probeGuard =>
    dsimp only
    simp only [Option.mem_some_iff, exists_eq_left']
    split_ifs with shared
    · exact ⟨fun impossible => absurd impossible (Multiset.notMem_zero _),
        fun ends => absurd shared ends.1⟩
    · exact Multiset.mem_singleton.trans (and_iff_right shared).symm

theorem PoolWorld.Inv.begin {calls : Multiset PoolCall} (inv : PoolWorld.Inv holders ⟨s, calls⟩)
    (known : call.Known holders) : PoolWorld.Inv holders ⟨s, call ::ₘ calls⟩ := by
  obtain ⟨sound, known_refs, known_calls, probed, carried⟩ := inv
  refine ⟨sound, known_refs, Multiset.forall_mem_cons.2 ⟨known, known_calls⟩,
    fun h probing => ?_, fun time is_scheduled => ?_⟩
  · exact (probed h probing).mono (fun _ => id) Multiset.mem_cons_of_mem
  · exact (carried time is_scheduled).mono (fun _ => id) fun other member carries =>
      .inr ⟨other, Multiset.mem_cons_of_mem member, carries⟩

theorem PoolWorld.step_inv {event : PoolEvent} (inv : w.Inv holders)
    (stepped : w.step event = some w') : w'.Inv holders := by
  cases event with
  | getObject =>
    cases stepped
    exact inv.begin trivial
  | copy ref =>
    simp only [step, Option.ite_none_right_eq_some, Option.some.injEq] at stepped
    obtain ⟨alive, rfl⟩ := stepped
    obtain ⟨sound, known_refs, known_calls, probed, carried⟩ := inv
    refine ⟨sound, Multiset.forall_mem_cons.2 ⟨known_refs ref alive, known_refs⟩, known_calls,
      fun h probing => ?_, fun time is_scheduled => ?_⟩
    · exact (probed h probing).mono (fun _ => Multiset.mem_cons_of_mem) id
    · exact (carried time is_scheduled).mono (fun _ => id) fun other member carries =>
        .inr ⟨other, member, carries⟩
  | markAsBad ref badBeforeTime =>
    simp only [step, Option.ite_none_right_eq_some, Option.some.injEq] at stepped
    obtain ⟨alive, rfl⟩ := stepped
    exact inv.begin (inv.known_refs ref alive).1
  | destroy ref =>
    simp only [step, Option.ite_none_right_eq_some, Option.some.injEq] at stepped
    obtain ⟨alive, rfl⟩ := stepped
    obtain ⟨sound, known_refs, known_calls, probed, carried⟩ := inv
    obtain ⟨refs, refs_before⟩ := Multiset.exists_cons_of_mem alive
    simp only [refs_before, Multiset.erase_cons_head] at known_refs ⊢
    obtain ⟨known, its_guard⟩ := known_refs ref (Multiset.mem_cons_self _ _)
    refine ⟨sound, fun other member => known_refs other (Multiset.mem_cons_of_mem member),
      fun call member => ?_, fun h probing => ?_, fun time is_scheduled => ?_⟩
    · obtain ends | member := Multiset.mem_add.1 member
      · obtain ⟨probeGuard, guards, -, rfl⟩ := mem_endsGuard.1 ends
        exact (its_guard probeGuard guards).symm ▸ known
      · exact known_calls call member
    · obtain ⟨other, member, its_holder, probeGuard, guards, guard_holder⟩ | finishing :=
        probed h probing
      · rw [refs_before] at member
        obtain rfl | member := Multiset.mem_cons.1 member
        · by_cases shared : some probeGuard ∈ refs.map Ref.probeGuard
          · -- another reference keeps the guard
            obtain ⟨other, member, same_guard⟩ := Multiset.mem_map.1 shared
            refine .inl ⟨other, member, ?_, probeGuard, same_guard, guard_holder⟩
            rw [← guard_holder]
            exact ((known_refs other (Multiset.mem_cons_of_mem member)).2 probeGuard
              same_guard).symm
          · exact .inr (Multiset.mem_add.2 (.inl (mem_endsGuard.2
              ⟨probeGuard, guards, shared, by rw [guard_holder]⟩)))
        · exact .inl ⟨other, member, its_holder, probeGuard, guards, guard_holder⟩
      · exact .inr (Multiset.mem_add.2 (.inr finishing))
    · exact (carried time is_scheduled).mono (fun _ => id) fun other member carries =>
        .inr ⟨other, Multiset.mem_add.2 (.inr member), carries⟩
  | runTask badTime =>
    simp only [step, Option.ite_none_right_eq_some, Option.some.injEq] at stepped
    obtain ⟨pending, rfl⟩ := stepped
    obtain ⟨sound, known_refs, known_calls, probed, carried⟩ := inv
    refine ⟨sound, known_refs, Multiset.forall_mem_cons.2 ⟨trivial, known_calls⟩,
      fun h probing => ?_, fun time is_scheduled => ?_⟩
    · exact (probed h probing).mono (fun _ => id) Multiset.mem_cons_of_mem
    · obtain waits | ⟨other, member, carries⟩ := carried time is_scheduled
      · by_cases same : time = badTime
        · exact .inr ⟨_, Multiset.mem_cons_self _ _, .inr (by rw [same])⟩
        · exact .inl ((Multiset.mem_erase_of_ne same).2 waits)
      · exact .inr ⟨other, Multiset.mem_cons_of_mem member, carries⟩
  | goOn call now =>
    obtain ⟨rest, next, calls, gone_on, calls'⟩ := World.goOn_cases stepped
    obtain ⟨shared, _⟩ := w
    obtain ⟨shared', _⟩ := w'
    subst calls calls'
    exact pool_section_inv inv gone_on

/-- Any calls of the pool and any ends of references, section by section in any order. -/
theorem run_settled (holders : List Nat) (distinct : holders.Nodup) {events : List PoolEvent}
    (ran : run PoolWorld.step (.start holders) events = some w) : Settled holders w :=
  (run_keeps (PoolWorld.Inv holders) PoolWorld.step_inv (PoolWorld.start_inv distinct) ran).settled

/-- A reference is taken and reported bad. -/
def reportsBad : List PoolEvent :=
  [.getObject, .goOn .getting 0, .goOn .choosing 0, .goOn (.picking 0) 0, .markAsBad ⟨1, none⟩ 5,
    .goOn (.marking 1 5) 0]

/-- Its time comes, and its holder is probed by two references with one guard. -/
def probesOnce : List PoolEvent :=
  [.goOn (.scheduling 5) 0, .runTask 5, .goOn (.moving 5) 5, .getObject, .goOn .getting 6,
    .goOn .lockingTry 6, .copy ⟨1, some ⟨0, 1⟩⟩, .destroy ⟨1, some ⟨0, 1⟩⟩,
    .destroy ⟨1, some ⟨0, 1⟩⟩, .goOn (.finishing 1) 7]

theorem run_settled_probed :
    ∃ w ∈ run PoolWorld.step (.start [1, 2]) (reportsBad ++ probesOnce),
      Settled [1, 2] w ∧ w.shared.pool.availableRefHolders = [2, 1] := by
  obtain ⟨w, ran, available⟩ :
      ∃ w ∈ run PoolWorld.step (.start [1, 2]) (reportsBad ++ probesOnce),
        w.shared.pool.availableRefHolders = [2, 1] := by decide
  exact ⟨w, ran, run_settled [1, 2] (by decide) ran, available⟩

/-- The lock is released before the run is scheduled: no run is pending in between. -/
theorem reportsBad_not_pending : ∃ w ∈ run PoolWorld.step (.start [1]) reportsBad,
    ¬ (w.shared.pool.badRefHolders.isEmpty = false →
      ∃ time ∈ w.shared.pool.scheduledBadTime, time ∈ w.shared.scheduler) := by
  decide

end Runs

end AdServer.Grpc
