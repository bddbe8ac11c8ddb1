import AdServer.Lib.Runs
import Mathlib.Tactic.Abel

/-!
# The asynchronous cache

A miss leaves its callback with the pending load of the key, and the first one
starts the load; the completion takes the callbacks and invokes them. Lookup,
enqueue and completion are separate critical sections.
-/

namespace AdServer.Commons

open AdServer.Lib.Runs

abbrev Time := Int

/-- What the cache reads of a `Holder`, and the address by which it is compared. -/
structure Holder (Value : Type) where
  address : Nat
  value : Option Value
  checkTime : Time
  size : Nat
  deriving DecidableEq

/-- `lru_it` points at the key in `lru_`. -/
structure Entry (Value : Type) where
  holder : Holder Value
  updateInProgress : Bool := false

/-- `maxSize` is none for `UNLIMITED_SIZE`. -/
structure CacheOptions where
  maxSize : Option Nat
  updatePeriod : Time
  maxKeepTime : Time

structure AsyncCache (Key Value Callback : Type) where
  entries : Key → Option (Entry Value)
  pendingLoads : List (Key × List Callback)
  lru : List Key
  currentSize : Int

/-- Who looks a key up: `get_async` with its callback, or `get_sync`. -/
inductive Getter (Callback : Type) where
  | async (callback : Callback)
  | sync
  deriving DecidableEq

/-- A call of `async_update_` that has not come to its continuation yet. -/
inductive Load (Key Value : Type) where
  | foreground (key : Key)
  | background (key : Key) (oldHolder : Holder Value)
  deriving DecidableEq

/-- A call of the cache, by what it does next. -/
inductive CacheCall (Key Value Callback : Type) where
  /-- The two sections of `lookup_`, under the shared and the unique lock. -/
  | lookingUp (getter : Getter Callback) (key : Key) (now : Time)
  | lookingUpAgain (getter : Getter Callback) (key : Key) (now : Time)
  | startingBackground (getter : Getter Callback) (key : Key) (oldHolder : Holder Value)
      (cachedValue : Value)
  | enqueueing (callback : Callback) (key : Key) (oldHolder : Option (Holder Value)) (now : Time)
  | startingLoad (key : Key) (oldHolder : Option (Holder Value))
  | completingLoad (key : Key) (holder : Option (Holder Value))
  /-- `complete_background_update_`, and the hit that its caller has to deliver, if any. -/
  | completingBackground (key : Key) (oldHolder : Holder Value) (newHolder : Option (Holder Value))
      (hit : Option (Getter Callback × Value))
  | invoking (callbacks : List Callback) (value : Value)
  | syncUpdating (key : Key) (oldHolder : Option (Holder Value))
  | inserting (key : Key) (holder : Holder Value)
  /-- `get_sync` returns. -/
  | returning (value : Value)
  deriving DecidableEq

section Calls

variable {Key Value Callback : Type}

def deliver (getter : Getter Callback) (value : Value) : CacheCall Key Value Callback :=
  match getter with
  | .async callback => .invoking [callback] value
  | .sync => .returning value

def miss (getter : Getter Callback) (key : Key) (oldHolder : Option (Holder Value)) (now : Time) :
    CacheCall Key Value Callback :=
  match getter with
  | .async callback => .enqueueing callback key oldHolder now
  | .sync => .syncUpdating key oldHolder

/-- The callback of a getter. -/
def Getter.inHand : Getter Callback → Multiset Callback
  | .async callback => {callback}
  | .sync => 0

/-- The callbacks that only this call knows of. -/
def CacheCall.inHand : CacheCall Key Value Callback → Multiset Callback
  | .lookingUp (.async callback) .. | .lookingUpAgain (.async callback) ..
  | .startingBackground (.async callback) .. | .enqueueing callback ..
  | .completingBackground _ _ _ (some (.async callback, _)) => {callback}
  | .invoking callbacks _ => Multiset.ofList callbacks
  | _ => 0

variable {key : Key} {getter : Getter Callback}

@[simp] theorem inHand_deliver (value : Value) :
    (deliver getter value : CacheCall Key Value Callback).inHand = getter.inHand := by
  cases getter <;> rfl

@[simp] theorem inHand_miss (oldHolder : Option (Holder Value))
    (now : Time) : (miss getter key oldHolder now : CacheCall Key Value Callback).inHand =
      getter.inHand := by
  cases getter <;> rfl

@[simp] theorem inHand_lookingUp (now : Time) :
    (CacheCall.lookingUp getter key now : CacheCall Key Value Callback).inHand =
      getter.inHand := by
  cases getter <;> rfl

@[simp] theorem inHand_lookingUpAgain (now : Time) :
    (CacheCall.lookingUpAgain getter key now : CacheCall Key Value Callback).inHand =
      getter.inHand := by
  cases getter <;> rfl

@[simp] theorem inHand_startingBackground (oldHolder : Holder Value)
    (value : Value) : (CacheCall.startingBackground getter key oldHolder value :
      CacheCall Key Value Callback).inHand = getter.inHand := by
  cases getter <;> rfl

@[simp] theorem inHand_completingBackground (oldHolder : Holder Value)
    (newHolder : Option (Holder Value)) (hit : Option (Getter Callback × Value)) :
    (CacheCall.completingBackground key oldHolder newHolder hit :
      CacheCall Key Value Callback).inHand = hit.elim 0 fun hit => hit.1.inHand := by
  obtain _ | ⟨_ | _, _⟩ := hit <;> rfl

variable [DecidableEq Key]

/-- The call is about to start or to complete a load of the key. -/
def CacheCall.loads (key : Key) : CacheCall Key Value Callback → Nat
  | .startingLoad key' _ | .completingLoad key' _ => if key' = key then 1 else 0
  | _ => 0

@[simp] theorem loads_deliver (value : Value) :
    (deliver getter value : CacheCall Key Value Callback).loads key = 0 := by
  cases getter <;> rfl

@[simp] theorem loads_miss (key' : Key)
    (oldHolder : Option (Holder Value)) (now : Time) :
    (miss getter key' oldHolder now : CacheCall Key Value Callback).loads key = 0 := by
  cases getter <;> rfl

end Calls

section Cache

variable {Key Value Callback : Type} [DecidableEq Key]

namespace AsyncCache

section Operations

variable (options : CacheOptions)

def new : AsyncCache Key Value Callback := ⟨fun _ => none, [], [], 0⟩

def touch (c : AsyncCache Key Value Callback) (key : Key) : AsyncCache Key Value Callback :=
  if options.maxSize.isNone then c else { c with lru := c.lru.erase key ++ [key] }

/-- `erase_i_`. -/
def eraseEntry (c : AsyncCache Key Value Callback) (key : Key) (entry : Entry Value) :
    AsyncCache Key Value Callback :=
  let c := if options.maxSize.isNone then c else
    { c with currentSize := c.currentSize - entry.holder.size, lru := c.lru.erase key }
  { c with entries := Function.update c.entries key none }

/-- The loop of `insert_i_` that makes room, from the oldest key on. -/
def evict (room : Int) : List Key → AsyncCache Key Value Callback → AsyncCache Key Value Callback
  | [], c => { c with lru := [] }
  | oldest :: lru, c =>
    if c.currentSize ≤ room then { c with lru := oldest :: lru }
    else
      match c.entries oldest with
      | none => evict room lru c
      | some entry =>
        evict room lru { c with
          entries := Function.update c.entries oldest none
          currentSize := c.currentSize - entry.holder.size }

/-- `insert_i_`. -/
def insert (c : AsyncCache Key Value Callback) (key : Key) (holder : Holder Value) :
    AsyncCache Key Value Callback :=
  let c := ((c.entries key).map (c.eraseEntry options key)).getD c
  match options.maxSize with
  | none => { c with entries := Function.update c.entries key (some { holder }) }
  | some maxSize =>
    let c := evict (maxSize - holder.size) c.lru c
    if (maxSize : Int) < c.currentSize + holder.size then c
    else { c with
      lru := c.lru ++ [key]
      entries := Function.update c.entries key (some { holder })
      currentSize := c.currentSize + holder.size }

def expired (holder : Holder Value) (now : Time) : Prop :=
  holder.checkTime + options.maxKeepTime ≤ now

def updateDue (entry : Entry Value) (now : Time) : Prop :=
  entry.holder.checkTime + options.updatePeriod ≤ now ∧ entry.updateInProgress = false

instance (holder : Holder Value) (now : Time) : Decidable (expired options holder now) :=
  inferInstanceAs (Decidable (_ ≤ _))

instance (entry : Entry Value) (now : Time) : Decidable (updateDue options entry now) :=
  inferInstanceAs (Decidable (_ ∧ _))

def pendingKeys (c : AsyncCache Key Value Callback) : List Key := c.pendingLoads.map Prod.fst

/-- A pending load of its own, or one more callback for the load that is pending. -/
def enqueueCallback (c : AsyncCache Key Value Callback) (key : Key) (callback : Callback) :
    AsyncCache Key Value Callback :=
  { c with
    pendingLoads :=
      if key ∈ c.pendingKeys then
        c.pendingLoads.map fun (key', callbacks) =>
          (key', if key' = key then callbacks ++ [callback] else callbacks)
      else c.pendingLoads ++ [(key, [callback])] }

def erasePending (c : AsyncCache Key Value Callback) (key : Key) :
    AsyncCache Key Value Callback :=
  { c with pendingLoads := c.pendingLoads.filter fun load => load.1 ≠ key }

/-- The callbacks that wait for a load. -/
def waiting (c : AsyncCache Key Value Callback) : Multiset Callback :=
  Multiset.ofList (c.pendingLoads.flatMap Prod.snd)

end Operations

variable {options : CacheOptions} {c : AsyncCache Key Value Callback} {key : Key}

@[simp] theorem pendingLoads_touch : (c.touch options key).pendingLoads = c.pendingLoads := by
  unfold touch
  split_ifs <;> rfl

@[simp] theorem pendingLoads_eraseEntry (entry : Entry Value) :
    (c.eraseEntry options key entry).pendingLoads = c.pendingLoads := by
  unfold eraseEntry
  dsimp only
  split_ifs <;> rfl

@[simp] theorem pendingLoads_evict (room : Int) (lru : List Key) :
    (evict room lru c).pendingLoads = c.pendingLoads := by
  induction lru generalizing c with
  | nil => rfl
  | cons oldest lru ih =>
    rw [evict]
    split_ifs
    · rfl
    · split
      · exact ih
      · exact ih

@[simp] theorem pendingLoads_insert (holder : Holder Value) :
    (c.insert options key holder).pendingLoads = c.pendingLoads := by
  have erased : (((c.entries key).map (c.eraseEntry options key)).getD c).pendingLoads =
      c.pendingLoads := by
    cases c.entries key <;> simp
  unfold insert
  dsimp only
  split
  · exact erased
  · split_ifs <;> simp [erased]

theorem pendingLoads_split (distinct : c.pendingKeys.Nodup) {callbacks : List Callback}
    (found : c.pendingLoads.lookup key = some callbacks) :
    ∃ before after, c.pendingLoads = before ++ (key, callbacks) :: after ∧
      (∀ load ∈ before, load.1 ≠ key) ∧ ∀ load ∈ after, load.1 ≠ key := by
  obtain ⟨before, after, split, -⟩ := List.lookup_eq_some_iff.1 found
  rw [pendingKeys, split, List.map_append, List.map_cons, List.nodup_middle,
    List.nodup_cons, List.mem_append] at distinct
  push Not at distinct
  refine ⟨before, after, split, fun load member same => ?_, fun load member same => ?_⟩
  · exact distinct.1.1 (List.mem_map.2 ⟨load, member, same⟩)
  · exact distinct.1.2 (List.mem_map.2 ⟨load, member, same⟩)

theorem lookup_of_mem_pendingKeys (member : key ∈ c.pendingKeys) :
    ∃ callbacks, c.pendingLoads.lookup key = some callbacks := by
  obtain ⟨load, pending, same⟩ := List.mem_map.1 member
  exact Option.isSome_iff_exists.1 (List.lookup_isSome_iff.2 ⟨load, pending, by simp [same]⟩)

theorem pendingKeys_enqueueCallback (callback : Callback) :
    (c.enqueueCallback key callback).pendingKeys =
      if key ∈ c.pendingKeys then c.pendingKeys else c.pendingKeys ++ [key] := by
  by_cases pending : key ∈ c.pendingKeys
  · rw [pendingKeys, enqueueCallback, if_pos pending, if_pos pending, List.map_map]
    rfl
  · rw [pendingKeys, enqueueCallback, if_neg pending, if_neg pending, List.map_append]
    rfl

theorem waiting_enqueueCallback (distinct : c.pendingKeys.Nodup) (callback : Callback) :
    (c.enqueueCallback key callback).waiting = callback ::ₘ c.waiting := by
  unfold enqueueCallback waiting
  dsimp only
  by_cases pending : key ∈ c.pendingKeys
  · obtain ⟨callbacks, found⟩ := lookup_of_mem_pendingKeys pending
    obtain ⟨before, after, split, before_other, after_other⟩ := pendingLoads_split distinct found
    have others : ∀ loads : List (Key × List Callback), (∀ load ∈ loads, load.1 ≠ key) →
        loads.map (fun (key', callbacks) =>
          (key', if key' = key then callbacks ++ [callback] else callbacks)) = loads := by
      intro loads other
      refine (List.map_congr_left fun load member => ?_).trans (List.map_id loads)
      simp [other load member]
    rw [if_pos pending, split, List.map_append, List.map_cons, others before before_other,
      others after after_other, if_pos rfl]
    simp only [List.flatMap_append, List.flatMap_cons, ← Multiset.coe_add,
      ← Multiset.singleton_add, ← Multiset.coe_singleton]
    abel
  · rw [if_neg pending, List.flatMap_append, List.flatMap_singleton, ← Multiset.coe_add,
      Multiset.coe_singleton, add_comm, Multiset.singleton_add]

theorem take_pendingLoad (distinct : c.pendingKeys.Nodup) {callbacks : List Callback}
    (found : c.pendingLoads.lookup key = some callbacks) (left : AsyncCache Key Value Callback)
    (taken : left.pendingLoads = (c.erasePending key).pendingLoads) :
    left.pendingKeys.Nodup ∧ left.waiting + Multiset.ofList callbacks = c.waiting ∧
      ∀ key', left.pendingKeys.count key' + (if key = key' then 1 else 0) =
        c.pendingKeys.count key' := by
  obtain ⟨before, after, split, before_other, after_other⟩ := pendingLoads_split distinct found
  have others : ∀ loads : List (Key × List Callback), (∀ load ∈ loads, load.1 ≠ key) →
      (loads.filter fun load => load.1 ≠ key) = loads := fun loads other =>
    List.filter_eq_self.2 fun load member => decide_eq_true (other load member)
  have rest : left.pendingLoads = before ++ after := by
    rw [taken, erasePending, split, List.filter_append, List.filter_cons_of_neg (by simp),
      others before before_other, others after after_other]
  unfold pendingKeys waiting at *
  refine ⟨?_, ?_, fun key' => ?_⟩
  · rw [split, List.map_append, List.map_cons, List.nodup_middle] at distinct
    rw [rest, List.map_append]
    exact distinct.of_cons
  · rw [rest, split]
    simp only [List.flatMap_append, List.flatMap_cons, ← Multiset.coe_add]
    abel
  · rw [rest, split]
    simp only [List.map_append, List.map_cons, List.count_append, List.count_cons, beq_iff_eq]
    omega

end AsyncCache

variable [Inhabited Value]

/-- `value_`. -/
def Holder.value_ (holder : Holder Value) : Value := holder.value.getD default

/-- What a section reads from outside: whether an update throws, and what a synchronous one
returns. -/
structure CacheInput (Value : Type) where
  throws : Bool := false
  holder : Option (Holder Value) := none

/-- The cache with the loads that are outstanding, and the history of the callbacks. -/
structure CacheState (Key Value Callback : Type) where
  cache : AsyncCache Key Value Callback
  loads : Multiset (Load Key Value)
  passed : Multiset Callback
  invoked : Multiset (Callback × Value)

namespace CacheState

variable (options : CacheOptions) (movedFrom : Key → Key)

def withCache (s : CacheState Key Value Callback) (cache : AsyncCache Key Value Callback) :
    CacheState Key Value Callback :=
  { s with cache := cache }

/-- One section of a call. `movedFrom key` is what is left of a key that has been moved into the
continuation of its load. -/
def section_ (input : CacheInput Value) (s : CacheState Key Value Callback) :
    CacheCall Key Value Callback →
      Option (CacheState Key Value Callback × Multiset (CacheCall Key Value Callback))
  | .lookingUp getter key now =>
    match s.cache.entries key with
    | none => some (s, {miss getter key none now})
    | some entry =>
      if AsyncCache.expired options entry.holder now ∨ AsyncCache.updateDue options entry now then
        some (s, {.lookingUpAgain getter key now})
      else some (s.withCache (s.cache.touch options key), {deliver getter entry.holder.value_})
  | .lookingUpAgain getter key now =>
    match s.cache.entries key with
    | none => some (s, {miss getter key none now})
    | some entry =>
      if AsyncCache.expired options entry.holder now then
        some (s.withCache (s.cache.eraseEntry options key entry),
          {miss getter key (some entry.holder) now})
      else if AsyncCache.updateDue options entry now then
        let cache := { s.cache with
          entries := Function.update s.cache.entries key
            (some { entry with updateInProgress := true }) }
        some (s.withCache (cache.touch options key),
          {.startingBackground getter key entry.holder entry.holder.value_})
      else some (s.withCache (s.cache.touch options key), {deliver getter entry.holder.value_})
  | .startingBackground getter key oldHolder cachedValue =>
    if input.throws then
      some (s, {.completingBackground key oldHolder none (some (getter, cachedValue))})
    else some ({ s with loads := .background key oldHolder ::ₘ s.loads },
      {deliver getter cachedValue})
  | .enqueueing callback key oldHolder now =>
    let (cache, oldHolder, hit) :=
      match s.cache.entries key with
      | none => (s.cache, oldHolder, none)
      | some entry =>
        if AsyncCache.expired options entry.holder now then
          (s.cache.eraseEntry options key entry, some entry.holder, none)
        else (s.cache.touch options key, oldHolder, some entry.holder.value_)
    match hit with
    | some value => some (s.withCache cache, {deliver (.async callback) value})
    | none =>
      some (s.withCache (cache.enqueueCallback key callback),
        if key ∈ cache.pendingKeys then 0 else {.startingLoad key oldHolder})
  | .startingLoad key _ =>
    if input.throws then some (s, {.completingLoad (movedFrom key) none})
    else some ({ s with loads := .foreground key ::ₘ s.loads }, 0)
  | .completingLoad key holder =>
    match s.cache.pendingLoads.lookup key with
    | none => some (s, 0)
    | some callbacks =>
      let cache := s.cache.erasePending key
      some (s.withCache ((holder.map (cache.insert options key)).getD cache),
        {.invoking callbacks ((holder.map Holder.value_).getD default)})
  | .completingBackground key oldHolder newHolder hit =>
    let delivers := hit.elim 0 fun (getter, value) => {deliver getter value}
    match s.cache.entries key with
    | none => some (s, delivers)
    | some entry =>
      if entry.holder.address ≠ oldHolder.address then some (s, delivers)
      else
        match newHolder with
        | none => some (s.withCache { s.cache with
            entries := Function.update s.cache.entries key
              (some { entry with updateInProgress := false }) }, delivers)
        | some holder =>
          some (s.withCache ((s.cache.eraseEntry options key entry).insert options key holder),
            delivers)
  | .invoking callbacks value =>
    match callbacks with
    | [] => some (s, 0)
    | callback :: callbacks =>
      some ({ s with invoked := (callback, value) ::ₘ s.invoked }, {.invoking callbacks value})
  | .syncUpdating key _ =>
    if input.throws then some (s, 0)
    else some (s, {match input.holder with
      | none => .returning default
      | some holder => .inserting key holder})
  | .inserting key holder =>
    some (s.withCache (s.cache.insert options key holder), {.returning holder.value_})
  | .returning _ => some (s, 0)

end CacheState

/-! ## Runs -/

inductive CacheEvent (Key Value Callback : Type) where
  | getAsync (key : Key) (callback : Callback) (now : Time)
  | getSync (key : Key) (now : Time)
  /-- An outstanding load calls its continuation. -/
  | complete (load : Load Key Value) (holder : Option (Holder Value))
  | goOn (call : CacheCall Key Value Callback) (input : CacheInput Value)

abbrev CacheWorld (Key Value Callback : Type) :=
  World (CacheState Key Value Callback) (CacheCall Key Value Callback)

def Load.continuation (holder : Option (Holder Value)) :
    Load Key Value → CacheCall Key Value Callback
  | .foreground key => .completingLoad key holder
  | .background key oldHolder => .completingBackground key oldHolder holder none

namespace CacheWorld

def start : CacheWorld Key Value Callback := ⟨⟨.new, 0, 0, 0⟩, 0⟩

variable [DecidableEq Value] [DecidableEq Callback] (options : CacheOptions)
  (movedFrom : Key → Key)

def step (w : CacheWorld Key Value Callback) :
    CacheEvent Key Value Callback → Option (CacheWorld Key Value Callback)
  | .getAsync key callback now =>
    some {
      shared := { w.shared with passed := callback ::ₘ w.shared.passed }
      calls := .lookingUp (.async callback) key now ::ₘ w.calls }
  | .getSync key now => some { w with calls := .lookingUp .sync key now ::ₘ w.calls }
  | .complete load holder =>
    if load ∈ w.shared.loads then
      some {
        shared := { w.shared with loads := w.shared.loads.erase load }
        calls := load.continuation holder ::ₘ w.calls }
    else none
  | .goOn call input => w.goOn (CacheState.section_ options movedFrom input) call

end CacheWorld

/-- The key whose update throws in this section. -/
def CacheCall.throwing? (input : CacheInput Value) : CacheCall Key Value Callback → Option Key
  | .startingLoad key _ => if input.throws then some key else none
  | _ => none

/-- The branch that goes wrong is not taken: the update of a key throws only where the move into
its continuation leaves the key as it was. -/
def ThrowsUnmoved (movedFrom : Key → Key) (_ : CacheWorld Key Value Callback) :
    CacheEvent Key Value Callback → Prop
  | .goOn call input => ∀ key ∈ call.throwing? input, movedFrom key = key
  | _ => True

instance (movedFrom : Key → Key) (w : CacheWorld Key Value Callback) :
    ∀ event, Decidable (ThrowsUnmoved movedFrom w event)
  | .goOn call input => inferInstanceAs (Decidable (∀ key ∈ call.throwing? input, _))
  | .getAsync .. | .getSync .. | .complete .. => isTrue trivial

/-! ## What a section keeps -/

/-- How many loads of the key are under way, from the enqueue that starts one to its completion. -/
def CacheWorld.loading (w : CacheWorld Key Value Callback) [DecidableEq Value] (key : Key) : Nat :=
  weigh (CacheCall.loads key) w.calls + w.shared.loads.count (.foreground key)

/-- What the cache promises between any two sections. -/
structure ServesOnce [DecidableEq Value] [DecidableEq Callback] (options : CacheOptions)
    (movedFrom : Key → Key) (w : CacheWorld Key Value Callback) : Prop where
  /-- Each callback waits for one load, or is in the hands of one call, or has been invoked. -/
  once : w.shared.passed =
    w.shared.cache.waiting + inHands CacheCall.inHand w.calls + w.shared.invoked.map Prod.fst
  invoked : w.calls = 0 → (∀ key, w.shared.loads.count (.foreground key) = 0) →
    w.shared.passed = w.shared.invoked.map Prod.fst
  one_load : ∀ key, w.shared.loads.count (.foreground key) ≤ 1
  pending : ∀ key, key ∈ w.shared.cache.pendingKeys ↔ w.loading key = 1
  /-- A key that is neither held nor being loaded can be loaded. -/
  reload : ∀ callback key oldHolder now, w.loading key = 0 → w.shared.cache.entries key = none →
    ∃ s', CacheState.section_ options movedFrom {} w.shared
      (.enqueueing callback key oldHolder now) = some (s', {.startingLoad key oldHolder})

/-- What holds of the cache and its calls. -/
structure Kept [DecidableEq Value] (s : CacheState Key Value Callback)
    (calls : Multiset (CacheCall Key Value Callback)) : Prop where
  distinct : s.cache.pendingKeys.Nodup
  one_load : ∀ key, weigh (CacheCall.loads key) calls + s.loads.count (.foreground key) =
    s.cache.pendingKeys.count key
  once : s.passed = s.cache.waiting + inHands CacheCall.inHand calls + s.invoked.map Prod.fst

end Cache

section Kept

variable {Key Value Callback : Type} [DecidableEq Key] [DecidableEq Value]
  {key : Key} {s s' : CacheState Key Value Callback}
  {call : CacheCall Key Value Callback} {next rest : Multiset (CacheCall Key Value Callback)}

open AsyncCache CacheState

/-- The invariant after a section, from what the section does to its own call. -/
theorem Kept.after (kept : Kept s (call ::ₘ rest)) (distinct : s'.cache.pendingKeys.Nodup)
    (loads : ∀ key, weigh (CacheCall.loads key) next + s'.loads.count (.foreground key) +
      s.cache.pendingKeys.count key = call.loads key + s.loads.count (.foreground key) +
        s'.cache.pendingKeys.count key)
    (passed : s'.passed = s.passed)
    (callbacks : s'.cache.waiting + inHands CacheCall.inHand next + s'.invoked.map Prod.fst =
      s.cache.waiting + call.inHand + s.invoked.map Prod.fst) : Kept s' (next + rest) := by
  refine ⟨distinct, fun key => ?_, ?_⟩
  · have before := kept.one_load key
    have change := loads key
    rw [weigh_cons] at before
    rw [weigh_add]
    omega
  · rw [passed, kept.once, inHands_cons, inHands_add]
    calc s.cache.waiting + (call.inHand + inHands CacheCall.inHand rest) + s.invoked.map Prod.fst
        = s.cache.waiting + call.inHand + s.invoked.map Prod.fst +
          inHands CacheCall.inHand rest := by abel
      _ = s'.cache.waiting + (inHands CacheCall.inHand next + inHands CacheCall.inHand rest) +
          s'.invoked.map Prod.fst := by
        rw [← callbacks]
        abel

theorem Kept.look (kept : Kept s (call ::ₘ rest))
    (pendingLoads : s'.cache.pendingLoads = s.cache.pendingLoads)
    (idle : ∀ key, call.loads key = 0) (next_idle : ∀ key, weigh (CacheCall.loads key) next = 0)
    (loads : ∀ key, s'.loads.count (.foreground key) = s.loads.count (.foreground key))
    (passed : s'.passed = s.passed)
    (callbacks : inHands CacheCall.inHand next + s'.invoked.map Prod.fst =
      call.inHand + s.invoked.map Prod.fst) :
    Kept s' (next + rest) := by
  have same_keys : s'.cache.pendingKeys = s.cache.pendingKeys := by
    rw [pendingKeys, pendingLoads, pendingKeys]
  have same_waiting : s'.cache.waiting = s.cache.waiting := by
    rw [waiting, pendingLoads, waiting]
  refine kept.after (same_keys ▸ kept.distinct) (fun key => ?_) passed ?_
  · rw [same_keys, idle, next_idle, loads key]
  · rw [same_waiting, add_assoc, callbacks, add_assoc]

variable {callback : Callback} {oldHolder : Option (Holder Value)} {now : Time}
  {getter : Getter Callback}

theorem kept_enqueued {cache : AsyncCache Key Value Callback}
    {oldHolder oldHolder' : Option (Holder Value)}
    (kept : Kept s (.enqueueing callback key oldHolder now ::ₘ rest))
    (same : cache.pendingLoads = s.cache.pendingLoads) :
    Kept (s.withCache (cache.enqueueCallback key callback))
      ((if key ∈ cache.pendingKeys then 0 else {.startingLoad key oldHolder'}) + rest) := by
  have same_keys : cache.pendingKeys = s.cache.pendingKeys := by
    rw [pendingKeys, same, pendingKeys]
  have same_waiting : cache.waiting = s.cache.waiting := by
    rw [waiting, same, waiting]
  have distinct : cache.pendingKeys.Nodup := same_keys ▸ kept.distinct
  have callbacks : (cache.enqueueCallback key callback).waiting = callback ::ₘ s.cache.waiting := by
    rw [waiting_enqueueCallback distinct, same_waiting]
  refine kept.after ?_ (fun key' => ?_) rfl ?_
  · simp only [withCache, pendingKeys_enqueueCallback]
    split_ifs with pending
    · exact distinct
    · exact List.nodup_append_comm.1 (List.nodup_cons.2 ⟨pending, distinct⟩)
  · simp only [withCache, pendingKeys_enqueueCallback, ← same_keys]
    split_ifs with pending
    · simp [CacheCall.loads]
    · simp only [weigh_singleton, CacheCall.loads, List.count_append, List.count_singleton,
        beq_iff_eq]
      omega
  · have none_in_hand : inHands CacheCall.inHand (if key ∈ cache.pendingKeys then 0
        else ({.startingLoad key oldHolder'} : Multiset (CacheCall Key Value Callback))) = 0 := by
      split_ifs
      · rfl
      · exact inHands_singleton _
    simp only [withCache, callbacks, none_in_hand, add_zero, CacheCall.inHand]
    rw [← Multiset.singleton_add]
    abel

/-- A call begins, with a callback that has just been passed, or with none. -/
theorem Kept.begin {calls : Multiset (CacheCall Key Value Callback)} (kept : Kept s calls)
    (same : s'.cache = s.cache)
    (loads : ∀ key, call.loads key + s'.loads.count (.foreground key) =
      s.loads.count (.foreground key)) (invoked : s'.invoked = s.invoked)
    (passed : s'.passed = call.inHand + s.passed) : Kept s' (call ::ₘ calls) := by
  obtain ⟨distinct, one_load, once⟩ := kept
  refine ⟨same ▸ distinct, fun key => ?_, ?_⟩
  · have own := loads key
    have before := one_load key
    rw [weigh_cons, same]
    omega
  · rw [passed, once, inHands_cons, same, invoked]
    abel

theorem CacheWorld.start_kept :
    Kept (start : CacheWorld Key Value Callback).shared start.calls := by
  refine ⟨List.nodup_nil, fun key => rfl, rfl⟩

variable [Inhabited Value] {options : CacheOptions} {movedFrom : Key → Key}
  {input : CacheInput Value}

theorem kept_lookingUp (kept : Kept s (.lookingUp getter key now ::ₘ rest))
    (stepped : s.section_ options movedFrom input (.lookingUp getter key now) = some (s', next)) :
    Kept s' (next + rest) := by
  simp only [section_] at stepped
  split at stepped
  · cases stepped
    exact kept.look rfl (fun _ => rfl) (by simp) (fun _ => rfl) rfl (by simp)
  · split_ifs at stepped
    · cases stepped
      exact kept.look rfl (fun _ => rfl) (fun _ => weigh_singleton) (fun _ => rfl) rfl (by simp)
    · cases stepped
      exact kept.look pendingLoads_touch (fun _ => rfl) (by simp) (fun _ => rfl) rfl
        (by simp [withCache])

theorem kept_lookingUpAgain (kept : Kept s (.lookingUpAgain getter key now ::ₘ rest))
    (stepped : s.section_ options movedFrom input (.lookingUpAgain getter key now) =
      some (s', next)) :
    Kept s' (next + rest) := by
  simp only [section_] at stepped
  split at stepped
  · cases stepped
    exact kept.look rfl (fun _ => rfl) (by simp) (fun _ => rfl) rfl (by simp)
  · split_ifs at stepped
    · cases stepped
      exact kept.look (pendingLoads_eraseEntry _) (fun _ => rfl) (by simp) (fun _ => rfl) rfl
        (by simp [withCache])
    · cases stepped
      exact kept.look pendingLoads_touch (fun _ => rfl) (fun _ => weigh_singleton) (fun _ => rfl)
        rfl (by simp [withCache])
    · cases stepped
      exact kept.look pendingLoads_touch (fun _ => rfl) (by simp) (fun _ => rfl) rfl
        (by simp [withCache])

theorem kept_enqueueing (kept : Kept s (.enqueueing callback key oldHolder now ::ₘ rest))
    (stepped : s.section_ options movedFrom input (.enqueueing callback key oldHolder now) =
      some (s', next)) :
    Kept s' (next + rest) := by
  simp only [section_] at stepped
  cases found : s.cache.entries key with
  | none =>
    simp only [found] at stepped
    cases stepped
    exact kept_enqueued kept rfl
  | some entry =>
    by_cases too_old : expired options entry.holder now
    · simp only [found, if_pos too_old] at stepped
      cases stepped
      exact kept_enqueued kept (pendingLoads_eraseEntry entry)
    · simp only [found, if_neg too_old] at stepped
      cases stepped
      refine kept.look pendingLoads_touch (fun _ => rfl) (by simp) (fun _ => rfl) rfl ?_
      rw [inHands_singleton, inHand_deliver]
      rfl

theorem kept_completingLoad {holder : Option (Holder Value)}
    (kept : Kept s (.completingLoad key holder ::ₘ rest))
    (stepped : s.section_ options movedFrom input (.completingLoad key holder) = some (s', next)) :
    Kept s' (next + rest) := by
  have pending : key ∈ s.cache.pendingKeys := by
    have own := kept.one_load key
    rw [weigh_cons, CacheCall.loads, if_pos rfl] at own
    exact List.count_pos_iff.1 (by omega)
  obtain ⟨callbacks, found⟩ := lookup_of_mem_pendingKeys pending
  simp only [section_, found, Option.some.injEq, Prod.mk.injEq] at stepped
  obtain ⟨rfl, rfl⟩ := stepped
  obtain ⟨distinct, callbacks_taken, key_taken⟩ := take_pendingLoad kept.distinct found
    ((holder.map ((s.cache.erasePending key).insert options key)).getD (s.cache.erasePending key))
    (by cases holder <;> simp)
  refine kept.after distinct (fun key' => ?_) rfl ?_
  · have taken := key_taken key'
    simp only [weigh_singleton, CacheCall.loads, withCache]
    omega
  · simp only [withCache, inHands_singleton, CacheCall.inHand, add_zero]
    rw [callbacks_taken]

theorem kept_completingBackground {oldHolder : Holder Value} {newHolder : Option (Holder Value)}
    {hit : Option (Getter Callback × Value)}
    (kept : Kept s (.completingBackground key oldHolder newHolder hit ::ₘ rest))
    (stepped : s.section_ options movedFrom input
      (.completingBackground key oldHolder newHolder hit) = some (s', next)) :
    Kept s' (next + rest) := by
  -- whatever happens to the entry, the caller delivers its hit
  have delivers : ∀ cache : AsyncCache Key Value Callback,
      cache.pendingLoads = s.cache.pendingLoads →
        Kept (s.withCache cache)
          ((hit.elim 0 fun (getter, value) => {deliver getter value}) + rest) := by
    intro cache same
    refine kept.look same (fun _ => rfl) (fun _ => ?_) (fun _ => rfl) rfl ?_
    · obtain _ | ⟨getter, value⟩ := hit <;> simp
    · obtain _ | ⟨getter, value⟩ := hit <;> simp [withCache]
  simp only [section_] at stepped
  split at stepped
  · cases stepped
    exact delivers s.cache rfl
  · rename_i entry found
    split_ifs at stepped
    · cases stepped
      exact delivers s.cache rfl
    · split at stepped
      · cases stepped
        exact delivers _ rfl
      · cases stepped
        exact delivers _ (by simp)

/-- What a section keeps, where an update that throws has left the key as it was. -/
theorem cacheSection_kept (kept : Kept s (call ::ₘ rest))
    (unmoved : ∀ key ∈ call.throwing? input, movedFrom key = key)
    (stepped : s.section_ options movedFrom input call = some (s', next)) :
    Kept s' (next + rest) := by
  cases call with
  | lookingUp getter key now => exact kept_lookingUp kept stepped
  | lookingUpAgain getter key now => exact kept_lookingUpAgain kept stepped
  | enqueueing callback key oldHolder now => exact kept_enqueueing kept stepped
  | completingLoad key holder => exact kept_completingLoad kept stepped
  | completingBackground key oldHolder newHolder hit =>
    exact kept_completingBackground kept stepped
  | startingBackground getter key oldHolder cachedValue =>
    simp only [section_] at stepped
    split_ifs at stepped
    · cases stepped
      exact kept.look rfl (fun _ => rfl) (fun _ => weigh_singleton) (fun _ => rfl) rfl (by simp)
    · cases stepped
      exact kept.look rfl (fun _ => rfl) (by simp) (fun _ => by simp) rfl (by simp)
  | startingLoad key oldHolder =>
    simp only [section_] at stepped
    split_ifs at stepped with throws
    · cases stepped
      refine kept.after kept.distinct (fun key' => ?_) rfl ?_
      · rw [weigh_singleton, unmoved key (by simp [CacheCall.throwing?, throws])]
        rfl
      · rw [inHands_singleton]
        rfl
    · cases stepped
      refine kept.after kept.distinct (fun key' => ?_) rfl rfl
      rw [weigh_zero, CacheCall.loads, Multiset.count_cons]
      dsimp only
      by_cases same : key = key'
      · rw [if_pos same, if_pos (by rw [same])]
        omega
      · rw [if_neg same, if_neg (by simpa using Ne.symm same)]
        omega
  | invoking callbacks value =>
    simp only [section_] at stepped
    split at stepped
    · cases stepped
      exact kept.look rfl (fun _ => rfl) (fun _ => rfl) (fun _ => rfl) rfl rfl
    · cases stepped
      refine kept.look rfl (fun _ => rfl) (fun _ => weigh_singleton) (fun _ => rfl) rfl ?_
      rw [inHands_singleton, Multiset.map_cons, CacheCall.inHand, CacheCall.inHand,
        ← Multiset.cons_coe, ← Multiset.singleton_add, ← Multiset.singleton_add]
      abel
  | syncUpdating key oldHolder =>
    simp only [section_] at stepped
    split_ifs at stepped
    · cases stepped
      exact kept.look rfl (fun _ => rfl) (fun _ => rfl) (fun _ => rfl) rfl rfl
    · cases stepped
      refine kept.look rfl (fun _ => rfl) (fun _ => ?_) (fun _ => rfl) rfl ?_
      · cases input.holder <;> exact weigh_singleton
      · cases input.holder <;> simp [CacheCall.inHand]
  | inserting key holder =>
    cases stepped
    exact kept.look (pendingLoads_insert holder) (fun _ => rfl) (fun _ => weigh_singleton)
      (fun _ => rfl) rfl (by simp [withCache, CacheCall.inHand])
  | returning value =>
    cases stepped
    exact kept.look rfl (fun _ => rfl) (fun _ => rfl) (fun _ => rfl) rfl rfl

variable {w w' : CacheWorld Key Value Callback}

theorem Kept.servesOnce [DecidableEq Callback] (kept : Kept w.shared w.calls) :
    ServesOnce options movedFrom w := by
  have at_most : ∀ key, w.loading key = w.shared.cache.pendingKeys.count key := kept.one_load
  have single : ∀ key, w.shared.cache.pendingKeys.count key ≤ 1 :=
    List.nodup_iff_count_le_one.1 kept.distinct
  have pending : ∀ key, key ∈ w.shared.cache.pendingKeys ↔ w.loading key = 1 := by
    intro key
    rw [at_most, ← List.count_pos_iff]
    have := single key
    omega
  refine ⟨kept.once, fun quiet loaded => ?_, fun key => ?_, pending, ?_⟩
  · have no_keys : w.shared.cache.pendingKeys = [] := by
      refine List.eq_nil_iff_forall_not_mem.2 fun key member => ?_
      have one := (pending key).1 member
      rw [CacheWorld.loading, quiet, weigh_zero, loaded key] at one
      cases one
    have none_wait : w.shared.cache.waiting = 0 := by
      rw [waiting, List.map_eq_nil_iff.1 no_keys]
      rfl
    rw [kept.once, quiet, none_wait, inHands_zero, zero_add, zero_add]
  · have one := single key
    rw [← at_most, CacheWorld.loading] at one
    omega
  · intro callback key oldHolder now idle absent
    have not_pending : key ∉ w.shared.cache.pendingKeys := by
      rw [pending, idle]
      exact Nat.zero_ne_one
    refine ⟨w.shared.withCache (w.shared.cache.enqueueCallback key callback), ?_⟩
    simp only [section_, absent, if_neg not_pending]

variable [DecidableEq Callback]

theorem CacheWorld.step_kept {event : CacheEvent Key Value Callback}
    (kept : Kept w.shared w.calls) (unmoved : ThrowsUnmoved movedFrom w event)
    (stepped : w.step options movedFrom event = some w') : Kept w'.shared w'.calls := by
  cases event with
  | getAsync key callback now =>
    cases stepped
    exact kept.begin rfl (fun _ => Nat.zero_add _) rfl rfl
  | getSync key now =>
    cases stepped
    exact kept.begin rfl (fun _ => Nat.zero_add _) rfl (zero_add _).symm
  | complete load holder =>
    simp only [step, Option.ite_none_right_eq_some, Option.some.injEq] at stepped
    obtain ⟨outstanding, rfl⟩ := stepped
    obtain ⟨loads, loads_before⟩ := Multiset.exists_cons_of_mem outstanding
    refine kept.begin rfl (fun key => ?_) rfl ?_
    · simp only [loads_before, Multiset.erase_cons_head, Multiset.count_cons]
      cases load with
      | foreground key' =>
        rw [Load.continuation, CacheCall.loads]
        by_cases same : key' = key
        · rw [if_pos same, if_pos (by rw [same]), Nat.add_comm]
        · rw [if_neg same, if_neg (by simpa using Ne.symm same), Nat.zero_add, Nat.add_zero]
      | background key' oldHolder => simp [Load.continuation, CacheCall.loads]
    · cases load <;> simp [Load.continuation, CacheCall.inHand]
  | goOn call input =>
    obtain ⟨rest, next, calls, gone_on, calls'⟩ := World.goOn_cases stepped
    obtain ⟨shared, _⟩ := w
    subst calls
    rw [calls']
    exact cacheSection_kept kept unmoved gone_on

/-- Any calls of `get_async` and `get_sync` and any completions, section by section. -/
theorem run_servesOnce (options : CacheOptions) (movedFrom : Key → Key)
    {events : List (CacheEvent Key Value Callback)}
    (unmoved : Along (CacheWorld.step options movedFrom) (ThrowsUnmoved movedFrom) .start events)
    (ran : run (CacheWorld.step options movedFrom) .start events = some w) :
    ServesOnce options movedFrom w :=
  (run_inv (fun w => Kept w.shared w.calls) CacheWorld.step_kept CacheWorld.start_kept unmoved
    ran).servesOnce

end Kept

/-- A load is started, and completes. -/
def loadsOnce : List (CacheEvent (List Char) Nat Nat) :=
  [.getAsync ['a'] 7 0, .goOn (.lookingUp (.async 7) ['a'] 0) {},
    .goOn (.enqueueing 7 ['a'] none 0) {}, .goOn (.startingLoad ['a'] none) {},
    .complete (.foreground ['a']) none, .goOn (.completingLoad ['a'] none) {},
    .goOn (.invoking [7] 0) {}, .goOn (.invoking [] 0) {}]

theorem run_servesOnce_loadsOnce :
    ∃ w ∈ run (CacheWorld.step ⟨none, 1, 2⟩ fun _ => []) .start loadsOnce,
      ServesOnce ⟨none, 1, 2⟩ (fun _ => []) w ∧ w.shared.invoked = {(7, 0)} := by
  obtain ⟨w, ran, invoked⟩ :
      ∃ w ∈ run (CacheWorld.step ⟨none, 1, 2⟩ fun _ => []) .start loadsOnce,
        w.shared.invoked = {(7, 0)} := by decide
  exact ⟨w, ran, run_servesOnce ⟨none, 1, 2⟩ (fun _ => []) (by decide) ran, invoked⟩

/-- The update throws, with the key already moved away. -/
def throwsMoved : List (CacheEvent (List Char) Nat Nat) :=
  [.getAsync ['a'] 7 0, .goOn (.lookingUp (.async 7) ['a'] 0) {},
    .goOn (.enqueueing 7 ['a'] none 0) {},
    .goOn (.startingLoad ['a'] none) { throws := true }, .goOn (.completingLoad [] none) {}]

/-- The callback waits for ever, for a load that nobody completes. -/
theorem throwsMoved_not_servesOnce :
    ∃ w ∈ run (CacheWorld.step ⟨none, 1, 2⟩ fun _ => []) .start throwsMoved,
      ¬ ServesOnce ⟨none, 1, 2⟩ (fun _ => []) w := by
  obtain ⟨w, ran, quiet, no_loads, never⟩ :
      ∃ w ∈ run (CacheWorld.step ⟨none, 1, 2⟩ fun _ => []) .start throwsMoved,
        w.calls = 0 ∧ w.shared.loads = 0 ∧
          w.shared.passed ≠ w.shared.invoked.map Prod.fst := by decide
  exact ⟨w, ran, fun serves => never (serves.invoked quiet fun key => by rw [no_loads]; rfl)⟩

end AdServer.Commons
