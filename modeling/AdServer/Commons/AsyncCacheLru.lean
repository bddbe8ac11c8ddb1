import AdServer.Commons.AsyncCache
import Mathlib.Data.List.AList

/-!
# The entries of the cache, by use and size

The entries of a bounded cache are in a list in the order of their last use,
and each one has the iterator of its node there. An insertion erases from the
front of the list until its holder fits, and counts in `size_t`.

A run is a sequence of locked sections with any arguments.
-/

namespace AdServer.Commons

open AdServer.Lib.Runs

section Lru

variable {Key Value : Type}

/-- A node of `lru_`; an iterator is the identity of its node. -/
structure LruNode (Key : Type) where
  id : Nat
  key : Key
  deriving DecidableEq

structure LruEntry (Value : Type) extends Entry Value where
  lruIt : Nat

/-- The entries of a cache and the list of their keys, with the number of nodes that there have
been. -/
structure LruCache (Key Value : Type) where
  entries : AList fun _ : Key => LruEntry Value := ∅
  lru : List (LruNode Key) := []
  currentSize : Nat := 0
  nodes : Nat := 0

namespace LruCache

variable [DecidableEq Key] (options : CacheOptions)

def touch (c : LruCache Key Value) (entry : LruEntry Value) : LruCache Key Value :=
  if options.maxSize = none then c
  else { c with
    lru := c.lru.filter (·.id ≠ entry.lruIt) ++ c.lru.filter (·.id = entry.lruIt) }

/-- `erase_lru_i_`. -/
def eraseLru (c : LruCache Key Value) (entry : LruEntry Value) : LruCache Key Value :=
  { c with
    currentSize := (c.currentSize + (2 ^ 64 - entry.holder.size)) % 2 ^ 64
    lru := c.lru.filter (·.id ≠ entry.lruIt) }

/-- `erase_i_`. -/
def erase (c : LruCache Key Value) (key : Key) (entry : LruEntry Value) : LruCache Key Value :=
  let c := if options.maxSize = none then c else c.eraseLru entry
  { c with entries := c.entries.erase key }

/-- The loop of `insert_i_`, for as many rounds as there are nodes. -/
def evict (maxSize holderSize : Nat) : Nat → LruCache Key Value → LruCache Key Value
  | 0, c => c
  | rounds + 1, c =>
    if maxSize < (c.currentSize + holderSize) % 2 ^ 64 then
      match c.lru with
      | [] => c
      | oldest :: lru =>
        match c.entries.lookup oldest.key with
        | none => evict maxSize holderSize rounds { c with lru := lru }
        | some entry =>
          let c := c.eraseLru entry
          evict maxSize holderSize rounds { c with entries := c.entries.erase oldest.key }
    else c

/-- The cache without the entry of the key, if there is one. -/
def without (c : LruCache Key Value) (key : Key) : LruCache Key Value :=
  match c.entries.lookup key with
  | none => c
  | some entry => c.erase options key entry

/-- `insert_i_`. -/
def insert (c : LruCache Key Value) (key : Key) (holder : Holder Value) : LruCache Key Value :=
  let c := c.without options key
  match options.maxSize with
  | none => { c with entries := c.entries.insert key ⟨⟨holder, false⟩, 0⟩ }
  | some maxSize =>
    let c := evict maxSize holder.size c.lru.length c
    if maxSize < (c.currentSize + holder.size) % 2 ^ 64 then c
    else { c with
      lru := c.lru ++ [⟨c.nodes, key⟩]
      entries := c.entries.insert key ⟨⟨holder, false⟩, c.nodes⟩
      currentSize := (c.currentSize + holder.size) % 2 ^ 64
      nodes := c.nodes + 1 }

def setUpdateInProgress (c : LruCache Key Value) (key : Key) (entry : LruEntry Value)
    (updateInProgress : Bool) : LruCache Key Value :=
  { c with
    entries := c.entries.insert key
      { entry with updateInProgress := updateInProgress } }

/-- The sizes of the entries together. -/
def size (entries : AList fun _ : Key => LruEntry Value) : Nat :=
  (entries.entries.map (·.2.holder.size)).sum

end LruCache

/-! ## Sections -/

/-- A locked section: of `lookup_` under the shared and under the unique lock, of `enqueue_load_`,
`complete_load_`, `insert_` and `complete_background_update_`. -/
inductive CacheSection (Key Value : Type) where
  | lookup (key : Key) (now : Time)
  | lookupAgain (key : Key) (now : Time)
  | enqueueLoad (key : Key) (now : Time)
  | completeLoad (key : Key) (holder : Option (Holder Value))
  | insert (key : Key) (holder : Holder Value)
  | completeBackground (key : Key) (oldHolder : Holder Value) (newHolder : Option (Holder Value))

def CacheSection.key : CacheSection Key Value → Key
  | .lookup key _ | .lookupAgain key _ | .enqueueLoad key _ | .completeLoad key _
  | .insert key _ | .completeBackground key .. => key

/-- The cache, the keys with a pending load, and when each key was touched or inserted. -/
structure LruState (Key Value : Type) where
  cache : LruCache Key Value
  pendingLoads : List Key
  touchedAt : Key → Nat
  clock : Nat

namespace LruState

variable [DecidableEq Key] (options : CacheOptions)

/-- The key is the last one that was used. -/
def used (s : LruState Key Value) (key : Key) (cache : LruCache Key Value) :
    LruState Key Value :=
  { s with
    cache := cache
    touchedAt := Function.update s.touchedAt key s.clock
    clock := s.clock + 1 }

/-- The holder that a section inserts, if it comes to that. -/
def inserted (s : LruState Key Value) : CacheSection Key Value → Option (Holder Value)
  | .lookup .. | .lookupAgain .. | .enqueueLoad .. => none
  | .completeLoad key holder => if key ∈ s.pendingLoads then holder else none
  | .insert _ holder => some holder
  | .completeBackground key oldHolder newHolder => do
    let entry ← s.cache.entries.lookup key
    if entry.holder.address = oldHolder.address then newHolder else none

/-- `insert_i_` replaces an entry of the key, as `complete_background_update_` does before it. -/
def step (s : LruState Key Value) (section_ : CacheSection Key Value) :
    Option (LruState Key Value) :=
  if ∀ holder ∈ s.inserted section_, holder.size < 2 ^ 64 then
    some <| match section_ with
    | .lookup key now =>
      match s.cache.entries.lookup key with
      | none => s
      | some entry =>
        if AsyncCache.expired options entry.holder now ∨
            AsyncCache.updateDue options entry.toEntry now then s
        else s.used key (s.cache.touch options entry)
    | .lookupAgain key now =>
      match s.cache.entries.lookup key with
      | none => s
      | some entry =>
        if AsyncCache.expired options entry.holder now then
          { s with cache := s.cache.erase options key entry }
        else
          let cache :=
            if AsyncCache.updateDue options entry.toEntry now then
              s.cache.setUpdateInProgress key entry true
            else s.cache
          s.used key (cache.touch options entry)
    | .enqueueLoad key now =>
      let pend (s : LruState Key Value) : LruState Key Value :=
        { s with pendingLoads := s.pendingLoads.insert key }
      match s.cache.entries.lookup key with
      | none => pend s
      | some entry =>
        if AsyncCache.expired options entry.holder now then
          pend { s with cache := s.cache.erase options key entry }
        else s.used key (s.cache.touch options entry)
    | .completeLoad key holder =>
      if key ∈ s.pendingLoads then
        let s := { s with pendingLoads := s.pendingLoads.erase key }
        match holder with
        | none => s
        | some holder => s.used key (s.cache.insert options key holder)
      else s
    | .insert key holder => s.used key (s.cache.insert options key holder)
    | .completeBackground key oldHolder newHolder =>
      match s.cache.entries.lookup key with
      | none => s
      | some entry =>
        if entry.holder.address ≠ oldHolder.address then s
        else
          match newHolder with
          | none => { s with cache := s.cache.setUpdateInProgress key entry false }
          | some holder =>
            s.used key ((s.cache.erase options key entry).insert options key holder)
  else none

def start : LruState Key Value := ⟨{}, [], fun _ => 0, 0⟩

end LruState

/-! ## What the sections keep -/

/-- The list and the entries belong together, and the list is in the order of the last use. -/
structure LruKept [DecidableEq Key] (maxSize : Nat) (touchedAt : Key → Nat) (clock : Nat)
    (c : LruCache Key Value) : Prop where
  ids : (c.lru.map LruNode.id).Nodup
  keys : (c.lru.map LruNode.key).Nodup
  fresh : ∀ node ∈ c.lru, node.id < c.nodes
  pointed : ∀ key entry, c.entries.lookup key = some entry → ⟨entry.lruIt, key⟩ ∈ c.lru
  owned : ∀ node ∈ c.lru, ∃ entry, c.entries.lookup node.key = some entry
  size : c.currentSize = LruCache.size c.entries
  bounded : c.currentSize ≤ maxSize
  ordered : c.lru.Pairwise fun node node' => touchedAt node.key < touchedAt node'.key
  used : ∀ node ∈ c.lru, touchedAt node.key < clock

namespace LruCache

variable [DecidableEq Key] {entries : AList fun _ : Key => LruEntry Value} {key : Key}

theorem size_insert (entry : LruEntry Value) :
    size (entries.insert key entry) = entry.holder.size + size (entries.erase key) := rfl

theorem size_erase {entry : LruEntry Value} (found : entries.lookup key = some entry) :
    entry.holder.size + size (entries.erase key) = size entries := by
  obtain ⟨value, before, after, absent, split, erased⟩ :=
    List.exists_of_kerase (List.dlookup_isSome.1 (Option.isSome_of_eq_some found))
  have same : value = entry := by
    have first : List.dlookup key before = none := List.dlookup_eq_none.2 absent
    rw [AList.lookup, split, List.dlookup_append, first, Option.none_or,
      List.dlookup_cons_eq] at found
    exact Option.some.inj found
  have rest : (entries.erase key).entries = before ++ after := erased
  rw [size, size, rest, split, same]
  simp only [List.map_append, List.map_cons, List.sum_append, List.sum_cons]
  omega

theorem erase_of_absent (absent : entries.lookup key = none) :
    (entries.erase key).entries = entries.entries :=
  List.kerase_of_notMem_keys (List.dlookup_eq_none.1 absent)

end LruCache

open LruCache

namespace LruKept

variable [DecidableEq Key] {maxSize clock : Nat} {touchedAt : Key → Nat}
variable {c : LruCache Key Value} {key : Key} {entry : LruEntry Value} {options : CacheOptions}
  (kept : LruKept maxSize touchedAt clock c)

include kept

variable {node : LruNode Key} {lru : List (LruNode Key)}

theorem lruIt_eq (member : node ∈ c.lru) (found : c.entries.lookup node.key = some entry) :
    entry.lruIt = node.id :=
  congrArg LruNode.id
    (List.inj_on_of_nodup_map kept.keys (kept.pointed _ _ found) member rfl)

theorem key_eq (member : node ∈ c.lru) (found : c.entries.lookup key = some entry)
    (same : node.id = entry.lruIt) : node.key = key :=
  congrArg LruNode.key
    (List.inj_on_of_nodup_map kept.ids member (kept.pointed _ _ found) same)

theorem erase (small : maxSize < 2 ^ 64) (found : c.entries.lookup key = some entry) :
    LruKept maxSize touchedAt clock
      { c.eraseLru entry with entries := c.entries.erase key } := by
  have kept_nodes : (c.eraseLru entry).lru.Sublist c.lru := List.filter_sublist
  have sizes := size_erase found
  have size := kept.size
  have bounded := kept.bounded
  have less : (c.currentSize + (2 ^ 64 - entry.holder.size)) % 2 ^ 64 =
      LruCache.size (c.entries.erase key) := by omega
  refine ⟨(kept_nodes.map _).nodup kept.ids, (kept_nodes.map _).nodup kept.keys,
    fun node member => kept.fresh node (kept_nodes.subset member), fun key' entry' found' => ?_,
    fun node member => ?_, less, ?_, kept.ordered.sublist kept_nodes,
    fun node member => kept.used node (kept_nodes.subset member)⟩
  · have ne : key' ≠ key := by
      rintro rfl
      rw [AList.lookup_erase] at found'
      cases found'
    rw [AList.lookup_erase_ne ne] at found'
    refine List.mem_filter.2 ⟨kept.pointed _ _ found', decide_eq_true fun same => ne ?_⟩
    exact kept.key_eq (kept.pointed _ _ found') found same
  · obtain ⟨there, other⟩ := List.mem_filter.1 member
    have ne : node.key ≠ key := by
      rintro rfl
      exact of_decide_eq_true other (kept.lruIt_eq there found).symm
    obtain ⟨entry', found'⟩ := kept.owned node there
    exact ⟨entry', (AList.lookup_erase_ne ne).trans found'⟩
  · change (c.currentSize + (2 ^ 64 - entry.holder.size)) % 2 ^ 64 ≤ maxSize
    omega

theorem update_ordered (older : lru.Sublist c.lru) (other : ∀ node ∈ lru, node.key ≠ key)
    (id : Nat) :
    (lru ++ [(⟨id, key⟩ : LruNode Key)]).Pairwise fun node node' =>
      Function.update touchedAt key clock node.key <
        Function.update touchedAt key clock node'.key := by
  refine List.pairwise_append.2 ⟨?_, List.pairwise_singleton _ _, fun node member last is_last => ?_⟩
  · refine (kept.ordered.sublist older).imp_of_mem fun member member' before => ?_
    rwa [Function.update_of_ne (other _ member), Function.update_of_ne (other _ member')]
  · rw [List.mem_singleton.1 is_last, Function.update_self, Function.update_of_ne (other _ member)]
    exact kept.used node (older.subset member)

theorem update_used (known : ∀ node ∈ lru, node ∈ c.lru ∨ node.key = key) :
    ∀ node ∈ lru, Function.update touchedAt key clock node.key < clock + 1 := by
  intro node member
  by_cases own : node.key = key
  · rw [own, Function.update_self]
    exact Nat.lt_succ_self clock
  · rw [Function.update_of_ne own]
    exact (kept.used node ((known node member).resolve_right own)).trans (Nat.lt_succ_self clock)

theorem touch (found : c.entries.lookup key = some entry)
    (bounded : options.maxSize = some maxSize) :
    LruKept maxSize (Function.update touchedAt key clock) (clock + 1) (c.touch options entry) := by
  have limited : ¬options.maxSize = none := by simp [bounded]
  have own : c.lru.filter (·.id = entry.lruIt) = [⟨entry.lruIt, key⟩] := by
    have once := (List.Nodup.of_map _ kept.ids).filter (·.id = entry.lruIt)
    refine List.perm_singleton.1 ((List.perm_ext_iff_of_nodup once (List.nodup_singleton _)).2
      fun node => ?_)
    rw [List.mem_filter, List.mem_singleton, decide_eq_true_eq]
    constructor
    · rintro ⟨member, same⟩
      exact List.inj_on_of_nodup_map kept.ids member (kept.pointed _ _ found) same
    · rintro rfl
      exact ⟨kept.pointed _ _ found, rfl⟩
  have others : ∀ node ∈ c.lru.filter (·.id ≠ entry.lruIt), node.key ≠ key := by
    rintro node member rfl
    obtain ⟨there, other⟩ := List.mem_filter.1 member
    exact of_decide_eq_true other (kept.lruIt_eq there found).symm
  have perm : (c.touch options entry).lru.Perm c.lru := by
    rw [LruCache.touch, if_neg limited]
    refine List.perm_append_comm.trans ?_
    simpa using List.filter_append_perm (·.id = entry.lruIt) c.lru
  have same : (c.touch options entry).entries = c.entries ∧
      (c.touch options entry).currentSize = c.currentSize ∧
      (c.touch options entry).nodes = c.nodes := by
    rw [LruCache.touch, if_neg limited]
    exact ⟨rfl, rfl, rfl⟩
  refine ⟨(perm.map _).nodup_iff.2 kept.ids, (perm.map _).nodup_iff.2 kept.keys,
    fun node member => ?_, fun key' entry' found' => ?_, fun node member => ?_, ?_, ?_, ?_,
    kept.update_used fun node member => .inl (perm.subset member)⟩
  · exact same.2.2 ▸ kept.fresh node (perm.subset member)
  · exact perm.mem_iff.2 (kept.pointed _ _ (same.1 ▸ found'))
  · exact same.1 ▸ kept.owned node (perm.subset member)
  · rw [same.1, same.2.1, kept.size]
  · exact same.2.1 ▸ kept.bounded
  · rw [LruCache.touch, if_neg limited, own]
    exact kept.update_ordered List.filter_sublist others _

theorem setUpdateInProgress (found : c.entries.lookup key = some entry) (updateInProgress : Bool) :
    LruKept maxSize touchedAt clock (c.setUpdateInProgress key entry updateInProgress) := by
  refine ⟨kept.ids, kept.keys, kept.fresh, fun key' entry' found' => ?_, fun node member => ?_,
    ?_, kept.bounded, kept.ordered, kept.used⟩
  · simp only [LruCache.setUpdateInProgress] at found'
    by_cases same : key' = key
    · subst same
      rw [AList.lookup_insert] at found'
      cases found'
      exact kept.pointed key' entry found
    · rw [AList.lookup_insert_ne same] at found'
      exact kept.pointed _ _ found'
  · simp only [LruCache.setUpdateInProgress]
    by_cases same : node.key = key
    · rw [same, AList.lookup_insert]
      exact ⟨_, rfl⟩
    · rw [AList.lookup_insert_ne same]
      exact kept.owned node member
  · exact kept.size.trans (size_erase found).symm

theorem push {holder : Holder Value} (absent : c.entries.lookup key = none)
    (room : c.currentSize + holder.size ≤ maxSize) :
    LruKept maxSize (Function.update touchedAt key clock) (clock + 1)
      { c with
        lru := c.lru ++ [⟨c.nodes, key⟩]
        entries := c.entries.insert key ⟨⟨holder, false⟩, c.nodes⟩
        currentSize := c.currentSize + holder.size
        nodes := c.nodes + 1 } := by
  have others : ∀ node ∈ c.lru, node.key ≠ key := by
    rintro node member rfl
    obtain ⟨entry, found⟩ := kept.owned node member
    rw [absent] at found
    cases found
  refine ⟨?_, ?_, fun node member => ?_, fun key' entry' found => ?_, fun node member => ?_, ?_,
    room, kept.update_ordered (List.Sublist.refl _) others _, kept.update_used ?_⟩
  · rw [List.map_append, List.map_singleton, List.nodup_append]
    refine ⟨kept.ids, List.nodup_singleton _, fun id member new is_new => ?_⟩
    obtain ⟨node, there, rfl⟩ := List.mem_map.1 member
    rw [List.mem_singleton.1 is_new]
    exact (kept.fresh node there).ne
  · rw [List.map_append, List.map_singleton, List.nodup_append]
    refine ⟨kept.keys, List.nodup_singleton _, fun other member new is_new => ?_⟩
    obtain ⟨node, there, rfl⟩ := List.mem_map.1 member
    rw [List.mem_singleton.1 is_new]
    exact others node there
  · obtain old | new := List.mem_append.1 member
    · exact (kept.fresh node old).trans (Nat.lt_succ_self _)
    · rw [List.mem_singleton.1 new]
      exact Nat.lt_succ_self _
  · refine List.mem_append.2 ?_
    by_cases same : key' = key
    · subst same
      rw [AList.lookup_insert] at found
      cases found
      exact .inr (List.mem_singleton_self _)
    · rw [AList.lookup_insert_ne same] at found
      exact .inl (kept.pointed _ _ found)
  · obtain old | new := List.mem_append.1 member
    · rw [AList.lookup_insert_ne (others node old)]
      exact kept.owned node old
    · rw [List.mem_singleton.1 new, AList.lookup_insert]
      exact ⟨_, rfl⟩
  · rw [LruCache.size_insert, LruCache.size, LruCache.erase_of_absent absent, kept.size]
    exact Nat.add_comm _ _
  · intro node member
    obtain old | new := List.mem_append.1 member
    · exact .inl old
    · exact .inr (List.mem_singleton.1 new ▸ rfl)

theorem eraseLru_oldest {oldest : LruNode Key} (list : c.lru = oldest :: lru)
    (found : c.entries.lookup oldest.key = some entry) : (c.eraseLru entry).lru = lru := by
  have same := kept.lruIt_eq (list ▸ List.mem_cons_self) found
  have once := kept.ids
  rw [list, List.map_cons, List.nodup_cons] at once
  rw [eraseLru, list, same, List.filter_cons_of_neg (by simp), List.filter_eq_self]
  rintro node member
  exact decide_eq_true fun equal => once.1 (List.mem_map.2 ⟨node, member, equal⟩)

theorem evict_spec (small : maxSize < 2 ^ 64) (holderSize rounds : Nat) :
    let c' := evict maxSize holderSize rounds c
    LruKept maxSize touchedAt clock c' ∧
    (∃ n, c'.lru = c.lru.drop n ∧ ∀ key, c'.entries.lookup key =
      if key ∈ (c.lru.take n).map LruNode.key then none else c.entries.lookup key) ∧
    c'.currentSize ≤ c.currentSize ∧
    (c.lru.length ≤ rounds →
      (c'.currentSize + holderSize) % 2 ^ 64 ≤ maxSize ∨ c'.lru = []) := by
  induction rounds generalizing c with
  | zero => exact ⟨kept, ⟨0, rfl, fun _ => rfl⟩, le_rfl, fun ends =>
      .inr (List.length_eq_zero_iff.1 (Nat.le_zero.1 ends))⟩
  | succ rounds ih =>
    by_cases exceeds : maxSize < (c.currentSize + holderSize) % 2 ^ 64
    · cases list : c.lru with
      | nil =>
        have stays : evict maxSize holderSize (rounds + 1) c = c := by
          rw [evict, if_pos exceeds, list]
        rw [stays]
        exact ⟨kept, ⟨0, list, fun _ => rfl⟩, le_rfl, fun _ => .inr list⟩
      | cons oldest lru =>
        obtain ⟨entry, found⟩ := kept.owned oldest (list ▸ List.mem_cons_self)
        have goes_on : evict maxSize holderSize (rounds + 1) c =
            evict maxSize holderSize rounds
              { c.eraseLru entry with entries := c.entries.erase oldest.key } := by
          rw [evict, if_pos exceeds, list]
          simp only [found]
          rfl
        have erased := kept.erase small found
        obtain ⟨kept', ⟨n, dropped, lookups⟩, less, ends⟩ := ih erased
        have tail : (c.eraseLru entry).lru = lru := kept.eraseLru_oldest list found
        rw [goes_on]
        refine ⟨kept', ⟨n + 1, ?_, fun key => ?_⟩, less.trans ?_, fun length => ends ?_⟩
        · rw [dropped, List.drop_succ_cons]
          exact congrArg (List.drop n) tail
        · rw [lookups, tail]
          by_cases same : key = oldest.key
          · subst same
            refine Eq.trans ?_ (if_pos (by simp)).symm
            exact (congrArg _ (AList.lookup_erase _ _)).trans (ite_self _)
          · simp [same, AList.lookup_erase_ne same]
        · rw [erased.size, kept.size, ← size_erase found]
          exact Nat.le_add_left _ _
        · change (c.eraseLru entry).lru.length ≤ rounds
          rw [tail]
          rw [List.length_cons] at length
          omega
    · have stays : evict maxSize holderSize (rounds + 1) c = c := by
        rw [evict, if_neg exceeds]
      rw [stays]
      exact ⟨kept, ⟨0, rfl, fun _ => rfl⟩, le_rfl, fun _ => .inl (Nat.not_lt.1 exceeds)⟩

theorem touchAbsent (absent : c.entries.lookup key = none) :
    LruKept maxSize (Function.update touchedAt key clock) (clock + 1) c := by
  have others : ∀ node ∈ c.lru, node.key ≠ key := by
    rintro node member rfl
    obtain ⟨entry, found⟩ := kept.owned node member
    rw [absent] at found
    cases found
  refine ⟨kept.ids, kept.keys, kept.fresh, kept.pointed, kept.owned, kept.size, kept.bounded,
    kept.ordered.imp_of_mem fun member member' before => ?_, kept.update_used fun _ => .inl⟩
  rwa [Function.update_of_ne (others _ member), Function.update_of_ne (others _ member')]

variable {holder : Holder Value} (small : maxSize < 2 ^ 64)
  (bounded : options.maxSize = some maxSize)

include small bounded

theorem without (key : Key) :
    LruKept maxSize touchedAt clock (c.without options key) ∧
    (c.without options key).entries.lookup key = none ∧
    ∀ key', key' ≠ key → (c.without options key).entries.lookup key' = c.entries.lookup key' := by
  unfold LruCache.without
  cases found : c.entries.lookup key with
  | none => exact ⟨kept, found, fun _ _ => rfl⟩
  | some entry =>
    have limited : ¬options.maxSize = none := by simp [bounded]
    simp only [LruCache.erase, if_neg limited]
    exact ⟨kept.erase small found, AList.lookup_erase _ _, fun key' ne => AList.lookup_erase_ne ne⟩

theorem insert (fits : (c.without options key).currentSize + holder.size < 2 ^ 64) :
    LruKept maxSize (Function.update touchedAt key clock) (clock + 1)
      (c.insert options key holder) := by
  obtain ⟨kept₁, absent, -⟩ := kept.without small bounded key
  obtain ⟨kept₂, ⟨n, -, lookups⟩, less, ends⟩ :=
    kept₁.evict_spec small holder.size (c.without options key).lru.length
  have absent₂ := lookups key
  rw [absent, ite_self] at absent₂
  simp only [LruCache.insert, bounded]
  split_ifs with exceeds
  · exact kept₂.touchAbsent absent₂
  · have exact_ := Nat.mod_eq_of_lt ((Nat.add_le_add_right less holder.size).trans_lt fits)
    rw [exact_] at exceeds ⊢
    exact kept₂.push absent₂ (Nat.not_lt.1 exceeds)

/-- What an insertion removes was used before what it leaves. -/
theorem insert_evicts {removed left : Key} (other : removed ≠ key) (other' : left ≠ key)
    (there : removed ∈ c.entries) (gone : removed ∉ (c.insert options key holder).entries)
    (stays : left ∈ (c.insert options key holder).entries) :
    touchedAt removed < touchedAt left := by
  obtain ⟨kept₁, -, others⟩ := kept.without small bounded key
  obtain ⟨-, ⟨n, -, lookups⟩, -⟩ :=
    kept₁.evict_spec small holder.size (c.without options key).lru.length
  have after (key' : Key) (ne : key' ≠ key) :
      (c.insert options key holder).entries.lookup key' =
        if key' ∈ ((c.without options key).lru.take n).map LruNode.key then none
        else c.entries.lookup key' := by
    rw [← others key' ne, ← lookups key']
    simp only [LruCache.insert, bounded]
    split_ifs
    · rfl
    · exact AList.lookup_insert_ne ne
  rw [← AList.lookup_eq_none, after removed other] at gone
  rw [← AList.lookup_isSome, after left other'] at stays
  split_ifs at gone with front
  · by_cases front' : left ∈ ((c.without options key).lru.take n).map LruNode.key
    · rw [if_pos front'] at stays
      cases stays
    rw [if_neg front'] at stays
    obtain ⟨node, first, rfl⟩ := List.mem_map.1 front
    obtain ⟨entry, found⟩ := Option.isSome_iff_exists.1 stays
    have list := (c.without options key).lru.take_append_drop n
    have member := kept₁.pointed left entry ((others left other').trans found)
    rw [← list] at member
    have last := (List.mem_append.1 member).resolve_left fun front =>
      front' (List.mem_map.2 ⟨_, front, rfl⟩)
    have ordered := kept₁.ordered
    rw [← list] at ordered
    exact (List.pairwise_append.1 ordered).2.2 node first _ last
  · exact absurd there (AList.lookup_eq_none.1 gone)

/-- An insertion whose size overflows finds room, and what it counts is less than it holds. -/
theorem insert_overflow (size : holder.size < 2 ^ 64)
    (exceeds : 2 ^ 64 ≤ (c.without options key).currentSize + holder.size) :
    (c.insert options key holder).currentSize <
      LruCache.size (c.insert options key holder).entries := by
  obtain ⟨kept₁, absent, -⟩ := kept.without small bounded key
  have under := kept₁.bounded
  have wraps : ((c.without options key).currentSize + holder.size) % 2 ^ 64 =
      (c.without options key).currentSize + holder.size - 2 ^ 64 := by omega
  have fits : ¬maxSize < ((c.without options key).currentSize + holder.size) % 2 ^ 64 := by omega
  have stays : evict maxSize holder.size (c.without options key).lru.length
      (c.without options key) = c.without options key := by
    cases (c.without options key).lru.length with
    | zero => rfl
    | succ rounds => rw [evict, if_neg fits]
  simp only [LruCache.insert, bounded, stays, if_neg fits]
  rw [LruCache.size_insert, LruCache.size, LruCache.erase_of_absent absent, wraps, kept₁.size]
  change _ < holder.size + LruCache.size (c.without options key).entries
  have := kept₁.size
  omega

end LruKept

section Insertions

variable {Callback : Type} [DecidableEq Key] {maxSize clock : Nat} {touchedAt : Key → Nat}
variable {c : AsyncCache Key Value Callback} {l : LruCache Key Value} {key : Key}
  {entry : LruEntry Value} {options : CacheOptions}

/-- The cache of the lookups and loads, with sizes that do not wrap, is this one. -/
structure Shows (c : AsyncCache Key Value Callback) (l : LruCache Key Value) : Prop where
  entries : ∀ key, c.entries key = (l.entries.lookup key).map LruEntry.toEntry
  lru : c.lru = l.lru.map LruNode.key
  currentSize : c.currentSize = l.currentSize

theorem LruKept.eraseLru_keys (kept : LruKept maxSize touchedAt clock l)
    (found : l.entries.lookup key = some entry) :
    (l.eraseLru entry).lru.map LruNode.key = (l.lru.map LruNode.key).erase key := by
  rw [kept.keys.erase_eq_filter, List.filter_map, eraseLru]
  refine congrArg _ (List.filter_congr fun node member => ?_)
  rw [Function.comp_apply, Bool.eq_iff_iff, decide_eq_true_iff, bne_iff_ne]
  refine not_congr ⟨kept.key_eq member found, ?_⟩
  rintro rfl
  exact (kept.lruIt_eq member found).symm

theorem Shows.erase (shows_ : Shows c l) (kept : LruKept maxSize touchedAt clock l)
    (small : maxSize < 2 ^ 64) (found : l.entries.lookup key = some entry) :
    Shows { c with
        entries := Function.update c.entries key none
        currentSize := c.currentSize - entry.holder.size
        lru := c.lru.erase key }
      { l.eraseLru entry with entries := l.entries.erase key } where
  entries key' := by
    dsimp only
    by_cases same : key' = key
    · subst same
      rw [Function.update_self, AList.lookup_erase]
      rfl
    · rw [Function.update_of_ne same, shows_.entries, AList.lookup_erase_ne same]
  lru := by rw [kept.eraseLru_keys found, shows_.lru]
  currentSize := by
    have sizes := size_erase found
    have size := kept.size
    have bounded := kept.bounded
    have same := shows_.currentSize
    have exact_ : (l.currentSize + (2 ^ 64 - entry.holder.size)) % 2 ^ 64 =
        l.currentSize - entry.holder.size := by omega
    change c.currentSize - entry.holder.size =
      ((l.currentSize + (2 ^ 64 - entry.holder.size)) % 2 ^ 64 : Nat)
    rw [exact_]
    omega

theorem Shows.evict {lru : List Key} (shows_ : Shows { c with lru } l)
    (kept : LruKept maxSize touchedAt clock l) (small : maxSize < 2 ^ 64) {holderSize : Nat}
    (fits : l.currentSize + holderSize < 2 ^ 64) :
    Shows (AsyncCache.evict (maxSize - holderSize) lru c)
      (evict maxSize holderSize lru.length l) := by
  induction lru generalizing c l with
  | nil => exact shows_
  | cons oldest lru ih =>
    have same := shows_.currentSize
    obtain ⟨node, nodes, list, rfl, -⟩ := List.map_eq_cons_iff.1 shows_.lru.symm
    obtain ⟨entry, found⟩ := kept.owned node (list ▸ List.mem_cons_self)
    have shown : c.entries node.key = some entry.toEntry := by
      rw [shows_.entries node.key, found]
      rfl
    rw [AsyncCache.evict, List.length_cons, evict, Nat.mod_eq_of_lt fits, shown, list]
    simp only [found] at same ⊢
    by_cases exceeds : maxSize < l.currentSize + holderSize
    · rw [if_neg (by omega), if_pos exceeds]
      have erased := shows_.erase kept small found
      rw [List.erase_cons_head] at erased
      have kept' := kept.erase small found
      have smaller := size_erase found
      refine ih erased kept' ?_
      rw [kept'.size]
      have size := kept.size
      dsimp only at size ⊢
      omega
    · rw [if_pos (by omega), if_neg exceeds]
      exact shows_

/-- Where the sizes do not wrap, the two insertions are the same. -/
theorem Shows.insert (shows_ : Shows c l) (kept : LruKept maxSize touchedAt clock l)
    (small : maxSize < 2 ^ 64) (bounded : options.maxSize = some maxSize) {holder : Holder Value}
    (fits : (l.without options key).currentSize + holder.size < 2 ^ 64) :
    Shows (c.insert options key holder) (l.insert options key holder) := by
  obtain ⟨kept₁, absent, -⟩ := kept.without small bounded key
  have without : Shows (((c.entries key).map (c.eraseEntry options key)).getD c)
      (l.without options key) := by
    rw [shows_.entries]
    unfold LruCache.without
    cases found : l.entries.lookup key with
    | none => exact shows_
    | some entry =>
      have limited : ¬options.maxSize = none := by simp [bounded]
      have erased := shows_.erase kept small found
      simp only [Option.map_some, Option.getD_some, AsyncCache.eraseEntry, LruCache.erase,
        Option.isNone_iff_eq_none, if_neg limited]
      exact erased
  obtain ⟨-, -, less, -⟩ := kept₁.evict_spec small holder.size (l.without options key).lru.length
  simp only [AsyncCache.insert, LruCache.insert, bounded]
  generalize ((c.entries key).map (c.eraseEntry options key)).getD c = c₁ at without ⊢
  generalize l.without options key = l₁ at without kept₁ fits less ⊢
  have evicted := Shows.evict without kept₁ small fits
  rw [without.lru, List.length_map, ← without.lru] at evicted
  have same := evicted.currentSize
  generalize AsyncCache.evict _ _ c₁ = c' at evicted same ⊢
  generalize LruCache.evict _ _ _ l₁ = l' at evicted same less ⊢
  rw [Nat.mod_eq_of_lt (by omega)]
  by_cases exceeds : maxSize < l'.currentSize + holder.size
  · rw [if_pos (by omega), if_pos exceeds]
    exact evicted
  · rw [if_neg (by omega), if_neg exceeds]
    refine ⟨fun key' => ?_, ?_, ?_⟩
    · dsimp only
      by_cases same : key' = key
      · subst same
        rw [Function.update_self, AList.lookup_insert]
        rfl
      · rw [Function.update_of_ne same, evicted.entries, AList.lookup_insert_ne same]
    · simp [evicted.lru]
    · simp [same]

end Insertions

/-! ## Runs -/

/-- The list has the key of each entry once and no other one, the iterator of an entry is that of
the node of its key, and the size is that of the entries together and within its bound. -/
structure Sized [DecidableEq Key] (maxSize : Nat) (c : LruCache Key Value) : Prop where
  listed : ∀ key, (c.lru.map LruNode.key).count key = if key ∈ c.entries then 1 else 0
  iterators : ∀ key entry, c.entries.lookup key = some entry → ⟨entry.lruIt, key⟩ ∈ c.lru
  distinct : (c.lru.map LruNode.id).Nodup
  size : c.currentSize = LruCache.size c.entries
  bounded : c.currentSize ≤ maxSize

section Runs

variable [DecidableEq Key] {maxSize : Nat} {options : CacheOptions} {s s' : LruState Key Value}
variable {section_ : CacheSection Key Value}

/-- What a section removes beside its own key was used before what it leaves. -/
def EvictsOldest (section_ : CacheSection Key Value) (s s' : LruState Key Value) : Prop :=
  ∀ removed left, removed ≠ section_.key → left ≠ section_.key →
    removed ∈ s.cache.entries → removed ∉ s'.cache.entries → left ∈ s'.cache.entries →
    s.touchedAt removed < s.touchedAt left

/-- The size of what a section inserts does not overflow with the sizes of the other entries. -/
def FitsSize (options : CacheOptions) (s : LruState Key Value)
    (section_ : CacheSection Key Value) : Prop :=
  ∀ holder ∈ s.inserted section_,
    (s.cache.without options section_.key).currentSize + holder.size < 2 ^ 64

theorem LruKept.sized {touchedAt : Key → Nat} {clock : Nat} {c : LruCache Key Value}
    (kept : LruKept maxSize touchedAt clock c) : Sized maxSize c where
  listed key := by
    have same : key ∈ c.lru.map LruNode.key ↔ key ∈ c.entries := by
      rw [← AList.lookup_isSome, List.mem_map]
      constructor
      · rintro ⟨node, member, rfl⟩
        exact Option.isSome_iff_exists.2 (kept.owned node member)
      · intro found
        obtain ⟨entry, found⟩ := Option.isSome_iff_exists.1 found
        exact ⟨_, kept.pointed key entry found, rfl⟩
    split_ifs with there
    · exact List.count_eq_one_of_mem kept.keys (same.2 there)
    · exact List.count_eq_zero.2 (mt same.1 there)
  iterators := kept.pointed
  distinct := kept.ids
  size := kept.size
  bounded := kept.bounded

/-- What a section does to the cache and the times of use, by what it inserts: nothing, or it
erases, marks or touches the entry of its key, or it inserts. -/
inductive Effect (options : CacheOptions) (s : LruState Key Value) (key : Key) :
    Option (Holder Value) → LruCache Key Value → (Key → Nat) → Nat → Prop where
  | keep : Effect options s key none s.cache s.touchedAt s.clock
  | erase {entry : LruEntry Value} (found : s.cache.entries.lookup key = some entry) :
    Effect options s key none
      { s.cache.eraseLru entry with entries := s.cache.entries.erase key } s.touchedAt s.clock
  | mark {entry : LruEntry Value} (found : s.cache.entries.lookup key = some entry)
    (updateInProgress : Bool) :
    Effect options s key none (s.cache.setUpdateInProgress key entry updateInProgress)
      s.touchedAt s.clock
  | touch {entry : LruEntry Value} (found : s.cache.entries.lookup key = some entry) :
    Effect options s key none (s.cache.touch options entry)
      (Function.update s.touchedAt key s.clock) (s.clock + 1)
  | markAndTouch {entry : LruEntry Value} (found : s.cache.entries.lookup key = some entry) :
    Effect options s key none ((s.cache.setUpdateInProgress key entry true).touch options entry)
      (Function.update s.touchedAt key s.clock) (s.clock + 1)
  | insert (holder : Holder Value) :
    Effect options s key (some holder) (s.cache.insert options key holder)
      (Function.update s.touchedAt key s.clock) (s.clock + 1)

/-- `complete_background_update_` erases the entry that the insertion would replace. -/
theorem LruCache.insert_erase {c : LruCache Key Value} {key : Key} {entry : LruEntry Value}
    (found : c.entries.lookup key = some entry) (holder : Holder Value) :
    (c.erase options key entry).insert options key holder = c.insert options key holder := by
  have absent : (c.erase options key entry).entries.lookup key = none := by
    unfold erase
    split_ifs <;> exact AList.lookup_erase _ _
  have same : (c.erase options key entry).without options key = c.without options key := by
    simp only [without, absent, found]
  simp only [insert, same]

theorem LruState.step_effect (bounded : options.maxSize = some maxSize)
    (stepped : s.step options section_ = some s') :
    Effect options s section_.key (s.inserted section_) s'.cache s'.touchedAt s'.clock := by
  have erase_eq (key : Key) (entry : LruEntry Value) : s.cache.erase options key entry =
      { s.cache.eraseLru entry with entries := s.cache.entries.erase key } := by
    simp [erase, eraseLru, bounded]
  simp only [step, Option.ite_none_right_eq_some, Option.some.injEq] at stepped
  obtain ⟨-, rfl⟩ := stepped
  cases section_ with
  | lookup key now =>
    dsimp only [CacheSection.key, inserted]
    cases found : s.cache.entries.lookup key with
    | none => exact .keep
    | some entry =>
      dsimp only
      split_ifs
      · exact .keep
      · exact .touch found
  | lookupAgain key now =>
    dsimp only [CacheSection.key, inserted]
    cases found : s.cache.entries.lookup key with
    | none => exact .keep
    | some entry =>
      dsimp only
      split_ifs
      · rw [erase_eq]
        exact .erase found
      · exact .markAndTouch found
      · exact .touch found
  | enqueueLoad key now =>
    dsimp only [CacheSection.key, inserted]
    cases found : s.cache.entries.lookup key with
    | none => exact .keep
    | some entry =>
      dsimp only
      split_ifs
      · rw [erase_eq]
        exact .erase found
      · exact .touch found
  | completeLoad key holder =>
    dsimp only [CacheSection.key, inserted]
    split_ifs
    · cases holder with
      | none => exact .keep
      | some holder => exact .insert holder
    · exact .keep
  | insert key holder => exact .insert holder
  | completeBackground key oldHolder newHolder =>
    dsimp only [CacheSection.key, inserted]
    cases found : s.cache.entries.lookup key with
    | none => exact .keep
    | some entry =>
      dsimp only [Option.bind_eq_bind, Option.bind_some]
      by_cases same : entry.holder.address = oldHolder.address
      · rw [if_pos same, if_neg (not_not.2 same)]
        cases newHolder with
        | none => exact .mark found false
        | some holder =>
          dsimp only [used]
          rw [insert_erase found]
          exact .insert holder
      · rw [if_neg same, if_pos same]
        exact .keep

theorem LruState.step_kept (small : maxSize < 2 ^ 64) (bounded : options.maxSize = some maxSize)
    (kept : LruKept maxSize s.touchedAt s.clock s.cache) (fits : FitsSize options s section_)
    (stepped : s.step options section_ = some s') :
    LruKept maxSize s'.touchedAt s'.clock s'.cache := by
  have effect := step_effect bounded stepped
  unfold FitsSize at fits
  cases inserted : s.inserted section_ with
  | none =>
    rw [inserted] at effect
    generalize s'.cache = cache, s'.touchedAt = touchedAt, s'.clock = clock at effect
    cases effect with
    | keep => exact kept
    | erase found => exact kept.erase small found
    | mark found updateInProgress => exact kept.setUpdateInProgress found updateInProgress
    | touch found => exact kept.touch found bounded
    | markAndTouch found =>
      have touched := (kept.setUpdateInProgress found true).touch (AList.lookup_insert _) bounded
      exact touched
  | some holder =>
    have fits := fits holder inserted
    rw [inserted] at effect
    generalize s'.cache = cache, s'.touchedAt = touchedAt, s'.clock = clock at effect
    cases effect with
    | insert => exact kept.insert small bounded fits

theorem LruState.step_evicts (small : maxSize < 2 ^ 64)
    (bounded : options.maxSize = some maxSize)
    (kept : LruKept maxSize s.touchedAt s.clock s.cache)
    (stepped : s.step options section_ = some s') : EvictsOldest section_ s s' := by
  intro removed left other other' there gone stays
  have effect := step_effect bounded stepped
  have limited : ¬options.maxSize = none := by simp [bounded]
  generalize s.inserted section_ = inserted, s'.cache = cache, s'.touchedAt = touchedAt,
    s'.clock = clock at effect gone stays
  cases effect with
  | keep => exact absurd there gone
  | erase found => exact absurd (AList.mem_erase.2 ⟨other, there⟩) gone
  | mark found updateInProgress =>
    exact absurd ((AList.mem_insert _).2 (.inr there)) gone
  | touch found =>
    rw [touch, if_neg limited] at gone
    exact absurd there gone
  | markAndTouch found =>
    rw [touch, if_neg limited] at gone
    exact absurd ((AList.mem_insert _).2 (.inr there)) gone
  | insert => exact kept.insert_evicts small bounded other other' there gone stays

theorem LruState.step_needs (small : maxSize < 2 ^ 64) (bounded : options.maxSize = some maxSize)
    (kept : LruKept maxSize s.touchedAt s.clock s.cache)
    (stepped : s.step options section_ = some s') (sized : Sized maxSize s'.cache) :
    FitsSize options s section_ := by
  intro holder inserted
  have effect := step_effect bounded stepped
  have size : holder.size < 2 ^ 64 := by
    simp only [step, Option.ite_none_right_eq_some] at stepped
    exact stepped.1 holder inserted
  by_contra exceeds
  have counted := sized.size
  rw [inserted] at effect
  generalize s'.cache = cache, s'.touchedAt = touchedAt, s'.clock = clock at effect counted
  cases effect with
  | insert => exact (kept.insert_overflow small bounded size (Nat.not_lt.1 exceeds)).ne counted

theorem LruState.start_kept : LruKept maxSize (start : LruState Key Value).touchedAt
    (start : LruState Key Value).clock (start : LruState Key Value).cache where
  ids := List.nodup_nil
  keys := List.nodup_nil
  fresh _ member := absurd member List.not_mem_nil
  pointed key entry found := by
    rw [start, AList.lookup_empty] at found
    cases found
  owned _ member := absurd member List.not_mem_nil
  size := rfl
  bounded := Nat.zero_le _
  ordered := List.Pairwise.nil
  used _ member := absurd member List.not_mem_nil

theorem run_sized (options : CacheOptions) (maxSize : Nat)
    (bounded : options.maxSize = some maxSize) (small : maxSize < 2 ^ 64)
    (sections : List (CacheSection Key Value))
    (ran : run (LruState.step options) .start sections = some s) :
    (∀ before after s₁, sections = before ++ after →
      run (LruState.step options) .start before = some s₁ →
      Sized maxSize s₁.cache ∧
        ∀ section_ s₂, s₁.step options section_ = some s₂ → EvictsOldest section_ s₁ s₂) ↔
    Along (LruState.step options) (FitsSize options) .start sections :=
  throughout_iff
    (fun s : LruState Key Value => LruKept maxSize s.touchedAt s.clock s.cache)
    (fun s => Sized maxSize s.cache ∧
      ∀ section_ s₂, s.step options section_ = some s₂ → EvictsOldest section_ s s₂)
    (fun kept => ⟨kept.sized, fun _ _ => LruState.step_evicts small bounded kept⟩)
    (LruState.step_kept small bounded)
    (fun kept stepped sized => LruState.step_needs small bounded kept stepped sized.1)
    LruState.start_kept ran

instance (options : CacheOptions) (s : LruState Key Value) (section_ : CacheSection Key Value) :
    Decidable (FitsSize options s section_) :=
  inferInstanceAs (Decidable (∀ holder ∈ s.inserted section_, _))

end Runs

end Lru

/-- Entries of six, of a cache of ten: the second one takes the place of the first one, and is
replaced by a larger one that finds no room. -/
def replacing : List (CacheSection Char Unit) :=
  [.enqueueLoad 'a' 0, .completeLoad 'a' (some ⟨0, none, 0, 6⟩), .lookup 'a' 1,
    .insert 'b' ⟨1, none, 2, 6⟩, .lookupAgain 'b' 60,
    .completeBackground 'b' ⟨1, none, 2, 6⟩ (some ⟨2, none, 3, 11⟩)]

theorem run_sized_replacing :
    ∃ s, run (LruState.step ⟨some 10, 50, 100⟩) .start replacing = some s ∧
      ∀ before after s₁, replacing = before ++ after →
        run (LruState.step ⟨some 10, 50, 100⟩) .start before = some s₁ →
        Sized 10 s₁.cache ∧ ∀ section_ s₂,
          s₁.step ⟨some 10, 50, 100⟩ section_ = some s₂ → EvictsOldest section_ s₁ s₂ := by
  obtain ⟨s, ran⟩ : ∃ s, run (LruState.step ⟨some 10, 50, 100⟩) .start replacing = some s :=
    ⟨_, rfl⟩
  exact ⟨s, ran, (run_sized ⟨some 10, 50, 100⟩ 10 rfl (by decide) replacing ran).2 (by decide)⟩

/-- The sizes of two entries are two together in `size_t`, and both stay. -/
def overflowing : List (CacheSection Char Unit) :=
  [.insert 'a' ⟨0, none, 0, 5⟩, .insert 'b' ⟨1, none, 0, 2 ^ 64 - 3⟩]

theorem overflowing_not_sized : ¬∀ (sections : List (CacheSection Char Unit)) s,
    run (LruState.step ⟨some 10, 50, 100⟩) .start sections = some s → Sized 10 s.cache := by
  intro sized
  have size := (sized overflowing _ rfl).size
  exact absurd size (by decide)

end AdServer.Commons
