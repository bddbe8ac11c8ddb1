import AdServer.CampaignManager.Candidates
import AdServer.ChannelServer.UrlTrigger
import AdServer.Lib.ParentChains
import Mathlib.Data.Finset.Sort

/-!
# Priorities of platform channels

The platform channels are gone through from the ones at the top down, one level after
another, and the level is the priority.
-/

namespace AdServer.CampaignManager

open AdServer.Lib
open ChannelServer (Word toLower)

structure DescriptiveParams where
  name : Word
  parentChannelId : Nat

structure PlatformChannel where
  channelId : Nat
  descriptiveParams : Option DescriptiveParams

/-- `platform_channels` of the links, in the order in which they are gone through. -/
structure PlatformChannels where
  channels : List PlatformChannel
  distinct : (channels.map (·.channelId)).Nodup

structure PlatformChannelHolder where
  priority : Nat
  normName : Word
  deriving DecidableEq

abbrev PlatformChannelPriorityMap := SortedMap Nat PlatformChannelHolder

/-- `channel_childs` and `platform_channel_priorities`. -/
structure Filling where
  childs : SortedMap Nat (List Nat)
  priorities : PlatformChannelPriorityMap

namespace PlatformChannels

variable {m : PlatformChannels} {c : PlatformChannel} {id k n : Nat} {s : Filling}

def find (m : PlatformChannels) (id : Nat) : Option PlatformChannel :=
  m.channels.find? fun c => c.channelId == id

/-- The key of a channel in `channel_childs`. -/
def keyOf (m : PlatformChannels) (c : PlatformChannel) : Nat :=
  match c.descriptiveParams with
  | some params =>
    if params.parentChannelId ≠ 0 ∧ (m.find params.parentChannelId).isSome then
      params.parentChannelId
    else 0
  | none => 0

def pushChild (m : PlatformChannels) (childs : SortedMap Nat (List Nat))
    (c : PlatformChannel) : SortedMap Nat (List Nat) :=
  childs.put (m.keyOf c) ((childs.find? (m.keyOf c)).getD [] ++ [c.channelId])

def holder (priority : Nat) (c : PlatformChannel) : PlatformChannelHolder :=
  ⟨priority, toLower (c.descriptiveParams.elim [] (·.name))⟩

def addPriority (m : PlatformChannels) (priority : Nat)
    (priorities : PlatformChannelPriorityMap) (id : Nat) :
    Except Fault PlatformChannelPriorityMap :=
  match m.find id with
  | some c => .ok (priorities.insertNew id (holder priority c))
  | none => .error .assertFailed

/-- One of `current_root_channels`, with `new_root_channels` so far. -/
def visitRoot (m : PlatformChannels) (priority : Nat) :
    Filling × List Nat → Nat → Except Fault (Filling × List Nat)
  | (s, newRoots), root =>
    match s.childs.find? root with
    | some list => do
      let priorities ← list.foldlM (m.addPriority priority) s.priorities
      return (⟨s.childs.erase root, priorities⟩, newRoots ++ list)
    | none => return ({ s with childs := s.childs.erase root }, newRoots)

/-- The loop over the levels, with none where the fuel is gone. -/
def fillLevels (m : PlatformChannels) :
    Nat → Nat → List Nat → Filling → Option (Except Fault Filling)
  | _, _, [], s => some (.ok s)
  | 0, _, _ :: _, _ => none
  | fuel + 1, priority, roots, s =>
    match roots.foldlM (m.visitRoot priority) (s, []) with
    | .ok (s, newRoots) => m.fillLevels fuel (priority + 1) newRoots s
    | .error fault => some (.error fault)

def channelChilds (m : PlatformChannels) : SortedMap Nat (List Nat) :=
  m.channels.foldl m.pushChild .empty

def fillPlatformChannelPriorities (m : PlatformChannels) (fuel : Nat) :
    Option (Except Fault PlatformChannelPriorityMap) :=
  (m.fillLevels fuel 0 [0] ⟨m.channelChilds, .empty⟩).map fun filled => do
    let s ← filled
    check s.childs.isEmpty
    return s.priorities

/-- A step of the choice, from the priority and the channel it has come to. -/
def choose (priorities : PlatformChannelPriorityMap) (cur : Nat × Nat) (id : Nat) : Nat × Nat :=
  match priorities.find? id with
  | some holder => if cur.2 = 0 ∨ cur.1 < holder.priority then (holder.priority, id) else cur
  | none => cur

/-- `last_platform_channel_id` for the channels that a request matches. -/
def lastPlatformChannelId (priorities : PlatformChannelPriorityMap) (matched : Finset Nat) : Nat :=
  ((matched.sort (· ≤ ·)).foldl (choose priorities) (0, 0)).2

def IsRoot (m : PlatformChannels) (id : Nat) : Prop :=
  ∃ c, m.find id = some c ∧ m.keyOf c = 0

/-- The channel above, where it is one of the platform channels. -/
def parent (m : PlatformChannels) (id : Nat) : Option Nat :=
  (m.find id).bind fun c => if m.keyOf c = 0 then none else some (m.keyOf c)

abbrev HasLevel (m : PlatformChannels) : Nat → Nat → Prop := Level m.IsRoot m.parent

/-- The keys of `channel_childs` gone through at each priority. -/
def At (m : PlatformChannels) : Nat → Nat → Prop
  | 0, k => k = 0
  | n + 1, k => m.HasLevel n k

/-- What is to be recorded for a channel. -/
def Holds (m : PlatformChannels) (n id : Nat) (h : PlatformChannelHolder) : Prop :=
  ∃ c, m.find id = some c ∧ m.HasLevel n id ∧ h = holder n c

def kids (childs : SortedMap Nat (List Nat)) (k : Nat) : List Nat := (childs.find? k).getD []

theorem find_eq : m.find id = some c ↔ c ∈ m.channels ∧ c.channelId = id :=
  find?_key m.distinct

theorem parent_of_isRoot : ∀ k, m.IsRoot k → m.parent k = none := by
  rintro k ⟨c, found, zero⟩
  simp [parent, found, zero]

theorem parent_eq : m.parent id = some k ↔ k ≠ 0 ∧ ∃ c, m.find id = some c ∧ m.keyOf c = k := by
  simp only [parent, Option.bind_eq_some_iff]
  constructor
  · rintro ⟨c, found, key⟩
    split at key <;> simp_all
  · rintro ⟨some, c, found, rfl⟩
    exact ⟨c, found, if_neg some⟩

theorem find_of_level (level : m.HasLevel n id) : ∃ c, m.find id = some c := by
  cases level with
  | root top => exact ⟨_, top.choose_spec.1⟩
  | under up _ => exact ⟨_, (parent_eq.1 up).2.choose_spec.1⟩

theorem find?_channelChilds : m.channelChilds.find? k =
    match (m.channels.filter fun c => m.keyOf c = k).map (·.channelId) with
    | [] => none
    | list => some list := by
  unfold channelChilds
  induction m.channels using List.reverseRecOn with
  | nil => rfl
  | append_singleton rest c ih =>
    rw [List.foldl_append, List.filter_append, List.map_append]
    simp only [List.foldl_cons, List.foldl_nil, pushChild, SortedMap.find?_put]
    by_cases key : m.keyOf c = k
    · subst key
      rw [if_pos rfl, ih]
      cases (rest.filter fun d => m.keyOf d = m.keyOf c).map (·.channelId) <;> simp
    · simpa [key, Ne.symm key] using ih

theorem mem_kids : id ∈ kids m.channelChilds k ↔ ∃ c, m.find id = some c ∧ m.keyOf c = k := by
  have listed : kids m.channelChilds k =
      (m.channels.filter fun c => m.keyOf c = k).map (·.channelId) := by
    rw [kids, find?_channelChilds]
    split <;> simp_all
  simp only [listed, List.mem_map, List.mem_filter, decide_eq_true_eq, find_eq]
  grind

theorem find?_eq_none (empty : ∀ id, id ∉ kids m.channelChilds k) :
    m.channelChilds.find? k = none := by
  rw [kids, find?_channelChilds] at *
  split at empty
  · rfl
  · rename_i some
    exact absurd (List.eq_nil_iff_forall_not_mem.2 empty) some

theorem exists_at_iff (found : m.find id = some c) :
    (∃ n, m.At n (m.keyOf c)) ↔ ∃ n, m.HasLevel n id := by
  constructor
  · rintro ⟨_ | n, here⟩
    · exact ⟨0, .root ⟨c, found, here⟩⟩
    · by_cases zero : m.keyOf c = 0
      · exact ⟨0, .root ⟨c, found, zero⟩⟩
      · exact ⟨n + 1, .under (parent_eq.2 ⟨zero, c, found, rfl⟩) here⟩
  · rintro ⟨_, level⟩
    cases level with
    | root top =>
      obtain ⟨d, found', zero⟩ := top
      obtain rfl := Option.some_inj.1 (found.symm.trans found')
      exact ⟨0, zero⟩
    | under up higher =>
      obtain ⟨_, d, found', rfl⟩ := parent_eq.1 up
      obtain rfl := Option.some_inj.1 (found.symm.trans found')
      exact ⟨_ + 1, higher⟩

theorem foldlM_addPriority (ids : List Nat) (p : PlatformChannelPriorityMap)
    (known : ∀ id ∈ ids, ∃ c, m.find id = some c ∧ ∀ h, p.find? id = some h → h = holder n c) :
    ∃ p', ids.foldlM (m.addPriority n) p = .ok p' ∧ ∀ id h, p'.find? id = some h ↔
      p.find? id = some h ∨ id ∈ ids ∧ ∃ c, m.find id = some c ∧ h = holder n c := by
  induction ids generalizing p with
  | nil => exact ⟨p, rfl, by simp⟩
  | cons i ids ih =>
    obtain ⟨⟨c, found, same⟩, known⟩ := List.forall_mem_cons.1 known
    have insert : ∀ id h, (p.insertNew i (holder n c)).find? id = some h ↔
        p.find? id = some h ∨ id = i ∧ h = holder n c := by
      intro id h
      rw [SortedMap.find?_insertNew]
      by_cases own : id = i
      · subst own
        cases old : p.find? id with
        | none => simp [eq_comm]
        | some h' => simp [same h' old, eq_comm]
      · simp [own]
    obtain ⟨p', run, finds⟩ := ih (p.insertNew i (holder n c)) (by
      simp only [insert]
      grind)
    refine ⟨p', by rw [List.foldlM_cons, addPriority, found]; exact run, ?_⟩
    simp only [finds, insert]
    grind

/-- The children of the roots, without those of a root that comes again. -/
def cameTo : SortedMap Nat (List Nat) → List Nat → List Nat
  | _, [] => []
  | childs, root :: roots => kids childs root ++ cameTo (childs.erase root) roots

theorem kids_erase {childs : SortedMap Nat (List Nat)} {root : Nat} :
    kids (childs.erase root) k = if k = root then [] else kids childs k := by
  simp only [kids, SortedMap.find?_erase]
  split <;> rfl

theorem mem_cameTo {childs : SortedMap Nat (List Nat)} {roots : List Nat} :
    id ∈ cameTo childs roots ↔ ∃ r ∈ roots, id ∈ kids childs r := by
  induction roots generalizing childs with
  | nil => simp [cameTo]
  | cons root roots ih =>
    simp only [cameTo, List.mem_append, ih, kids_erase]
    grind

theorem foldlM_visitRoot {roots newRoots : List Nat} :
    roots.foldlM (m.visitRoot n) (s, newRoots) = (do
      let priorities ← (cameTo s.childs roots).foldlM (m.addPriority n) s.priorities
      return (⟨roots.foldl .erase s.childs, priorities⟩, newRoots ++ cameTo s.childs roots)) := by
  induction roots generalizing s newRoots with
  | nil => simp [cameTo]
  | cons root roots ih =>
    have visit : m.visitRoot n (s, newRoots) root = (do
        let priorities ← (kids s.childs root).foldlM (m.addPriority n) s.priorities
        return (⟨s.childs.erase root, priorities⟩, newRoots ++ kids s.childs root)) := by
      cases found : s.childs.find? root <;> simp [visitRoot, kids, found]
    simp [List.foldlM_cons, visit, ih, cameTo, List.foldlM_append]

theorem find?_foldl_erase {childs : SortedMap Nat (List Nat)} {roots : List Nat} :
    (roots.foldl .erase childs).find? k = if k ∈ roots then none else childs.find? k := by
  induction roots generalizing childs with
  | nil => simp
  | cons root roots ih =>
    rw [List.foldl_cons, ih, SortedMap.find?_erase]
    grind

/-- The state before the level `n`, with the keys that are gone through there. -/
structure Reached (m : PlatformChannels) (n : Nat) (roots : List Nat) (s : Filling) : Prop where
  roots : ∀ k, k ∈ roots ↔ m.At n k
  gone : ∀ j k, j < n → m.At j k → s.childs.find? k = none
  left : ∀ k, (∀ j < n, ¬ m.At j k) → s.childs.find? k = m.channelChilds.find? k
  priorities : ∀ id h, s.priorities.find? id = some h ↔ ∃ j < n, m.Holds j id h

theorem Reached.came {roots : List Nat} (reached : m.Reached n roots s) :
    (∃ r ∈ roots, id ∈ kids s.childs r) ↔ m.HasLevel n id := by
  constructor
  · rintro ⟨r, mem, memId⟩
    have fresh : ∀ j < n, ¬ m.At j r := by
      intro j lt before
      simp [kids, reached.gone j r lt before] at memId
    rw [kids, reached.left r fresh] at memId
    obtain ⟨c, found, key⟩ := mem_kids.1 memId
    cases n with
    | zero => exact .root ⟨c, found, key.trans ((reached.roots r).1 mem)⟩
    | succ n =>
      exact .under (parent_eq.2 ⟨fresh 0 n.succ_pos, c, found, key⟩) ((reached.roots r).1 mem)
  · intro level
    cases level with
    | root top =>
      obtain ⟨c, found, key⟩ := top
      refine ⟨0, (reached.roots 0).2 rfl, ?_⟩
      rw [kids, reached.left 0 (by simp)]
      exact mem_kids.2 ⟨c, found, key⟩
    | @under n _ p up higher =>
      obtain ⟨some, c, found, key⟩ := parent_eq.1 up
      refine ⟨p, (reached.roots p).2 higher, ?_⟩
      rw [kids, reached.left p]
      · exact mem_kids.2 ⟨c, found, key⟩
      · rintro (_ | j) lt before
        · exact some before
        · have := Level.unique parent_of_isRoot before higher
          omega

theorem Reached.step {roots : List Nat} (reached : m.Reached n roots s) :
    ∃ s' new, roots.foldlM (m.visitRoot n) (s, []) = .ok (s', new) ∧
      m.Reached (n + 1) new s' := by
  have came : ∀ id, id ∈ cameTo s.childs roots ↔ m.HasLevel n id := fun id =>
    mem_cameTo.trans reached.came
  obtain ⟨p, run, finds⟩ := foldlM_addPriority (m := m) (n := n) (cameTo s.childs roots)
    s.priorities (by
      intro id mem
      obtain ⟨c, found⟩ := find_of_level ((came id).1 mem)
      refine ⟨c, found, fun h holds => ?_⟩
      obtain ⟨j, lt, _, _, before, _⟩ := (reached.priorities id h).1 holds
      have := before.unique parent_of_isRoot ((came id).1 mem)
      omega)
  refine ⟨_, _, by rw [foldlM_visitRoot, run]; rfl, came, ?_, ?_, ?_⟩
  · intro j k lt before
    rcases Nat.lt_succ_iff_lt_or_eq.1 lt with lt | rfl
    · simp [find?_foldl_erase, reached.gone j k lt before]
    · simp [find?_foldl_erase, reached.roots, before]
  · intro k fresh
    rw [find?_foldl_erase, if_neg (mt (reached.roots k).1 (fresh n n.lt_succ_self))]
    exact reached.left k fun j lt => fresh j (lt.trans n.lt_succ_self)
  · intro id h
    simp only [finds, reached.priorities, came, Nat.lt_succ_iff_lt_or_eq, or_and_right,
      exists_or, exists_eq_left, Holds]
    grind

/-- With a bound on the levels there is an end to the loop. -/
theorem fillLevels_eq {bound spare : Nat} {roots : List Nat}
    (bounded : ∀ k j, m.At j k → j < bound) (reached : m.Reached n roots s)
    (enough : bound ≤ n + spare) :
    ∃ last s', m.Reached last [] s' ∧
      ∀ fuel, spare ≤ fuel → m.fillLevels fuel n roots s = some (.ok s') := by
  induction spare generalizing n roots s with
  | zero =>
    cases roots with
    | nil => exact ⟨n, s, reached, fun fuel _ => by cases fuel <;> rfl⟩
    | cons k _ =>
      have := bounded k n ((reached.roots k).1 List.mem_cons_self)
      omega
  | succ spare ih =>
    cases roots with
    | nil => exact ⟨n, s, reached, fun fuel _ => by cases fuel <;> rfl⟩
    | cons k rest =>
      obtain ⟨s₁, new, run, reached₁⟩ := reached.step
      obtain ⟨last, s', reached', ends⟩ := ih reached₁ (by omega)
      refine ⟨last, s', reached', ?_⟩
      intro fuel more
      cases fuel with
      | zero => omega
      | succ fuel =>
        simp only [fillLevels, run]
        exact ends fuel (by omega)

theorem Reached.at_lt (reached : m.Reached n [] s) {j : Nat} (key : m.At j k) : j < n := by
  by_contra ge
  have none : ∀ k, ¬ m.At n k := by
    intro k here
    cases (reached.roots k).2 here
  cases n with
  | zero => exact none 0 rfl
  | succ n =>
    cases j with
    | zero => omega
    | succ j =>
      obtain ⟨k, here⟩ := Level.exists_of_le key (show n ≤ j by omega)
      exact none k here

theorem Reached.isEmpty_iff (reached : m.Reached n [] s) :
    s.childs.isEmpty = true ↔ ∀ id c, m.find id = some c → ∃ j, m.HasLevel j id := by
  rw [SortedMap.isEmpty_iff]
  constructor
  · intro empty id c found
    by_contra unrooted
    have mem : id ∈ kids s.childs (m.keyOf c) := by
      rw [kids, reached.left _ fun j _ here => unrooted ((exists_at_iff found).1 ⟨j, here⟩)]
      exact mem_kids.2 ⟨c, found, rfl⟩
    simp [kids, empty] at mem
  · intro rooted k
    by_cases before : ∃ j < n, m.At j k
    · obtain ⟨j, lt, before⟩ := before
      exact reached.gone j k lt before
    · rw [reached.left k fun j lt here => before ⟨j, lt, here⟩]
      apply find?_eq_none
      intro id mem
      obtain ⟨c, found, rfl⟩ := mem_kids.1 mem
      obtain ⟨j, here⟩ := (exists_at_iff found).2 (rooted id c found)
      exact before ⟨j, reached.at_lt here, here⟩

/-- Where the choice is, after the channels of a list in order. -/
def Chosen (priorities : PlatformChannelPriorityMap) (ids : List Nat) (cur : Nat × Nat) : Prop :=
  cur.2 = 0 ∧ (∀ id ∈ ids, id ≠ 0 → priorities.find? id = none) ∨
    cur.2 ≠ 0 ∧ cur.2 ∈ ids ∧ (∃ h, priorities.find? cur.2 = some h ∧ h.priority = cur.1) ∧
      ∀ id ∈ ids, id ≠ 0 → ∀ h, priorities.find? id = some h →
        h.priority < cur.1 ∨ h.priority = cur.1 ∧ cur.2 ≤ id

theorem Chosen.choose {priorities : PlatformChannelPriorityMap} {done : List Nat}
    {cur : Nat × Nat} (before : ∀ d ∈ done, d < id) (chosen : Chosen priorities done cur) :
    Chosen priorities (done ++ [id]) (choose priorities cur id) := by
  simp only [Chosen, List.mem_append, List.mem_singleton] at *
  cases found : priorities.find? id with
  | none =>
    simp only [PlatformChannels.choose, found]
    grind
  | some h =>
    simp only [PlatformChannels.choose, found]
    split
    · by_cases zero : id = 0
      · grind
      · refine .inr ⟨zero, .inr rfl, ⟨h, found, rfl⟩, ?_⟩
        grind
    · grind

theorem chosen_foldl {priorities : PlatformChannelPriorityMap} {ids done : List Nat}
    {cur : Nat × Nat} (sorted : (done ++ ids).Pairwise (· < ·))
    (chosen : Chosen priorities done cur) :
    Chosen priorities (done ++ ids) (ids.foldl (choose priorities) cur) := by
  induction ids generalizing done cur with
  | nil => simpa using chosen
  | cons id ids ih =>
    have before : ∀ d ∈ done, d < id := fun d mem =>
      (List.pairwise_append.1 sorted).2.2 d mem id List.mem_cons_self
    rw [List.append_cons] at sorted ⊢
    exact ih sorted (chosen.choose before)

/-- The last assertion holds if and only if every channel is under a root. Then the priority
of a channel is its level, and a request is given the deepest of its channels, the first of
them where there are several. -/
theorem fillPlatformChannelPriorities_deepest (m : PlatformChannels) :
    ∃ enough result,
      (∀ fuel, enough ≤ fuel → m.fillPlatformChannelPriorities fuel = some result) ∧
      ((∃ id c, m.find id = some c ∧ ¬ ∃ n, m.HasLevel n id) → result = .error .assertFailed) ∧
      ((∀ id c, m.find id = some c → ∃ n, m.HasLevel n id) → ∃ priorities,
        result = .ok priorities ∧
        (∀ id h, priorities.find? id = some h ↔ ∃ n, m.Holds n id h) ∧
        ∀ matched : Finset Nat,
          let last := lastPlatformChannelId priorities matched
          last = 0 ∧ (∀ id ∈ matched, id ≠ 0 → m.find id = none) ∨
            last ≠ 0 ∧ last ∈ matched ∧ ∃ n, m.HasLevel n last ∧
              ∀ id ∈ matched, id ≠ 0 → ∀ j, m.HasLevel j id → j < n ∨ j = n ∧ last ≤ id) := by
  obtain ⟨bound, lt⟩ : ∃ bound, ∀ k ∈ m.channels.map (·.channelId), ∀ n,
      m.HasLevel n k → n < bound := exists_level_lt parent_of_isRoot _
  have bounded : ∀ k j, m.At j k → j < bound + 1 := by
    intro k j key
    cases j with
    | zero => omega
    | succ j =>
      obtain ⟨c, found⟩ := find_of_level key
      obtain ⟨mem, rfl⟩ := find_eq.1 found
      have := lt _ (List.mem_map_of_mem mem) j key
      omega
  have start : m.Reached 0 [0] ⟨m.channelChilds, .empty⟩ :=
    ⟨by simp [At], by simp, by simp, by simp⟩
  obtain ⟨last, s, reached, ends⟩ := fillLevels_eq bounded start (Nat.zero_add _).ge
  have fills : ∀ fuel, bound + 1 ≤ fuel → m.fillPlatformChannelPriorities fuel =
      some (do check s.childs.isEmpty; return s.priorities) := by
    intro fuel more
    rw [fillPlatformChannelPriorities, ends fuel more]
    rfl
  refine ⟨bound + 1, _, fills, ?_, ?_⟩
  · rintro ⟨id, c, found, unrooted⟩
    rw [check, if_neg fun empty => unrooted (reached.isEmpty_iff.1 empty id c found)]
    rfl
  · intro rooted
    have holds : ∀ id h, s.priorities.find? id = some h ↔ ∃ n, m.Holds n id h := by
      intro id h
      rw [reached.priorities]
      constructor
      · rintro ⟨n, _, holds⟩
        exact ⟨n, holds⟩
      · rintro ⟨n, c, found, level, same⟩
        have here : m.At (n + 1) id := level
        have := reached.at_lt here
        exact ⟨n, by omega, c, found, level, same⟩
    refine ⟨s.priorities, ?_, holds, ?_⟩
    · rw [check, if_pos (reached.isEmpty_iff.2 rooted)]
      rfl
    · intro matched
      have chosen : Chosen s.priorities ([] ++ matched.sort (· ≤ ·))
          ((matched.sort (· ≤ ·)).foldl (choose s.priorities) (0, 0)) :=
        chosen_foldl (by simpa using matched.sortedLT_sort.pairwise) (.inl ⟨rfl, by simp⟩)
      simp only [Chosen, List.nil_append, Finset.mem_sort] at chosen
      have recorded : ∀ id j c, m.find id = some c → m.HasLevel j id →
          s.priorities.find? id = some (holder j c) := fun id j c found level =>
        (holds id _).2 ⟨j, c, found, level, rfl⟩
      rcases chosen with ⟨zero, nothing⟩ | ⟨some, mem, ⟨h, found, priority⟩, best⟩
      · refine .inl ⟨zero, ?_⟩
        intro id mem some
        cases found : m.find id with
        | none => rfl
        | some c =>
          obtain ⟨j, level⟩ := rooted id c found
          simpa [recorded id j c found level] using nothing id mem some
      · obtain ⟨n, c, _, level, rfl⟩ := (holds _ _).1 found
        rw [← priority] at best
        refine .inr ⟨some, mem, n, level, ?_⟩
        intro id mem some j below
        obtain ⟨d, found⟩ := find_of_level below
        exact best id mem some _ (recorded id j d found below)

end PlatformChannels

end AdServer.CampaignManager
