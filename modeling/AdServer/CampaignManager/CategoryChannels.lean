import AdServer.CampaignManager.Candidates
import AdServer.Lib.ParentChains
import Mathlib.Data.List.Sort

/-!
# The tree of category channels

A category names its parent by its id, and a load of the config may bring any set of
categories. Those under no root are taken out before the tree is linked.
-/

namespace AdServer.CampaignManager

open AdServer.Lib

/-- `CategoryChannel`, less what only the listing of the tree reads. -/
structure CategoryChannel where
  channelId : Nat
  name : String
  parentChannelId : Nat
  deriving DecidableEq

/-- `CategoryChannelMap` in the order in which it is gone through. -/
structure CategoryChannelMap where
  channels : List CategoryChannel
  distinct : (channels.map (·.channelId)).Nodup

def CategoryChannel.IsRoot (c : CategoryChannel) : Prop := c.parentChannelId = 0

/-- How the way up from a category ends. -/
inductive ChainEnd
  | root
  | missing
  | recursion
  deriving DecidableEq

namespace CategoryChannelMap

variable {m left : CategoryChannelMap} {c d p : CategoryChannel} {id : Nat}

def find (m : CategoryChannelMap) (id : Nat) : Option CategoryChannel :=
  m.channels.find? fun c => c.channelId == id

def erase (m : CategoryChannelMap) (id : Nat) : CategoryChannelMap where
  channels := m.channels.filter fun c => c.channelId != id
  distinct := m.distinct.sublist (List.filter_sublist.map _)

/-- The inner loop of `check_category_channels_`, with none where the fuel is gone. -/
def followParents (m : CategoryChannelMap) :
    Nat → List Nat → CategoryChannel → Option ChainEnd
  | 0, _, _ => none
  | fuel + 1, used, cur =>
    if cur.channelId ∈ used then some .recursion
    else if cur.parentChannelId = 0 then some .root
    else match m.find cur.parentChannelId with
      | some up => m.followParents fuel (cur.channelId :: used) up
      | none => some .missing

/-- `erase_channel`. -/
def eraseChannel (m : CategoryChannelMap) (c : CategoryChannel) : Option Bool :=
  if c.parentChannelId = 0 then some false
  else match m.find c.parentChannelId with
    | none => some true
    | some up =>
      (m.followParents m.channels.length [c.channelId] up).map (· != .root)

/-- The loop of `check_category_channels_` over what it has still to come to. -/
def checkFrom : List CategoryChannel → CategoryChannelMap → Option CategoryChannelMap
  | [], m => some m
  | c :: rest, m => do
    let eraseChannel ← m.eraseChannel c
    checkFrom rest (if eraseChannel then m.erase c.channelId else m)

def checkCategoryChannels (m : CategoryChannelMap) : Option CategoryChannelMap :=
  checkFrom m.channels m

/-- The category a category is put under. -/
def parent (m : CategoryChannelMap) (c : CategoryChannel) : Option CategoryChannel :=
  if c.parentChannelId = 0 then none else m.find c.parentChannelId

abbrev HasRoot (m : CategoryChannelMap) : CategoryChannel → Prop :=
  Rooted CategoryChannel.IsRoot m.parent

theorem eq_of_channelId (memC : c ∈ m.channels) (memD : d ∈ m.channels)
    (same : c.channelId = d.channelId) : c = d :=
  List.inj_on_of_nodup_map m.distinct memC memD same

theorem find_eq : m.find id = some c ↔ c ∈ m.channels ∧ c.channelId = id :=
  find?_key m.distinct

theorem parent_eq : m.parent c = some p ↔
    c.parentChannelId ≠ 0 ∧ p ∈ m.channels ∧ p.channelId = c.parentChannelId := by
  unfold parent
  split <;> simp_all [find_eq]

theorem parent_of_isRoot : ∀ c : CategoryChannel, c.IsRoot → m.parent c = none := by
  intro c isRoot
  exact if_pos isRoot

theorem not_hasRoot (notRoot : c.parentChannelId ≠ 0)
    (missing : m.find c.parentChannelId = none) : ¬ m.HasRoot c := by
  rintro ⟨n, level⟩
  cases level with
  | root isRoot => exact notRoot isRoot
  | under up _ => simp [parent, missing] at up

/-- `seen` are the categories whose ids are in `used_channels`. -/
theorem followParents_eq (fuel : Nat) (seen : List CategoryChannel) (mem : c ∈ m.channels)
    (known : seen ⊆ m.channels) (nodup : seen.Nodup)
    (enough : m.channels.length < fuel + seen.length)
    (lead : ∀ u ∈ seen, ∃ i, climb m.parent (i + 1) u = some c) :
    ∃ chainEnd, m.followParents fuel (seen.map (·.channelId)) c = some chainEnd ∧
      (chainEnd = .root ↔ m.HasRoot c) := by
  induction fuel generalizing seen c with
  | zero =>
    have := (List.subperm_of_subset nodup known).length_le
    omega
  | succ fuel ih =>
    simp only [followParents]
    split
    · rename_i used
      refine ⟨_, rfl, by simp, ?_⟩
      rintro ⟨n, level⟩
      obtain ⟨u, memU, same⟩ := List.mem_map.1 used
      obtain ⟨i, back⟩ := lead u memU
      rw [eq_of_channelId (known memU) mem same] at back
      exact absurd back (level.acyclic parent_of_isRoot)
    · rename_i unused
      split
      · rename_i isRoot
        exact ⟨_, rfl, by simpa using ⟨0, .root isRoot⟩⟩
      · rename_i notRoot
        cases found : m.find c.parentChannelId with
        | none => exact ⟨_, rfl, by simpa using not_hasRoot notRoot found⟩
        | some p =>
          have up : m.parent c = some p := by simp [parent, notRoot, found]
          obtain ⟨chainEnd, ends, root_iff⟩ := ih (c := p) (c :: seen)
            (find_eq.1 found).1 (List.cons_subset.2 ⟨mem, known⟩)
            (List.nodup_cons.2 ⟨fun again => unused (List.mem_map_of_mem again), nodup⟩)
            (by simp; omega) (by
              intro u memU
              rcases List.mem_cons.1 memU with rfl | memU
              · exact ⟨0, by simp [climb, up]⟩
              · obtain ⟨i, climbed⟩ := lead u memU
                exact ⟨i + 1, (climb_last climbed).trans up⟩)
          exact ⟨chainEnd, ends, root_iff.trans (rooted_iff parent_of_isRoot up).symm⟩

theorem eraseChannel_eq (mem : c ∈ m.channels) : ∃ gone, m.eraseChannel c = some gone ∧
    (gone = true ↔ ¬ m.HasRoot c) := by
  have follow : m.eraseChannel c =
      (m.followParents (m.channels.length + 1) [] c).map (· != .root) := by
    rw [eraseChannel, followParents, if_neg List.not_mem_nil]
    split
    · rfl
    · cases m.find c.parentChannelId <;> rfl
  obtain ⟨chainEnd, ends, root_iff⟩ := followParents_eq (m.channels.length + 1) [] mem
    (by simp) (by simp) (by simp) (by simp)
  rw [List.map_nil] at ends
  refine ⟨chainEnd != .root, by simp [follow, ends], ?_⟩
  rw [bne_iff_ne, ne_eq, root_iff]

/-- Taking out categories leaves the chains that they are not on. -/
theorem rooted_iff_of_left (sub : left.channels ⊆ m.channels)
    (kept : ∀ c ∈ m.channels, m.HasRoot c → c ∈ left.channels) :
    left.HasRoot c ↔ m.HasRoot c := by
  constructor
  · rintro ⟨n, level⟩
    refine ⟨n, level.transfer ?_ fun _ => id⟩
    intro d p up _
    rw [parent_eq] at up ⊢
    exact ⟨up.1, sub up.2.1, up.2.2⟩
  · rintro ⟨n, level⟩
    refine ⟨n, level.transfer ?_ fun _ => id⟩
    intro d p up rooted
    rw [parent_eq] at up ⊢
    exact ⟨up.1, kept p up.2.1 rooted, up.2.2⟩

theorem checkFrom_eq {rest : List CategoryChannel} (known : rest ⊆ left.channels)
    (nodup : rest.Nodup) (sub : left.channels.Sublist m.channels)
    (kept : ∀ c ∈ m.channels, m.HasRoot c → c ∈ left.channels)
    (ahead : ∀ c ∈ left.channels, c ∈ rest ∨ m.HasRoot c) :
    ∃ checked, checkFrom rest left = some checked ∧ checked.channels.Sublist m.channels ∧
      ∀ c ∈ m.channels, c ∈ checked.channels ↔ m.HasRoot c := by
  induction rest generalizing left with
  | nil =>
    refine ⟨left, rfl, sub, fun c mem => ⟨fun memLeft => ?_, kept c mem⟩⟩
    simpa using ahead c memLeft
  | cons c rest ih =>
    obtain ⟨memC, known⟩ := List.cons_subset.1 known
    obtain ⟨notMem, nodup⟩ := List.nodup_cons.1 nodup
    obtain ⟨gone, erases, gone_iff⟩ := eraseChannel_eq memC
    rw [rooted_iff_of_left sub.subset kept] at gone_iff
    simp only [checkFrom, erases, Option.bind_eq_bind, Option.bind_some]
    cases gone with
    | false =>
      apply ih known nodup sub kept
      intro d memD
      rcases ahead d memD with mem | rooted
      · rcases List.mem_cons.1 mem with rfl | mem
        · exact .inr (by simpa using gone_iff)
        · exact .inl mem
      · exact .inr rooted
    | true =>
      have mem_erase : ∀ d ∈ left.channels, d ∈ (left.erase c.channelId).channels ↔ d ≠ c := by
        intro d memD
        simp only [erase, List.mem_filter, memD, true_and, bne_iff_ne, ne_eq]
        exact not_congr ⟨eq_of_channelId memD memC, congrArg _⟩
      rw [if_pos rfl]
      apply ih
      · intro d memD
        rw [mem_erase d (known memD)]
        exact fun same => notMem (same ▸ memD)
      · exact nodup
      · exact List.filter_sublist.trans sub
      · intro d memD rooted
        rw [mem_erase d (kept d memD rooted)]
        rintro rfl
        exact gone_iff.1 rfl rooted
      · intro d memD
        have memLeft := List.mem_of_mem_filter memD
        rcases ahead d memLeft with mem | rooted
        · exact .inl ((List.mem_cons.1 mem).resolve_left ((mem_erase d memLeft).1 memD))
        · exact .inr rooted

end CategoryChannelMap

/-- The category channel nodes by the ids of their categories. -/
structure CategoryChannelNodes where
  roots : List CategoryChannel
  children : Nat → List CategoryChannel

/-- `emplace` of a multimap by name. -/
def emplaceNode (c : CategoryChannel) (nodes : List CategoryChannel) : List CategoryChannel :=
  nodes.orderedInsert (fun a b => a.name < b.name) c

namespace CategoryChannelMap

variable {m : CategoryChannelMap} {c d : CategoryChannel} {nodes : CategoryChannelNodes}

/-- Putting a node where its category belongs, as `link_config_update_` does. -/
def linkNode (m : CategoryChannelMap) (nodes : CategoryChannelNodes) (c : CategoryChannel) :
    Except Fault CategoryChannelNodes := do
  check (m.find c.channelId).isSome
  if c.parentChannelId = 0 then
    return { nodes with roots := emplaceNode c nodes.roots }
  let parent ← deref (m.find c.parentChannelId)
  return { nodes with
    children := Function.update nodes.children parent.channelId
      (emplaceNode c (nodes.children parent.channelId)) }

def linkNodes (m : CategoryChannelMap) : Except Fault CategoryChannelNodes :=
  m.channels.foldlM m.linkNode ⟨[], fun _ => []⟩

/-- The nodes of these categories are where they belong, and no others are. -/
structure Linked (m : CategoryChannelMap) (done : List CategoryChannel)
    (nodes : CategoryChannelNodes) : Prop where
  roots : nodes.roots.Perm (done.filter fun c => c.parentChannelId = 0)
  children : ∀ p ∈ m.channels,
    (nodes.children p.channelId).Perm (done.filter fun c => m.parent c = some p)

theorem Linked.linkNode {done : List CategoryChannel} (linked : m.Linked done nodes)
    (mem : c ∈ m.channels) (rooted : m.HasRoot c) :
    ∃ nodes', m.linkNode nodes c = .ok nodes' ∧ m.Linked (done ++ [c]) nodes' := by
  have found : m.find c.channelId = some c := find_eq.2 ⟨mem, rfl⟩
  have emplace : ∀ {old kept : List CategoryChannel}, old.Perm kept →
      (emplaceNode c old).Perm (kept ++ [c]) := by
    intro old kept perm
    exact (List.perm_orderedInsert _ _ _).trans
      ((perm.cons c).trans (List.perm_append_singleton c kept).symm)
  by_cases isRoot : c.parentChannelId = 0
  · refine ⟨_, by simp [CategoryChannelMap.linkNode, found, isRoot]; rfl, ?_, ?_⟩
    · simpa [List.filter_append, isRoot] using emplace linked.roots
    · intro p memP
      simpa [List.filter_append, parent, isRoot] using linked.children p memP
  · cases up : m.find c.parentChannelId with
    | none => exact absurd rooted (not_hasRoot isRoot up)
    | some above =>
      have up' : m.parent c = some above := by simp [parent, isRoot, up]
      refine ⟨_, by simp [CategoryChannelMap.linkNode, found, isRoot, up]; rfl, ?_, ?_⟩
      · simpa [List.filter_append, isRoot] using linked.roots
      · intro p memP
        by_cases same : above = p
        · subst same
          simpa [List.filter_append, up'] using emplace (linked.children above memP)
        · have other : p.channelId ≠ above.channelId := fun ids =>
            same (eq_of_channelId (find_eq.1 up).1 memP ids.symm)
          simpa [List.filter_append, up', same, other] using linked.children p memP

theorem linkNodes_eq (rooted : ∀ c ∈ m.channels, m.HasRoot c) :
    ∃ nodes, m.linkNodes = .ok nodes ∧ m.Linked m.channels nodes := by
  have all : ∀ rest done nodes, rest ⊆ m.channels → m.Linked done nodes →
      ∃ nodes', rest.foldlM m.linkNode nodes = .ok nodes' ∧ m.Linked (done ++ rest) nodes' := by
    intro rest
    induction rest with
    | nil =>
      intro done nodes _ linked
      exact ⟨nodes, rfl, by simpa using linked⟩
    | cons c rest ih =>
      intro done nodes sub linked
      obtain ⟨mem, sub⟩ := List.cons_subset.1 sub
      obtain ⟨next, links, linked⟩ := linked.linkNode mem (rooted c mem)
      obtain ⟨last, ends, linked⟩ := ih _ _ sub linked
      exact ⟨last, by rw [List.foldlM_cons, links]; exact ends, by simpa using linked⟩
  exact all m.channels [] _ (List.Subset.refl _) ⟨by simp, by simp⟩

/-- In whatever order the map is gone through, the check ends and takes out what is under no
root, and then each category finds the node it is put under. -/
theorem checkCategoryChannels_rooted (m : CategoryChannelMap) :
    ∃ checked, m.checkCategoryChannels = some checked ∧
      checked.channels.Sublist m.channels ∧
      (∀ c ∈ m.channels, c ∈ checked.channels ↔ m.HasRoot c) ∧
      ∃ nodes, checked.linkNodes = .ok nodes ∧ checked.Linked checked.channels nodes := by
  obtain ⟨checked, checks, sub, kept⟩ := checkFrom_eq (List.Subset.refl _)
    (List.Nodup.of_map _ m.distinct) (.refl _) (fun c mem _ => mem) fun c mem => .inl mem
  refine ⟨checked, checks, sub, kept, linkNodes_eq ?_⟩
  intro c mem
  rw [rooted_iff_of_left sub.subset fun d memD rooted => (kept d memD).2 rooted]
  exact (kept c (sub.subset mem)).1 mem

end CategoryChannelMap

end AdServer.CampaignManager
