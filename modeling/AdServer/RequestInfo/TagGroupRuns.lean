import AdServer.Lib.KeyOrder
import AdServer.RequestInfo.TagGroups

/-!
# The groups over a run

What is delegated and not rolled back are the groups of the profile and groups
that have left it. A late request breaks this: it lowers the time of the group in
the profile but not of the delegated version. The limit of the groups is an
unsigned difference and never erases one.
-/

namespace AdServer.RequestInfo.TagGroups

open Lib (uint uint_of_lt uint_natCast)

/-- The delegated versions that are not rolled back, or nothing where a version is
rolled back that is not among them. -/
def settle : List TagRequestGroupInfo → List TagRequestGroupInfo →
    Option (List TagRequestGroupInfo)
  | live, [] => some live
  | live, info :: infos =>
    if info.rollback then
      if { info with rollback := false } ∈ live then
        settle (live.erase { info with rollback := false }) infos
      else none
    else settle (info :: live) infos

/-- The groups in the profile, all that has been delegated, and the requests. -/
structure World where
  groups : List TagGroup
  delegated : List TagRequestGroupInfo
  requests : List TagRequestInfo

def World.new : World := ⟨[], [], []⟩

def World.step (bound : Int) (world : World) (info : TagRequestInfo) : World where
  groups := (processTagRequest bound world.groups info).1
  delegated := world.delegated ++ (processTagRequest bound world.groups info).2
  requests := world.requests ++ [info]

/-- The tags of the requests, those without a tag apart. -/
def World.tags (world : World) : Multiset Nat :=
  ((world.requests.filter (·.tagId ≠ 0)).map (·.tagId) : List Nat)

structure Telescopes (world : World) : Prop where
  sorted : world.groups.Pairwise fun a b => a.maxTime ≤ b.maxTime
  size : world.groups.length ≤ keepMaxGroups
  /-- Each rollback is of a live version, and the live ones have each tag once. -/
  settled : ∃ live, settle [] world.delegated = some live ∧
    (live.map (·.tags)).sum = world.tags

/-- Every state of the run telescopes. -/
def World.StaysTelescoped (bound : Int) (world : World) : List TagRequestInfo → Prop
  | [] => Telescopes world
  | info :: infos => Telescopes world ∧ (world.step bound info).StaysTelescoped bound infos

/-- The request fits into the numbers of the profile. -/
def TagRequestInfo.Stored (info : TagRequestInfo) : Prop :=
  0 ≤ info.time ∧ info.time < 2 ^ 32 ∧ info.coloId < 2 ^ 32 ∧ info.tagId < 2 ^ 32 ∧
  info.siteId < 2 ^ 32

/-- A request is in order if it is no earlier than the group that it joins, unless
it fills that group, and if a group of its own is not one too many. -/
def Orderly (bound : Int) (groups : List TagGroup) (info : TagRequestInfo) : Prop :=
  info.Stored ∧
  match targetGroup bound groups info with
  | some (_, group, _) =>
    group.minTime ≤ info.time ∨ maxTagsInGroup ≤ group.tags.length + 1
  | none => (groups.filter (info.time - keepGroupTime ≤ ·.maxTime)).length < keepMaxGroups

/-- Each request of the run with a tag and a page is in order when it comes. -/
def World.OrderlyRun (bound : Int) (world : World) : List TagRequestInfo → Prop
  | [] => True
  | info :: infos =>
    (info.tagId ≠ 0 → ¬ (info.refererHash = none ∧ info.pageLoadId = none) →
      Orderly bound world.groups info) ∧
    (world.step bound info).OrderlyRun bound infos

def live (group : TagGroup) : TagRequestGroupInfo := initTagGroupInfo group false

/-- What is live are the versions of the groups in the profile and of others. -/
structure Kept (groups : List TagGroup) (delegated : List TagRequestGroupInfo)
    (tags : Multiset Nat) : Prop where
  sorted : groups.Pairwise fun a b => (a.maxTime : Int) ≤ b.maxTime
  settled : ∃ closed infos, settle [] delegated = some infos ∧
    infos.Perm (groups.map live ++ closed) ∧ (infos.map (·.tags)).sum = tags

variable {world : World} {group : TagGroup} {bound : Int}

theorem Kept.telescopes (h : Kept world.groups world.delegated world.tags)
    (size : world.groups.length ≤ keepMaxGroups) : Telescopes world := by
  obtain ⟨closed, infos, settled, -, tags⟩ := h.settled
  refine ⟨h.sorted.imp ?_, size, infos, settled, tags⟩
  intro a b hab
  omega

theorem settle_append (infos delegated next : List TagRequestGroupInfo) :
    settle infos (delegated ++ next) = (settle infos delegated).bind (settle · next) := by
  induction delegated generalizing infos with
  | nil => rfl
  | cons info delegated ih =>
    simp only [List.cons_append, settle]
    split
    · split
      · exact ih _
      · rfl
    · exact ih _

theorem sum_tags_perm {infos others : List TagRequestGroupInfo} (h : infos.Perm others) :
    (infos.map (·.tags)).sum = (others.map (·.tags)).sum :=
  (h.map _).sum_eq

theorem searchBack_eq {stops found : TagGroup → Bool} {rev after earlier later : List TagGroup}
    (h : searchBack stops found rev after = some (earlier, group, later)) :
    rev.reverse ++ after = earlier ++ group :: later ∧ found group := by
  induction rev generalizing after with
  | nil => simp [searchBack] at h
  | cons g rev ih =>
    unfold searchBack at h
    split at h
    · simp at h
    · split at h
      · rename_i hfound
        cases h
        exact ⟨by simp, hfound⟩
      · obtain ⟨eq, hfound⟩ := ih h
        exact ⟨by simpa using eq, hfound⟩

theorem targetGroup_eq {groups earlier later : List TagGroup} {info : TagRequestInfo}
    (h : targetGroup bound groups info = some (earlier, group, later)) :
    groups = earlier ++ group :: later ∧ sameTraits group info := by
  unfold targetGroup at h
  dsimp only at h
  split at h
  · obtain ⟨eq, found⟩ := searchBack_eq h
    simp only [pageMatches, Bool.and_eq_true] at found
    exact ⟨by simpa using eq, found.2⟩
  · obtain ⟨eq, found⟩ := searchBack_eq h
    simp only [refererMatches, Bool.and_eq_true] at found
    exact ⟨by simpa using eq, found.2⟩

section Steps

open Lib.KeyOrder

variable {bound : Int} {groups : List TagGroup} {delegated : List TagRequestGroupInfo}
  {tags : Multiset Nat} {info : TagRequestInfo}

theorem eraseGroups_eq (keepTime : Int) {countToErase : Int} (h : countToErase ≤ 0) :
    eraseGroups keepTime countToErase groups =
      groups.dropWhile fun group => decide ((group.maxTime : Int) < keepTime) := by
  induction groups generalizing countToErase with
  | nil => rfl
  | cons group groups ih =>
    unfold eraseGroups
    by_cases old : (group.maxTime : Int) < keepTime
    · rw [if_pos (.inl old), List.dropWhile_cons_of_pos (by simpa using old)]
      exact ih (by omega)
    · rw [if_neg (by omega), List.dropWhile_cons_of_neg (by simpa using old)]

/-- The count of what is one too many is never positive: only the time erases. -/
theorem clearExcess_eq (groups : List TagGroup) (keepTime : Int) :
    clearExcessTagRequestGroups groups keepTime =
      groups.dropWhile fun group => decide ((group.maxTime : Int) < keepTime) := by
  apply eraseGroups_eq
  split <;> omega

theorem Kept.clear (h : Kept groups delegated tags) (keepTime : Int) :
    Kept (clearExcessTagRequestGroups groups keepTime) delegated tags := by
  rw [clearExcess_eq]
  refine ⟨h.sorted.sublist (List.dropWhile_sublist _), ?_⟩
  obtain ⟨closed, infos, settled, perm, sum⟩ := h.settled
  refine ⟨(groups.takeWhile fun group => decide ((group.maxTime : Int) < keepTime)).map live ++
    closed, infos, settled, ?_, sum⟩
  apply perm.trans
  rw [← List.append_assoc, ← List.map_append]
  apply List.Perm.append_right
  apply List.Perm.map
  have split := @List.takeWhile_append_dropWhile _
    (fun group : TagGroup => decide ((group.maxTime : Int) < keepTime)) groups
  nth_rewrite 1 [← split]
  exact List.perm_append_comm

variable {groups' before after : List TagGroup} {group : TagGroup}

theorem Kept.open {opened : TagRequestGroupInfo} (h : Kept groups delegated tags)
    (fresh : opened.rollback = false)
    (sorted : groups'.Pairwise fun a b => (a.maxTime : Int) ≤ b.maxTime)
    (perm : groups'.Perm groups ∨ ∃ group, groups'.Perm (group :: groups) ∧ live group = opened) :
    Kept groups' (delegated ++ [opened]) (opened.tags + tags) := by
  obtain ⟨closed, infos, settled, before, sum⟩ := h.settled
  refine ⟨sorted, ?_⟩
  have opens : settle [] (delegated ++ [opened]) = some (opened :: infos) := by
    rw [settle_append, settled]
    simp [settle, fresh]
  have total : ((opened :: infos).map (·.tags)).sum = opened.tags + tags := by
    rw [List.map_cons, List.sum_cons, sum]
  rcases perm with perm | ⟨group, perm, rfl⟩
  · refine ⟨opened :: closed, opened :: infos, opens, ?_, total⟩
    apply (before.cons opened).trans
    apply List.perm_middle.symm.trans
    exact (perm.map live).symm.append_right _
  · refine ⟨closed, live group :: infos, opens, ?_, total⟩
    exact (before.cons _).trans ((perm.map live).symm.append_right closed)

theorem Kept.join {joined : TagRequestGroupInfo} (tagId : Nat)
    (h : Kept (before ++ group :: after) delegated tags) (fresh : joined.rollback = false)
    (more : joined.tags = tagId ::ₘ (live group).tags)
    (sorted : groups'.Pairwise fun a b => (a.maxTime : Int) ≤ b.maxTime)
    (perm : groups'.Perm (before ++ after) ∨
      ∃ group', groups'.Perm (group' :: (before ++ after)) ∧ live group' = joined) :
    Kept groups' (delegated ++ [initTagGroupInfo group true, joined]) ({tagId} + tags) := by
  obtain ⟨closed, infos, settled, kept, sum⟩ := h.settled
  have mem : live group ∈ infos := kept.mem_iff.mpr (by simp)
  have joins : settle [] (delegated ++ [initTagGroupInfo group true, joined]) =
      some (joined :: infos.erase (live group)) := by
    rw [settle_append, settled]
    have back : { initTagGroupInfo group true with rollback := false } = live group := rfl
    simp only [Option.bind_some, settle, back, if_pos mem, fresh]
    rfl
  have rest : (infos.erase (live group)).Perm ((before ++ after).map live ++ closed) := by
    apply List.Perm.cons_inv (a := live group)
    apply (List.perm_cons_erase mem).symm.trans
    apply kept.trans
    simp
  have total : ((joined :: infos.erase (live group)).map (·.tags)).sum = {tagId} + tags := by
    rw [← sum, sum_tags_perm (List.perm_cons_erase mem)]
    simp only [List.map_cons, List.sum_cons, more, ← Multiset.singleton_add]
    rw [add_assoc]
  refine ⟨sorted, ?_⟩
  rcases perm with perm | ⟨group', perm, rfl⟩
  · refine ⟨joined :: closed, _, joins, ?_, total⟩
    apply (rest.cons joined).trans
    apply List.perm_middle.symm.trans
    exact (perm.map live).symm.append_right _
  · refine ⟨closed, _, joins, ?_, total⟩
    exact (rest.cons _).trans ((perm.map live).symm.append_right closed)

theorem place_sorted {time : Int}
    (sorted : (before ++ group :: after).Pairwise fun a b => (a.maxTime : Int) ≤ b.maxTime) :
    ∃ front back, front ++ back = before ++ after ∧
      (if group.maxTime < time ∧ after ≠ [] then
        (before ++ after.takeWhile (·.maxTime < time), after.dropWhile (·.maxTime < time))
      else (before, after)) = (front, back) ∧
      ∀ moved : TagGroup, (moved.maxTime : Int) = max (group.maxTime : Int) time →
        (front ++ moved :: back).Pairwise fun a b => (a.maxTime : Int) ≤ b.maxTime := by
  have rest : (before ++ after).Pairwise fun a b => (a.maxTime : Int) ≤ b.maxTime :=
    sorted.sublist ((List.sublist_cons_self group after).append_left before)
  rw [List.pairwise_append, List.pairwise_cons] at sorted
  have low : ∀ a ∈ before, (a.maxTime : Int) ≤ group.maxTime := by
    intro a ha
    exact sorted.2.2 a ha group List.mem_cons_self
  by_cases moves : group.maxTime < time ∧ after ≠ []
  · rw [if_pos moves]
    refine ⟨_, _, ?_, rfl, ?_⟩
    · rw [List.append_assoc, List.takeWhile_append_dropWhile]
    · intro moved hmoved
      rw [List.append_assoc, List.pairwise_append]
      refine ⟨sorted.1, pairwise_insertFirst sorted.2.1.2 (by omega), ?_⟩
      intro a ha b hb
      have := low a ha
      rcases List.mem_append.mp hb with hb | hb
      · exact (List.pairwise_append.mp rest).2.2 a ha b (List.takeWhile_subset _ hb)
      · rcases List.mem_cons.mp hb with rfl | hb
        · omega
        · exact (List.pairwise_append.mp rest).2.2 a ha b (List.dropWhile_subset _ hb)
  · rw [if_neg moves]
    refine ⟨_, _, rfl, rfl, ?_⟩
    intro moved hmoved
    apply pairwise_insert rest
    · intro a ha
      have := low a ha
      omega
    · intro a ha
      have := sorted.2.1.1 a ha
      have : ¬ group.maxTime < time := by
        intro less
        apply moves ⟨less, ?_⟩
        rintro rfl
        simp at ha
      omega

theorem cast_append_singleton (tags : List Nat) (tag : Nat) :
    ((tags ++ [tag] : List Nat) : Multiset Nat) = tag ::ₘ (tags : Multiset Nat) :=
  Multiset.coe_eq_coe.mpr (List.perm_append_comm.trans (.refl _))

theorem insert_kept (h : Kept groups delegated tags) (order : Orderly bound groups info) :
    Kept (insertTagRequest bound groups info).1
      (delegated ++ (insertTagRequest bound groups info).2) ({info.tagId} + tags) := by
  obtain ⟨⟨past, time, colo, tag, site⟩, order⟩ := order
  have time := uint_of_lt past time
  have tag := uint_natCast tag
  unfold insertTagRequest
  cases target : targetGroup bound groups info with
  | none =>
    dsimp only
    rw [show ({info.tagId} : Multiset Nat) = (fillTagGroupInfo info).tags from rfl]
    apply h.open rfl
    · exact @pairwise_insertLast _ _ _ (fun group : TagGroup => (group.maxTime : Int)) _ _ _
        h.sorted time
    · refine .inr ⟨newGroup info, perm_insertLast _ _ _, ?_⟩
      simp [live, initTagGroupInfo, newGroup, fillTagGroupInfo, time, tag, uint_natCast colo,
        uint_natCast site]
  | some found =>
    obtain ⟨before, group, after⟩ := found
    obtain ⟨rfl, same⟩ := targetGroup_eq target
    rw [target] at order
    obtain ⟨front, back, rest, placed, sorted⟩ := @place_sorted _ _ _ info.time h.sorted
    dsimp only
    rw [placed]
    dsimp only
    by_cases room : group.tags.length + 1 < maxTagsInGroup
    · rw [if_pos room]
      have early : (group.minTime : Int) ≤ info.time := by omega
      apply h.join info.tagId rfl rfl
      · apply sorted
        show ((max group.maxTime (uint info.time) : Nat) : Int) = _
        omega
      · refine .inr ⟨group.addRequest info, ?_, ?_⟩
        · rw [← rest]
          exact List.perm_middle
        · have minimum : min group.minTime (uint info.time) = group.minTime := by omega
          simp [live, initTagGroupInfo, TagGroup.addRequest, minimum, tag,
            cast_append_singleton]
    · rw [if_neg room]
      apply h.join info.tagId rfl rfl
      · rw [rest]
        exact h.sorted.sublist ((List.sublist_cons_self group after).append_left before)
      · exact .inl (by rw [rest])

/-- The number of groups after a request that is in order. -/
theorem clear_size (h : Kept groups delegated tags) (size : groups.length ≤ keepMaxGroups)
    (order : Orderly bound groups info) :
    (clearExcessTagRequestGroups (insertTagRequest bound groups info).1
      (info.time - keepGroupTime)).length ≤ keepMaxGroups := by
  have sorted := (insert_kept h order).sorted
  obtain ⟨⟨past, time, -⟩, order⟩ := order
  have time := uint_of_lt past time
  rw [clearExcess_eq]
  unfold insertTagRequest at sorted ⊢
  cases target : targetGroup bound groups info with
  | none =>
    rw [target] at order sorted
    dsimp only at order sorted ⊢
    rw [@dropWhile_lt_eq_filter _ _ _ (fun group : TagGroup => (group.maxTime : Int)) _ _ sorted,
      ((perm_insertLast _ _ _).filter _).length_eq, List.filter_cons_of_pos]
    · exact order
    · apply decide_eq_true
      show info.time - keepGroupTime ≤ ((uint info.time : Nat) : Int)
      unfold keepGroupTime
      omega
  | some found =>
    obtain ⟨before, group, after⟩ := found
    obtain ⟨rfl, -⟩ := targetGroup_eq target
    obtain ⟨front, back, rest, placed, -⟩ := @place_sorted _ _ _ info.time h.sorted
    dsimp only
    rw [placed]
    dsimp only
    apply (List.dropWhile_sublist _).length_le.trans
    have length := congrArg List.length rest
    simp only [List.length_append, List.length_cons] at length size
    split <;> simp only [List.length_append, List.length_cons] <;> omega

end Steps

theorem World.tags_step (bound : Int) (world : World) (info : TagRequestInfo) :
    (world.step bound info).tags =
      if info.tagId = 0 then world.tags else {info.tagId} + world.tags := by
  unfold World.tags World.step
  dsimp only
  rw [List.filter_append, List.map_append]
  split
  · rename_i none
    simp [none]
  · rename_i some
    have one : ([info].filter (·.tagId ≠ 0)).map (·.tagId) = [info.tagId] := by simp [some]
    rw [one, cast_append_singleton]
    rfl

theorem step_kept (h : Kept world.groups world.delegated world.tags)
    (size : world.groups.length ≤ keepMaxGroups) (info : TagRequestInfo)
    (order : info.tagId ≠ 0 → ¬ (info.refererHash = none ∧ info.pageLoadId = none) →
      Orderly bound world.groups info) :
    Kept (world.step bound info).groups (world.step bound info).delegated
      (world.step bound info).tags ∧
    (world.step bound info).groups.length ≤ keepMaxGroups := by
  rw [World.tags_step]
  unfold World.step processTagRequest
  by_cases noTag : info.tagId = 0
  · simp only [if_pos noTag, List.append_nil]
    exact ⟨h, size⟩
  · simp only [if_neg noTag]
    by_cases alone : info.refererHash = none ∧ info.pageLoadId = none
    · simp only [if_pos alone]
      exact ⟨h.open rfl h.sorted (.inl (.refl _)), size⟩
    · simp only [if_neg alone]
      have order := order noTag alone
      exact ⟨(insert_kept h order).clear _, clear_size h size order⟩

theorem staysTelescoped_of_kept {infos : List TagRequestInfo}
    (h : Kept world.groups world.delegated world.tags) (size : world.groups.length ≤ keepMaxGroups)
    (order : world.OrderlyRun bound infos) : world.StaysTelescoped bound infos := by
  induction infos generalizing world with
  | nil => exact h.telescopes size
  | cons info infos ih =>
    obtain ⟨kept, size'⟩ := step_kept h size info order.1
    exact ⟨h.telescopes size, ih kept size' order.2⟩

/-- In a run of requests that are all in order every state telescopes. -/
theorem staysTelescoped (bound : Int) (infos : List TagRequestInfo)
    (order : World.new.OrderlyRun bound infos) : World.new.StaysTelescoped bound infos :=
  staysTelescoped_of_kept ⟨.nil, [], [], rfl, .refl _, rfl⟩ (Nat.zero_le _) order

/-- A request of one page view. -/
def pageRequest (time : Int) (pageLoadId tagId : Nat) : TagRequestInfo :=
  ⟨time, 1, tagId, none, "ru", 1, some pageLoadId, false⟩

theorem laterRequest_staysTelescoped :
    World.new.StaysTelescoped 2 [pageRequest 10 1 1, pageRequest 12 1 2, pageRequest 14 1 3] := by
  apply staysTelescoped 2
  have stored : ∀ info ∈ [pageRequest 10 1 1, pageRequest 12 1 2, pageRequest 14 1 3],
      info.Stored := by
    simp [pageRequest, TagRequestInfo.Stored]
  refine ⟨fun _ _ => ⟨stored _ (by simp), ?_⟩, fun _ _ => ⟨stored _ (by simp), .inl ?_⟩,
    fun _ _ => ⟨stored _ (by simp), .inl ?_⟩, trivial⟩
  · show 0 < keepMaxGroups
    decide
  all_goals decide +kernel

/-- A third request rolls back a version that has the time of the second, late one
and was never delegated. And of 101 groups none is erased. -/
theorem lateRequest_not_staysTelescoped :
    ¬ World.new.StaysTelescoped 2
      [pageRequest 10 1 1, pageRequest 5 1 2, pageRequest 7 1 3] ∧
    ¬ World.new.StaysTelescoped 2
      ((List.range 101).map fun page => pageRequest 10 (page + 1) 1) := by
  have stays_last : ∀ (infos : List TagRequestInfo) (world : World),
      world.StaysTelescoped 2 infos → Telescopes (infos.foldl (World.step 2) world) := by
    intro infos
    induction infos with
    | nil => intro world h; exact h
    | cons info infos ih => intro world h; exact ih _ h.2
  constructor
  · intro stays
    obtain ⟨-, -, infos, settled, -⟩ := stays_last _ _ stays
    have fails : settle [] (([pageRequest 10 1 1, pageRequest 5 1 2,
        pageRequest 7 1 3].foldl (World.step 2) World.new).delegated) = none := by
      decide +kernel
    rw [fails] at settled
    cases settled
  · intro stays
    have size := (stays_last _ _ stays).size
    revert size
    decide +kernel

end AdServer.RequestInfo.TagGroups
