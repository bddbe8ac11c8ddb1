import AdServer.CampaignManager.PropAuction
import AdServer.Lib.Greatest

/-!
# The best possible text revenue

`eval_text_campaigns_max_sum_` keeps the maxima of the groups in an ordered set, so one of equal
maxima is lost; and it takes a maximum only when it is greater than the least one kept, also while
there is room.
-/

namespace AdServer.CampaignManager

open AdServer.Lib SortedMap

variable {kept : Finset Int} {group : List WeightedCampaignKeyword}

section Kept

variable {m : SortedMap Int Unit} {v first : Int} {k : Nat} {seen : List Int}

theorem toFinset_put : (m.put v ()).keys.toFinset = insert v m.keys.toFinset := by
  ext w
  simp only [List.mem_toFinset, Finset.mem_insert, mem_keys, find?_put]
  split_ifs with same <;> simp [same]

theorem toFinset_erase : (m.erase v).keys.toFinset = m.keys.toFinset.erase v := by
  ext w
  simp only [List.mem_toFinset, Finset.mem_erase, mem_keys, find?_erase]
  split_ifs with same <;> simp [same]

theorem card_keys : m.keys.toFinset.card = m.size := by
  rw [List.toFinset_card_of_nodup m.keys_nodup, keys, List.length_map]
  rfl

/-- The kept maxima are the greatest that are not less than the first one. -/
structure Keeps (k : Nat) (first : Int) (seen : List Int) (kept : Finset Int) : Prop where
  sub : ∀ v ∈ kept, v ∈ seen ∧ first ≤ v
  few : kept.card ≤ k
  some : kept.Nonempty
  full : ∀ v ∈ seen, first ≤ v → v ∉ kept → k ≤ kept.card ∧ ∀ w ∈ kept, v ≤ w

theorem keeps_first (pos : 0 < k) :
    Keeps k v [v] (insertGroupMax k empty v).keys.toFinset := by
  have one : insertGroupMax k empty v = empty.put v () := by
    have size : (empty.put v ()).size = 1 := rfl
    simp only [insertGroupMax, size, if_neg (show ¬k < 1 by omega)]
    rfl
  rw [one, toFinset_put]
  constructor
  · simp [empty, keys]
  · simpa [empty, keys] using Nat.one_le_iff_ne_zero.2 pos.ne'
  · exact Finset.insert_nonempty _ _
  · simp [empty, keys]

theorem Keeps.insert (h : Keeps k first seen kept) (ge : first ≤ v) (few : (insert v kept).card ≤ k)
    (greater : ∃ w ∈ kept, w < v) : Keeps k first (seen ++ [v]) (insert v kept) := by
  obtain ⟨sub, -, -, full⟩ := h
  obtain ⟨w, inside, less⟩ := greater
  refine ⟨?_, few, Finset.insert_nonempty _ _, ?_⟩
  · intro u member
    rcases Finset.mem_insert.1 member with rfl | member
    · simp [ge]
    · simp [sub u member]
  · intro u member ge' out
    rw [Finset.mem_insert, not_or] at out
    have before : u ∈ seen := by simpa [out.1] using member
    obtain ⟨room, below⟩ := full u before ge' out.2
    refine ⟨room.trans (Finset.card_le_card (Finset.subset_insert v kept)), ?_⟩
    intro x inside'
    rcases Finset.mem_insert.1 inside' with rfl | inside'
    · exact (below w inside).trans less.le
    · exact below x inside'

theorem Keeps.insert_erase (h : Keeps k first seen kept) (ge : first ≤ v) (pos : 0 < k)
    (many : k < (Insert.insert v kept).card) {least : Int} (inside : least ∈ Insert.insert v kept)
    (minimal : ∀ w ∈ Insert.insert v kept, least ≤ w) (greater : ∃ w ∈ kept, w < v) :
    Keeps k first (seen ++ [v]) ((Insert.insert v kept).erase least) := by
  obtain ⟨sub, few, -, full⟩ := h
  have card : ((Insert.insert v kept).erase least).card = k := by
    have one_more := Finset.card_insert_le v kept
    rw [Finset.card_erase_of_mem inside]
    omega
  refine ⟨?_, card.le, Finset.card_pos.1 (by omega), ?_⟩
  · intro u member
    rcases Finset.mem_insert.1 (Finset.mem_of_mem_erase member) with rfl | member
    · simp [ge]
    · simp [sub u member]
  · intro u member ge' out
    refine ⟨card.ge, fun x inside' => ?_⟩
    by_cases gone : u = least
    · rw [gone]
      exact minimal x (Finset.mem_of_mem_erase inside')
    · have out' : u ∉ Insert.insert v kept := fun inside => out (Finset.mem_erase.2 ⟨gone, inside⟩)
      rw [Finset.mem_insert, not_or] at out'
      have before : u ∈ seen := by simpa [out'.1] using member
      obtain ⟨-, below⟩ := full u before ge' out'.2
      obtain ⟨w, inside_kept, less⟩ := greater
      rcases Finset.mem_insert.1 (Finset.mem_of_mem_erase inside') with rfl | inside'
      · exact (below w inside_kept).trans less.le
      · exact below x inside'

/-- What is not greater than the least one is less than the first, or has no room. -/
theorem Keeps.skip (h : Keeps k first seen kept) (from_ : first ∈ seen)
    (not_greater : ∀ w ∈ kept, v ≤ w) : Keeps k first (seen ++ [v]) kept := by
  refine ⟨fun u member => ?_, h.few, h.some, fun u member ge out => ?_⟩
  · simp [h.sub u member]
  · rcases List.mem_append.1 member with before | now
    · exact h.full u before ge out
    · obtain rfl := List.mem_singleton.1 now
      have first_out : first ∉ kept := by
        intro inside
        obtain rfl : first = u := le_antisymm ge (not_greater first inside)
        exact out inside
      exact ⟨(h.full first from_ le_rfl first_out).1, not_greater⟩

theorem Keeps.step (h : Keeps k first seen m.keys.toFinset) (pos : 0 < k) (from_ : first ∈ seen) :
    Keeps k first (seen ++ [v]) (insertGroupMax k m v).keys.toFinset := by
  obtain ⟨u, member⟩ := h.some
  cases found : m.first? with
  | none => exact absurd (List.mem_toFinset.1 member) (first?_eq_none.1 found u)
  | some least =>
    obtain ⟨inside, minimal⟩ := first?_eq_some.1 found
    rw [← List.mem_toFinset] at inside
    have not_empty : m.isEmpty = false := by
      rw [← Bool.not_eq_true, SortedMap.isEmpty_iff]
      intro none
      have found := mem_keys.1 (List.mem_toFinset.1 inside)
      simp [none least] at found
    by_cases greater : least < v
    · have ge : first ≤ v := (h.sub least inside).2.trans greater.le
      have size : (m.put v ()).size = (Insert.insert v m.keys.toFinset).card := by
        rw [← toFinset_put, card_keys]
      simp only [insertGroupMax, found, Option.any_some, greater, decide_true, Bool.or_true,
        if_true, size]
      split_ifs with many
      · cases found' : (m.put v ()).first? with
        | none =>
          have put : v ∈ (m.put v ()).keys := by simp [mem_keys, find?_put]
          exact absurd put (first?_eq_none.1 found' v)
        | some least' =>
          obtain ⟨inside', minimal'⟩ := first?_eq_some.1 found'
          simp only [← List.mem_toFinset, toFinset_put] at inside' minimal'
          rw [toFinset_erase, toFinset_put]
          exact h.insert_erase ge pos many inside' minimal' ⟨least, inside, greater⟩
      · rw [toFinset_put]
        exact h.insert ge (not_lt.1 many) ⟨least, inside, greater⟩
    · have skipped : insertGroupMax k m v = m := by
        simp [insertGroupMax, found, greater, not_empty]
      rw [skipped]
      exact h.skip from_ fun w inside => (not_lt.1 greater).trans
        (minimal w (List.mem_toFinset.1 inside))

theorem keeps_foldl (pos : 0 < k) (first : Int) (rest : List Int) :
    Keeps k first (first :: rest)
      ((first :: rest).foldl (insertGroupMax k) empty).keys.toFinset := by
  induction rest using List.reverseRecOn with
  | nil => exact keeps_first pos
  | append_singleton rest v ih =>
    rw [← List.cons_append, List.foldl_append]
    exact ih.step pos List.mem_cons_self

end Kept

/-- The greatest maxima are positive at most once each, and then not less than the first one. -/
structure DistinctMaxima (k : Nat) (maxima : List Int) : Prop where
  distinct : ((greatest k maxima).filter (0 < ·)).Nodup
  notLess : ∀ v ∈ greatest k maxima, 0 < v → ∀ first ∈ maxima.head?, first ≤ v

section Sums

variable {k : Nat} {maxima : List Int}

theorem sum_filter_pos {s : Multiset Int} (nonneg : ∀ v ∈ s, 0 ≤ v) :
    (s.filter (0 < ·)).sum = s.sum := by
  have zeros : (s.filter fun v => ¬0 < v).sum = 0 := by
    apply Multiset.sum_eq_zero
    intro v member
    obtain ⟨inside, not_pos⟩ := Multiset.mem_filter.1 member
    exact le_antisymm (not_lt.1 not_pos) (nonneg v inside)
  have parts := congrArg Multiset.sum (Multiset.filter_add_not (0 < ·) s)
  rw [Multiset.sum_add, zeros, add_zero] at parts
  exact parts

theorem keptSum_iff (pos : 0 < k) (nonneg : ∀ v ∈ maxima, 0 ≤ v) :
    (maxima.foldl (insertGroupMax k) empty).keys.sum = (greatest k maxima).sum ↔
      DistinctMaxima k maxima := by
  cases maxima with
  | nil =>
    have empty : greatest k [] = [] := by simp [greatest]
    rw [empty]
    exact iff_of_true rfl ⟨by simp [empty], by simp⟩
  | cons first rest =>
    have keeps := keeps_foldl pos first rest
    have nodup := ((first :: rest).foldl (insertGroupMax k) empty).keys_nodup
    generalize ((first :: rest).foldl (insertGroupMax k) empty).keys = kept at keeps nodup
    have nodup' : (kept : Multiset Int).Nodup := Multiset.coe_nodup.2 nodup
    have kept_le : (kept : Multiset Int) ≤ (first :: rest : List Int) := by
      rw [Multiset.le_iff_subset nodup']
      intro v inside
      exact (keeps.sub v (List.mem_toFinset.2 inside)).1
    have card : kept.length ≤ k := by
      rw [← List.toFinset_card_of_nodup nodup]
      exact keeps.few
    obtain ⟨le, exchange⟩ := sum_le_greatest nonneg kept_le card
    have greatest_nonneg : ∀ v ∈ (greatest k (first :: rest) : Multiset Int), 0 ≤ v :=
      fun v inside => nonneg v (Multiset.mem_of_le greatest_le_self inside)
    rw [Multiset.sum_coe] at le exchange
    have distinct_iff : ((greatest k (first :: rest)).filter (0 < ·)).Nodup ↔
        ((greatest k (first :: rest) : Multiset Int).filter (0 < ·)).Nodup := by
      rw [Multiset.filter_coe, Multiset.coe_nodup]
    constructor
    · intro same
      obtain ⟨left, split⟩ := Multiset.le_iff_exists_add.1 (exchange same)
      have left_zero : ∀ v ∈ left, v = 0 := by
        have sums := congrArg Multiset.sum split
        rw [Multiset.sum_add, Multiset.sum_coe, Multiset.sum_coe] at sums
        refine Multiset.all_zero_of_le_zero_le_of_sum_eq_zero (fun v inside => ?_) (by omega)
        exact greatest_nonneg v (split ▸ Multiset.mem_add.2 (.inr inside))
      constructor
      · have none_left : left.filter (0 < ·) = 0 := by
          rw [Multiset.filter_eq_nil]
          intro v inside pos
          rw [left_zero v inside] at pos
          exact lt_irrefl 0 pos
        rw [distinct_iff, split, Multiset.filter_add, none_left, add_zero]
        exact nodup'.filter _
      · intro v inside pos first' is_first
        obtain rfl := Option.some.inj is_first
        rw [← Multiset.mem_coe, split, Multiset.mem_add] at inside
        rcases inside with inside | inside
        · exact (keeps.sub v (List.mem_toFinset.2 inside)).2
        · exact absurd (left_zero v inside) pos.ne'
    · rintro ⟨distinct, not_less⟩
      have distinct' := distinct_iff.1 distinct
      have out {v : Int} (member : v ∈ (greatest k (first :: rest) : Multiset Int).filter (0 < ·) -
          kept) : k ≤ kept.length ∧ ∀ w ∈ kept, v ≤ w := by
        obtain ⟨inside, not_kept⟩ := (Multiset.mem_sub_of_nodup distinct').1 member
        obtain ⟨inside, pos⟩ := Multiset.mem_filter.1 inside
        obtain ⟨full, below⟩ := keeps.full v (Multiset.mem_of_le greatest_le_self inside)
          (not_less v inside pos first rfl) fun kept => not_kept (List.mem_toFinset.1 kept)
        rw [List.toFinset_card_of_nodup nodup] at full
        exact ⟨full, fun w inside => below w (List.mem_toFinset.2 inside)⟩
      have few : k ≤ kept.length → ((greatest k (first :: rest) : Multiset Int).filter
          (0 < ·)).card ≤ (kept : Multiset Int).card := by
        intro full
        have few := Multiset.card_le_card
          (Multiset.filter_le (0 < ·) (greatest k (first :: rest) : Multiset Int))
        rw [Multiset.coe_card, length_greatest] at few
        exact (few.trans (min_le_left _ _)).trans full
      have ge : ((greatest k (first :: rest) : Multiset Int).filter (0 < ·)).sum ≤
          (kept : Multiset Int).sum := by
        refine (sum_le_of_exchange ?_ (fun some_out => ?_) ?_).1
        · intro v inside
          exact nonneg v (Multiset.mem_of_le kept_le inside)
        · obtain ⟨v, member⟩ := Multiset.exists_mem_of_ne_zero some_out
          exact few (out member).1
        · intro v member w inside
          exact (out member).2 w inside
      rw [sum_filter_pos greatest_nonneg, Multiset.sum_coe, Multiset.sum_coe] at ge
      exact le_antisymm le ge

end Sums

/-- At most so many candidates, with at most one of a group. -/
structure Choice (candidates : List WeightedCampaignKeyword) (k : Nat)
    (chosen : List WeightedCampaignKeyword) : Prop where
  mem : ∀ c ∈ chosen, c ∈ candidates
  few : chosen.length ≤ k
  onePerGroup : (chosen.map (·.group)).Nodup

def totalEcpm (chosen : List WeightedCampaignKeyword) : Int := (chosen.map (·.actualEcpm)).sum

/-- `group_text_campaigns_`, as the auction calls it. -/
def groupedCandidates (R : RevenueArith) (candidates : List WeightedCampaignKeyword) :
    List (Int × List WeightedCampaignKeyword) :=
  groupedMap R (·.actualEcpm) (IdMaps.fill (·.group) candidates).groups []

def groupMaxima (R : RevenueArith) (candidates : List WeightedCampaignKeyword) : List Int :=
  (groupedCandidates R candidates).map fun g => groupMax g.2

section Groups

variable {α : Type} {group : α → TextAdserving × Nat} {xs : List α}

theorem groups_of_kind (kind : TextAdserving) :
    ((IdMaps.fill group xs).selectedMap kind).entries.map Prod.snd =
      (((IdMaps.fill group xs).selectedMap kind).keys.map (kind, ·)).map
        (IdMaps.members group xs) := by
  rw [keys, List.map_map, List.map_map]
  apply List.map_congr_left
  intro e member
  have found : (IdMaps.fill group xs).campaignsGroup (kind, e.1) = some e.2 :=
    find?_eq_some.2 member
  rw [IdMaps.campaignsGroup_fill, Option.ite_none_left_eq_some] at found
  exact (Option.some.inj found.2).symm

theorem mem_keys_of_kind {kind : TextAdserving} {id : Nat} :
    id ∈ ((IdMaps.fill group xs).selectedMap kind).keys ↔ ∃ x ∈ xs, group x = (kind, id) := by
  rw [mem_keys]
  change ((IdMaps.fill group xs).campaignsGroup (kind, id)).isSome ↔ _
  rw [IdMaps.campaignsGroup_fill]
  split_ifs with none
  · simpa [IdMaps.members] using none
  · simpa [IdMaps.members] using none

theorem exists_groupKeys (group : α → TextAdserving × Nat) (xs : List α) :
    ∃ keys : List (TextAdserving × Nat), keys.Nodup ∧ (∀ g, g ∈ keys ↔ ∃ x ∈ xs, group x = g) ∧
      (IdMaps.fill group xs).groups.map Prod.snd = keys.map (IdMaps.members group xs) := by
  let ofKind (kind : TextAdserving) : List (TextAdserving × Nat) :=
    ((IdMaps.fill group xs).selectedMap kind).keys.map (kind, ·)
  refine ⟨ofKind .all ++ ofKind .advertiserOne ++ ofKind .one, ?_, ?_, ?_⟩
  · have nodup (kind : TextAdserving) : (ofKind kind).Nodup :=
      (keys_nodup _).map fun _ _ same => (Prod.mk.inj same).2
    simp only [List.nodup_append, nodup, true_and, List.mem_append, ofKind, List.mem_map]
    constructor
    · rintro _ ⟨a, -, rfl⟩ _ ⟨b, -, rfl⟩ same
      cases same
    · rintro _ (⟨a, -, rfl⟩ | ⟨a, -, rfl⟩) _ ⟨b, -, rfl⟩ same <;> cases same
  · rintro ⟨kind, id⟩
    rw [← mem_keys_of_kind]
    cases kind <;> simp [ofKind]
  · simp only [IdMaps.groups, List.map_append, ofKind, ← groups_of_kind]
    rfl

end Groups

section Choices

variable {R : RevenueArith} {candidates : List WeightedCampaignKeyword} {k : Nat}

theorem groupMax_concat (group : List WeightedCampaignKeyword) (c : WeightedCampaignKeyword) :
    groupMax (group ++ [c]) = max (groupMax group) c.actualEcpm := by
  rw [groupMax, List.foldl_append]
  change (if groupMax group < c.actualEcpm then c.actualEcpm else groupMax group) = _
  split_ifs <;> omega

theorem groupMax_nonneg (group : List WeightedCampaignKeyword) : 0 ≤ groupMax group := by
  induction group using List.reverseRecOn with
  | nil => exact le_rfl
  | append_singleton group c ih =>
    rw [groupMax_concat]
    exact ih.trans (le_max_left _ _)

theorem le_groupMax : ∀ c ∈ group, c.actualEcpm ≤ groupMax group := by
  induction group using List.reverseRecOn with
  | nil => simp
  | append_singleton group c ih =>
    intro other member
    rw [groupMax_concat]
    rcases List.mem_append.1 member with before | last
    · exact (ih other before).trans (le_max_left _ _)
    · obtain rfl := List.mem_singleton.1 last
      exact le_max_right _ _

theorem exists_groupMax (some : group ≠ []) (nonneg : ∀ c ∈ group, 0 ≤ c.actualEcpm) :
    ∃ c ∈ group, c.actualEcpm = groupMax group := by
  induction group using List.reverseRecOn with
  | nil => exact absurd rfl some
  | append_singleton group c ih =>
    have last := nonneg c (by simp)
    rw [groupMax_concat]
    by_cases none : group = []
    · exact ⟨c, by simp, by simp [none, groupMax, last]⟩
    · obtain ⟨best, member, same⟩ := ih none fun other member => nonneg other (by simp [member])
      rcases le_total (groupMax group) c.actualEcpm with le | le
      · exact ⟨c, by simp, (max_eq_right le).symm⟩
      · exact ⟨best, by simp [member], same.trans (max_eq_left le).symm⟩

theorem groupMaxima_perm {keys : List (TextAdserving × Nat)}
    (groups : (IdMaps.fill (·.group) candidates).groups.map Prod.snd =
      keys.map (IdMaps.members (·.group) candidates)) :
    (groupMaxima R candidates).Perm
      (keys.map fun g => groupMax (IdMaps.members (·.group) candidates g)) := by
  have perm : (groupMaxima R candidates).Perm
      (((IdMaps.fill (·.group) candidates).groups.map Prod.snd).map groupMax) := by
    have grouped : (groupedCandidates R candidates).Perm _ := groupedMap_perm _ _
    simpa [groupMaxima, Function.comp_def] using grouped.map fun g => groupMax g.2
  rw [groups, List.map_map] at perm
  exact perm

theorem groupMaxima_nonneg : ∀ v ∈ groupMaxima R candidates, 0 ≤ v := by
  intro v member
  obtain ⟨g, -, rfl⟩ := List.mem_map.1 member
  exact groupMax_nonneg g.2

theorem choice_le {chosen : List WeightedCampaignKeyword} (choice : Choice candidates k chosen) :
    totalEcpm chosen ≤ (greatest k (groupMaxima R candidates)).sum := by
  obtain ⟨keys, -, mem_keys, groups⟩ := exists_groupKeys (·.group) candidates
  have perm := groupMaxima_perm (R := R) groups
  let best (g : TextAdserving × Nat) : Int := groupMax (IdMaps.members (·.group) candidates g)
  have le_best : ∀ c ∈ chosen, c.actualEcpm ≤ best c.group := by
    intro c member
    exact le_groupMax c (List.mem_filter.2 ⟨choice.mem c member, decide_eq_true rfl⟩)
  have inside : ((chosen.map fun c => best c.group : List Int) : Multiset Int) ≤
      groupMaxima R candidates := by
    have keys_le : ((chosen.map (·.group) : List _) : Multiset (TextAdserving × Nat)) ≤ keys := by
      rw [Multiset.le_iff_subset (Multiset.coe_nodup.2 choice.onePerGroup)]
      intro g member
      obtain ⟨c, chosen, rfl⟩ := List.mem_map.1 (Multiset.mem_coe.1 member)
      exact Multiset.mem_coe.2 ((mem_keys _).2 ⟨c, choice.mem c chosen, rfl⟩)
    have bests := Multiset.map_le_map keys_le (f := best)
    rw [Multiset.map_coe, Multiset.map_coe, List.map_map] at bests
    rw [Multiset.coe_eq_coe.2 perm]
    exact bests
  calc totalEcpm chosen ≤ (chosen.map fun c => best c.group).sum := List.sum_le_sum le_best
    _ ≤ _ := (sum_le_greatest groupMaxima_nonneg inside (by simpa using choice.few)).1

theorem exists_choice (nonneg : ∀ c ∈ candidates, 0 ≤ c.actualEcpm) :
    ∃ chosen, Choice candidates k chosen ∧
      totalEcpm chosen = (greatest k (groupMaxima R candidates)).sum := by
  obtain ⟨keys, nodup, mem_keys, groups⟩ := exists_groupKeys (·.group) candidates
  have perm := groupMaxima_perm (R := R) groups
  have attained : ∀ g, ∃ c, g ∈ keys → c ∈ candidates ∧ c.group = g ∧
      c.actualEcpm = groupMax (IdMaps.members (·.group) candidates g) := by
    intro g
    by_cases inside : g ∈ keys
    · obtain ⟨x, member, same⟩ := (mem_keys g).1 inside
      have some : IdMaps.members (·.group) candidates g ≠ [] :=
        List.ne_nil_of_mem (List.mem_filter.2 ⟨member, decide_eq_true same⟩)
      obtain ⟨c, member, best⟩ := exists_groupMax some fun c member =>
        nonneg c (List.mem_of_mem_filter member)
      exact ⟨c, fun _ => ⟨List.mem_of_mem_filter member,
        of_decide_eq_true (List.mem_filter.1 member).2, best⟩⟩
    · exact ⟨default, fun inside' => absurd inside' inside⟩
  choose pick picked using attained
  have sub : (greatest k (groupMaxima R candidates)).Subperm (keys.map fun g =>
      groupMax (IdMaps.members (·.group) candidates g)) :=
    (Multiset.coe_le.1 greatest_le_self).trans perm.subperm
  obtain ⟨values, same, sublist⟩ := sub
  obtain ⟨some_keys, keys_sublist, rfl⟩ := List.sublist_map_iff.1 sublist
  have inside : ∀ g ∈ some_keys, g ∈ keys := fun g member => keys_sublist.subset member
  have groups_picked : (some_keys.map pick).map (·.group) = some_keys := by
    rw [List.map_map]
    exact List.map_congr_left (fun g member => (picked g (inside g member)).2.1) |>.trans
      (List.map_id _)
  refine ⟨some_keys.map pick, ⟨?_, ?_, ?_⟩, ?_⟩
  · intro c member
    obtain ⟨g, of_some, rfl⟩ := List.mem_map.1 member
    exact (picked g (inside g of_some)).1
  · have length := same.length_eq
    rw [List.length_map, length_greatest] at length
    rw [List.length_map, length]
    exact min_le_left _ _
  · rw [groups_picked]
    exact nodup.sublist keys_sublist
  · rw [← same.sum_eq, totalEcpm, List.map_map]
    exact congrArg List.sum
      (List.map_congr_left fun g member => (picked g (inside g member)).2.2)

/-- The value is the sum of the greatest maxima; no choice makes up more, and some choice makes
that up. So it is below a price just when all choices are. -/
structure BestSum (R : RevenueArith) (candidates : List WeightedCampaignKeyword) (k : Nat)
    (value : Int) : Prop where
  sum : value = (greatest k (groupMaxima R candidates)).sum
  best : (∀ chosen, Choice candidates k chosen → totalEcpm chosen ≤ value) ∧
    ∃ chosen, Choice candidates k chosen ∧ totalEcpm chosen = value
  leftOut : ∀ cpm, value < cpm ↔ ∀ chosen, Choice candidates k chosen → totalEcpm chosen < cpm

theorem bestSum_iff (nonneg : ∀ c ∈ candidates, 0 ≤ c.actualEcpm) {value : Int} :
    BestSum R candidates k value ↔ value = (greatest k (groupMaxima R candidates)).sum := by
  constructor
  · intro best
    exact best.sum
  · rintro rfl
    obtain ⟨best, choice, total⟩ := exists_choice (R := R) (k := k) nonneg
    refine ⟨rfl, ⟨fun _ choice => choice_le choice, best, choice, total⟩, fun cpm => ?_⟩
    constructor
    · intro below chosen choice
      exact (choice_le choice).trans_lt below
    · intro below
      exact total ▸ below best choice

end Choices

theorem evalTextCampaignsMaxSum_greatest (R : RevenueArith)
    {candidates : List WeightedCampaignKeyword} (nonneg : ∀ c ∈ candidates, 0 ≤ c.actualEcpm)
    {k : Nat} (pos : 0 < k) :
    groupTextCampaigns_ R (·.actualEcpm) (·.group) (ExpectedEcpm.add R) ExpectedEcpm.zero
        candidates =
      .ok (groupedCandidates R candidates, (((IdMaps.fill (·.group) candidates).groups.map fun g =>
        groupValue R (·.actualEcpm) g.2).foldl (ExpectedEcpm.add R) ExpectedEcpm.zero)) ∧
    (BestSum R candidates k (evalTextCampaignsMaxSum_ (groupedCandidates R candidates) k) ↔
      DistinctMaxima k (groupMaxima R candidates)) := by
  constructor
  · refine groupIdMap_eq (fun g member c inside => ?_) [] ExpectedEcpm.zero
    obtain ⟨-, sub⟩ := IdMaps.of_mem_groups_fill member
    exact nonneg c (sub c inside)
  · rw [bestSum_iff nonneg]
    exact keptSum_iff pos groupMaxima_nonneg

/-- A candidate of a campaign whose account lets each advertiser show one text. -/
def candidateOf (advertiserId : Nat) (actualEcpm : Int) : WeightedCampaignKeyword where
  campaignKeyword := none
  campaign := { (default : Campaign) with
    account := { (default : Account) with textAdserving := 'A' }
    advertiser := { (default : Account) with accountId := advertiserId } }
  creative := none
  actualEcpm := actualEcpm
  actualCpc := 0
  ecpm := 0
  ctr := 0
  convRate := 0
  own := by simp

/-- Three groups, the second with two candidates, and room for two of them. -/
def threeGroups : List WeightedCampaignKeyword :=
  [candidateOf 1 200, candidateOf 2 300, candidateOf 3 500, candidateOf 2 250]

theorem evalTextCampaignsMaxSum_greatest_threeGroups :
    BestSum .floored threeGroups 2
      (evalTextCampaignsMaxSum_ (groupedCandidates .floored threeGroups) 2) := by
  refine (evalTextCampaignsMaxSum_greatest .floored (by decide) (by decide)).2.2 ?_
  have maxima : groupMaxima .floored threeGroups = [200, 300, 500] := by decide
  have two : greatest 2 [200, 300, 500] = [500, 300] := by simp [greatest, List.mergeSort]
  rw [maxima]
  exact ⟨by rw [two]; decide, by rw [two]; decide⟩

/-- Two groups with one maximum count once. -/
theorem equalMaxima_not_bestSum :
    ¬∀ (R : RevenueArith) (candidates : List WeightedCampaignKeyword) (k : Nat),
      (∀ c ∈ candidates, 0 ≤ c.actualEcpm) → 0 < k →
        BestSum R candidates k (evalTextCampaignsMaxSum_ (groupedCandidates R candidates) k) := by
  intro best
  have le := (best .floored [candidateOf 1 500, candidateOf 2 500] 2 (by decide) (by decide)).best.1
    [candidateOf 1 500, candidateOf 2 500] ⟨by simp, by decide, by decide⟩
  exact absurd le (by decide)

end AdServer.CampaignManager
