import AdServer.Reach.ColoReach
import AdServer.Reach.AppearanceSteps

/-!
# Reports of all appearances

A record that has all the days of its id gives all its transitions, and the
reports of an id are given under the day of its create time.
-/

namespace AdServer.Reach

open AdServer.Lib

variable {bits : BitAlgs} {machine : Machine}

/-- A mask of days, of which the last one is given. -/
structure MaskOf (front : List Nat) (last : Nat) (mask : BitVec 64) : Prop where
  sorted : (front ++ [last]).Pairwise (· < ·)
  near : ∀ day ∈ front, last ≤ day + 63
  bits : ∀ i, mask.getLsbD i = true ↔ ∃ day ∈ front, day + i + 1 = last

theorem MaskOf.nil {last : Nat} {mask : BitVec 64} (days : MaskOf [] last mask) : mask = 0 := by
  by_contra some_bit
  obtain ⟨i, set⟩ := ne_zero_iff_getLsbD.mp some_bit
  obtain ⟨_, member, -⟩ := (days.bits i).mp set
  cases member

theorem MaskOf.append {front : List Nat} {before last : Nat} {mask : BitVec 64}
    (days : MaskOf (front ++ [before]) last mask) :
    before < last ∧ last ≤ before + 63 ∧ mask ≠ 0 ∧ before + bits.lowestBit mask + 1 = last ∧
      MaskOf front before (mask >>> (bits.lowestBit mask + 1)) := by
  have sorted := List.pairwise_append.mp days.sorted
  have lt : before < last := sorted.2.2 before (by simp) last (by simp)
  have near := days.near before (by simp)
  have set : mask.getLsbD (last - before - 1) = true :=
    (days.bits _).mpr ⟨before, by simp, by omega⟩
  have some_bit : mask ≠ 0 := ne_zero_iff_getLsbD.mpr ⟨_, set⟩
  have le_before : ∀ day ∈ front ++ [before], day ≤ before := by
    intro day member
    rcases List.mem_append.mp member with member | member
    · exact ((List.pairwise_append.mp sorted.1).2.2 day member before (by simp)).le
    · exact (List.mem_singleton.mp member).le
  have lowest : before + bits.lowestBit mask + 1 = last := by
    have least := bits.lowest_least _ _ set
    obtain ⟨day, member, at_day⟩ := (days.bits _).mp (bits.lowest_set _ some_bit)
    have := le_before day member
    omega
  refine ⟨lt, near, some_bit, lowest, sorted.1, fun day member => ?_, fun i => ?_⟩
  · have := days.near day (List.mem_append_left _ member)
    omega
  · rw [BitVec.getLsbD_ushiftRight, days.bits]
    constructor
    · rintro ⟨day, member, at_day⟩
      rcases List.mem_append.mp member with member | member
      · exact ⟨day, member, by omega⟩
      · have := List.mem_singleton.mp member
        omega
    · rintro ⟨day, member, at_day⟩
      exact ⟨day, List.mem_append_left _ member, by omega⟩

/-- The pairs of the days, the last one first, but for the first day. -/
theorem collectMask_eq (id : Nat) (count : Int) {front : List Nat} {last : Nat} {mask : BitVec 64}
    (days : MaskOf front last mask) :
    ∃ first : Nat, (collectMask bits machine id count (dayTime last) mask).2 = dayTime first ∧
      (collectMask bits machine id count (dayTime last) mask).1 ++ [appearance id (none, first) count] =
        (Neighbours.links none (front ++ [last])).reverse.map (appearance id · count) := by
  induction front using List.reverseRecOn generalizing last mask with
  | nil =>
    rw [collectMask, dif_neg (by simp [days.nil])]
    exact ⟨last, rfl, rfl⟩
  | append_singleton front before ih =>
    obtain ⟨lt, near, some_bit, lowest, rest⟩ := @MaskOf.append bits _ _ _ _ days
    have date : dayTime last - oneDay * ((bits.lowestBit mask : Int) + 1) = dayTime before := by
      rw [← lowest]
      unfold dayTime
      push_cast
      ring
    obtain ⟨first, at_first, reports⟩ := ih rest
    rw [collectMask, dif_pos ⟨some_bit, by unfold maxDayBitPos; omega⟩]
    simp only [date]
    rw [shr_of_lt _ (show (bits.lowestBit mask : Int) + 1 = (bits.lowestBit mask + 1 : Nat) by omega)
      (by omega)]
    refine ⟨first, at_first, ?_⟩
    rw [Neighbours.links_append, List.reverse_append, List.getLast?_append, List.cons_append, reports]
    rfl

variable {seen : List Nat}

variable {record : Record} {id : Nat} {count : Int} {report : IdAppearance}
  {infos : List (Nat × ColoReachInfo)}

theorem Tracks.maskOf {last : Nat} (tracks : Tracks seen record last)
    (sorted : seen.Pairwise (· < ·)) (near : ∀ day ∈ seen, last ≤ day + 63) :
    ∃ front, seen = front ++ [last] ∧
      MaskOf front last (record.prevAppearancesMask &&& ~~~totalAppearanceMask) := by
  obtain ⟨front, rfl⟩ := List.getLast?_eq_some_iff.mp
    ((Neighbours.getLast?_eq_some sorted).mpr ⟨tracks.member, tracks.greatest⟩)
  refine ⟨front, rfl, sorted, fun day member => near day (List.mem_append_left _ member), fun i => ?_⟩
  rw [getLsbD_onlyDays, Bool.and_eq_true, decide_eq_true_eq]
  constructor
  · rintro ⟨low, set⟩
    obtain ⟨day, member, at_day⟩ := (tracks.days i low).mp set
    rcases List.mem_append.mp member with member | member
    · exact ⟨day, member, at_day⟩
    · have := List.mem_singleton.mp member
      omega
  · rintro ⟨day, member, at_day⟩
    have member' : day ∈ front ++ [last] := List.mem_append_left _ member
    have := near day member'
    exact ⟨by omega, tracks.bit_of_day member' (by omega) at_day⟩

theorem collectRecord_eq (id : Nat) (count : Int) {last : Nat} (tracks : Tracks seen record last)
    (sorted : seen.Pairwise (· < ·)) (near : ∀ day ∈ seen, last ≤ day + 63) :
    collectRecord bits machine count id record =
      (Neighbours.links none seen).reverse.map (appearance id · count) := by
  obtain ⟨front, split, days⟩ := tracks.maskOf sorted near
  obtain ⟨first, at_first, reports⟩ := @collectMask_eq bits machine id count _ _ _ days
  have total := total_ne_zero.mpr (tracks.total.mpr near)
  unfold collectRecord
  simp only [tracks.date]
  rw [if_pos total, at_first, split, ← reports]
  rfl

theorem net_map_appearance (id : Nat) (count : Int) (links : List (Option Nat × Nat))
    (dates : Int × Int) :
    net (links.map (appearance id · count)) id dates = count * (links.map reported).count dates := by
  induction links with
  | nil => simp [net]
  | cons link rest ih =>
    rw [List.map_cons, net_cons, net_appearance, ih, List.map_cons, List.count_cons]
    simp only [beq_iff_eq, true_and]
    split_ifs
    · push_cast
      ring
    · push_cast
      ring

theorem id_of_mem_collectMask (appDate : Int) (mask : BitVec 64)
    (member : report ∈ (collectMask bits machine id count appDate mask).1) : report.id = id := by
  fun_induction collectMask bits machine id count appDate mask with
  | case1 appDate mask some_bit before prevAppDate reports first eq ih =>
    rw [eq] at ih
    rcases List.mem_cons.mp member with rfl | member
    · rfl
    · exact ih member
  | case2 appDate mask done => cases member

theorem id_of_mem_collectRecord (member : report ∈ collectRecord bits machine count id record) :
    report.id = id := by
  unfold collectRecord at member
  rcases List.mem_append.mp member with member | member
  · exact id_of_mem_collectMask _ _ member
  · split_ifs at member
    · rw [List.mem_singleton.mp member]
    · cases member

theorem net_collectAllAppearance (records : Records) (count : Int) (id : Nat) (dates : Int × Int) :
    net (collectAllAppearance bits machine records count) id dates =
      ((records.find? id).map fun record =>
        net (collectRecord bits machine count id record) id dates).getD 0 := by
  obtain ⟨entries, sorted⟩ := records
  unfold collectAllAppearance SortedMap.find?
  dsimp only
  induction entries with
  | nil => rfl
  | cons entry rest ih =>
    obtain ⟨id', record⟩ := entry
    obtain ⟨above, sorted⟩ := List.pairwise_cons.mp sorted
    rw [List.flatMap_cons, net_append, ih sorted]
    by_cases own : id' = id
    · subst own
      have none : rest.find? (fun entry => entry.1 == id') = none := by
        rw [List.find?_eq_none]
        intro other member
        have := above other member
        simpa using (ne_of_gt this)
      rw [none, List.find?_cons_of_pos (by simp)]
      simp
    · rw [List.find?_cons_of_neg (by simpa using own),
        net_other fun report member => by rw [id_of_mem_collectRecord member]; exact own, zero_add]

theorem Known.net_all {records : Records} (known : Known records id seen)
    (near : ∀ day ∈ seen, ∀ other ∈ seen, other ≤ day + 63) (count : Int) (dates : Int × Int) :
    net (collectAllAppearance bits machine records count) id dates =
      count * transitions seen dates := by
  rw [net_collectAllAppearance]
  rcases known.record with ⟨rfl, none⟩ | ⟨record, last, found, tracks⟩
  · rw [none]
    simp [transitions, Neighbours.links]
  · rw [found, Option.map_some, Option.getD_some, collectRecord_eq id count tracks known.sorted
      fun day member => near day member last tracks.member, net_map_appearance]
    unfold transitions
    rw [List.map_reverse, List.count_reverse]

/-- The sum of the counters of an id under two dates in the reports under a create time. -/
def netUnder (infos : List ColoReachInfo) (createTime : Int) (id : Nat) (dates : Int × Int) : Int :=
  ((infos.filter fun info => info.createTime = createTime).map fun info =>
    net info.colocations id dates).sum

theorem netUnder_append (a b : List ColoReachInfo) (createTime : Int) (id : Nat) (dates : Int × Int) :
    netUnder (a ++ b) createTime id dates =
      netUnder a createTime id dates + netUnder b createTime id dates := by
  unfold netUnder
  rw [List.filter_append, List.map_append, List.sum_append]

theorem netUnder_singleton (info : ColoReachInfo) (createTime : Int) (id : Nat) (dates : Int × Int) :
    netUnder [info] createTime id dates =
      if info.createTime = createTime then net info.colocations id dates else 0 := by
  unfold netUnder
  by_cases same : info.createTime = createTime <;> simp [same]

/-- The lists of the reports of an id are under its create day, and together they are all. -/
structure SplitOf (times : SortedMap Nat Int) (collected : List IdAppearance)
    (infos : List (Nat × ColoReachInfo)) : Prop where
  own : ∀ entry ∈ infos, entry.2.createTime = createDayOf times entry.1 ∧
    ∀ report ∈ entry.2.colocations, report.id = entry.1
  all : infos.flatMap (fun entry => entry.2.colocations) = collected

theorem SplitOf.splitAppearance {household : Bool} {times : SortedMap Nat Int}
    {collected : List IdAppearance} (h : SplitOf times collected infos) (report : IdAppearance) :
    SplitOf times (collected ++ [report])
      (Reach.splitAppearance household times infos report) := by
  unfold Reach.splitAppearance
  cases last : infos.getLast? with
  | none =>
    obtain rfl := List.getLast?_eq_none_iff.mp last
    obtain rfl : [] = collected := h.all
    refine ⟨?_, rfl⟩
    simp
  | some entry =>
    obtain ⟨prevId, info⟩ := entry
    obtain ⟨front, rfl⟩ := List.getLast?_eq_some_iff.mp last
    dsimp only
    split_ifs with same
    · rw [List.dropLast_concat]
      constructor
      · intro entry member
        rcases List.mem_append.mp member with member | member
        · exact h.own entry (List.mem_append_left _ member)
        · obtain rfl := List.mem_singleton.mp member
          obtain ⟨time, ids⟩ := h.own (prevId, info) (by simp)
          refine ⟨time, fun other inside => ?_⟩
          rcases List.mem_append.mp inside with inside | inside
          · exact ids other inside
          · rw [List.mem_singleton.mp inside]
            exact same
      · rw [← h.all]
        simp
    · constructor
      · intro entry member
        rcases List.mem_append.mp member with member | member
        · exact h.own entry member
        · obtain rfl := List.mem_singleton.mp member
          simp
      · rw [List.flatMap_append, h.all]
        simp

theorem splitOf_foldl (household : Bool) (times : SortedMap Nat Int) (collected : List IdAppearance) :
    SplitOf times collected (collected.foldl (splitAppearance household times) []) := by
  induction collected using List.reverseRecOn with
  | nil => exact ⟨by simp, rfl⟩
  | append_singleton front report ih =>
    rw [List.foldl_append]
    exact ih.splitAppearance report

theorem netUnder_own {times : SortedMap Nat Int}
    (own : ∀ entry ∈ infos, entry.2.createTime = createDayOf times entry.1 ∧
      ∀ report ∈ entry.2.colocations, report.id = entry.1)
    (createTime : Int) (id : Nat) (dates : Int × Int) :
    netUnder (infos.map Prod.snd) createTime id dates =
      if createDayOf times id = createTime then
        net (infos.flatMap fun entry => entry.2.colocations) id dates
      else 0 := by
  induction infos with
  | nil => simp [netUnder, net]
  | cons entry rest ih =>
    obtain ⟨time, ids⟩ := own entry List.mem_cons_self
    rw [List.map_cons, ← List.singleton_append, netUnder_append,
      ih fun other member => own other (List.mem_cons_of_mem _ member), netUnder_singleton,
      List.flatMap_cons, net_append, time]
    by_cases same : entry.1 = id
    · rw [same]
      split_ifs
      · rfl
      · rfl
    · have none : net entry.2.colocations id dates = 0 :=
        net_other (fun report member => by rw [ids report member]; exact same) dates
      rw [none]
      split_ifs <;> simp

theorem netUnder_split (household : Bool) (collected : List IdAppearance) (coloId : Nat)
    (times : SortedMap Nat Int) (createTime : Int) (id : Nat) (dates : Int × Int) :
    netUnder (splitColoReachInfoById household collected coloId times false) createTime id dates =
      if createDayOf times id = createTime then net collected id dates else 0 := by
  have all : (collected.filter fun appearance => !(false && appearance.id ≠ coloId)) = collected := by
    simp
  have split := splitOf_foldl household times collected
  unfold splitColoReachInfoById
  dsimp only
  rw [all, netUnder_own split.own, split.all]

end AdServer.Reach
