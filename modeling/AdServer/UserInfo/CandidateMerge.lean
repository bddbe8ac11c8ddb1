import AdServer.UserInfo.TodayCandidates

/-!
# The candidates of two profiles

When two profiles are merged, the candidates of a channel are taken in pairs. Which
interval a pair belongs to is counted along the first profile.
-/

namespace AdServer.UserInfo

open AdServer.Lib (uint uint_eq_iff uint_natCast)

variable {interval : ChannelInterval} {pack : ChannelIntervalsPack}

/-! ## The merge -/

/-- `ExistChannelFilter`. -/
def isKnown (channels : ChannelsHashMap) (candidate : HTCandidate) : Bool :=
  (channels candidate.channelId).isSome

/-- The candidate of an interval for which both profiles have one. -/
def pairCandidate (interval : ChannelInterval) (base add : HTCandidate) : HTCandidate :=
  let visits := asInt (base.reqVisits + add.reqVisits - interval.minVisits)
  let reqVisits := (max visits 0).toNat
  ⟨add.channelId, reqVisits, uint (base.visits + add.visits : Nat),
    if reqVisits = 0 then uint interval.weight else 0⟩

/-- `tli_count`, which begins anew with a channel of the first profile. -/
def countAt (base : HTCandidate) (tliCount prevChannelId : Nat) : Nat :=
  if prevChannelId ≠ base.channelId then 0 else tliCount

/-- The loop of `merge_htc_`, with `tli_count` and `prev_channel_id`, and what is left when one of
the lists ends. -/
def mergeHtcFrom (channels : ChannelsHashMap) :
    List HTCandidate → List HTCandidate → Nat → Nat → List HTCandidate
  | [], add, _, _ => add.filter (isKnown channels)
  | base, [], _, _ => base.filter (isKnown channels)
  | base :: bases, add :: adds, tliCount, prevChannelId =>
    if base.channelId < add.channelId then
      let rest := mergeHtcFrom channels bases (add :: adds) (countAt base tliCount prevChannelId)
        base.channelId
      if isKnown channels base then base :: rest else rest
    else if add.channelId < base.channelId then
      let rest := mergeHtcFrom channels (base :: bases) adds (countAt base tliCount prevChannelId)
        base.channelId
      if isKnown channels add then add :: rest else rest
    else
      match channels add.channelId with
      | none => mergeHtcFrom channels bases adds (countAt base tliCount prevChannelId)
          base.channelId
      | some pack =>
        let rest := mergeHtcFrom channels bases adds (countAt base tliCount prevChannelId + 1)
          base.channelId
        match pack.todayLongIntervals.intervals[countAt base tliCount prevChannelId]? with
        | none => rest
        | some interval => pairCandidate interval base add :: rest
termination_by base add => base.length + add.length

/-- `merge_htc_`. -/
def mergeHtc (channels : ChannelsHashMap) (base add : List HTCandidate) : List HTCandidate :=
  mergeHtcFrom channels base add 0 0

/-! ## What it is to do -/

/-- The candidates of a channel are those of its intervals, in order, each with the visits that are
still needed. -/
def OfIntervals (intervals : List ChannelInterval) (candidates : List HTCandidate) : Prop :=
  List.Forall₂ (fun interval candidate : _ =>
    candidate.reqVisits = interval.minVisits - candidate.visits) intervals candidates

/-- A known channel has the candidates of all its intervals, or none. -/
structure IsCandidates (channels : ChannelsHashMap) (candidates : List HTCandidate) : Prop where
  sorted : ByChannel candidates
  known : ∀ channelId pack, channels channelId = some pack →
    candidatesOf channelId candidates = [] ∨
      OfIntervals pack.todayLongIntervals.intervals (candidatesOf channelId candidates)

/-- The candidate of an interval with the visits of both profiles. -/
def countedCandidate (channelId : Nat) (interval : ChannelInterval) (visits : Nat) : HTCandidate :=
  ⟨channelId, interval.minVisits - visits, visits,
    if interval.minVisits - visits = 0 then interval.weight else 0⟩

/-- The candidates of a channel, where `pair` makes one of those of both profiles. -/
def mergedOf (pair : ChannelInterval → HTCandidate → HTCandidate → HTCandidate)
    (intervals : List ChannelInterval) (base add : List HTCandidate) : List HTCandidate :=
  if base = [] then add
  else if add = [] then base
  else (intervals.zip (base.zip add)).map fun counted => pair counted.1 counted.2.1 counted.2.2

/-- The merged candidates count the visits of both profiles. -/
structure CountsBoth (channels : ChannelsHashMap) (base add merged : List HTCandidate) : Prop where
  sorted : ByChannel merged
  unknown : ∀ channelId, channels channelId = none → candidatesOf channelId merged = []
  known : ∀ channelId pack, channels channelId = some pack →
    candidatesOf channelId merged = mergedOf
      (fun interval base add => countedCandidate channelId interval (base.visits + add.visits))
      pack.todayLongIntervals.intervals (candidatesOf channelId base) (candidatesOf channelId add)

/-- The counts of an interval fit the integers they are computed and kept in. -/
def ChannelInterval.FitsCounts (interval : ChannelInterval) (base add : Nat) : Prop :=
  base + add < 4294967296 ∧ interval.minVisits - (base + add) < 2147483648 ∧
    min base interval.minVisits + min add interval.minVisits - interval.minVisits ≤ 2147483648 ∧
    (interval.minVisits ≤ base + add → interval.weight < 4294967296)

/-! ## One interval -/

/-- The visits still needed come out right as long as they fit a signed integer. -/
theorem pairLack_iff {v w m : Nat} (fits : v + w < 4294967296) :
    (max (asInt (((m - v : Nat) : Int) + ((m - w : Nat) : Int) - (m : Int))) 0).toNat =
        m - (v + w) ↔
      m - (v + w) < 2147483648 ∧ min v m + min w m - m ≤ 2147483648 := by
  by_cases lacking : v + w < m
  · have sum : ((m - v : Nat) : Int) + ((m - w : Nat) : Int) - (m : Int) = (m - (v + w) : Nat) := by
      omega
    have close : min v m + min w m - m = 0 := by omega
    rw [sum, close]
    generalize m - (v + w) = d
    simp only [asInt]
    split <;> omega
  · have sum : ((m - v : Nat) : Int) + ((m - w : Nat) : Int) - (m : Int) =
        -((min v m + min w m - m : Nat) : Int) := by omega
    have bound : min v m + min w m - m < 4294967296 := by omega
    have none_lacking : m - (v + w) = 0 := by omega
    rw [sum, none_lacking]
    generalize min v m + min w m - m = o at bound
    simp only [asInt]
    split <;> omega

theorem pairCandidate_iff {base add : HTCandidate}
    (baseLack : base.reqVisits = interval.minVisits - base.visits)
    (addLack : add.reqVisits = interval.minVisits - add.visits) :
    pairCandidate interval base add =
        countedCandidate add.channelId interval (base.visits + add.visits) ↔
      interval.FitsCounts base.visits add.visits := by
  simp only [pairCandidate, countedCandidate, HTCandidate.mk.injEq, true_and, baseLack, addLack,
    ChannelInterval.FitsCounts]
  constructor
  · rintro ⟨lack, visits, weight⟩
    have fits : base.visits + add.visits < 4294967296 := uint_eq_iff.1 visits
    obtain ⟨few, close⟩ := (pairLack_iff fits).1 lack
    refine ⟨fits, few, close, fun enough => ?_⟩
    have none_lacking : interval.minVisits - (base.visits + add.visits) = 0 := by omega
    rw [lack, if_pos none_lacking, if_pos none_lacking] at weight
    exact uint_eq_iff.1 weight
  · rintro ⟨fits, few, close, weight⟩
    have lack := (pairLack_iff fits).2 ⟨few, close⟩
    refine ⟨lack, uint_natCast fits, ?_⟩
    rw [lack]
    split
    · exact uint_natCast (weight (by omega))
    · rfl

section Loop
variable {channels : ChannelsHashMap} {channelId : Nat} {base add : List HTCandidate}

theorem candidatesOf_cons (channelId : Nat) (candidate : HTCandidate)
    (candidates : List HTCandidate) :
    candidatesOf channelId (candidate :: candidates) =
      if candidate.channelId = channelId then candidate :: candidatesOf channelId candidates
      else candidatesOf channelId candidates := by
  simp [candidatesOf, List.filter_cons]

variable {candidates : List HTCandidate} {tliCount prevChannelId : Nat}
  {intervals : List ChannelInterval}

theorem candidatesOf_eq_nil (above : ∀ candidate ∈ candidates, channelId < candidate.channelId) :
    candidatesOf channelId candidates = [] := by
  rw [candidatesOf, List.filter_eq_nil_iff]
  intro candidate member
  have := above candidate member
  simp
  omega

theorem byChannel_head {candidate : HTCandidate} (sorted : ByChannel (candidate :: candidates)) :
    ∀ other ∈ candidate :: candidates, candidate.channelId ≤ other.channelId := by
  intro other member
  rcases List.mem_cons.1 member with rfl | later
  · exact Nat.le_refl _
  · exact (List.pairwise_cons.1 sorted).1 other later

/-- The interval that the next pair of a channel is taken for. -/
def nextInterval (base : List HTCandidate) (tliCount prevChannelId channelId : Nat) : Nat :=
  if base.head?.any (fun candidate => decide (candidate.channelId = channelId)) ∧
    prevChannelId = channelId then tliCount else 0

/-- The pairs of a channel that are left are those of the intervals left. -/
def Aligned (channels : ChannelsHashMap) (base add : List HTCandidate)
    (tliCount prevChannelId : Nat) : Prop :=
  ∀ channelId pack, channels channelId = some pack → candidatesOf channelId base ≠ [] →
    candidatesOf channelId add ≠ [] →
    let left := pack.todayLongIntervals.intervals.drop
      (nextInterval base tliCount prevChannelId channelId)
    OfIntervals left (candidatesOf channelId base) ∧ OfIntervals left (candidatesOf channelId add)

/-- What is left to be put out for a channel. -/
def leftOf (channels : ChannelsHashMap) (base add : List HTCandidate)
    (tliCount prevChannelId channelId : Nat) : List HTCandidate :=
  match channels channelId with
  | none => []
  | some pack => mergedOf pairCandidate (pack.todayLongIntervals.intervals.drop
      (nextInterval base tliCount prevChannelId channelId))
      (candidatesOf channelId base) (candidatesOf channelId add)

theorem leftOf_none (unknown : channels channelId = none) :
    leftOf channels base add tliCount prevChannelId channelId = [] := by
  rw [leftOf, unknown]

theorem leftOf_some (found : channels channelId = some pack) :
    leftOf channels base add tliCount prevChannelId channelId =
      mergedOf pairCandidate (pack.todayLongIntervals.intervals.drop
        (nextInterval base tliCount prevChannelId channelId))
        (candidatesOf channelId base) (candidatesOf channelId add) := by
  rw [leftOf, found]

theorem candidatesOf_known (candidates : List HTCandidate) :
    candidatesOf channelId (candidates.filter (isKnown channels)) =
      match channels channelId with
      | none => []
      | some _ => candidatesOf channelId candidates := by
  induction candidates with
  | nil => cases channels channelId <;> rfl
  | cons candidate candidates ih =>
    rw [List.filter_cons, candidatesOf_cons]
    by_cases own : candidate.channelId = channelId
    · subst own
      cases found : channels candidate.channelId <;> simp_all [isKnown, candidatesOf_cons]
    · split <;> simp_all [candidatesOf_cons]

section
variable (pair : ChannelInterval → HTCandidate → HTCandidate → HTCandidate)

theorem mergedOf_nil (intervals : List ChannelInterval) :
    mergedOf pair intervals base [] = base := by
  rw [mergedOf]
  split
  · next none_there => exact none_there.symm
  · rfl

theorem nil_mergedOf (intervals : List ChannelInterval) :
    mergedOf pair intervals [] add = add := rfl

end

theorem ofIntervals_nil (baseOf : OfIntervals intervals []) (addOf : OfIntervals intervals add) :
    add = [] := by
  cases baseOf
  cases addOf
  rfl

theorem mergedOf_pairs (pair : ChannelInterval → HTCandidate → HTCandidate → HTCandidate)
    (baseOf : OfIntervals intervals base) (addOf : OfIntervals intervals add) :
    mergedOf pair intervals base add =
      (intervals.zip (base.zip add)).map fun counted => pair counted.1 counted.2.1 counted.2.2 := by
  rw [mergedOf]
  cases baseOf with
  | nil =>
    cases addOf
    rfl
  | cons _ _ =>
    cases addOf
    rfl

section Step
variable {first : HTCandidate} {tliCount prevChannelId : Nat}

theorem nextInterval_head :
    nextInterval (first :: base) tliCount prevChannelId first.channelId =
      countAt first tliCount prevChannelId := by
  simp [nextInterval, countAt]

theorem nextInterval_other (other : first.channelId ≠ channelId) :
    nextInterval (first :: base) tliCount prevChannelId channelId = 0 := by
  simp [nextInterval, other]

theorem nextInterval_prev (other : first.channelId ≠ channelId) :
    nextInterval base tliCount first.channelId channelId = 0 := by
  simp [nextInterval, other]

theorem nextInterval_same :
    nextInterval (first :: base) (countAt first tliCount prevChannelId) first.channelId channelId =
      nextInterval (first :: base) tliCount prevChannelId channelId := by
  by_cases own : first.channelId = channelId
  · subst own
    rw [nextInterval_head, nextInterval_head]
    simp [countAt]
  · rw [nextInterval_other own, nextInterval_other own]

theorem nextInterval_next (more : candidatesOf first.channelId base ≠ [])
    (sorted : ByChannel (first :: base)) :
    nextInterval base tliCount first.channelId first.channelId = tliCount := by
  cases base with
  | nil => exact absurd rfl more
  | cons next base =>
    have own : next.channelId = first.channelId := by
      by_contra other
      apply more
      apply candidatesOf_eq_nil
      intro candidate member
      have le := (List.pairwise_cons.1 sorted).1 next List.mem_cons_self
      have := byChannel_head (List.pairwise_cons.1 sorted).2 candidate member
      omega
    simp [nextInterval, own]

variable {second : HTCandidate} {bases adds : List HTCandidate}
  (aligned : Aligned channels (first :: bases) (second :: adds) tliCount prevChannelId)
include aligned

/-- The pairs stay aligned when a candidate of the first profile is passed. -/
theorem aligned_base (sortedAdd : ByChannel (second :: adds))
    (before : first.channelId < second.channelId) :
    Aligned channels bases (second :: adds) (countAt first tliCount prevChannelId)
      first.channelId := by
  intro channelId pack found some_base some_add
  by_cases own : first.channelId = channelId
  · subst own
    refine absurd (candidatesOf_eq_nil fun candidate member => ?_) some_add
    exact Nat.lt_of_lt_of_le before (byChannel_head sortedAdd candidate member)
  · have same := candidatesOf_cons channelId first bases
    rw [if_neg own] at same
    have := aligned channelId pack found (same ▸ some_base) some_add
    rw [nextInterval_other own, same] at this
    rw [nextInterval_prev own]
    exact this

theorem aligned_add (before : second.channelId < first.channelId)
    (sortedBase : ByChannel (first :: bases)) :
    Aligned channels (first :: bases) adds (countAt first tliCount prevChannelId)
      first.channelId := by
  intro channelId pack found some_base some_add
  have other : second.channelId ≠ channelId := by
    rintro rfl
    refine some_base (candidatesOf_eq_nil fun candidate member => ?_)
    exact Nat.lt_of_lt_of_le before (byChannel_head sortedBase candidate member)
  have same := candidatesOf_cons channelId second adds
  rw [if_neg other] at same
  have := aligned channelId pack found some_base (same ▸ some_add)
  rw [same] at this
  rw [nextInterval_same]
  exact this

theorem aligned_pair (own : first.channelId = second.channelId)
    (found : channels second.channelId = some pack) :
    ∃ interval, pack.todayLongIntervals.intervals[countAt first tliCount prevChannelId]? =
        some interval ∧
      OfIntervals (interval :: pack.todayLongIntervals.intervals.drop
        (countAt first tliCount prevChannelId + 1))
        (first :: candidatesOf second.channelId bases) ∧
      OfIntervals (interval :: pack.todayLongIntervals.intervals.drop
        (countAt first tliCount prevChannelId + 1))
        (second :: candidatesOf second.channelId adds) := by
  have baseOf := candidatesOf_cons second.channelId first bases
  have addOf := candidatesOf_cons second.channelId second adds
  rw [if_pos own] at baseOf
  rw [if_pos rfl] at addOf
  have both := aligned second.channelId pack found (by simp [baseOf]) (by simp [addOf])
  rw [baseOf, addOf, ← own, nextInterval_head, own] at both
  generalize countAt first tliCount prevChannelId = count at both ⊢
  cases at_count : pack.todayLongIntervals.intervals[count]? with
  | none =>
    rw [List.drop_eq_nil_of_le (List.getElem?_eq_none_iff.1 at_count)] at both
    cases both.1
  | some interval =>
    obtain ⟨inside, rfl⟩ := List.getElem?_eq_some_iff.1 at_count
    rw [List.drop_eq_getElem_cons inside] at both
    exact ⟨_, rfl, both⟩

theorem aligned_both (own : first.channelId = second.channelId)
    (sortedBase : ByChannel (first :: bases)) :
    Aligned channels bases adds
      (if (channels second.channelId).isSome then countAt first tliCount prevChannelId + 1
        else countAt first tliCount prevChannelId) first.channelId := by
  intro channelId pack found some_base some_add
  by_cases here : first.channelId = channelId
  · subst here
    rw [own] at found
    obtain ⟨interval, -, baseLeft, addLeft⟩ := aligned_pair aligned own found
    rw [nextInterval_next some_base sortedBase, found, Option.isSome_some, if_pos rfl, own]
    cases baseLeft with
    | cons _ baseLeft =>
      cases addLeft with
      | cons _ addLeft => exact ⟨baseLeft, addLeft⟩
  · have baseOf := candidatesOf_cons channelId first bases
    have addOf := candidatesOf_cons channelId second adds
    rw [if_neg here] at baseOf
    rw [if_neg (own ▸ here)] at addOf
    have := aligned channelId pack found (baseOf ▸ some_base) (addOf ▸ some_add)
    rw [nextInterval_other here, baseOf, addOf] at this
    rw [nextInterval_prev here]
    exact this

omit aligned in
theorem leftOf_base (sortedAdd : ByChannel (second :: adds))
    (before : first.channelId < second.channelId) :
    leftOf channels (first :: bases) (second :: adds) tliCount prevChannelId channelId =
      let rest := leftOf channels bases (second :: adds) (countAt first tliCount prevChannelId)
        first.channelId channelId
      if first.channelId = channelId ∧ isKnown channels first then first :: rest else rest := by
  by_cases own : first.channelId = channelId
  · subst own
    have none_added : candidatesOf first.channelId (second :: adds) = [] :=
      candidatesOf_eq_nil fun candidate member =>
        Nat.lt_of_lt_of_le before (byChannel_head sortedAdd candidate member)
    obtain unknown | ⟨pack, found⟩ := Option.eq_none_or_eq_some (channels first.channelId)
    · simp [leftOf_none unknown, isKnown, unknown]
    · simp [leftOf_some found, isKnown, found, none_added, mergedOf_nil, candidatesOf_cons]
  · simp [leftOf, own, nextInterval_other, nextInterval_prev, candidatesOf_cons]

omit aligned in
theorem leftOf_add (sortedBase : ByChannel (first :: bases))
    (before : second.channelId < first.channelId) :
    leftOf channels (first :: bases) (second :: adds) tliCount prevChannelId channelId =
      let rest := leftOf channels (first :: bases) adds (countAt first tliCount prevChannelId)
        first.channelId channelId
      if second.channelId = channelId ∧ isKnown channels second then second :: rest else rest := by
  by_cases own : second.channelId = channelId
  · subst own
    have none_based : candidatesOf second.channelId (first :: bases) = [] :=
      candidatesOf_eq_nil fun candidate member =>
        Nat.lt_of_lt_of_le before (byChannel_head sortedBase candidate member)
    obtain unknown | ⟨pack, found⟩ := Option.eq_none_or_eq_some (channels second.channelId)
    · simp [leftOf_none unknown, isKnown, unknown]
    · have added := candidatesOf_cons second.channelId second adds
      rw [if_pos rfl] at added
      simp only [leftOf_some found, isKnown, found, none_based, nil_mergedOf, added,
        Option.isSome_some, and_self, if_true]
  · simp [leftOf, own, nextInterval_same, candidatesOf_cons]

omit aligned in
theorem leftOf_unknown (own : first.channelId = second.channelId)
    (unknown : channels second.channelId = none) :
    leftOf channels (first :: bases) (second :: adds) tliCount prevChannelId channelId =
      leftOf channels bases adds (countAt first tliCount prevChannelId) first.channelId
        channelId := by
  by_cases here : first.channelId = channelId
  · rw [← here, leftOf, leftOf, own, unknown]
  · have apart : second.channelId ≠ channelId := own ▸ here
    simp [leftOf, here, apart, nextInterval_other, nextInterval_prev, candidatesOf_cons]

theorem leftOf_pair (own : first.channelId = second.channelId)
    (found : channels second.channelId = some pack) (sortedBase : ByChannel (first :: bases))
    (counted : pack.todayLongIntervals.intervals[countAt first tliCount prevChannelId]? =
      some interval) :
    leftOf channels (first :: bases) (second :: adds) tliCount prevChannelId channelId =
      let rest := leftOf channels bases adds (countAt first tliCount prevChannelId + 1)
        first.channelId channelId
      if second.channelId = channelId then pairCandidate interval first second :: rest
      else rest := by
  by_cases here : second.channelId = channelId
  · subst here
    obtain ⟨interval', counted', baseLeft, addLeft⟩ := aligned_pair aligned own found
    obtain rfl := Option.some.inj (counted.symm.trans counted')
    obtain ⟨inside, same⟩ := List.getElem?_eq_some_iff.1 counted
    have start : nextInterval (first :: bases) tliCount prevChannelId second.channelId =
        countAt first tliCount prevChannelId := own ▸ nextInterval_head
    simp only [leftOf_some found, start, List.drop_eq_getElem_cons inside, same, candidatesOf_cons,
      if_pos own, if_true, mergedOf_pairs pairCandidate baseLeft addLeft]
    cases baseLeft with
    | cons _ baseLeft =>
      cases addLeft with
      | cons _ addLeft =>
        rw [List.zip_cons_cons, List.zip_cons_cons, List.map_cons]
        congr 1
        by_cases more : candidatesOf second.channelId bases = []
        · rw [more] at baseLeft ⊢
          rw [ofIntervals_nil baseLeft addLeft]
          simp [nil_mergedOf]
        · rw [← own] at more baseLeft addLeft ⊢
          rw [nextInterval_next more sortedBase, mergedOf_pairs pairCandidate baseLeft addLeft]
  · have apart : first.channelId ≠ channelId := own ▸ here
    simp [leftOf, here, apart, nextInterval_other, nextInterval_prev, candidatesOf_cons]

end Step

theorem candidatesOf_mergeHtcFrom (sortedBase : ByChannel base) (sortedAdd : ByChannel add)
    (aligned : Aligned channels base add tliCount prevChannelId) :
    candidatesOf channelId (mergeHtcFrom channels base add tliCount prevChannelId) =
      leftOf channels base add tliCount prevChannelId channelId := by
  fun_induction mergeHtcFrom channels base add tliCount prevChannelId with
  | case1 add tliCount prevChannelId =>
    rw [candidatesOf_known]
    obtain unknown | ⟨pack, found⟩ := Option.eq_none_or_eq_some (channels channelId)
    · rw [leftOf_none unknown, unknown]
    · rw [leftOf_some found, found]
      rfl
  | case2 base tliCount prevChannelId _ =>
    rw [candidatesOf_known]
    obtain unknown | ⟨pack, found⟩ := Option.eq_none_or_eq_some (channels channelId)
    · rw [leftOf_none unknown, unknown]
    · rw [leftOf_some found, found]
      exact (mergedOf_nil _ _).symm
  | case3 first bases second adds tliCount prevChannelId before rest known ih =>
    rw [leftOf_base sortedAdd before, candidatesOf_cons,
      ih (List.pairwise_cons.1 sortedBase).2 sortedAdd (aligned_base aligned sortedAdd before)]
    simp only [known, and_true]
  | case4 first bases second adds tliCount prevChannelId before rest unknown ih =>
    rw [leftOf_base sortedAdd before,
      ih (List.pairwise_cons.1 sortedBase).2 sortedAdd (aligned_base aligned sortedAdd before)]
    simp [unknown]
  | case5 first bases second adds tliCount prevChannelId _ before rest known ih =>
    rw [leftOf_add sortedBase before, candidatesOf_cons,
      ih sortedBase (List.pairwise_cons.1 sortedAdd).2 (aligned_add aligned before sortedBase)]
    simp only [known, and_true]
  | case6 first bases second adds tliCount prevChannelId _ before rest unknown ih =>
    rw [leftOf_add sortedBase before,
      ih sortedBase (List.pairwise_cons.1 sortedAdd).2 (aligned_add aligned before sortedBase)]
    simp [unknown]
  | case7 first bases second adds tliCount prevChannelId notBefore notAfter unknown ih =>
    have own : first.channelId = second.channelId := by omega
    have next := aligned_both aligned own sortedBase
    rw [unknown] at next
    rw [leftOf_unknown own unknown]
    exact ih (List.pairwise_cons.1 sortedBase).2 (List.pairwise_cons.1 sortedAdd).2 next
  | case8 first bases second adds tliCount prevChannelId notBefore notAfter pack found rest past ih =>
    obtain ⟨_, counted, -⟩ := aligned_pair aligned (by omega) found
    cases past.symm.trans counted
  | case9 first bases second adds tliCount prevChannelId notBefore notAfter pack found rest interval
      counted ih =>
    have own : first.channelId = second.channelId := by omega
    have next := aligned_both aligned own sortedBase
    rw [found, Option.isSome_some, if_pos rfl] at next
    rw [leftOf_pair aligned own found sortedBase counted, candidatesOf_cons,
      ih (List.pairwise_cons.1 sortedBase).2 (List.pairwise_cons.1 sortedAdd).2 next]
    rfl

theorem forall_mergeHtcFrom {P : Nat → Prop} (ofBase : ∀ candidate ∈ base, P candidate.channelId)
    (ofAdd : ∀ candidate ∈ add, P candidate.channelId) :
    ∀ candidate ∈ mergeHtcFrom channels base add tliCount prevChannelId,
      P candidate.channelId := by
  fun_induction mergeHtcFrom channels base add tliCount prevChannelId with
  | case1 add _ _ => exact fun candidate member => ofAdd candidate (List.mem_of_mem_filter member)
  | case2 base _ _ _ =>
    exact fun candidate member => ofBase candidate (List.mem_of_mem_filter member)
  | case3 first bases second adds _ _ _ rest _ ih =>
    rw [List.forall_mem_cons] at ofBase
    exact List.forall_mem_cons.2 ⟨ofBase.1, ih ofBase.2 ofAdd⟩
  | case4 first bases second adds _ _ _ rest _ ih =>
    exact ih (List.forall_mem_cons.1 ofBase).2 ofAdd
  | case5 first bases second adds _ _ _ _ rest _ ih =>
    rw [List.forall_mem_cons] at ofAdd
    exact List.forall_mem_cons.2 ⟨ofAdd.1, ih ofBase ofAdd.2⟩
  | case6 first bases second adds _ _ _ _ rest _ ih =>
    exact ih ofBase (List.forall_mem_cons.1 ofAdd).2
  | case7 first bases second adds _ _ _ _ _ ih =>
    exact ih (List.forall_mem_cons.1 ofBase).2 (List.forall_mem_cons.1 ofAdd).2
  | case8 first bases second adds _ _ _ _ _ _ rest _ ih =>
    exact ih (List.forall_mem_cons.1 ofBase).2 (List.forall_mem_cons.1 ofAdd).2
  | case9 first bases second adds _ _ _ _ _ _ rest interval _ ih =>
    rw [List.forall_mem_cons] at ofAdd
    exact List.forall_mem_cons.2 ⟨ofAdd.1, ih (List.forall_mem_cons.1 ofBase).2 ofAdd.2⟩

theorem byChannel_mergeHtcFrom (sortedBase : ByChannel base) (sortedAdd : ByChannel add) :
    ByChannel (mergeHtcFrom channels base add tliCount prevChannelId) := by
  have above {first : HTCandidate} {others : List HTCandidate} (sorted : ByChannel others)
      {channelId : Nat} (le : channelId ≤ first.channelId) (head : others.head? = some first) :
      ∀ candidate ∈ others, channelId ≤ candidate.channelId := by
    intro candidate member
    cases others with
    | nil => cases member
    | cons _ others =>
      cases head
      exact le.trans (byChannel_head sorted candidate member)
  fun_induction mergeHtcFrom channels base add tliCount prevChannelId with
  | case1 add _ _ => exact sortedAdd.filter _
  | case2 base _ _ _ => exact sortedBase.filter _
  | case3 first bases second adds _ _ before rest _ ih =>
    obtain ⟨head, sortedBase⟩ := List.pairwise_cons.1 sortedBase
    exact List.pairwise_cons.2 ⟨forall_mergeHtcFrom head (above sortedAdd before.le rfl),
      ih sortedBase sortedAdd⟩
  | case4 first bases second adds _ _ _ rest _ ih =>
    exact ih (List.pairwise_cons.1 sortedBase).2 sortedAdd
  | case5 first bases second adds _ _ _ before rest _ ih =>
    obtain ⟨head, sortedAdd⟩ := List.pairwise_cons.1 sortedAdd
    exact List.pairwise_cons.2 ⟨forall_mergeHtcFrom (above sortedBase before.le rfl) head,
      ih sortedBase sortedAdd⟩
  | case6 first bases second adds _ _ _ _ rest _ ih =>
    exact ih sortedBase (List.pairwise_cons.1 sortedAdd).2
  | case7 first bases second adds _ _ _ _ _ ih =>
    exact ih (List.pairwise_cons.1 sortedBase).2 (List.pairwise_cons.1 sortedAdd).2
  | case8 first bases second adds _ _ _ _ _ _ rest _ ih =>
    exact ih (List.pairwise_cons.1 sortedBase).2 (List.pairwise_cons.1 sortedAdd).2
  | case9 first bases second adds _ _ notBefore notAfter _ _ rest interval _ ih =>
    have own : first.channelId = second.channelId := by omega
    obtain ⟨headBase, sortedBase⟩ := List.pairwise_cons.1 sortedBase
    obtain ⟨headAdd, sortedAdd⟩ := List.pairwise_cons.1 sortedAdd
    rw [own] at headBase
    exact List.pairwise_cons.2 ⟨forall_mergeHtcFrom headBase headAdd, ih sortedBase sortedAdd⟩

end Loop

section Profiles
variable {channels : ChannelsHashMap} {base add : List HTCandidate}

theorem candidatesOf_mergeHtc (baseOf : IsCandidates channels base)
    (addOf : IsCandidates channels add) (channelId : Nat) :
    candidatesOf channelId (mergeHtc channels base add) = leftOf channels base add 0 0 channelId := by
  apply candidatesOf_mergeHtcFrom baseOf.sorted addOf.sorted
  intro channelId pack found some_base some_add
  have start : nextInterval base 0 0 channelId = 0 := by
    rw [nextInterval, ite_self]
  rw [start]
  exact ⟨(baseOf.known channelId pack found).resolve_left some_base,
    (addOf.known channelId pack found).resolve_left some_add⟩

/-- A pair of candidates of an interval of a channel. -/
def pairsOf (channels : ChannelsHashMap) (base add : List HTCandidate) (channelId : Nat) :
    List (ChannelInterval × HTCandidate × HTCandidate) :=
  match channels channelId with
  | none => []
  | some pack => pack.todayLongIntervals.intervals.zip
      ((candidatesOf channelId base).zip (candidatesOf channelId add))

theorem pair_spec {intervals : List ChannelInterval} (baseOf : OfIntervals intervals base)
    (addOf : OfIntervals intervals add) :
    ∀ pair ∈ intervals.zip (base.zip add), pair.2.2 ∈ add ∧
      pair.2.1.reqVisits = pair.1.minVisits - pair.2.1.visits ∧
      pair.2.2.reqVisits = pair.1.minVisits - pair.2.2.visits := by
  induction baseOf generalizing add with
  | nil => simp
  | cons baseLack _ ih =>
    cases addOf with
    | cons addLack addOf =>
      intro pair member
      rw [List.zip_cons_cons, List.zip_cons_cons, List.mem_cons] at member
      rcases member with rfl | member
      · exact ⟨List.mem_cons_self, baseLack, addLack⟩
      · obtain ⟨inside, lacks⟩ := ih addOf pair member
        exact ⟨List.mem_cons_of_mem _ inside, lacks⟩

theorem mergedOf_iff {channelId : Nat} (found : channels channelId = some pack)
    (baseOf : IsCandidates channels base) (addOf : IsCandidates channels add) :
    mergedOf pairCandidate pack.todayLongIntervals.intervals (candidatesOf channelId base)
        (candidatesOf channelId add) =
      mergedOf (fun interval base add =>
          countedCandidate channelId interval (base.visits + add.visits))
        pack.todayLongIntervals.intervals (candidatesOf channelId base)
        (candidatesOf channelId add) ↔
      ∀ pair ∈ pairsOf channels base add channelId,
        pair.1.FitsCounts pair.2.1.visits pair.2.2.visits := by
  simp only [pairsOf, found]
  obtain none_based | baseLeft := baseOf.known channelId pack found
  · simp [none_based, nil_mergedOf]
  obtain none_added | addLeft := addOf.known channelId pack found
  · simp [none_added, mergedOf_nil]
  rw [mergedOf_pairs _ baseLeft addLeft, mergedOf_pairs _ baseLeft addLeft, List.map_inj_left]
  have spec := pair_spec baseLeft addLeft
  have each (pair : ChannelInterval × HTCandidate × HTCandidate)
      (member : pair ∈ pack.todayLongIntervals.intervals.zip
        ((candidatesOf channelId base).zip (candidatesOf channelId add))) :
      pairCandidate pair.1 pair.2.1 pair.2.2 =
          countedCandidate channelId pair.1 (pair.2.1.visits + pair.2.2.visits) ↔
        pair.1.FitsCounts pair.2.1.visits pair.2.2.visits := by
    obtain ⟨inside, baseLack, addLack⟩ := spec pair member
    have own : pair.2.2.channelId = channelId := by
      simpa using (List.mem_filter.1 inside).2
    rw [← own]
    exact pairCandidate_iff baseLack addLack
  constructor
  · intro same pair member
    exact (each pair member).1 (same pair member)
  · intro fits pair member
    exact (each pair member).2 (fits pair member)

/-- The merge counts the visits of both profiles exactly if the counts of every interval fit. -/
theorem mergeHtc_iff (baseOf : IsCandidates channels base) (addOf : IsCandidates channels add) :
    CountsBoth channels base add (mergeHtc channels base add) ↔
      ∀ channelId, ∀ pair ∈ pairsOf channels base add channelId,
        pair.1.FitsCounts pair.2.1.visits pair.2.2.visits := by
  have start (channelId : Nat) : nextInterval base 0 0 channelId = 0 := by
    rw [nextInterval, ite_self]
  constructor
  · intro counts channelId
    obtain unknown | ⟨pack, found⟩ := Option.eq_none_or_eq_some (channels channelId)
    · simp [pairsOf, unknown]
    · have merged := counts.known channelId pack found
      rw [candidatesOf_mergeHtc baseOf addOf, leftOf_some found, start, List.drop_zero] at merged
      exact (mergedOf_iff found baseOf addOf).1 merged
  · intro fits
    constructor
    · exact byChannel_mergeHtcFrom baseOf.sorted addOf.sorted
    · intro channelId unknown
      rw [candidatesOf_mergeHtc baseOf addOf, leftOf_none unknown]
    · intro channelId pack found
      rw [candidatesOf_mergeHtc baseOf addOf, leftOf_some found, start, List.drop_zero]
      exact (mergedOf_iff found baseOf addOf).2 (fits channelId)

end Profiles

/-! ## One visit on each side -/

/-- Channel 1 needs some visits of a day. -/
def dayChannels (minVisits : Nat) : ChannelsHashMap := dayDictionary minVisits .page

def dayCandidate (minVisits visits : Nat) : HTCandidate := ⟨1, minVisits - visits, visits, 0⟩

theorem dayCandidate_isCandidates (minVisits visits : Nat) :
    IsCandidates (dayChannels minVisits) [dayCandidate minVisits visits] := by
  constructor
  · exact List.pairwise_singleton _ _
  · intro channelId pack found
    by_cases own : channelId = 1
    · subst own
      cases found
      exact .inr (.cons rfl .nil)
    · exact .inl (by simp [candidatesOf, dayCandidate, Ne.symm own])

/-- Of three visits one is still needed. -/
theorem mergeHtc_three_visits :
    CountsBoth (dayChannels 3) [dayCandidate 3 1] [dayCandidate 3 1]
      (mergeHtc (dayChannels 3) [dayCandidate 3 1] [dayCandidate 3 1]) := by
  apply (mergeHtc_iff (dayCandidate_isCandidates 3 1) (dayCandidate_isCandidates 3 1)).2
  intro channelId pair member
  by_cases own : channelId = 1
  · subst own
    obtain rfl : pair = (dayVisits 3, dayCandidate 3 1, dayCandidate 3 1) :=
      List.mem_singleton.1 member
    unfold ChannelInterval.FitsCounts
    decide
  · have none_there : candidatesOf channelId [dayCandidate 3 1] = [] := by
      simp [candidatesOf, dayCandidate, Ne.symm own]
    simp only [pairsOf, none_there, List.zip_nil_right] at member
    split at member <;> cases member

/-- So many visits are needed that those lacking do not fit a signed integer: none is left. -/
theorem mergeHtc_many_visits :
    IsCandidates (dayChannels 2147483650) [dayCandidate 2147483650 1] ∧
    ¬CountsBoth (dayChannels 2147483650) [dayCandidate 2147483650 1] [dayCandidate 2147483650 1]
      (mergeHtc (dayChannels 2147483650) [dayCandidate 2147483650 1]
        [dayCandidate 2147483650 1]) := by
  have candidates := dayCandidate_isCandidates 2147483650 1
  refine ⟨candidates, fun counts => ?_⟩
  have merged := counts.known 1 _ rfl
  rw [candidatesOf_mergeHtc candidates candidates] at merged
  revert merged
  decide +kernel

end AdServer.UserInfo
