import AdServer.Reach.ColoReachSteps

/-!
# Requests of a user

An earlier request of a new colocation moves the create times of the others twice.
-/

namespace AdServer.Reach

open AdServer.Lib

section Runs

variable {bits : BitAlgs} {machine : Machine} {household : Bool}

/-- The requests of a user: the time of a provider is at a fixed offset, the times and what
they are moved to are times of the profile, and the days of a colocation are near each other. -/
structure Ordinary (offset : Nat → Int) (requests : List Request) : Prop where
  isp : ∀ request ∈ requests, request.ispTime = request.time + offset request.coloId
  fits : ∀ request ∈ requests, 0 < request.time ∧ request.time < 2 ^ 32
  ispFits : ∀ request ∈ requests, ∀ other ∈ requests, 0 ≤ request.time + offset other.coloId ∧
    request.time + offset other.coloId < 2 ^ 32
  near : ∀ request ∈ requests, ∀ other ∈ requests, request.coloId = other.coloId →
    request.day ≤ other.day + 31 ∧ request.ispDay ≤ other.ispDay + 31

/-- A request of a new colocation is not the earliest one so far. -/
def NewInOrder : List Request → List Request → Prop
  | _, [] => True
  | before, request :: rest =>
    (before ≠ [] → request.coloId ∉ before.map Request.coloId →
      ∃ other ∈ before, other.time ≤ request.time) ∧
    NewInOrder (before ++ [request]) rest

/-- The create times are the earliest ones, and the reports are those of the transitions
under them. -/
structure NetsOut (offset : Nat → Int) (requests : List Request) (profile : Profile)
    (reported : Reported) : Prop where
  earliest : (∃ request ∈ requests, request.time = profile.createTime) ∧
    ∀ request ∈ requests, profile.createTime ≤ request.time
  entries : ∀ coloId, profile.ispColoCreateTime.find? coloId =
    if coloId ∈ requests.map Request.coloId then some (profile.createTime + offset coloId) else none
  gmt : ∀ createTime coloId dates, netUnder reported.gmt createTime coloId dates =
    if profile.createTime = createTime then
      (transitions (sortedDays (daysBy Request.day requests coloId)) dates : Int)
    else 0
  isp : ∀ createTime coloId dates, netUnder reported.isp createTime coloId dates =
    if createDayOf profile.ispColoCreateTime coloId = createTime then
      (transitions (sortedDays (daysBy Request.ispDay requests coloId)) dates : Int)
    else 0

structure Settled (offset : Nat → Int) (requests : List Request) (profile : Profile)
    (reported : Reported) : Prop where
  netsOut : NetsOut offset requests profile reported
  gmtKnown : ∀ coloId,
    Known profile.coloAppears coloId (sortedDays (daysBy Request.day requests coloId))
  ispKnown : ∀ coloId,
    Known profile.ispColoAppears coloId (sortedDays (daysBy Request.ispDay requests coloId))

variable {offset : Nat → Int} {before : List Request} {request : Request} {profile : Profile}
  {reported : Reported}

theorem transitions_unseen (day : Request → Nat) {requests : List Request} {coloId : Nat}
    (unseen : coloId ∉ requests.map Request.coloId) (dates : Int × Int) :
    transitions (sortedDays (daysBy day requests coloId)) dates = 0 := by
  rw [daysBy_unseen day unseen]
  rfl

/-- What a request comes to, once its create times are settled. -/
structure Moved (offset : Nat → Int) (before : List Request) (request : Request)
    (createTime : Int) (times : SortedMap Nat Int) (reported : Reported)
    (colocations : List IdAppearance) : Prop where
  earliest : (∃ other ∈ before ++ [request], other.time = createTime) ∧
    ∀ other ∈ before ++ [request], createTime ≤ other.time
  entries : ∀ coloId, times.find? coloId =
    if coloId ∈ (before ++ [request]).map Request.coloId then some (createTime + offset coloId) else none
  gmt : ∀ time coloId dates, netUnder reported.gmt time coloId dates +
      (if createTime = time then net colocations coloId dates else 0) =
    if createTime = time then
      (transitions (sortedDays (daysBy Request.day before coloId)) dates : Int)
    else 0
  isp : ∀ time coloId dates, netUnder reported.isp time coloId dates =
    if createDayOf times coloId = time then
      (transitions (sortedDays (daysBy Request.ispDay before coloId)) dates : Int)
    else 0

section
variable (ordinary : Ordinary offset (before ++ [request]))
include ordinary

theorem Ordinary.dates :
    roundToDay request.time = dayTime request.day ∧ roundToDay request.ispTime = dayTime request.ispDay ∧
      dayTime request.day < 2 ^ 32 ∧ dayTime request.ispDay < 2 ^ 32 := by
  have member : request ∈ before ++ [request] := by simp
  obtain ⟨some_time, fits⟩ := ordinary.fits request member
  obtain ⟨isp_nonneg, isp_fits⟩ := ordinary.ispFits request member request member
  rw [← ordinary.isp request member] at isp_nonneg isp_fits
  have gmt_le := dayTime_le some_time.le
  have isp_le := dayTime_le isp_nonneg
  exact ⟨roundToDay_eq some_time.le, roundToDay_eq isp_nonneg, gmt_le.trans_lt fits,
    isp_le.trans_lt isp_fits⟩

theorem Moved.save {createTime : Int} {times : SortedMap Nat Int} {earlier moved : Reported}
    {colocations : List IdAppearance} {gmtRecords ispRecords : Records} {save : Bool}
    (h : Moved offset before request createTime times
      ⟨earlier.gmt ++ moved.gmt, earlier.isp ++ moved.isp⟩ colocations)
    (gmtKnown : ∀ coloId, Known gmtRecords coloId (sortedDays (daysBy Request.day before coloId)))
    (ispKnown : ∀ coloId, Known ispRecords coloId (sortedDays (daysBy Request.ispDay before coloId)))
    (none : save = false → colocations = []) :
    ∃ profile more, saveAppearances machine household request save
        ⟨createTime, gmtRecords, ispRecords, times⟩ moved
        ((collectAppearance bits machine gmtRecords request.coloId (roundToDay request.time)).1,
          colocations ++
            (collectAppearance bits machine gmtRecords request.coloId (roundToDay request.time)).2)
        (collectAppearance bits machine ispRecords request.coloId (roundToDay request.ispTime)) =
          some (profile, more) ∧
      Settled offset (before ++ [request]) profile
        ⟨earlier.gmt ++ more.gmt, earlier.isp ++ more.isp⟩ := by
  obtain ⟨gmt_date, isp_date, gmt_fits, isp_fits⟩ := ordinary.dates
  have found := h.entries request.coloId
  rw [if_pos (by simp)] at found
  rw [gmt_date, isp_date]
  have near : ∀ other ∈ before, other.coloId = request.coloId →
      (request.day ≤ other.day + 31 ∧ other.day ≤ request.day + 31) ∧
        (request.ispDay ≤ other.ispDay + 31 ∧ other.ispDay ≤ request.ispDay + 31) := by
    intro other member same
    have inside : other ∈ before ++ [request] := List.mem_append_left _ member
    have own : request ∈ before ++ [request] := by simp
    obtain ⟨gmt_near, isp_near⟩ := ordinary.near request own other inside same.symm
    obtain ⟨gmt_near', isp_near'⟩ := ordinary.near other inside request own same
    exact ⟨⟨gmt_near, gmt_near'⟩, ⟨isp_near, isp_near'⟩⟩
  have gmt_step := fun coloId => @known_request bits machine Request.day before request gmtRecords gmtKnown
    (fun other member same => (near other member same).1) gmt_fits coloId
  have isp_step := fun coloId => @known_request bits machine Request.ispDay before request ispRecords
    ispKnown (fun other member same => (near other member same).2) isp_fits coloId
  obtain ⟨more, saved, gmt_net, isp_net⟩ := @saveAppearances_eq machine household request save
    ⟨createTime, gmtRecords, ispRecords, times⟩ moved
    ((collectAppearance bits machine gmtRecords request.coloId (dayTime request.day)).1, colocations ++
      (collectAppearance bits machine gmtRecords request.coloId (dayTime request.day)).2)
    (collectAppearance bits machine ispRecords request.coloId (dayTime request.ispDay)) _ found
    (fun not_saved => ⟨fun not_appeared => by rw [none not_saved, collectAppearance_none not_appeared]; rfl,
      fun not_appeared => collectAppearance_none not_appeared⟩)
  rw [gmt_date, isp_date] at saved
  refine ⟨_, more, saved, ⟨h.earliest, h.entries, ?_, ?_⟩, fun coloId => (gmt_step coloId).1,
    fun coloId => (isp_step coloId).1⟩
  · intro time coloId dates
    have settled := h.gmt time coloId dates
    dsimp only at settled ⊢
    rw [netUnder_append] at settled
    rw [netUnder_append, gmt_net, net_append, (gmt_step coloId).2 dates]
    split_ifs at settled ⊢
    · omega
    · omega
  · intro time coloId dates
    have settled := h.isp time coloId dates
    dsimp only at settled ⊢
    rw [netUnder_append] at settled
    rw [netUnder_append, isp_net, (isp_step coloId).2 dates]
    by_cases own : request.coloId = coloId
    · subst own
      have day : createDayOf times request.coloId = roundToDay (createTime + offset request.coloId) := by
        rw [createDayOf, found]
        rfl
      rw [day] at settled ⊢
      split_ifs at settled ⊢
      · omega
      · omega
    · have no_report : net (collectAppearance bits machine ispRecords request.coloId
          (dayTime request.ispDay)).2 coloId dates = 0 := by
        apply net_other
        intro report member
        rw [id_of_mem_collectAppearance member]
        exact own
      rw [no_report]
      split_ifs at settled ⊢ <;> omega

theorem Ordinary.time_fits :
    0 < request.time ∧ toUInt request.time = request.time ∧ toUInt request.ispTime = request.ispTime ∧
      0 ≤ request.ispTime ∧ request.ispTime = request.time + offset request.coloId := by
  have member : request ∈ before ++ [request] := by simp
  obtain ⟨some_time, fits⟩ := ordinary.fits request member
  obtain ⟨isp_nonneg, isp_fits⟩ := ordinary.ispFits request member request member
  have isp := ordinary.isp request member
  rw [← isp] at isp_nonneg isp_fits
  exact ⟨some_time, toUInt_of_fits some_time.le fits, toUInt_of_fits isp_nonneg isp_fits, isp_nonneg, isp⟩

end

theorem known_empty (coloId : Nat) : Known .empty coloId [] :=
  ⟨.nil, .inl ⟨rfl, SortedMap.find?_empty coloId⟩⟩

theorem processRequest_first (ordinary : Ordinary offset [request]) :
    ∃ profile more, processRequest bits machine household none request = some (profile, more) ∧
      Settled offset [request] profile more := by
  obtain ⟨some_time, same_time, same_isp, isp_nonneg, isp⟩ := @Ordinary.time_fits offset [] request ordinary
  have moved : Moved offset [] request request.time
      (updateIdTimeList .empty request.coloId request.time request.time request.ispTime)
      ⟨[] ++ [], [] ++ []⟩ [] := by
    refine ⟨⟨⟨request, by simp, rfl⟩, by simp⟩, fun coloId => ?_, fun time coloId dates => ?_,
      fun time coloId dates => ?_⟩
    · rw [find?_updateIdTimeList, SortedMap.find?_empty, SortedMap.find?_empty]
      simp only [List.nil_append, List.map_singleton, List.mem_singleton]
      by_cases own : coloId = request.coloId
      · subst own
        rw [if_pos rfl, if_pos rfl, if_neg (lt_irrefl _), calculateIspTime,
          show request.time + (request.ispTime - request.time) = request.ispTime by ring, same_isp, isp]
      · rw [if_neg own, if_neg own]
        rfl
    · simp [netUnder, net, daysBy, sortedDays, transitions, Neighbours.links]
    · simp [netUnder, daysBy, sortedDays, transitions, Neighbours.links]
  have saves := @Moved.save bits machine household offset [] request ordinary request.time _ ⟨[], []⟩
    ⟨[], []⟩ [] .empty .empty false moved known_empty known_empty (fun _ => rfl)
  unfold processRequest
  rw [same_time]
  exact saves

section
variable (h : Settled offset before profile reported)
include h

section
variable (ordinary : Ordinary offset (before ++ [request]))
include ordinary

theorem Settled.moved_fits {coloId : Nat}
    (known : coloId ∈ (before ++ [request]).map Request.coloId) :
    toUInt (profile.createTime + offset coloId) = profile.createTime + offset coloId := by
  obtain ⟨first, inside, same⟩ := h.netsOut.earliest.1
  obtain ⟨other, member, rfl⟩ := List.mem_map.mp known
  obtain ⟨nonneg, fits⟩ := ordinary.ispFits first (List.mem_append_left _ inside) other member
  rw [← same]
  exact toUInt_of_fits nonneg fits

/-- A new colocation takes its create time from that of the profile. -/
theorem Settled.find?_not_earlier (later : profile.createTime ≤ request.time) (coloId : Nat) :
    (if (profile.ispColoCreateTime.find? request.coloId).all (· = 0) then
      updateIdTimeList profile.ispColoCreateTime request.coloId profile.createTime request.time
        request.ispTime
    else profile.ispColoCreateTime).find? coloId =
      if coloId = request.coloId then some (profile.createTime + offset request.coloId)
      else profile.ispColoCreateTime.find? coloId := by
  obtain ⟨-, -, -, isp_nonneg, isp⟩ := ordinary.time_fits
  have own := h.netsOut.entries request.coloId
  by_cases known : request.coloId ∈ before.map Request.coloId
  · rw [if_pos known] at own
    by_cases zero : (profile.ispColoCreateTime.find? request.coloId).all (· = 0) = true
    · rw [if_pos zero, find?_updateIdTimeList, own]
      by_cases here : coloId = request.coloId
      · rw [if_pos here, if_pos here]
        dsimp only
        rw [if_neg (by omega)]
      · simp [here, not_lt.mpr later]
    · rw [if_neg zero]
      split_ifs with here
      · rw [here, own]
      · rfl
  · rw [if_neg known] at own
    have fits := @Settled.moved_fits offset before request profile reported h ordinary request.coloId (by simp)
    rw [if_pos (by rw [own]; rfl), find?_updateIdTimeList, own]
    by_cases here : coloId = request.coloId
    · rw [if_pos here, if_pos here]
      dsimp only
      rw [if_neg (by omega), calculateIspTime, isp]
      rw [show profile.createTime + (request.time + offset request.coloId - request.time) =
        profile.createTime + offset request.coloId by ring, fits]
    · simp [here, not_lt.mpr later]

theorem Settled.not_earlier (later : profile.createTime ≤ request.time) :
    resave bits machine household profile request =
        ⟨false, profile.createTime, profile.ispColoCreateTime, ⟨[], []⟩, []⟩ ∧
      Moved offset before request profile.createTime
        (if (profile.ispColoCreateTime.find? request.coloId).all (· = 0) then
          updateIdTimeList profile.ispColoCreateTime request.coloId profile.createTime request.time
            request.ispTime
        else profile.ispColoCreateTime)
        ⟨reported.gmt ++ [], reported.isp ++ []⟩ [] := by
  obtain ⟨-, -, -, -, isp⟩ := ordinary.time_fits
  have own := h.netsOut.entries request.coloId
  have find := h.find?_not_earlier ordinary later
  revert find
  generalize (if (profile.ispColoCreateTime.find? request.coloId).all (· = 0) then
    updateIdTimeList profile.ispColoCreateTime request.coloId profile.createTime request.time
      request.ispTime
    else profile.ispColoCreateTime) = times
  intro find
  constructor
  · have not_isp : (profile.ispColoCreateTime.find? request.coloId).any
        (fun oldIspTime => request.ispTime < oldIspTime) = false := by
      rw [own]
      split_ifs
      · simp only [Option.any_some, decide_eq_false_iff_not]
        omega
      · rfl
    have not_gmt : decide (request.time < profile.createTime) = false := by simpa using later
    unfold resave
    simp only [not_isp, not_gmt, Bool.false_eq_true, if_false]
  · refine ⟨⟨?_, fun other member => ?_⟩, fun coloId => ?_, fun time coloId dates => ?_,
      fun time coloId dates => ?_⟩
    · obtain ⟨first, inside, same⟩ := h.netsOut.earliest.1
      exact ⟨first, List.mem_append_left _ inside, same⟩
    · rcases List.mem_append.mp member with member | member
      · exact h.netsOut.earliest.2 other member
      · rw [List.mem_singleton.mp member]
        exact later
    · rw [find, h.netsOut.entries]
      by_cases here : coloId = request.coloId
      · simp [here]
      · simp [here]
    · simp [h.netsOut.gmt, net]
    · dsimp only
      rw [List.append_nil, h.netsOut.isp]
      by_cases known : coloId ∈ before.map Request.coloId
      · have same : createDayOf times coloId = createDayOf profile.ispColoCreateTime coloId := by
          unfold createDayOf
          rw [find]
          split_ifs with here
          · rw [h.netsOut.entries, if_pos known, here]
          · rfl
        rw [same]
      · rw [transitions_unseen _ known]
        simp

end

end

theorem Ordinary.days_near (ordinary : Ordinary offset (before ++ [request])) (coloId : Nat) :
    (∀ day ∈ sortedDays (daysBy Request.day before coloId),
      ∀ other ∈ sortedDays (daysBy Request.day before coloId), other ≤ day + 63) ∧
    ∀ day ∈ sortedDays (daysBy Request.ispDay before coloId),
      ∀ other ∈ sortedDays (daysBy Request.ispDay before coloId), other ≤ day + 63 := by
  have listed {f : Request → Nat} {day : Nat} (member : day ∈ sortedDays (daysBy f before coloId)) :
      ∃ r ∈ before ++ [request], r.coloId = coloId ∧ f r = day := by
    obtain ⟨r, hr, same⟩ := List.mem_map.mp (mem_sortedDays.mp member)
    obtain ⟨inside, own⟩ := List.mem_filter.mp hr
    exact ⟨r, List.mem_append_left _ inside, of_decide_eq_true own, same⟩
  constructor
  · intro day hday other hother
    obtain ⟨r, hr, own, rfl⟩ := listed hday
    obtain ⟨q, hq, own', rfl⟩ := listed hother
    have := (ordinary.near q hq r hr (own'.trans own.symm)).1
    omega
  · intro day hday other hother
    obtain ⟨r, hr, own, rfl⟩ := listed hday
    obtain ⟨q, hq, own', rfl⟩ := listed hother
    have := (ordinary.near q hq r hr (own'.trans own.symm)).2
    omega

/-- What was reported under the old create times is reverted, and reported under the new. -/
theorem Settled.earlier (h : Settled offset before profile reported)
    (ordinary : Ordinary offset (before ++ [request])) (known : request.coloId ∈ before.map Request.coloId)
    (earlier : request.time < profile.createTime) :
    (profile.ispColoCreateTime.find? request.coloId).all (· = 0) = false ∧
      let resaved := resave bits machine household profile request
      resaved.save = true ∧ resaved.createTime = request.time ∧
      Moved offset before request request.time resaved.ispColoCreateTime
        ⟨reported.gmt ++ resaved.reported.gmt, reported.isp ++ resaved.reported.isp⟩
        resaved.colocations := by
  obtain ⟨-, same_time, same_isp, isp_nonneg, isp⟩ := ordinary.time_fits
  have own := h.netsOut.entries request.coloId
  rw [if_pos known] at own
  obtain ⟨gmt_near, isp_near⟩ : (∀ coloId, _) ∧ (∀ coloId, _) :=
    ⟨fun coloId => (ordinary.days_near coloId).1, fun coloId => (ordinary.days_near coloId).2⟩
  have entries (coloId : Nat) : (updateIdTimeList profile.ispColoCreateTime request.coloId
      profile.createTime request.time request.ispTime).find? coloId =
        if coloId ∈ (before ++ [request]).map Request.coloId then some (request.time + offset coloId)
        else none := by
    have same_ids : coloId ∈ (before ++ [request]).map Request.coloId ↔
        coloId ∈ before.map Request.coloId := by
      rw [List.map_append, List.mem_append]
      constructor
      · rintro (member | member)
        · exact member
        · rw [List.mem_singleton.mp member]
          exact known
      · exact .inl
    rw [find?_updateIdTimeList, own]
    by_cases here : coloId = request.coloId
    · subst here
      rw [if_pos rfl, if_pos (same_ids.mpr known)]
      dsimp only
      rw [if_pos (by omega), same_isp, isp]
    · rw [if_neg here, h.netsOut.entries]
      by_cases listed : coloId ∈ before.map Request.coloId
      · obtain ⟨other, member, rfl⟩ := List.mem_map.mp listed
        obtain ⟨nonneg, fits⟩ := ordinary.ispFits request (by simp) other (List.mem_append_left _ member)
        rw [if_pos listed, if_pos (same_ids.mpr listed), Option.map_some, if_pos earlier, calculateIspTime,
          show request.time + (profile.createTime + offset other.coloId - profile.createTime) =
            request.time + offset other.coloId by ring, toUInt_of_fits nonneg fits]
      · rw [if_neg listed, if_neg (fun member => listed (same_ids.mp member)), Option.map_none]
  constructor
  · rw [own]
    simp only [Option.all_some, decide_eq_false_iff_not]
    omega
  · unfold resave
    simp only [decide_eq_true earlier, if_true, same_time]
    refine ⟨trivial, trivial, ⟨⟨request, by simp, rfl⟩, fun other member => ?_⟩, ?_,
      fun time coloId dates => ?_, fun time coloId dates => ?_⟩
    · rcases List.mem_append.mp member with member | member
      · have := h.netsOut.earliest.2 other member
        omega
      · rw [List.mem_singleton.mp member]
    · exact entries
    · rw [netUnder_append, netUnder_singleton, h.netsOut.gmt,
        (h.gmtKnown coloId).net_all (gmt_near coloId), (h.gmtKnown coloId).net_all (gmt_near coloId)]
      split_ifs <;> ring
    · rw [netUnder_append, netUnder_append, netUnder_split, netUnder_split, h.netsOut.isp,
        (h.ispKnown coloId).net_all (isp_near coloId), (h.ispKnown coloId).net_all (isp_near coloId)]
      split_ifs <;> ring

theorem Settled.process (h : Settled offset before profile reported)
    (ordinary : Ordinary offset (before ++ [request]))
    (in_order : request.coloId ∉ before.map Request.coloId → ∃ other ∈ before, other.time ≤ request.time) :
    ∃ next more, processRequest bits machine household (some profile) request = some (next, more) ∧
      Settled offset (before ++ [request]) next
        ⟨reported.gmt ++ more.gmt, reported.isp ++ more.isp⟩ := by
  have some_time : profile.createTime ≠ 0 := by
    obtain ⟨first, inside, same⟩ := h.netsOut.earliest.1
    have := (ordinary.fits first (List.mem_append_left _ inside)).1
    omega
  unfold processRequest
  by_cases earlier : request.time < profile.createTime
  · have known : request.coloId ∈ before.map Request.coloId := by
      by_contra new
      obtain ⟨other, member, le⟩ := in_order new
      have := h.netsOut.earliest.2 other member
      omega
    obtain ⟨some_entry, save, createTime, moved⟩ :=
      @Settled.earlier bits machine household offset before request profile reported h ordinary known earlier
    simp only [if_neg some_time, some_entry, Bool.false_eq_true, if_false, createTime]
    exact moved.save ordinary h.gmtKnown h.ispKnown (fun not_saved => by simp [save] at not_saved)
  · obtain ⟨resaved, moved⟩ := @Settled.not_earlier bits machine household offset before request profile
      reported h ordinary (not_lt.mp earlier)
    simp only [if_neg some_time, resaved]
    exact moved.save ordinary h.gmtKnown h.ispKnown (fun _ => rfl)

theorem Ordinary.front {rest : List Request} (ordinary : Ordinary offset (before ++ request :: rest)) :
    Ordinary offset (before ++ [request]) := by
  have sub : ∀ r ∈ before ++ [request], r ∈ before ++ request :: rest := by
    intro r member
    rcases List.mem_append.mp member with member | member
    · exact List.mem_append_left _ member
    · rw [List.mem_singleton.mp member]
      simp
  exact ⟨fun r hr => ordinary.isp r (sub r hr), fun r hr => ordinary.fits r (sub r hr),
    fun r hr q hq => ordinary.ispFits r (sub r hr) q (sub q hq),
    fun r hr q hq => ordinary.near r (sub r hr) q (sub q hq)⟩

theorem processRequests_settled {requests : List Request} (h : Settled offset before profile reported)
    (some_before : before ≠ []) (ordinary : Ordinary offset (before ++ requests))
    (in_order : NewInOrder before requests) :
    ∃ next done, processRequests bits machine household requests (some profile, reported) =
        some (some next, done) ∧
      Settled offset (before ++ requests) next done := by
  induction requests generalizing before profile reported with
  | nil => exact ⟨profile, reported, rfl, by rwa [List.append_nil]⟩
  | cons request rest ih =>
    obtain ⟨next, more, process, settled⟩ :=
      @Settled.process bits machine household offset before request profile reported h ordinary.front
        (in_order.1 some_before)
    obtain ⟨last, done, run, all⟩ := ih settled (by simp) (by simpa using ordinary) in_order.2
    refine ⟨last, done, ?_, by simpa using all⟩
    rw [processRequests, process]
    exact run

end Runs

/-- For any requests of a user, from no profile. -/
theorem processRequests_netsOut (bits : BitAlgs) (machine : Machine) (household : Bool)
    (offset : Nat → Int) (requests : List Request) (some_request : requests ≠ [])
    (ordinary : Ordinary offset requests) (in_order : NewInOrder [] requests) :
    ∃ profile reported, processRequests bits machine household requests (none, ⟨[], []⟩) =
        some (some profile, reported) ∧
      NetsOut offset requests profile reported := by
  obtain ⟨request, rest, rfl⟩ := List.exists_cons_of_ne_nil some_request
  obtain ⟨profile, more, process, settled⟩ :=
    @processRequest_first bits machine household offset request (@Ordinary.front offset [] request rest ordinary)
  obtain ⟨last, done, run, all⟩ := @processRequests_settled bits machine household offset [request] profile
    more rest settled (by simp) ordinary in_order.2
  refine ⟨last, done, ?_, all.netsOut⟩
  rw [processRequests, process]
  exact run

/-- The second colocation is two hours ahead. -/
def twoHoursAhead (coloId : Nat) : Int := if coloId = 2 then 7200 else 0

def requestAt (coloId : Nat) (time : Int) : Request := ⟨coloId, time, time + twoHoursAhead coloId⟩

/-- A new colocation, and then earlier requests of both. -/
def earlierRequests : List Request :=
  [requestAt 1 1000000000, requestAt 2 1000086400, requestAt 1 999900000, requestAt 2 999800000,
    requestAt 1 1000040000]

theorem earlierRequests_netsOut :
    ∃ profile reported, processRequests countZeros lowBits false earlierRequests (none, ⟨[], []⟩) =
        some (some profile, reported) ∧
      NetsOut twoHoursAhead earlierRequests profile reported := by
  have ordinary : Ordinary twoHoursAhead earlierRequests :=
    ⟨by decide +kernel, by decide +kernel, by decide +kernel, by decide +kernel⟩
  have in_order : NewInOrder [] earlierRequests := by
    refine ⟨?_, ?_, ?_, ?_, ?_, trivial⟩ <;> decide +kernel
  exact processRequests_netsOut countZeros lowBits false twoHoursAhead earlierRequests (by decide)
    ordinary in_order

/-- A colocation that is new, an hour before the create time. -/
def earlierColo : List Request := [requestAt 1 1000000000, requestAt 3 999996400]

/-- The create time of the first one is moved by two hours. -/
theorem earlierColo_not_netsOut :
    ¬ ∀ (offset : Nat → Int) (requests : List Request), requests ≠ [] → Ordinary offset requests →
      ∃ profile reported, processRequests countZeros lowBits false requests (none, ⟨[], []⟩) =
          some (some profile, reported) ∧
        NetsOut offset requests profile reported := by
  intro netsOut
  have ordinary : Ordinary twoHoursAhead earlierColo :=
    ⟨by decide +kernel, by decide +kernel, by decide +kernel, by decide +kernel⟩
  obtain ⟨profile, reported, run, nets⟩ := netsOut twoHoursAhead earlierColo (by decide) ordinary
  have times : (processRequests countZeros lowBits false earlierColo (none, ⟨[], []⟩)).map
      (fun done => done.1.map fun profile => (profile.createTime, profile.ispColoCreateTime.find? 1)) =
        some (some (999996400, some 999992800)) := by
    decide +kernel
  rw [run, Option.map_some, Option.map_some, Option.some.injEq, Option.some.injEq, Prod.mk.injEq] at times
  have entry := nets.entries 1
  rw [times.1, times.2] at entry
  revert entry
  decide

end AdServer.Reach
