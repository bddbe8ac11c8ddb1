import AdServer.Reach.ColoReachReports
import AdServer.Reach.AppearanceRuns

/-!
# A request of a user

With a request the records track the days of the colocations and its own; what is
collected is reported under the create times of the profile.
-/

namespace AdServer.Reach

open AdServer.Lib

variable {bits : BitAlgs} {machine : Machine}

def Request.day (request : Request) : Nat := (request.time / oneDay).toNat

def Request.ispDay (request : Request) : Nat := (request.ispTime / oneDay).toNat

/-- The days of the requests of a colocation. -/
def daysBy (day : Request → Nat) (requests : List Request) (coloId : Nat) : List Nat :=
  (requests.filter fun request => request.coloId = coloId).map day

theorem roundToDay_eq {time : Int} (nonneg : 0 ≤ time) :
    roundToDay time = dayTime (time / oneDay).toNat := by
  have days : 0 ≤ time / oneDay := Int.ediv_nonneg nonneg (by decide)
  rw [roundToDay, dayTime, Int.tdiv_eq_ediv_of_nonneg nonneg, Int.toNat_of_nonneg days]

theorem dayTime_le {time : Int} (nonneg : 0 ≤ time) : dayTime (time / oneDay).toNat ≤ time := by
  have days : 0 ≤ time / oneDay := Int.ediv_nonneg nonneg (by decide)
  rw [dayTime, Int.toNat_of_nonneg days]
  exact Int.ediv_mul_le time (by decide)

theorem toUInt_of_fits {time : Int} (nonneg : 0 ≤ time) (fits : time < 2 ^ 32) : toUInt time = time :=
  Int.emod_eq_of_lt nonneg fits

theorem daysBy_append_self (day : Request → Nat) (before : List Request) (request : Request) :
    sortedDays (daysBy day (before ++ [request]) request.coloId) =
      Neighbours.insertNew (day request) (sortedDays (daysBy day before request.coloId)) := by
  rw [← sortedDays_append]
  simp [daysBy]

theorem daysBy_append_ne (day : Request → Nat) (before : List Request) {request : Request}
    {coloId : Nat} (other : request.coloId ≠ coloId) :
    daysBy day (before ++ [request]) coloId = daysBy day before coloId := by
  simp [daysBy, other]

theorem daysBy_unseen (day : Request → Nat) {requests : List Request} {coloId : Nat}
    (unseen : coloId ∉ requests.map Request.coloId) : daysBy day requests coloId = [] := by
  rw [daysBy, List.map_eq_nil_iff, List.filter_eq_nil_iff]
  intro request member
  simp only [decide_eq_true_eq]
  exact fun same => unseen (List.mem_map.mpr ⟨request, member, same⟩)

theorem kept_of_near {seen : List Nat} {day : Nat} (fits : dayTime day < 2 ^ 32)
    (near : ∀ other ∈ seen, day ≤ other + 31 ∧ other ≤ day + 31) : Kept seen day := by
  refine ⟨fits, fun _ other member => ?_, fun _ _ some_before => ?_⟩
  · have := near other member
    exact ⟨by omega, other, member, by omega⟩
  · obtain ⟨other, member, lt⟩ := some_before
    refine ⟨other, member, lt, fun newest h => ?_⟩
    have := near other member
    have := near newest h
    omega

theorem collectAppearance_none {records : Records} {id : Nat} {time : Int}
    (none : (collectAppearance bits machine records id time).1 = false) :
    (collectAppearance bits machine records id time).2 = [] := by
  unfold collectAppearance collectReappearance at none ⊢
  revert none
  cases records.find? id with
  | none => simp
  | some record =>
    dsimp only
    split_ifs <;> simp

/-- The record of the request's colocation takes its day, and what is collected is the change
of its transitions. -/
theorem known_request (day : Request → Nat) {before : List Request} {request : Request}
    {records : Records} (known : ∀ coloId, Known records coloId (sortedDays (daysBy day before coloId)))
    (near : ∀ other ∈ before, other.coloId = request.coloId →
      day request ≤ day other + 31 ∧ day other ≤ day request + 31)
    (fits : dayTime (day request) < 2 ^ 32) (coloId : Nat) :
    Known
      (if (collectAppearance bits machine records request.coloId (dayTime (day request))).1 then
        updateAppearance machine records request.coloId (dayTime (day request))
      else records) coloId (sortedDays (daysBy day (before ++ [request]) coloId)) ∧
    ∀ dates, (transitions (sortedDays (daysBy day (before ++ [request]) coloId)) dates : Int) =
      transitions (sortedDays (daysBy day before coloId)) dates +
        net (collectAppearance bits machine records request.coloId (dayTime (day request))).2
          coloId dates := by
  by_cases own : request.coloId = coloId
  · subst own
    have seen_near : ∀ other ∈ sortedDays (daysBy day before request.coloId),
        day request ≤ other + 31 ∧ other ≤ day request + 31 := by
      intro other member
      obtain ⟨q, hq, rfl⟩ := List.mem_map.mp (mem_sortedDays.mp member)
      obtain ⟨inside, same⟩ := List.mem_filter.mp hq
      exact near q inside (of_decide_eq_true same)
    have kept := kept_of_near fits seen_near
    have recent := fun other member => (seen_near other member).2
    obtain ⟨appeared, change⟩ := @Known.collect bits machine _ _ _ _ (known request.coloId) recent kept
    rw [daysBy_append_self]
    refine ⟨?_, change⟩
    rw [appeared]
    split_ifs with new
    · apply (known request.coloId).update recent kept
      intro member
      simp [member] at new
    · have member : day request ∈ sortedDays (daysBy day before request.coloId) := by
        by_contra absent
        simp [absent] at new
      rw [Neighbours.insertNew_of_mem (known request.coloId).sorted member]
      exact known request.coloId
  · rw [daysBy_append_ne day before own]
    refine ⟨?_, fun dates => ?_⟩
    · split_ifs
      · exact (known coloId).update_other own _
      · exact known coloId
    · rw [net_other (fun report member => ?_), Int.add_zero]
      rw [id_of_mem_collectAppearance member]
      exact own

variable {household : Bool}

theorem saveAppearances_eq {request : Request} {save : Bool} {profile : Profile} {reported : Reported}
    {gmt isp : Bool × List IdAppearance} {ispCreateTime : Int}
    (found : profile.ispColoCreateTime.find? request.coloId = some ispCreateTime)
    (none : save = false → (gmt.1 = false → gmt.2 = []) ∧ (isp.1 = false → isp.2 = [])) :
    ∃ more, saveAppearances machine household request save profile reported gmt isp =
        some ({ profile with
          coloAppears :=
            if gmt.1 then
              updateAppearance machine profile.coloAppears request.coloId (roundToDay request.time)
            else profile.coloAppears
          ispColoAppears :=
            if isp.1 then
              updateAppearance machine profile.ispColoAppears request.coloId (roundToDay request.ispTime)
            else profile.ispColoAppears }, more) ∧
      (∀ createTime id dates, netUnder more.gmt createTime id dates =
        netUnder reported.gmt createTime id dates +
          if profile.createTime = createTime then net gmt.2 id dates else 0) ∧
      ∀ createTime id dates, netUnder more.isp createTime id dates =
        netUnder reported.isp createTime id dates +
          if roundToDay ispCreateTime = createTime then net isp.2 id dates else 0 := by
  unfold saveAppearances
  rw [found]
  by_cases saves : (save || gmt.1 || isp.1) = true
  · rw [if_pos saves]
    refine ⟨_, rfl, fun createTime id dates => ?_, fun createTime id dates => ?_⟩
    · rw [netUnder_append, netUnder_singleton]
    · rw [netUnder_append, netUnder_singleton]
  · rw [if_neg saves]
    simp only [Bool.or_eq_true, not_or, Bool.not_eq_true] at saves
    obtain ⟨⟨not_saved, no_gmt⟩, no_isp⟩ := saves
    obtain ⟨gmt_none, isp_none⟩ := none not_saved
    refine ⟨reported, by simp [no_gmt, no_isp], fun createTime id dates => ?_,
      fun createTime id dates => ?_⟩
    · rw [gmt_none no_gmt]
      simp [net]
    · rw [isp_none no_isp]
      simp [net]

theorem find?_updateIdTimeList (times : SortedMap Nat Int) (coloId : Nat) (old new isp : Int) (id : Nat) :
    (updateIdTimeList times coloId old new isp).find? id =
      if id = coloId then
        some (match times.find? coloId with
          | some createTime => if isp < createTime then toUInt isp else createTime
          | none => toUInt (if new < old then isp else calculateIspTime new isp old))
      else (times.find? id).map fun createTime =>
        if new < old then toUInt (calculateIspTime old createTime new) else createTime := by
  unfold updateIdTimeList
  dsimp only
  rw [SortedMap.find?_mapWith]
  by_cases own : id = coloId
  · subst own
    rw [if_pos rfl]
    cases known : times.find? id with
    | none => simp [SortedMap.find?_put]
    | some createTime =>
      simp only [Option.map_some, ne_eq, not_true_eq_false, and_false, if_false]
      split_ifs
      · rw [SortedMap.find?_put, if_pos rfl]
      · rw [SortedMap.find?_mapWith, known]
        simp
  · rw [if_neg own]
    have others : ((times.mapWith fun id createTime =>
        if new < old ∧ id ≠ coloId then toUInt (calculateIspTime old createTime new)
        else createTime).find? id) =
        (times.find? id).map fun createTime =>
          if new < old then toUInt (calculateIspTime old createTime new) else createTime := by
      rw [SortedMap.find?_mapWith]
      simp [own]
    cases times.find? coloId with
    | none => rw [Option.map_none, SortedMap.find?_put, if_neg own, others]
    | some createTime =>
      simp only [Option.map_some, ne_eq, not_true_eq_false, and_false, if_false] at others ⊢
      by_cases earlier : isp < createTime
      · rw [if_pos earlier, SortedMap.find?_put, if_neg own, others]
      · rw [if_neg earlier, others]

end AdServer.Reach
