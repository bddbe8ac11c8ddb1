import AdServer.Reach.Appearance

/-!
# Colocation reach of a user

`UserColoReachContainer` reports the appearances of a user on colocations under the time the
user was created, by the GMT day and by the day of the provider. An earlier request moves that
time: what was reported under the old one is reverted and reported again under the new one.
-/

namespace AdServer.Reach

open AdServer.Lib

structure Request where
  coloId : Nat
  time : Int
  ispTime : Int

/-- `UserColoReachProfile`. -/
structure Profile where
  createTime : Int
  coloAppears : Records
  ispColoAppears : Records
  ispColoCreateTime : SortedMap Nat Int

structure ColoReachInfo where
  createTime : Int
  household : Bool
  colocations : List IdAppearance

variable (bits : BitAlgs) (machine : Machine)

theorem shr_lt {mask : BitVec 64} {count : Int} (some_bit : mask ≠ 0) (some_count : 0 < count)
    (lt : count < 64) : (machine.shr mask count).toNat < mask.toNat := by
  unfold Machine.shr
  rw [if_pos ⟨by omega, lt⟩, BitVec.toNat_ushiftRight, Nat.shiftRight_eq_div_pow]
  apply Nat.div_lt_self
  · rw [Nat.pos_iff_ne_zero]
    exact fun zero => some_bit (BitVec.eq_of_toNat_eq zero)
  · exact Nat.one_lt_two_pow (by omega)

/-- The loop of `collect_all_appearance` over the days of a mask: the reports, and the first
day. -/
def collectMask (id : Nat) (count : Int) (appDate : Int) (mask : BitVec 64) : List IdAppearance × Int :=
  if _h : mask ≠ 0 ∧ (bits.lowestBit mask : Int) < maxDayBitPos then
    let appearanceBeforePos : Int := bits.lowestBit mask
    let prevAppDate := appDate - oneDay * (appearanceBeforePos + 1)
    let (reports, first) :=
      collectMask id count prevAppDate (machine.shr mask (appearanceBeforePos + 1))
    (normalizedAppearance id appDate prevAppDate count :: reports, first)
  else ([], appDate)
termination_by mask.toNat
decreasing_by
  exact shr_lt machine _h.1 (by omega) (by have := _h.2; unfold maxDayBitPos at this; omega)

def collectRecord (count : Int) (id : Nat) (record : Record) : List IdAppearance :=
  let mask := record.prevAppearancesMask
  let (reports, first) := collectMask bits machine id count record.lastAppearanceDate
    (mask &&& ~~~totalAppearanceMask)
  reports ++ if mask &&& totalAppearanceMask ≠ 0 then [⟨id, first, 0, count⟩] else []

/-- `collect_all_appearance`. -/
def collectAllAppearance (records : Records) (count : Int) : List IdAppearance :=
  records.entries.flatMap fun (id, record) => collectRecord bits machine count id record

/-- `calculate_isp_time`. -/
def calculateIspTime (gmtTime ispTime gmtCreateTime : Int) : Int :=
  gmtCreateTime + (ispTime - gmtTime)

/-- `update_id_time_list`: the times of the other ids move with the create time, that of the
id itself is taken from the request. -/
def updateIdTimeList (times : SortedMap Nat Int) (appearId : Nat)
    (oldGmtTime newGmtTime newIspTime : Int) : SortedMap Nat Int :=
  let changedGmtCreateTime := newGmtTime < oldGmtTime
  let moved := times.mapWith fun id createTime =>
    if changedGmtCreateTime ∧ id ≠ appearId then
      toUInt (calculateIspTime oldGmtTime createTime newGmtTime)
    else createTime
  match moved.find? appearId with
  | some createTime =>
    if newIspTime < createTime then moved.put appearId (toUInt newIspTime) else moved
  | none =>
    moved.put appearId (toUInt (if changedGmtCreateTime then newIspTime
      else calculateIspTime newGmtTime newIspTime oldGmtTime))

/-- The time is left at zero for an id without a create time. -/
def createDayOf (times : SortedMap Nat Int) (id : Nat) : Int :=
  ((times.find? id).map roundToDay).getD 0

/-- A report joins the last list if that is of its id, or starts one. -/
def splitAppearance (household : Bool) (times : SortedMap Nat Int)
    (infos : List (Nat × ColoReachInfo)) (appearance : IdAppearance) : List (Nat × ColoReachInfo) :=
  let started := (appearance.id,
    { createTime := createDayOf times appearance.id, household := household,
      colocations := [appearance] : ColoReachInfo })
  match infos.getLast? with
  | some (prevId, info) =>
    if appearance.id = prevId then
      infos.dropLast ++ [(prevId, { info with colocations := info.colocations ++ [appearance] })]
    else infos ++ [started]
  | none => [started]

/-- `split_colo_reach_info_by_id` for the colocations. -/
def splitColoReachInfoById (household : Bool) (collected : List IdAppearance) (coloId : Nat)
    (times : SortedMap Nat Int) (updateOnlyPassedId : Bool) : List ColoReachInfo :=
  let passed := collected.filter fun appearance => !(updateOnlyPassedId && appearance.id ≠ coloId)
  (passed.foldl (splitAppearance household times) []).map Prod.snd

structure Reported where
  gmt : List ColoReachInfo
  isp : List ColoReachInfo

/-- What is reverted and resaved before the request itself is looked at. -/
structure Resaved where
  save : Bool
  createTime : Int
  ispColoCreateTime : SortedMap Nat Int
  reported : Reported
  colocations : List IdAppearance

variable (household : Bool)

def resave (reader : Profile) (request : Request) : Resaved :=
  let oldGmtTime := reader.createTime
  let changedCreateTime : Bool := request.time < oldGmtTime
  let changedIspCreateTime :=
    (reader.ispColoCreateTime.find? request.coloId).any fun oldIspTime => request.ispTime < oldIspTime
  let times := updateIdTimeList reader.ispColoCreateTime request.coloId oldGmtTime request.time
    request.ispTime
  let split (count : Int) (times : SortedMap Nat Int) (updateOnlyPassedId : Bool) :=
    splitColoReachInfoById household (collectAllAppearance bits machine reader.ispColoAppears count)
      request.coloId times updateOnlyPassedId
  if changedCreateTime then
    { save := true
      createTime := toUInt request.time
      ispColoCreateTime := times
      reported :=
        { gmt := [⟨oldGmtTime, household, collectAllAppearance bits machine reader.coloAppears (-1)⟩]
          isp := split (-1) reader.ispColoCreateTime false ++ split 1 times false }
      colocations := collectAllAppearance bits machine reader.coloAppears 1 }
  else if changedIspCreateTime then
    { save := true
      createTime := oldGmtTime
      ispColoCreateTime := times
      reported :=
        { gmt := [⟨oldGmtTime, household, []⟩]
          isp := split (-1) reader.ispColoCreateTime true ++ split 1 times true }
      colocations := [] }
  else ⟨false, oldGmtTime, reader.ispColoCreateTime, ⟨[], []⟩, []⟩

/-- The end of `co_process_request_trans_`: what is collected for the request is reported
under the create times of the profile, and saved. -/
def saveAppearances (request : Request) (save : Bool) (profile : Profile) (reported : Reported)
    (gmt isp : Bool × List IdAppearance) : Option (Profile × Reported) :=
  if save || gmt.1 || isp.1 then
    (profile.ispColoCreateTime.find? request.coloId).map fun ispCreateTime =>
      ({ profile with
          coloAppears :=
            if gmt.1 then
              updateAppearance machine profile.coloAppears request.coloId (roundToDay request.time)
            else profile.coloAppears
          ispColoAppears :=
            if isp.1 then
              updateAppearance machine profile.ispColoAppears request.coloId (roundToDay request.ispTime)
            else profile.ispColoAppears },
        { gmt := reported.gmt ++ [⟨profile.createTime, household, gmt.2⟩]
          isp := reported.isp ++ [⟨roundToDay ispCreateTime, household, isp.2⟩] })
  else some (profile, reported)

/-- `co_process_request_trans_`: the profile and the reports, or nothing if it throws. -/
def processRequest (profile : Option Profile) (request : Request) : Option (Profile × Reported) :=
  match profile with
  | none =>
    saveAppearances machine household request false
      { createTime := toUInt request.time
        coloAppears := .empty
        ispColoAppears := .empty
        ispColoCreateTime := updateIdTimeList .empty request.coloId request.time request.time
          request.ispTime }
      ⟨[], []⟩
      (true, [⟨request.coloId, roundToDay request.time, 0, 1⟩])
      (true, [⟨request.coloId, roundToDay request.ispTime, 0, 1⟩])
  | some reader =>
    let resaved := resave bits machine household reader request
    let createTime := if reader.createTime = 0 then toUInt request.time else resaved.createTime
    -- the id is looked up in the profile that was read
    let times :=
      if (reader.ispColoCreateTime.find? request.coloId).all (· = 0) then
        updateIdTimeList resaved.ispColoCreateTime request.coloId reader.createTime request.time
          request.ispTime
      else resaved.ispColoCreateTime
    let gmt := collectAppearance bits machine reader.coloAppears request.coloId
      (roundToDay request.time)
    let isp := collectAppearance bits machine reader.ispColoAppears request.coloId
      (roundToDay request.ispTime)
    saveAppearances machine household request resaved.save
      { reader with createTime := createTime, ispColoCreateTime := times } resaved.reported
      (gmt.1, resaved.colocations ++ gmt.2) isp

/-- The requests of a user one after another. -/
def processRequests : List Request → Option Profile × Reported → Option (Option Profile × Reported)
  | [], s => some s
  | request :: rest, (profile, reported) =>
    (processRequest bits machine household profile request).bind fun (profile, more) =>
      processRequests rest (some profile, ⟨reported.gmt ++ more.gmt, reported.isp ++ more.isp⟩)

end AdServer.Reach
