import Mathlib.Algebra.Group.Nat.Defs

/-!
# User ids bound to external ids

An external id has a record with the user id bound to it. A record with the
set-cookie flag counts the calls of a day that come with another user id, and lets
a few of them change it.
-/

namespace AdServer.UserBind

/-- The null id is `none`. -/
abbrev UserId := Option Nat

/-- In microseconds. -/
abbrev Time := Nat

def oneSecond : Time := 1000000

def tvSec (time : Time) : Nat := time / oneSecond

def oneDay : Nat := 86400

structure BoundRecord where
  firstSeenTime : Time := 0
  updateTime : Time := 0
  userId : UserId := none
  flags : UInt8 := 0
  badEventCount : UInt8 := 0
  lastBadEventDay : UInt16 := 0
  deriving DecidableEq

/-- `BF_SETCOOKIE_`. -/
def setCookie : UInt8 := 1

def BoundRecord.HasSetCookie (record : BoundRecord) : Prop := record.flags &&& setCookie ≠ 0

instance decidableHasSetCookie (record : BoundRecord) : Decidable record.HasSetCookie :=
  inferInstanceAs (Decidable (_ ≠ _))

/-- `UserInfo`. -/
structure UserInfo where
  userId : UserId := none
  minAgeReached : Bool := false
  userIdGenerated : Bool := false
  created : Bool := false
  invalidOperation : Bool := false
  userFound : Bool := false
  deriving DecidableEq

structure Config where
  bindMinAge : Option Time
  maxBadEvent : Nat

/-- `UserBindRocksDBRecord`. -/
structure StoredRecord where
  version : UInt32
  type : UInt32
  firstSeenTime : UInt32
  updateTime : UInt32
  userId : UserId
  flags : UInt32
  badEventCount : UInt32
  lastBadEventDay : UInt32
  deriving DecidableEq

def profileVersion : UInt32 := 1
def boundProfileType : UInt32 := 2

def serializeBound (record : BoundRecord) : StoredRecord where
  version := profileVersion
  type := boundProfileType
  firstSeenTime := .ofNat (tvSec record.firstSeenTime)
  updateTime := .ofNat (tvSec record.updateTime)
  userId := record.userId
  flags := record.flags.toUInt32
  badEventCount := record.badEventCount.toUInt32
  lastBadEventDay := record.lastBadEventDay.toUInt32

def deserializeBound (stored : StoredRecord) : Option BoundRecord :=
  if stored.version ≠ profileVersion ∨ stored.type ≠ boundProfileType then none
  else
    some {
      firstSeenTime := stored.firstSeenTime.toNat * oneSecond
      updateTime := stored.updateTime.toNat * oneSecond
      userId := stored.userId
      flags := stored.flags.toUInt8
      badEventCount := .ofNat (min stored.badEventCount.toNat 255)
      lastBadEventDay := stored.lastBadEventDay.toUInt16 }

def adaptBoundRecord (record : BoundRecord) (userIdGenerated userFound invalidOperation : Bool) :
    UserInfo where
  userId := record.userId
  minAgeReached := true
  userIdGenerated := userIdGenerated
  invalidOperation := invalidOperation
  userFound := userFound

def adaptUnboundRecord (config : Config) (record : BoundRecord) (created : Bool) (now : Time) :
    UserInfo where
  minAgeReached := config.bindMinAge.any fun age => record.firstSeenTime + age ≤ now
  created := created
  userFound := true

/-- The day of a time, counted from the epoch. -/
def curDay (now : Time) : Nat := tvSec now / oneDay * oneDay / oneDay

def rotateBadEventCount (record : BoundRecord) (now : Time) : BoundRecord :=
  if curDay now ≠ record.lastBadEventDay.toNat then
    { record with lastBadEventDay := .ofNat (curDay now), badEventCount := 0 }
  else record

/-- The part of `save_user_id_` for a record with the flag: the record, and whether
the operation is invalid. -/
def contestUserId (config : Config) (record : BoundRecord) (userId : UserId) (now : Time) :
    BoundRecord × Bool :=
  if userId ≠ record.userId then
    let record := rotateBadEventCount record now
    let accepted := record.badEventCount.toNat < config.maxBadEvent
    ({ record with
        userId := if accepted then userId else record.userId
        badEventCount := record.badEventCount + 1 },
      !accepted)
  else (record, false)

def saveUserId (config : Config) (record : BoundRecord) (result : UserInfo) (userId : UserId)
    (ignoreBadEvent setCookieFlag : Bool) (now : Time) : BoundRecord × UserInfo :=
  let (record, invalid) :=
    if record.HasSetCookie then contestUserId config record userId now
    else
      ({ record with
          flags := if setCookieFlag then record.flags ||| setCookie else record.flags
          userId := userId },
        false)
  let record := if ignoreBadEvent then { record with userId := userId } else record
  ({ record with
      firstSeenTime := if record.firstSeenTime = 0 then now else record.firstSeenTime
      updateTime := now },
    { result with invalidOperation := result.invalidOperation || invalid })

/-- `co_add_user_id_i_`: the result, and the record if it is saved. -/
def addUserIdI (config : Config) (userId : UserId) (now : Time)
    (resaveIfExists ignoreBadEvent setCookieFlag : Bool) (loaded : Option BoundRecord) :
    UserInfo × Option BoundRecord :=
  let record := loaded.getD { firstSeenTime := now, updateTime := now }
  let foundBoundUser := loaded.isSome && record.userId.isSome
  let result := adaptBoundRecord record false foundBoundUser false
  if resaveIfExists || !result.userFound then
    let (record, result) :=
      saveUserId config record result userId ignoreBadEvent setCookieFlag now
    (result, some record)
  else (result, none)

/-- A user id that is bound because none was found; `created` is set for a record
that is new. -/
def generatedUserId (config : Config) (newUserId : UserId) (now : Time)
    (forSetCookie created : Bool) (loaded : Option BoundRecord) :
    UserInfo × Option BoundRecord :=
  let (result, saved) := addUserIdI config newUserId now false false forSetCookie loaded
  if !result.userFound && !result.invalidOperation then
    ({ result with
        userId := newUserId
        userIdGenerated := true
        created := created
        minAgeReached := true }, saved)
  else (result, saved)

/-- `co_get_user_id` for a record whose user id is null. -/
def getUnbound (config : Config) (now : Time) (silent : Bool) (createTime : Time)
    (forSetCookie generateUserId : Bool) (newUserId : UserId) (bound : BoundRecord) :
    UserInfo × Option BoundRecord :=
  if silent then (adaptUnboundRecord config bound false now, none)
  else
    let useCreateTime := if createTime = 0 then now else createTime
    let (bound, changed) :=
      if bound.firstSeenTime = 0 then ({ bound with firstSeenTime := useCreateTime }, true)
      else if createTime ≠ 0 ∧ createTime < bound.firstSeenTime then
        ({ bound with firstSeenTime := createTime }, true)
      else (bound, false)
    let result := adaptUnboundRecord config bound false now
    if generateUserId && result.minAgeReached then
      generatedUserId config newUserId now forSetCookie false (some bound)
    else (result, if changed then some bound else none)

/-- `co_get_user_id` for a record with a user id. -/
def getBound (config : Config) (currentUserId : UserId) (now : Time) (forSetCookie : Bool)
    (bound : BoundRecord) : UserInfo × Option BoundRecord :=
  if forSetCookie then
    let (bound, changed) :=
      if bound.HasSetCookie then
        if bound.userId ≠ currentUserId then
          let bound := rotateBadEventCount bound now
          ({ bound with badEventCount := bound.badEventCount + 1 }, true)
        else (bound, false)
      else ({ bound with flags := bound.flags ||| setCookie }, true)
    let invalidOperation :=
      decide (bound.HasSetCookie ∧ config.maxBadEvent < bound.badEventCount.toNat)
    (adaptBoundRecord bound false true invalidOperation, if changed then some bound else none)
  else (adaptBoundRecord bound false true false, none)

/-- `co_get_user_id` when no record is found. -/
def getMissing (config : Config) (now : Time) (silent : Bool) (createTime : Time)
    (forSetCookie generateUserId : Bool) (newUserId : UserId) : UserInfo × Option BoundRecord :=
  if config.bindMinAge.all (· = 0) then
    if generateUserId && !silent then
      generatedUserId config newUserId now forSetCookie false none
    else ({ minAgeReached := true }, none)
  else if silent then ({}, none)
  else
    let useCreateTime := if createTime = 0 then now else createTime
    let bound : BoundRecord := { firstSeenTime := useCreateTime, updateTime := now }
    let result := adaptUnboundRecord config bound true now
    if generateUserId && result.minAgeReached then
      generatedUserId config newUserId now forSetCookie true (some bound)
    else (result, some bound)

/-- The operations on an external id. `newUserId` is what `create_random_based`
gives the call if it is asked for an id. -/
inductive Call where
  | addUserId (userId : UserId) (now : Time) (resaveIfExists ignoreBadEvent setCookieFlag : Bool)
  | getUserId (currentUserId : UserId) (now : Time) (silent : Bool) (createTime : Time)
      (forSetCookie generateUserId : Bool) (newUserId : UserId)

/-- What a call returns for the record it has loaded, and the record it saves. -/
def Call.execute (config : Config) : Call → Option BoundRecord → UserInfo × Option BoundRecord
  | .addUserId userId now resaveIfExists ignoreBadEvent setCookieFlag, loaded =>
    addUserIdI config userId now resaveIfExists ignoreBadEvent setCookieFlag loaded
  | .getUserId currentUserId now silent createTime forSetCookie generateUserId newUserId,
      loaded =>
    match loaded with
    | none =>
      getMissing config now silent createTime forSetCookie generateUserId newUserId
    | some bound =>
      if bound.userId = none then
        getUnbound config now silent createTime forSetCookie generateUserId newUserId bound
      else getBound config currentUserId now forSetCookie bound

/-- A call on the record that is stored: what it returns and what is stored after. -/
def Call.step (config : Config) (call : Call) (stored : Option StoredRecord) :
    UserInfo × Option StoredRecord :=
  let (result, saved) := call.execute config (stored.bind deserializeBound)
  (result, (saved.map serializeBound).or stored)

/-- A record as it is loaded again: its times are cut to the seconds that are kept. -/
def BoundRecord.reloaded (record : BoundRecord) : BoundRecord :=
  { record with
    firstSeenTime := tvSec record.firstSeenTime % 2 ^ 32 * oneSecond
    updateTime := tvSec record.updateTime % 2 ^ 32 * oneSecond }

theorem deserializeBound_serializeBound (record : BoundRecord) :
    deserializeBound (serializeBound record) = some record.reloaded := by
  have count : min record.badEventCount.toNat 255 = record.badEventCount.toNat := by
    have := record.badEventCount.toNat_lt
    omega
  simp [deserializeBound, serializeBound, BoundRecord.reloaded, count]

end AdServer.UserBind
