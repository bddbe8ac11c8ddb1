import AdServer.Lib.SortedMap
import Mathlib.Algebra.Group.Int.Defs
import Mathlib.Order.Nat

/-!
# Appearances of an id

For each id a record keeps the last day on which the id appeared and a mask of the 63 days
before it. An appearance is reported with the date of the one before it, which is zero for
the first one and is at most 31 days back.
-/

namespace AdServer.Reach

open AdServer.Lib

/-- In seconds. -/
def oneDay : Int := 86400

def lastAppearanceMaxDiff : Int := 31

def maxDayBitPos : Int := 63

/-- `TOTAL_APPEARANCE_MASK`: set in a record that has the day of the total appearance. -/
def totalAppearanceMask : BitVec 64 := 1#64 <<< 63

/-- `Algs::round_to_day`. -/
def roundToDay (time : Int) : Int := time.tdiv oneDay * oneDay

structure IdAppearance where
  id : Nat
  date : Int
  lastAppearanceDate : Int
  counter : Int
  deriving DecidableEq

/-- A record of the list without its id. -/
structure Record where
  lastAppearanceDate : Int
  prevAppearancesMask : BitVec 64

/-- The list of records is in the order of the ids. -/
abbrev Records := SortedMap Nat Record

/-- A field of the record has 32 bits. -/
def toUInt (seconds : Int) : Int := seconds % 2 ^ 32

/-- `Generics::BitAlgs`: the positions of the lowest and of the highest bit that is set, or
64 if none is. -/
structure BitAlgs where
  lowestBit : BitVec 64 → Nat
  highestBit : BitVec 64 → Nat
  lowest_zero : lowestBit 0 = 64
  lowest_set : ∀ mask : BitVec 64, mask ≠ 0 → mask.getLsbD (lowestBit mask) = true
  lowest_least : ∀ (mask : BitVec 64) (i : Nat), mask.getLsbD i = true → lowestBit mask ≤ i
  highest_zero : highestBit 0 = 64
  highest_set : ∀ mask : BitVec 64, mask ≠ 0 → mask.getLsbD (highestBit mask) = true
  highest_greatest : ∀ (mask : BitVec 64) (i : Nat), mask.getLsbD i = true → i ≤ highestBit mask

/-- What the machine gives for a shift by less than zero or by 64 and more, which the
language leaves undefined. -/
structure Machine where
  undefinedShl : BitVec 64 → Int → BitVec 64
  undefinedShr : BitVec 64 → Int → BitVec 64

variable (bits : BitAlgs) (machine : Machine)

def Machine.shl (mask : BitVec 64) (count : Int) : BitVec 64 :=
  if 0 ≤ count ∧ count < 64 then mask <<< count.toNat else machine.undefinedShl mask count

def Machine.shr (mask : BitVec 64) (count : Int) : BitVec 64 :=
  if 0 ≤ count ∧ count < 64 then mask >>> count.toNat else machine.undefinedShr mask count

/-- `add_normalized_appearance`. -/
def normalizedAppearance (appearId : Nat) (appearanceDate lastAppearanceDate counter : Int) :
    IdAppearance :=
  ⟨appearId, appearanceDate,
    max lastAppearanceDate (appearanceDate - oneDay * lastAppearanceMaxDiff), counter⟩

/-- The part of `collect_appearance` for a day before the last one: whether it is an
appearance, and what is reported. -/
def collectReappearance (appearId : Nat) (appearanceTime : Int) (record : Record) :
    Bool × List IdAppearance :=
  let mask := record.prevAppearancesMask
  let appBitPos := (record.lastAppearanceDate - appearanceTime).tdiv oneDay - 1
  if appBitPos < maxDayBitPos ∧ machine.shr mask appBitPos &&& 1#64 = 0 then
    let appearanceBeforePos := appBitPos + bits.lowestBit (machine.shr mask appBitPos) + 1
    let appearanceAfterPos := bits.highestBit (mask &&& (machine.shl 1#64 (appBitPos + 1) - 1))
    let appearanceAfterDate :=
      if appearanceAfterPos < maxDayBitPos then
        record.lastAppearanceDate - oneDay * (appearanceAfterPos + 1)
      else record.lastAppearanceDate
    if appearanceBeforePos ≤ maxDayBitPos then
      let appearanceBeforeDate := record.lastAppearanceDate - oneDay * appearanceBeforePos
      (true, [
        normalizedAppearance appearId appearanceAfterDate appearanceBeforeDate (-1),
        normalizedAppearance appearId appearanceTime appearanceBeforeDate 1,
        normalizedAppearance appearId appearanceAfterDate appearanceTime 1])
    else if mask &&& totalAppearanceMask ≠ 0 then
      (true, [
        ⟨appearId, appearanceAfterDate, 0, -1⟩,
        ⟨appearId, appearanceTime, 0, 1⟩,
        normalizedAppearance appearId appearanceAfterDate appearanceTime 1])
    else if appBitPos < maxDayBitPos - lastAppearanceMaxDiff then
      -- the date is 64 days after the epoch
      (true, [⟨appearId, appearanceAfterDate, oneDay * (63 + 1), -1⟩])
    else (false, [])
  else (false, [])

/-- `collect_appearance`. -/
def collectAppearance (records : Records) (appearId : Nat) (appearanceTime : Int) :
    Bool × List IdAppearance :=
  match records.find? appearId with
  | none => (true, [⟨appearId, appearanceTime, 0, 1⟩])
  | some record =>
    if record.lastAppearanceDate < appearanceTime then
      (true, [normalizedAppearance appearId appearanceTime record.lastAppearanceDate 1])
    else if appearanceTime < record.lastAppearanceDate then
      collectReappearance bits machine appearId appearanceTime record
    else (false, [])

/-- The part of `update_appearance` for a record of the id. -/
def updateRecord (appearanceTime : Int) (record : Record) : Record :=
  let mask := record.prevAppearancesMask
  let diff := (appearanceTime - record.lastAppearanceDate).tdiv oneDay
  if 0 < diff then
    let onlyDays := mask &&& ~~~totalAppearanceMask
    let kept := machine.shr (machine.shl onlyDays diff &&& ~~~totalAppearanceMask) diff
    let eldestDayBitLost := kept ^^^ onlyDays ≠ 0
    { prevAppearancesMask := machine.shl (onlyDays <<< 1 ||| 1#64) (diff - 1) |||
        if eldestDayBitLost then 0 else mask &&& totalAppearanceMask
      lastAppearanceDate := toUInt appearanceTime }
  else
    let bitPos := -diff - 1
    if bitPos < maxDayBitPos then
      { record with prevAppearancesMask := mask ||| machine.shl 1#64 bitPos }
    else record

/-- `BaseInsertAppearanceAdapter`. -/
def insertedRecord (appearanceTime : Int) : Record :=
  ⟨toUInt appearanceTime, totalAppearanceMask⟩

/-- `update_appearance`. -/
def updateAppearance (records : Records) (appearId : Nat) (appearanceTime : Int) : Records :=
  match records.find? appearId with
  | some record => records.put appearId (updateRecord machine appearanceTime record)
  | none => records.put appearId (insertedRecord appearanceTime)

end AdServer.Reach
