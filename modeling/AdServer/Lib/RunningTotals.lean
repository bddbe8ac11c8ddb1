import AdServer.Lib.SortedMap
import Mathlib.Algebra.Group.Basic

/-!
# Totals kept by day

A ledger keeps, for each day, what was added on it and the total before it, so
that the total is read off the last day without a sum.
-/

namespace AdServer.Lib

open SortedMap

/-- What was added on a day, and the total of the days before it. -/
structure Day (A : Type) where
  before : A
  value : A
  deriving DecidableEq, Repr

/-- The days by date. -/
abbrev Days (T A : Type) [LinearOrder T] := SortedMap T (Day A)

namespace Days

variable {T A : Type} [LinearOrder T] [AddCommGroup A]

def total (days : Days T A) : A :=
  match days.last? with
  | none => 0
  | some (_, day) => day.before + day.value

def dayAmount (days : Days T A) (date : T) : A :=
  match days.find? date with
  | none => 0
  | some day => day.value

/-- The total before a date that has no day yet. -/
def totalBefore (days : Days T A) (date : T) : A :=
  match days.predecessor? date with
  | none => 0
  | some (_, day) => day.before + day.value

/-- Adds on a date: a new day starts from the total of the day before it, and
every later day moves its start. -/
def addAmount (days : Days T A) (date : T) (amount : A) : Days T A :=
  let inserted := (days.find? date).isNone
  let added := (days.insertNew date ⟨0, 0⟩).modify date
    (fun day => { day with value := day.value + amount })
  let based :=
    if inserted then
      added.modify date (fun day => { day with before := day.before + days.totalBefore date })
    else added
  based.mapWith (fun key day =>
    if date < key then { day with before := day.before + amount } else day)

theorem find?_addAmount (days : Days T A) (date key : T) (amount : A) :
    (days.addAmount date amount).find? key =
      if key = date then
        some (match days.find? date with
          | none => ⟨days.totalBefore date, amount⟩
          | some day => { day with value := day.value + amount })
      else (days.find? key).map (fun day =>
        if date < key then { day with before := day.before + amount } else day) := by
  unfold addAmount
  by_cases hk : key = date
  · subst hk
    cases h : days.find? key <;>
      simp [find?_mapWith, find?_modify, find?_insertNew, h]
  · cases h : days.find? date <;>
      simp [find?_mapWith, find?_modify, find?_insertNew, h, hk]

theorem mem_keys_addAmount {days : Days T A} {date key : T} {amount : A} :
    key ∈ (days.addAmount date amount).keys ↔ key = date ∨ key ∈ days.keys := by
  rw [mem_keys, mem_keys, find?_addAmount]
  by_cases hk : key = date <;> simp [hk]

theorem total_addAmount (days : Days T A) (date : T) (amount : A) :
    (days.addAmount date amount).total = days.total + amount := by
  cases hl : days.last? with
  | none =>
    have none_found := last_eq_none.1 hl
    have last : (days.addAmount date amount).last? = some (date, ⟨0, amount⟩) := by
      refine last_eq_some.2 ⟨?_, fun key hkey => ?_⟩
      · simp [find?_addAmount, none_found, totalBefore, predecessor_empty hl]
      · rcases mem_keys_addAmount.1 hkey with rfl | hkey
        · exact le_rfl
        · simp [mem_keys, none_found] at hkey
    simp [total, last, hl]
  | some entry =>
    obtain ⟨key, day⟩ := entry
    obtain ⟨found, greatest⟩ := last_eq_some.1 hl
    rcases lt_trichotomy date key with lt | rfl | gt
    · -- an earlier date moves the start of the last day
      have last : (days.addAmount date amount).last? =
          some (key, { day with before := day.before + amount }) := by
        refine last_eq_some.2 ⟨by simp [find?_addAmount, lt.ne', found, lt], ?_⟩
        intro j hj
        rcases mem_keys_addAmount.1 hj with rfl | hj
        · exact lt.le
        · exact greatest j hj
      simp [total, last, hl, add_right_comm]
    · have last : (days.addAmount date amount).last? =
          some (date, { day with value := day.value + amount }) := by
        refine last_eq_some.2 ⟨by simp [find?_addAmount, found], ?_⟩
        intro j hj
        rcases mem_keys_addAmount.1 hj with rfl | hj
        · exact le_rfl
        · exact greatest j hj
      simp [total, last, hl, add_assoc]
    · -- a later date starts from the last day's total
      have missing : days.find? date = none := by
        cases h : days.find? date with
        | none => rfl
        | some d => exact absurd (greatest date (mem_keys.2 (by simp [h]))) gt.not_ge
      have last : (days.addAmount date amount).last? =
          some (date, ⟨day.before + day.value, amount⟩) := by
        refine last_eq_some.2 ⟨?_, fun j hj => ?_⟩
        · simp [find?_addAmount, missing, totalBefore, predecessor_of_last_lt hl gt]
        · rcases mem_keys_addAmount.1 hj with rfl | hj
          · exact le_rfl
          · exact (greatest j hj).trans gt.le
      simp [total, last, hl]

theorem dayAmount_addAmount (days : Days T A) (date key : T) (amount : A) :
    (days.addAmount date amount).dayAmount key =
      days.dayAmount key + if key = date then amount else 0 := by
  unfold dayAmount
  rw [find?_addAmount]
  by_cases hk : key = date
  · subst hk
    cases h : days.find? key <;> simp
  · cases h : days.find? key with
    | none => simp [hk]
    | some day => by_cases lt : date < key <;> simp [hk, lt]

@[simp] theorem dayAmount_empty (date : T) :
    dayAmount (empty : Days T A) date = 0 := rfl

end Days

/-- One ledger for each entity that has one. -/
abbrev Ledgers (K T A : Type) [LinearOrder K] [LinearOrder T] := SortedMap K (Days T A)

namespace Ledgers

variable {K T A : Type} [LinearOrder K] [LinearOrder T] [AddCommGroup A]

/-- The ledger of an entity, empty before its first record. -/
def days (m : Ledgers K T A) (id : K) : Days T A := (m.find? id).getD SortedMap.empty

def total (m : Ledgers K T A) (id : K) : A := (days m id).total

def record (m : Ledgers K T A) (id : K) (date : T) (amount : A) : Ledgers K T A :=
  m.put id ((days m id).addAmount date amount)

omit [AddCommGroup A] in
theorem days_put (m : Ledgers K T A) (id : K) (d : Days T A) : days (m.put id d) id = d := by
  simp [days, find?_put]

theorem modify_eq_record {m : Ledgers K T A} {id : K} (h : (m.find? id).isSome)
    (date : T) (amount : A) :
    modify m id (·.addAmount date amount) = record m id date amount := by
  obtain ⟨days, found⟩ := Option.isSome_iff_exists.1 h
  refine ext_find fun id' => ?_
  by_cases e : id' = id
  · simp [record, find?_modify, find?_put, Ledgers.days, e, found]
  · simp [record, find?_modify, find?_put, e]

section
variable (m : Ledgers K T A)

/-- Recording into an entity inserted, if it is new, with an empty ledger. -/
theorem modify_insertNew_eq_record (id : K) (date : T) (amount : A) :
    modify (insertNew m id empty) id (·.addAmount date amount) =
      record m id date amount := by
  refine ext_find fun id' => ?_
  by_cases e : id' = id
  · cases found : m.find? id <;>
      simp [record, find?_modify, find?_put, find?_insertNew, Ledgers.days, e, found]
  · simp [record, find?_modify, find?_put, find?_insertNew, e]

theorem days_record (id id' : K) (date : T) (amount : A) :
    days (record m id date amount) id' =
      if id' = id then (days m id).addAmount date amount else days m id' := by
  unfold record
  by_cases h : id' = id
  · simp [days, find?_put, h]
  · rw [if_neg h, days, find?_put, if_neg h, days]

theorem total_record (id id' : K) (date : T) (amount : A) :
    total (record m id date amount) id' = total m id' + if id' = id then amount else 0 := by
  unfold total
  rw [days_record]
  by_cases h : id' = id
  · simp [h, Days.total_addAmount]
  · simp [h]

theorem isSome_record (id id' : K) (date : T) (amount : A) :
    ((record m id date amount).find? id').isSome = (decide (id' = id) || (m.find? id').isSome) := by
  by_cases h : id' = id <;> simp [record, find?_put, h]

end

end Ledgers

end AdServer.Lib
