import AdServer.UserBind.BoundRecord
import Mathlib.Tactic.ByContra

/-!
# The bad events of a day

Calls with another user id are counted for the day they come in. The count has
eight bits, its day sixteen, and it is set back only by a call that adds to it.
-/

namespace AdServer.UserBind

/-- Calls that contest the user id: `co_add_user_id` that saves over a record and
counts, and `co_get_user_id` that is not silent. -/
def Call.Contests : Call → Prop
  | .addUserId _ _ resaveIfExists ignoreBadEvent _ => resaveIfExists = true ∧ ignoreBadEvent = false
  | .getUserId _ _ silent _ _ _ _ => silent = false

def Call.now : Call → Time
  | .addUserId _ now _ _ _ => now
  | .getUserId _ now _ _ _ _ _ => now

def Call.IsGet : Call → Prop
  | .addUserId .. => False
  | .getUserId .. => True

/-- Calls of one UTC day. -/
def OnDay (day : Nat) (calls : List Call) : Prop :=
  ∀ call ∈ calls, call.Contests ∧ curDay call.now = day

section Runs
variable (config : Config)

def storedAfter (stored : Option StoredRecord) (calls : List Call) : Option StoredRecord :=
  calls.foldl (fun stored call => (call.step config stored).2) stored

def storedUserId (stored : Option StoredRecord) : UserId := stored.bind (·.userId)

/-- How often the stored user id changes. -/
def changes : Option StoredRecord → List Call → Nat
  | _, [] => 0
  | stored, call :: calls =>
    (if storedUserId (call.step config stored).2 = storedUserId stored then 0 else 1) +
      changes (call.step config stored).2 calls

/-- What the calls return, and the user id that is stored after each. -/
def answers : Option StoredRecord → List Call → List (UserInfo × UserId)
  | _, [] => []
  | stored, call :: calls =>
    ((call.step config stored).1, storedUserId (call.step config stored).2) ::
      answers (call.step config stored).2 calls

/-- After an invalid operation the user id is not changed by `co_add_user_id`. -/
def StaysBound (stored : Option StoredRecord) (calls : List Call) : Prop :=
  ∀ before call between userId now setCookieFlag after,
    calls = before ++ call :: (between ++ .addUserId userId now true false setCookieFlag :: after) →
    (call.step config (storedAfter config stored before)).1.invalidOperation = true →
    let left := storedAfter config stored (before ++ call :: between)
    let last := (Call.addUserId userId now true false setCookieFlag).step config left
    userId ≠ storedUserId left →
      last.1.invalidOperation = true ∧ storedUserId last.2 = storedUserId left

/-- On a new day the calls do what they would if no bad event had been counted. -/
def CountsAnew (day : Nat) (stored : StoredRecord) (calls : List Call) : Prop :=
  ∀ record, deserializeBound stored = some record → record.lastBadEventDay.toNat ≠ day →
    answers config (some stored) calls =
      answers config (some { stored with badEventCount := 0 }) calls

/-- What is promised of a day's calls on a record. -/
structure ProtectedAllDay (day : Nat) (stored : StoredRecord) (calls : List Call) : Prop where
  changes_le : changes config (some stored) calls ≤ config.maxBadEvent
  staysBound : StaysBound config (some stored) calls
  countsAnew : CountsAnew config day stored calls

/-! ## Calls that the fields allow -/

/-- A call that comes with another user id than that of the record. -/
def Call.ComesWithOther (record : BoundRecord) : Call → Prop
  | .addUserId userId _ _ _ _ => userId ≠ record.userId
  | .getUserId currentUserId _ _ _ forSetCookie generateUserId newUserId =>
    if record.userId = none then generateUserId = true ∧ newUserId ≠ none
    else forSetCookie = true ∧ currentUserId ≠ record.userId

/-- A call of `co_get_user_id` that is answered by the count and adds nothing to it. -/
def Call.AsksAgain (record : BoundRecord) : Call → Prop
  | .addUserId .. => False
  | .getUserId currentUserId _ _ _ forSetCookie _ _ =>
    forSetCookie = true ∧ record.userId ≠ none ∧ currentUserId = record.userId

/-- A call whose bad event fits the counter, on a day that fits its field, and which
is not answered by the count of an earlier day if that is above the limit. -/
structure Calm (day : Nat) (record : BoundRecord) (call : Call) : Prop where
  day_lt : day < 2 ^ 16
  count_lt : call.ComesWithOther record → record.lastBadEventDay.toNat = day →
    record.badEventCount.toNat < 255
  count_le : call.AsksAgain record → record.lastBadEventDay.toNat ≠ day →
    record.badEventCount.toNat ≤ config.maxBadEvent

def CalmRun (day : Nat) : Option StoredRecord → List Call → Prop
  | _, [] => True
  | stored, call :: calls =>
    (∀ record, stored.bind deserializeBound = some record → Calm config day record call) ∧
      CalmRun day (call.step config stored).2 calls

end Runs

variable {config : Config} {day : Nat} {record : BoundRecord} {call : Call}

/-- The bad events that count on a day. -/
def used (day : Nat) (record : BoundRecord) : Nat :=
  if record.lastBadEventDay.toNat = day then record.badEventCount.toNat else 0

/-- A call that counts nothing and leaves the user id. -/
structure Quiet (config : Config) (record next : BoundRecord) (result : UserInfo) : Prop where
  userId : next.userId = record.userId
  flags : next.flags = record.flags
  count : next.badEventCount = record.badEventCount
  countDay : next.lastBadEventDay = record.lastBadEventDay
  invalid : result.invalidOperation = true → config.maxBadEvent < record.badEventCount.toNat

/-- A call that counts; it is invalid from the limit on, and changes the user id only
below it. -/
structure Counted (config : Config) (day : Nat) (record next : BoundRecord) (result : UserInfo) :
    Prop where
  flags : next.flags = record.flags
  countDay : next.lastBadEventDay = .ofNat day
  count : next.badEventCount =
    (if record.lastBadEventDay.toNat = day then record.badEventCount else 0) + 1
  invalid : result.invalidOperation = true ↔ config.maxBadEvent ≤ used day record
  userId : config.maxBadEvent ≤ used day record → next.userId = record.userId

/-! ## One call -/

theorem rotateBadEventCount_spec (record : BoundRecord) (now : Time) :
    rotateBadEventCount record now = { record with
      lastBadEventDay := .ofNat (curDay now)
      badEventCount :=
        if record.lastBadEventDay.toNat = curDay now then record.badEventCount else 0 } := by
  unfold rotateBadEventCount
  by_cases same : record.lastBadEventDay.toNat = curDay now
  · simp [← same]
  · rw [if_pos (Ne.symm same), if_neg same]

theorem toNat_rotated (record : BoundRecord) (day : Nat) :
    (if record.lastBadEventDay.toNat = day then record.badEventCount else 0).toNat =
      used day record := by
  unfold used
  split <;> rfl

theorem contestUserId_same (userId : UserId) (now : Time) (same : userId = record.userId) :
    contestUserId config record userId now = (record, false) := by
  rw [contestUserId, if_neg (by simpa using same)]

theorem contestUserId_other {userId : UserId} {now : Time} (other : userId ≠ record.userId) :
    contestUserId config record userId now =
      ({ record with
          lastBadEventDay := .ofNat (curDay now)
          badEventCount :=
            (if record.lastBadEventDay.toNat = curDay now then record.badEventCount else 0) + 1
          userId := if used (curDay now) record < config.maxBadEvent then userId
            else record.userId },
        !decide (used (curDay now) record < config.maxBadEvent)) := by
  simp only [contestUserId, if_pos other, rotateBadEventCount_spec, toNat_rotated]

theorem saveUserId_cases (flag : record.HasSetCookie) {result : UserInfo} (userId : UserId)
    (setCookieFlag : Bool) (now : Time) (valid : result.invalidOperation = false) :
    let saved := saveUserId config record result userId false setCookieFlag now
    (userId = record.userId → Quiet config record saved.1 saved.2 ∧
      saved.2.invalidOperation = false) ∧
    (userId ≠ record.userId → Counted config (curDay now) record saved.1 saved.2 ∧
      saved.1.userId = if used (curDay now) record < config.maxBadEvent then userId
        else record.userId) := by
  constructor
  · intro same
    simp only [saveUserId, if_pos flag, contestUserId_same userId now same]
    exact ⟨⟨rfl, rfl, rfl, rfl, by simp [valid]⟩, by simp [valid]⟩
  · intro other
    simp only [saveUserId, if_pos flag, contestUserId_other other]
    refine ⟨⟨rfl, rfl, rfl, by simp [valid], fun full => ?_⟩, rfl⟩
    exact if_neg (by omega)

theorem addUserIdI_saves {loaded : BoundRecord} {userId : UserId} {now : Time}
    {resaveIfExists setCookieFlag : Bool}
    (saves : resaveIfExists = true ∨ loaded.userId = none) :
    ∃ result : UserInfo, result.invalidOperation = false ∧
      result.userFound = loaded.userId.isSome ∧
      addUserIdI config userId now resaveIfExists false setCookieFlag (some loaded) =
        ((saveUserId config loaded result userId false setCookieFlag now).2,
          some (saveUserId config loaded result userId false setCookieFlag now).1) := by
  refine ⟨adaptBoundRecord loaded false loaded.userId.isSome false, rfl, rfl, ?_⟩
  have taken : (resaveIfExists || !loaded.userId.isSome) = true := by
    rcases saves with saves | none_bound
    · simp [saves]
    · simp [none_bound]
  simp only [addUserIdI, Option.getD_some, Option.isSome_some, Bool.true_and]
  rw [if_pos (by simpa [adaptBoundRecord] using taken)]

theorem generatedUserId_spec (newUserId : UserId) (now : Time) (forSetCookie created : Bool)
    (loaded : Option BoundRecord) :
    (generatedUserId config newUserId now forSetCookie created loaded).2 =
      (addUserIdI config newUserId now false false forSetCookie loaded).2 ∧
    (generatedUserId config newUserId now forSetCookie created loaded).1.invalidOperation =
      (addUserIdI config newUserId now false false forSetCookie loaded).1.invalidOperation := by
  simp only [generatedUserId]
  split <;> exact ⟨rfl, rfl⟩

/-- Of the record only the time it was first seen changes before an id is bound. -/
theorem getUnbound_cases (now createTime : Time) (forSetCookie generateUserId : Bool)
    (newUserId : UserId) (bound : BoundRecord) :
    ∃ seen : Time,
      let done := getUnbound config now false createTime forSetCookie generateUserId newUserId bound
      (generateUserId = true ∧ done = generatedUserId config newUserId now forSetCookie false
        (some { bound with firstSeenTime := seen })) ∨
      (done.1.invalidOperation = false ∧
        (done.2 = none ∨ done.2 = some { bound with firstSeenTime := seen })) := by
  unfold getUnbound
  rw [if_neg Bool.false_ne_true]
  by_cases unseen : bound.firstSeenTime = 0
  · generalize (if createTime = 0 then now else createTime) = seen
    refine ⟨seen, ?_⟩
    dsimp only
    rw [if_pos unseen]
    dsimp only
    split
    · next taken => exact .inl ⟨(Bool.and_eq_true_iff.1 taken).1, rfl⟩
    · exact .inr ⟨rfl, .inr rfl⟩
  · by_cases earlier : createTime ≠ 0 ∧ createTime < bound.firstSeenTime
    · refine ⟨createTime, ?_⟩
      dsimp only
      rw [if_neg unseen, if_pos earlier]
      dsimp only
      split
      · next taken => exact .inl ⟨(Bool.and_eq_true_iff.1 taken).1, rfl⟩
      · exact .inr ⟨rfl, .inr rfl⟩
    · refine ⟨bound.firstSeenTime, ?_⟩
      dsimp only
      rw [if_neg unseen, if_neg earlier]
      dsimp only
      split
      · next taken => exact .inl ⟨(Bool.and_eq_true_iff.1 taken).1, rfl⟩
      · exact .inr ⟨rfl, .inl rfl⟩

/-- A call on a record with the flag: one with the user id of the record counts
nothing; another one counts, or does nothing because the record has no user id yet and
is too young for one. -/
inductive Executed (config : Config) (day : Nat) (record : BoundRecord) (call : Call)
    (next : BoundRecord) (result : UserInfo) : Prop where
  | quiet (same : ¬ call.ComesWithOther record) (kept : Quiet config record next result)
      (asks : result.invalidOperation = true → call.AsksAgain record)
  | idle (asks : call.IsGet) (kept : Quiet config record next result)
      (valid : result.invalidOperation = false)
  | counted (other : call.ComesWithOther record) (counts : Counted config day record next result)

theorem executed_getUnbound (flag : record.HasSetCookie) (none_bound : record.userId = none)
    (currentUserId : UserId) (now createTime : Time) (forSetCookie generateUserId : Bool)
    (newUserId : UserId) :
    let done := getUnbound config now false createTime forSetCookie generateUserId newUserId record
    Executed config (curDay now) record
      (.getUserId currentUserId now false createTime forSetCookie generateUserId newUserId)
      (done.2.getD record) done.1 := by
  obtain ⟨seen, ⟨generates, eq⟩ | ⟨valid, saved⟩⟩ := @getUnbound_cases config now createTime
    forSetCookie generateUserId newUserId record
  · dsimp only
    obtain ⟨saved, invalid⟩ := @generatedUserId_spec config newUserId now forSetCookie false
      (some { record with firstSeenTime := seen })
    obtain ⟨result, valid, -, saves⟩ := @addUserIdI_saves config
      { record with firstSeenTime := seen } newUserId now false forSetCookie (.inr none_bound)
    have cases := @saveUserId_cases config { record with firstSeenTime := seen } flag result
      newUserId forSetCookie now valid
    rw [saves] at saved invalid
    rw [eq, saved, Option.getD_some]
    by_cases same : newUserId = record.userId
    · obtain ⟨kept, still_valid⟩ := cases.1 same
      exact .idle trivial ⟨kept.userId, kept.flags, kept.count, kept.countDay,
        fun bad => kept.invalid (invalid ▸ bad)⟩ (invalid.trans still_valid)
    · obtain ⟨counts, -⟩ := cases.2 same
      refine .counted ?_ ⟨counts.flags, counts.countDay, counts.count, ?_, counts.userId⟩
      · rw [Call.ComesWithOther, if_pos none_bound]
        exact ⟨generates, none_bound ▸ same⟩
      · rw [invalid]
        exact counts.invalid
  · dsimp only
    refine .idle trivial ?_ valid
    have no_more : ∀ next : BoundRecord, next.userId = record.userId → next.flags = record.flags →
        next.badEventCount = record.badEventCount →
        next.lastBadEventDay = record.lastBadEventDay →
        Quiet config record next (getUnbound config now false createTime forSetCookie
          generateUserId newUserId record).1 :=
      fun _ h₁ h₂ h₃ h₄ => ⟨h₁, h₂, h₃, h₄, fun bad => absurd bad (by simp [valid])⟩
    rcases saved with saved | saved <;> rw [saved] <;> exact no_more _ rfl rfl rfl rfl

theorem toNat_counted (room : used day record < 255) :
    ((if record.lastBadEventDay.toNat = day then record.badEventCount else 0) + 1).toNat =
      used day record + 1 := by
  rw [UInt8.toNat_add, toNat_rotated, UInt8.toNat_one]
  omega

theorem getBound_other (flag : record.HasSetCookie) {currentUserId : UserId}
    (other : record.userId ≠ currentUserId) (now : Time) :
    getBound config currentUserId now true record =
      let counted := { record with
        lastBadEventDay := .ofNat (curDay now)
        badEventCount :=
          (if record.lastBadEventDay.toNat = curDay now then record.badEventCount else 0) + 1 }
      (adaptBoundRecord counted false true (decide (counted.HasSetCookie ∧
        config.maxBadEvent < counted.badEventCount.toNat)), some counted) := by
  rw [getBound, if_pos rfl, if_pos flag, if_pos other, rotateBadEventCount_spec]
  rfl

theorem executed_getBound (flag : record.HasSetCookie) (bound : record.userId ≠ none)
    (currentUserId : UserId) (now createTime : Time) (forSetCookie generateUserId : Bool)
    (newUserId : UserId)
    (room : forSetCookie = true → currentUserId ≠ record.userId →
      used (curDay now) record < 255) :
    let done := getBound config currentUserId now forSetCookie record
    Executed config (curDay now) record
      (.getUserId currentUserId now false createTime forSetCookie generateUserId newUserId)
      (done.2.getD record) done.1 := by
  dsimp only
  cases forSetCookie with
  | false => exact .idle trivial ⟨rfl, rfl, rfl, rfl, by simp [getBound, adaptBoundRecord]⟩ rfl
  | true =>
    by_cases same : record.userId = currentUserId
    · rw [getBound, if_pos rfl, if_pos flag, if_neg (by simpa using same)]
      refine .quiet ?_ ⟨rfl, rfl, rfl, rfl, ?_⟩ fun _ => ⟨rfl, bound, same.symm⟩
      · rw [Call.ComesWithOther, if_neg bound]
        simp [same]
      · intro bad
        exact (of_decide_eq_true bad).2
    · rw [getBound_other flag same]
      refine .counted ?_ ⟨rfl, rfl, rfl, ?_, fun _ => rfl⟩
      · rw [Call.ComesWithOther, if_neg bound]
        exact ⟨rfl, Ne.symm same⟩
      · simp only [adaptBoundRecord, toNat_counted (room rfl (Ne.symm same)), decide_eq_true_eq,
          Nat.lt_succ_iff]
        exact and_iff_right flag

theorem executed (flag : record.HasSetCookie) (contests : call.Contests)
    (today : curDay call.now = day) (room : call.ComesWithOther record → used day record < 255) :
    Executed config day record call ((call.execute config (some record)).2.getD record)
      (call.execute config (some record)).1 := by
  subst today
  cases call with
  | addUserId userId now resaveIfExists ignoreBadEvent setCookieFlag =>
    obtain ⟨rfl, rfl⟩ := contests
    obtain ⟨result, valid, -, saves⟩ :=
      @addUserIdI_saves config record userId now true setCookieFlag (.inl rfl)
    have cases := @saveUserId_cases config record flag result userId setCookieFlag now valid
    rw [Call.execute, saves, Option.getD_some]
    by_cases same : userId = record.userId
    · obtain ⟨kept, still_valid⟩ := cases.1 same
      exact .quiet (not_not.2 same) kept fun bad => by simp [still_valid] at bad
    · exact .counted same (cases.2 same).1
  | getUserId currentUserId now silent createTime forSetCookie generateUserId newUserId =>
    obtain rfl : silent = false := contests
    rw [Call.execute]
    split
    · next none_bound => exact executed_getUnbound flag none_bound ..
    · next bound =>
      rw [Call.ComesWithOther, if_neg bound] at room
      exact executed_getBound flag bound currentUserId now createTime forSetCookie generateUserId
        newUserId fun asked other => room ⟨asked, other⟩

/-! ## One call on what is stored -/

/-- Records with the same user id, flags and bad events. -/
structure SameBinding (a b : BoundRecord) : Prop where
  userId : a.userId = b.userId
  flags : a.flags = b.flags
  count : a.badEventCount = b.badEventCount
  countDay : a.lastBadEventDay = b.lastBadEventDay

theorem Executed.congr {next next' : BoundRecord} {result : UserInfo}
    (h : Executed config day record call next result) (same : SameBinding next' next) :
    Executed config day record call next' result := by
  have quiet (kept : Quiet config record next result) : Quiet config record next' result :=
    ⟨same.userId.trans kept.userId, same.flags.trans kept.flags, same.count.trans kept.count,
      same.countDay.trans kept.countDay, kept.invalid⟩
  cases h with
  | quiet own kept asks => exact .quiet own (quiet kept) asks
  | idle asks kept valid => exact .idle asks (quiet kept) valid
  | counted other counts =>
    exact .counted other ⟨same.flags.trans counts.flags, same.countDay.trans counts.countDay,
      same.count.trans counts.count, counts.invalid,
      fun full => same.userId.trans (counts.userId full)⟩

def Loads (stored : Option StoredRecord) (record : BoundRecord) : Prop :=
  stored.bind deserializeBound = some record

variable {stored a b : Option StoredRecord} {calls before after : List Call}

theorem Loads.storedUserId (loads : Loads stored record) : storedUserId stored = record.userId := by
  cases stored with
  | none => cases loads
  | some stored =>
    simp only [Loads, Option.bind_some, deserializeBound] at loads
    split at loads
    · cases loads
    · cases loads
      rfl

theorem loads_serializeBound (record : BoundRecord) :
    Loads (some (serializeBound record)) record.reloaded :=
  deserializeBound_serializeBound record

section
variable (loads : Loads stored record)
include loads

theorem step_loads (call : Call) :
    ∃ next, Loads (call.step config stored).2 next ∧
      SameBinding next ((call.execute config (some record)).2.getD record) ∧
      (call.step config stored).1 = (call.execute config (some record)).1 := by
  have executed : call.execute config (stored.bind deserializeBound) =
      call.execute config (some record) := congrArg _ loads
  simp only [Call.step, executed]
  cases (call.execute config (some record)).2 with
  | none => exact ⟨record, loads, ⟨rfl, rfl, rfl, rfl⟩, trivial⟩
  | some saved =>
    exact ⟨saved.reloaded, loads_serializeBound saved, ⟨rfl, rfl, rfl, rfl⟩, trivial⟩

section
variable (flag : record.HasSetCookie)
include flag

theorem step_executed (contests : call.Contests) (today : curDay call.now = day)
    (calm : Calm config day record call) :
    ∃ next, Loads (call.step config stored).2 next ∧ next.HasSetCookie ∧
      Executed config day record call next (call.step config stored).1 ∧
      used day record ≤ used day next ∧
      (next.userId ≠ record.userId →
        used day record < config.maxBadEvent ∧ used day next = used day record + 1) ∧
      ((call.step config stored).1.invalidOperation = true →
        config.maxBadEvent ≤ used day next) := by
  have room (other : call.ComesWithOther record) : used day record < 255 := by
    unfold used
    split
    · next same => exact calm.count_lt other same
    · omega
  obtain ⟨next, loads', same, result⟩ := @step_loads config record stored loads call
  have done := (executed flag contests today room).congr same
  rw [← result] at done
  have quiet (kept : Quiet config record next (call.step config stored).1) :
      next.HasSetCookie ∧ used day next = used day record ∧ next.userId = record.userId := by
    refine ⟨?_, ?_, kept.userId⟩
    · rw [BoundRecord.HasSetCookie, kept.flags]
      exact flag
    · rw [used, used, kept.countDay, kept.count]
  refine ⟨next, loads', ?_⟩
  cases done with
  | quiet own kept asks =>
    obtain ⟨flag', count, userId⟩ := quiet kept
    refine ⟨flag', .quiet own kept asks, by omega, fun h => absurd userId h, fun bad => ?_⟩
    have exceeds := kept.invalid bad
    have current : record.lastBadEventDay.toNat = day := by
      by_contra old
      have := calm.count_le (asks bad) old
      omega
    rw [count, used, if_pos current]
    omega
  | idle asks kept valid =>
    obtain ⟨flag', count, userId⟩ := quiet kept
    exact ⟨flag', .idle asks kept valid, by omega, fun h => absurd userId h,
      fun bad => absurd bad (by simp [valid])⟩
  | counted other counts =>
    have count : used day next = used day record + 1 := by
      have dayFits : (UInt16.ofNat day).toNat = day :=
        UInt16.toNat_ofNat_of_lt calm.day_lt
      rw [used, counts.countDay, if_pos dayFits, counts.count, toNat_counted (room other)]
    refine ⟨?_, .counted other counts, by omega, fun h => ⟨?_, count⟩, fun bad => ?_⟩
    · rw [BoundRecord.HasSetCookie, counts.flags]
      exact flag
    · by_contra full
      exact h (counts.userId (by omega))
    · have := counts.invalid.1 bad
      omega

/-! ## A day of calls -/

theorem changes_le (onDay : OnDay day calls) (calm : CalmRun config day stored calls) :
    changes config stored calls ≤ config.maxBadEvent - used day record := by
  induction calls generalizing stored record with
  | nil => exact Nat.zero_le _
  | cons call calls ih =>
    obtain ⟨calmNow, calmLater⟩ := calm
    obtain ⟨contests, today⟩ := onDay call List.mem_cons_self
    obtain ⟨next, loads', flag', -, grows, change, -⟩ :=
      step_executed loads flag contests today (calmNow record loads)
    have later := ih loads' flag' (fun c member => onDay c (List.mem_cons_of_mem _ member)) calmLater
    rw [changes, loads.storedUserId, loads'.storedUserId]
    split
    · omega
    · next changed =>
      obtain ⟨below, count⟩ := change changed
      omega

theorem used_le_run (onDay : OnDay day calls) (calm : CalmRun config day stored calls) :
    ∃ last, Loads (storedAfter config stored calls) last ∧ last.HasSetCookie ∧
      used day record ≤ used day last := by
  induction calls generalizing stored record with
  | nil => exact ⟨record, loads, flag, Nat.le_refl _⟩
  | cons call calls ih =>
    obtain ⟨calmNow, calmLater⟩ := calm
    obtain ⟨contests, today⟩ := onDay call List.mem_cons_self
    obtain ⟨next, loads', flag', -, grows, -, -⟩ :=
      step_executed loads flag contests today (calmNow record loads)
    obtain ⟨last, loadsLast, flagLast, more⟩ :=
      ih loads' flag' (fun c member => onDay c (List.mem_cons_of_mem _ member)) calmLater
    exact ⟨last, loadsLast, flagLast, by omega⟩

end

end

theorem storedAfter_append (stored : Option StoredRecord) (before after : List Call) :
    storedAfter config stored (before ++ after) =
      storedAfter config (storedAfter config stored before) after := by
  simp [storedAfter]

theorem calmRun_append :
    CalmRun config day stored (before ++ after) ↔ CalmRun config day stored before ∧
      CalmRun config day (storedAfter config stored before) after := by
  induction before generalizing stored with
  | nil => simp [CalmRun, storedAfter]
  | cons call before ih => simp only [List.cons_append, CalmRun, ih, and_assoc, storedAfter,
      List.foldl_cons]

theorem onDay_append : OnDay day (before ++ after) ↔ OnDay day before ∧ OnDay day after := by
  constructor
  · intro onDay
    exact ⟨fun c member => onDay c (List.mem_append_left _ member),
      fun c member => onDay c (List.mem_append_right _ member)⟩
  · rintro ⟨first, second⟩ c member
    rcases List.mem_append.1 member with member | member
    · exact first c member
    · exact second c member

theorem staysBound (loads : Loads stored record) (flag : record.HasSetCookie)
    (onDay : OnDay day calls) (calm : CalmRun config day stored calls) :
    StaysBound config stored calls := by
  rintro before call between userId now setCookieFlag after rfl invalid
  obtain ⟨onDayBefore, onDayRest⟩ := onDay_append.1 onDay
  obtain ⟨calmBefore, calmNow, calmRest⟩ := calmRun_append.1 calm
  obtain ⟨onDayBetween, onDayLast⟩ := onDay_append.1
    fun c member => onDayRest c (List.mem_cons_of_mem _ member)
  obtain ⟨calmBetween, calmLast, -⟩ := calmRun_append.1 calmRest
  obtain ⟨contests, today⟩ := onDayRest call List.mem_cons_self
  obtain ⟨first, loadsFirst, flagFirst, -⟩ := used_le_run loads flag onDayBefore calmBefore
  obtain ⟨second, loadsSecond, flagSecond, -, -, -, full⟩ :=
    step_executed loadsFirst flagFirst contests today (calmNow first loadsFirst)
  obtain ⟨third, loadsThird, flagThird, more⟩ :=
    used_le_run loadsSecond flagSecond onDayBetween calmBetween
  have full := full invalid
  have whole : storedAfter config stored (before ++ call :: between) =
      storedAfter config (call.step config (storedAfter config stored before)).2 between := by
    rw [storedAfter_append]
    rfl
  rw [whole]
  intro left last other
  obtain ⟨contests', today'⟩ := onDayLast _ List.mem_cons_self
  obtain ⟨next, loadsNext, -, done, -, -, -⟩ :=
    step_executed loadsThird flagThird contests' today' (calmLast third loadsThird)
  rw [loadsThird.storedUserId] at other
  cases done with
  | quiet own => exact absurd other own
  | idle asks kept valid => exact asks.elim
  | counted _ counts =>
    refine ⟨counts.invalid.2 (by omega), ?_⟩
    rw [loadsNext.storedUserId, loadsThird.storedUserId]
    exact counts.userId (by omega)

/-! ## A new day -/

def BoundRecord.uncounted (record : BoundRecord) : BoundRecord := { record with badEventCount := 0 }

/-- A call on a record whose count is of an earlier day, and on the record without
the count: they return the same and save the same, or save what differs in the count
only. -/
def SameUncounted (day : Nat) (a b : UserInfo × Option BoundRecord) : Prop :=
  b.1 = a.1 ∧ (b.2 = a.2 ∨ b.2 = a.2.map (·.uncounted) ∧
    ∀ saved ∈ a.2, saved.lastBadEventDay.toNat ≠ day)

theorem contestUserId_uncounted {userId : UserId} {now : Time}
    (old : record.lastBadEventDay.toNat ≠ curDay now) (other : userId ≠ record.userId) :
    contestUserId config record.uncounted userId now = contestUserId config record userId now := by
  have other' : userId ≠ record.uncounted.userId := other
  rw [contestUserId_other other, contestUserId_other other']
  simp [BoundRecord.uncounted, used, old]

section
variable (flag : record.HasSetCookie)
include flag

theorem saveUserId_uncounted (result : UserInfo) (userId : UserId) (setCookieFlag : Bool)
    {now : Time} (old : record.lastBadEventDay.toNat ≠ curDay now) :
    let a := saveUserId config record result userId false setCookieFlag now
    let b := saveUserId config record.uncounted result userId false setCookieFlag now
    b.2 = a.2 ∧ (b.1 = a.1 ∨ b.1 = a.1.uncounted ∧ a.1.lastBadEventDay.toNat ≠ curDay now) := by
  have flag' : record.uncounted.HasSetCookie := flag
  by_cases same : userId = record.userId
  · simp only [saveUserId, if_pos flag, if_pos flag', contestUserId_same userId now same,
      @contestUserId_same config record.uncounted userId now same]
    exact ⟨trivial, .inr ⟨rfl, old⟩⟩
  · simp only [saveUserId, if_pos flag, if_pos flag', contestUserId_uncounted old same]
    exact ⟨trivial, .inl trivial⟩

theorem addUserIdI_uncounted (userId : UserId) (resaveIfExists setCookieFlag : Bool) {now : Time}
    (old : record.lastBadEventDay.toNat ≠ curDay now) :
    SameUncounted (curDay now)
      (addUserIdI config userId now resaveIfExists false setCookieFlag (some record))
      (addUserIdI config userId now resaveIfExists false setCookieFlag (some record.uncounted)) := by
  have same : adaptBoundRecord record.uncounted = adaptBoundRecord record := rfl
  have whether : record.uncounted.userId.isSome = record.userId.isSome := rfl
  simp only [addUserIdI, Option.getD_some, same, whether, Option.isSome_some]
  by_cases saves : (resaveIfExists ||
      !(adaptBoundRecord record false (true && record.userId.isSome) false).userFound) = true
  · rw [if_pos saves, if_pos saves]
    obtain ⟨result, saved⟩ := @saveUserId_uncounted config record flag
      (adaptBoundRecord record false (true && record.userId.isSome) false) userId setCookieFlag
      now old
    refine ⟨result, ?_⟩
    rcases saved with saved | ⟨saved, later⟩
    · exact .inl (congrArg some saved)
    · refine .inr ⟨congrArg some saved, ?_⟩
      rintro _ ⟨⟩
      exact later
  · rw [if_neg saves, if_neg saves]
    exact ⟨rfl, .inl rfl⟩

theorem generatedUserId_uncounted (newUserId : UserId) (forSetCookie created : Bool) {now : Time}
    (old : record.lastBadEventDay.toNat ≠ curDay now) :
    SameUncounted (curDay now)
      (generatedUserId config newUserId now forSetCookie created (some record))
      (generatedUserId config newUserId now forSetCookie created (some record.uncounted)) := by
  obtain ⟨result, saved⟩ := @addUserIdI_uncounted config record flag newUserId false forSetCookie
    now old
  simp only [generatedUserId, result]
  split <;> exact ⟨rfl, saved⟩

theorem getUnbound_uncounted (createTime : Time) (forSetCookie generateUserId : Bool)
    (newUserId : UserId) {now : Time} (old : record.lastBadEventDay.toNat ≠ curDay now) :
    SameUncounted (curDay now)
      (getUnbound config now false createTime forSetCookie generateUserId newUserId record)
      (getUnbound config now false createTime forSetCookie generateUserId newUserId
        record.uncounted) := by
  have seen (time : Time) :
      ({ record.uncounted with firstSeenTime := time } : BoundRecord) =
        BoundRecord.uncounted { record with firstSeenTime := time } := rfl
  have adapted (bound : BoundRecord) : adaptUnboundRecord config bound.uncounted false now =
      adaptUnboundRecord config bound false now := rfl
  have first : record.uncounted.firstSeenTime = record.firstSeenTime := rfl
  have decided (bound : BoundRecord) (changed : Bool) (flag : bound.HasSetCookie)
      (old : bound.lastBadEventDay.toNat ≠ curDay now) :
      SameUncounted (curDay now)
        (if generateUserId && (adaptUnboundRecord config bound false now).minAgeReached then
          generatedUserId config newUserId now forSetCookie false (some bound)
        else (adaptUnboundRecord config bound false now, if changed then some bound else none))
        (if generateUserId && (adaptUnboundRecord config bound false now).minAgeReached then
          generatedUserId config newUserId now forSetCookie false (some bound.uncounted)
        else (adaptUnboundRecord config bound false now,
          if changed then some bound.uncounted else none)) := by
    split
    · exact generatedUserId_uncounted flag newUserId forSetCookie false old
    · refine ⟨rfl, .inr ?_⟩
      cases changed with
      | false => exact ⟨rfl, by simp⟩
      | true =>
        refine ⟨rfl, ?_⟩
        rintro _ ⟨⟩
        exact old
  simp only [getUnbound, first, seen, Bool.false_eq_true, if_false]
  by_cases unseen : record.firstSeenTime = 0
  · simp only [if_pos unseen, adapted]
    exact decided _ true flag old
  · by_cases earlier : createTime ≠ 0 ∧ createTime < record.firstSeenTime
    · simp only [if_neg unseen, if_pos earlier, adapted]
      exact decided _ true flag old
    · simp only [if_neg unseen, if_neg earlier, adapted]
      exact decided record false flag old

theorem getBound_uncounted (currentUserId : UserId) (forSetCookie : Bool) {now : Time}
    (old : record.lastBadEventDay.toNat ≠ curDay now)
    (low : forSetCookie = true → currentUserId = record.userId →
      record.badEventCount.toNat ≤ config.maxBadEvent) :
    SameUncounted (curDay now) (getBound config currentUserId now forSetCookie record)
      (getBound config currentUserId now forSetCookie record.uncounted) := by
  have flag' : record.uncounted.HasSetCookie := flag
  have whose : record.uncounted.userId = record.userId := rfl
  cases forSetCookie with
  | false => exact ⟨rfl, .inl rfl⟩
  | true =>
    simp only [getBound, if_true, if_pos flag, if_pos flag', whose]
    by_cases same : record.userId = currentUserId
    · simp only [if_neg (not_not.2 same)]
      have valid : ¬ (record.HasSetCookie ∧ config.maxBadEvent < record.badEventCount.toNat) := by
        have := low rfl same.symm
        omega
      have valid' : ¬ (record.uncounted.HasSetCookie ∧
          config.maxBadEvent < record.uncounted.badEventCount.toNat) := by
        simp [BoundRecord.uncounted]
      rw [decide_eq_false valid, decide_eq_false valid']
      exact ⟨rfl, .inl rfl⟩
    · have rotated : rotateBadEventCount record.uncounted now = rotateBadEventCount record now := by
        simp [rotateBadEventCount_spec, BoundRecord.uncounted, old]
      simp only [if_pos (show record.userId ≠ currentUserId from same), rotated]
      exact ⟨rfl, .inl rfl⟩

theorem execute_uncounted (contests : call.Contests) (today : curDay call.now = day)
    (old : record.lastBadEventDay.toNat ≠ day) (calm : Calm config day record call) :
    SameUncounted day (call.execute config (some record))
      (call.execute config (some record.uncounted)) := by
  subst today
  cases call with
  | addUserId userId now resaveIfExists ignoreBadEvent setCookieFlag =>
    obtain ⟨rfl, rfl⟩ := contests
    exact addUserIdI_uncounted flag userId true setCookieFlag old
  | getUserId currentUserId now silent createTime forSetCookie generateUserId newUserId =>
    obtain rfl : silent = false := contests
    have whose : record.uncounted.userId = record.userId := rfl
    simp only [Call.execute, whose]
    split
    · exact getUnbound_uncounted flag createTime forSetCookie generateUserId newUserId old
    · next bound =>
      exact getBound_uncounted flag currentUserId forSetCookie old fun asked same =>
        calm.count_le ⟨asked, bound, same⟩ old

end

/-- Stored records that are loaded alike, but for a count of an earlier day. -/
def AlikeUncounted (day : Nat) (a b : Option StoredRecord) : Prop :=
  a = b ∨ ∃ record, Loads a record ∧ Loads b record.uncounted ∧ record.HasSetCookie ∧
    record.lastBadEventDay.toNat ≠ day

theorem AlikeUncounted.storedUserId (alike : AlikeUncounted day a b) :
    storedUserId a = storedUserId b := by
  rcases alike with rfl | ⟨record, loads, loads', -, -⟩
  · rfl
  · exact loads.storedUserId.trans loads'.storedUserId.symm

theorem step_uncounted (loads : Loads a record) (loads' : Loads b record.uncounted)
    (flag : record.HasSetCookie) (old : record.lastBadEventDay.toNat ≠ day)
    (contests : call.Contests) (today : curDay call.now = day)
    (calm : Calm config day record call) :
    (call.step config a).1 = (call.step config b).1 ∧
      AlikeUncounted day (call.step config a).2 (call.step config b).2 := by
  obtain ⟨result, saved⟩ := execute_uncounted flag contests today old calm
  obtain ⟨next, loadsNext, flagNext, -⟩ := step_executed loads flag contests today calm
  have executedA : call.execute config (a.bind deserializeBound) =
      call.execute config (some record) := congrArg _ loads
  have executedB : call.execute config (b.bind deserializeBound) =
      call.execute config (some record.uncounted) := congrArg _ loads'
  simp only [Call.step, executedA] at loadsNext
  simp only [Call.step, executedA, executedB, result]
  refine ⟨trivial, ?_⟩
  cases eq : (call.execute config (some record)).2 with
  | none =>
    have none_saved : (call.execute config (some record.uncounted)).2 = none := by
      rcases saved with saved | ⟨saved, -⟩ <;> simp [saved, eq]
    rw [none_saved]
    exact .inr ⟨record, loads, loads', flag, old⟩
  | some kept =>
    rw [eq] at loadsNext saved
    rcases saved with saved | ⟨saved, later⟩
    · rw [saved]
      exact .inl rfl
    · rw [saved]
      have reloaded : next = kept.reloaded :=
        Option.some.inj (loadsNext.symm.trans (loads_serializeBound kept))
      subst reloaded
      exact .inr ⟨_, loads_serializeBound kept, loads_serializeBound kept.uncounted, flagNext,
        later kept rfl⟩

theorem answers_uncounted (alike : AlikeUncounted day a b) (onDay : OnDay day calls)
    (calm : CalmRun config day a calls) : answers config a calls = answers config b calls := by
  induction calls generalizing a b with
  | nil => rfl
  | cons call calls ih =>
    rcases alike with rfl | ⟨record, loads, loads', flag, old⟩
    · rfl
    · obtain ⟨calmNow, calmLater⟩ := calm
      obtain ⟨contests, today⟩ := onDay call List.mem_cons_self
      obtain ⟨result, alike⟩ :=
        step_uncounted loads loads' flag old contests today (calmNow record loads)
      rw [answers, answers, result, alike.storedUserId,
        ih alike (fun c member => onDay c (List.mem_cons_of_mem _ member)) calmLater]

theorem deserializeBound_uncounted {stored : StoredRecord}
    (loads : deserializeBound stored = some record) :
    deserializeBound { stored with badEventCount := 0 } = some record.uncounted := by
  unfold deserializeBound at loads ⊢
  split at loads
  · cases loads
  · next known =>
    cases loads
    rw [if_neg known]
    rfl

/-- In a day of calm calls a record with the set-cookie flag is protected. -/
theorem protectedAllDay {config : Config} {day : Nat} {stored : StoredRecord} {calls : List Call}
    {record : BoundRecord} (loads : deserializeBound stored = some record)
    (flag : record.HasSetCookie) (onDay : OnDay day calls)
    (calm : CalmRun config day (some stored) calls) :
    ProtectedAllDay config day stored calls := by
  have loads' : Loads (some stored) record := loads
  refine ⟨?_, staysBound loads' flag onDay calm, ?_⟩
  · have := changes_le loads' flag onDay calm
    omega
  · intro other same old
    obtain rfl : record = other := Option.some.inj (loads.symm.trans same)
    refine answers_uncounted (.inr ⟨record, loads', ?_, flag, old⟩) onDay calm
    exact deserializeBound_uncounted loads

/-- One bad event is let through. The record is as it was saved on day 1, bound to
the user 1 and with the flag. -/
def boundOnce : StoredRecord :=
  serializeBound ⟨oneSecond * oneDay, oneSecond * oneDay, some 1, 1, 0, 1⟩

def onlyOne : Config := ⟨none, 1⟩

def boundAnew (user : Nat) : Call := .addUserId (some user) (oneSecond * oneDay) true false true

/-- The user id is changed to 2, which is its one change, and then user 3 comes. -/
def hostileCalls : List Call := boundAnew 2 :: List.replicate 256 (boundAnew 3)

/-- The counter comes round to zero, and the user id is changed once more. -/
theorem hostileCalls_not_protected : ¬ ProtectedAllDay onlyOne 1 boundOnce hostileCalls := by
  intro h
  have twice : changes onlyOne (some boundOnce) hostileCalls = 2 := by decide +kernel
  have := h.changes_le
  rw [twice] at this
  exact absurd this (by decide)

/-- As it was saved after a bad event of day 0. -/
def countedBefore : StoredRecord :=
  serializeBound ⟨oneSecond * oneDay, oneSecond * oneDay, some 1, 1, 1, 0⟩

def asks (user : Nat) : Call :=
  .getUserId (some user) (oneSecond * oneDay) false 0 true false none

/-- Two other users on the next day: one is let through and then found, the other one is
refused. -/
theorem protectedAllDay_countedBefore :
    ProtectedAllDay onlyOne 1 countedBefore [boundAnew 2, asks 2, asks 3, boundAnew 3] := by
  refine @protectedAllDay onlyOne 1 countedBefore _ _ rfl (by decide) ?_ ?_
  · intro call member
    simp only [List.mem_cons, List.not_mem_nil, or_false] at member
    rcases member with rfl | rfl | rfl | rfl
    · exact ⟨⟨rfl, rfl⟩, by decide⟩
    · exact ⟨rfl, by decide⟩
    · exact ⟨rfl, by decide⟩
    · exact ⟨⟨rfl, rfl⟩, by decide⟩
  · refine ⟨?_, ?_, ?_, ?_, trivial⟩ <;> rintro record ⟨⟩
    · exact ⟨by decide, fun _ _ => by decide, fun _ _ => by decide⟩
    · exact ⟨by decide, fun _ _ => by decide, fun _ _ => by decide⟩
    · exact ⟨by decide, fun _ _ => by decide, fun _ _ => by decide⟩
    · exact ⟨by decide, fun _ _ => by decide, fun again => again.elim⟩

end AdServer.UserBind
