import AdServer.Lib.Runs
import Mathlib.Tactic.Abel

/-!
# The limiter of what is in flight

An acquisition counts its credit while the count is under the limit, and one
that finds the limit reached sleeps under a mutex until a release notifies it.
A release takes its credit off the count and notifies, without the mutex: it
may come between the failed predicate of an acquisition and its sleep.

A wait may end without a notification. `waiters_count_` counts threads, and
does not overflow.
-/

namespace AdServer.Grpc

open AdServer.Lib.Runs

/-- The limiter, its mutex, and the sizes of the acquisitions that sleep. -/
structure InflightLimiter where
  inflightCount : Nat := 0
  waitersCount : Nat := 0
  mutexHeld : Bool := false
  blocked : Multiset Nat := 0
  deriving DecidableEq

/-- Who calls `try_acquire`: its caller, or `acquire` before its mutex, or its predicate. -/
inductive Trying where
  | called
  | fast
  | predicate
  deriving DecidableEq

/-- A call of the limiter, by what it does next. -/
inductive LimiterCall where
  /-- `try_acquire`, before it loads the count and in its loop with the count that it knows. -/
  | loading (trying : Trying) (count : Nat)
  | comparing (trying : Trying) (count inflightCount : Nat)
  /-- `acquire`, before its mutex, before it is counted, between its predicate and its sleep, awake
  before its mutex, before it is not counted any more, and before it unlocks. -/
  | locking (count : Nat)
  | counting (count : Nat)
  | blocking (count : Nat)
  | relocking (count : Nat)
  | leaving (count : Nat)
  | unlocking (count : Nat)
  /-- `release`, before it takes its credit off, before it looks for waiters, and before it
  notifies. -/
  | releasing (count : Nat)
  | lookingForWaiters
  | notifying
  deriving DecidableEq

/-- The limiter, the credit that its callers have, and the sizes of the acquisitions that
succeeded. -/
structure LimiterState where
  limiter : InflightLimiter := {}
  held : Nat := 0
  granted : List Nat := []
  deriving DecidableEq

abbrev LimiterWorld := World LimiterState LimiterCall

/-- The credit is counted: a call of `try_acquire` returns it, a predicate has still to leave. -/
def LimiterState.grant (s : LimiterState) (count : Nat) :
    Trying → LimiterState × Multiset LimiterCall
  | .called | .fast =>
    ({ s with held := s.held + count, granted := s.granted ++ [count] }, 0)
  | .predicate => ({ s with granted := s.granted ++ [count] }, {.leaving count})

/-- What follows a `try_acquire` that fails. -/
def Trying.failed (count : Nat) : Trying → Multiset LimiterCall
  | .called => 0
  | .fast => {.locking count}
  | .predicate => {.blocking count}

/-- `spurious` is a comparison that fails though the counts are equal. -/
def limiterSection (maxInflight : Nat) (spurious : Bool) (s : LimiterState) :
    LimiterCall → Option (LimiterState × Multiset LimiterCall)
  | .loading trying count => some (s, {.comparing trying count s.limiter.inflightCount})
  | .comparing trying count inflightCount =>
    if inflightCount < maxInflight then
      if s.limiter.inflightCount = inflightCount ∧ spurious = false then
        some (({ s with
          limiter.inflightCount := (inflightCount + count) % 2 ^ 64 }).grant count trying)
      else some (s, {.comparing trying count s.limiter.inflightCount})
    else some (s, trying.failed count)
  | .locking count =>
    if s.limiter.mutexHeld then none
    else some ({ s with limiter.mutexHeld := true }, {.counting count})
  | .counting count =>
    some ({ s with limiter.waitersCount := s.limiter.waitersCount + 1 },
      {.loading .predicate count})
  | .blocking count =>
    some ({ s with limiter := { s.limiter with
      mutexHeld := false
      blocked := count ::ₘ s.limiter.blocked } }, 0)
  | .relocking count =>
    if s.limiter.mutexHeld then none
    else some ({ s with limiter.mutexHeld := true }, {.loading .predicate count})
  | .leaving count =>
    some ({ s with limiter.waitersCount := s.limiter.waitersCount - 1 }, {.unlocking count})
  | .unlocking count =>
    some ({ s with limiter.mutexHeld := false, held := s.held + count }, 0)
  | .releasing count =>
    some ({ s with
      limiter.inflightCount := (s.limiter.inflightCount + (2 ^ 64 - count)) % 2 ^ 64 },
      {.lookingForWaiters})
  | .lookingForWaiters =>
    some (s, if s.limiter.waitersCount = 0 then 0 else {.notifying})
  | .notifying =>
    some ({ s with limiter.blocked := 0 }, s.limiter.blocked.map .relocking)

inductive LimiterEvent where
  | tryAcquire (count : Nat)
  | acquire (count : Nat)
  /-- The credit was acquired before. -/
  | release (count : Nat)
  | goesOn (call : LimiterCall) (spurious : Bool)
  /-- A wait ends without a notification. -/
  | wakesUp (count : Nat)

/-- Without a limit every call returns at once. -/
def LimiterWorld.step (maxInflight : Option Nat) (w : LimiterWorld) :
    LimiterEvent → Option LimiterWorld
  | .tryAcquire count =>
    match maxInflight with
    | none => some w
    | some _ => some { w with calls := .loading .called count ::ₘ w.calls }
  | .acquire count =>
    match maxInflight with
    | none => some w
    | some _ => some { w with calls := .loading .fast count ::ₘ w.calls }
  | .release count =>
    match maxInflight with
    | none => some w
    | some _ =>
      if count ≤ w.shared.held then
        some ⟨{ w.shared with held := w.shared.held - count }, .releasing count ::ₘ w.calls⟩
      else none
  | .goesOn call spurious =>
    maxInflight.bind fun maxInflight => w.goOn (limiterSection maxInflight spurious) call
  | .wakesUp count =>
    if count ∈ w.shared.limiter.blocked then
      some ⟨{ w.shared with limiter.blocked := w.shared.limiter.blocked.erase count },
        .relocking count ::ₘ w.calls⟩
    else none

def LimiterWorld.start : LimiterWorld := ⟨{}, 0⟩

namespace LimiterCall

/-- The credit that only this call knows of. -/
def credit : LimiterCall → Nat
  | .leaving count | .unlocking count | .releasing count => count
  | _ => 0

/-- The call is counted as a waiter. -/
def waits : LimiterCall → Nat
  | .loading .predicate _ | .comparing .predicate .. | .blocking _ | .relocking _ | .leaving _ => 1
  | _ => 0

/-- The call notifies the acquisitions that sleep. -/
def notifies : LimiterCall → Nat
  | .lookingForWaiters | .notifying => 1
  | _ => 0

end LimiterCall

open LimiterCall

/-- The count is the credit that was acquired and not released; it exceeds the limit by less than
some acquisition; and where no call is running but those that sleep, there is none of them beside
free credit. -/
structure Limited (maxInflight : Option Nat) (w : LimiterWorld) : Prop where
  counted : w.shared.limiter.inflightCount = w.shared.held + weigh LimiterCall.credit w.calls
  within : ∀ limit ∈ maxInflight, w.shared.limiter.inflightCount ≤ limit ∨
    ∃ count ∈ w.shared.granted, w.shared.limiter.inflightCount < limit + count
  awake : ∀ limit ∈ maxInflight, w.calls = 0 → w.shared.limiter.inflightCount < limit →
    w.shared.limiter.blocked = 0

/-- An acquisition that goes to sleep still finds the limit reached, or a release that has not
notified yet; and no acquisition overflows the count. -/
def Noticed (maxInflight : Option Nat) (w : LimiterWorld) : LimiterEvent → Prop
  | .goesOn (.blocking _) _ =>
    (∀ limit ∈ maxInflight, limit ≤ w.shared.limiter.inflightCount) ∨
      0 < weigh LimiterCall.notifies w.calls
  | .goesOn (.comparing _ count inflightCount) _ =>
    w.shared.limiter.inflightCount = inflightCount →
      ∀ limit ∈ maxInflight, inflightCount < limit → inflightCount + count < 2 ^ 64
  | _ => True

instance decidableForallMem (maxInflight : Option Nat) (p : Nat → Prop) [DecidablePred p] :
    Decidable (∀ limit ∈ maxInflight, p limit) :=
  match maxInflight with
  | none => isTrue fun _ mem => by cases mem
  | some limit => decidable_of_iff (p limit) (by simp)

instance decidableNoticed (maxInflight : Option Nat) (w : LimiterWorld) :
    ∀ event, Decidable (Noticed maxInflight w event)
  | .goesOn (.blocking _) _ => inferInstanceAs (Decidable (_ ∨ _))
  | .goesOn (.comparing ..) _ => inferInstanceAs (Decidable (_ → _))
  | .goesOn (.loading ..) _ | .goesOn (.locking _) _ | .goesOn (.counting _) _
  | .goesOn (.relocking _) _ | .goesOn (.leaving _) _ | .goesOn (.unlocking _) _
  | .goesOn (.releasing _) _ | .goesOn .lookingForWaiters _ | .goesOn .notifying _
  | .tryAcquire _ | .acquire _ | .release _ | .wakesUp _ => inferInstanceAs (Decidable True)

/-- What the sections keep. -/
structure LimiterKept (maxInflight : Option Nat) (s : LimiterState)
    (calls : Multiset LimiterCall) : Prop where
  counted : s.limiter.inflightCount = s.held + weigh LimiterCall.credit calls
  small : s.limiter.inflightCount < 2 ^ 64
  within : ∀ limit ∈ maxInflight, s.limiter.inflightCount ≤ limit ∨
    ∃ count ∈ s.granted, s.limiter.inflightCount < limit + count
  waiting : s.limiter.waitersCount =
    s.limiter.blocked.card + weigh LimiterCall.waits calls
  awake : ∀ limit ∈ maxInflight, s.limiter.inflightCount < limit →
    0 < s.limiter.blocked.card → 0 < weigh LimiterCall.notifies calls

namespace LimiterKept

variable {maxInflight : Option Nat} {limit count : Nat} {s s' : LimiterState}
variable {calls rest next : Multiset LimiterCall} {call : LimiterCall}

theorem limited {w : LimiterWorld} (kept : LimiterKept maxInflight w.shared w.calls) :
    Limited maxInflight w where
  counted := kept.counted
  within := kept.within
  awake limit isLimit none_runs free := by
    refine Multiset.card_eq_zero.1 (Nat.eq_zero_of_not_pos fun asleep => ?_)
    have notified := kept.awake limit isLimit free asleep
    rw [none_runs] at notified
    exact lt_irrefl 0 notified

section
variable (kept : LimiterKept maxInflight s (call ::ₘ rest))
include kept

theorem goOn (granted : s.granted ⊆ s'.granted)
    (less : s'.limiter.inflightCount ≤ s.limiter.inflightCount)
    (credit : s'.limiter.inflightCount + s.held + call.credit =
      s.limiter.inflightCount + s'.held + weigh credit next)
    (waits : s'.limiter.waitersCount + s.limiter.blocked.card + call.waits =
      s.limiter.waitersCount + s'.limiter.blocked.card + weigh waits next)
    (notifies : ∀ limit ∈ maxInflight, s'.limiter.inflightCount < limit →
      0 < s'.limiter.blocked.card → 0 < weigh notifies (next + rest)) :
    LimiterKept maxInflight s' (next + rest) where
  counted := by
    have counted := kept.counted
    rw [weigh_cons] at counted
    rw [weigh_add]
    omega
  small := less.trans_lt kept.small
  within limit isLimit := by
    obtain under | ⟨count, member, exceeds⟩ := kept.within limit isLimit
    · exact .inl (less.trans under)
    · exact .inr ⟨count, granted member, less.trans_lt exceeds⟩
  waiting := by
    have waiting := kept.waiting
    rw [weigh_cons] at waiting
    rw [weigh_add]
    omega
  awake := notifies

theorem stillNotified (silent : call.notifies = 0) :
    ∀ limit ∈ maxInflight, s.limiter.inflightCount < limit →
      0 < s.limiter.blocked.card → 0 < weigh notifies (next + rest) := by
  intro limit isLimit free asleep
  have notified := kept.awake limit isLimit free asleep
  rw [weigh_cons, silent, zero_add] at notified
  rw [weigh_add]
  omega

end

theorem grant {trying : Trying}
    (kept : LimiterKept (some limit) s
      (.comparing trying count s.limiter.inflightCount ::ₘ rest))
    (free : s.limiter.inflightCount < limit) (fits : s.limiter.inflightCount + count < 2 ^ 64) :
    LimiterKept (some limit)
      ({ s with
        limiter.inflightCount := (s.limiter.inflightCount + count) % 2 ^ 64 }.grant count trying).1
      (({ s with limiter.inflightCount :=
        (s.limiter.inflightCount + count) % 2 ^ 64 }.grant count trying).2 + rest) := by
  have counted := kept.counted
  have waiting := kept.waiting
  have awake := kept.awake limit rfl free
  rw [Nat.mod_eq_of_lt fits]
  simp only [weigh_cons] at counted waiting awake
  cases trying
  all_goals
    refine ⟨?_, fits, fun limit' same => .inr ⟨count, ?_, ?_⟩, ?_, fun _ _ _ asleep => ?_⟩
    · simp only [credit, zero_add] at counted
      simp only [LimiterState.grant, weigh_add, weigh_zero, weigh_singleton, credit]
      omega
    · exact List.mem_append_right _ (List.mem_singleton_self _)
    · cases same
      exact Nat.add_lt_add_right free count
    · simp only [waits] at waiting
      simp only [LimiterState.grant, weigh_add, weigh_zero, weigh_singleton, waits]
      omega
    · have := awake asleep
      simp only [notifies, zero_add] at this
      simpa only [LimiterState.grant, weigh_add, weigh_zero, weigh_singleton,
        notifies, zero_add] using this

section
variable (kept : LimiterKept maxInflight s calls)
include kept

theorem comes (credit : call.credit = 0) (waits : call.waits = 0) :
    LimiterKept maxInflight s (call ::ₘ calls) where
  counted := by
    rw [weigh_cons, credit, zero_add]
    exact kept.counted
  small := kept.small
  within := kept.within
  waiting := by
    rw [weigh_cons, waits, zero_add]
    exact kept.waiting
  awake limit isLimit free asleep := by
    rw [weigh_cons]
    exact Nat.add_pos_right _ (kept.awake limit isLimit free asleep)

theorem release (enough : count ≤ s.held) :
    LimiterKept maxInflight { s with held := s.held - count } (.releasing count ::ₘ calls) where
  counted := by
    have counted := kept.counted
    simp only [weigh_cons, credit]
    omega
  small := kept.small
  within := kept.within
  waiting := by simpa only [weigh_cons, waits, zero_add] using kept.waiting
  awake limit isLimit free asleep := by
    rw [weigh_cons]
    exact Nat.add_pos_right _ (kept.awake limit isLimit free asleep)

/-- A wait ends without a notification. -/
theorem wake (member : count ∈ s.limiter.blocked) :
    LimiterKept maxInflight
      { s with limiter.blocked := s.limiter.blocked.erase count } (.relocking count ::ₘ calls) where
  counted := by simpa only [weigh_cons, credit, zero_add] using kept.counted
  small := kept.small
  within := kept.within
  waiting := by
    have waiting := kept.waiting
    have others := Multiset.card_erase_add_one member
    simp only [weigh_cons, waits]
    omega
  awake limit isLimit free asleep := by
    rw [weigh_cons]
    refine Nat.add_pos_right _ (kept.awake limit isLimit free ?_)
    exact Multiset.card_pos_iff_exists_mem.2 ⟨count, member⟩

end

end LimiterKept

section Runs

variable {maxInflight : Option Nat} {limit : Nat} {s s' : LimiterState} {spurious : Bool}
variable {rest next : Multiset LimiterCall} {call : LimiterCall}

theorem weigh_map_relocking (weight : LimiterCall → Nat) (n : Nat)
    (same : ∀ count, weight (.relocking count) = n) (blocked : Multiset Nat) :
    weigh weight (blocked.map .relocking) = blocked.card * n := by
  induction blocked using Multiset.induction_on with
  | empty => simp
  | cons count blocked ih =>
    rw [Multiset.map_cons, weigh_cons, same, ih, Multiset.card_cons, Nat.succ_mul, Nat.add_comm]

theorem section_kept (kept : LimiterKept (some limit) s (call ::ₘ rest))
    (noticed : Noticed (some limit) ⟨s, call ::ₘ rest⟩ (.goesOn call spurious))
    (stepped : limiterSection limit spurious s call = some (s', next)) :
    LimiterKept (some limit) s' (next + rest) := by
  cases call with
  | loading trying count =>
    obtain ⟨rfl, rfl⟩ := Prod.mk.inj (Option.some.inj stepped)
    refine kept.goOn (fun _ => id) le_rfl ?_ ?_ (kept.stillNotified rfl) <;> cases trying <;> rfl
  | comparing trying count inflightCount =>
    simp only [limiterSection] at stepped
    split_ifs at stepped with free equal
    · obtain ⟨rfl, -⟩ := equal
      obtain ⟨rfl, rfl⟩ := Prod.mk.inj (Option.some.inj stepped)
      exact kept.grant free (noticed rfl limit rfl free)
    · obtain ⟨rfl, rfl⟩ := Prod.mk.inj (Option.some.inj stepped)
      refine kept.goOn (fun _ => id) le_rfl ?_ ?_ (kept.stillNotified rfl) <;> cases trying <;> rfl
    · obtain ⟨rfl, rfl⟩ := Prod.mk.inj (Option.some.inj stepped)
      refine kept.goOn (fun _ => id) le_rfl ?_ ?_ (kept.stillNotified rfl) <;> cases trying <;> rfl
  | locking count =>
    simp only [limiterSection] at stepped
    split_ifs at stepped
    obtain ⟨rfl, rfl⟩ := Prod.mk.inj (Option.some.inj stepped)
    exact kept.goOn (fun _ => id) le_rfl rfl rfl (kept.stillNotified rfl)
  | counting count =>
    obtain ⟨rfl, rfl⟩ := Prod.mk.inj (Option.some.inj stepped)
    refine kept.goOn (fun _ => id) le_rfl rfl ?_ (kept.stillNotified rfl)
    simp only [waits, weigh_singleton]
    omega
  | blocking count =>
    obtain ⟨rfl, rfl⟩ := Prod.mk.inj (Option.some.inj stepped)
    refine kept.goOn (fun _ => id) le_rfl rfl ?_ fun limit' same free _ => ?_
    · simp only [waits, weigh_zero, Multiset.card_cons]
      omega
    · obtain reached | notified := noticed
      · exact absurd free (reached limit' same).not_gt
      · simpa only [weigh_cons, notifies, zero_add] using notified
  | relocking count =>
    simp only [limiterSection] at stepped
    split_ifs at stepped
    obtain ⟨rfl, rfl⟩ := Prod.mk.inj (Option.some.inj stepped)
    exact kept.goOn (fun _ => id) le_rfl rfl rfl (kept.stillNotified rfl)
  | leaving count =>
    have waiting := kept.waiting
    obtain ⟨rfl, rfl⟩ := Prod.mk.inj (Option.some.inj stepped)
    refine kept.goOn (fun _ => id) le_rfl rfl ?_ (kept.stillNotified rfl)
    simp only [weigh_cons, waits] at waiting
    simp only [waits, weigh_singleton]
    omega
  | unlocking count =>
    obtain ⟨rfl, rfl⟩ := Prod.mk.inj (Option.some.inj stepped)
    refine kept.goOn (fun _ => id) le_rfl ?_ rfl (kept.stillNotified rfl)
    simp only [credit, weigh_zero]
    omega
  | releasing count =>
    have counted := kept.counted
    have small := kept.small
    obtain ⟨rfl, rfl⟩ := Prod.mk.inj (Option.some.inj stepped)
    simp only [weigh_cons, credit] at counted
    have less : (s.limiter.inflightCount + (2 ^ 64 - count)) % 2 ^ 64 =
        s.limiter.inflightCount - count := by omega
    refine kept.goOn (fun _ => id) ?_ ?_ rfl fun _ _ _ _ => ?_
    · simp only [less, Nat.sub_le]
    · simp only [less, credit, weigh_singleton]
      omega
    · rw [weigh_add, weigh_singleton]
      exact Nat.add_pos_left Nat.one_pos _
  | lookingForWaiters =>
    have waiting := kept.waiting
    obtain ⟨rfl, rfl⟩ := Prod.mk.inj (Option.some.inj stepped)
    refine kept.goOn (fun _ => id) le_rfl ?_ ?_ fun _ _ _ asleep => ?_
    · split_ifs <;> rfl
    · split_ifs <;> rfl
    · rw [if_neg (by omega), weigh_add, weigh_singleton]
      exact Nat.add_pos_left Nat.one_pos _
  | notifying =>
    obtain ⟨rfl, rfl⟩ := Prod.mk.inj (Option.some.inj stepped)
    refine kept.goOn (fun _ => id) le_rfl ?_ ?_ fun _ _ _ asleep => absurd asleep (lt_irrefl 0)
    · rw [weigh_map_relocking _ 0 fun _ => rfl]
      rfl
    · rw [weigh_map_relocking _ 1 fun _ => rfl]
      simp only [waits, Multiset.card_zero]
      omega

variable {w w' : LimiterWorld} {event : LimiterEvent}

theorem LimiterWorld.step_kept (kept : LimiterKept maxInflight w.shared w.calls)
    (noticed : Noticed maxInflight w event) (stepped : w.step maxInflight event = some w') :
    LimiterKept maxInflight w'.shared w'.calls := by
  cases event with
  | tryAcquire count =>
    cases maxInflight with
    | none => cases stepped; exact kept
    | some limit =>
      cases stepped
      exact kept.comes rfl rfl
  | acquire count =>
    cases maxInflight with
    | none => cases stepped; exact kept
    | some limit =>
      cases stepped
      exact kept.comes rfl rfl
  | release count =>
    cases maxInflight with
    | none => cases stepped; exact kept
    | some limit =>
      simp only [step, Option.ite_none_right_eq_some] at stepped
      obtain ⟨enough, same⟩ := stepped
      cases same
      exact kept.release enough
  | goesOn call spurious =>
    obtain ⟨limit, rfl, stepped⟩ := Option.bind_eq_some_iff.1 stepped
    obtain ⟨shared, calls⟩ := w
    obtain ⟨rest, next, rfl, section_, after⟩ := World.goOn_cases stepped
    exact after ▸ section_kept kept noticed section_
  | wakesUp count =>
    simp only [step, Option.ite_none_right_eq_some] at stepped
    obtain ⟨member, same⟩ := stepped
    cases same
    exact kept.wake member

theorem LimiterWorld.start_kept : LimiterKept maxInflight start.shared start.calls where
  counted := rfl
  small := Nat.two_pow_pos 64
  within _ _ := .inl (Nat.zero_le _)
  waiting := rfl
  awake _ _ _ asleep := absurd asleep (lt_irrefl 0)

theorem run_limited (maxInflight : Option Nat) (events : List LimiterEvent)
    (noticed : Along (LimiterWorld.step maxInflight) (Noticed maxInflight) .start events)
    (ran : run (LimiterWorld.step maxInflight) .start events = some w) :
    Limited maxInflight w :=
  (run_inv (fun w : LimiterWorld => LimiterKept maxInflight w.shared w.calls)
    LimiterWorld.step_kept LimiterWorld.start_kept noticed ran).limited

end Runs

/-- The limit is reached, and an acquisition is about to go to sleep. -/
def untilBlocking : List LimiterEvent :=
  [.tryAcquire 1, .goesOn (.loading .called 1) false, .goesOn (.comparing .called 1 0) false,
    .acquire 1, .goesOn (.loading .fast 1) false, .goesOn (.comparing .fast 1 1) false,
    .goesOn (.locking 1) false, .goesOn (.counting 1) false, .goesOn (.loading .predicate 1) false,
    .goesOn (.comparing .predicate 1 1) false]

/-- The credit comes back while the acquisition sleeps. -/
def woken : List LimiterEvent :=
  untilBlocking ++ [.goesOn (.blocking 1) false, .release 1, .goesOn (.releasing 1) false,
    .goesOn .lookingForWaiters false, .goesOn .notifying false, .goesOn (.relocking 1) false,
    .goesOn (.loading .predicate 1) false, .goesOn (.comparing .predicate 1 0) false,
    .goesOn (.leaving 1) false, .goesOn (.unlocking 1) false]

theorem run_limited_woken :
    ∃ w, run (LimiterWorld.step (some 1)) .start woken = some w ∧ Limited (some 1) w :=
  ⟨_, rfl, run_limited (some 1) woken (by decide) rfl⟩

/-- The credit comes back before it sleeps. -/
def unnoticed : List LimiterEvent :=
  untilBlocking ++ [.release 1, .goesOn (.releasing 1) false, .goesOn .lookingForWaiters false,
    .goesOn .notifying false, .goesOn (.blocking 1) false]

theorem unnoticed_not_limited : ¬∀ (events : List LimiterEvent) w,
    run (LimiterWorld.step (some 1)) .start events = some w → Limited (some 1) w := by
  intro limited
  have awake := (limited unnoticed ⟨⟨⟨0, 1, false, {1}⟩, 0, [1]⟩, 0⟩ rfl).awake
  exact absurd (awake 1 rfl rfl (by decide)) (by decide)

end AdServer.Grpc
