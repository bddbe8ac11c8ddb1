import AdServer.Lib.Runs
import Mathlib.Tactic.Abel

/-!
# The mutex of threads and coroutines

Threads wait on a condition, coroutines in a queue. The lock is handed to the
first coroutine of the queue without being freed; it is freed when the queue is
empty, and then one thread is notified.

A wait may end without a notification. The statistics are left out.
-/

namespace AdServer.Commons

open AdServer.Lib.Runs

/-- The mutex, and how many threads sleep in `condition_`. A waiter is the number of its
awaiter. -/
structure AsyncMutex where
  locked : Bool := false
  waiters : List Nat := []
  blocked : Nat := 0
  deriving DecidableEq

/-- A call of the mutex or an owner of it, by what it does next. -/
inductive LockCall where
  /-- `scoped_lock`, before it evaluates the condition at first, or after a wait. -/
  | locking
  | waking (notified : Bool)
  /-- `await_suspend`. -/
  | enqueueing (id : Nat)
  /-- A `Guard`, before its reset. -/
  | holding
  /-- `unlock_` after its locked section, before it notifies a thread or resumes the coroutine
  that it has chosen. -/
  | notifying
  | resuming (id : Nat)
  /-- The destructor of an awaiter. -/
  | cancelling (id : Nat)
  deriving DecidableEq

/-- The mutex, how many awaiters there have been, and which of them were enqueued, granted the lock
from the queue and cancelled in the queue. -/
structure LockState where
  mutex : AsyncMutex := {}
  awaiters : Nat := 0
  enqueued : List Nat := []
  granted : List Nat := []
  cancelled : Multiset Nat := 0

abbrev LockWorld := World LockState LockCall

namespace AsyncMutex

/-- The condition of `scoped_lock`. -/
def canLock (m : AsyncMutex) : Prop := m.locked = false ∧ m.waiters = []

instance (m : AsyncMutex) : Decidable m.canLock := inferInstanceAs (Decidable (_ ∧ _))

end AsyncMutex

def lockSection (s : LockState) : LockCall → Option (LockState × Multiset LockCall)
  | .locking | .waking _ =>
    if s.mutex.canLock then some ({ s with mutex.locked := true }, {.holding})
    else some ({ s with mutex.blocked := s.mutex.blocked + 1 }, 0)
  | .enqueueing id =>
    if s.mutex.locked = false then
      some ({ s with mutex.locked := true }, {.holding, .cancelling id})
    else
      some ({ s with
        mutex.waiters := s.mutex.waiters ++ [id]
        enqueued := s.enqueued ++ [id] }, 0)
  | .holding =>
    match s.mutex.waiters with
    | id :: waiters =>
      some ({ s with
        mutex.waiters := waiters
        granted := s.granted ++ [id] }, {.resuming id})
    | [] => some ({ s with mutex.locked := false }, {.notifying})
  | .notifying =>
    if s.mutex.blocked = 0 then some (s, 0)
    else some ({ s with mutex.blocked := s.mutex.blocked - 1 }, {.waking true})
  | .resuming id => some (s, {.holding, .cancelling id})
  | .cancelling id => some ({ s with mutex.waiters := s.mutex.waiters.erase id }, 0)

inductive LockEvent where
  | scopedLock
  | scopedLockAsync
  | goesOn (call : LockCall)
  /-- A wait ends without a notification. -/
  | wakesUp
  /-- The awaiter of a waiter that is still in the queue is destroyed. -/
  | cancel (id : Nat)

def LockWorld.step (w : LockWorld) : LockEvent → Option LockWorld
  | .scopedLock => some { w with calls := .locking ::ₘ w.calls }
  | .scopedLockAsync =>
    some ⟨{ w.shared with awaiters := w.shared.awaiters + 1 },
      .enqueueing w.shared.awaiters ::ₘ w.calls⟩
  | .goesOn call => w.goOn lockSection call
  | .wakesUp =>
    if w.shared.mutex.blocked = 0 then none
    else
      some ⟨{ w.shared with mutex.blocked := w.shared.mutex.blocked - 1 },
        .waking false ::ₘ w.calls⟩
  | .cancel id =>
    if id ∈ w.shared.mutex.waiters then
      some { w with shared := { w.shared with
        mutex.waiters := w.shared.mutex.waiters.erase id
        cancelled := id ::ₘ w.shared.cancelled } }
    else none

def LockWorld.start : LockWorld := ⟨{}, 0⟩

namespace LockCall

/-- A guard, or a coroutine that was chosen. -/
def owns : LockCall → Nat
  | .holding | .resuming _ => 1
  | _ => 0

/-- A notification that no thread has seen yet. -/
def notifies : LockCall → Nat
  | .notifying | .waking true => 1
  | _ => 0

/-- The awaiter that the call is about. -/
def awaiter : LockCall → Multiset Nat
  | .enqueueing id | .resuming id | .cancelling id => {id}
  | _ => 0

/-- An awaiter that has not come to the mutex. -/
def arriving : LockCall → Multiset Nat
  | .enqueueing id => {id}
  | _ => 0

end LockCall

open LockCall

/-- One guard or chosen coroutine owns a mutex that is locked, and none a free one; coroutines
leave the queue in its order, by the lock being granted or by being cancelled; and where threads
sleep beside a free mutex, a notification is on its way. -/
structure Exclusive (w : LockWorld) : Prop where
  owners : weigh LockCall.owns w.calls = if w.shared.mutex.locked then 1 else 0
  noWaiters : w.shared.mutex.locked = false → w.shared.mutex.waiters = []
  once : w.shared.enqueued.Nodup
  inOrder : (w.shared.granted ++ w.shared.mutex.waiters).Sublist w.shared.enqueued
  noneLost : (w.shared.enqueued : Multiset Nat) =
    w.shared.granted + w.shared.mutex.waiters + w.shared.cancelled
  notified : w.shared.mutex.locked = false → 0 < w.shared.mutex.blocked →
    ∃ call ∈ w.calls, call = .notifying ∨ call = .waking true

/-- What the sections keep. -/
structure LockKept (s : LockState) (calls : Multiset LockCall) : Prop where
  owners : weigh LockCall.owns calls = if s.mutex.locked then 1 else 0
  noWaiters : s.mutex.locked = false → s.mutex.waiters = []
  once : (s.enqueued + calls.bind LockCall.arriving : Multiset Nat).Nodup
  apart : (s.mutex.waiters + calls.bind LockCall.awaiter : Multiset Nat).Nodup
  inOrder : (s.granted ++ s.mutex.waiters).Sublist s.enqueued
  noneLost : (s.enqueued : Multiset Nat) = s.granted + s.mutex.waiters + s.cancelled
  known : ∀ id ∈ (s.enqueued + calls.bind LockCall.awaiter : Multiset Nat), id < s.awaiters
  notified : s.mutex.locked = false → 0 < s.mutex.blocked → 0 < weigh LockCall.notifies calls

theorem arriving_le (calls : Multiset LockCall) :
    calls.bind arriving ≤ calls.bind awaiter := by
  induction calls using Multiset.induction_on with
  | empty => exact le_rfl
  | cons call calls ih =>
    rw [Multiset.cons_bind, Multiset.cons_bind]
    refine add_le_add ?_ ih
    cases call <;> first | exact le_rfl | exact Multiset.zero_le _

namespace LockKept

variable {s : LockState} {calls rest : Multiset LockCall} {id : Nat}

theorem exclusive {w : LockWorld} (kept : LockKept w.shared w.calls) : Exclusive w where
  owners := kept.owners
  noWaiters := kept.noWaiters
  once := Multiset.coe_nodup.1 (Multiset.nodup_of_le (Multiset.le_add_right _ _) kept.once)
  inOrder := kept.inOrder
  noneLost := kept.noneLost
  notified free asleep := by
    obtain ⟨call, member, notifies⟩ := exists_of_weigh_pos (kept.notified free asleep)
    refine ⟨call, member, ?_⟩
    unfold LockCall.notifies at notifies
    split at notifies
    · exact .inl rfl
    · exact .inr rfl
    · exact absurd notifies (lt_irrefl 0)

/-- A thread or a coroutine takes the free mutex; what is left of its call knows no awaiter that it
did not know. -/
theorem take {call : LockCall} {next : Multiset LockCall}
    (kept : LockKept s (call ::ₘ rest)) (free : s.mutex.locked = false)
    (owns : weigh owns next = call.owns + 1)
    (awaiter : next.bind awaiter = call.awaiter)
    (arriving : next.bind arriving = 0) :
    LockKept { s with mutex.locked := true } (next + rest) where
  owners := by
    have owners := kept.owners
    simp only [weigh_cons, free, Bool.false_eq_true, if_false] at owners
    simp only [weigh_add, if_true]
    omega
  noWaiters := nofun
  once := by
    refine Multiset.nodup_of_le ?_ kept.once
    rw [Multiset.add_bind, arriving, zero_add, Multiset.cons_bind]
    exact Multiset.add_le_add_left (Multiset.le_add_left _ _)
  apart := by
    have apart := kept.apart
    rwa [Multiset.cons_bind, ← awaiter, ← Multiset.add_bind] at apart
  inOrder := kept.inOrder
  noneLost := kept.noneLost
  known := by
    have known := kept.known
    rwa [Multiset.cons_bind, ← awaiter, ← Multiset.add_bind] at known
  notified := nofun

/-- A call that owns nothing and knows no awaiter comes in; only a mutex that is locked has more
sleepers. -/
theorem withCall {call : LockCall} (kept : LockKept s rest) (blocked : Nat)
    (asleep : s.mutex.locked = false → 0 < blocked → 0 < s.mutex.blocked)
    (owns : call.owns = 0) (awaiter : call.awaiter = 0) (arriving : call.arriving = 0) :
    LockKept { s with mutex.blocked := blocked } (call ::ₘ rest) where
  owners := by
    rw [weigh_cons, owns, zero_add]
    exact kept.owners
  noWaiters := kept.noWaiters
  once := by
    rw [Multiset.cons_bind, arriving, zero_add]
    exact kept.once
  apart := by
    rw [Multiset.cons_bind, awaiter, zero_add]
    exact kept.apart
  inOrder := kept.inOrder
  noneLost := kept.noneLost
  known := by
    rw [Multiset.cons_bind, awaiter, zero_add]
    exact kept.known
  notified free sleeps := by
    rw [weigh_cons]
    exact Nat.add_pos_right _ (kept.notified free (asleep free sleeps))

/-- A call ends that owned nothing, where a notification is not lost with it. -/
theorem withoutCall {call : LockCall} (kept : LockKept s (call ::ₘ rest)) (blocked : Nat)
    (asleep : s.mutex.locked = false → 0 < blocked → 0 < weigh notifies rest)
    (owns : call.owns = 0) : LockKept { s with mutex.blocked := blocked } rest where
  owners := by
    have owners := kept.owners
    rwa [weigh_cons, owns, zero_add] at owners
  noWaiters := kept.noWaiters
  once := by
    refine Multiset.nodup_of_le ?_ kept.once
    rw [Multiset.cons_bind]
    exact Multiset.add_le_add_left (Multiset.le_add_left _ _)
  apart := by
    refine Multiset.nodup_of_le ?_ kept.apart
    rw [Multiset.cons_bind]
    exact Multiset.add_le_add_left (Multiset.le_add_left _ _)
  inOrder := kept.inOrder
  noneLost := kept.noneLost
  known id member := by
    refine kept.known id (Multiset.mem_of_le ?_ member)
    rw [Multiset.cons_bind]
    exact Multiset.add_le_add_left (Multiset.le_add_left _ _)
  notified := asleep

theorem arrive (kept : LockKept s calls) :
    LockKept { s with awaiters := s.awaiters + 1 } (.enqueueing s.awaiters ::ₘ calls) where
  owners := by simpa only [weigh_cons, owns, zero_add] using kept.owners
  noWaiters := kept.noWaiters
  once := by
    simp only [Multiset.cons_bind, arriving]
    rw [add_left_comm, Multiset.singleton_add, Multiset.nodup_cons]
    refine ⟨fun member => lt_irrefl s.awaiters (kept.known _ ?_), kept.once⟩
    exact Multiset.mem_of_le (Multiset.add_le_add_left (arriving_le calls)) member
  apart := by
    simp only [Multiset.cons_bind, awaiter]
    rw [add_left_comm, Multiset.singleton_add, Multiset.nodup_cons]
    refine ⟨fun member => lt_irrefl s.awaiters (kept.known _ ?_), kept.apart⟩
    refine Multiset.mem_of_le (Multiset.add_le_add_right ?_) member
    rw [kept.noneLost]
    exact (Multiset.le_add_left _ _).trans (Multiset.le_add_right _ _)
  inOrder := kept.inOrder
  noneLost := kept.noneLost
  known id member := by
    simp only [Multiset.cons_bind, awaiter] at member
    rw [add_left_comm, Multiset.singleton_add, Multiset.mem_cons] at member
    obtain rfl | old := member
    · exact Nat.lt_succ_self _
    · exact (kept.known id old).trans (Nat.lt_succ_self _)
  notified free asleep := by
    simpa only [weigh_cons, notifies, zero_add] using kept.notified free asleep

theorem enqueue (kept : LockKept s (.enqueueing id ::ₘ rest)) (locked : ¬s.mutex.locked = false) :
    LockKept
      { s with mutex.waiters := s.mutex.waiters ++ [id], enqueued := s.enqueued ++ [id] }
      rest where
  owners := by simpa only [weigh_cons, owns, zero_add] using kept.owners
  noWaiters free := absurd free locked
  once := by
    have once := kept.once
    simp only [Multiset.cons_bind, arriving] at once
    rwa [← Multiset.coe_add, add_assoc]
  apart := by
    have apart := kept.apart
    simp only [Multiset.cons_bind, awaiter] at apart
    rwa [← Multiset.coe_add, add_assoc]
  inOrder := by
    rw [← List.append_assoc]
    exact kept.inOrder.append (List.Sublist.refl _)
  noneLost := by
    simp only [← Multiset.coe_add, kept.noneLost]
    abel
  known := by
    have known := kept.known
    simp only [Multiset.cons_bind, awaiter] at known
    rwa [← Multiset.coe_add, add_assoc]
  notified free := absurd free locked

theorem grant {waiters : List Nat} (kept : LockKept s (.holding ::ₘ rest))
    (queue : s.mutex.waiters = id :: waiters) :
    LockKept { s with mutex.waiters := waiters, granted := s.granted ++ [id] }
      (.resuming id ::ₘ rest) where
  owners := by simpa only [weigh_cons, owns] using kept.owners
  noWaiters free := absurd (queue ▸ kept.noWaiters free) (List.cons_ne_nil _ _)
  once := by simpa only [Multiset.cons_bind, arriving] using kept.once
  apart := by
    have apart := kept.apart
    simp only [queue, Multiset.cons_bind, awaiter, zero_add] at apart
    simp only [Multiset.cons_bind, awaiter]
    rwa [add_left_comm, Multiset.singleton_add, ← Multiset.cons_add, Multiset.cons_coe]
  inOrder := by
    have inOrder := kept.inOrder
    rw [queue] at inOrder
    rwa [List.append_assoc]
  noneLost := by
    rw [kept.noneLost, queue, ← Multiset.coe_add, ← Multiset.cons_coe, ← Multiset.singleton_add]
    simp only [Multiset.coe_singleton]
    abel
  known id' member := by
    have enqueued : id ∈ s.enqueued := kept.inOrder.subset (by simp [queue])
    have known := kept.known id'
    simp only [Multiset.cons_bind, awaiter, zero_add, Multiset.mem_add,
      Multiset.mem_singleton, Multiset.mem_coe] at known member
    obtain old | rfl | other := member
    · exact known (.inl old)
    · exact known (.inl enqueued)
    · exact known (.inr other)
  notified free asleep := by
    simpa only [weigh_cons, notifies] using kept.notified free asleep

theorem free (kept : LockKept s (.holding ::ₘ rest)) (empty : s.mutex.waiters = []) :
    LockKept { s with mutex.locked := false } (.notifying ::ₘ rest) where
  owners := by
    have owners := kept.owners
    simp only [weigh_cons, owns, Bool.false_eq_true, if_false] at owners ⊢
    split_ifs at owners <;> omega
  noWaiters _ := empty
  once := by simpa only [Multiset.cons_bind, arriving] using kept.once
  apart := by simpa only [Multiset.cons_bind, awaiter] using kept.apart
  inOrder := kept.inOrder
  noneLost := kept.noneLost
  known := by simpa only [Multiset.cons_bind, awaiter] using kept.known
  notified _ _ := by
    rw [weigh_cons]
    exact Nat.add_pos_left Nat.one_pos _

theorem notify (kept : LockKept s (.notifying ::ₘ rest)) :
    LockKept { s with mutex.blocked := s.mutex.blocked - 1 } (.waking true ::ₘ rest) where
  owners := by simpa only [weigh_cons, owns] using kept.owners
  noWaiters := kept.noWaiters
  once := by simpa only [Multiset.cons_bind, arriving] using kept.once
  apart := by simpa only [Multiset.cons_bind, awaiter] using kept.apart
  inOrder := kept.inOrder
  noneLost := kept.noneLost
  known := by simpa only [Multiset.cons_bind, awaiter] using kept.known
  notified _ _ := by
    rw [weigh_cons]
    exact Nat.add_pos_left Nat.one_pos _

theorem resume (kept : LockKept s (.resuming id ::ₘ rest)) :
    LockKept s ({.holding, .cancelling id} + rest) := by
  change LockKept s (({.holding} + {.cancelling id}) + rest)
  rw [add_assoc, Multiset.singleton_add, Multiset.singleton_add]
  refine ⟨?_, kept.noWaiters, ?_, ?_, kept.inOrder, kept.noneLost, ?_, fun free asleep => ?_⟩
  · simpa only [weigh_cons, owns, zero_add] using kept.owners
  · simpa only [Multiset.cons_bind, arriving, zero_add] using kept.once
  · simpa only [Multiset.cons_bind, awaiter, zero_add] using kept.apart
  · simpa only [Multiset.cons_bind, awaiter, zero_add] using kept.known
  · simpa only [weigh_cons, notifies, zero_add] using kept.notified free asleep

/-- The awaiter of a coroutine that has been resumed is not in the queue. -/
theorem cancelling (kept : LockKept s (.cancelling id ::ₘ rest)) :
    LockKept { s with mutex.waiters := s.mutex.waiters.erase id } rest := by
  have apart := kept.apart
  simp only [Multiset.cons_bind, awaiter] at apart
  have absent : id ∉ s.mutex.waiters := fun member =>
    Multiset.disjoint_left.1 (Multiset.nodup_add.1 apart).2.2 member
      (Multiset.mem_add.2 (.inl (Multiset.mem_singleton_self id)))
  rw [List.erase_of_not_mem absent]
  refine kept.withoutCall s.mutex.blocked (fun free asleep => ?_) rfl
  simpa only [weigh_cons, notifies, zero_add] using kept.notified free asleep

theorem cancel (kept : LockKept s calls) (member : id ∈ s.mutex.waiters) :
    LockKept
      { s with
        mutex.waiters := s.mutex.waiters.erase id
        cancelled := id ::ₘ s.cancelled } calls where
  owners := kept.owners
  noWaiters free := by rw [kept.noWaiters free, List.erase_nil]
  once := kept.once
  apart := Multiset.nodup_of_le
    (Multiset.add_le_add_right (Multiset.coe_le.2 List.erase_sublist.subperm)) kept.apart
  inOrder := ((List.Sublist.refl _).append List.erase_sublist).trans kept.inOrder
  noneLost := by
    have split : (s.mutex.waiters : Multiset Nat) = {id} + (s.mutex.waiters.erase id : List Nat) :=
      Multiset.coe_eq_coe.2 (List.perm_cons_erase member)
    dsimp only
    rw [kept.noneLost, split, ← Multiset.singleton_add]
    abel
  known := kept.known
  notified := kept.notified

end LockKept

section Runs

variable {s s' : LockState} {rest next : Multiset LockCall} {call : LockCall}
variable {w w' : LockWorld} {event : LockEvent}

theorem lockSection_kept (kept : LockKept s (call ::ₘ rest))
    (stepped : lockSection s call = some (s', next)) : LockKept s' (next + rest) := by
  cases call with
  | locking | waking =>
    simp only [lockSection] at stepped
    split_ifs at stepped with canLock <;>
      obtain ⟨rfl, rfl⟩ := Prod.mk.inj (Option.some.inj stepped)
    · exact kept.take canLock.1 rfl rfl rfl
    · rw [zero_add]
      exact kept.withoutCall _ (fun free _ => absurd ⟨free, kept.noWaiters free⟩ canLock) rfl
  | enqueueing id =>
    simp only [lockSection] at stepped
    split_ifs at stepped with free <;>
      obtain ⟨rfl, rfl⟩ := Prod.mk.inj (Option.some.inj stepped)
    · exact kept.take free rfl rfl rfl
    · rw [zero_add]
      exact kept.enqueue free
  | holding =>
    simp only [lockSection] at stepped
    split at stepped <;> rename_i queue <;>
      obtain ⟨rfl, rfl⟩ := Prod.mk.inj (Option.some.inj stepped)
    · exact kept.grant queue
    · exact kept.free queue
  | notifying =>
    simp only [lockSection] at stepped
    split_ifs at stepped with asleep <;>
      obtain ⟨rfl, rfl⟩ := Prod.mk.inj (Option.some.inj stepped)
    · rw [zero_add]
      exact kept.withoutCall s.mutex.blocked (fun _ sleeps => absurd asleep sleeps.ne') rfl
    · exact kept.notify
  | resuming id =>
    obtain ⟨rfl, rfl⟩ := Prod.mk.inj (Option.some.inj stepped)
    exact kept.resume
  | cancelling id =>
    obtain ⟨rfl, rfl⟩ := Prod.mk.inj (Option.some.inj stepped)
    rw [zero_add]
    exact kept.cancelling

theorem LockWorld.step_kept (kept : LockKept w.shared w.calls)
    (stepped : w.step event = some w') : LockKept w'.shared w'.calls := by
  cases event with
  | scopedLock =>
    cases stepped
    exact kept.withCall w.shared.mutex.blocked (fun _ => id) rfl rfl rfl
  | scopedLockAsync =>
    cases stepped
    exact kept.arrive
  | goesOn call =>
    obtain ⟨rest, next, calls, section_, after⟩ := World.goOn_cases stepped
    exact after ▸ lockSection_kept (calls ▸ kept) section_
  | wakesUp =>
    simp only [step] at stepped
    split_ifs at stepped with asleep
    cases stepped
    exact kept.withCall _ (fun _ _ => Nat.pos_of_ne_zero asleep) rfl rfl rfl
  | cancel id =>
    simp only [step, Option.ite_none_right_eq_some] at stepped
    obtain ⟨member, same⟩ := stepped
    cases same
    exact kept.cancel member

theorem LockWorld.start_kept : LockKept start.shared start.calls where
  owners := rfl
  noWaiters _ := rfl
  once := Multiset.nodup_zero
  apart := Multiset.nodup_zero
  inOrder := List.Sublist.refl _
  noneLost := rfl
  known _ member := absurd member (Multiset.notMem_zero _)
  notified _ asleep := absurd asleep (lt_irrefl 0)

theorem run_exclusive (events : List LockEvent)
    (ran : run LockWorld.step .start events = some w) : Exclusive w :=
  (run_keeps (fun w : LockWorld => LockKept w.shared w.calls) LockWorld.step_kept
    LockWorld.start_kept ran).exclusive

/-- A thread sleeps while two coroutines wait; the first of them is cancelled, the second one gets
the lock, and frees it. -/
def handedOver : List LockEvent :=
  [.scopedLockAsync, .goesOn (.enqueueing 0), .scopedLock, .goesOn .locking, .scopedLockAsync,
    .goesOn (.enqueueing 1), .scopedLockAsync, .goesOn (.enqueueing 2), .goesOn (.cancelling 0),
    .cancel 1, .goesOn .holding, .goesOn (.resuming 2), .goesOn .holding]

theorem run_exclusive_handedOver :
    Exclusive ⟨⟨⟨false, [], 1⟩, 3, [1, 2], [2], {1}⟩, {.notifying, .cancelling 2}⟩ :=
  run_exclusive handedOver rfl

end Runs

end AdServer.Commons
