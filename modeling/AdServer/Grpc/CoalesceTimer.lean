import AdServer.Grpc.BatchingQueue

/-!
# The coalesce timer of the batching client

A request that finds the batching queue empty sets a deadline and hands a task
over to the runner; a run of the task resets the deadline, pops what is due and
looks for the oldest request that is left.
-/

namespace AdServer.Grpc

open AdServer.Lib.Runs

variable {Request : Type}

/-- What the timer and `enqueue_serialized_request_` work on, in an active client. -/
structure CoalesceState (Request : Type) where
  batchingQueue : BatchingQueue Request
  coalesceTimerDeadline : Option Time
  /-- The tasks pending in `coalesce_runner_`, by the deadlines they carry. -/
  coalesceRunner : Multiset Time

/-- A call of `enqueue_serialized_request_` or of `run_timing_coalesce_`, by what it does next. -/
inductive CoalesceCall (Request : Type) where
  | enqueueing (call : QueueCall Request)
  /-- The deadline is compared under the shared lock, and set under the unique one. -/
  | comparing (deadline : Time) (readyBatch : BatchingQueue.Batch Request)
  | setting (deadline : Time) (readyBatch : BatchingQueue.Batch Request)
  | scheduling (deadline : Time) (readyBatch : BatchingQueue.Batch Request)
  /-- `acquire_batch_inflight_` and `process_batch_`. -/
  | processing (readyBatch : BatchingQueue.Batch Request)
  /-- A task of the runner begins. -/
  | resetting (deadline : Time)
  /-- `can_process_timed_batch_`. -/
  | checkingStreams
  | popping (call : QueueCall Request)
  | processingTimed (batch : BatchingQueue.Batch Request)
  /-- The loop of `oldest_enqueue_time_`. -/
  | findingOldest (bucket : Nat) (oldest : Option Time)
  deriving DecidableEq

/-- What a section reads from outside: whether a stream is free, and the clock. -/
structure CoalesceInput where
  canProcess : Bool := true
  now : Time := 0

namespace CoalesceState

variable (options : BatchingOptions)

def new : CoalesceState Request := ⟨.new, none, 0⟩

def processReady (readyBatch : BatchingQueue.Batch Request) : Multiset (CoalesceCall Request) :=
  if readyBatch.isEmpty then 0 else {.processing readyBatch}

/-- The end of `enqueue_serialized_request_`, with the result of the queue. -/
def afterEnqueue (result : EnqueueResult Request) : Multiset (CoalesceCall Request) :=
  match options.maxBatchDelay, result.oldestEnqueueTime with
  | some delay, some oldest =>
    if result.wasEmptyBeforePush && !result.queueEmptyAfterEnqueue then
      {.comparing (oldest + delay) result.readyBatch}
    else processReady result.readyBatch
  | _, _ => processReady result.readyBatch

/-- `coalesce_timed_batch_` leaves the rest to `schedule_timing_coalesce_`. -/
def afterPop (batch : BatchingQueue.Batch Request) : CoalesceCall Request :=
  if batch.isEmpty then .findingOldest 0 none else .processingTimed batch

def afterQueue : QueueCall Request ⊕ QueueReturn Request → Multiset (CoalesceCall Request)
  | .inl call => {.enqueueing call}
  | .inr (.enqueued result) => afterEnqueue options result
  | .inr (.popped _) => 0

def afterTimedQueue : QueueCall Request ⊕ QueueReturn Request → Multiset (CoalesceCall Request)
  | .inl call => {.popping call}
  | .inr returned => {afterPop returned.batch}

def olderTime (oldest : Option Time) : BatchingQueue.Batch Request → Option Time
  | [] => oldest
  | front :: _ =>
    if oldest.all fun time => front.enqueueTime < time then some front.enqueueTime else oldest

/-- One section of a call. -/
def section_ (input : CoalesceInput) (s : CoalesceState Request) :
    CoalesceCall Request → Option (CoalesceState Request × Multiset (CoalesceCall Request))
  | .enqueueing call =>
    (s.batchingQueue.section_ options call).map fun (queue, after) =>
      ({ s with batchingQueue := queue }, afterQueue options after)
  | .comparing deadline readyBatch =>
    some (s, if s.coalesceTimerDeadline.any (· ≤ deadline) then processReady readyBatch
      else {.setting deadline readyBatch})
  | .setting deadline readyBatch =>
    if s.coalesceTimerDeadline.any (· ≤ deadline) then some (s, processReady readyBatch)
    else some ({ s with coalesceTimerDeadline := some deadline },
      {.scheduling deadline readyBatch})
  | .scheduling deadline readyBatch =>
    some ({ s with coalesceRunner := deadline ::ₘ s.coalesceRunner }, processReady readyBatch)
  | .processing _ => some (s, 0)
  | .resetting deadline =>
    if s.coalesceTimerDeadline = some deadline then
      some ({ s with coalesceTimerDeadline := none }, {.checkingStreams})
    else some (s, 0)
  | .checkingStreams =>
    match options.maxBatchDelay with
    | none => some (s, 0)
    | some delay =>
      some (s, {if input.canProcess then .popping (.lookingAny input.now delay)
        else .findingOldest 0 none})
  | .popping call =>
    (s.batchingQueue.section_ options call).map fun (queue, after) =>
      ({ s with batchingQueue := queue }, afterTimedQueue after)
  | .processingTimed _ => some (s, {.findingOldest 0 none})
  | .findingOldest i oldest =>
    if i < options.buckets then
      some (s, {.findingOldest (i + 1) (olderTime oldest (s.batchingQueue.hotBuckets i))})
    else
      some (s, match oldest, options.maxBatchDelay with
        | some time, some delay => {.comparing (time + delay) []}
        | _, _ => 0)

end CoalesceState

abbrev CoalesceWorld (Request : Type) := World (CoalesceState Request) (CoalesceCall Request)

inductive CoalesceEvent (Request : Type) where
  | enqueue (operation : PendingOperation Request)
  /-- The runner takes a task. -/
  | runTask (deadline : Time)
  | goOn (call : CoalesceCall Request) (input : CoalesceInput := {})

namespace CoalesceWorld

def start : CoalesceWorld Request := ⟨.new, 0⟩

variable [DecidableEq Request] (options : BatchingOptions)

def step (w : CoalesceWorld Request) : CoalesceEvent Request → Option (CoalesceWorld Request)
  | .enqueue operation => some { w with calls := .enqueueing (.choosing operation) ::ₘ w.calls }
  | .runTask deadline =>
    if deadline ∈ w.shared.coalesceRunner then
      some {
        shared := { w.shared with
          coalesceRunner := w.shared.coalesceRunner.erase deadline }
        calls := .resetting deadline ::ₘ w.calls }
    else none
  | .goOn call input => w.goOn (CoalesceState.section_ options input) call

end CoalesceWorld

/-- Between calls, the queue is empty or its timer is set and its task is pending. -/
def Timed (options : BatchingOptions) (w : CoalesceWorld Request) : Prop :=
  w.calls = 0 → 0 < w.shared.batchingQueue.queued options →
    ∃ deadline, w.shared.coalesceTimerDeadline = some deadline ∧
      deadline ∈ w.shared.coalesceRunner

/-! ## Who is going to set the deadline -/

/-- The request was the first in the queue, so its call is going to set the deadline. -/
def EnqueueResult.arms (result : EnqueueResult Request) : Bool :=
  result.wasEmptyBeforePush && result.oldestEnqueueTime.isSome

def QueueCall.result? : QueueCall Request → Option (EnqueueResult Request)
  | .lookingFull result | .lockingFlush result | .checkingFull result | .lookingEmpty result
  | .popping (.flush result) .. | .discounting (.flush result) _
  | .unlocking (.flush result) _ => some result
  | _ => none

def QueueCall.watches (call : QueueCall Request) : Nat :=
  if call.result?.any EnqueueResult.arms then 1 else 0

namespace CoalesceCall

/-- The call is still going to look at the deadline, or at the buckets. -/
def watches : CoalesceCall Request → Nat
  | .enqueueing call => call.watches
  | .comparing .. | .setting .. | .checkingStreams | .popping _ | .processingTimed _
  | .findingOldest .. => 1
  | .scheduling .. | .processing _ | .resetting _ => 0

/-- The call hands the deadline over to the runner, or has just taken it from there. -/
def Carries (deadline : Time) : CoalesceCall Request → Prop
  | .scheduling deadline' _ | .resetting deadline' => deadline' = deadline
  | _ => False

def queueCall? : CoalesceCall Request → Option (QueueCall Request)
  | .enqueueing call | .popping call => some call
  | _ => none

end CoalesceCall

open CoalesceCall

def queueCalls (calls : Multiset (CoalesceCall Request)) : Multiset (QueueCall Request) :=
  calls.filterMap CoalesceCall.queueCall?

/-- All that is counted has been popped. -/
def AllPopped (s : CoalesceState Request) (calls : Multiset (CoalesceCall Request)) : Prop :=
  s.batchingQueue.hotSize ≤ weigh QueueCall.undiscounted (queueCalls calls)

/-- What holds of the queue, the timer and the calls. -/
structure Armed (options : BatchingOptions) (s : CoalesceState Request)
    (calls : Multiset (CoalesceCall Request)) : Prop where
  counted : Counted options s.batchingQueue (queueCalls calls)
  carried : ∀ deadline, s.coalesceTimerDeadline = some deadline →
    deadline ∈ s.coalesceRunner ∨ ∃ call ∈ calls, call.Carries deadline
  watched : s.coalesceTimerDeadline = none →
    0 < weigh CoalesceCall.watches calls ∨ AllPopped s calls

/-- What is counted after a section that leaves it to others to set the deadline: a request that
is not the first one, or a search that has found nothing. -/
def leavesCounted? (options : BatchingOptions) (s : CoalesceState Request) :
    CoalesceCall Request → Option Int
  | .enqueueing (.counting _) =>
    if s.batchingQueue.hotSize = 0 then none else some (s.batchingQueue.hotSize + 1)
  | .findingOldest i none => if i < options.buckets then none else some s.batchingQueue.hotSize
  | _ => none

/-- The branch that goes wrong is not taken: with the deadline unset and no other call to set it,
what is counted has been popped and is only to be discounted. -/
def KeepsWatch [DecidableEq Request] (options : BatchingOptions) (w : CoalesceWorld Request) :
    CoalesceEvent Request → Prop
  | .goOn call _ =>
    w.shared.coalesceTimerDeadline = none →
      weigh CoalesceCall.watches (w.calls.erase call) = 0 →
        ∀ counted ∈ leavesCounted? options w.shared call,
          counted ≤ weigh QueueCall.undiscounted (queueCalls w.calls)
  | _ => True

instance [DecidableEq Request] (options : BatchingOptions) (w : CoalesceWorld Request) :
    ∀ event, Decidable (KeepsWatch options w event)
  | .goOn call _ => inferInstanceAs (Decidable (w.shared.coalesceTimerDeadline = none →
      weigh watches (w.calls.erase call) = 0 →
        ∀ counted ∈ leavesCounted? options w.shared call,
          counted ≤ weigh QueueCall.undiscounted (queueCalls w.calls)))
  | .enqueue _ | .runTask _ => isTrue trivial

section Armed

variable {options : BatchingOptions} {input : CoalesceInput} {s s' : CoalesceState Request}
  {call : CoalesceCall Request} {calls next rest : Multiset (CoalesceCall Request)}
  {delay : Time}

open CoalesceState

@[simp] theorem queueCalls_zero : queueCalls (0 : Multiset (CoalesceCall Request)) = 0 := rfl

@[simp] theorem queueCalls_add (calls calls' : Multiset (CoalesceCall Request)) :
    queueCalls (calls + calls') = queueCalls calls + queueCalls calls' :=
  Multiset.filterMap_add ..

@[simp] theorem queueCalls_singleton (call : CoalesceCall Request) :
    queueCalls {call} = call.queueCall?.elim 0 fun queueCall => {queueCall} := by
  cases call <;> rfl

theorem queueCalls_cons (call : CoalesceCall Request) (calls : Multiset (CoalesceCall Request)) :
    queueCalls (call ::ₘ calls) = queueCalls {call} + queueCalls calls := by
  rw [← Multiset.singleton_add, queueCalls_add]

@[simp] theorem queueCalls_processReady (readyBatch : BatchingQueue.Batch Request) :
    queueCalls (processReady readyBatch) = 0 := by
  unfold processReady
  split_ifs <;> rfl

section
variable (after : QueueCall Request ⊕ QueueReturn Request)

@[simp] theorem queueCalls_afterQueue : queueCalls (afterQueue options after) = goesOn after := by
  rcases after with call | result | batch
  · rfl
  · simp only [afterQueue, afterEnqueue, goesOn_inr]
    split
    · split_ifs
      · rfl
      · exact queueCalls_processReady _
    · exact queueCalls_processReady _
  · rfl

@[simp] theorem queueCalls_afterTimedQueue : queueCalls (afterTimedQueue after) = goesOn after := by
  cases after with
  | inl call => rfl
  | inr returned =>
    simp only [afterTimedQueue, afterPop, goesOn_inr]
    split_ifs <;> rfl

end

/-- A section is one of the queue, or it leaves the queue alone and may begin a pop. -/
theorem coalesce_section_queue (stepped : section_ options input s call = some (s', next)) :
    (∃ queueCall after, call.queueCall? = some queueCall ∧
      s.batchingQueue.section_ options queueCall = some (s'.batchingQueue, after) ∧
      queueCalls next = goesOn after) ∨
    (call.queueCall? = none ∧ s'.batchingQueue = s.batchingQueue ∧
      (queueCalls next = 0 ∨ ∃ now delay, queueCalls next = {.lookingAny now delay})) := by
  cases call with
  | enqueueing queueCall =>
    simp only [section_, Option.map_eq_some_iff, Prod.mk.injEq] at stepped
    obtain ⟨⟨queue, after⟩, gone_on, rfl, rfl⟩ := stepped
    exact .inl ⟨queueCall, after, rfl, gone_on, queueCalls_afterQueue after⟩
  | popping queueCall =>
    simp only [section_, Option.map_eq_some_iff, Prod.mk.injEq] at stepped
    obtain ⟨⟨queue, after⟩, gone_on, rfl, rfl⟩ := stepped
    exact .inl ⟨queueCall, after, rfl, gone_on, queueCalls_afterTimedQueue after⟩
  | comparing deadline readyBatch =>
    cases stepped
    refine .inr ⟨rfl, rfl, .inl ?_⟩
    split_ifs
    · exact queueCalls_processReady _
    · rfl
  | setting deadline readyBatch =>
    simp only [section_] at stepped
    split_ifs at stepped
    · cases stepped
      exact .inr ⟨rfl, rfl, .inl (queueCalls_processReady _)⟩
    · cases stepped
      exact .inr ⟨rfl, rfl, .inl rfl⟩
  | scheduling deadline readyBatch =>
    cases stepped
    exact .inr ⟨rfl, rfl, .inl (queueCalls_processReady _)⟩
  | resetting deadline =>
    simp only [section_] at stepped
    split_ifs at stepped
    all_goals
      cases stepped
      exact .inr ⟨rfl, rfl, .inl rfl⟩
  | checkingStreams =>
    simp only [section_] at stepped
    split at stepped
    · cases stepped
      exact .inr ⟨rfl, rfl, .inl rfl⟩
    · cases stepped
      refine .inr ⟨rfl, rfl, ?_⟩
      split_ifs
      · exact .inr ⟨_, _, rfl⟩
      · exact .inl rfl
  | findingOldest i oldest =>
    simp only [section_] at stepped
    split_ifs at stepped
    · cases stepped
      exact .inr ⟨rfl, rfl, .inl rfl⟩
    · cases stepped
      refine .inr ⟨rfl, rfl, .inl ?_⟩
      split <;> rfl
  | processing readyBatch =>
    cases stepped
    exact .inr ⟨rfl, rfl, .inl rfl⟩
  | processingTimed batch =>
    cases stepped
    exact .inr ⟨rfl, rfl, .inl rfl⟩

theorem coalesce_section_counted (max_pos : 0 < options.maxBatchSize)
    (counted : Counted options s.batchingQueue (queueCalls (call ::ₘ rest)))
    (stepped : section_ options input s call = some (s', next)) :
    Counted options s'.batchingQueue (queueCalls (next + rest)) := by
  rw [queueCalls_cons, queueCalls_singleton] at counted
  rw [queueCalls_add]
  obtain ⟨queueCall, after, its_call, gone_on, left⟩ | ⟨no_call, same, left⟩ :=
    coalesce_section_queue stepped
  · rw [its_call, Option.elim_some, Multiset.singleton_add] at counted
    rw [left]
    exact section_counted max_pos counted gone_on
  · rw [no_call, Option.elim_none, zero_add] at counted
    rw [same]
    obtain left | ⟨now, delay, left⟩ := left
    · rwa [left, zero_add]
    · rw [left, Multiset.singleton_add]
      exact counted.begin trivial rfl rfl rfl rfl

/-- A deadline that is set by a section is handed over next, and one that is reset is not set. -/
theorem coalesce_section_carried
    (carried : ∀ deadline, s.coalesceTimerDeadline = some deadline →
      deadline ∈ s.coalesceRunner ∨ ∃ other ∈ call ::ₘ rest, other.Carries deadline)
    (stepped : section_ options input s call = some (s', next)) :
    ∀ deadline, s'.coalesceTimerDeadline = some deadline →
      deadline ∈ s'.coalesceRunner ∨ ∃ other ∈ next + rest, other.Carries deadline := by
  -- a section that leaves the deadline and the tasks alone, and carried nothing
  have kept : s'.coalesceTimerDeadline = s.coalesceTimerDeadline →
      s'.coalesceRunner = s.coalesceRunner → (∀ deadline,
        s.coalesceTimerDeadline = some deadline → ¬ call.Carries deadline) →
      ∀ deadline, s'.coalesceTimerDeadline = some deadline →
        deadline ∈ s'.coalesceRunner ∨ ∃ other ∈ next + rest, other.Carries deadline := by
    intro same_deadline same_runner carries_none deadline is_set
    rw [same_deadline] at is_set
    rw [same_runner]
    refine (carried deadline is_set).imp_right ?_
    rintro ⟨other, member, carries⟩
    obtain rfl | member := Multiset.mem_cons.1 member
    · exact absurd carries (carries_none deadline is_set)
    · exact ⟨other, Multiset.mem_add.2 (.inr member), carries⟩
  cases call with
  | scheduling deadline readyBatch =>
    cases stepped
    intro deadline' is_set
    obtain pending | ⟨other, member, carries⟩ := carried deadline' is_set
    · exact .inl (Multiset.mem_cons_of_mem pending)
    · obtain rfl | member := Multiset.mem_cons.1 member
      · obtain rfl : deadline = deadline' := carries
        exact .inl (Multiset.mem_cons_self _ _)
      · exact .inr ⟨other, Multiset.mem_add.2 (.inr member), carries⟩
  | setting deadline readyBatch =>
    simp only [section_] at stepped
    split_ifs at stepped
    · cases stepped
      exact kept rfl rfl fun _ _ => id
    · cases stepped
      rintro deadline' ⟨⟩
      exact .inr ⟨_, Multiset.mem_add.2 (.inl (Multiset.mem_singleton_self _)), rfl⟩
  | resetting deadline =>
    simp only [section_] at stepped
    split_ifs at stepped with current
    · cases stepped
      simp
    · cases stepped
      refine kept rfl rfl fun deadline' is_set carries => current ?_
      rw [is_set, show deadline = deadline' from carries]
  | enqueueing queueCall =>
    simp only [section_, Option.map_eq_some_iff, Prod.mk.injEq] at stepped
    obtain ⟨⟨queue, after⟩, -, rfl, rfl⟩ := stepped
    exact kept rfl rfl fun _ _ => id
  | popping queueCall =>
    simp only [section_, Option.map_eq_some_iff, Prod.mk.injEq] at stepped
    obtain ⟨⟨queue, after⟩, -, rfl, rfl⟩ := stepped
    exact kept rfl rfl fun _ _ => id
  | checkingStreams =>
    simp only [section_] at stepped
    split at stepped
    all_goals
      cases stepped
      exact kept rfl rfl fun _ _ => id
  | findingOldest i oldest =>
    simp only [section_] at stepped
    split_ifs at stepped
    all_goals
      cases stepped
      exact kept rfl rfl fun _ _ => id
  | _ =>
    cases stepped
    exact kept rfl rfl fun _ _ => id

variable {q q' : BatchingQueue Request} {queueCall : QueueCall Request}
  {after : QueueCall Request ⊕ QueueReturn Request} {w : CoalesceWorld Request}

/-- A call of `enqueue` that saw an empty queue knows it until its last look at the counter. -/
theorem section_watches (delayed : options.maxBatchDelay = some delay)
    (stepped : q.section_ options queueCall = some (q', after)) :
    queueCall.watches ≤ weigh watches (afterQueue options after) ∨ q'.hotSize = 0 := by
  cases queueCall with
  | lookingFull result =>
    cases stepped
    refine .inl ?_
    split_ifs <;> exact le_rfl
  | lockingFlush result =>
    simp only [BatchingQueue.section_, Option.ite_none_left_eq_some] at stepped
    obtain ⟨-, rest⟩ := stepped
    cases rest
    exact .inl le_rfl
  | checkingFull result =>
    cases stepped
    refine .inl ?_
    unfold BatchingQueue.popFrom
    split_ifs <;> exact le_rfl
  | popping popper count start offset batch =>
    cases stepped
    refine .inl ?_
    unfold BatchingQueue.popFrom
    split_ifs <;> cases popper <;> exact le_rfl
  | discounting popper batch =>
    cases stepped
    cases popper <;> exact .inl le_rfl
  | unlocking popper batch =>
    cases stepped
    cases popper <;> exact .inl le_rfl
  | lookingEmpty result =>
    cases stepped
    by_cases empty : q.hotSize = 0
    · exact .inr empty
    · refine .inl ?_
      obtain ⟨readyBatch, _ | oldest, _ | _, last⟩ := result
      all_goals
        first
        | exact Nat.zero_le _
        | simp [QueueCall.watches, QueueCall.result?, EnqueueResult.arms, afterQueue, afterEnqueue,
            delayed, empty, watches]
  | _ => exact .inl (Nat.zero_le _)

theorem watches_afterTimedQueue (after : QueueCall Request ⊕ QueueReturn Request) :
    0 < weigh watches (afterTimedQueue after) := by
  cases after with
  | inl queueCall => exact Nat.one_pos
  | inr returned =>
    simp only [afterTimedQueue, afterPop, weigh_singleton]
    split_ifs <;> exact Nat.one_pos

theorem section_left (options : BatchingOptions)
    (stepped : q.section_ options queueCall = some (q', after)) :
    (∃ operation, queueCall = .counting operation ∧ q'.hotSize = q.hotSize + 1 ∧
      (q.hotSize = 0 → 0 < weigh watches (afterQueue options after))) ∨
    q'.hotSize + queueCall.undiscounted ≤
      q.hotSize + weigh QueueCall.undiscounted (goesOn after) := by
  cases queueCall with
  | counting operation =>
    cases stepped
    refine .inl ⟨operation, rfl, rfl, fun first => ?_⟩
    rw [first, zero_add]
    split_ifs <;> exact Nat.one_pos
  | popping popper count start offset batch =>
    cases stepped
    refine .inr ?_
    rw [goesOn_inl, weigh_singleton, (popFrom_weights ..).2.1, List.length_append,
      hotSize_setBucket]
    simp only [QueueCall.undiscounted]
    omega
  | discounting popper batch =>
    cases stepped
    refine .inr ?_
    simp only [QueueCall.undiscounted]
    omega
  | lockingFlush | lockingDue =>
    simp only [BatchingQueue.section_, Option.ite_none_left_eq_some] at stepped
    obtain ⟨-, rest⟩ := stepped
    cases rest
    exact .inr le_rfl
  | findingOldest now delay i oldest =>
    simp only [BatchingQueue.section_] at stepped
    split_ifs at stepped
    all_goals
      cases stepped
      exact .inr (Int.add_le_add_left (Int.natCast_nonneg _) _)
  | _ =>
    cases stepped
    exact .inr (Int.add_le_add_left (Int.natCast_nonneg _) _)

/-- A section that leaves nobody to set the deadline: a search that found nothing, the end of a
call that was not going to, or one that saw the queue empty. -/
theorem coalesce_section_watches (delayed : options.maxBatchDelay = some delay)
    (stepped : section_ options input s call = some (s', next))
    (unset : s'.coalesceTimerDeadline = none) :
    0 < weigh watches next ∨
      s.coalesceTimerDeadline = none ∧
        (call.watches = 0 ∨ s'.batchingQueue.hotSize = 0 ∨
          ∃ i, call = .findingOldest i none ∧ options.buckets ≤ i ∧ s' = s) := by
  cases call with
  | enqueueing queueCall =>
    simp only [section_, Option.map_eq_some_iff, Prod.mk.injEq] at stepped
    obtain ⟨⟨queue, after⟩, gone_on, rfl, rfl⟩ := stepped
    obtain watched | empty := section_watches delayed gone_on
    · simp only [watches]
      by_cases watches : queueCall.watches = 0
      · exact .inr ⟨unset, .inl watches⟩
      · exact .inl (by omega)
    · exact .inr ⟨unset, .inr (.inl empty)⟩
  | popping queueCall =>
    simp only [section_, Option.map_eq_some_iff, Prod.mk.injEq] at stepped
    obtain ⟨⟨queue, after⟩, -, rfl, rfl⟩ := stepped
    exact .inl (watches_afterTimedQueue after)
  | comparing deadline readyBatch =>
    cases stepped
    simp only [unset, Option.any_none]
    exact .inl Nat.one_pos
  | setting deadline readyBatch =>
    simp only [section_] at stepped
    split_ifs at stepped with earlier
    · cases stepped
      simp [unset] at earlier
    · cases stepped
      simp at unset
  | scheduling deadline readyBatch =>
    cases stepped
    exact .inr ⟨unset, .inl rfl⟩
  | processing readyBatch =>
    cases stepped
    exact .inr ⟨unset, .inl rfl⟩
  | resetting deadline =>
    simp only [section_] at stepped
    split_ifs at stepped
    · cases stepped
      exact .inl Nat.one_pos
    · cases stepped
      exact .inr ⟨unset, .inl rfl⟩
  | checkingStreams =>
    simp only [section_, delayed] at stepped
    cases stepped
    left
    rw [weigh_singleton]
    split_ifs <;> exact Nat.one_pos
  | processingTimed batch =>
    cases stepped
    exact .inl Nat.one_pos
  | findingOldest i oldest =>
    simp only [section_, delayed] at stepped
    split_ifs at stepped with inside
    · cases stepped
      exact .inl Nat.one_pos
    · cases stepped
      cases oldest with
      | some time => exact .inl Nat.one_pos
      | none => exact .inr ⟨unset, .inr (.inr ⟨i, rfl, not_lt.1 inside, rfl⟩)⟩

theorem coalesce_section_left
    (stepped : section_ options input s call = some (s', next)) :
    0 < weigh watches next ∨
    (∃ operation, call = .enqueueing (.counting operation) ∧ s.batchingQueue.hotSize ≠ 0 ∧
      s'.batchingQueue.hotSize = s.batchingQueue.hotSize + 1) ∨
    s'.batchingQueue.hotSize + weigh QueueCall.undiscounted (queueCalls {call}) ≤
      s.batchingQueue.hotSize + weigh QueueCall.undiscounted (queueCalls next) := by
  obtain ⟨queueCall, after, its_call, gone_on, left⟩ | ⟨no_call, same, left⟩ :=
    coalesce_section_queue stepped
  · obtain ⟨operation, rfl, counts, first⟩ | less := section_left options gone_on
    · cases call with
      | enqueueing queueCall =>
        obtain rfl : queueCall = .counting operation := Option.some.inj its_call
        by_cases empty : s.batchingQueue.hotSize = 0
        · left
          simp only [section_, gone_on, Option.map_some, Option.some.injEq, Prod.mk.injEq] at stepped
          rw [← stepped.2]
          exact first empty
        · exact .inr (.inl ⟨operation, rfl, empty, counts⟩)
      | popping queueCall =>
        obtain rfl : queueCall = .counting operation := Option.some.inj its_call
        left
        simp only [section_, gone_on, Option.map_some, Option.some.injEq, Prod.mk.injEq] at stepped
        rw [← stepped.2]
        exact watches_afterTimedQueue after
      | _ => cases its_call
    · rw [queueCalls_singleton, its_call, Option.elim_some, weigh_singleton, left]
      exact .inr (.inr less)
  · rw [queueCalls_singleton, no_call, same]
    exact .inr (.inr (Int.add_le_add_left (Int.natCast_nonneg _) _))

theorem section_armed [DecidableEq Request] (max_pos : 0 < options.maxBatchSize)
    (delayed : options.maxBatchDelay = some delay) (armed : Armed options s (call ::ₘ rest))
    (keeps : KeepsWatch options ⟨s, call ::ₘ rest⟩ (.goOn call input))
    (stepped : section_ options input s call = some (s', next)) :
    Armed options s' (next + rest) := by
  obtain ⟨counted, carried, watched⟩ := armed
  refine ⟨coalesce_section_counted max_pos counted stepped,
    coalesce_section_carried carried stepped, fun unset => ?_⟩
  have nonneg := counted.nonneg
  rw [weigh_add]
  by_cases others : weigh watches rest = 0
  swap
  · exact .inl (by omega)
  obtain watches | ⟨unset_before, leaves⟩ := coalesce_section_watches delayed stepped unset
  · exact .inl (by omega)
  simp only [KeepsWatch, Multiset.erase_cons_head] at keeps
  replace keeps := keeps unset_before others
  rw [weigh_cons, others, add_zero] at watched
  simp only [AllPopped, queueCalls_cons call, queueCalls_add, weigh_add] at watched keeps ⊢
  -- all that was counted had been popped before, or this section has seen to it
  have popped_before : s'.batchingQueue.hotSize = 0 ∨
      s.batchingQueue.hotSize ≤ (weigh QueueCall.undiscounted (queueCalls {call}) +
        weigh QueueCall.undiscounted (queueCalls rest) : Nat) := by
    obtain idle | empty | ⟨i, rfl, exceeds, rfl⟩ := leaves
    · obtain watches | popped := watched unset_before
      · omega
      · exact .inr popped
    · exact .inl empty
    · refine .inr (keeps _ ?_)
      simp [leavesCounted?, not_lt.2 exceeds]
  obtain empty | popped := popped_before
  · rw [empty]
    exact .inr (Int.natCast_nonneg _)
  obtain watches | ⟨operation, rfl, not_first, counts⟩ | less := coalesce_section_left stepped
  · exact .inl (by omega)
  · have on_top := keeps (s.batchingQueue.hotSize + 1) (by simp [leavesCounted?, not_first])
    have none_popped : weigh QueueCall.undiscounted
      (queueCalls {enqueueing (.counting operation)}) = 0 := rfl
    right
    omega
  · right
    omega

theorem CoalesceWorld.start_armed (max_pos : 0 < options.maxBatchSize) :
    Armed options (start : CoalesceWorld Request).shared start.calls := by
  refine ⟨(QueueWorld.start_inv max_pos).counted, ?_, fun _ => .inr le_rfl⟩
  rintro deadline ⟨⟩

theorem Armed.timed (armed : Armed options w.shared w.calls) : Timed options w := by
  intro quiet waiting
  obtain ⟨counted, carried, watched⟩ := armed
  have balance := counted.balance
  simp only [quiet, AllPopped, queueCalls_zero, weigh_zero] at balance watched carried
  cases is_set : w.shared.coalesceTimerDeadline with
  | none =>
    obtain watches | popped := watched is_set
    · omega
    · omega
  | some deadline =>
    refine ⟨deadline, rfl, (carried deadline is_set).resolve_right ?_⟩
    rintro ⟨call, member, -⟩
    exact absurd member (Multiset.notMem_zero call)

variable [DecidableEq Request]

theorem CoalesceWorld.step_armed (max_pos : 0 < options.maxBatchSize)
    (delayed : options.maxBatchDelay = some delay) {w w' : CoalesceWorld Request}
    {event : CoalesceEvent Request} (armed : Armed options w.shared w.calls)
    (keeps : KeepsWatch options w event) (stepped : w.step options event = some w') :
    Armed options w'.shared w'.calls := by
  cases event with
  | enqueue operation =>
    cases stepped
    obtain ⟨counted, carried, watched⟩ := armed
    refine ⟨?_, fun deadline is_set => ?_, fun unset => ?_⟩
    · rw [queueCalls_cons]
      exact counted.begin trivial rfl rfl rfl rfl
    · refine (carried deadline is_set).imp_right ?_
      rintro ⟨call, member, carries⟩
      exact ⟨call, Multiset.mem_cons_of_mem member, carries⟩
    · obtain watches | popped := watched unset
      · exact .inl (by rw [weigh_cons]; omega)
      · right
        rw [AllPopped, queueCalls_cons, weigh_add]
        exact popped.trans (Int.ofNat_le.2 (Nat.le_add_left _ _))
  | runTask deadline =>
    simp only [step, Option.ite_none_right_eq_some, Option.some.injEq] at stepped
    obtain ⟨pending, rfl⟩ := stepped
    obtain ⟨counted, carried, watched⟩ := armed
    refine ⟨?_, fun deadline' is_set => ?_, fun unset => ?_⟩
    · rw [queueCalls_cons, queueCalls_singleton]
      simpa [queueCall?] using counted
    · obtain still | ⟨call, member, carries⟩ := carried deadline' is_set
      · by_cases same : deadline = deadline'
        · exact .inr ⟨_, Multiset.mem_cons_self _ _, same⟩
        · exact .inl ((Multiset.mem_erase_of_ne (Ne.symm same)).2 still)
      · exact .inr ⟨call, Multiset.mem_cons_of_mem member, carries⟩
    · obtain watches | popped := watched unset
      · exact .inl (by rw [weigh_cons]; omega)
      · right
        simpa [AllPopped, queueCalls_cons, queueCall?] using popped
  | goOn call input =>
    obtain ⟨rest, next, calls, gone_on, calls'⟩ := World.goOn_cases stepped
    obtain ⟨shared, _⟩ := w
    subst calls
    rw [calls']
    exact section_armed max_pos delayed armed keeps gone_on

/-- Any calls of `enqueue_serialized_request_` and any runs of the timer, section by section. -/
theorem run_timed (options : BatchingOptions) (max_pos : 0 < options.maxBatchSize)
    (delayed : options.maxBatchDelay = some delay) {events : List (CoalesceEvent Request)}
    {w : CoalesceWorld Request}
    (watched : Along (CoalesceWorld.step options) (KeepsWatch options) .start events)
    (ran : run (CoalesceWorld.step options) .start events = some w) : Timed options w :=
  Armed.timed (run_inv (fun w => Armed options w.shared w.calls)
    (CoalesceWorld.step_armed max_pos delayed) (CoalesceWorld.start_armed max_pos) watched ran)

end Armed

/-- Two requests at most in a batch, one bucket, and a delay of 10. -/
def pairOptions : BatchingOptions := ⟨2, 1, some 10⟩

/-- A request is pushed and counted. -/
def enqueues (operation : PendingOperation Nat) : List (CoalesceEvent Nat) :=
  [.enqueue operation, .goOn (.enqueueing (.choosing operation)),
    .goOn (.enqueueing (.pushing 0 operation)), .goOn (.enqueueing (.counting operation))]

/-- The first request sets a deadline. -/
def setsDeadline : List (CoalesceEvent Nat) :=
  enqueues ⟨0, 1⟩ ++
    [.goOn (.enqueueing (.lookingEmpty (.counted 1 ⟨0, 1⟩))), .goOn (.comparing 10 []),
      .goOn (.setting 10 []), .goOn (.scheduling 10 [])]

/-- The second request of a pair pops both. -/
def flushesPair : List (CoalesceEvent Nat) :=
  [.goOn (.enqueueing (.lookingFull {})), .goOn (.enqueueing (.lockingFlush {})),
    .goOn (.enqueueing (.checkingFull {})), .goOn (.enqueueing (.popping (.flush {}) 2 0 0 []))]

def handsOutPair (pair : BatchingQueue.Batch Nat) : List (CoalesceEvent Nat) :=
  [.goOn (.enqueueing (.unlocking (.flush {}) pair)),
    .goOn (.enqueueing (.lookingEmpty { readyBatch := pair })), .goOn (.processing pair)]

/-- A run of the task finds a request that is not due, and is about to look for the oldest one. -/
def findsNotDue : List (CoalesceEvent Nat) :=
  [.runTask 10, .goOn (.resetting 10), .goOn .checkingStreams { canProcess := true, now := 10 },
    .goOn (.popping (.lookingAny 10 10)), .goOn (.popping (.lockingDue 10 10)),
    .goOn (.popping (.findingOldest 10 10 0 none)),
    .goOn (.popping (.findingOldest 10 10 1 (some (5, 0)))),
    .goOn (.popping (.unlocking .due []))]

/-- A pair is sent before its deadline, and a third request finds the timer still set. -/
def sendsPair : List (CoalesceEvent Nat) :=
  setsDeadline ++
  enqueues ⟨1, 2⟩ ++ flushesPair ++
  [.goOn (.enqueueing (.discounting (.flush {}) [⟨0, 1⟩, ⟨1, 2⟩]))] ++
  handsOutPair [⟨0, 1⟩, ⟨1, 2⟩] ++
  enqueues ⟨5, 3⟩ ++ [.goOn (.enqueueing (.lookingEmpty (.counted 1 ⟨5, 3⟩))),
    .goOn (.comparing 15 [])]

/-- The task sets the deadline of the third request. -/
def setsNext : List (CoalesceEvent Nat) :=
  [.goOn (.findingOldest 0 none), .goOn (.findingOldest 1 (some 5)), .goOn (.comparing 15 []),
    .goOn (.setting 15 []), .goOn (.scheduling 15 [])]

theorem run_timed_setsNext :
    ∃ w ∈ run (CoalesceWorld.step pairOptions) .start (sendsPair ++ findsNotDue ++ setsNext),
      Timed pairOptions w ∧ w.calls = 0 ∧ w.shared.coalesceTimerDeadline = some 15 := by
  obtain ⟨w, ran, quiet, set⟩ : ∃ w ∈ run (CoalesceWorld.step pairOptions) .start
      (sendsPair ++ findsNotDue ++ setsNext),
        w.calls = 0 ∧ w.shared.coalesceTimerDeadline = some 15 := by decide
  exact ⟨w, ran, run_timed pairOptions Nat.two_pos rfl (by decide) ran, quiet, set⟩

/-! ## The branch that goes wrong -/

/-- The next pair is popped while the task runs, and the search of the task ends before the pair
is discounted; a fifth request is counted in between. -/
def strandsFifth : List (CoalesceEvent Nat) :=
  sendsPair ++
  findsNotDue ++
  enqueues ⟨10, 4⟩ ++ flushesPair ++
  [.goOn (.findingOldest 0 none), .goOn (.findingOldest 1 none)] ++
  enqueues ⟨10, 5⟩ ++ [.goOn (.enqueueing (.discounting (.flush {}) [⟨5, 3⟩, ⟨10, 4⟩])),
    .goOn (.enqueueing (.lookingFull {})), .goOn (.enqueueing (.lookingEmpty {}))] ++
  handsOutPair [⟨5, 3⟩, ⟨10, 4⟩]

/-- The fifth request is left with no timer. -/
theorem strandsFifth_not_timed :
    ∃ w ∈ run (CoalesceWorld.step pairOptions) .start strandsFifth, ¬ Timed pairOptions w := by
  obtain ⟨w, ran, quiet, waiting, unset⟩ :
      ∃ w ∈ run (CoalesceWorld.step pairOptions) .start strandsFifth, w.calls = 0 ∧
        0 < w.shared.batchingQueue.queued pairOptions ∧
          w.shared.coalesceTimerDeadline = none := by decide
  refine ⟨w, ran, fun timed => ?_⟩
  obtain ⟨deadline, is_set, -⟩ := timed quiet waiting
  rw [unset] at is_set
  cases is_set

end AdServer.Grpc
