import AdServer.Lib.Runs
import Mathlib.Algebra.BigOperators.Intervals
import Mathlib.Algebra.Order.BigOperators.Group.Finset
import Mathlib.Tactic.Abel
import Mathlib.Tactic.Linarith

/-!
# The batching queue

Requests are pushed into buckets, each with its lock, and counted afterwards in
`hot_size_`; they are popped under `hot_pop_lock_` and discounted afterwards. So
a pop may take requests that are not counted yet.
-/

namespace AdServer.Grpc

open AdServer.Lib.Runs

abbrev Time := Int

structure PendingOperation (Request : Type) where
  enqueueTime : Time
  request : Request
  deriving DecidableEq

abbrev BatchingQueue.Batch (Request : Type) := List (PendingOperation Request)

/-- What the queue and its client read of `BatchingOptions`. -/
structure BatchingOptions where
  maxBatchSize : Nat
  hotBucketsCount : Nat
  maxBatchDelay : Option Time

/-- `hot_buckets_.size()`. -/
def BatchingOptions.buckets (options : BatchingOptions) : Nat := max 1 options.hotBucketsCount

structure EnqueueResult (Request : Type) where
  readyBatch : BatchingQueue.Batch Request := []
  oldestEnqueueTime : Option Time := none
  wasEmptyBeforePush : Bool := false
  queueEmptyAfterEnqueue : Bool := true
  deriving DecidableEq

/-- The result of an `enqueue` that has counted its request as the last of `hot_size`. -/
def EnqueueResult.counted {Request : Type} (hotSize : Int) (operation : PendingOperation Request) :
    EnqueueResult Request :=
  if hotSize = 1 then
    { wasEmptyBeforePush := true, oldestEnqueueTime := some operation.enqueueTime }
  else {}

/-- The buckets by their numbers. `hot_size_` is an integer here, so that a wrap below zero
would show. -/
structure BatchingQueue (Request : Type) where
  hotBuckets : Nat → BatchingQueue.Batch Request
  hotSize : Int
  nextBucketId : Nat
  hotPopLocked : Bool

/-- For whom `pop_reserved_items_` works: for the flush of an `enqueue`, or for
`try_pop_due_batch`. -/
inductive Popper (Request : Type) where
  | flush (result : EnqueueResult Request)
  | due
  deriving DecidableEq

/-- A call is what it does next: one lock section, or one atomic operation. -/
inductive QueueCall (Request : Type) where
  /-- `next_bucket_id_.fetch_add`. -/
  | choosing (operation : PendingOperation Request)
  | pushing (bucket : Nat) (operation : PendingOperation Request)
  /-- `hot_size_.fetch_add`. -/
  | counting (operation : PendingOperation Request)
  /-- The two loads of `flush_hot_batch_if_full_`, without and with `hot_pop_lock_`. -/
  | lookingFull (result : EnqueueResult Request)
  | lockingFlush (result : EnqueueResult Request)
  | checkingFull (result : EnqueueResult Request)
  | lookingEmpty (result : EnqueueResult Request)
  | lookingAny (now delay : Time)
  | lockingDue (now delay : Time)
  | findingOldest (now delay : Time) (bucket : Nat) (oldest : Option (Time × Nat))
  | reserving (start : Nat)
  | popping (popper : Popper Request) (count start offset : Nat) (batch : BatchingQueue.Batch Request)
  /-- `hot_size_.fetch_sub`. -/
  | discounting (popper : Popper Request) (batch : BatchingQueue.Batch Request)
  | unlocking (popper : Popper Request) (batch : BatchingQueue.Batch Request)
  deriving DecidableEq

inductive QueueReturn (Request : Type) where
  | enqueued (result : EnqueueResult Request)
  /-- `try_pop_due_batch` returns whether the batch is not empty. -/
  | popped (batch : BatchingQueue.Batch Request)

variable {Request : Type}

namespace BatchingQueue

variable (options : BatchingOptions)

def new : BatchingQueue Request := ⟨fun _ => [], 0, 0, false⟩

def setBucket (q : BatchingQueue Request) (i : Nat) (bucket : BatchingQueue.Batch Request) :
    BatchingQueue Request :=
  { q with hotBuckets := Function.update q.hotBuckets i bucket }

/-- The older of the oldest so far and the front of a bucket. -/
def olderFront (oldest : Option (Time × Nat)) (i : Nat) : BatchingQueue.Batch Request → Option (Time × Nat)
  | [] => oldest
  | front :: _ =>
    if oldest.all fun (time, _) => front.enqueueTime < time then some (front.enqueueTime, i)
    else oldest

/-- The loop of `pop_reserved_items_` goes on, or is over. -/
def popFrom (popper : Popper Request) (count start offset : Nat) (batch : BatchingQueue.Batch Request) :
    QueueCall Request :=
  if offset < options.buckets ∧ batch.length < count then .popping popper count start offset batch
  else .discounting popper batch

/-- One section of a call: the queue after it, and what the call does next or returns. There is
none while the call waits for `hot_pop_lock_`. -/
def section_ (q : BatchingQueue Request) :
    QueueCall Request → Option (BatchingQueue Request × (QueueCall Request ⊕ QueueReturn Request))
  | .choosing operation =>
    some ({ q with nextBucketId := q.nextBucketId + 1 },
      .inl (.pushing (q.nextBucketId % options.buckets) operation))
  | .pushing i operation =>
    some (q.setBucket i (q.hotBuckets i ++ [operation]), .inl (.counting operation))
  | .counting operation =>
    let hotSize := q.hotSize + 1
    let result := EnqueueResult.counted hotSize operation
    some ({ q with hotSize := hotSize },
      .inl (if options.maxBatchSize ≤ hotSize then .lookingFull result else .lookingEmpty result))
  | .lookingFull result =>
    some (q, .inl (if q.hotSize < options.maxBatchSize then .lookingEmpty result
      else .lockingFlush result))
  | .lockingFlush result =>
    if q.hotPopLocked then none
    else some ({ q with hotPopLocked := true }, .inl (.checkingFull result))
  | .checkingFull result =>
    some (q, .inl (if q.hotSize < options.maxBatchSize then .unlocking (.flush result) []
      else popFrom options (.flush result) options.maxBatchSize 0 0 []))
  | .lookingEmpty result =>
    some (q, .inr (.enqueued { result with queueEmptyAfterEnqueue := q.hotSize = 0 }))
  | .lookingAny now delay =>
    some (q, if q.hotSize = 0 then .inr (.popped []) else .inl (.lockingDue now delay))
  | .lockingDue now delay =>
    if q.hotPopLocked then none
    else some ({ q with hotPopLocked := true }, .inl (.findingOldest now delay 0 none))
  | .findingOldest now delay i oldest =>
    if i < options.buckets then
      some (q, .inl (.findingOldest now delay (i + 1) (olderFront oldest i (q.hotBuckets i))))
    else
      some (q, .inl (match oldest with
        | none => .unlocking .due []
        | some (time, start) =>
          if now < time + delay then .unlocking .due [] else .reserving start))
  | .reserving start =>
    some (q, .inl (popFrom options .due (min q.hotSize options.maxBatchSize).toNat start 0 []))
  | .popping popper count start offset batch =>
    let i := (start + offset) % options.buckets
    let room := count - batch.length
    some (q.setBucket i ((q.hotBuckets i).drop room),
      .inl (popFrom options popper count start (offset + 1)
        (batch ++ (q.hotBuckets i).take room)))
  | .discounting popper batch =>
    some ({ q with hotSize := q.hotSize - batch.length }, .inl (.unlocking popper batch))
  | .unlocking popper batch =>
    some ({ q with hotPopLocked := false },
      match popper with
      | .flush result => .inl (.lookingEmpty { result with readyBatch := batch })
      | .due => .inr (.popped batch))

/-- The batches of one bucket in `drain_all`. -/
def drainBucket (size : Nat) : Nat → BatchingQueue.Batch Request → List (BatchingQueue.Batch Request)
  | 0, _ => []
  | _, [] => []
  | fuel + 1, bucket => bucket.take size :: drainBucket size fuel (bucket.drop size)

/-- `drain_all`, alone on the queue. A batch takes at least one request, so a bucket has no
more batches than requests. -/
def drainAll (q : BatchingQueue Request) : BatchingQueue Request × List (BatchingQueue.Batch Request) :=
  ({ q with hotBuckets := fun _ => [], hotSize := 0 },
    (List.range options.buckets).flatMap fun i =>
      drainBucket options.maxBatchSize (q.hotBuckets i).length (q.hotBuckets i))

/-- `size()` counts what is counted; this is what the buckets hold. -/
def queued (q : BatchingQueue Request) : Nat :=
  ∑ i ∈ Finset.range options.buckets, (q.hotBuckets i).length

def operations (q : BatchingQueue Request) : Multiset (PendingOperation Request) :=
  ∑ i ∈ Finset.range options.buckets, Multiset.ofList (q.hotBuckets i)

end BatchingQueue

namespace QueueCall

/-- The request is in its bucket and not counted yet. -/
def uncounted : QueueCall Request → Nat
  | .counting _ => 1
  | _ => 0

/-- Requests taken from the buckets and not discounted yet. -/
def undiscounted : QueueCall Request → Nat
  | .popping _ _ _ _ batch | .discounting _ batch => batch.length
  | _ => 0

/-- `hot_pop_lock_` is held. -/
def holdsPop : QueueCall Request → Nat
  | .checkingFull _ | .findingOldest .. | .reserving _ | .popping .. | .discounting ..
  | .unlocking .. => 1
  | _ => 0

/-- The call saw a full batch counted, and has not popped one since. -/
def flushes : QueueCall Request → Nat
  | .lookingFull _ | .lockingFlush _ | .checkingFull _ | .popping (.flush _) ..
  | .discounting (.flush _) _ => 1
  | _ => 0

/-- The requests that only this call knows of. -/
def inHand : QueueCall Request → BatchingQueue.Batch Request
  | .choosing operation | .pushing _ operation => [operation]
  | .popping _ _ _ _ batch | .discounting _ batch | .unlocking _ batch => batch
  | .lookingEmpty result => result.readyBatch
  | _ => []

end QueueCall

open QueueCall

/-- A flush pops a full batch: what it has not visited yet makes it up. -/
def Popper.Fills (options : BatchingOptions) (q : BatchingQueue Request) (count start offset : Nat)
    (batch : BatchingQueue.Batch Request) : Popper Request → Prop
  | .flush _ => count = options.maxBatchSize ∧ start = 0 ∧ count ≤ batch.length +
      ∑ i ∈ Finset.Ico offset options.buckets, (q.hotBuckets i).length
  | .due => True

/-- What a call keeps for itself. -/
def QueueCall.Sound (options : BatchingOptions) (q : BatchingQueue Request) :
    QueueCall Request → Prop
  | .pushing i _ => i < options.buckets
  | .popping popper count start offset batch =>
    batch.length ≤ count ∧ count ≤ options.maxBatchSize ∧ count ≤ q.hotSize ∧
      offset < options.buckets ∧ popper.Fills options q count start offset batch
  | .discounting popper batch =>
    batch.length ≤ options.maxBatchSize ∧ batch.length ≤ q.hotSize ∧
      popper.Fills options q batch.length 0 options.buckets batch
  | .unlocking _ batch => batch.length ≤ options.maxBatchSize
  | .lookingFull result => result.readyBatch = []
  | .lookingEmpty result => result.readyBatch.length ≤ options.maxBatchSize
  | _ => True

/-- The counter against the buckets, and the flushes to come against the counter. -/
structure Counted (options : BatchingOptions) (q : BatchingQueue Request)
    (calls : Multiset (QueueCall Request)) : Prop where
  balance : (q.queued options + weigh QueueCall.undiscounted calls : Int) =
    q.hotSize + weigh QueueCall.uncounted calls
  locked : weigh QueueCall.holdsPop calls = if q.hotPopLocked then 1 else 0
  nonneg : 0 ≤ q.hotSize
  flushed : q.hotSize < options.maxBatchSize + weigh QueueCall.flushes calls
  sound : ∀ call ∈ calls, call.Sound options q

/-- What a returned call had in hand. -/
def QueueReturn.batch : QueueReturn Request → BatchingQueue.Batch Request
  | .enqueued result => result.readyBatch
  | .popped batch => batch

/-- The call that a section leaves, if any. -/
def goesOn (after : QueueCall Request ⊕ QueueReturn Request) : Multiset (QueueCall Request) :=
  after.elim ({·}) fun _ => 0

section Counted

variable {options : BatchingOptions} {q q' : BatchingQueue Request} {call : QueueCall Request}
  {calls rest : Multiset (QueueCall Request)}

@[simp] theorem goesOn_inl (call : QueueCall Request) : goesOn (.inl call) = {call} := rfl

@[simp] theorem goesOn_inr (returned : QueueReturn Request) : goesOn (.inr returned) = 0 := rfl

open BatchingQueue

@[simp] theorem hotSize_setBucket (i : Nat) (bucket : BatchingQueue.Batch Request) :
    (q.setBucket i bucket).hotSize = q.hotSize := rfl

@[simp] theorem hotPopLocked_setBucket (i : Nat) (bucket : BatchingQueue.Batch Request) :
    (q.setBucket i bucket).hotPopLocked = q.hotPopLocked := rfl

theorem buckets_pos (options : BatchingOptions) : 0 < options.buckets :=
  Nat.lt_of_lt_of_le Nat.one_pos (le_max_left _ _)

variable {i count start offset : Nat} {popper : Popper Request}
  {batch : BatchingQueue.Batch Request} {next : Multiset (QueueCall Request)}

theorem sum_setBucket {M : Type} [AddCommMonoid M] (weight : BatchingQueue.Batch Request → M)
    {s : Finset Nat} (inside : i ∈ s) (bucket : BatchingQueue.Batch Request) :
    ∑ j ∈ s, weight ((q.setBucket i bucket).hotBuckets j) + weight (q.hotBuckets i) =
      ∑ j ∈ s, weight (q.hotBuckets j) + weight bucket := by
  rw [← Finset.add_sum_erase s _ inside, ← Finset.add_sum_erase s _ inside]
  have others : ∑ j ∈ s.erase i, weight ((q.setBucket i bucket).hotBuckets j) =
      ∑ j ∈ s.erase i, weight (q.hotBuckets j) := by
    refine Finset.sum_congr rfl fun j member => ?_
    simp [setBucket, Function.update_of_ne (Finset.ne_of_mem_erase member)]
  rw [others]
  simp only [setBucket, Function.update_self]
  abel

theorem queued_setBucket (inside : i < options.buckets) (bucket : BatchingQueue.Batch Request) :
    (q.setBucket i bucket).queued options + (q.hotBuckets i).length =
      q.queued options + bucket.length :=
  sum_setBucket List.length (Finset.mem_range.2 inside) bucket

theorem operations_setBucket (inside : i < options.buckets) (bucket : BatchingQueue.Batch Request) :
    (q.setBucket i bucket).operations options + Multiset.ofList (q.hotBuckets i) =
      q.operations options + Multiset.ofList bucket :=
  sum_setBucket Multiset.ofList (Finset.mem_range.2 inside) bucket

theorem QueueCall.Sound.of_free (free : call.holdsPop = 0) (sound : call.Sound options q) :
    call.Sound options q' := by
  cases call <;> first | exact sound | simp [holdsPop] at free

theorem QueueCall.Sound.mono (counted : q.hotSize ≤ q'.hotSize)
    (filled : ∀ i, (q.hotBuckets i).length ≤ (q'.hotBuckets i).length)
    (sound : call.Sound options q) : call.Sound options q' := by
  have fills : ∀ {popper : Popper Request} {count start offset : Nat} {batch : BatchingQueue.Batch Request},
      popper.Fills options q count start offset batch →
        popper.Fills options q' count start offset batch := by
    rintro (_ | _) count start offset batch fills
    · obtain ⟨full, first, left⟩ := fills
      have more := Finset.sum_le_sum (s := Finset.Ico offset options.buckets) fun i _ => filled i
      exact ⟨full, first, left.trans (Nat.add_le_add_left more _)⟩
    · trivial
  cases call with
  | popping popper count start offset batch =>
    obtain ⟨room, small, reserved, goes_on, unvisited⟩ := sound
    exact ⟨room, small, reserved.trans counted, goes_on, fills unvisited⟩
  | discounting popper batch =>
    obtain ⟨small, reserved, unvisited⟩ := sound
    exact ⟨small, reserved.trans counted, fills unvisited⟩
  | _ => exact sound

section
variable (counted : Counted options q (call ::ₘ rest))
include counted

theorem Counted.others_free (holds : call.holdsPop = 1) : ∀ other ∈ rest, other.holdsPop = 0 := by
  have locked := counted.locked
  rw [weigh_cons, holds] at locked
  refine weigh_eq_zero.1 ?_
  split_ifs at locked
  · omega
  · omega

theorem Counted.others_sound (holds : call.holdsPop = 1) :
    ∀ other ∈ rest, other.Sound options q' := fun other member =>
  (counted.sound other (Multiset.mem_cons_of_mem member)).of_free
    (counted.others_free holds other member)

theorem Counted.others_kept (hotSize : q.hotSize ≤ q'.hotSize)
    (filled : ∀ i, (q.hotBuckets i).length ≤ (q'.hotBuckets i).length) :
    ∀ other ∈ rest, other.Sound options q' := fun other member =>
  (counted.sound other (Multiset.mem_cons_of_mem member)).mono hotSize filled

end

theorem popFrom_weights (options : BatchingOptions) (popper : Popper Request)
    (count start offset : Nat) (batch : BatchingQueue.Batch Request) :
    (popFrom options popper count start offset batch).uncounted = 0 ∧
      (popFrom options popper count start offset batch).undiscounted = batch.length ∧
      (popFrom options popper count start offset batch).holdsPop = 1 ∧
      (popFrom options popper count start offset batch).flushes =
        (discounting popper batch).flushes := by
  unfold popFrom
  split_ifs
  · cases popper <;> exact ⟨rfl, rfl, rfl, rfl⟩
  · exact ⟨rfl, rfl, rfl, rfl⟩

/-- A pop that goes on, or that has visited all buckets or has filled the batch. -/
theorem popFrom_sound (room : batch.length ≤ count) (small : count ≤ options.maxBatchSize)
    (reserved : count ≤ q.hotSize) (fills : popper.Fills options q count start offset batch) :
    (popFrom options popper count start offset batch).Sound options q := by
  unfold popFrom
  split_ifs with goes_on
  · exact ⟨room, small, reserved, goes_on.1, fills⟩
  · refine ⟨room.trans small, by omega, ?_⟩
    cases popper with
    | due => trivial
    | flush result =>
      obtain ⟨full, -, left⟩ := fills
      have unvisited : options.buckets ≤ offset →
          ∑ i ∈ Finset.Ico offset options.buckets, (q.hotBuckets i).length = 0 := fun exceeds => by
        rw [Finset.Ico_eq_empty_of_le exceeds, Finset.sum_empty]
      refine ⟨?_, rfl, Nat.le_add_right _ _⟩
      by_cases exceeds : options.buckets ≤ offset
      · have := unvisited exceeds
        omega
      · omega

theorem sum_Ico_setBucket (inside : offset < options.buckets)
    (bucket : BatchingQueue.Batch Request) :
    ∑ i ∈ Finset.Ico offset options.buckets, (q.hotBuckets i).length =
      (q.hotBuckets offset).length + ∑ i ∈ Finset.Ico (offset + 1) options.buckets,
        ((q.setBucket offset bucket).hotBuckets i).length := by
  rw [Finset.sum_eq_sum_Ico_succ_bot inside]
  congr 1
  refine Finset.sum_congr rfl fun i member => ?_
  have later : i ≠ offset := by
    have := (Finset.mem_Ico.1 member).1
    omega
  simp [setBucket, Function.update_of_ne later]

/-- The bucket that a flush visits goes into the batch, as far as there is room. -/
theorem fills_visited (fills : popper.Fills options q count start offset batch)
    (goes_on : offset < options.buckets) (room : batch.length ≤ count) :
    popper.Fills options (q.setBucket ((start + offset) % options.buckets)
        ((q.hotBuckets ((start + offset) % options.buckets)).drop (count - batch.length)))
      count start (offset + 1)
      (batch ++ (q.hotBuckets ((start + offset) % options.buckets)).take
        (count - batch.length)) := by
  cases popper with
  | due => trivial
  | flush result =>
    obtain ⟨full, rfl, left⟩ := fills
    refine ⟨full, rfl, ?_⟩
    rw [Nat.zero_add, Nat.mod_eq_of_lt goes_on, List.length_append, List.length_take]
    rw [sum_Ico_setBucket goes_on ((q.hotBuckets offset).drop (count - batch.length))] at left
    omega

section
variable (counted : Counted options q (call ::ₘ rest))
include counted

/-- The invariant after a section, from what the section does to the counter and to its own
call. -/
theorem Counted.after
    (balance : (q'.queued options + weigh undiscounted next + call.uncounted + q.hotSize :
      Int) = q.queued options + call.undiscounted + weigh uncounted next + q'.hotSize)
    (locked : (if q'.hotPopLocked then 1 else 0) + call.holdsPop =
      (if q.hotPopLocked then 1 else 0) + weigh holdsPop next)
    (nonneg : 0 ≤ q'.hotSize)
    (flushed : q'.hotSize + call.flushes ≤ q.hotSize + weigh flushes next ∨
      q'.hotSize < options.maxBatchSize)
    (own : ∀ other ∈ next, other.Sound options q')
    (others : ∀ other ∈ rest, other.Sound options q') : Counted options q' (next + rest) := by
  have balance_before := counted.balance
  have locked_before := counted.locked
  have flushed_before := counted.flushed
  simp only [weigh_cons] at balance_before locked_before flushed_before
  refine ⟨?_, ?_, nonneg, ?_, ?_⟩
  · simp only [weigh_add]
    omega
  · simp only [weigh_add]
    omega
  · simp only [weigh_add]
    omega
  · intro other member
    exact (Multiset.mem_add.1 member).elim (own other) (others other)

theorem Counted.after_look (buckets : q'.hotBuckets = q.hotBuckets)
    (hotSize : q'.hotSize = q.hotSize) (uncounted : call.uncounted = weigh uncounted next)
    (undiscounted : call.undiscounted = weigh undiscounted next)
    (locked : (if q'.hotPopLocked then 1 else 0) + call.holdsPop =
      (if q.hotPopLocked then 1 else 0) + weigh holdsPop next)
    (flushed : call.flushes ≤ weigh flushes next ∨ q.hotSize < options.maxBatchSize)
    (own : ∀ other ∈ next, other.Sound options q') : Counted options q' (next + rest) := by
  have same : q'.queued options = q.queued options := by simp only [queued, buckets]
  refine counted.after ?_ locked (hotSize ▸ counted.nonneg) ?_ own
    (counted.others_kept hotSize.ge fun i => by rw [buckets])
  · rw [same, hotSize]
    omega
  · rw [hotSize]
    omega

end

end Counted

section Section

variable {options : BatchingOptions} {q q' : BatchingQueue Request} {call : QueueCall Request}
  {rest : Multiset (QueueCall Request)} {after : QueueCall Request ⊕ QueueReturn Request}

open BatchingQueue

@[simp] theorem readyBatch_counted (hotSize : Int) (operation : PendingOperation Request) :
    (EnqueueResult.counted hotSize operation).readyBatch = [] := by
  unfold EnqueueResult.counted
  split_ifs <;> rfl

theorem counted_counting {operation : PendingOperation Request}
    (counted : Counted options q (.counting operation ::ₘ rest))
    (stepped : q.section_ options (.counting operation) = some (q', after)) :
    Counted options q' (goesOn after + rest) := by
  cases stepped
  have nonneg := counted.nonneg
  have more : q.hotSize ≤ q.hotSize + 1 := by omega
  have same : ({ q with hotSize := q.hotSize + 1 } : BatchingQueue Request).queued options =
      q.queued options := rfl
  refine counted.after ?_ ?_ (nonneg.trans more) ?_ ?_ (counted.others_kept more fun j => le_rfl)
  · rw [same]
    split_ifs
    all_goals
      simp only [goesOn_inl, weigh_singleton, undiscounted, uncounted]
      omega
  · split_ifs <;> rfl
  · split_ifs with full
    · exact .inl (by simp [flushes])
    · exact .inr (not_le.1 full)
  · split_ifs <;> simp [QueueCall.Sound]

theorem QueueCall.undiscounted_of_free (free : call.holdsPop = 0) : call.undiscounted = 0 := by
  cases call <;> first | rfl | simp [holdsPop] at free

/-- What is counted is in the buckets when the holder of the lock has taken nothing. -/
theorem Counted.hotSize_le_queued (counted : Counted options q (call ::ₘ rest))
    (holds : call.holdsPop = 1) (empty_handed : call.undiscounted = 0) :
    q.hotSize ≤ q.queued options := by
  have balance := counted.balance
  have others : weigh undiscounted rest = 0 := weigh_eq_zero.2 fun other member =>
    undiscounted_of_free (counted.others_free holds other member)
  rw [weigh_cons, others, empty_handed] at balance
  omega

theorem Counted.begin_pop (counted : Counted options q (call ::ₘ rest)) (holds : call.holdsPop = 1)
    (empty_handed : call.undiscounted = 0) (popper : Popper Request) {count : Nat} (start : Nat)
    (small : count ≤ options.maxBatchSize) (reserved : count ≤ q.hotSize)
    (uncounted : call.uncounted = 0)
    (flushes : call.flushes ≤ (discounting popper []).flushes)
    (full : popper ≠ .due → count = options.maxBatchSize ∧ start = 0) :
    Counted options q (goesOn (.inl (popFrom options popper count start 0 [])) + rest) := by
  have queued := counted.hotSize_le_queued holds empty_handed
  obtain ⟨uncounted', undiscounted', holds', flushes'⟩ :=
    popFrom_weights options popper count start 0 []
  refine counted.after_look rfl rfl ?_ ?_ ?_ (.inl ?_) ?_
  · rw [goesOn_inl, weigh_singleton, uncounted, uncounted']
  · rw [goesOn_inl, weigh_singleton, empty_handed, undiscounted', List.length_nil]
  · rw [goesOn_inl, weigh_singleton, holds, holds']
  · rw [goesOn_inl, weigh_singleton, flushes']
    exact flushes
  · simp only [goesOn_inl, Multiset.mem_singleton, forall_eq]
    refine popFrom_sound (Nat.zero_le _) small reserved ?_
    cases popper with
    | due => trivial
    | flush result =>
      obtain ⟨whole, first⟩ := full (by simp)
      refine ⟨whole, first, ?_⟩
      rw [List.length_nil, Nat.zero_add, ← Finset.range_eq_Ico]
      unfold BatchingQueue.queued at queued
      omega

variable {popper : Popper Request} {batch : BatchingQueue.Batch Request}

theorem counted_popping {count start offset : Nat}
    (counted : Counted options q (.popping popper count start offset batch ::ₘ rest))
    (stepped : q.section_ options (.popping popper count start offset batch) = some (q', after)) :
    Counted options q' (goesOn after + rest) := by
  cases stepped
  obtain ⟨room, small, reserved, goes_on, fills⟩ := counted.sound _ (Multiset.mem_cons_self _ _)
  have inside : (start + offset) % options.buckets < options.buckets :=
    Nat.mod_lt _ (buckets_pos options)
  set i := (start + offset) % options.buckets with hi
  set taken := (q.hotBuckets i).take (count - batch.length)
  have lengths : taken.length + ((q.hotBuckets i).drop (count - batch.length)).length =
      (q.hotBuckets i).length := by rw [← List.length_append, List.take_append_drop]
  have within : taken.length ≤ count - batch.length := by
    rw [List.length_take]
    exact min_le_left _ _
  have popped := queued_setBucket (q := q) inside ((q.hotBuckets i).drop (count - batch.length))
  obtain ⟨uncounted, undiscounted, holds, flushes⟩ :=
    popFrom_weights options popper count start (offset + 1) (batch ++ taken)
  rw [List.length_append] at undiscounted
  have in_hand : (popping popper count start offset batch).undiscounted =
      batch.length := rfl
  have counts : (popping popper count start offset batch).uncounted = 0 := rfl
  refine counted.after ?_ ?_ counted.nonneg (.inl ?_) ?_ (counted.others_sound rfl)
  · rw [goesOn_inl, weigh_singleton, weigh_singleton, uncounted, undiscounted, in_hand, counts,
      hotSize_setBucket]
    omega
  · rw [goesOn_inl, weigh_singleton, holds]
    rfl
  · rw [goesOn_inl, weigh_singleton, flushes]
    cases popper <;> exact le_rfl
  · simp only [goesOn_inl, Multiset.mem_singleton, forall_eq]
    refine popFrom_sound ?_ small reserved (fills_visited fills goes_on room)
    rw [List.length_append]
    omega

theorem counted_discounting (counted : Counted options q (.discounting popper batch ::ₘ rest))
    (max_pos : 0 < options.maxBatchSize)
    (stepped : q.section_ options (.discounting popper batch) = some (q', after)) :
    Counted options q' (goesOn after + rest) := by
  cases stepped
  obtain ⟨small, reserved, fills⟩ := counted.sound _ (Multiset.mem_cons_self _ _)
  have same : ({ q with hotSize := q.hotSize - batch.length } : BatchingQueue Request).queued
      options = q.queued options := rfl
  refine counted.after ?_ rfl (by simpa using reserved) (.inl ?_) ?_ (counted.others_sound rfl)
  · rw [same]
    simp only [goesOn_inl, weigh_singleton, undiscounted, uncounted]
    omega
  · cases popper with
    | due =>
      have none_flushed : (discounting (.due : Popper Request) batch).flushes = 0 := rfl
      dsimp only
      omega
    | flush result =>
      -- a full batch, so at least one request for this flush
      have full := fills.1
      have one_flushed : (discounting (.flush result) batch).flushes = 1 := rfl
      dsimp only
      omega
  · simpa [QueueCall.Sound] using small

theorem section_counted (max_pos : 0 < options.maxBatchSize)
    (counted : Counted options q (call ::ₘ rest))
    (stepped : q.section_ options call = some (q', after)) :
    Counted options q' (goesOn after + rest) := by
  have own := counted.sound call (Multiset.mem_cons_self _ _)
  have nonneg := counted.nonneg
  cases call with
  | choosing operation =>
    cases stepped
    refine counted.after_look rfl rfl rfl rfl rfl (.inl le_rfl) ?_
    simpa [QueueCall.Sound] using Nat.mod_lt _ (buckets_pos options)
  | pushing i operation =>
    cases stepped
    have pushed := queued_setBucket (q := q) own (q.hotBuckets i ++ [operation])
    rw [List.length_append, List.length_singleton] at pushed
    refine counted.after ?_ rfl nonneg (.inl le_rfl) ?_ (counted.others_kept le_rfl fun j => ?_)
    · simp only [goesOn_inl, weigh_singleton, undiscounted, uncounted, hotSize_setBucket]
      omega
    · simp [QueueCall.Sound]
    · by_cases here : j = i
      · subst here
        simp [setBucket]
      · simp [setBucket, Function.update_of_ne here]
  | counting operation => exact counted_counting counted stepped
  | lookingFull result =>
    cases stepped
    have no_batch : result.readyBatch = [] := own
    split_ifs with full
    · exact counted.after_look rfl rfl rfl rfl rfl (.inr full) (by simp [QueueCall.Sound, no_batch])
    · exact counted.after_look rfl rfl rfl rfl rfl (.inl le_rfl) (by simp [QueueCall.Sound])
  | lockingFlush result =>
    simp only [section_, Option.ite_none_left_eq_some] at stepped
    obtain ⟨free, rest⟩ := stepped
    cases rest
    exact counted.after_look rfl rfl rfl rfl (by simp [free, holdsPop]) (.inl le_rfl)
      (by simp [QueueCall.Sound])
  | checkingFull result =>
    cases stepped
    split_ifs with full
    · exact counted.after_look rfl rfl rfl rfl rfl (.inr full) (by simp [QueueCall.Sound])
    · exact counted.begin_pop rfl rfl (.flush result) 0 le_rfl (not_lt.1 full) rfl le_rfl
        fun _ => ⟨rfl, rfl⟩
  | lookingEmpty result =>
    cases stepped
    exact counted.after_look rfl rfl rfl rfl rfl (.inl le_rfl) (by simp)
  | lookingAny now delay =>
    cases stepped
    split_ifs
    · exact counted.after_look rfl rfl rfl rfl rfl (.inl le_rfl) (by simp)
    · exact counted.after_look rfl rfl rfl rfl rfl (.inl le_rfl) (by simp [QueueCall.Sound])
  | lockingDue now delay =>
    simp only [section_, Option.ite_none_left_eq_some] at stepped
    obtain ⟨free, rest⟩ := stepped
    cases rest
    exact counted.after_look rfl rfl rfl rfl (by simp [free, holdsPop]) (.inl le_rfl)
      (by simp [QueueCall.Sound])
  | findingOldest now delay i oldest =>
    simp only [section_] at stepped
    split_ifs at stepped
    · cases stepped
      exact counted.after_look rfl rfl rfl rfl rfl (.inl le_rfl) (by simp [QueueCall.Sound])
    · cases stepped
      cases oldest with
      | none => exact counted.after_look rfl rfl rfl rfl rfl (.inl le_rfl) (by simp [QueueCall.Sound])
      | some found =>
        dsimp only
        split_ifs
        all_goals
          exact counted.after_look rfl rfl rfl rfl rfl (.inl le_rfl) (by simp [QueueCall.Sound])
  | reserving start =>
    cases stepped
    exact counted.begin_pop rfl rfl .due start (by omega) (by omega) rfl le_rfl (absurd rfl)
  | popping popper count start offset batch => exact counted_popping counted stepped
  | discounting popper batch => exact counted_discounting counted max_pos stepped
  | unlocking popper batch =>
    cases stepped
    have small : batch.length ≤ options.maxBatchSize := own
    have locked := counted.locked
    rw [weigh_cons] at locked
    have held : q.hotPopLocked = true := by
      by_contra unlocked
      simp [unlocked, holdsPop] at locked
    cases popper with
    | due =>
      change Counted options _ (0 + rest)
      exact counted.after_look rfl rfl rfl rfl (by simp [held, holdsPop]) (.inl le_rfl)
        (by simp)
    | flush result =>
      exact counted.after_look rfl rfl rfl rfl (by simp [held, holdsPop]) (.inl le_rfl)
        (by simpa [QueueCall.Sound] using small)

end Section

/-! ## Runs -/

/-- The requests that a call has in hand after a section, or has returned with. -/
def inHandAfter : QueueCall Request ⊕ QueueReturn Request → BatchingQueue.Batch Request
  | .inl call => call.inHand
  | .inr returned => returned.batch

/-- The batch of a call that returns. -/
def handedOut : QueueCall Request ⊕ QueueReturn Request → Multiset (BatchingQueue.Batch Request)
  | .inl _ => 0
  | .inr returned => {returned.batch}

/-- All requests of some batches. -/
def unbatched (batches : Multiset (BatchingQueue.Batch Request)) : Multiset (PendingOperation Request) :=
  (batches.map Multiset.ofList).sum

/-- The queue and its calls in progress, with the history of what came in and went out. -/
structure QueueWorld (Request : Type) where
  queue : BatchingQueue Request
  calls : Multiset (QueueCall Request)
  entered : Multiset (PendingOperation Request)
  returned : Multiset (BatchingQueue.Batch Request)

inductive QueueEvent (Request : Type) where
  | enqueue (operation : PendingOperation Request)
  | tryPopDueBatch (now delay : Time)
  | section_ (call : QueueCall Request)
  /-- Alone on the queue. -/
  | drainAll

namespace QueueWorld

def start : QueueWorld Request := ⟨.new, 0, 0, 0⟩

variable [DecidableEq Request] (options : BatchingOptions)

def step (w : QueueWorld Request) : QueueEvent Request → Option (QueueWorld Request)
  | .enqueue operation =>
    some { w with
      calls := .choosing operation ::ₘ w.calls
      entered := operation ::ₘ w.entered }
  | .tryPopDueBatch now delay => some { w with calls := .lookingAny now delay ::ₘ w.calls }
  | .section_ call =>
    if call ∈ w.calls then
      (w.queue.section_ options call).map fun (queue, after) => { w with
        queue := queue
        calls := advance w.calls call (goesOn after)
        returned := handedOut after + w.returned }
    else none
  | .drainAll =>
    if w.calls = 0 then
      let (queue, batches) := w.queue.drainAll options
      some { w with queue := queue, returned := Multiset.ofList batches + w.returned }
    else none

end QueueWorld

/-- What the queue promises between any two sections. -/
structure LosesNothing (options : BatchingOptions) (w : QueueWorld Request) : Prop where
  /-- Each request is in one bucket, in the hands of one call, or in one returned batch. -/
  accounted : w.entered = w.queue.operations options +
    unbatched (w.calls.map QueueCall.inHand) + unbatched w.returned
  small : ∀ batch ∈ w.returned, batch.length ≤ options.maxBatchSize
  nonneg : 0 ≤ w.queue.hotSize
  quiet : w.calls = 0 → w.entered = w.queue.operations options + unbatched w.returned ∧
    w.queue.hotSize = w.queue.queued options ∧ w.queue.hotSize < options.maxBatchSize

section Runs

variable {options : BatchingOptions} {q q' : BatchingQueue Request} {call : QueueCall Request}
  {after : QueueCall Request ⊕ QueueReturn Request}

open BatchingQueue

@[simp] theorem unbatched_zero : unbatched (0 : Multiset (BatchingQueue.Batch Request)) = 0 := rfl

@[simp] theorem unbatched_cons (batch : BatchingQueue.Batch Request) (batches : Multiset (BatchingQueue.Batch Request)) :
    unbatched (batch ::ₘ batches) = Multiset.ofList batch + unbatched batches := by
  simp [unbatched]

@[simp] theorem unbatched_singleton (batch : BatchingQueue.Batch Request) :
    unbatched {batch} = Multiset.ofList batch := by
  simp [unbatched]

@[simp] theorem unbatched_add (batches batches' : Multiset (BatchingQueue.Batch Request)) :
    unbatched (batches + batches') = unbatched batches + unbatched batches' := by
  simp [unbatched]

theorem inHand_popFrom (popper : Popper Request) (count start offset : Nat)
    (batch : BatchingQueue.Batch Request) :
    (popFrom options popper count start offset batch).inHand = batch := by
  unfold popFrom
  split_ifs <;> rfl

/-- A section moves requests between its hands and the buckets, and loses none. -/
theorem section_operations (sound : call.Sound options q)
    (stepped : q.section_ options call = some (q', after)) :
    q'.operations options + Multiset.ofList (inHandAfter after) =
      q.operations options + Multiset.ofList call.inHand := by
  cases call with
  | pushing i operation =>
    cases stepped
    have pushed := operations_setBucket (q := q) sound (q.hotBuckets i ++ [operation])
    rw [← Multiset.coe_add] at pushed
    have cancelled : (q.setBucket i (q.hotBuckets i ++ [operation])).operations options =
        q.operations options + Multiset.ofList [operation] := by
      refine add_right_cancel (b := Multiset.ofList (q.hotBuckets i)) ?_
      rw [pushed]
      abel
    simpa [inHandAfter, inHand] using cancelled
  | popping popper count start offset batch =>
    cases stepped
    have inside : (start + offset) % options.buckets < options.buckets :=
      Nat.mod_lt _ (buckets_pos options)
    set i := (start + offset) % options.buckets
    set room := count - batch.length
    have popped := operations_setBucket (q := q) inside ((q.hotBuckets i).drop room)
    have split : Multiset.ofList (q.hotBuckets i) =
        Multiset.ofList ((q.hotBuckets i).take room) +
          Multiset.ofList ((q.hotBuckets i).drop room) := by
      rw [Multiset.coe_add, List.take_append_drop]
    have cancelled : (q.setBucket i ((q.hotBuckets i).drop room)).operations options +
        Multiset.ofList ((q.hotBuckets i).take room) = q.operations options := by
      refine add_right_cancel (b := Multiset.ofList ((q.hotBuckets i).drop room)) ?_
      rw [add_assoc, ← split, popped]
    change _ + Multiset.ofList (popFrom options popper count start (offset + 1) _).inHand =
      _ + Multiset.ofList batch
    rw [inHand_popFrom, ← Multiset.coe_add, ← cancelled]
    abel
  | counting operation =>
    cases stepped
    split_ifs <;> simp [inHandAfter, inHand, operations]
  | lookingFull result =>
    cases stepped
    have no_batch : result.readyBatch = [] := sound
    split_ifs <;> simp [inHandAfter, inHand, no_batch]
  | checkingFull result =>
    cases stepped
    split_ifs
    · rfl
    · exact congrArg (fun batch => _ + Multiset.ofList batch) (inHand_popFrom ..)
  | lockingFlush result =>
    simp only [section_, Option.ite_none_left_eq_some] at stepped
    obtain ⟨-, rest⟩ := stepped
    cases rest
    rfl
  | lockingDue now delay =>
    simp only [section_, Option.ite_none_left_eq_some] at stepped
    obtain ⟨-, rest⟩ := stepped
    cases rest
    rfl
  | lookingAny now delay =>
    cases stepped
    split_ifs <;> rfl
  | findingOldest now delay i oldest =>
    simp only [section_] at stepped
    split_ifs at stepped
    · cases stepped
      rfl
    · cases stepped
      cases oldest with
      | none => rfl
      | some found =>
        dsimp only
        split_ifs <;> rfl
  | reserving start =>
    cases stepped
    exact congrArg (fun batch => _ + Multiset.ofList batch) (inHand_popFrom ..)
  | unlocking popper batch =>
    cases stepped
    cases popper <;> rfl
  | _ =>
    cases stepped
    rfl

theorem section_small (sound : call.Sound options q)
    (stepped : q.section_ options call = some (q', after)) :
    ∀ batch ∈ handedOut after, batch.length ≤ options.maxBatchSize := by
  cases after with
  | inl next => simp [handedOut]
  | inr returned =>
    simp only [handedOut, Multiset.mem_singleton, forall_eq]
    cases call with
    | lookingEmpty result =>
      cases stepped
      exact sound
    | unlocking popper batch =>
      cases popper with
      | due =>
        cases stepped
        exact sound
      | flush result => simp [section_] at stepped
    | lookingAny now delay =>
      simp only [section_, Option.some.injEq, Prod.mk.injEq] at stepped
      obtain ⟨-, returns⟩ := stepped
      split_ifs at returns
      cases returns
      exact Nat.zero_le _
    | findingOldest now delay i oldest =>
      simp only [section_] at stepped
      split_ifs at stepped <;> simp at stepped
    | lockingFlush result => simp [section_] at stepped
    | lockingDue now delay => simp [section_] at stepped
    | _ => simp [section_] at stepped

theorem drainBucket_spec {size : Nat} (size_pos : 0 < size) (fuel : Nat) (bucket : BatchingQueue.Batch Request)
    (enough : bucket.length ≤ fuel) :
    (drainBucket size fuel bucket).flatten = bucket ∧
      ∀ batch ∈ drainBucket size fuel bucket, batch.length ≤ size := by
  induction fuel generalizing bucket with
  | zero =>
    obtain rfl := List.length_eq_zero_iff.1 (Nat.le_zero.1 enough)
    simp [drainBucket]
  | succ fuel ih =>
    cases bucket with
    | nil => simp [drainBucket]
    | cons front bucket =>
      have shorter : ((front :: bucket).drop size).length ≤ fuel := by
        rw [List.length_drop]
        simp only [List.length_cons] at enough ⊢
        omega
      obtain ⟨all, small⟩ := ih _ shorter
      have unfolded : drainBucket size (fuel + 1) (front :: bucket) =
          (front :: bucket).take size :: drainBucket size fuel ((front :: bucket).drop size) := rfl
      rw [unfolded]
      refine ⟨?_, List.forall_mem_cons.2 ⟨List.length_take_le _ _, small⟩⟩
      rw [List.flatten_cons, all, List.take_append_drop]

theorem unbatched_ofList (batches : List (BatchingQueue.Batch Request)) :
    unbatched (Multiset.ofList batches) = Multiset.ofList batches.flatten := by
  induction batches with
  | nil => rfl
  | cons batch batches ih =>
    rw [← Multiset.cons_coe, unbatched_cons, ih, Multiset.coe_add, List.flatten_cons]

theorem unbatched_drainAll (max_pos : 0 < options.maxBatchSize) (q : BatchingQueue Request) :
    unbatched (Multiset.ofList (q.drainAll options).2) = q.operations options := by
  have buckets : ∀ n, Multiset.ofList ((List.range n).flatMap fun i =>
      drainBucket options.maxBatchSize (q.hotBuckets i).length (q.hotBuckets i)).flatten =
        ∑ i ∈ Finset.range n, Multiset.ofList (q.hotBuckets i) := by
    intro n
    induction n with
    | zero => rfl
    | succ n ih =>
      have last := (drainBucket_spec max_pos (q.hotBuckets n).length (q.hotBuckets n) le_rfl).1
      rw [List.range_succ, List.flatMap_append, List.flatten_append, ← Multiset.coe_add, ih,
        Finset.sum_range_succ, List.flatMap_singleton, last]
  rw [unbatched_ofList]
  exact buckets options.buckets

theorem drainAll_small (max_pos : 0 < options.maxBatchSize) (q : BatchingQueue Request) :
    ∀ batch ∈ (q.drainAll options).2, batch.length ≤ options.maxBatchSize := by
  intro batch member
  obtain ⟨i, -, drained⟩ := List.mem_flatMap.1 member
  exact (drainBucket_spec max_pos _ _ le_rfl).2 batch drained

@[simp] theorem queued_drainAll (q : BatchingQueue Request) :
    (q.drainAll options).1.queued options = 0 := by
  simp [drainAll, queued]

@[simp] theorem operations_drainAll (q : BatchingQueue Request) :
    (q.drainAll options).1.operations options = 0 := by
  simp [drainAll, operations]

/-- What holds of the queue and its calls after any run. -/
structure QueueWorld.Inv (options : BatchingOptions) (w : QueueWorld Request) : Prop where
  counted : Counted options w.queue w.calls
  accounted : w.entered = w.queue.operations options +
    unbatched (w.calls.map QueueCall.inHand) + unbatched w.returned
  small : ∀ batch ∈ w.returned, batch.length ≤ options.maxBatchSize

theorem QueueWorld.start_inv (max_pos : 0 < options.maxBatchSize) :
    (start : QueueWorld Request).Inv options := by
  refine ⟨⟨?_, rfl, le_rfl, ?_, ?_⟩, ?_, ?_⟩
  · simp [start, new, queued]
  · simpa [start, new] using max_pos
  · simp [start]
  · simp [start, new, BatchingQueue.operations]
  · simp [start]

theorem Counted.begin {calls : Multiset (QueueCall Request)} (counted : Counted options q calls)
    (sound : call.Sound options q) (uncounted : call.uncounted = 0)
    (undiscounted : call.undiscounted = 0) (holds : call.holdsPop = 0) (flushes : call.flushes = 0) :
    Counted options q (call ::ₘ calls) := by
  obtain ⟨balance, locked, nonneg, flushed, others⟩ := counted
  refine ⟨?_, ?_, nonneg, ?_, ?_⟩
  · rwa [weigh_cons, weigh_cons, uncounted, undiscounted, Nat.zero_add, Nat.zero_add]
  · rw [weigh_cons, holds, Nat.zero_add, locked]
  · rwa [weigh_cons, flushes, Nat.zero_add]
  · exact Multiset.forall_mem_cons.2 ⟨sound, others⟩

theorem inHand_goesOn (after : QueueCall Request ⊕ QueueReturn Request) :
    unbatched ((goesOn after).map inHand) + unbatched (handedOut after) =
      Multiset.ofList (inHandAfter after) := by
  cases after <;> simp [handedOut, inHandAfter]

theorem QueueWorld.Inv.losesNothing {w : QueueWorld Request} (inv : w.Inv options) :
    LosesNothing options w := by
  obtain ⟨counted, accounted, small⟩ := inv
  refine ⟨accounted, small, counted.nonneg, fun quiet => ?_⟩
  have balance := counted.balance
  have flushed := counted.flushed
  simp only [quiet, weigh_zero, Multiset.map_zero, unbatched_zero, add_zero] at *
  exact ⟨accounted, by omega, by omega⟩

variable [DecidableEq Request]

theorem QueueWorld.step_inv (max_pos : 0 < options.maxBatchSize) {w w' : QueueWorld Request}
    {event : QueueEvent Request} (inv : w.Inv options) (stepped : w.step options event = some w') :
    w'.Inv options := by
  obtain ⟨counted, accounted, small⟩ := inv
  cases event with
  | enqueue operation =>
    cases stepped
    refine ⟨counted.begin trivial rfl rfl rfl rfl, ?_, small⟩
    have in_hand : unbatched ((choosing operation ::ₘ w.calls).map inHand) =
        {operation} + unbatched (w.calls.map inHand) := by
      rw [Multiset.map_cons, unbatched_cons, inHand, Multiset.coe_singleton]
    change operation ::ₘ w.entered = w.queue.operations options + _ + _
    rw [in_hand, accounted, ← Multiset.singleton_add]
    abel
  | tryPopDueBatch now delay =>
    cases stepped
    refine ⟨counted.begin trivial rfl rfl rfl rfl, ?_, small⟩
    simpa [inHand] using accounted
  | section_ call =>
    simp only [step, Option.ite_none_right_eq_some, Option.map_eq_some_iff] at stepped
    obtain ⟨member, ⟨queue, after⟩, gone_on, rfl⟩ := stepped
    obtain ⟨rest, calls⟩ := Multiset.exists_cons_of_mem member
    simp only [calls, advance_cons] at counted accounted ⊢
    have sound := counted.sound call (Multiset.mem_cons_self _ _)
    have moved := section_operations sound gone_on
    refine ⟨section_counted max_pos counted gone_on, ?_, ?_⟩
    · rw [← inHand_goesOn] at moved
      simp only [Multiset.map_cons, unbatched_cons] at accounted
      simp only [Multiset.map_add, unbatched_add]
      calc w.entered
          = (w.queue.operations options + Multiset.ofList call.inHand) +
              unbatched (rest.map inHand) + unbatched w.returned := by
            rw [accounted]
            abel
        _ = _ := by
            rw [← moved]
            abel
    · intro batch returned
      exact (Multiset.mem_add.1 returned).elim (section_small sound gone_on batch) (small batch)
  | drainAll =>
    simp only [step, Option.ite_none_right_eq_some, Option.some.injEq] at stepped
    obtain ⟨alone, rfl⟩ := stepped
    have unlocked := counted.locked
    simp only [alone, weigh_zero, Multiset.map_zero, unbatched_zero, add_zero] at *
    refine ⟨⟨?_, unlocked, le_rfl, ?_, by simp⟩, ?_, ?_⟩
    · simp [drainAll, queued]
    · simpa [drainAll] using max_pos
    · rw [operations_drainAll, unbatched_add, unbatched_drainAll max_pos]
      simpa using accounted
    · intro batch returned
      exact (Multiset.mem_add.1 returned).elim (drainAll_small max_pos _ batch) (small batch)

/-- Any calls of `enqueue` and `try_pop_due_batch`, section by section in any order. -/
theorem run_losesNothing (options : BatchingOptions) (max_pos : 0 < options.maxBatchSize)
    {events : List (QueueEvent Request)} {w : QueueWorld Request}
    (ran : run (QueueWorld.step options) .start events = some w) : LosesNothing options w :=
  (run_keeps (QueueWorld.Inv options) (QueueWorld.step_inv max_pos)
    (QueueWorld.start_inv max_pos) ran).losesNothing

/-- Of three requests the second fills a batch, and its flush takes the first and the third, which
is counted later. -/
def flushesUncounted : List (QueueEvent Nat) :=
  let first : PendingOperation Nat := ⟨5, 7⟩
  let second : PendingOperation Nat := ⟨6, 8⟩
  let third : PendingOperation Nat := ⟨9, 4⟩
  [.enqueue first, .section_ (.choosing first), .section_ (.pushing 0 first),
    .section_ (.counting first), .section_ (.lookingEmpty (.counted 1 first)),
    .enqueue second, .section_ (.choosing second), .section_ (.pushing 1 second),
    .section_ (.counting second),
    .enqueue third, .section_ (.choosing third), .section_ (.pushing 0 third),
    .section_ (.lookingFull {}), .section_ (.lockingFlush {}), .section_ (.checkingFull {}),
    .section_ (.popping (.flush {}) 2 0 0 []), .section_ (.discounting (.flush {}) [first, third]),
    .section_ (.unlocking (.flush {}) [first, third]),
    .section_ (.lookingEmpty { readyBatch := [first, third] }), .section_ (.counting third)]

theorem run_losesNothing_flushed :
    ∃ w ∈ run (QueueWorld.step ⟨2, 2, none⟩) .start flushesUncounted,
      LosesNothing ⟨2, 2, none⟩ w ∧ [⟨5, 7⟩, ⟨9, 4⟩] ∈ w.returned ∧ w.queue.hotSize = 1 := by
  obtain ⟨w, ran, batch, left⟩ :
      ∃ w ∈ run (QueueWorld.step ⟨2, 2, none⟩) .start flushesUncounted,
        [⟨5, 7⟩, ⟨9, 4⟩] ∈ w.returned ∧ w.queue.hotSize = 1 := by decide
  exact ⟨w, ran, run_losesNothing ⟨2, 2, none⟩ Nat.two_pos ran, batch, left⟩

end Runs

end AdServer.Grpc
