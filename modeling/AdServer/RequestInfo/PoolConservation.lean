import AdServer.RequestInfo.RequestPool
import Mathlib.Algebra.BigOperators.Group.Multiset.Basic
import Mathlib.Tactic.Linarith

/-!
# The request pool keeps every amount

What is in the aggregates and in the hands of the threads, with what the servers
have confirmed, is what was added, by key.
-/

namespace AdServer.RequestInfo

section AmountsOf

variable {key : Key} {request : Request} {requests requests' : List Request}

@[simp] theorem amountsOf_nil : amountsOf key [] = 0 := rfl

@[simp] theorem amountsOf_cons :
    amountsOf key (request :: requests) =
      (if request.key = key then request.amounts else 0) + amountsOf key requests := by
  simp [amountsOf]

@[simp] theorem amountsOf_append :
    amountsOf key (requests ++ requests') = amountsOf key requests + amountsOf key requests' := by
  simp [amountsOf]

theorem amountsOf_flatMap {A : Type} (parts : List A) (f : A → List Request) :
    amountsOf key (parts.flatMap f) = (parts.map fun part => amountsOf key (f part)).sum := by
  induction parts with
  | nil => rfl
  | cons part rest ih => rw [List.flatMap_cons, amountsOf_append, ih, List.map_cons, List.sum_cons]

theorem amountsOf_perm (same : requests.Perm requests') :
    amountsOf key requests = amountsOf key requests' :=
  (same.map _).sum_eq

end AmountsOf

namespace Request

/-- The rounded time is that of the first request time. -/
def Rounded (request : Request) : Prop := request.key.roundedTime = hourOf request.firstRequestTime

theorem rounded_make (time : Time) (accountId advertiserId campaignId ccgId : Nat) (ctr : Int)
    (amounts : Amounts) : (make time accountId advertiserId campaignId ccgId ctr amounts).Rounded :=
  rfl

theorem Rounded.add {request right : Request} (rounded : request.Rounded)
    (rounded' : right.Rounded) (same : right.key = request.key) : (request.add right).Rounded := by
  unfold Rounded Request.add
  rcases min_choice request.firstRequestTime right.firstRequestTime with first | second
  · rw [first]
    exact rounded
  · rw [second, ← same]
    exact rounded'

/-- What `FirstRequestLess` does not tell apart has one key, although it does not
look at the rounded time. -/
theorem aggregateKey_of_sendOrder {request right : Request} (rounded : request.Rounded)
    (rounded' : right.Rounded) (same : request.sendOrder = right.sendOrder) :
    request.aggregateKey = right.aggregateKey := by
  obtain ⟨⟨hour, account, advertiser, campaign, ccg, ctr⟩, mode, time, amounts⟩ := request
  obtain ⟨⟨hour', account', advertiser', campaign', ccg', ctr'⟩, mode', time', amounts'⟩ := right
  simp only [sendOrder, toLex_inj, Prod.mk.injEq] at same
  obtain ⟨rfl, rfl, rfl, rfl, rfl, rfl, modes⟩ := same
  have sameMode : mode = mode' := by cases mode <;> cases mode' <;> first | rfl | cases modes
  simp only [Rounded] at rounded rounded'
  rw [aggregateKey, aggregateKey, rounded, rounded', sameMode]

end Request

namespace Aggregate

/-- Both sets hold the same requests, each key once. -/
structure Consistent (aggregate : Aggregate) : Prop where
  same : aggregate.aggAmounts.Perm aggregate.sendAmounts
  keys : (aggregate.aggAmounts.map Request.aggregateKey).Nodup
  rounded : ∀ request ∈ aggregate.aggAmounts, request.Rounded

theorem consistent_empty : Consistent {} := ⟨.refl _, .nil, by simp⟩

variable {aggregate : Aggregate} {request addReq other : Request} {key : Key}

theorem Consistent.nodup (consistent : aggregate.Consistent) : aggregate.aggAmounts.Nodup :=
  .of_map _ consistent.keys

theorem Consistent.eq_of_key (consistent : aggregate.Consistent)
    (present : addReq ∈ aggregate.aggAmounts) (present' : other ∈ aggregate.aggAmounts)
    (same : other.aggregateKey = addReq.aggregateKey) : other = addReq :=
  List.inj_on_of_nodup_map consistent.keys present' present same

variable {sendAmounts requests : List Request}

theorem insertSend_perm (new : ∀ other ∈ sendAmounts, other.sendOrder ≠ request.sendOrder) :
    (insertSend sendAmounts request).Perm (request :: sendAmounts) := by
  unfold insertSend
  rw [if_neg]
  · exact List.perm_orderedInsert _ _ _
  · simpa using new

theorem eraseSend_eq (nodup : sendAmounts.Nodup)
    (alone : ∀ other ∈ sendAmounts, other.sendOrder = request.sendOrder → other = request) :
    (eraseSend sendAmounts request).Perm (sendAmounts.erase request) := by
  rw [nodup.erase_eq_filter]
  refine .of_eq (List.filter_congr fun other present => ?_)
  rw [Bool.eq_iff_iff]
  simp only [decide_eq_true_eq, bne_iff_ne, ne_eq]
  exact not_congr ⟨alone other present, fun same => by rw [same]⟩

theorem map_changed_perm (nodup : requests.Nodup) (present : addReq ∈ requests) (sum : Request) :
    (requests.map fun other => if other = addReq then sum else other).Perm
      (sum :: requests.erase addReq) := by
  induction requests with
  | nil => cases present
  | cons first rest ih =>
    obtain ⟨notLater, nodupRest⟩ := List.nodup_cons.1 nodup
    by_cases here : first = addReq
    · subst here
      have later : (rest.map fun other => if other = first then sum else other) = rest := by
        refine (List.map_congr_left fun other later => ?_).trans (List.map_id _)
        rw [if_neg fun same : other = first => notLater (same ▸ later)]
        rfl
      rw [List.map_cons, if_pos rfl, later, List.erase_cons_head]
    · have later := (List.mem_cons.1 present).resolve_left (Ne.symm here)
      rw [List.map_cons, if_neg here, List.erase_cons_tail (by simpa using here)]
      exact ((ih nodupRest later).cons first).trans (.swap _ _ _)

section
variable (consistent : aggregate.Consistent)
include consistent

theorem Consistent.changed (present : addReq ∈ aggregate.aggAmounts) {sum : Request}
    (sameKey : sum.aggregateKey = addReq.aggregateKey) (rounded : sum.Rounded)
    (send : sendAmounts.Perm (sum :: aggregate.sendAmounts.erase addReq)) :
    Consistent ⟨aggregate.aggAmounts.map fun other => if other = addReq then sum else other,
      sendAmounts⟩ where
  same := (map_changed_perm consistent.nodup present sum).trans
    (((consistent.same.erase addReq).cons sum).trans send.symm)
  keys := by
    have sameKeys : ((aggregate.aggAmounts.map fun other =>
        if other = addReq then sum else other).map Request.aggregateKey) =
          aggregate.aggAmounts.map Request.aggregateKey := by
      rw [List.map_map]
      refine List.map_congr_left fun other _ => ?_
      by_cases here : other = addReq
      · simp [here, sameKey]
      · simp [here]
    rw [sameKeys]
    exact consistent.keys
  rounded := by
    intro other mem
    obtain ⟨before, there, rfl⟩ := List.mem_map.1 mem
    split
    · exact rounded
    · exact consistent.rounded before there

theorem addRequest_spec (rounded : request.Rounded) (key : Key) :
    (aggregate.addRequest request).Consistent ∧
      amountsOf key (aggregate.addRequest request).aggAmounts =
        amountsOf key aggregate.aggAmounts + amountsOf key [request] := by
  unfold addRequest
  split
  next addReq found =>
    have present := List.mem_of_find?_eq_some found
    have sameKey : addReq.aggregateKey = request.aggregateKey := by
      simpa using List.find?_some found
    have keys : addReq.key = request.key := congrArg Prod.fst sameKey
    have roundedSum : (addReq.add request).Rounded :=
      (consistent.rounded addReq present).add rounded keys.symm
    have sameSum : (addReq.add request).aggregateKey = addReq.aggregateKey := rfl
    have nodupSend := consistent.same.nodup consistent.nodup
    have presentSend := consistent.same.mem_iff.1 present
    have amounts : amountsOf key (aggregate.aggAmounts.map fun other =>
        if other = addReq then addReq.add request else other) =
          amountsOf key aggregate.aggAmounts + amountsOf key [request] := by
      rw [amountsOf_perm (map_changed_perm consistent.nodup present _),
        amountsOf_perm (List.perm_cons_erase present)]
      simp only [amountsOf_cons, amountsOf_nil, Request.add, keys]
      split <;> abel
    split
    next notBefore =>
      exact ⟨consistent.changed present sameSum roundedSum
        (map_changed_perm nodupSend presentSend _), amounts⟩
    next before =>
      have alone : ∀ other ∈ aggregate.sendAmounts,
          other.sendOrder = addReq.sendOrder → other = addReq := fun other there same =>
        consistent.eq_of_key present (consistent.same.mem_iff.2 there)
          (Request.aggregateKey_of_sendOrder
            (consistent.rounded other (consistent.same.mem_iff.2 there))
            (consistent.rounded addReq present) same)
      have erased := eraseSend_eq nodupSend alone
      refine ⟨consistent.changed present sameSum roundedSum
        ((insertSend_perm ?_).trans (erased.cons _)), amounts⟩
      intro other there same
      have left := erased.mem_iff.1 there
      have listed := consistent.same.mem_iff.2 (List.mem_of_mem_erase left)
      have sameAsSum :=
        Request.aggregateKey_of_sendOrder (consistent.rounded other listed) roundedSum same
      have one := consistent.eq_of_key present listed (sameAsSum.trans sameSum)
      subst one
      exact nodupSend.not_mem_erase left
  next absent =>
    have newKey : ∀ other ∈ aggregate.aggAmounts, other.aggregateKey ≠ request.aggregateKey := by
      simpa using absent
    have newSend : ∀ other ∈ aggregate.sendAmounts, other.sendOrder ≠ request.sendOrder := by
      intro other there same
      have listed := consistent.same.mem_iff.2 there
      exact newKey other listed
        (Request.aggregateKey_of_sendOrder (consistent.rounded other listed) rounded same)
    refine ⟨⟨?_, ?_, ?_⟩, amountsOf_append⟩
    · exact (List.perm_append_singleton _ _).trans
        ((consistent.same.cons request).trans (insertSend_perm newSend).symm)
    · rw [List.map_append, List.nodup_append]
      refine ⟨consistent.keys, by simp, ?_⟩
      intro one here two there
      obtain ⟨other, listed, rfl⟩ := List.mem_map.1 here
      simp only [List.map_cons, List.map_nil, List.mem_singleton] at there
      rw [there]
      exact newKey other listed
    · intro other mem
      rcases List.mem_append.1 mem with listed | new
      · exact consistent.rounded other listed
      · rw [List.mem_singleton.1 new]
        exact rounded

theorem addToAggregator_spec (rounded : ∀ request ∈ requests, request.Rounded) (key : Key) :
    (aggregate.addToAggregator requests).Consistent ∧
      amountsOf key (aggregate.addToAggregator requests).aggAmounts =
        amountsOf key aggregate.aggAmounts + amountsOf key requests := by
  unfold addToAggregator
  induction requests generalizing aggregate with
  | nil => exact ⟨consistent, by simp⟩
  | cons request rest ih =>
    obtain ⟨added, amounts⟩ := addRequest_spec consistent (rounded request (by simp)) key
    obtain ⟨addedRest, amountsRest⟩ := ih added fun other later => rounded other (by simp [later])
    refine ⟨addedRest, amountsRest.trans ?_⟩
    rw [amounts, amountsOf_cons, amountsOf_cons, amountsOf_nil]
    abel

end

theorem filter_taken {taken left : List Request}
    (keys : ((taken ++ left).map Request.aggregateKey).Nodup) :
    ((taken ++ left).filter fun other =>
      !taken.any fun request => decide (other.aggregateKey = request.aggregateKey)) = left := by
  rw [List.map_append, List.nodup_append] at keys
  rw [List.filter_append, List.filter_eq_nil_iff.2, List.filter_eq_self.2, List.nil_append]
  · intro other there
    simp only [Bool.not_eq_true', List.any_eq_false, decide_eq_true_eq]
    intro request mem same
    exact keys.2.2 _ (List.mem_map_of_mem mem) _ (List.mem_map_of_mem there) same.symm
  · intro other mem
    simp only [Bool.not_eq_true', Bool.not_eq_false, List.any_eq_true, decide_eq_true_eq]
    exact ⟨other, mem, rfl⟩

theorem getAggregatorRequests_spec (consistent : aggregate.Consistent) (maxRequests : Nat)
    (key : Key) :
    (aggregate.getAggregatorRequests maxRequests).2.Consistent ∧
      (∀ request ∈ (aggregate.getAggregatorRequests maxRequests).1, request.Rounded) ∧
      amountsOf key (aggregate.getAggregatorRequests maxRequests).1 +
          amountsOf key (aggregate.getAggregatorRequests maxRequests).2.aggAmounts =
        amountsOf key aggregate.aggAmounts := by
  have roundedSend : ∀ request ∈ aggregate.sendAmounts, request.Rounded := fun request there =>
    consistent.rounded request (consistent.same.mem_iff.2 there)
  unfold getAggregatorRequests
  split
  · exact ⟨consistent_empty, roundedSend, by simp [amountsOf_perm consistent.same]⟩
  · simp only []
    have split := List.take_append_drop maxRequests aggregate.sendAmounts
    have keysSend : (aggregate.sendAmounts.map Request.aggregateKey).Nodup :=
      (consistent.same.map _).nodup consistent.keys
    have left : (aggregate.aggAmounts.filter fun other =>
        !(aggregate.sendAmounts.take maxRequests).any fun request =>
          decide (other.aggregateKey = request.aggregateKey)).Perm
            (aggregate.sendAmounts.drop maxRequests) := by
      have sendLeft := filter_taken (split.symm ▸ keysSend)
      rw [split] at sendLeft
      exact (consistent.same.filter _).trans (.of_eq sendLeft)
    refine ⟨⟨left, ?_, fun request mem => ?_⟩, fun request mem => ?_, ?_⟩
    · exact consistent.keys.sublist (List.filter_sublist.map _)
    · exact consistent.rounded request (List.mem_filter.1 mem).1
    · exact roundedSend request (List.mem_of_mem_take mem)
    · rw [amountsOf_perm left, ← amountsOf_append, split, amountsOf_perm consistent.same]

end Aggregate

/-! ## Requests in hand -/

/-- The request without its mark. -/
def Request.unmark (request : Request) : Request := { request with mode := .normal }

/-- The requests, whatever their marks. -/
def unmarked (requests : List Request) : Multiset Request := ↑(requests.map Request.unmark)

section Unmarked

variable {requests requests' : List Request}

@[simp] theorem unmarked_nil : unmarked [] = 0 := rfl

@[simp] theorem unmarked_append :
    unmarked (requests ++ requests') = unmarked requests + unmarked requests' := by
  simp [unmarked]

@[simp] theorem unmarked_markResend :
    unmarked (Task.markResend requests) = unmarked requests := by
  rw [unmarked, Task.markResend, List.map_map]
  rfl

theorem unmarked_filter (requests : List Request) (p : Request → Bool) :
    unmarked (requests.filter p) + unmarked (requests.filter fun request => !p request) =
      unmarked requests := by
  rw [← unmarked_append]
  exact Multiset.coe_eq_coe.2 ((List.filter_append_perm p requests).map _)

theorem amountsOf_unmarked (key : Key) (same : unmarked requests = unmarked requests') :
    amountsOf key requests = amountsOf key requests' := by
  have perm := (Multiset.coe_eq_coe.1 same).map
    fun request => if request.key = key then request.amounts else 0
  rw [List.map_map, List.map_map] at perm
  exact perm.sum_eq

theorem rounded_unmarked (same : unmarked requests = unmarked requests')
    (rounded : ∀ request ∈ requests', request.Rounded) : ∀ request ∈ requests, request.Rounded := by
  intro request mem
  have there := (Multiset.coe_eq_coe.1 same).mem_iff.1 (List.mem_map_of_mem mem)
  obtain ⟨other, mem', eq⟩ := List.mem_map.1 there
  have keys : other.unmark.key = request.unmark.key := congrArg Request.key eq
  have times : other.unmark.firstRequestTime = request.unmark.firstRequestTime :=
    congrArg Request.firstRequestTime eq
  have hour := rounded other mem'
  exact (congrArg Key.roundedTime keys).symm.trans (hour.trans (congrArg hourOf times))

end Unmarked

def callRequests (calls : List (Nat × List Request)) : List Request := calls.flatMap Prod.snd

def Origin.requests : Origin → List Request
  | .call => []
  | .firstLoop _ next => next
  | .nextLoop first => first

def Attempt.hand (attempt : Attempt) : List Request :=
  attempt.requests ++ attempt.origin.requests ++ callRequests attempt.calls

namespace Task

/-- The requests a thread has and no aggregate does. -/
def hand : Task → List Request
  | .attempt it | .adding it => it.hand
  | .delaying requests calls => requests ++ callRequests calls
  | .sending _ requests | .unreachable _ requests | .sendingDelayed _ requests => requests
  | .idle | .popped _ _ | .taking _ _ => []

variable {serverCount server serverIndex : Nat} {first next requests : List Request}
  {calls : List (Nat × List Request)}

theorem hand_resume (calls : List (Nat × List Request)) : (resume calls).hand = callRequests calls := by
  cases calls with
  | nil => rfl
  | cons call rest => simp [resume, hand, Attempt.hand, Origin.requests, callRequests]

theorem hand_finishResend :
    (finishResend first next calls).hand = first ++ next ++ callRequests calls := by
  unfold finishResend
  split
  next none =>
    rw [none.1, none.2, hand_resume]
    rfl
  · rfl

theorem hand_nextAt :
    unmarked (nextAt serverCount server first next calls).hand =
      unmarked first + unmarked next + unmarked (callRequests calls) := by
  unfold nextAt
  split
  · simp only [hand, Attempt.hand, Origin.requests, unmarked_append]
    abel
  · simp only [hand_finishResend, unmarked_append]

theorem hand_resendNext :
    unmarked (resendNext serverCount serverIndex first next calls).hand =
      unmarked first + unmarked next + unmarked (callRequests calls) := by
  unfold resendNext
  split
  · exact hand_nextAt
  · simp only [hand_finishResend, unmarked_append]

theorem hand_firstAt :
    unmarked (firstAt serverCount server serverIndex first next calls).hand =
      unmarked first + unmarked next + unmarked (callRequests calls) := by
  unfold firstAt
  split
  · simp only [hand, Attempt.hand, Origin.requests, unmarked_append]
  · exact hand_resendNext

theorem hand_addResendToServer :
    unmarked (addResendToServer serverCount serverIndex requests calls).hand =
      unmarked requests + unmarked (callRequests calls) := by
  have parts := unmarked_filter requests fun request => request.mode = .resend
  simp only [← decide_not] at parts
  unfold addResendToServer
  simp only []
  split
  next none =>
    rw [none, unmarked_nil, add_zero] at parts
    rw [hand_resendNext, unmarked_nil, zero_add, parts]
  · rw [hand_firstAt, unmarked_markResend, add_comm (unmarked (requests.filter _)), parts]

theorem hand_resent :
    unmarked (addResendToServer serverCount serverIndex requests []).hand = unmarked requests := by
  simp [hand_addResendToServer, callRequests]

theorem hand_accepted (attempt : Attempt) :
    unmarked (accepted serverCount attempt).hand + unmarked attempt.requests =
      unmarked attempt.hand := by
  obtain ⟨server, requests, origin, calls⟩ := attempt
  cases origin with
  | call => simp [accepted, hand_resume, Attempt.hand, Origin.requests, add_comm]
  | firstLoop serverIndex next =>
    simp only [accepted, hand_resendNext, Attempt.hand, Origin.requests, unmarked_append,
      unmarked_nil]
    abel
  | nextLoop first =>
    simp only [accepted, hand_finishResend, Attempt.hand, Origin.requests, unmarked_append,
      unmarked_nil]
    abel

theorem hand_refused (attempt : Attempt) :
    unmarked (refused serverCount attempt).hand = unmarked attempt.hand := by
  obtain ⟨server, requests, origin, calls⟩ := attempt
  cases origin with
  | call => simp [refused, hand_addResendToServer, Attempt.hand, Origin.requests]
  | firstLoop serverIndex next =>
    simp only [refused, hand_firstAt, Attempt.hand, Origin.requests, unmarked_append]
  | nextLoop first =>
    simp only [refused, hand_nextAt, Attempt.hand, Origin.requests, unmarked_append]
    abel

end Task

namespace Amounts

theorem nsmul_eq (count : Nat) (amounts : Amounts) :
    count • amounts = ⟨count * amounts.accountAmount, count * amounts.amount, count * amounts.imps,
      count * amounts.clicks⟩ := by
  induction count with
  | zero => ext <;> simp
  | succ count ih =>
    rw [succ_nsmul, ih]
    ext <;> simp [add_mul]

end Amounts

variable {division : Division}

variable {serverCount : Nat} {request : Request}

theorem divide_sum (division : Division) (some_server : 0 < serverCount) (amounts : Amounts) :
    (divide division serverCount amounts).1 +
        (serverCount - 1) • (divide division serverCount amounts).2 = amounts := by
  have whole (amount : Int) :
      (division.div amount serverCount).1 + (division.div amount serverCount).2 +
        ((serverCount - 1 : Nat) : Int) * (division.div amount serverCount).1 = amount := by
    have parts := division.exact_ amount some_server
    rw [Int.natCast_sub some_server]
    push_cast
    linarith
  rw [Amounts.nsmul_eq]
  ext <;> exact whole _

theorem amountsOf_addToAllServers (key : Key) (serverCount : Nat) (request : Request) :
    amountsOf key (callRequests (addToAllServers division serverCount request)) =
      amountsOf key [request] := by
  unfold addToAllServers
  split
  next several =>
    have sum := divide_sum division (by omega : 0 < serverCount) request.amounts
    have others : serverCount - 1 = serverCount - 2 + 1 := by omega
    rw [others, succ_nsmul] at sum
    rw [callRequests, amountsOf_flatMap]
    simp only [List.cons_append, List.map_cons, List.map_append, List.map_map, List.sum_cons,
      List.sum_append, List.map_nil, List.sum_nil, Function.comp_def, List.map_const',
      List.sum_replicate, List.length_range, amountsOf_cons, amountsOf_nil, add_zero]
    by_cases same : request.key = key
    · simp only [same, if_true]
      exact sum
    · simp [same]
  · simp [callRequests]

theorem mem_addToAllServers {call : Nat × List Request}
    (mem : call ∈ addToAllServers division serverCount request) :
    ∃ amounts, call.2 = [{ request with amounts := amounts }] := by
  unfold addToAllServers at mem
  split at mem
  · simp only [List.cons_append, List.mem_cons, List.mem_append, List.mem_map, List.not_mem_nil,
      or_false] at mem
    rcases mem with rfl | ⟨_, _, rfl⟩ | rfl
    all_goals exact ⟨_, rfl⟩
  · rw [List.mem_singleton.1 mem]
    exact ⟨request.amounts, rfl⟩

theorem rounded_addToAllServers (rounded : request.Rounded) :
    ∀ other ∈ callRequests (addToAllServers division serverCount request), other.Rounded := by
  intro other mem
  obtain ⟨call, called, mem⟩ := List.mem_flatMap.1 mem
  obtain ⟨amounts, part⟩ := mem_addToAllServers called
  rw [part, List.mem_singleton] at mem
  rw [mem]
  exact rounded

theorem rounded_remindRequests {requests : List Request}
    (rounded : ∀ request ∈ requests, request.Rounded) (remainders : List (Nat × Amounts)) :
    ∀ request ∈ remindRequests requests remainders, request.Rounded := by
  intro request mem
  obtain ⟨remainder, _, found⟩ := List.mem_filterMap.1 mem
  obtain ⟨sent, place, rfl⟩ := Option.map_eq_some_iff.1 found
  exact rounded sent (List.mem_of_getElem? place)

namespace Pool

structure Consistent (pool : Pool) : Prop where
  servers : ∀ holder ∈ pool.servers, holder.aggregate.Consistent
  delayed : pool.delayedAmounts.Consistent

/-- The amounts in all aggregates. -/
def amounts (key : Key) (pool : Pool) : Amounts :=
  (pool.servers.map fun holder => amountsOf key holder.aggregate.aggAmounts).sum +
    amountsOf key pool.delayedAmounts.aggAmounts

variable {pool pool' : Pool} {server : Nat} {holder held : Server} {key : Key}

@[simp] theorem amounts_insertServer :
    (pool.insertServer server).amounts key = pool.amounts key := rfl

theorem amounts_setServer (found : pool.servers[server]? = some held) (holder : Server) (key : Key) :
    (pool.setServer server holder).amounts key + amountsOf key held.aggregate.aggAmounts =
      pool.amounts key + amountsOf key holder.aggregate.aggAmounts := by
  obtain ⟨bound, rfl⟩ := List.getElem?_eq_some_iff.1 found
  simp only [amounts, setServer, List.map_set]
  rw [List.sum_set', dif_pos (by simpa using bound), List.getElem_map]
  abel

theorem amounts_setServer_same (found : pool.servers[server]? = some held)
    (same : holder.aggregate = held.aggregate) :
    (pool.setServer server holder).amounts key = pool.amounts key := by
  have moved := amounts_setServer found holder key
  rw [same] at moved
  exact add_right_cancel moved

section
variable (consistent : pool.Consistent)
include consistent

theorem Consistent.setServer (kept : holder.aggregate.Consistent) :
    (pool.setServer server holder).Consistent where
  servers := by
    intro other mem
    rcases List.mem_or_eq_of_mem_set mem with before | rfl
    · exact consistent.servers other before
    · exact kept
  delayed := consistent.delayed

theorem Consistent.insertServer :
    (pool.insertServer server).Consistent := ⟨consistent.servers, consistent.delayed⟩

theorem Consistent.eraseServer :
    (pool.eraseServer server).Consistent := ⟨consistent.servers, consistent.delayed⟩

theorem Consistent.aggregate (found : pool.servers[server]? = some held) :
    held.aggregate.Consistent :=
  consistent.servers held (List.mem_of_getElem? found)

end

/-- What a section does: the aggregates stay consistent, the requests in hand
rounded, and nothing but what is added or confirmed changes the amounts. -/
structure Conserves (pool pool' : Pool) (hand hand' : List Request) (added confirmed : Amounts)
    (key : Key) : Prop where
  consistent : pool'.Consistent
  rounded : ∀ request ∈ hand', request.Rounded
  amounts : pool'.amounts key + amountsOf key hand' + confirmed =
    pool.amounts key + amountsOf key hand + added

variable {hand hand' : List Request}

theorem Conserves.passed (consistent : pool'.Consistent)
    (sameAmounts : pool'.amounts key = pool.amounts key)
    (rounded : ∀ request ∈ hand, request.Rounded) (same : unmarked hand' = unmarked hand) :
    Conserves pool pool' hand hand' 0 0 key where
  consistent := consistent
  rounded := rounded_unmarked same rounded
  amounts := by rw [sameAmounts, amountsOf_unmarked key same]

theorem Conserves.setServer (consistent : pool.Consistent) (found : pool.servers[server]? = some held)
    (same : holder.aggregate = held.aggregate) (rounded : ∀ request ∈ hand, request.Rounded)
    (sameHand : unmarked hand' = unmarked hand) :
    Conserves pool (pool.setServer server holder) hand hand' 0 0 key :=
  .passed (consistent.setServer (same ▸ consistent.aggregate found))
    (amounts_setServer_same found same) rounded sameHand

theorem Conserves.ofErased {added confirmed : Amounts}
    (kept : (pool.eraseServer server).Conserves pool' hand hand' added confirmed key) :
    Conserves pool pool' hand hand' added confirmed key :=
  ⟨kept.consistent, kept.rounded, kept.amounts⟩

section
variable (consistent : pool.Consistent)
include consistent

theorem Conserves.confirmed (rounded : ∀ request ∈ hand, request.Rounded)
    (remainders : List (Nat × Amounts))
    (same : unmarked hand' = unmarked (remindRequests hand remainders)) :
    Conserves pool pool hand hand' 0
      (amountsOf key hand - amountsOf key (remindRequests hand remainders)) key where
  consistent := consistent
  rounded := rounded_unmarked same (rounded_remindRequests rounded remainders)
  amounts := by
    rw [amountsOf_unmarked key same]
    abel

theorem deactivateServer_conserves (done : pool.deactivateServer server = some pool')
    (rounded : ∀ request ∈ hand, request.Rounded) (sameHand : unmarked hand' = unmarked hand) :
    Conserves pool pool' hand hand' 0 0 key := by
  obtain ⟨holder, found, rfl⟩ := Option.map_eq_some_iff.1 done
  exact .setServer consistent (servers_of_free found) rfl rounded sameHand

theorem activateServer_conserves (done : pool.activateServer server = some pool') :
    Conserves pool pool' [] [] 0 0 key := by
  obtain ⟨holder, found, rfl⟩ := Option.map_eq_some_iff.1 done
  have held : Conserves pool (pool.setServer server { holder with active := true }) [] [] 0 0 key :=
    .setServer consistent (servers_of_free found) rfl (by simp) rfl
  split
  · exact held
  · exact ⟨held.consistent.insertServer, held.rounded, held.amounts⟩

theorem finishAdding_conserves (found : pool.servers[server]? = some holder)
    {requests left : List Request} (rounded : ∀ request ∈ hand, request.Rounded)
    (sameHand : unmarked left + unmarked requests = unmarked hand) :
    Conserves pool (pool.finishAdding server holder requests) hand left 0 0 key := by
  rw [← unmarked_append] at sameHand
  have roundedAll := rounded_unmarked sameHand rounded
  obtain ⟨kept, sum⟩ := Aggregate.addToAggregator_spec (consistent.aggregate found)
    (fun request mem => roundedAll request (List.mem_append_right _ mem)) key
  have moved := amounts_setServer found
    { holder with aggregate := holder.aggregate.addToAggregator requests, locked := false } key
  refine ⟨(consistent.setServer kept).insertServer,
    fun request mem => roundedAll request (List.mem_append_left _ mem), ?_⟩
  rw [← amountsOf_unmarked key sameHand, amountsOf_append, finishAdding, amounts_insertServer]
  simp only [sum] at moved
  rw [eq_sub_of_add_eq moved]
  abel

theorem finishTaking_conserves (found : pool.servers[server]? = some holder) (maxRequests : Nat) :
    Conserves pool (pool.finishTaking server holder maxRequests).2 []
      (pool.finishTaking server holder maxRequests).1 0 0 key := by
  obtain ⟨kept, rounded, sum⟩ := Aggregate.getAggregatorRequests_spec
    (consistent.aggregate found) maxRequests key
  let left : Server :=
    { holder with
        aggregate := (holder.aggregate.getAggregatorRequests maxRequests).2
        locked := false }
  have moved := amounts_setServer found left key
  have set : (pool.setServer server left).Consistent := consistent.setServer kept
  have amounts : (pool.setServer server left).amounts key +
      amountsOf key (holder.aggregate.getAggregatorRequests maxRequests).1 = pool.amounts key := by
    rw [eq_sub_of_add_eq moved, ← sum]
    abel
  simp only [finishTaking]
  refine ⟨?_, rounded, ?_⟩
  · split
    · exact set
    · exact set.insertServer
  · split <;> simpa using amounts

end

variable {task task' : Task} {action : Action}

theorem step_conserves (consistent : pool.Consistent)
    (rounded : ∀ request ∈ task.hand, request.Rounded)
    (done : pool.step division task action = some (pool', task')) (key : Key) :
    Conserves pool pool' task.hand task'.hand (World.adds action key)
      (World.confirms task action key) key := by
  unfold step at done
  split at done
  case h_1 time accountId advertiserId campaignId ccgId ctr amounts =>
    cases done
    refine ⟨consistent, ?_, ?_⟩
    · rw [Task.hand_resume]
      exact rounded_addToAllServers (Request.rounded_make ..)
    · rw [Task.hand_resume, amountsOf_addToAllServers]
      simp [World.adds, World.confirms, Task.hand]
  case h_2 =>
    split at done
    · cases done
    · cases done
      exact ⟨⟨consistent.servers, consistent.delayed⟩, by simp [Task.hand], rfl⟩
  case h_3 =>
    obtain ⟨deactivated, section_, same⟩ := Option.map_eq_some_iff.1 done
    cases same
    exact deactivateServer_conserves consistent section_ rounded rfl
  case h_4 =>
    obtain ⟨activated, section_, same⟩ := Option.map_eq_some_iff.1 done
    cases same
    exact activateServer_conserves consistent section_
  case h_5 =>
    cases done
    obtain ⟨kept, roundedTaken, sum⟩ :=
      Aggregate.getAggregatorRequests_spec consistent.delayed 0 key
    refine ⟨⟨consistent.servers, kept⟩, roundedTaken, ?_⟩
    simp only [amounts, Task.hand, World.adds, World.confirms, amountsOf_nil, ← sum]
    abel
  case h_6 attempt =>
    obtain ⟨holder, found, same⟩ := Option.map_eq_some_iff.1 done
    have here := servers_of_free found
    unfold beginAdding at same
    split at same
    next locked begun =>
      split at begun
      · cases begun
        cases same
        split
        · exact .setServer consistent here rfl rounded rfl
        · exact .ofErased (.setServer consistent.eraseServer here rfl rounded rfl)
      · cases begun
    · cases same
      exact .passed consistent rfl rounded (Task.hand_refused attempt)
  case h_7 attempt =>
    obtain ⟨holder, found, same⟩ := Option.map_eq_some_iff.1 done
    cases same
    exact finishAdding_conserves consistent found rounded (Task.hand_accepted attempt)
  case h_8 requests calls =>
    cases done
    obtain ⟨kept, sum⟩ := Aggregate.addToAggregator_spec consistent.delayed
      (fun request mem => rounded request (List.mem_append_left _ mem)) key
    refine ⟨⟨consistent.servers, kept⟩, ?_, ?_⟩
    · rw [Task.hand_resume]
      exact fun request mem => rounded request (List.mem_append_right _ mem)
    · rw [Task.hand_resume]
      simp only [amounts, Task.hand, World.adds, World.confirms, amountsOf_append, sum]
      abel
  case h_9 =>
    obtain ⟨holder, found, same⟩ := Option.map_eq_some_iff.1 done
    have here := servers_of_free found
    split at same
    · cases same
      exact .passed consistent rfl rounded rfl
    · cases same
      exact .ofErased (.setServer consistent.eraseServer here rfl rounded rfl)
  case h_10 =>
    obtain ⟨holder, found, same⟩ := Option.map_eq_some_iff.1 done
    cases same
    exact finishTaking_conserves consistent found _
  case h_11 server requests reply =>
    cases done
    cases reply with
    | remainders remainders =>
      refine .confirmed consistent rounded remainders ?_
      have hand : (Task.sending server requests).hand = requests := rfl
      rw [hand]
      cases left : remindRequests requests remainders with
      | nil => simp only [left, Task.hand]
      | cons first rest => simp only [left, Task.hand_resent]
    | unreachable => exact .passed consistent rfl rounded rfl
    | failed => exact .passed consistent rfl rounded Task.hand_resent
  case h_12 =>
    obtain ⟨deactivated, section_, same⟩ := Option.map_eq_some_iff.1 done
    cases same
    exact deactivateServer_conserves consistent section_ rounded Task.hand_resent
  case h_13 server requests reply =>
    split at done
    · cases done
      cases reply with
      | remainders remainders => exact .confirmed consistent rounded remainders rfl
      | unreachable => exact .passed consistent rfl rounded rfl
      | failed => exact .passed consistent rfl rounded rfl
    · cases done
  case h_14 requests =>
    split at done
    · cases done
    · cases done
      refine .passed consistent rfl rounded ?_
      split
      next none => rw [none]; rfl
      · simp [Task.hand, callRequests]
  case h_15 => cases done

end Pool

namespace World

variable {world next : World}

/-- The amounts in the hands of the threads. -/
def inHand (world : World) (key : Key) : Amounts :=
  (world.tasks.map fun task => amountsOf key task.hand).sum

/-- What holds in every state of a run. -/
structure Conserved (world : World) : Prop where
  consistent : world.pool.Consistent
  rounded : ∀ task ∈ world.tasks, ∀ request ∈ task.hand, request.Rounded
  amounts : ∀ key,
    world.pool.amounts key + world.inHand key + world.confirmed key = world.added key

theorem start_conserved (serverCount threadCount : Nat) :
    (start serverCount threadCount).Conserved where
  consistent := by
    refine ⟨fun holder mem => ?_, Aggregate.consistent_empty⟩
    rw [List.eq_of_mem_replicate mem]
    exact Aggregate.consistent_empty
  rounded := by
    intro task mem
    rw [List.eq_of_mem_replicate mem]
    simp [Task.hand]
  amounts key := by simp [start, Pool.new, Pool.amounts, inHand, Task.hand]

theorem inHand_set {thread : Nat} {task : Task} (found : world.tasks[thread]? = some task)
    (task' : Task) (key : Key) :
    ((world.tasks.set thread task').map fun task => amountsOf key task.hand).sum +
        amountsOf key task.hand = world.inHand key + amountsOf key task'.hand := by
  obtain ⟨bound, rfl⟩ := List.getElem?_eq_some_iff.1 found
  rw [List.map_set, List.sum_set', dif_pos (by simpa using bound), List.getElem_map, inHand]
  abel

theorem step_conserved {thread : Nat} {action : Action} (kept : world.Conserved)
    (done : world.step division thread action = some next) : next.Conserved := by
  unfold step at done
  split at done
  · cases done
  next task found =>
    obtain ⟨⟨pool', task'⟩, section_, same⟩ := Option.map_eq_some_iff.1 done
    cases same
    have rounded := kept.rounded task (List.mem_of_getElem? found)
    have conserves := Pool.step_conserves kept.consistent rounded section_
    refine ⟨(conserves ⟨0, 0, 0, 0, 0, 0⟩).consistent, fun other mem => ?_, fun key => ?_⟩
    · rcases List.mem_or_eq_of_mem_set mem with before | rfl
      · exact kept.rounded other before
      · exact (conserves ⟨0, 0, 0, 0, 0, 0⟩).rounded
    · have moved := inHand_set found task' key
      have amounts := (conserves key).amounts
      simp only [inHand] at moved ⊢
      rw [← kept.amounts key, eq_sub_of_add_eq moved, inHand]
      calc
        pool'.amounts key + ((world.tasks.map fun task => amountsOf key task.hand).sum +
              amountsOf key task'.hand - amountsOf key task.hand) +
            (world.confirmed key + confirms task action key) =
          pool'.amounts key + amountsOf key task'.hand + confirms task action key +
            ((world.tasks.map fun task => amountsOf key task.hand).sum -
              amountsOf key task.hand + world.confirmed key) := by abel
        _ = world.pool.amounts key + amountsOf key task.hand + adds action key +
            ((world.tasks.map fun task => amountsOf key task.hand).sum -
              amountsOf key task.hand + world.confirmed key) := by rw [amounts]
        _ = _ := by abel

theorem run_conserved {steps : List (Nat × Action)} (kept : world.Conserved)
    (done : world.run division steps = some next) : next.Conserved := by
  induction steps generalizing world with
  | nil =>
    cases done
    exact kept
  | cons first rest ih =>
    obtain ⟨middle, step, run⟩ := Option.bind_eq_some_iff.1 done
    exact ih (step_conserved kept step) run

end World

end AdServer.RequestInfo
