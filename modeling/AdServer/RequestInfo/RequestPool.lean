import Mathlib.Algebra.BigOperators.Group.List.Basic
import Mathlib.Data.List.Sort
import Mathlib.Data.Prod.Lex
import Mathlib.Order.Nat
import Mathlib.Tactic.Abel

/-!
# The request pool of the billing processor

Amounts for the billing servers wait in the aggregates of the servers, a part of
each amount in every one. Senders take them from there and bring back what a
server has refused; what no server takes is delayed.

Threads run the calls of the pool a lock section at a time. A server's lock is
held from the section that takes the server out of `non_empty_servers_` to the
one that puts it back.
-/

namespace AdServer.RequestInfo

/-- Microseconds. -/
abbrev Time := Int

/-- The whole hour, from the whole seconds. -/
def hourOf (time : Time) : Time := (time / 1000000).tdiv 3600 * 3600 * 1000000

@[ext] structure Amounts where
  accountAmount : Int
  amount : Int
  imps : Int
  clicks : Int
  deriving DecidableEq

namespace Amounts

instance : Zero Amounts := ⟨⟨0, 0, 0, 0⟩⟩
instance : Add Amounts := ⟨fun left right =>
  ⟨left.accountAmount + right.accountAmount, left.amount + right.amount, left.imps + right.imps,
    left.clicks + right.clicks⟩⟩
instance : Neg Amounts := ⟨fun right =>
  ⟨-right.accountAmount, -right.amount, -right.imps, -right.clicks⟩⟩
instance : Sub Amounts := ⟨fun left right =>
  ⟨left.accountAmount - right.accountAmount, left.amount - right.amount, left.imps - right.imps,
    left.clicks - right.clicks⟩⟩

section
variable (left right : Amounts)

@[simp] theorem zero_accountAmount : (0 : Amounts).accountAmount = 0 := rfl
@[simp] theorem zero_amount : (0 : Amounts).amount = 0 := rfl
@[simp] theorem zero_imps : (0 : Amounts).imps = 0 := rfl
@[simp] theorem zero_clicks : (0 : Amounts).clicks = 0 := rfl
@[simp] theorem add_accountAmount :
    (left + right).accountAmount = left.accountAmount + right.accountAmount := rfl
@[simp] theorem add_amount : (left + right).amount = left.amount + right.amount := rfl
@[simp] theorem add_imps : (left + right).imps = left.imps + right.imps := rfl
@[simp] theorem add_clicks : (left + right).clicks = left.clicks + right.clicks := rfl
@[simp] theorem neg_accountAmount : (-right).accountAmount = -right.accountAmount := rfl
@[simp] theorem neg_amount : (-right).amount = -right.amount := rfl
@[simp] theorem neg_imps : (-right).imps = -right.imps := rfl
@[simp] theorem neg_clicks : (-right).clicks = -right.clicks := rfl
@[simp] theorem sub_accountAmount :
    (left - right).accountAmount = left.accountAmount - right.accountAmount := rfl
@[simp] theorem sub_amount : (left - right).amount = left.amount - right.amount := rfl
@[simp] theorem sub_imps : (left - right).imps = left.imps - right.imps := rfl
@[simp] theorem sub_clicks : (left - right).clicks = left.clicks - right.clicks := rfl

end

instance : AddCommGroup Amounts where
  add_assoc a b c := by ext <;> simp [add_assoc]
  zero_add a := by ext <;> simp
  add_zero a := by ext <;> simp
  add_comm a b := by ext <;> simp [add_comm]
  neg_add_cancel a := by ext <;> simp
  sub_eq_add_neg a b := by ext <;> simp [sub_eq_add_neg]
  nsmul := nsmulRec
  zsmul := zsmulRec

end Amounts

/-- What amounts are summed by. -/
structure Key where
  roundedTime : Time
  accountId : Nat
  advertiserId : Nat
  campaignId : Nat
  ccgId : Nat
  ctr : Int
  deriving DecidableEq

/-- A resend marker means that some server already refused the request. -/
inductive Mode where
  | normal
  | resend
  | forced
  deriving DecidableEq

def Mode.number : Mode → Nat
  | .normal => 0
  | .resend => 1
  | .forced => 2

structure Request where
  key : Key
  mode : Mode
  firstRequestTime : Time
  amounts : Amounts
  deriving DecidableEq

namespace Request

/-- The constructor from a time. -/
def make (time : Time) (accountId advertiserId campaignId ccgId : Nat) (ctr : Int)
    (amounts : Amounts) : Request :=
  ⟨⟨hourOf time, accountId, advertiserId, campaignId, ccgId, ctr⟩, .normal, time, amounts⟩

/-- `Request::add`. -/
def add (request right : Request) : Request :=
  { request with
      amounts := request.amounts + right.amounts
      firstRequestTime := min request.firstRequestTime right.firstRequestTime }

/-- What `AggregateRequestHashAdapter` compares. -/
def aggregateKey (request : Request) : Key × Mode := (request.key, request.mode)

/-- What `FirstRequestLess` compares; the rounded time is not in it. -/
def sendOrder (request : Request) : Int ×ₗ Nat ×ₗ Nat ×ₗ Nat ×ₗ Nat ×ₗ Int ×ₗ Nat :=
  toLex (request.firstRequestTime, toLex (request.key.accountId,
    toLex (request.key.advertiserId, toLex (request.key.campaignId,
      toLex (request.key.ccgId, toLex (request.key.ctr, request.mode.number))))))

end Request

/-- `AmountAggregateHolder`. The sets share their requests. -/
structure Aggregate where
  aggAmounts : List Request := []
  sendAmounts : List Request := []
  deriving DecidableEq

namespace Aggregate

/-- Erases what `FirstRequestLess` does not tell from the request. -/
def eraseSend (sendAmounts : List Request) (request : Request) : List Request :=
  sendAmounts.filter fun other => decide (other.sendOrder ≠ request.sendOrder)

/-- Inserts the request unless there is one that `FirstRequestLess` does not tell
from it. -/
def insertSend (sendAmounts : List Request) (request : Request) : List Request :=
  if sendAmounts.any fun other => decide (other.sendOrder = request.sendOrder) then sendAmounts
  else sendAmounts.orderedInsert (fun left right => left.sendOrder ≤ right.sendOrder) request

/-- One request of `add_to_aggregator_i_`. -/
def addRequest (aggregate : Aggregate) (request : Request) : Aggregate :=
  match aggregate.aggAmounts.find? fun other => other.aggregateKey = request.aggregateKey with
  | some addReq =>
    let changed := fun other => if other = addReq then addReq.add request else other
    if addReq.firstRequestTime ≤ request.firstRequestTime then
      ⟨aggregate.aggAmounts.map changed, aggregate.sendAmounts.map changed⟩
    else
      ⟨aggregate.aggAmounts.map changed,
        insertSend (eraseSend aggregate.sendAmounts addReq) (addReq.add request)⟩
  | none => ⟨aggregate.aggAmounts ++ [request], insertSend aggregate.sendAmounts request⟩

/-- `add_to_aggregator_i_`. -/
def addToAggregator (aggregate : Aggregate) (requests : List Request) : Aggregate :=
  requests.foldl addRequest aggregate

/-- `get_aggregator_requests_i_`. -/
def getAggregatorRequests (aggregate : Aggregate) (maxRequests : Nat) : List Request × Aggregate :=
  if maxRequests = 0 ∨ aggregate.sendAmounts.length ≤ maxRequests then
    (aggregate.sendAmounts, ⟨[], []⟩)
  else
    let taken := aggregate.sendAmounts.take maxRequests
    (taken, ⟨aggregate.aggAmounts.filter fun other =>
        !taken.any fun request => decide (other.aggregateKey = request.aggregateKey),
      aggregate.sendAmounts.drop maxRequests⟩)

end Aggregate

/-- `ServerStateHolder`, and whether its lock is held. -/
structure Server where
  aggregate : Aggregate := {}
  active : Bool := true
  locked : Bool := false
  deriving DecidableEq

structure Pool where
  servers : List Server
  nonEmptyServers : List Nat := []
  delayedAmounts : Aggregate := {}
  deriving DecidableEq

namespace Pool

def new (serverCount : Nat) : Pool where
  servers := List.replicate serverCount {}

def sendAmounts (pool : Pool) (server : Nat) : List Request :=
  (pool.servers[server]?.map fun holder => holder.aggregate.sendAmounts).getD []

/-- `ServerStateFirstRequestLess`. -/
def serverLess (pool : Pool) (left right : Nat) : Bool :=
  match pool.sendAmounts left, pool.sendAmounts right with
  | [], [] => decide (left < right)
  | [], _ :: _ => false
  | _ :: _, [] => true
  | first :: _, first' :: _ => decide (first.firstRequestTime < first'.firstRequestTime)

/-- `ServerStateFirstRequestLess` tells the servers apart. -/
def tellsApart (pool : Pool) (left right : Nat) : Bool :=
  pool.serverLess left right || pool.serverLess right left

/-- `non_empty_servers_.erase(server)`: every element that is equivalent to it. -/
def eraseServer (pool : Pool) (server : Nat) : Pool :=
  { pool with nonEmptyServers := pool.nonEmptyServers.filter (pool.tellsApart server) }

/-- `non_empty_servers_.insert(server)`: after the elements equivalent to it. -/
def insertServer (pool : Pool) (server : Nat) : Pool :=
  let notAfter := fun other => !pool.serverLess server other
  { pool with
      nonEmptyServers := pool.nonEmptyServers.takeWhile notAfter ++
        server :: pool.nonEmptyServers.dropWhile notAfter }

def setServer (pool : Pool) (server : Nat) (holder : Server) : Pool :=
  { pool with servers := pool.servers.set server holder }

end Pool

/-- `Decimal::div` by a whole number: a quotient and a reminder. -/
structure Division where
  div : Int → Nat → Int × Int
  exact_ : ∀ (amount : Int) {count : Nat}, 0 < count →
    (div amount count).1 * count + (div amount count).2 = amount

/-- The division that drops the digits it has no place for. -/
def Division.truncating : Division where
  div amount count := (amount.tdiv count, amount.tmod count)
  exact_ amount _ _ := Int.tdiv_mul_add_tmod amount _

variable (division : Division)

/-- The part of the first server and that of every other one. -/
def divide (serverCount : Nat) (amounts : Amounts) : Amounts × Amounts :=
  let first (amount : Int) : Int :=
    (division.div amount serverCount).1 + (division.div amount serverCount).2
  let other (amount : Int) : Int := (division.div amount serverCount).1
  (⟨first amounts.accountAmount, first amounts.amount, first amounts.imps, first amounts.clicks⟩,
    ⟨other amounts.accountAmount, other amounts.amount, other amounts.imps, other amounts.clicks⟩)

/-- The calls of `add_to_server` that `add_to_all_servers` makes. -/
def addToAllServers (serverCount : Nat) (request : Request) : List (Nat × List Request) :=
  if 1 < serverCount then
    let parts := divide division serverCount request.amounts
    let call (server : Nat) : Nat × List Request := (server, [{ request with amounts := parts.2 }])
    (0, [{ request with amounts := parts.1 }]) ::
      (List.range (serverCount - 2)).map (fun i => call (i + 2)) ++ [call 1]
  else [(0, [request])]

/-- Where requests that are being added to a server come from. -/
inductive Origin where
  /-- `add_to_server` -/
  | call
  /-- the first loop of `add_resend_to_server`; the second one has `next` -/
  | firstLoop (serverIndex : Nat) (next : List Request)
  /-- its second loop; no server took `first` -/
  | nextLoop (first : List Request)
  deriving DecidableEq

/-- `add_to_server_`, with the calls of `add_to_server` to be made after it. -/
structure Attempt where
  server : Nat
  requests : List Request
  origin : Origin
  calls : List (Nat × List Request)
  deriving DecidableEq

/-- What a thread does next. -/
inductive Task where
  | idle
  /-- before `add_to_server_` -/
  | attempt (attempt : Attempt)
  /-- inside it: the server is locked and out of `non_empty_servers_` -/
  | adding (attempt : Attempt)
  /-- before `add_delayed` -/
  | delaying (requests : List Request) (calls : List (Nat × List Request))
  /-- `get_requests` has taken the server from `non_empty_servers_` -/
  | popped (server maxRequests : Nat)
  /-- it has the lock of the server and has erased it once more -/
  | taking (server maxRequests : Nat)
  /-- `Sender::Job::work` sends the requests -/
  | sending (server : Nat) (requests : List Request)
  /-- it has found the server unreachable -/
  | unreachable (server : Nat) (requests : List Request)
  /-- `send_delayed_` sends the requests to the servers from one on -/
  | sendingDelayed (server : Nat) (requests : List Request)
  deriving DecidableEq

namespace Task

/-- The next call of `add_to_server`. -/
def resume : List (Nat × List Request) → Task
  | [] => .idle
  | (server, requests) :: calls => .attempt ⟨server, requests, .call, calls⟩

/-- The end of `add_resend_to_server`: what is left is delayed. -/
def finishResend (first next : List Request) (calls : List (Nat × List Request)) : Task :=
  if first = [] ∧ next = [] then resume calls else .delaying (first ++ next) calls

/-- Its second loop at a server. -/
def nextAt (serverCount server : Nat) (first next : List Request)
    (calls : List (Nat × List Request)) : Task :=
  if server < serverCount then .attempt ⟨server, next, .nextLoop first, calls⟩
  else finishResend first next calls

def resendNext (serverCount serverIndex : Nat) (first next : List Request)
    (calls : List (Nat × List Request)) : Task :=
  if serverIndex < serverCount ∧ next ≠ [] then
    nextAt serverCount (serverIndex + 1) first next calls
  else finishResend first next calls

/-- Its first loop at a server. -/
def firstAt (serverCount server serverIndex : Nat) (first next : List Request)
    (calls : List (Nat × List Request)) : Task :=
  if server < serverCount then .attempt ⟨server, first, .firstLoop serverIndex next, calls⟩
  else resendNext serverCount serverIndex first next calls

/-- `mark_resend_`. -/
def markResend (requests : List Request) : List Request :=
  requests.map fun request => { request with mode := .resend }

/-- `add_resend_to_server`. -/
def addResendToServer (serverCount serverIndex : Nat) (requests : List Request)
    (calls : List (Nat × List Request)) : Task :=
  let next := requests.filter fun request => request.mode = .resend
  let first := requests.filter fun request => request.mode ≠ .resend
  if first = [] then resendNext serverCount serverIndex [] next calls
  else
    firstAt serverCount (if serverIndex ≤ 1 then 1 else 0) serverIndex (markResend first) next calls

/-- After the server took the requests. -/
def accepted (serverCount : Nat) (attempt : Attempt) : Task :=
  match attempt.origin with
  | .call => resume attempt.calls
  | .firstLoop serverIndex next => resendNext serverCount serverIndex [] next attempt.calls
  | .nextLoop first => finishResend first [] attempt.calls

/-- After it did not. -/
def refused (serverCount : Nat) (attempt : Attempt) : Task :=
  match attempt.origin with
  | .call => addResendToServer serverCount (attempt.server + 1) attempt.requests attempt.calls
  | .firstLoop serverIndex next =>
    firstAt serverCount (attempt.server + 1) serverIndex attempt.requests next attempt.calls
  | .nextLoop first => nextAt serverCount (attempt.server + 1) first attempt.requests attempt.calls

end Task

/-- What `send_requests` comes to. -/
inductive Reply where
  /-- what the server has not confirmed, by the places of the requests -/
  | remainders (remainders : List (Nat × Amounts))
  | unreachable
  | failed
  deriving DecidableEq

/-- The requests `send_requests` leaves. -/
def remindRequests (requests : List Request) (remainders : List (Nat × Amounts)) : List Request :=
  remainders.filterMap fun remainder =>
    requests[remainder.1]?.map fun request => { request with amounts := remainder.2 }

/-- What a thread is to do: a call it begins, a reply it gets, or to go on. -/
inductive Action where
  | add (time : Time) (accountId advertiserId campaignId ccgId : Nat) (ctr : Int)
      (amounts : Amounts)
  | getRequests (maxRequests : Nat)
  | deactivateServer (server : Nat)
  | activateServer (server : Nat)
  | getDelayedRequests
  | reply (reply : Reply)
  | proceed
  deriving DecidableEq

namespace Pool

/-- The server, when nobody holds its lock. -/
def free (pool : Pool) (server : Nat) : Option Server :=
  pool.servers[server]?.filter fun holder => !holder.locked

theorem servers_of_free {pool : Pool} {server : Nat} {holder : Server}
    (found : pool.free server = some holder) : pool.servers[server]? = some holder := by
  unfold free at found
  exact (Option.filter_eq_some_iff.1 found).1

/-- `deactivate_server`. -/
def deactivateServer (pool : Pool) (server : Nat) : Option Pool :=
  (pool.free server).map fun holder => pool.setServer server { holder with active := false }

/-- `activate_server`. -/
def activateServer (pool : Pool) (server : Nat) : Option Pool :=
  (pool.free server).map fun holder =>
    let activated := pool.setServer server { holder with active := true }
    if holder.aggregate.sendAmounts = [] then activated else activated.insertServer server

/-- `add_to_server_` up to the erase; `none` when the server is not active. -/
def beginAdding (pool : Pool) (server : Nat) (holder : Server) : Option Pool :=
  if holder.active then
    let erased := if holder.aggregate.sendAmounts = [] then pool else pool.eraseServer server
    some (erased.setServer server { holder with locked := true })
  else none

/-- The rest of `add_to_server_`. -/
def finishAdding (pool : Pool) (server : Nat) (holder : Server) (requests : List Request) : Pool :=
  (pool.setServer server { holder with
    aggregate := holder.aggregate.addToAggregator requests
    locked := false }).insertServer server

/-- `get_requests` from the lock of the server to the second erase. -/
def beginTaking (pool : Pool) (server : Nat) (holder : Server) : Pool :=
  (pool.eraseServer server).setServer server { holder with locked := true }

/-- The rest of `get_requests`. -/
def finishTaking (pool : Pool) (server : Nat) (holder : Server) (maxRequests : Nat) :
    List Request × Pool :=
  let taken := holder.aggregate.getAggregatorRequests maxRequests
  let left := pool.setServer server { holder with aggregate := taken.2, locked := false }
  (taken.1, if taken.2.sendAmounts = [] then left else left.insertServer server)

/-- A section of a thread: the pool after it and what the thread does next. A
section that has to wait does not happen. -/
def step (pool : Pool) : Task → Action → Option (Pool × Task)
  | .idle, .add time accountId advertiserId campaignId ccgId ctr amounts =>
    some (pool, .resume (addToAllServers division pool.servers.length
      (.make time accountId advertiserId campaignId ccgId ctr amounts)))
  | .idle, .getRequests maxRequests =>
    match pool.nonEmptyServers with
    | [] => none
    | server :: others =>
      some ({ pool with nonEmptyServers := others }, .popped server maxRequests)
  | .idle, .deactivateServer server => (pool.deactivateServer server).map (·, .idle)
  | .idle, .activateServer server => (pool.activateServer server).map (·, .idle)
  | .idle, .getDelayedRequests =>
    let taken := pool.delayedAmounts.getAggregatorRequests 0
    some ({ pool with delayedAmounts := taken.2 }, .sendingDelayed 0 taken.1)
  | .attempt attempt, .proceed =>
    (pool.free attempt.server).map fun holder =>
      match pool.beginAdding attempt.server holder with
      | some locked => (locked, .adding attempt)
      | none => (pool, .refused pool.servers.length attempt)
  | .adding attempt, .proceed =>
    pool.servers[attempt.server]?.map fun holder =>
      (pool.finishAdding attempt.server holder attempt.requests,
        .accepted pool.servers.length attempt)
  | .delaying requests calls, .proceed =>
    some ({ pool with delayedAmounts := pool.delayedAmounts.addToAggregator requests },
      .resume calls)
  | .popped server maxRequests, .proceed =>
    (pool.free server).map fun holder =>
      if holder.aggregate.sendAmounts = [] then (pool, .idle)
      else (pool.beginTaking server holder, .taking server maxRequests)
  | .taking server maxRequests, .proceed =>
    pool.servers[server]?.map fun holder =>
      let taken := pool.finishTaking server holder maxRequests
      (taken.2, .sending server taken.1)
  | .sending server requests, .reply reply =>
    some (pool, match reply with
      | .remainders remainders =>
        match remindRequests requests remainders with
        | [] => .idle
        | left => .addResendToServer pool.servers.length (server + 1) left []
      | .unreachable => .unreachable server requests
      | .failed => .addResendToServer pool.servers.length (server + 1) requests [])
  | .unreachable server requests, .proceed =>
    (pool.deactivateServer server).map
      (·, .addResendToServer pool.servers.length (server + 1) requests [])
  | .sendingDelayed server requests, .reply reply =>
    if server < pool.servers.length ∧ requests ≠ [] then
      some (pool, .sendingDelayed (server + 1) (match reply with
        | .remainders remainders => remindRequests requests remainders
        | .unreachable | .failed => requests))
    else none
  | .sendingDelayed server requests, .proceed =>
    if server < pool.servers.length ∧ requests ≠ [] then none
    else some (pool, if requests = [] then .idle else .delaying requests [])
  | _, _ => none

end Pool

/-- The pool with its threads, and beside them what was added and what the
servers have confirmed, by key. -/
structure World where
  pool : Pool
  tasks : List Task
  added : Key → Amounts := fun _ => 0
  confirmed : Key → Amounts := fun _ => 0

/-- The amounts of the requests with a key. -/
def amountsOf (key : Key) (requests : List Request) : Amounts :=
  (requests.map fun request => if request.key = key then request.amounts else 0).sum

namespace World

def start (serverCount threadCount : Nat) : World where
  pool := .new serverCount
  tasks := List.replicate threadCount .idle

/-- What a section adds. -/
def adds (action : Action) (key : Key) : Amounts :=
  match action with
  | .add time accountId advertiserId campaignId ccgId ctr amounts =>
    amountsOf key [.make time accountId advertiserId campaignId ccgId ctr amounts]
  | _ => 0

/-- What a server confirms by its reply: what was sent without the remainders. -/
def confirms (task : Task) (action : Action) (key : Key) : Amounts :=
  match task, action with
  | .sending _ requests, .reply (.remainders remainders)
  | .sendingDelayed _ requests, .reply (.remainders remainders) =>
    amountsOf key requests - amountsOf key (remindRequests requests remainders)
  | _, _ => 0

/-- The next section of a thread. -/
def step (world : World) (thread : Nat) (action : Action) : Option World :=
  match world.tasks[thread]? with
  | none => none
  | some task =>
    (world.pool.step division task action).map fun next =>
      { pool := next.1
        tasks := world.tasks.set thread next.2
        added := fun key => world.added key + adds action key
        confirmed := fun key => world.confirmed key + confirms task action key }

/-- Sections one after another, by threads and actions. -/
def run (world : World) : List (Nat × Action) → Option World
  | [] => some world
  | (thread, action) :: rest => (world.step division thread action).bind (run · rest)

end World

end AdServer.RequestInfo
