import Mathlib.Algebra.Group.Nat.Defs
import Mathlib.Data.List.Basic

/-!
# The pool of tag requests

The requests to be profiled wait in banks, one for each period of time, and a
sender takes them out evenly. Every call is one section under the pool's lock.
-/

namespace AdServer.RequestInfo.TagProfiler

/-- A second of a time, which is a number of microseconds. -/
def second : Int := 1000000

def tvSec (time : Int) : Int := time / second

/-- `RequestPool::bank_period` is a number of seconds by its constructor. -/
structure Settings where
  bankPeriod : Nat
  windowSize : Int
  maxRequestPoolSize : Nat
  repeatTriggerTimeout : Int

/-- What the calls take from elsewhere. A request's hash begins with a value that
the constructor does not set, so each call has a function of its own. -/
structure Env where
  browserAddress : String → Option String
  filterHash : String → String → Nat

structure TagRequestInfo where
  time : Int
  userId : Option String
  coloId : Nat
  referer : String
  urls : List String
  userAgent : String
  profileReferer : Bool

structure Request where
  time : Int
  pushTime : Int
  userId : String
  coloId : Nat
  url : String
  userAgent : String
  filterHash : Nat
  deriving DecidableEq

structure Bank where
  startTime : Int
  endTime : Int
  requests : List Request
  /-- The time markers, each under the hash of its request. -/
  requestFilters : List (Nat × Int)
  requestsSize : Nat
  deriving DecidableEq

structure Pool where
  banks : List Bank
  sumRequestsSize : Nat
  lastRequestTime : Int
  curBankSentRequests : Nat
  curBankTargetRequests : Nat

/-- The last two fields are not set by the constructor. -/
def Pool.new (sent target : Nat) : Pool := ⟨[], 0, 0, sent, target⟩

/-- The difference of two numbers of 64 bits. -/
def minus (a b : Nat) : Nat := if b ≤ a then a - b else a + 2 ^ 64 - b

def timeBankRound (settings : Settings) (time : Int) : Int :=
  ((tvSec time).tdiv settings.bankPeriod + 1) * settings.bankPeriod * second

def TagRequestInfo.refererNotEmpty (info : TagRequestInfo) : Bool :=
  info.referer != "" && info.referer != "-"

/-- The urls that become requests, none if the request is not profiled. -/
def TagRequestInfo.profiledUrls (info : TagRequestInfo) : List String :=
  if (info.refererNotEmpty || !info.urls.isEmpty) && info.userId.isSome &&
      info.profileReferer then
    if info.refererNotEmpty then info.referer :: info.urls else info.urls
  else []

def request (env : Env) (info : TagRequestInfo) (now : Int) (url : String) :
    Option Request :=
  (env.browserAddress url).map fun address => {
    time := info.time
    pushTime := now
    userId := info.userId.getD ""
    coloId := info.coloId
    url := address
    userAgent := info.userAgent
    filterHash := env.filterHash (info.userId.getD "") address }

/-- The requests of a call, or nothing if some url is no address. -/
def requests (env : Env) (info : TagRequestInfo) (now : Int) : Option (List Request) :=
  info.profiledUrls.mapM (request env info now)

/-- The first marker of the request's hash from the start on. -/
def Bank.lowerBound (bank : Bank) (hash : Nat) (timeStart : Int) : Option Int :=
  ((bank.requestFilters.filter fun marker =>
    marker.1 = hash && timeStart ≤ marker.2).map (·.2)).min?

def Bank.filters (bank : Bank) (timeStart timeEnd : Int) (request : Request) : Bool :=
  match bank.lowerBound request.filterHash timeStart with
  | some time => time < timeEnd
  | none => false

def Bank.filterRequests (bank : Bank) (requests : List Request) (timeStart timeEnd : Int) :
    List Request :=
  requests.filter fun request => !bank.filters timeStart timeEnd request

/-- The scan back for the bank of a period. It stops at the first bank that starts
before the period's end, and then either that bank is it or the iterator stands at
that bank. -/
def scanBack (round : Int) : List Bank → List Bank → Option Bank × List Bank × List Bank
  | [], after => (none, [], after)
  | bank :: before, after =>
    if bank.startTime < round then
      if round ≤ bank.endTime then (some bank, before, after)
      else (none, before, bank :: after)
    else scanBack round before (bank :: after)

/-- The banks before the iterator, the last one first, and those from it on, with
the bank found. -/
def Pool.find (pool : Pool) (round : Int) : Option Bank × List Bank × List Bank :=
  match pool.banks.reverse with
  | [] => (none, [], [])
  | last :: before =>
    if last.endTime < round then (none, last :: before, [])
    else scanBack round (last :: before) []

def Bank.new (settings : Settings) (round : Int) : Bank :=
  ⟨round - settings.bankPeriod * second, round, [], [], 0⟩

def Bank.add (bank : Bank) (time : Int) (added : List Request) : Bank :=
  { bank with
    requestFilters := bank.requestFilters ++ added.map fun request => (request.filterHash, time)
    requests := bank.requests ++ added
    requestsSize := bank.requestsSize + added.length }

/-- The requests left by the banks' filters. -/
def filtering (settings : Settings) (banks : List Bank) (time : Int)
    (requests : List Request) : List Request :=
  if settings.repeatTriggerTimeout = 0 then requests
  else
    banks.foldl (fun left bank =>
      bank.filterRequests left (time - settings.repeatTriggerTimeout)
        (time + settings.repeatTriggerTimeout)) requests

/-- The section of `process_tag_request` under the lock, and the requests stored. -/
def Pool.store (settings : Settings) (pool : Pool) (now time : Int)
    (requests : List Request) : Pool × List Request :=
  let round := timeBankRound settings now
  let (found, before, after) := pool.find round
  let bank := found.getD (Bank.new settings round)
  let left := filtering settings (before.reverse ++ bank :: after) time requests
  if left = [] then ({ pool with banks := before.reverse ++ bank :: after }, [])
  else
    ({ pool with
        banks := before.reverse ++ bank.add time left :: after
        sumRequestsSize := pool.sumRequestsSize + left.length }, left)

def Pool.processTagRequest (settings : Settings) (pool : Pool) (env : Env) (now : Int)
    (info : TagRequestInfo) : Pool × List Request :=
  match requests env info now with
  | some (request :: rest) => pool.store settings now info.time (request :: rest)
  | _ => (pool, [])

/-- The walk over the expired banks: the banks left, the sum and the requests. -/
def expire (bound : Int) : List Bank → Nat → List Request →
    List Bank × Nat × List Request
  | [], sum, process => ([], sum, process)
  | bank :: banks, sum, process =>
    if bank.startTime ≤ bound then
      if bank.requestsSize ≠ 0 then
        expire bound banks (minus sum bank.requestsSize) (bank.requests ++ process)
      else expire bound banks sum process
    else (bank :: banks, sum, process)

/-- The number of requests to be sent in the current period. -/
def targetRequests (settings : Settings) (bound : Int) :
    List Bank → Nat → Nat → Nat
  | [], _, target => target
  | bank :: banks, sum, target =>
    if bank.requestsSize ≠ 0 then
      let sum := sum + bank.requestsSize
      targetRequests settings bound banks sum
        (max target (sum * settings.bankPeriod % 2 ^ 64 /
          (tvSec (bank.startTime - bound)).toNat))
    else targetRequests settings bound banks sum target

/-- The requests popped from the oldest banks. Nothing is the failed assertion that
the first bank holds a request. -/
def Pool.pop (pool : Pool) : Nat → List Request → Option (Pool × List Request)
  | 0, process => some (pool, process)
  | sendRequests + 1, process =>
    match pool.banks with
    | [] => some (pool, process)
    | bank :: banks =>
      match bank.requests with
      | [] => none
      | request :: rest =>
        let size := minus bank.requestsSize 1
        Pool.pop
          { pool with
            curBankSentRequests := pool.curBankSentRequests + 1
            sumRequestsSize := minus pool.sumRequestsSize 1
            banks :=
              if size = 0 then banks
              else { bank with requests := rest, requestsSize := size } :: banks }
          sendRequests (request :: process)

def Pool.sendRequests (settings : Settings) (pool : Pool) : Nat :=
  if minus settings.maxRequestPoolSize 1 < pool.sumRequestsSize then
    pool.sumRequestsSize + 1 - settings.maxRequestPoolSize
  else 1

/-- The pool after the expired banks and the switch of the period. -/
def Pool.expired (settings : Settings) (pool : Pool) (now : Int) : Pool × List Request :=
  let bound := timeBankRound settings (now - settings.windowSize)
  let (banks, sum, process) := expire bound pool.banks pool.sumRequestsSize []
  let pool := { pool with banks := banks, sumRequestsSize := sum }
  if timeBankRound settings pool.lastRequestTime - settings.windowSize < bound then
    ({ pool with
        curBankTargetRequests := targetRequests settings bound banks 0 0
        curBankSentRequests := 0 }, process)
  else (pool, process)

def Pool.nextRequestTime (settings : Settings) (pool : Pool) (now : Int) : Int :=
  let bound := timeBankRound settings now
  if pool.curBankSentRequests < pool.curBankTargetRequests then
    now + (bound - now) / (pool.curBankTargetRequests - pool.curBankSentRequests : Nat)
  else bound

/-- `get_requests_to_process_`: the pool, the requests and the next time. -/
def Pool.getRequestsToProcess (settings : Settings) (pool : Pool) (now : Int) :
    Option (Pool × List Request × Int) :=
  if pool.banks = [] then some (pool, [], timeBankRound settings now)
  else
    let (pool, process) := pool.expired settings now
    (pool.pop (pool.sendRequests settings) process).map fun (pool, process) =>
      let pool := { pool with lastRequestTime := max pool.lastRequestTime now }
      (pool, process, pool.nextRequestTime settings now)

inductive Call where
  | processTagRequest (env : Env) (now : Int) (info : TagRequestInfo)
  | getRequestsToProcess (now : Int)

/-- The pool, the requests that it has stored and those handed out for sending. -/
structure World where
  pool : Pool
  stored : List Request
  handedOut : List Request

def World.step (settings : Settings) (world : World) : Call → Option World
  | .processTagRequest env now info =>
    let (pool, stored) := world.pool.processTagRequest settings env now info
    some { world with pool := pool, stored := world.stored ++ stored }
  | .getRequestsToProcess now =>
    (world.pool.getRequestsToProcess settings now).map fun (pool, process, _) =>
      { world with pool := pool, handedOut := world.handedOut ++ process }

def World.run (settings : Settings) (world : World) : List Call → Option World
  | [] => some world
  | call :: calls => (world.step settings call).bind (·.run settings calls)

def World.new (sent target : Nat) : World := ⟨Pool.new sent target, [], []⟩

end AdServer.RequestInfo.TagProfiler
