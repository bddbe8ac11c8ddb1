import AdServer.BillingClient.ServiceIndex

/-!
# Calls of the billing client

`co_check_available_bid` and `co_confirm_bid` as the sections they run between
their awaits and locks, the passes of `run_recheck_ccgs_`, and runs in which all
of them are interleaved.

A setter is an object outside; of each the last call of `set_available` is kept.
-/

namespace AdServer.BillingClient

open AdServer.Lib
open AdServer.Billing (Time Counts)

structure BidInfo extends Billing.Bid where
  ctr : Int
  optimizeCampaignCtr : Bool
  deriving DecidableEq

/-- `spent` holds the spent budget with the imps and clicks. -/
structure ConfirmBidInfo where
  bid : BidInfo
  accountSpentBudget : Int
  spent : Counts
  reservedBudget : Int
  forced : Bool
  deriving DecidableEq

/-- What a request asks to record. -/
def ConfirmBidInfo.amounts (info : ConfirmBidInfo) : Int × Counts :=
  (info.accountSpentBudget, info.spent)

structure BidResult where
  available : Bool
  goalCtr : Int
  deriving DecidableEq

structure ConfirmBidResponse where
  result : Option BidResult
  bid : Option ConfirmBidInfo
  deriving DecidableEq

/-- A result that is absent reads as the default one. -/
def ConfirmBidResponse.resultOrDefault (response : ConfirmBidResponse) : BidResult :=
  response.result.getD ⟨false, 0⟩

/-- The random number a section may need, and the reply it may have waited for:
none for a call that failed. -/
structure Input where
  rand : Nat := 0
  bidResult : Option BidResult := none
  confirmed : Option ConfirmBidResponse := none

/-- A call of `set_available`, and the CCG it was made for. -/
structure SetCall where
  ccgId : Nat
  available : Bool
  goalCtr : Int
  deriving DecidableEq

/-- What the calls share. -/
structure Shared where
  container : Container
  /-- The last call made on each setter. -/
  setters : SortedMap Nat SetCall

/-- The call of `set_available` in `ccg_set_available_`. -/
def Shared.setAvailable (s : Shared) (ccgSetter : Option Nat) (ccgId : Nat) (available : Bool)
    (goalCtr : Int) : Shared :=
  match ccgSetter with
  | some setter => { s with setters := s.setters.put setter ⟨ccgId, available, goalCtr⟩ }
  | none => s

/-- Where a call is. The last two sections before the end are those of
`ccg_set_available_`. -/
inductive Phase where
  | choosing
  | calling (index : Nat)
  | deactivating
  | planning
  | finished
  deriving DecidableEq

/-- What `ccg_set_available_(…, false, …)` has left to do in a phase. -/
def deactivation (s : Shared) (phase : Phase) (ccgSetter : Option Nat) (ccgId : Nat)
    (goalCtr : Int) (now : Time) : Shared × Phase :=
  match phase with
  | .deactivating => (s.setAvailable ccgSetter ccgId false goalCtr, .planning)
  | .planning => ({ s with container := s.container.planRecheck ccgId now }, .finished)
  | phase => (s, phase)

/-- A run of `co_check_available_bid`. -/
structure CheckCall where
  bid : BidInfo
  ccgSetter : Option Nat
  tryI : Nat := 0
  deactivateCcg : Bool := false
  available : Bool := false
  goalCtr : Int := 0
  phase : Phase := .choosing

/-- The next section of `co_check_available_bid`. -/
def CheckCall.step (cfg : Config) (s : Shared) (call : CheckCall) (input : Input) :
    Shared × CheckCall :=
  match call.phase with
  | .choosing =>
    let (resServiceIndex, container) := s.container.getServiceIndex cfg call.bid.time
      call.bid.ccgId none call.ccgSetter input.rand
    let s := { s with container := container }
    match resServiceIndex with
    | none => (s, { call with deactivateCcg := true, phase := .deactivating })
    | some index =>
      if call.tryI ≥ cfg.maxTryCount then (s, { call with phase := .finished })
      else (s, { call with phase := .calling index })
  | .calling index =>
    match input.bidResult.filter BidResult.available with
    | none =>
      ({ s with container := s.container.disable call.bid.ccgId index call.bid.time },
        { call with tryI := call.tryI + 1, phase := .choosing })
    | some result =>
      (s, { call with available := true, goalCtr := result.goalCtr, phase := .finished })
  | phase =>
    let (s, phase) := deactivation s phase call.ccgSetter call.bid.ccgId call.goalCtr call.bid.time
    (s, { call with phase := phase })

/-- One request of a call to a server and what came back. -/
structure Sent where
  index : Nat
  request : ConfirmBidInfo
  reply : Option ConfirmBidResponse
  deriving DecidableEq

/-- The request `co_confirm_bid` starts with. -/
def confirmBidRequest (bid : BidInfo) (accountSpentAmount : Int) (spentAmount : Counts) :
    ConfirmBidInfo where
  bid := bid
  accountSpentBudget := accountSpentAmount
  spent := spentAmount
  reservedBudget := 0
  forced := false

/-- A run of `co_confirm_bid`. -/
structure ConfirmCall where
  bid : BidInfo
  accountSpentAmount : Int
  spentAmount : Counts
  ccgSetter : Option Nat
  confirmBidInfo : ConfirmBidInfo := confirmBidRequest bid accountSpentAmount spentAmount
  badIndexes : DisabledIndexMap := SortedMap.empty
  available : Bool := false
  goalCtr : Int := 0
  phase : Phase := .choosing
  /-- The requests sent so far, in order; the code keeps no such list. -/
  sent : List Sent := []

/-- After the loop a CCG that is not available is switched off. -/
def ConfirmCall.leaveLoop (call : ConfirmCall) : ConfirmCall :=
  { call with phase := if call.available then .finished else .deactivating }

/-- What a call does with the reply to its request. -/
def ConfirmCall.answered (s : Shared) (call : ConfirmCall) (index : Nat)
    (reply : Option ConfirmBidResponse) : Shared × ConfirmCall :=
  match reply.filter (fun response =>
      call.confirmBidInfo.forced || response.result.isSome) with
  | none =>
    if call.confirmBidInfo.forced then
      (s, { call with
        badIndexes := call.badIndexes.insertNew index call.bid.time
        phase := .choosing })
    else
      ({ s with container := s.container.disable call.bid.ccgId index call.bid.time },
        { call with phase := .choosing })
  | some response =>
    let info := response.bid.getD call.confirmBidInfo
    (s, { call with
      confirmBidInfo := info
      available := response.resultOrDefault.available
      goalCtr := response.resultOrDefault.goalCtr }.leaveLoop)

/-- The next section of `co_confirm_bid`. -/
def ConfirmCall.step (cfg : Config) (s : Shared) (call : ConfirmCall) (input : Input) :
    Shared × ConfirmCall :=
  match call.phase with
  | .choosing =>
    let (resServiceIndex, container) := s.container.getServiceIndex cfg call.bid.time
      call.bid.ccgId (if call.confirmBidInfo.forced then some call.badIndexes else none) none
      input.rand
    let s := { s with container := container }
    match resServiceIndex with
    | none =>
      if call.confirmBidInfo.forced then (s, call.leaveLoop)
      else (s, { call with confirmBidInfo := { call.confirmBidInfo with forced := true } })
    | some index => (s, { call with phase := .calling index })
  | .calling index =>
    let sent : Sent := ⟨index, call.confirmBidInfo, input.confirmed⟩
    { call with sent := call.sent ++ [sent] }.answered s index input.confirmed
  | phase =>
    let (s, phase) := deactivation s phase call.ccgSetter call.bid.ccgId call.goalCtr call.bid.time
    (s, { call with phase := phase })

namespace Container

/-- Takes the planned rechecks over: `add_recheck_ccgs_` is swapped out, then its
times are put in by two loops. -/
def takePlanned (c : Container) : Container :=
  let latest := c.addRecheckCcgs.entries.foldl (fun recheck e =>
    recheck.put e.1 (max ((recheck.find? e.1).getD 0) e.2)) c.recheckCcgs
  let recheck := c.addRecheckCcgs.entries.foldl (fun recheck e =>
    match recheck.find? e.1 with
    | some target => recheck.put e.1 (min target e.2)
    | none => recheck.put e.1 e.2) latest
  { c with addRecheckCcgs := SortedMap.empty, recheckCcgs := recheck }

/-- Servers given up long enough ago are tried again. -/
def reenable (c : Container) (ccgId : Nat) (now : Time) : Container :=
  let state := c.ccgState ccgId
  let kept := state.disabledIndexes.filterKeys fun index =>
    (state.disabledIndexes.find? index).all (fun time => now - reenableIndexTime ≤ time)
  c.putState ccgId { state with disabledIndexes := kept }

end Container

/-- Where a pass of `run_recheck_ccgs_` is, with the CCGs it has yet to visit. -/
inductive Pass where
  | idle
  | visiting (now : Time) (rest : List (Nat × Time))
  | fetched (now : Time) (ccgId : Nat) (ccgSetter : Option Nat) (rest : List (Nat × Time))
  | switched (now : Time) (ccgId : Nat) (ccgSetter : Option Nat) (rest : List (Nat × Time))
  | enabled (now : Time) (ccgId : Nat) (rest : List (Nat × Time))

/-- The next section of `run_recheck_ccgs_`. A pass takes the time it starts with. -/
def Pass.step (cfg : Config) (s : Shared) (time : Time) (rand : Nat) : Pass → Shared × Pass
  | .idle =>
    let container := s.container.takePlanned
    ({ s with container := container }, .visiting time container.recheckCcgs.entries)
  | .visiting _ [] => (s, .idle)
  | .visiting now ((ccgId, checkTime) :: rest) =>
    if now ≥ checkTime then
      ({ s with container := s.container.reenable ccgId now },
        .fetched now ccgId (s.container.ccgState ccgId).ccgSetter rest)
    else
      (s, .visiting now rest)
  | .fetched now ccgId ccgSetter rest =>
    ({ s with container := (s.container.getServiceIndex cfg now ccgId none none rand).2 },
      .switched now ccgId ccgSetter rest)
  | .switched now ccgId ccgSetter rest =>
    (s.setAvailable ccgSetter ccgId true 0, .enabled now ccgId rest)
  | .enabled now ccgId rest =>
    ({ s with container := { s.container with
        recheckCcgs := s.container.recheckCcgs.erase ccgId } }, .visiting now rest)

inductive Call where
  | check (call : CheckCall)
  | confirm (call : ConfirmCall)

def Call.step (cfg : Config) (s : Shared) (input : Input) : Call → Shared × Call
  | .check call => ((call.step cfg s input).1, .check (call.step cfg s input).2)
  | .confirm call => ((call.step cfg s input).1, .confirm (call.step cfg s input).2)

/-- A container, the setters, the pass under way and the calls made so far. -/
structure Client where
  shared : Shared
  pass : Pass
  calls : List Call

def Client.start : Client := ⟨⟨.empty, SortedMap.empty⟩, .idle, []⟩

/-- One section of somebody. -/
inductive Event where
  | checkAvailableBid (bid : BidInfo) (ccgSetter : Option Nat)
  | confirmBid (bid : BidInfo) (accountSpentAmount : Int) (spentAmount : Counts)
      (ccgSetter : Option Nat)
  | proceed (call : Nat) (input : Input)
  | clearCache
  | recheck (time : Time) (rand : Nat)

def Client.apply (cfg : Config) (w : Client) : Event → Client
  | .checkAvailableBid bid ccgSetter =>
    let bid := { bid with optimizeCampaignCtr := cfg.optimizeCampaignCtr }
    { w with calls := w.calls ++ [.check { bid, ccgSetter }] }
  | .confirmBid bid accountSpentAmount spentAmount ccgSetter =>
    let bid := { bid with optimizeCampaignCtr := cfg.optimizeCampaignCtr }
    { w with calls := w.calls ++
        [.confirm { bid, accountSpentAmount, spentAmount, ccgSetter }] }
  | .proceed i input =>
    match w.calls[i]? with
    | none => w
    | some call =>
      { w with
        shared := (call.step cfg w.shared input).1
        calls := w.calls.set i (call.step cfg w.shared input).2 }
  | .clearCache => { w with shared := { w.shared with container := w.shared.container.clearCache } }
  | .recheck time rand =>
    { w with
      shared := (w.pass.step cfg w.shared time rand).1
      pass := (w.pass.step cfg w.shared time rand).2 }

def Client.run (cfg : Config) (w : Client) (events : List Event) : Client :=
  events.foldl (Client.apply cfg) w

end AdServer.BillingClient
