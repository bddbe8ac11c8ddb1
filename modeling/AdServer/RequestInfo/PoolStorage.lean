import AdServer.Billing.StorageRoundTrip
import AdServer.RequestInfo.PoolConservation

/-!
# The stored amounts of the request pool

`save_amounts_` sums what all aggregates have by key and writes a line for each
key; `load_amounts_` adds the lines to a new pool.
-/

namespace AdServer.RequestInfo

open AdServer.Billing (Text TextFormat LoadError throwing readFile splitTab tabLine readOptional
  isSeparator separator_clean splitTab_tabLine tabLine_clean tabLine_ne_nil readLines_ok plainText)

variable (division : Division)

/-- A request of `collect_aggregator_`. -/
def collectRequest (resAggAmounts : List Request) (request : Request) : List Request :=
  if resAggAmounts.any fun other => decide (other.key = request.key) then
    resAggAmounts.map fun other => if other.key = request.key then other.add request else other
  else resAggAmounts ++ [request]

/-- `collect_aggregator_`. -/
def collectAggregator (resAggAmounts : List Request) (aggregate : Aggregate) : List Request :=
  aggregate.aggAmounts.foldl collectRequest resAggAmounts

/-- What `save_amounts_` writes. -/
def Pool.collected (pool : Pool) : List Request :=
  pool.servers.foldl (fun res holder => collectAggregator res holder.aggregate)
    (collectAggregator [] pool.delayedAmounts)

/-- Hours as text, `%F %H`, and back. -/
structure HourFormat extends TextFormat where
  hour : Time → Text
  readHour : Text → Except String Time
  hour_clean : ∀ time, ∀ c ∈ hour time, isSeparator c = false
  decimal_some : ∀ x, decimal x ≠ []

variable (F : HourFormat)

/-- `%F %H` is exact on the hour. -/
def HourFormat.ExactHour (F : HourFormat) (time : Time) : Prop := F.readHour (F.hour time) = .ok time

def amountTokens (request : Request) : List Text :=
  [F.hour request.key.roundedTime, F.int request.key.accountId, F.int request.key.advertiserId,
    F.int request.key.campaignId, F.int request.key.ccgId,
    F.decimal request.amounts.accountAmount, F.decimal request.amounts.amount,
    F.decimal request.key.ctr, F.impDecimal request.amounts.imps,
    F.impDecimal request.amounts.clicks]

/-- `save_amounts_`. -/
def Pool.saveAmounts (pool : Pool) : Text :=
  ['\n'].intercalate (pool.collected.map fun request => tabLine (amountTokens F request))

def readId (what : String) (str : Text) : Except String Nat :=
  match F.strToInt str with
  | none => .error ("invalid " ++ what ++ " value: '" ++ String.ofList str ++ "'")
  | some id => .ok id

/-- The token that a line with too few of them has not. -/
def missingToken : Nat → String
  | 0 => "no date"
  | 1 => "no account id"
  | 2 => "no advertiser id"
  | 3 => "no campaign id"
  | 4 => "no ccg id"
  | 5 => "no account amount"
  | _ => "no amount"

/-- A ctr that is not there is zero. -/
def readCtr (str : Text) : Except String Int := if str.isEmpty then .ok 0 else F.readDecimal str

/-- A line of the file. The last three tokens may be missing; what follows them is
not looked at. -/
def readAmountsLine (line : Text) : Except String Request :=
  match splitTab line with
  | dateStr :: accountIdStr :: advertiserIdStr :: campaignIdStr :: ccgIdStr :: accountAmountStr ::
      amountStr :: rest => do
    let accountId ← readId F "account id" accountIdStr
    let advertiserId ← readId F "advertiser id" advertiserIdStr
    let campaignId ← readId F "campaign id" campaignIdStr
    let ccgId ← readId F "ccg id" ccgIdStr
    let date ← F.readHour dateStr
    let accountAmount ← F.readDecimal accountAmountStr
    let amount ← F.readDecimal amountStr
    let ctr ← readCtr F (rest[0]?.getD [])
    let imps ← readOptional F.toTextFormat (rest[1]?.getD [])
    let clicks ← readOptional F.toTextFormat (rest[2]?.getD [])
    return .make date accountId advertiserId campaignId ccgId ctr
      ⟨accountAmount, amount, imps, clicks⟩
  | tokens => .error (missingToken tokens.length)

/-- The sections of a thread that nothing runs beside, to the end of its call. -/
def Pool.runAlone : Nat → Pool → Task → Option Pool
  | 0, pool, task => if task = .idle then some pool else none
  | sections + 1, pool, task =>
    if task = .idle then some pool
    else (pool.step division task .proceed).bind fun next => runAlone sections next.1 next.2

/-- `add` with nothing beside it; two sections for each server are enough while
all servers are active. -/
def Pool.add (pool : Pool) (request : Request) : Option Pool :=
  pool.runAlone division (2 * (pool.servers.length + 1))
    (.resume (addToAllServers division pool.servers.length request))

/-- `load_amounts_`. -/
def Pool.loadAmounts (pool : Pool) (path : String) (file : Text) : Except LoadError Pool :=
  readFile "BillingProcessor::RequestPool::load_amounts_()" path
    (fun line pool => throwing (readAmountsLine F line) >>= fun request =>
      match pool.add division request with
      | some pool => .ok pool
      | none => .error .aborted) file pool

section Collected

variable {key : Key} {request : Request} {resAggAmounts : List Request} {division F}

/-- Each key once. -/
def KeysOnce (resAggAmounts : List Request) : Prop := (resAggAmounts.map Request.key).Nodup

theorem collectRequest_keys (once : KeysOnce resAggAmounts) (request : Request) :
    KeysOnce (collectRequest resAggAmounts request) := by
  unfold collectRequest
  split
  · have sameKeys : ((resAggAmounts.map fun other =>
        if other.key = request.key then other.add request else other).map Request.key) =
          resAggAmounts.map Request.key := by
      rw [List.map_map]
      refine List.map_congr_left fun other _ => ?_
      simp only [Function.comp_apply]
      split <;> rfl
    rw [KeysOnce, sameKeys]
    exact once
  next absent =>
    rw [KeysOnce, List.map_append, List.nodup_append]
    refine ⟨once, by simp, ?_⟩
    intro one here two there
    obtain ⟨other, listed, rfl⟩ := List.mem_map.1 here
    simp only [List.map_cons, List.map_nil, List.mem_singleton] at there
    rw [there]
    intro same
    exact absent (List.any_eq_true.2 ⟨other, listed, by simpa using same⟩)

theorem amountsOf_collectRequest (once : KeysOnce resAggAmounts) :
    amountsOf key (collectRequest resAggAmounts request) =
      amountsOf key resAggAmounts + amountsOf key [request] := by
  unfold collectRequest
  split
  next found =>
    obtain ⟨addReq, present, same⟩ := List.any_eq_true.1 found
    have sameKey : addReq.key = request.key := by simpa using same
    have changed : (resAggAmounts.map fun other =>
        if other.key = request.key then other.add request else other) =
          resAggAmounts.map fun other => if other = addReq then addReq.add request else other := by
      refine List.map_congr_left fun other there => ?_
      by_cases here : other = addReq
      · simp [here, sameKey]
      · have otherKey : other.key ≠ request.key := fun equal =>
          here (List.inj_on_of_nodup_map once there present (equal.trans sameKey.symm))
        simp [here, otherKey]
    rw [changed, amountsOf_perm (Aggregate.map_changed_perm (.of_map _ once) present _),
      amountsOf_perm (List.perm_cons_erase present)]
    simp only [amountsOf_cons, amountsOf_nil, Request.add, sameKey]
    split <;> abel
  · exact amountsOf_append

theorem collectAggregator_spec (aggregate : Aggregate) (once : KeysOnce resAggAmounts) (key : Key) :
    KeysOnce (collectAggregator resAggAmounts aggregate) ∧
      amountsOf key (collectAggregator resAggAmounts aggregate) =
        amountsOf key resAggAmounts + amountsOf key aggregate.aggAmounts := by
  unfold collectAggregator
  induction aggregate.aggAmounts generalizing resAggAmounts with
  | nil => exact ⟨once, by simp⟩
  | cons request rest ih =>
    obtain ⟨onceRest, amounts⟩ := ih (collectRequest_keys once request)
    refine ⟨onceRest, ?_⟩
    rw [List.foldl_cons, amounts, amountsOf_collectRequest once, amountsOf_cons, amountsOf_cons,
      amountsOf_nil]
    abel

theorem amountsOf_collected (pool : Pool) : amountsOf key pool.collected = pool.amounts key := by
  have servers (holders : List Server) {res : List Request} (once : KeysOnce res) :
      amountsOf key (holders.foldl
        (fun res holder => collectAggregator res holder.aggregate) res) =
          amountsOf key res +
            (holders.map fun holder => amountsOf key holder.aggregate.aggAmounts).sum := by
    induction holders generalizing res with
    | nil => simp
    | cons holder rest ih =>
      obtain ⟨onceNext, amounts⟩ := collectAggregator_spec holder.aggregate once key
      rw [List.foldl_cons, ih onceNext, amounts, List.map_cons, List.sum_cons]
      abel
  have nothing : KeysOnce [] := .nil
  obtain ⟨once, amounts⟩ := collectAggregator_spec pool.delayedAmounts nothing key
  rw [Pool.collected, servers pool.servers once, amounts, Pool.amounts, amountsOf_nil]
  abel

theorem forall_collected {P : Key → Prop} {pool : Pool}
    (servers : ∀ holder ∈ pool.servers, ∀ request ∈ holder.aggregate.aggAmounts, P request.key)
    (delayed : ∀ request ∈ pool.delayedAmounts.aggAmounts, P request.key) :
    ∀ request ∈ pool.collected, P request.key := by
  have request (res : List Request) (added : Request) (all : ∀ other ∈ res, P other.key)
      (new : P added.key) : ∀ other ∈ collectRequest res added, P other.key := by
    intro other mem
    unfold collectRequest at mem
    split at mem
    · obtain ⟨before, there, rfl⟩ := List.mem_map.1 mem
      split
      · exact all before there
      · exact all before there
    · rcases List.mem_append.1 mem with there | last
      · exact all other there
      · rw [List.mem_singleton.1 last]
        exact new
  have aggregate (res added : List Request) (all : ∀ other ∈ res, P other.key)
      (new : ∀ other ∈ added, P other.key) :
      ∀ other ∈ added.foldl collectRequest res, P other.key :=
    List.foldlRecOn added _ all fun res all other there => request res other all (new other there)
  exact List.foldlRecOn pool.servers _ (aggregate [] _ (by simp) delayed)
    fun res all holder there => aggregate res _ all (servers holder there)

end Collected

section Alone

variable {pool pool' : Pool} {task : Task} {division F}

theorem runAlone_conserves {sections : Nat} (consistent : pool.Consistent)
    (rounded : ∀ request ∈ task.hand, request.Rounded)
    (done : pool.runAlone division sections task = some pool') :
    pool'.Consistent ∧
      ∀ key, pool'.amounts key = pool.amounts key + amountsOf key task.hand := by
  induction sections generalizing pool task with
  | zero =>
    unfold Pool.runAlone at done
    split at done
    next idle =>
      cases done
      exact ⟨consistent, by simp [idle, Task.hand]⟩
    · cases done
  | succ sections ih =>
    unfold Pool.runAlone at done
    split at done
    next idle =>
      cases done
      exact ⟨consistent, by simp [idle, Task.hand]⟩
    · obtain ⟨⟨middle, task'⟩, step, rest⟩ := Option.bind_eq_some_iff.1 done
      have conserves := Pool.step_conserves consistent rounded step
      have first := conserves ⟨0, 0, 0, 0, 0, 0⟩
      obtain ⟨kept, amounts⟩ := ih first.consistent first.rounded rest
      refine ⟨kept, fun key => ?_⟩
      have moved := (conserves key).amounts
      have adds : World.adds .proceed key = 0 := rfl
      have confirms : World.confirms task .proceed key = 0 := by
        cases task <;> rfl
      rw [adds, confirms, add_zero, add_zero] at moved
      rw [amounts, moved]

theorem add_conserves {request : Request} (consistent : pool.Consistent)
    (rounded : request.Rounded) (done : pool.add division request = some pool') :
    pool'.Consistent ∧
      ∀ key, pool'.amounts key = pool.amounts key + amountsOf key [request] := by
  have hand := Task.hand_resume (addToAllServers division pool.servers.length request)
  obtain ⟨kept, amounts⟩ := runAlone_conserves consistent
    (hand ▸ rounded_addToAllServers rounded) done
  refine ⟨kept, fun key => ?_⟩
  rw [amounts, hand, amountsOf_addToAllServers]

/-- Every server is active and nobody holds its lock. -/
def Pool.AllActive (pool : Pool) : Prop :=
  ∀ holder ∈ pool.servers, holder.active = true ∧ holder.locked = false

theorem free_of_active (active : pool.AllActive) {server : Nat}
    (bound : server < pool.servers.length) : pool.free server = some pool.servers[server] := by
  have unlocked := (active _ (List.getElem_mem bound)).2
  simp [Pool.free, List.getElem?_eq_getElem bound, Option.filter, unlocked]

theorem addTo_active (division : Division) (active : pool.AllActive) (attempt : Attempt)
    (bound : attempt.server < pool.servers.length) :
    ∃ locked pool', pool.step division (.attempt attempt) .proceed =
        some (locked, .adding attempt) ∧
      locked.step division (.adding attempt) .proceed =
        some (pool', .accepted pool.servers.length attempt) ∧
      pool'.AllActive ∧ pool'.servers.length = pool.servers.length := by
  have here := active _ (List.getElem_mem bound)
  let holder := pool.servers[attempt.server]
  let erased := if holder.aggregate.sendAmounts = [] then pool else pool.eraseServer attempt.server
  let locked := erased.setServer attempt.server { holder with locked := true }
  have sameServers : erased.servers = pool.servers := by
    simp only [erased]
    split <;> rfl
  have lockedServers : locked.servers =
      pool.servers.set attempt.server { holder with locked := true } := by
    rw [← sameServers]
    rfl
  have length : locked.servers.length = pool.servers.length := by
    rw [lockedServers, List.length_set]
  have found : locked.servers[attempt.server]? = some { holder with locked := true } := by
    rw [lockedServers, List.getElem?_set_self bound]
  refine ⟨locked,
    locked.finishAdding attempt.server { holder with locked := true } attempt.requests, ?_, ?_, ?_⟩
  · have begun : pool.beginAdding attempt.server holder = some locked := if_pos here.1
    simp only [Pool.step, free_of_active active bound, Option.map_some]
    rw [show pool.servers[attempt.server] = holder from rfl, begun]
  · simp only [Pool.step, found, Option.map_some, length]
  · refine ⟨fun other mem => ?_, ?_⟩
    · simp only [Pool.finishAdding, Pool.insertServer, Pool.setServer, lockedServers,
        List.set_set] at mem
      rcases List.mem_or_eq_of_mem_set mem with before | rfl
      · exact active other before
      · exact ⟨here.1, rfl⟩
    · simp [Pool.finishAdding, Pool.insertServer, Pool.setServer, lockedServers]

theorem runAlone_active {calls : List (Nat × List Request)} {sections : Nat}
    (enough : 2 * calls.length ≤ sections) (active : pool.AllActive)
    (bound : ∀ call ∈ calls, call.1 < pool.servers.length) :
    ∃ pool', pool.runAlone division sections (.resume calls) = some pool' ∧ pool'.AllActive ∧
      pool'.servers.length = pool.servers.length := by
  induction calls generalizing pool sections with
  | nil => exact ⟨pool, by cases sections <;> rfl, active, rfl⟩
  | cons call rest ih =>
    obtain ⟨more, rfl⟩ : ∃ more, sections = more + 2 := ⟨sections - 2, by
      rw [List.length_cons] at enough
      omega⟩
    obtain ⟨locked, added, first, second, activeAdded, length⟩ :=
      addTo_active division active ⟨call.1, call.2, .call, rest⟩ (bound call (by simp))
    have left : 2 * rest.length ≤ more := by
      rw [List.length_cons] at enough
      omega
    obtain ⟨pool', run, activeAfter, lengthAfter⟩ := ih left activeAdded
      (fun other later => length ▸ bound other (by simp [later]))
    refine ⟨pool', ?_, activeAfter, lengthAfter.trans length⟩
    have start : Task.resume (call :: rest) = .attempt ⟨call.1, call.2, .call, rest⟩ := rfl
    simp only [start, Pool.runAlone, reduceCtorEq, if_false, first, second, Option.bind_some,
      Task.accepted]
    exact run

theorem add_active (division : Division) (request : Request) (active : pool.AllActive)
    (some_server : 0 < pool.servers.length) :
    ∃ pool', pool.add division request = some pool' ∧ pool'.AllActive ∧
      pool'.servers.length = pool.servers.length := by
  refine runAlone_active ?_ active fun call called => ?_
  · unfold addToAllServers
    split
    · simp
      omega
    · simp
  · unfold addToAllServers at called
    split at called
    · simp only [List.cons_append, List.mem_cons, List.mem_append, List.mem_map, List.mem_range,
        List.not_mem_nil, or_false] at called
      rcases called with rfl | ⟨other, before, rfl⟩ | rfl
      · exact some_server
      · simp only []
        omega
      · simp only []
        omega
    · rw [List.mem_singleton.1 called]
      exact some_server

end Alone

section RoundTrip

variable {division F} {request : Request} {pool : Pool} {path : String}

/-- The request that a line of the file makes. -/
def storedRequest (request : Request) : Request :=
  .make request.key.roundedTime request.key.accountId request.key.advertiserId
    request.key.campaignId request.key.ccgId request.key.ctr request.amounts

theorem amountTokens_clean (token : Text) (mem : token ∈ amountTokens F request) :
    ∀ c ∈ token, isSeparator c = false := by
  simp only [amountTokens, List.mem_cons, List.not_mem_nil, or_false] at mem
  rcases mem with rfl | rfl | rfl | rfl | rfl | rfl | rfl | rfl | rfl | rfl
  · exact F.hour_clean _
  · exact F.int_clean _
  · exact F.int_clean _
  · exact F.int_clean _
  · exact F.int_clean _
  · exact F.decimal_clean _
  · exact F.decimal_clean _
  · exact F.decimal_clean _
  · exact F.impDecimal_clean _
  · exact F.impDecimal_clean _

theorem readId_int (what : String) (id : Nat) : readId F what (F.int id) = .ok id := by
  rw [readId, F.strToInt_int]

theorem readOptional_impDecimal (x : Int) : readOptional F.toTextFormat (F.impDecimal x) = .ok x := by
  rw [readOptional, if_neg (by simpa using F.impDecimal_some x), F.readImpDecimal_impDecimal]

theorem readCtr_decimal (x : Int) : readCtr F (F.decimal x) = .ok x := by
  rw [readCtr, if_neg (by simpa using F.decimal_some x), F.readDecimal_decimal]

theorem readAmountsLine_amountTokens (exact_ : F.ExactHour request.key.roundedTime) :
    readAmountsLine F (tabLine (amountTokens F request)) = .ok (storedRequest request) := by
  have tokens : splitTab (tabLine (amountTokens F request)) = amountTokens F request :=
    splitTab_tabLine fun token mem c hc =>
      (separator_clean (amountTokens_clean token mem c hc)).2.1
  have hour : F.readHour (F.hour request.key.roundedTime) = .ok request.key.roundedTime := exact_
  rw [readAmountsLine, tokens]
  simp only [amountTokens, readId_int, hour, F.readDecimal_decimal, List.getElem?_cons_zero,
    List.getElem?_cons_succ, Option.getD_some, readCtr_decimal, readOptional_impDecimal]
  rfl

theorem hourOf_hourOf (time : Time) : hourOf (hourOf time) = hourOf time := by
  have seconds (hours : Int) : hours * 3600 * 1000000 / 1000000 = hours * 3600 :=
    Int.mul_ediv_cancel _ (by decide)
  rw [hourOf, hourOf, seconds, Int.mul_tdiv_cancel _ (by decide)]

theorem storedRequest_key (whole : hourOf request.key.roundedTime = request.key.roundedTime) :
    (storedRequest request).key = request.key := by
  obtain ⟨⟨hour, account, advertiser, campaign, ccg, ctr⟩, mode, time, amounts⟩ := request
  simp only [storedRequest, Request.make, Key.mk.injEq, and_self, and_true]
  exact whole

theorem foldlM_add (division : Division) {requests : List Request} (active : pool.AllActive)
    (consistent : pool.Consistent) (some_server : 0 < pool.servers.length)
    (exact_ : ∀ request ∈ requests, F.ExactHour request.key.roundedTime)
    (whole : ∀ request ∈ requests, hourOf request.key.roundedTime = request.key.roundedTime) :
    ∃ loaded, (requests.map fun request => tabLine (amountTokens F request)).foldlM
        (fun pool line => throwing (readAmountsLine F line) >>= fun request =>
          match pool.add division request with
          | some pool => .ok pool
          | none => .error .aborted) pool = (.ok loaded : Except LoadError Pool) ∧
      ∀ key, loaded.amounts key = pool.amounts key + amountsOf key requests := by
  induction requests generalizing pool with
  | nil => exact ⟨pool, rfl, by simp⟩
  | cons request rest ih =>
    obtain ⟨added, done, activeAdded, length⟩ :=
      add_active division (storedRequest request) active some_server
    have rounded : (storedRequest request).Rounded := Request.rounded_make ..
    obtain ⟨kept, amounts⟩ := add_conserves consistent rounded done
    obtain ⟨loaded, foldl, sum⟩ := ih activeAdded kept (length ▸ some_server)
      (fun other later => exact_ other (by simp [later]))
      (fun other later => whole other (by simp [later]))
    refine ⟨loaded, ?_, fun key => ?_⟩
    · rw [List.map_cons, List.foldlM_cons, readAmountsLine_amountTokens (exact_ request (by simp))]
      simp only [throwing, bind, Except.bind, done]
      exact foldl
    · have sameKey := storedRequest_key (whole request (by simp))
      have sameAmounts : (storedRequest request).amounts = request.amounts := rfl
      rw [sum, amounts, amountsOf_cons, amountsOf_cons, amountsOf_nil, sameKey, sameAmounts]
      abel

theorem new_active (serverCount : Nat) : (Pool.new serverCount).AllActive := by
  intro holder mem
  rw [List.eq_of_mem_replicate mem]
  exact ⟨rfl, rfl⟩

theorem new_consistent (serverCount : Nat) : (Pool.new serverCount).Consistent :=
  (World.start_conserved serverCount 0).consistent

theorem amounts_new (serverCount : Nat) (key : Key) : (Pool.new serverCount).amounts key = 0 := by
  simp [Pool.new, Pool.amounts]

theorem loadAmounts_saveAmounts (consistent : pool.Consistent)
    (exact_ : ∀ request ∈ pool.collected, F.ExactHour request.key.roundedTime) {serverCount : Nat}
    (some_server : 0 < serverCount) :
    ∃ loaded, (Pool.new serverCount).loadAmounts division F path (pool.saveAmounts F) = .ok loaded ∧
      ∀ key, loaded.amounts key = pool.amounts key := by
  have whole : ∀ request ∈ pool.collected,
      hourOf request.key.roundedTime = request.key.roundedTime := by
    have rounded (request : Request) (rounded : request.Rounded) :
        hourOf request.key.roundedTime = request.key.roundedTime := by
      rw [rounded, hourOf_hourOf]
    exact forall_collected (P := fun key => hourOf key.roundedTime = key.roundedTime)
      (fun holder there request mem =>
        rounded request ((consistent.servers holder there).rounded request mem))
      (fun request mem => rounded request (consistent.delayed.rounded request mem))
  obtain ⟨loaded, foldl, sum⟩ := foldlM_add division (new_active serverCount)
    (new_consistent serverCount) (by simpa [Pool.new] using some_server) exact_ whole
  refine ⟨loaded, ?_, fun key => ?_⟩
  · rw [Pool.loadAmounts, Pool.saveAmounts]
    cases saved : pool.collected with
    | nil =>
      rw [saved] at foldl
      exact foldl
    | cons first rest =>
      rw [saved] at foldl
      have lines : ∀ line ∈ (first :: rest).map fun request => tabLine (amountTokens F request),
          line ≠ [] ∧ ∀ c ∈ line, (c == '\n') = false := by
        intro line mem
        obtain ⟨request, _, rfl⟩ := List.mem_map.1 mem
        exact ⟨tabLine_ne_nil _ _ _, tabLine_clean fun token => amountTokens_clean token⟩
      have some_text : (['\n'].intercalate ((first :: rest).map fun request =>
          tabLine (amountTokens F request))).isEmpty = false := by
        rw [List.map_cons, Lib.intercalate_cons, List.isEmpty_eq_false_iff]
        exact List.append_ne_nil_of_left_ne_nil (lines _ (by simp)).1 _
      rw [readFile, if_neg (ne_true_of_eq_false some_text), Lib.splitOnP_intercalate_clean (by decide)
        (by simp) fun line mem => (lines line mem).2]
      exact readLines_ok (fun line mem => (lines line mem).1) foldl
  · rw [sum, amounts_new, amountsOf_collected, zero_add]

end RoundTrip

/-- Along every run: the amounts in the aggregates, in the hands of the threads and
confirmed by the servers are what was added; both sets of an aggregate have the same
requests; and a new pool loaded with what is saved has the amounts of the old one. -/
theorem pool_conserves {serverCount threadCount : Nat} {steps : List (Nat × Action)}
    {world : World}
    (done : (World.start serverCount threadCount).run division steps = some world) :
    (∀ key, world.pool.amounts key + world.inHand key + world.confirmed key = world.added key) ∧
      (∀ holder ∈ world.pool.servers,
        holder.aggregate.aggAmounts.Perm holder.aggregate.sendAmounts) ∧
      world.pool.delayedAmounts.aggAmounts.Perm world.pool.delayedAmounts.sendAmounts ∧
      ∀ (F : HourFormat) (path : String) (newCount : Nat), 0 < newCount →
        (∀ request ∈ world.pool.collected, F.ExactHour request.key.roundedTime) →
          ∃ loaded, (Pool.new newCount).loadAmounts division F path (world.pool.saveAmounts F) =
              .ok loaded ∧ ∀ key, loaded.amounts key = world.pool.amounts key := by
  have kept := World.run_conserved (World.start_conserved serverCount threadCount) done
  refine ⟨kept.amounts, fun holder there => (kept.consistent.servers holder there).same,
    kept.consistent.delayed.same, fun F path newCount some_server exact_ => ?_⟩
  exact loadAmounts_saveAmounts kept.consistent exact_ some_server

/-- Plain text of hours. -/
def plainHours : HourFormat where
  toTextFormat := plainText
  hour time := plainText.date time ++ ' ' :: Billing.twoDigits (time / 3600000000 % 24)
  readHour text :=
    match text.splitOnP (· == ' ') with
    | [date, hour] =>
      (plainText.readDate date).map (· + Billing.textNat hour * 3600000000)
    | _ => .error "not an hour"
  hour_clean := by
    intro time c mem
    simp only [List.mem_append, List.mem_cons] at mem
    rcases mem with date | rfl | hour
    · exact plainText.date_clean _ c date
    · decide
    · exact Billing.twoDigits_clean _ c hour
  decimal_some := by
    intro x
    simp [plainText, Billing.decimalText]

instance (F : HourFormat) (time : Time) : Decidable (F.ExactHour time) :=
  inferInstanceAs (Decidable (_ = _))

/-- An impression is added to two servers, and the first one confirms a half of its
part. -/
def halfConfirmed : List (Nat × Action) :=
  [(0, .add 7200000000 1 2 3 4 0 ⟨20, 10, 1, 0⟩), (0, .proceed), (0, .proceed), (0, .proceed),
    (0, .proceed), (0, .getRequests 100), (0, .proceed), (0, .proceed),
    (0, .reply (.remainders [(0, ⟨5, 2, 0, 0⟩)]))]

theorem halfConfirmed_conserved :
    ∃ world, (World.start 2 1).run .truncating halfConfirmed = some world ∧
      (∀ key, world.pool.amounts key + world.inHand key + world.confirmed key =
        world.added key) ∧
      ∃ loaded, (Pool.new 3).loadAmounts .truncating plainHours ""
        (world.pool.saveAmounts plainHours) = .ok loaded ∧
          ∀ key, loaded.amounts key = world.pool.amounts key := by
  have done : ∃ world, (World.start 2 1).run .truncating halfConfirmed = some world ∧
      ∀ request ∈ world.pool.collected, plainHours.ExactHour request.key.roundedTime :=
    ⟨_, rfl, by decide +kernel⟩
  obtain ⟨world, run, exact_⟩ := done
  have kept := pool_conserves .truncating run
  exact ⟨world, run, kept.1, kept.2.2.2 plainHours "" 3 (by decide) exact_⟩

end AdServer.RequestInfo
