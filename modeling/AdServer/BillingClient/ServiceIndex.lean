import AdServer.Billing.State

/-!
# Choosing a billing server

The container of a client of the billing servers: for every CCG the server it
uses, the servers it has given up, and the setter that switches the CCG off and
on; and the times at which CCGs are to be rechecked.
-/

namespace AdServer.BillingClient

open AdServer.Lib
open AdServer.Billing (Time oneSecond)

def maxSizeServerUseTimes : Nat := 10
def maxServerUseTime : Time := 10 * oneSecond
def minServerUseTime : Time := oneSecond / 100
def reenableIndexTime : Time := 10 * oneSecond

/-- What a container is made with. It asserts that there is a server. -/
structure Config where
  billingServers : Nat
  maxUseCount : Int
  maxTryCount : Nat := 10
  optimizeCampaignCtr : Bool := false
  some_server : 0 < billingServers

abbrev DisabledIndexMap := SortedMap Nat Time

structure CCGState where
  activeIndex : Nat := 0
  useCount : Int := -1
  disabledIndexes : DisabledIndexMap := SortedMap.empty
  serverUseTimes : List Time := []
  lastServerSwitchTime : Time := 0
  plannedServerSwitchTime : Time := 0
  /-- The setter, by its address. -/
  ccgSetter : Option Nat := none

structure Container where
  cache : SortedMap Nat CCGState
  addRecheckCcgs : SortedMap Nat Time
  recheckCcgs : SortedMap Nat Time

variable {tries index last k j id : Nat} {c c' : Container}

def Container.empty : Container := ⟨SortedMap.empty, SortedMap.empty, SortedMap.empty⟩

namespace CCGState

/-- The latest use times are kept. -/
def pushUseTime (state : CCGState) (useTime : Time) : CCGState :=
  let times := state.serverUseTimes ++ [useTime]
  { state with serverUseTimes := times.drop (times.length - maxSizeServerUseTimes) }

/-- `fill_planned_server_switch_time_`, without the recheck it plans. -/
def fillPlannedServerSwitchTime (state : CCGState) (now : Time) : CCGState :=
  let planned :=
    if state.serverUseTimes.isEmpty then
      { state with plannedServerSwitchTime := now + maxServerUseTime }
    else
      let avgTime := state.serverUseTimes.sum / state.serverUseTimes.length
      let useTime := max (min avgTime maxServerUseTime) minServerUseTime
      { state with lastServerSwitchTime := now, plannedServerSwitchTime := now + useTime }
  if state.lastServerSwitchTime ≠ 0 then
    planned.pushUseTime (now - state.lastServerSwitchTime)
  else
    planned

@[simp] theorem fillPlannedServerSwitchTime_ccgSetter (state : CCGState) (now : Time) :
    (state.fillPlannedServerSwitchTime now).ccgSetter = state.ccgSetter := by
  simp only [fillPlannedServerSwitchTime, pushUseTime]
  split <;> split <;> rfl

end CCGState

def isDisabled (disabled : DisabledIndexMap) (index : Nat) : Bool := (disabled.find? index).isSome

def Config.nextIndex (cfg : Config) (index : Nat) : Nat := (index + 1) % cfg.billingServers

/-- Goes on to the next index until one is not disabled. -/
def Config.goodIndex (cfg : Config) (disabled : DisabledIndexMap) : Nat → Nat → Nat × Bool
  | 0, index => (index, false)
  | tries + 1, index =>
    let next := cfg.nextIndex index
    if isDisabled disabled next then cfg.goodIndex disabled tries next else (next, true)

namespace Config

variable (cfg : Config) {disabled : DisabledIndexMap}

theorem goodIndex_found {tries index found : Nat}
    (h : cfg.goodIndex disabled tries index = (found, true)) : isDisabled disabled found = false := by
  induction tries generalizing index with
  | zero => simp [goodIndex] at h
  | succ tries ih =>
    unfold goodIndex at h
    by_cases bad : isDisabled disabled (cfg.nextIndex index)
    · rw [if_pos bad] at h
      exact ih h
    · rw [if_neg bad] at h
      obtain rfl : cfg.nextIndex index = found := congrArg Prod.fst h
      simpa using bad

theorem goodIndex_missed (h : cfg.goodIndex disabled tries index = (last, false)) (hk : k < tries) :
    isDisabled disabled ((index + k + 1) % cfg.billingServers) = true := by
  induction tries generalizing index k with
  | zero => omega
  | succ tries ih =>
    unfold goodIndex at h
    by_cases bad : isDisabled disabled (cfg.nextIndex index)
    · rw [if_pos bad] at h
      cases k with
      | zero => exact bad
      | succ k =>
        have later := ih h (by omega : k < tries)
        have same : (cfg.nextIndex index + k + 1) % cfg.billingServers =
            (index + (k + 1) + 1) % cfg.billingServers := by
          unfold nextIndex
          rw [Nat.add_assoc, Nat.mod_add_mod]
          congr 1
          omega
        rwa [same] at later
    · rw [if_neg bad] at h
      simp at h

/-- As many tries as there are servers miss only when all of them are disabled. -/
theorem goodIndex_none (h : cfg.goodIndex disabled cfg.billingServers index = (last, false))
    (hj : j < cfg.billingServers) : isDisabled disabled j = true := by
  have pos := cfg.some_server
  -- the try that reaches `j`
  have reached : (index + ((j + cfg.billingServers - 1 - index % cfg.billingServers) %
      cfg.billingServers) + 1) % cfg.billingServers = j := by
    have small := Nat.mod_lt index pos
    rw [show index + ((j + cfg.billingServers - 1 - index % cfg.billingServers) %
        cfg.billingServers) + 1 = index + 1 + (j + cfg.billingServers - 1 -
        index % cfg.billingServers) % cfg.billingServers by omega, Nat.add_mod_mod,
      ← Nat.mod_add_div index cfg.billingServers]
    have sum : index % cfg.billingServers + cfg.billingServers * (index / cfg.billingServers) + 1 +
        (j + cfg.billingServers - 1 -
          (index % cfg.billingServers + cfg.billingServers * (index / cfg.billingServers)) %
            cfg.billingServers) =
        j + cfg.billingServers * (index / cfg.billingServers + 1) := by
      rw [Nat.mod_add_div, Nat.mul_add, Nat.mul_one]
      have whole := Nat.mod_add_div index cfg.billingServers
      omega
    rw [sum, Nat.add_mul_mod_self_left, Nat.mod_eq_of_lt hj]
  have tried := goodIndex_missed cfg h (Nat.mod_lt
    (j + cfg.billingServers - 1 - index % cfg.billingServers) pos)
  rwa [reached] at tried

end Config

namespace Container

/-- `cache_[ccg_id]`. -/
def ccgState (c : Container) (ccgId : Nat) : CCGState := (c.cache.find? ccgId).getD {}

def putState (c : Container) (ccgId : Nat) (state : CCGState) : Container :=
  { c with cache := c.cache.put ccgId state }

/-- The state is kept with its next switch planned, and the CCG is to be rechecked then. -/
def planSwitch (c : Container) (ccgId : Nat) (state : CCGState) (now : Time) : Container :=
  let planned := state.fillPlannedServerSwitchTime now
  { c.putState ccgId planned with
    addRecheckCcgs := c.addRecheckCcgs.put ccgId planned.plannedServerSwitchTime }

/-- The first use of a CCG takes a random server. -/
def firstUse (cfg : Config) (c : Container) (now : Time) (ccgId rand : Nat) : Container :=
  let state := c.ccgState ccgId
  if state.useCount = -1 then
    c.planSwitch ccgId { state with
      activeIndex := rand % cfg.billingServers
      useCount := 0
      lastServerSwitchTime := now } now
  else
    c

/-- The service switched to the index found. -/
def switched (c : Container) (now : Time) (ccgId index : Nat) : Container :=
  let state := { c.ccgState ccgId with activeIndex := index, useCount := 1 }
  if state.lastServerSwitchTime ≠ 0 then
    c.planSwitch ccgId (state.pushUseTime (now - state.lastServerSwitchTime)) now
  else
    c.putState ccgId state

/-- Keeps the active index while it is good, else switches to another one. -/
def chooseIndex (cfg : Config) (c : Container) (now : Time) (ccgId : Nat)
    (disabledIndexes : DisabledIndexMap) : Option Nat × Container :=
  let state := c.ccgState ccgId
  let activeIndexIsBad := isDisabled disabledIndexes state.activeIndex
  let useCount := if activeIndexIsBad then state.useCount else state.useCount + 1
  if activeIndexIsBad || useCount > cfg.maxUseCount || now > state.plannedServerSwitchTime then
    match cfg.goodIndex disabledIndexes cfg.billingServers state.activeIndex with
    | (index, true) => (some index, c.switched now ccgId index)
    | (index, false) =>
      (none, c.putState ccgId { state with activeIndex := index, useCount := 1 })
  else
    (some state.activeIndex, c.putState ccgId { state with useCount := useCount })

/-- `get_service_index_`: `none` stands for -1, `rand` is the random number a
first use takes. -/
def getServiceIndex (cfg : Config) (c : Container) (now : Time) (ccgId : Nat)
    (disabledIndexesIn : Option DisabledIndexMap) (ccgSetter : Option Nat) (rand : Nat) :
    Option Nat × Container :=
  let given := c.ccgState ccgId
  let c := c.putState ccgId { given with ccgSetter := ccgSetter.or given.ccgSetter }
  let c := firstUse cfg c now ccgId rand
  chooseIndex cfg c now ccgId (disabledIndexesIn.getD (c.ccgState ccgId).disabledIndexes)

/-- A server that failed a call for the CCG is given up. -/
def disable (c : Container) (ccgId index : Nat) (now : Time) : Container :=
  let state := c.ccgState ccgId
  c.putState ccgId { state with disabledIndexes := state.disabledIndexes.insertNew index now }

/-- `clear_cache`. -/
def clearCache (c : Container) : Container := { c with cache := SortedMap.empty }

/-- What `ccg_set_available_` plans for a CCG it has switched off. -/
def planRecheck (c : Container) (ccgId : Nat) (now : Time) : Container :=
  let plannedTime := (c.addRecheckCcgs.find? ccgId).getD 0
  let recheckTime :=
    if plannedTime ≠ 0 then min plannedTime (now + reenableIndexTime) else now + reenableIndexTime
  { c with addRecheckCcgs := c.addRecheckCcgs.put ccgId recheckTime }

/-- The setter kept for a CCG. -/
def setterOf (c : Container) (ccgId : Nat) : Option Nat :=
  (c.cache.find? ccgId).bind CCGState.ccgSetter

/-- The CCG is to be rechecked. -/
def Pending (c : Container) (ccgId : Nat) : Prop :=
  ccgId ∈ c.addRecheckCcgs.keys ∨ ccgId ∈ c.recheckCcgs.keys

theorem setterOf_eq (c : Container) (ccgId : Nat) :
    c.setterOf ccgId = (c.ccgState ccgId).ccgSetter := by
  unfold setterOf ccgState
  cases c.cache.find? ccgId <;> rfl

@[simp] theorem ccgState_putState (c : Container) (ccgId : Nat) (state : CCGState) (id : Nat) :
    (c.putState ccgId state).ccgState id = if id = ccgId then state else c.ccgState id := by
  unfold ccgState putState
  rw [SortedMap.find?_put]
  split <;> rfl

@[simp] theorem setterOf_putState (c : Container) (ccgId : Nat) (state : CCGState) (id : Nat) :
    (c.putState ccgId state).setterOf id = if id = ccgId then state.ccgSetter else c.setterOf id := by
  rw [setterOf_eq, ccgState_putState, setterOf_eq]
  split <;> rfl

/-- Everything planned in `c` is planned in `c'`, and the rechecks taken over are the same. -/
structure PlansKept (c c' : Container) : Prop where
  planned : ∀ id ∈ c.addRecheckCcgs.keys, id ∈ c'.addRecheckCcgs.keys
  taken : c'.recheckCcgs = c.recheckCcgs

theorem PlansKept.refl (c : Container) : PlansKept c c := ⟨fun _ h => h, rfl⟩

theorem PlansKept.trans {c c' c'' : Container} (first : PlansKept c c')
    (second : PlansKept c' c'') : PlansKept c c'' :=
  ⟨fun id h => second.planned id (first.planned id h), second.taken.trans first.taken⟩

theorem PlansKept.pending (kept : PlansKept c c') (h : c.Pending id) : c'.Pending id := by
  apply h.imp (kept.planned id)
  intro taken
  rwa [kept.taken]

theorem plansKept_putState (c : Container) (ccgId : Nat) (state : CCGState) :
    PlansKept c (c.putState ccgId state) := ⟨fun _ h => h, rfl⟩

theorem mem_keys_put {V : Type} {m : SortedMap Nat V} {v : V} :
    id ∈ (m.put k v).keys ↔ id = k ∨ id ∈ m.keys := by
  rw [SortedMap.mem_keys, SortedMap.find?_put, SortedMap.mem_keys]
  by_cases e : id = k <;> simp [e]

section
variable (c : Container)

section
variable (ccgId : Nat)

theorem plansKept_planSwitch (state : CCGState) (now : Time) :
    PlansKept c (c.planSwitch ccgId state now) :=
  ⟨fun _ h => mem_keys_put.2 (Or.inr h), rfl⟩

theorem plansKept_planRecheck (now : Time) : PlansKept c (c.planRecheck ccgId now) :=
  ⟨fun _ h => mem_keys_put.2 (Or.inr h), rfl⟩

theorem setterOf_planRecheck (now : Time) (id : Nat) :
    (c.planRecheck ccgId now).setterOf id = c.setterOf id := rfl

theorem planned_planRecheck (now : Time) : ccgId ∈ (c.planRecheck ccgId now).addRecheckCcgs.keys :=
  mem_keys_put.2 (Or.inl rfl)

theorem setterOf_planSwitch (state : CCGState) (now : Time) (id : Nat) :
    (c.planSwitch ccgId state now).setterOf id =
      if id = ccgId then state.ccgSetter else c.setterOf id := by
  have same : (c.planSwitch ccgId state now).setterOf id =
      (c.putState ccgId (state.fillPlannedServerSwitchTime now)).setterOf id := rfl
  rw [same, setterOf_putState, CCGState.fillPlannedServerSwitchTime_ccgSetter]

end

theorem ite_setterOf (ccgId id : Nat) :
    (if id = ccgId then (c.ccgState ccgId).ccgSetter else c.setterOf id) = c.setterOf id := by
  split
  · next e => rw [setterOf_eq, e]
  · rfl

end

theorem setterOf_firstUse (cfg : Config) (c : Container) (now : Time) (ccgId rand id : Nat) :
    (firstUse cfg c now ccgId rand).setterOf id = c.setterOf id := by
  simp only [firstUse]
  split
  · rw [setterOf_planSwitch]
    exact ite_setterOf c ccgId id
  · rfl

theorem plansKept_firstUse (cfg : Config) (c : Container) (now : Time) (ccgId rand : Nat) :
    PlansKept c (firstUse cfg c now ccgId rand) := by
  simp only [firstUse]
  split
  · exact plansKept_planSwitch c ccgId _ now
  · exact .refl c

theorem setterOf_switched (c : Container) (now : Time) (ccgId index id : Nat) :
    (c.switched now ccgId index).setterOf id = c.setterOf id := by
  simp only [switched]
  split
  · rw [setterOf_planSwitch]
    exact ite_setterOf c ccgId id
  · rw [setterOf_putState]
    exact ite_setterOf c ccgId id

theorem plansKept_switched (c : Container) (now : Time) (ccgId index : Nat) :
    PlansKept c (c.switched now ccgId index) := by
  simp only [switched]
  split
  · exact plansKept_planSwitch c ccgId _ now
  · exact plansKept_putState c ccgId _

theorem plansKept_disable (c : Container) (ccgId index : Nat) (now : Time) :
    PlansKept c (c.disable ccgId index now) :=
  plansKept_putState c ccgId _

theorem setterOf_disable (c : Container) (ccgId index : Nat) (now : Time) (id : Nat) :
    (c.disable ccgId index now).setterOf id = c.setterOf id := by
  simp only [disable, setterOf_putState]
  exact ite_setterOf c ccgId id

section GetServiceIndex

variable {cfg : Config} {c : Container} {now : Time} {ccgId : Nat}

variable (cfg c now ccgId) in
theorem chooseIndex_cases (disabled : DisabledIndexMap) :
    (∃ index, chooseIndex cfg c now ccgId disabled = (some index, c.switched now ccgId index) ∧
      isDisabled disabled index = false) ∨
    (∃ state : CCGState, state.ccgSetter = (c.ccgState ccgId).ccgSetter ∧
      chooseIndex cfg c now ccgId disabled = (none, c.putState ccgId state) ∧
      ∀ j < cfg.billingServers, isDisabled disabled j = true) ∨
    (∃ state : CCGState, state.ccgSetter = (c.ccgState ccgId).ccgSetter ∧
      chooseIndex cfg c now ccgId disabled = (some state.activeIndex, c.putState ccgId state) ∧
      isDisabled disabled state.activeIndex = false) := by
  unfold chooseIndex
  extract_lets state activeIndexIsBad useCount
  by_cases leave : (activeIndexIsBad || useCount > cfg.maxUseCount ||
      now > state.plannedServerSwitchTime) = true
  · rw [if_pos leave]
    cases found : cfg.goodIndex disabled cfg.billingServers state.activeIndex with
    | mk index good =>
      cases good with
      | true => exact Or.inl ⟨index, rfl, cfg.goodIndex_found found⟩
      | false =>
        exact Or.inr (Or.inl ⟨{ state with activeIndex := index, useCount := 1 }, rfl, rfl,
          fun j hj => cfg.goodIndex_none found hj⟩)
  · rw [if_neg leave]
    simp only [Bool.or_eq_true, not_or] at leave
    exact Or.inr (Or.inr ⟨{ state with useCount := useCount }, rfl, rfl, by simpa using leave.1.1⟩)

theorem setterOf_chooseIndex (disabled : DisabledIndexMap) (id : Nat) :
    (chooseIndex cfg c now ccgId disabled).2.setterOf id = c.setterOf id := by
  obtain ⟨index, eq, -⟩ | ⟨state, same, eq, -⟩ | ⟨state, same, eq, -⟩ :=
    chooseIndex_cases cfg c now ccgId disabled
  · rw [eq, setterOf_switched]
  · rw [eq, setterOf_putState, same, ite_setterOf]
  · rw [eq, setterOf_putState, same, ite_setterOf]

theorem plansKept_chooseIndex (disabled : DisabledIndexMap) :
    PlansKept c (chooseIndex cfg c now ccgId disabled).2 := by
  obtain ⟨index, eq, -⟩ | ⟨state, -, eq, -⟩ | ⟨state, -, eq, -⟩ :=
    chooseIndex_cases cfg c now ccgId disabled
  · rw [eq]
    exact plansKept_switched c now ccgId index
  · rw [eq]
    exact plansKept_putState c ccgId state
  · rw [eq]
    exact plansKept_putState c ccgId state

variable {disabledIn : Option DisabledIndexMap} {ccgSetter : Option Nat} {rand : Nat}

/-- A setter that is given is kept for the CCG; the others stay. -/
theorem setterOf_getServiceIndex (id : Nat) :
    (getServiceIndex cfg c now ccgId disabledIn ccgSetter rand).2.setterOf id =
      if id = ccgId then ccgSetter.or (c.setterOf ccgId) else c.setterOf id := by
  simp only [getServiceIndex]
  rw [setterOf_chooseIndex, setterOf_firstUse, setterOf_putState, setterOf_eq c ccgId]

theorem plansKept_getServiceIndex :
    PlansKept c (getServiceIndex cfg c now ccgId disabledIn ccgSetter rand).2 :=
  ((plansKept_putState c ccgId _).trans (plansKept_firstUse cfg _ now ccgId rand)).trans
    (plansKept_chooseIndex _)

/-- None is chosen only when the caller has given up all of them. -/
theorem getServiceIndex_none {bad : DisabledIndexMap}
    (h : (getServiceIndex cfg c now ccgId (some bad) ccgSetter rand).1 = none)
    (hj : j < cfg.billingServers) : isDisabled bad j = true := by
  change (chooseIndex cfg _ now ccgId bad).1 = none at h
  obtain ⟨found, eq, -⟩ | ⟨state, -, -, all⟩ | ⟨state, -, eq, -⟩ := chooseIndex_cases cfg _ now ccgId bad
  · rw [eq] at h
    cases h
  · exact all j hj
  · rw [eq] at h
    cases h

end GetServiceIndex

end Container

end AdServer.BillingClient
