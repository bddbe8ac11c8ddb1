import AdServer.RequestInfo.TagProfiler
import Mathlib.Data.List.Infix
import Mathlib.Data.List.Perm.Basic
import Mathlib.Tactic.Ring

/-!
# The banks of the pool

The scan back finds the bank of a period where there is one. Where there is none
it stands at the right place only before and after all the banks: for a period in
a gap the new bank comes one place too early. The new bank also stays where the
filters leave nothing to be put into it, and the sender asserts that the first
bank holds a request.
-/

namespace AdServer.RequestInfo.TagProfiler

/-- What a bank is to the pool. -/
structure Consistent (world : World) : Prop where
  ascending : world.pool.banks.Pairwise fun a b => a.startTime < b.startTime
  disjoint : world.pool.banks.Pairwise fun a b => a.endTime ≤ b.startTime
  sizes : ∀ bank ∈ world.pool.banks,
    bank.requestsSize = bank.requests.length ∧ 1 ≤ bank.requestsSize
  sum : world.pool.sumRequestsSize = (world.pool.banks.map (·.requestsSize)).sum
  /-- Each request stored is handed out once or is in one bank. -/
  once : world.stored.Perm (world.handedOut ++ world.pool.banks.flatMap (·.requests))

/-- No call of the run fails and every state on the way is consistent. -/
def World.StaysConsistent (settings : Settings) (world : World) : List Call → Prop
  | [] => Consistent world
  | call :: calls => Consistent world ∧
    ∃ next, world.step settings call = some next ∧ next.StaysConsistent settings calls

def Pool.Repeated (settings : Settings) (pool : Pool) (time : Int) (request : Request) :
    Prop :=
  settings.repeatTriggerTimeout ≠ 0 ∧ ∃ bank ∈ pool.banks,
    bank.filters (time - settings.repeatTriggerTimeout)
      (time + settings.repeatTriggerTimeout) request

/-- The call's period has a bank, or it comes before or after all the banks and
some of the requests is no repetition. -/
def Pool.Fits (settings : Settings) (pool : Pool) (now time : Int)
    (requests : List Request) : Prop :=
  let round := timeBankRound settings now
  (∃ bank ∈ pool.banks, bank.startTime < round ∧ round ≤ bank.endTime) ∨
  (((∀ bank ∈ pool.banks, bank.endTime < round) ∨
      ∀ bank ∈ pool.banks, round ≤ bank.startTime) ∧
    ∃ request ∈ requests, ¬ pool.Repeated settings time request)

def Pool.Orderly (settings : Settings) (pool : Pool) : Call → Prop
  | .processTagRequest env now info => ∀ list, requests env info now = some list → list ≠ [] →
    pool.Fits settings now info.time list
  | .getRequestsToProcess _ => True

/-- Every call of the run is orderly for the pool that it meets. -/
def World.OrderlyRun (settings : Settings) (world : World) : List Call → Prop
  | [] => True
  | call :: calls => world.pool.Orderly settings call ∧
    ∀ next, world.step settings call = some next → next.OrderlyRun settings calls

/-! ## Periods -/

def Settings.period (settings : Settings) : Int := settings.bankPeriod * second

variable {settings : Settings} {bank : Bank} {world : World}

theorem Settings.period_pos (positive : 0 < settings.bankPeriod) : 0 < settings.period :=
  Int.mul_pos (by omega) (by decide)

/-- The bank is of one period. -/
def Aligned (settings : Settings) (bank : Bank) : Prop :=
  ∃ k : Int, bank.startTime = k * settings.period ∧
    bank.endTime = k * settings.period + settings.period

theorem timeBankRound_eq (settings : Settings) (time : Int) :
    ∃ k : Int, timeBankRound settings time = k * settings.period + settings.period := by
  refine ⟨(tvSec time).tdiv settings.bankPeriod, ?_⟩
  unfold timeBankRound Settings.period
  ring

theorem new_aligned (settings : Settings) (time : Int) :
    Aligned settings (Bank.new settings (timeBankRound settings time)) := by
  obtain ⟨k, hk⟩ := timeBankRound_eq settings time
  refine ⟨k, ?_, hk⟩
  show timeBankRound settings time - settings.period = _
  omega

theorem Aligned.le_start {a b : Bank} (positive : 0 < settings.period) (ha : Aligned settings a)
    (hb : Aligned settings b) (h : a.endTime < b.endTime) : a.endTime ≤ b.startTime := by
  obtain ⟨k, -, hk⟩ := ha
  obtain ⟨m, hm, hm'⟩ := hb
  have less : k * settings.period < m * settings.period := by omega
  have less : k + 1 ≤ m := by
    have := Int.lt_of_mul_lt_mul_right less (Int.le_of_lt positive)
    omega
  have := Int.mul_le_mul_of_nonneg_right less (Int.le_of_lt positive)
  rw [hk, hm]
  calc k * settings.period + settings.period = (k + 1) * settings.period := by ring
    _ ≤ m * settings.period := this

/-! ## The invariant -/

/-- What holds of the banks, their sum and the requests outside of them. -/
structure Kept (settings : Settings) (stored : List Request) (banks : List Bank) (sum : Nat)
    (out : List Request) : Prop where
  aligned : ∀ bank ∈ banks, Aligned settings bank
  disjoint : banks.Pairwise fun a b => a.endTime ≤ b.startTime
  sizes : ∀ bank ∈ banks, bank.requestsSize = bank.requests.length ∧ 1 ≤ bank.requestsSize
  sum : sum = (banks.map (·.requestsSize)).sum
  once : stored.Perm (out ++ banks.flatMap (·.requests))

def World.Kept (settings : Settings) (world : World) : Prop :=
  TagProfiler.Kept settings world.stored world.pool.banks world.pool.sumRequestsSize
    world.handedOut

variable {settings : Settings} {stored out : List Request} {banks : List Bank} {sum : Nat}

theorem Aligned.start_lt (positive : 0 < settings.period) (h : Aligned settings bank) :
    bank.startTime < bank.endTime := by
  obtain ⟨k, hk, hk'⟩ := h
  omega

theorem World.Kept.consistent (positive : 0 < settings.period) (h : world.Kept settings) :
    Consistent world := by
  refine ⟨?_, h.disjoint, h.sizes, h.sum, h.once⟩
  apply h.disjoint.imp_of_mem
  intro a b ha _ hab
  have := (h.aligned a ha).start_lt positive
  omega

theorem new_kept (settings : Settings) (sent target : Nat) :
    (World.new sent target).Kept settings :=
  ⟨by simp [World.new, Pool.new], .nil, by simp [World.new, Pool.new], rfl, .nil⟩

/-! ## Taking requests out -/

theorem minus_of_le {a b : Nat} (h : b ≤ a) : minus a b = a - b := by
  simp [minus, h]

theorem Kept.tail (h : Kept settings stored (bank :: banks) sum out) :
    bank.requestsSize ≤ sum ∧
    Kept settings stored banks (sum - bank.requestsSize) (bank.requests ++ out) := by
  have total := h.sum
  rw [List.map_cons, List.sum_cons] at total
  refine ⟨by omega, fun b hb => h.aligned b (List.mem_cons_of_mem _ hb),
    (List.pairwise_cons.mp h.disjoint).2, fun b hb => h.sizes b (List.mem_cons_of_mem _ hb),
    by omega, ?_⟩
  apply h.once.trans
  rw [List.flatMap_cons, ← List.append_assoc]
  exact List.perm_append_comm.append_right _

theorem expire_kept (bound : Int) (handedOut : List Request) :
    ∀ (banks : List Bank) (sum : Nat) (process : List Request),
      Kept settings stored banks sum (process ++ handedOut) →
      Kept settings stored (expire bound banks sum process).1 (expire bound banks sum process).2.1
        ((expire bound banks sum process).2.2 ++ handedOut) := by
  intro banks
  induction banks with
  | nil => intro sum process h; exact h
  | cons bank banks ih =>
    intro sum process h
    have size := (h.sizes bank List.mem_cons_self).2
    obtain ⟨le, rest⟩ := h.tail
    unfold expire
    by_cases expired : bank.startTime ≤ bound
    · rw [if_pos expired, if_pos (by omega), minus_of_le le]
      apply ih
      rw [List.append_assoc]
      exact rest
    · rw [if_neg expired]
      exact h

theorem pop_kept (handedOut : List Request) (sendRequests : Nat) :
    ∀ (pool : Pool) (process : List Request),
      Kept settings stored pool.banks pool.sumRequestsSize (process ++ handedOut) →
      ∃ next popped, pool.pop sendRequests process = some (next, popped) ∧
        Kept settings stored next.banks next.sumRequestsSize (popped ++ handedOut) := by
  induction sendRequests with
  | zero => intro pool process h; exact ⟨pool, process, rfl, h⟩
  | succ sendRequests ih =>
    intro pool process h
    unfold Pool.pop
    cases atBanks : pool.banks with
    | nil => exact ⟨pool, process, rfl, h⟩
    | cons bank banks =>
      rw [atBanks] at h
      obtain ⟨size, positive⟩ := h.sizes bank List.mem_cons_self
      cases atRequests : bank.requests with
      | nil => rw [atRequests] at size; simp at size; omega
      | cons request rest =>
        obtain ⟨le, left⟩ := h.tail
        rw [atRequests] at left size
        rw [List.length_cons] at size
        have one : minus bank.requestsSize 1 = rest.length := by
          rw [minus_of_le positive, size]; rfl
        have less : minus pool.sumRequestsSize 1 = pool.sumRequestsSize - 1 :=
          minus_of_le (by omega)
        simp only [atRequests, one, less]
        apply ih
        by_cases empty : rest.length = 0
        · rw [if_pos empty]
          rw [List.length_eq_zero_iff.mp empty] at left
          have : bank.requestsSize = 1 := by omega
          rw [this] at left
          exact left
        · rw [if_neg empty]
          refine ⟨?_, ?_, ?_, ?_, ?_⟩
          · rintro b (_ | ⟨_, hb⟩)
            · exact h.aligned bank List.mem_cons_self
            · exact left.aligned b hb
          · exact List.pairwise_cons.mpr (List.pairwise_cons.mp h.disjoint)
          · rintro b (_ | ⟨_, hb⟩)
            · exact ⟨rfl, by show 1 ≤ rest.length; omega⟩
            · exact left.sizes b hb
          · have := left.sum
            rw [List.map_cons, List.sum_cons]
            show pool.sumRequestsSize - 1 = rest.length + _
            omega
          · apply left.once.trans
            rw [List.flatMap_cons]
            show ((request :: rest) ++ (process ++ handedOut) ++ _).Perm
              (request :: process ++ handedOut ++ (rest ++ _))
            simp only [List.cons_append, ← List.append_assoc]
            apply List.Perm.cons
            apply List.Perm.append_right
            rw [List.append_assoc]
            exact List.perm_append_comm

theorem getRequestsToProcess_kept (h : world.Kept settings) (now : Int) :
    ∃ next, world.step settings (.getRequestsToProcess now) = some next ∧
      next.Kept settings := by
  simp only [World.step, Pool.getRequestsToProcess]
  by_cases none : world.pool.banks = []
  · rw [if_pos none]
    exact ⟨_, rfl, by simpa [World.Kept] using h⟩
  · rw [if_neg none]
    have kept := expire_kept (timeBankRound settings (now - settings.windowSize))
      world.handedOut world.pool.banks world.pool.sumRequestsSize [] h
    have expired : Kept settings world.stored (world.pool.expired settings now).1.banks
        (world.pool.expired settings now).1.sumRequestsSize
        ((world.pool.expired settings now).2 ++ world.handedOut) := by
      unfold Pool.expired
      dsimp only
      split <;> exact kept
    obtain ⟨pool, popped, eq, kept⟩ := pop_kept world.handedOut
      ((world.pool.expired settings now).1.sendRequests settings) _ _ expired
    simp only [eq, Option.map_some]
    refine ⟨_, rfl, kept.aligned, kept.disjoint, kept.sizes, kept.sum, ?_⟩
    exact kept.once.trans (List.perm_append_comm.append_right _)

/-! ## Storing requests -/

theorem scanBack_cases (round : Int) (rev after : List Bank) :
    (∃ later bank earlier, rev = later ++ bank :: earlier ∧
      (∀ b ∈ later, round ≤ b.startTime) ∧ bank.startTime < round ∧
      scanBack round rev after =
        if round ≤ bank.endTime then (some bank, earlier, later.reverse ++ after)
        else (none, earlier, bank :: (later.reverse ++ after))) ∨
    ((∀ b ∈ rev, round ≤ b.startTime) ∧ scanBack round rev after =
      (none, [], rev.reverse ++ after)) := by
  induction rev generalizing after with
  | nil => exact .inr ⟨by simp, rfl⟩
  | cons bank rev ih =>
    unfold scanBack
    by_cases starts : bank.startTime < round
    · exact .inl ⟨[], bank, rev, rfl, by simp, starts, by rw [if_pos starts]; rfl⟩
    · rw [if_neg starts]
      obtain ⟨later, b, earlier, rfl, hlater, hb, eq⟩ | ⟨hrev, eq⟩ := ih (bank :: after)
      · refine .inl ⟨bank :: later, b, earlier, rfl, ?_, hb, by simpa using eq⟩
        rintro c (_ | ⟨_, hc⟩)
        · omega
        · exact hlater c hc
      · refine .inr ⟨?_, by simpa using eq⟩
        rintro c (_ | ⟨_, hc⟩)
        · omega
        · exact hrev c hc

/-- Where the scan ends: at the bank of the period, after or before all the banks,
or at a bank with a gap after it. -/
inductive Found (pool : Pool) (round : Int) : Prop where
  | bank (earlier later : List Bank) (bank : Bank)
    (eq : pool.banks = earlier ++ bank :: later)
    (inside : bank.startTime < round ∧ round ≤ bank.endTime)
    (find : pool.find round = (some bank, earlier.reverse, later))
  | last (all : ∀ bank ∈ pool.banks, bank.endTime < round)
    (find : pool.find round = (none, pool.banks.reverse, []))
  | first (all : ∀ bank ∈ pool.banks, round ≤ bank.startTime)
    (find : pool.find round = (none, [], pool.banks))
  | gap (earlier later : List Bank) (bank : Bank)
    (eq : pool.banks = earlier ++ bank :: later)
    (past : bank.startTime < round ∧ bank.endTime < round)
    (coming : ∀ b ∈ later, round ≤ b.startTime) (some : later ≠ [])
    (find : pool.find round = (none, earlier.reverse, bank :: later))

variable {pool : Pool} {banks earlier later : List Bank} {time : Int} {list : List Request}

theorem Pool.found (positive : 0 < settings.period)
    (aligned : ∀ bank ∈ pool.banks, Aligned settings bank)
    (disjoint : pool.banks.Pairwise fun a b => a.endTime ≤ b.startTime) (round : Int) :
    Found pool round := by
  cases reversed : pool.banks.reverse with
  | nil =>
    have none : pool.banks = [] := List.reverse_eq_nil_iff.mp reversed
    apply Found.last
    · simp [none]
    · simp [Pool.find, none]
  | cons last before =>
    have eq : pool.banks = before.reverse ++ [last] := by
      rw [← List.reverse_reverse pool.banks, reversed, List.reverse_cons]
    by_cases after : last.endTime < round
    · apply Found.last
      · intro bank hbank
        rw [eq] at hbank disjoint
        rcases List.mem_append.mp hbank with hbank | hbank
        · have le := (List.pairwise_append.mp disjoint).2.2 bank hbank last (by simp)
          have := (aligned last (by simp [eq])).start_lt positive
          omega
        · rw [List.mem_singleton.mp hbank]
          exact after
      · simp [Pool.find, reversed, after]
    · have find : pool.find round = scanBack round (last :: before) [] := by
        simp [Pool.find, reversed, after]
      obtain ⟨later, bank, earlier, split, hlater, hbank, scan⟩ | ⟨all, scan⟩ :=
        scanBack_cases round (last :: before) []
      · have banks : pool.banks = earlier.reverse ++ bank :: later.reverse := by
          rw [← List.reverse_reverse pool.banks, reversed, split]
          simp
        rw [scan] at find
        by_cases inside : round ≤ bank.endTime
        · apply Found.bank earlier.reverse later.reverse bank banks ⟨hbank, inside⟩
          simpa [inside] using find
        · apply Found.gap earlier.reverse later.reverse bank banks ⟨hbank, by omega⟩
          · simpa using hlater
          · rintro none
            rw [List.reverse_eq_nil_iff.mp none] at split
            have : last = bank := (List.cons.inj split).1
            subst this
            omega
          · simpa [inside] using find
      · apply Found.first
        · intro bank hbank
          exact all bank (by rw [← reversed]; exact List.mem_reverse.mpr hbank)
        · rw [find, scan, ← reversed]
          simp

theorem mem_filtering {request : Request} :
    request ∈ filtering settings banks time list ↔ request ∈ list ∧
      ¬ (settings.repeatTriggerTimeout ≠ 0 ∧ ∃ bank ∈ banks,
        bank.filters (time - settings.repeatTriggerTimeout)
          (time + settings.repeatTriggerTimeout) request) := by
  unfold filtering
  by_cases timeout : settings.repeatTriggerTimeout = 0
  · simp [timeout]
  · rw [if_neg timeout]
    induction banks generalizing list with
    | nil => simp
    | cons bank banks ih =>
      rw [List.foldl_cons, ih]
      simp [Bank.filterRequests, timeout, and_assoc]

theorem filtering_eq_nil
    (same : ∀ bank, bank.requestFilters ≠ [] → (bank ∈ banks ↔ bank ∈ pool.banks)) :
    filtering settings banks time list = [] ↔
      ∀ request ∈ list, pool.Repeated settings time request := by
  have filters : ∀ {bank : Bank} {a b : Int} {request : Request},
      bank.filters a b request = true → bank.requestFilters ≠ [] := by
    intro bank a b request h none
    simp [Bank.filters, Bank.lowerBound, none] at h
  have repeated : ∀ request, pool.Repeated settings time request ↔
      (settings.repeatTriggerTimeout ≠ 0 ∧ ∃ bank ∈ banks,
        bank.filters (time - settings.repeatTriggerTimeout)
          (time + settings.repeatTriggerTimeout) request) := by
    intro request
    apply and_congr_right
    intro _
    constructor
    · rintro ⟨bank, hbank, h⟩
      exact ⟨bank, (same bank (filters h)).mpr hbank, h⟩
    · rintro ⟨bank, hbank, h⟩
      exact ⟨bank, (same bank (filters h)).mp hbank, h⟩
  rw [List.eq_nil_iff_forall_not_mem]
  apply forall_congr'
  intro request
  rw [mem_filtering, repeated request, not_and, not_not]

theorem kept_add {added : List Request} (time : Int)
    (aligned : ∀ b ∈ earlier ++ bank :: later, Aligned settings b)
    (disjoint : (earlier ++ bank :: later).Pairwise fun a b => a.endTime ≤ b.startTime)
    (sizes : ∀ b ∈ earlier ++ later, b.requestsSize = b.requests.length ∧ 1 ≤ b.requestsSize)
    (size : bank.requestsSize = bank.requests.length ∧ 1 ≤ bank.requestsSize + added.length)
    (total : sum = ((earlier ++ bank :: later).map (·.requestsSize)).sum)
    (once : stored.Perm (out ++ (earlier ++ bank :: later).flatMap (·.requests))) :
    Kept settings (stored ++ added) (earlier ++ bank.add time added :: later)
      (sum + added.length) out := by
  refine ⟨?_, ?_, ?_, ?_, ?_⟩
  · intro b hb
    rcases List.mem_append.mp hb with hb | hb
    · exact aligned b (List.mem_append_left _ hb)
    · rcases List.mem_cons.mp hb with rfl | hb
      · exact aligned bank (by simp)
      · exact aligned b (by simp [hb])
  · rw [List.pairwise_append, List.pairwise_cons] at disjoint ⊢
    refine ⟨disjoint.1, disjoint.2.1, ?_⟩
    rintro a ha b (_ | ⟨_, hb⟩)
    · exact disjoint.2.2 a ha bank (by simp)
    · exact disjoint.2.2 a ha b (List.mem_cons_of_mem _ hb)
  · intro b hb
    rcases List.mem_append.mp hb with hb | hb
    · exact sizes b (List.mem_append_left _ hb)
    · rcases List.mem_cons.mp hb with rfl | hb
      · refine ⟨?_, size.2⟩
        simp [Bank.add, size.1]
      · exact sizes b (List.mem_append_right _ hb)
  · rw [total]
    simp only [List.map_append, List.map_cons, List.sum_append, List.sum_cons, Bank.add]
    omega
  · apply (once.append_right added).trans
    simp only [List.flatMap_append, List.flatMap_cons, Bank.add, List.append_assoc]
    apply List.Perm.append_left
    apply List.Perm.append_left
    apply List.Perm.append_left
    exact List.perm_append_comm

/-- The world after the requests of a call. -/
def World.store (settings : Settings) (world : World) (now time : Int) (list : List Request) :
    World :=
  { world with
    pool := (world.pool.store settings now time list).1
    stored := world.stored ++ (world.pool.store settings now time list).2 }

theorem store_eq (world : World) (now time : Int) (list : List Request)
    {found : Option Bank} {before after : List Bank}
    (find : world.pool.find (timeBankRound settings now) = (found, before, after)) :
    world.store settings now time list =
      let bank := found.getD (Bank.new settings (timeBankRound settings now))
      let left := filtering settings (before.reverse ++ bank :: after) time list
      { world with
        pool := { world.pool with
          banks :=
            before.reverse ++ (if left = [] then bank else bank.add time left) :: after
          sumRequestsSize := world.pool.sumRequestsSize + left.length }
        stored := world.stored ++ left } := by
  simp only [World.store, Pool.store, find]
  split
  · rename_i none
    simp [none]
  · rfl

theorem add_nil (bank : Bank) (time : Int) : bank.add time [] = bank := by
  simp [Bank.add]

/-- The bank of the call's period takes what the filters leave. -/
theorem store_bank_kept (h : world.Kept settings) (now time : Int) (list : List Request)
    (eq : world.pool.banks = earlier ++ bank :: later)
    (find : world.pool.find (timeBankRound settings now) = (some bank, earlier.reverse, later)) :
    (world.store settings now time list).Kept settings := by
  rw [store_eq world now time list find]
  simp only [List.reverse_reverse, Option.getD_some]
  generalize filtering settings _ time list = left
  have placed : (if left = [] then bank else bank.add time left) = bank.add time left := by
    split
    · rename_i none
      rw [none, add_nil]
    · rfl
  rw [placed]
  obtain ⟨aligned, disjoint, sizes, sum, once⟩ := h
  rw [eq] at aligned disjoint sizes sum once
  have size := sizes bank (by simp)
  apply kept_add time aligned disjoint _ ⟨size.1, by omega⟩ sum once
  intro b hb
  apply sizes b
  rcases List.mem_append.mp hb with hb | hb
  · exact List.mem_append_left _ hb
  · exact List.mem_append_right _ (List.mem_cons_of_mem _ hb)

/-- A new bank between the banks before and after its period is kept if something
is put into it. -/
theorem store_new (h : world.Kept settings) (now time : Int) (list : List Request)
    (earlier later : List Bank) (eq : world.pool.banks = earlier ++ later)
    (find : world.pool.find (timeBankRound settings now) = (none, earlier.reverse, later))
    (before : ∀ b ∈ earlier, b.endTime ≤ timeBankRound settings now - settings.period)
    (after : ∀ b ∈ later, timeBankRound settings now ≤ b.startTime) :
    ((∃ request ∈ list, ¬ world.pool.Repeated settings time request) →
      (world.store settings now time list).Kept settings) ∧
    ((∀ request ∈ list, world.pool.Repeated settings time request) →
      ¬ Consistent (world.store settings now time list)) := by
  rw [store_eq world now time list find]
  simp only [List.reverse_reverse, Option.getD_none]
  have same : ∀ bank : Bank, bank.requestFilters ≠ [] →
      (bank ∈ earlier ++ Bank.new settings (timeBankRound settings now) :: later ↔
        bank ∈ world.pool.banks) := by
    rintro bank markers
    have other : bank ≠ Bank.new settings (timeBankRound settings now) := by
      rintro rfl
      exact markers rfl
    simp [eq, other]
  have empty := @filtering_eq_nil settings world.pool _ time list same
  generalize filtering settings _ time list = left at empty ⊢
  constructor
  · rintro ⟨request, hrequest, fresh⟩
    have some : left ≠ [] := by
      rintro none
      exact fresh (empty.mp none request hrequest)
    rw [if_neg some]
    obtain ⟨aligned, disjoint, sizes, sum, once⟩ := h
    rw [eq] at aligned disjoint sizes sum once
    apply kept_add time
    · intro b hb
      rcases List.mem_append.mp hb with hb | hb
      · exact aligned b (List.mem_append_left _ hb)
      · rcases List.mem_cons.mp hb with rfl | hb
        · exact new_aligned settings now
        · exact aligned b (List.mem_append_right _ hb)
    · rw [List.pairwise_append] at disjoint
      rw [List.pairwise_append, List.pairwise_cons]
      refine ⟨disjoint.1, ⟨after, disjoint.2.1⟩, ?_⟩
      rintro a ha b (_ | ⟨_, hb⟩)
      · exact before a ha
      · exact disjoint.2.2 a ha b hb
    · exact sizes
    · refine ⟨rfl, ?_⟩
      have := List.length_pos_iff.mpr some
      omega
    · rw [sum]
      simp [Bank.new]
    · simpa [Bank.new] using once
  · intro repeated consistent
    rw [if_pos (empty.mpr repeated)] at consistent
    have := (consistent.sizes (Bank.new settings (timeBankRound settings now)) (by simp)).2
    simp [Bank.new] at this

/-- In a gap the new bank comes before the bank that ends before it. -/
theorem store_gap (now time : Int) (list : List Request)
    (past : bank.startTime < timeBankRound settings now)
    (find : world.pool.find (timeBankRound settings now) = (none, earlier.reverse, bank :: later)) :
    ¬ Consistent (world.store settings now time list) := by
  rw [store_eq world now time list find]
  simp only [List.reverse_reverse, Option.getD_none]
  generalize filtering settings _ time list = left
  intro consistent
  have disjoint := consistent.disjoint
  rw [List.pairwise_append, List.pairwise_cons] at disjoint
  have le := disjoint.2.1.1 bank List.mem_cons_self
  have ends : (if left = [] then Bank.new settings (timeBankRound settings now)
      else (Bank.new settings (timeBankRound settings now)).add time left).endTime =
      timeBankRound settings now := by
    split <;> rfl
  omega

section
variable (positive : 0 < settings.period)
include positive

/-- After the requests of a call the invariant holds or the banks are not
consistent, by whether the call fits. -/
theorem store_fits (h : world.Kept settings) (now time : Int) (list : List Request) :
    (world.pool.Fits settings now time list →
      (world.store settings now time list).Kept settings) ∧
    (¬ world.pool.Fits settings now time list →
      ¬ Consistent (world.store settings now time list)) := by
  have fresh : (¬ ∃ request ∈ list, ¬ world.pool.Repeated settings time request) →
      ∀ request ∈ list, world.pool.Repeated settings time request := by
    intro none request hrequest
    by_contra fresh
    exact none ⟨request, hrequest, fresh⟩
  cases Pool.found positive h.aligned h.disjoint (timeBankRound settings now) with
  | bank earlier later bank eq inside find =>
    constructor
    · rintro -
      exact store_bank_kept h now time list eq find
    · rintro unfit
      exact absurd (.inl ⟨bank, by simp [eq], inside⟩) unfit
  | last all find =>
    have before : ∀ b ∈ world.pool.banks,
        b.endTime ≤ timeBankRound settings now - settings.period := by
      intro b hb
      exact (h.aligned b hb).le_start positive (new_aligned settings now) (all b hb)
    obtain ⟨kept, broken⟩ := store_new h now time list _ [] (List.append_nil _).symm find
      before (by simp)
    constructor
    · rintro (⟨b, hb, -, le⟩ | ⟨-, fresh⟩)
      · have := all b hb
        omega
      · exact kept fresh
    · rintro unfit
      apply broken
      apply fresh
      intro some
      exact unfit (.inr ⟨.inl all, some⟩)
  | first all find =>
    obtain ⟨kept, broken⟩ := store_new h now time list [] _ (List.nil_append _).symm find
      (by simp) all
    constructor
    · rintro (⟨b, hb, less, -⟩ | ⟨-, fresh⟩)
      · have := all b hb
        omega
      · exact kept fresh
    · rintro unfit
      apply broken
      apply fresh
      intro some
      exact unfit (.inr ⟨.inr all, some⟩)
  | gap earlier later bank eq past coming some find =>
    have disjoint := h.disjoint
    rw [eq, List.pairwise_append] at disjoint
    refine ⟨?_, fun _ => store_gap now time list past.1 find⟩
    rintro (⟨b, hb, less, le⟩ | ⟨all | all, -⟩)
    · rw [eq] at hb
      rcases List.mem_append.mp hb with hb | hb
      · have := disjoint.2.2 b hb bank List.mem_cons_self
        omega
      · rcases List.mem_cons.mp hb with rfl | hb
        · omega
        · have := coming b hb
          omega
    · obtain ⟨b, later, rfl⟩ := List.exists_cons_of_ne_nil some
      have less := all b (by simp [eq])
      have le := coming b List.mem_cons_self
      have := (h.aligned b (by simp [eq])).start_lt positive
      omega
    · have := all bank (by simp [eq])
      omega

/-! ## Runs -/

/-- One call from a state with the invariant: it keeps the invariant if the call is
orderly, and leaves banks that are not consistent if it is not. -/
theorem step_orderly (h : world.Kept settings) (call : Call) :
    ∃ next, world.step settings call = some next ∧
      (world.pool.Orderly settings call → next.Kept settings) ∧
      (¬ world.pool.Orderly settings call → ¬ Consistent next) := by
  cases call with
  | getRequestsToProcess now =>
    obtain ⟨next, step, kept⟩ := getRequestsToProcess_kept h now
    exact ⟨next, step, fun _ => kept, fun unfit => absurd trivial unfit⟩
  | processTagRequest env now info =>
    have nothing : (requests env info now = none ∨ requests env info now = some []) →
        ∃ next, world.step settings (.processTagRequest env now info) = some next ∧
          (world.pool.Orderly settings (.processTagRequest env now info) →
            next.Kept settings) ∧
          (¬ world.pool.Orderly settings (.processTagRequest env now info) →
            ¬ Consistent next) := by
      intro empty
      refine ⟨world, ?_, fun _ => h, ?_⟩
      · rcases empty with none | none <;> simp [World.step, Pool.processTagRequest, none]
      · intro unfit
        apply absurd _ unfit
        rcases empty with none | none <;> simp [Pool.Orderly, none]
    cases built : requests env info now with
    | none => exact nothing (.inl built)
    | some list =>
      cases list with
      | nil => exact nothing (.inr built)
      | cons request rest =>
        have orderly : world.pool.Orderly settings (.processTagRequest env now info) ↔
            world.pool.Fits settings now info.time (request :: rest) := by
          simp [Pool.Orderly, built]
        rw [orderly]
        refine ⟨world.store settings now info.time (request :: rest), ?_,
          store_fits positive h now info.time (request :: rest)⟩
        simp [World.step, Pool.processTagRequest, built, World.store]

theorem staysConsistent_iff_of_kept (h : world.Kept settings) (calls : List Call) :
    world.StaysConsistent settings calls ↔ world.OrderlyRun settings calls := by
  induction calls generalizing world with
  | nil => exact ⟨fun _ => trivial, fun _ => h.consistent positive⟩
  | cons call calls ih =>
    obtain ⟨next, step, kept, broken⟩ := step_orderly positive h call
    constructor
    · rintro ⟨-, next', step', stays⟩
      rw [step] at step'
      cases step'
      have consistent : Consistent next := by
        cases calls with
        | nil => exact stays
        | cons => exact stays.1
      have orderly : world.pool.Orderly settings call := by
        by_contra unfit
        exact broken unfit consistent
      refine ⟨orderly, ?_⟩
      intro next' step'
      rw [step] at step'
      cases step'
      exact (ih (kept orderly)).mp stays
    · rintro ⟨orderly, rest⟩
      exact ⟨h.consistent positive, next, step, (ih (kept orderly)).mpr (rest next step)⟩

end

/-- The pool stays consistent over exactly the runs in which no call opens a bank in
a gap or for requests that are all repetitions. -/
theorem staysConsistent_iff (settings : Settings) (positive : 0 < settings.bankPeriod)
    (sent target : Nat) (calls : List Call) :
    (World.new sent target).StaysConsistent settings calls ↔
      (World.new sent target).OrderlyRun settings calls :=
  staysConsistent_iff_of_kept (Settings.period_pos positive)
    (new_kept settings sent target) calls

theorem World.StaysConsistent.run {calls : List Call} (h : world.StaysConsistent settings calls) :
    ∃ last, world.run settings calls = some last ∧ Consistent last := by
  induction calls generalizing world with
  | nil => exact ⟨world, rfl, h⟩
  | cons call calls ih =>
    obtain ⟨-, next, step, stays⟩ := h
    obtain ⟨last, run, consistent⟩ := ih stays
    exact ⟨last, by rw [World.run, step, Option.bind_some, run], consistent⟩

/-- A visit of one url at a time of the clock. -/
def visit (now : Int) : Call :=
  .processTagRequest ⟨some, fun _ url => url.length⟩ (now * second)
    ⟨0, some "user", 1, "site", [], "agent", true⟩

theorem oneVisit_staysConsistent :
    (World.new 0 0).StaysConsistent ⟨10, 500 * second, 100, 0⟩
      [visit 5, .getRequestsToProcess (600 * second)] := by
  apply (staysConsistent_iff ⟨10, 500 * second, 100, 0⟩ (by decide) 0 0 _).mpr
  refine ⟨?_, fun _ _ => ⟨trivial, fun _ _ => trivial⟩⟩
  rintro list built -
  have : list = [⟨0, 5 * second, "user", 1, "site", "agent", 4⟩] := by
    apply Option.some.inj
    rw [← built]
    decide
  subst this
  refine .inr ⟨.inl (by simp [World.new, Pool.new]), _, List.mem_cons_self, ?_⟩
  rintro ⟨timeout, -⟩
  exact timeout rfl

/-- A late clock opens its bank in a gap, before the earlier bank. A repetition
alone opens a bank that stays empty, and the sender then fails on it. -/
theorem lateClock_not_staysConsistent :
    ¬ (World.new 0 0).StaysConsistent ⟨10, 500 * second, 100, 0⟩
      [visit 5, visit 25, visit 15] ∧
    ¬ (World.new 0 0).StaysConsistent ⟨10, 500 * second, 100, 60 * second⟩
      [visit 5, visit 15] ∧
    (World.new 0 0).run ⟨10, 500 * second, 100, 60 * second⟩
      [visit 5, visit 15, .getRequestsToProcess (16 * second),
        .getRequestsToProcess (17 * second)] = none := by
  refine ⟨?_, ?_, by decide +kernel⟩
  · intro stays
    obtain ⟨last, run, consistent⟩ := stays.run
    have starts : ((World.new 0 0).run ⟨10, 500 * second, 100, 0⟩
        [visit 5, visit 25, visit 15]).map (·.pool.banks.map (·.startTime)) =
        some [10 * second, 0, 20 * second] := by decide +kernel
    rw [run, Option.map_some, Option.some.injEq] at starts
    have ascending := List.pairwise_map.mpr consistent.ascending
    rw [starts] at ascending
    revert ascending
    decide
  · intro stays
    obtain ⟨last, run, consistent⟩ := stays.run
    have sizes : ((World.new 0 0).run ⟨10, 500 * second, 100, 60 * second⟩
        [visit 5, visit 15]).map (·.pool.banks.map (·.requestsSize)) =
        some [1, 0] := by decide +kernel
    rw [run, Option.map_some, Option.some.injEq] at sizes
    have empty : 0 ∈ last.pool.banks.map (·.requestsSize) := by simp [sizes]
    obtain ⟨bank, hbank, zero⟩ := List.mem_map.mp empty
    have := (consistent.sizes bank hbank).2
    omega

end AdServer.RequestInfo.TagProfiler
