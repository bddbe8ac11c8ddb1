import AdServer.BillingClient.Calls
import Mathlib.Algebra.BigOperators.Group.List.Basic
import Mathlib.Algebra.Group.Prod

/-!
# Spend a confirmation drops

A call of `co_confirm_bid`, in any run of the client, up to its return.
-/

namespace AdServer.BillingClient

open AdServer.Lib
open AdServer.Billing (Time Counts)

/-- What an answer leaves of the request. -/
def Sent.remainder (s : Sent) : Option (Int × Counts) :=
  (s.reply.bind ConfirmBidResponse.bid).map ConfirmBidInfo.amounts

/-- What the server recorded: the request less the remainder. -/
def Sent.recorded (s : Sent) : Int × Counts :=
  match s.remainder with
  | some remainder => s.request.amounts - remainder
  | none => 0

/-- The remainder is no larger than the request. -/
def Sent.Within (s : Sent) : Prop :=
  ∀ remainder, s.remainder = some remainder →
    remainder.1 ≤ s.request.amounts.1 ∧ (s.request.amounts.2 - remainder.2).Nonneg

namespace ConfirmCall

def requested (call : ConfirmCall) : Int × Counts := (call.accountSpentAmount, call.spentAmount)

def recorded (call : ConfirmCall) : Int × Counts := (call.sent.map Sent.recorded).sum

def unrecorded (call : ConfirmCall) : Int × Counts := call.confirmBidInfo.amounts

/-- The server failed a forced request of the call. -/
def FailedForced (call : ConfirmCall) (index : Nat) : Prop :=
  ∃ s ∈ call.sent, s.index = index ∧ s.request.forced = true ∧ s.reply = none

/-- No spend is dropped: all of it is recorded unless every server has failed,
and what an answer leaves is what the next request carries. -/
structure KeepsSpend (servers : Nat) (call : ConfirmCall) : Prop where
  balanced : call.recorded + call.unrecorded = call.requested
  complete : call.unrecorded ≠ 0 → ∀ index < servers, call.FailedForced index
  carriedOn : ∀ (k : Nat) (s : Sent) (remainder : Int × Counts), call.sent[k]? = some s →
    s.remainder = some remainder → remainder ≠ 0 →
      ∃ next, call.sent[k + 1]? = some next ∧ next.request.amounts = remainder

/-- No server left a remainder. -/
def LeftNothing (call : ConfirmCall) : Prop :=
  ∀ s ∈ call.sent, ∀ remainder, s.remainder = some remainder → remainder = 0

end ConfirmCall

/-- The servers' answers have a result and what remains of the request. -/
def Input.InFull (input : Input) : Prop :=
  ∀ response, input.confirmed = some response →
    response.result.isSome = true ∧ response.bid.isSome = true

def Event.InFull : Event → Prop
  | .proceed _ input => input.InFull
  | _ => True

def Phase.inLoop : Phase → Bool
  | .choosing | .calling _ => true
  | _ => false

namespace ConfirmCall

/-- No request of the call has been answered. -/
def Unanswered (call : ConfirmCall) : Prop := ∀ s ∈ call.sent, s.reply = none

/-- The loop is left with every forced request failed, or with an answer. -/
def Left (servers : Nat) (call : ConfirmCall) : Prop :=
  (call.Unanswered ∧ ∀ index < servers, call.FailedForced index) ∨
    ∃ failed last, call.sent = failed ++ [last] ∧ (∀ s ∈ failed, s.reply = none) ∧
      last.remainder = some call.unrecorded

/-- What a call keeps. -/
structure Inv (servers : Nat) (call : ConfirmCall) : Prop where
  balanced : call.recorded + call.unrecorded = call.requested
  failed : ∀ index, isDisabled call.badIndexes index = true → call.FailedForced index
  looping : call.phase.inLoop = true → call.Unanswered
  left : call.phase.inLoop = false → call.Left servers

theorem isDisabled_insertNew {disabled : DisabledIndexMap} {index j : Nat} {now : Time} :
    isDisabled (disabled.insertNew index now) j = true ↔
      j = index ∨ isDisabled disabled j = true := by
  unfold isDisabled
  rw [SortedMap.find?_insertNew]
  by_cases e : j = index
  · subst e
    cases disabled.find? j <;> simp
  · simp [e]

variable {index servers : Nat} {call call' : ConfirmCall} {s : Sent}

theorem recorded_append (h : call'.sent = call.sent ++ [s]) :
    call'.recorded = call.recorded + s.recorded := by
  simp [recorded, h]

theorem FailedForced.append (failed : call.FailedForced index) (h : call'.sent = call.sent ++ [s]) :
    call'.FailedForced index := by
  obtain ⟨t, mem, rest⟩ := failed
  exact ⟨t, by simp [h, mem], rest⟩

theorem inv_fresh (servers : Nat) (bid : BidInfo) (accountSpentAmount : Int) (spentAmount : Counts)
    (ccgSetter : Option Nat) :
    Inv servers { bid, accountSpentAmount, spentAmount, ccgSetter } where
  balanced := by
    change ([] : List (Int × Counts)).sum + _ = _
    rw [List.sum_nil, zero_add]
    rfl
  failed := by
    intro index h
    simp [isDisabled, SortedMap.find?, SortedMap.empty] at h
  looping := by
    intro _ s hs
    simp at hs
  left := by
    intro h
    simp [Phase.inLoop] at h

section
variable (inv : call.Inv servers)
include inv

theorem inv_failed (looping : call.phase.inLoop = true)
    (sent : call'.sent = call.sent ++ [⟨index, call.confirmBidInfo, none⟩])
    (info : call'.confirmBidInfo = call.confirmBidInfo)
    (arguments : call'.requested = call.requested)
    (bad : ∀ j, isDisabled call'.badIndexes j = true →
      (j = index ∧ call.confirmBidInfo.forced = true) ∨ isDisabled call.badIndexes j = true)
    (phase : call'.phase.inLoop = true) : call'.Inv servers where
  balanced := by
    have nothing : Sent.recorded ⟨index, call.confirmBidInfo, none⟩ = 0 := rfl
    rw [recorded_append sent, nothing, add_zero, arguments, unrecorded, info]
    exact inv.balanced
  failed := by
    intro j h
    obtain ⟨rfl, forced⟩ | before := bad j h
    · exact ⟨⟨j, call.confirmBidInfo, none⟩, by simp [sent], rfl, forced, rfl⟩
    · exact (inv.failed j before).append sent
  looping := by
    intro _ s hs
    rw [sent] at hs
    cases List.mem_append.1 hs with
    | inl before => exact inv.looping looping s before
    | inr new =>
      obtain rfl := List.mem_singleton.1 new
      rfl
  left := by simp [phase]

theorem inv_answered (looping : call.phase.inLoop = true) {response : ConfirmBidResponse}
    {info : ConfirmBidInfo} (bid : response.bid = some info)
    (sent : call'.sent = call.sent ++ [⟨index, call.confirmBidInfo, some response⟩])
    (remains : call'.confirmBidInfo = info) (arguments : call'.requested = call.requested)
    (bad : call'.badIndexes = call.badIndexes) (phase : call'.phase.inLoop = false) :
    call'.Inv servers where
  balanced := by
    have part : Sent.recorded ⟨index, call.confirmBidInfo, some response⟩ =
        call.unrecorded - info.amounts := by
      simp [Sent.recorded, Sent.remainder, bid, unrecorded]
    have rest : call'.unrecorded = info.amounts := by rw [unrecorded, remains]
    rw [recorded_append sent, part, arguments, rest, add_assoc, sub_add_cancel]
    exact inv.balanced
  failed := by
    intro j h
    rw [bad] at h
    exact (inv.failed j h).append sent
  looping := by simp [phase]
  left := by
    intro _
    refine Or.inr ⟨call.sent, _, sent, inv.looping looping, ?_⟩
    simp [Sent.remainder, bid, unrecorded, remains]

/-- A section that sends nothing and stays where it is in or out of the loop. -/
theorem inv_silent (sent : call'.sent = call.sent)
    (amounts : call'.confirmBidInfo.amounts = call.confirmBidInfo.amounts)
    (arguments : call'.requested = call.requested) (bad : call'.badIndexes = call.badIndexes)
    (phase : call'.phase.inLoop = call.phase.inLoop) : call'.Inv servers := by
  have failed_same (j : Nat) : call'.FailedForced j ↔ call.FailedForced j := by
    unfold FailedForced
    rw [sent]
  have unanswered_same : call'.Unanswered ↔ call.Unanswered := by
    unfold Unanswered
    rw [sent]
  have unrecorded_same : call'.unrecorded = call.unrecorded := amounts
  refine ⟨?_, ?_, ?_, ?_⟩
  · rw [recorded, sent, unrecorded_same, arguments]
    exact inv.balanced
  · intro j h
    rw [bad] at h
    exact (failed_same j).2 (inv.failed j h)
  · rw [phase]
    exact fun h => unanswered_same.2 (inv.looping h)
  · rw [phase]
    intro h
    have left := inv.left h
    unfold Left at left ⊢
    rw [unanswered_same, unrecorded_same, sent]
    simpa only [failed_same] using left

theorem inv_gaveUp (looping : call.phase.inLoop = true)
    (all : ∀ j < servers, isDisabled call.badIndexes j = true) : call.leaveLoop.Inv servers where
  balanced := inv.balanced
  failed := inv.failed
  looping := by
    intro h
    simp only [leaveLoop] at h
    split at h <;> simp [Phase.inLoop] at h
  left := fun _ => Or.inl ⟨inv.looping looping, fun j hj => inv.failed j (all j hj)⟩

end

theorem inLoop_leaveLoop (call : ConfirmCall) : call.leaveLoop.phase.inLoop = false := by
  simp only [leaveLoop]
  split <;> rfl

theorem step_inv {cfg : Config} {s : Shared} {input : Input} (inv : call.Inv cfg.billingServers)
    (full : input.InFull) : (call.step cfg s input).2.Inv cfg.billingServers := by
  unfold step
  cases phase : call.phase with
  | choosing =>
    have looping : call.phase.inLoop = true := by rw [phase]; rfl
    simp only []
    split
    · next noIndex =>
      by_cases forced : call.confirmBidInfo.forced
      · simp only [forced, if_true] at noIndex ⊢
        exact inv_gaveUp inv looping fun j hj => Container.getServiceIndex_none noIndex hj
      · simp only [forced, Bool.false_eq_true, if_false]
        exact inv_silent inv rfl rfl rfl rfl (by rw [phase])
    · next index _ =>
      exact inv_silent inv rfl rfl rfl rfl looping.symm
  | calling index =>
    have looping : call.phase.inLoop = true := by rw [phase]; rfl
    simp only [answered]
    cases reply : input.confirmed with
    | none =>
      by_cases forced : call.confirmBidInfo.forced
      · simp only [Option.filter_none, forced, if_true]
        refine inv_failed inv looping rfl rfl rfl (fun j h => ?_) rfl
        exact (isDisabled_insertNew.1 h).imp (fun e => ⟨e, forced⟩) id
      · simp only [Option.filter_none, forced, Bool.false_eq_true, if_false]
        exact inv_failed inv looping rfl rfl rfl (fun j h => Or.inr h) rfl
    | some response =>
      obtain ⟨has_result, has_bid⟩ := full response reply
      obtain ⟨info, bid⟩ := Option.isSome_iff_exists.1 has_bid
      simp only [Option.filter_some, has_result, Bool.or_true, if_true]
      exact inv_answered inv looping bid rfl (by simp [leaveLoop, bid]) rfl rfl
        (inLoop_leaveLoop _)
  | deactivating => exact inv_silent inv rfl rfl rfl rfl (by rw [phase]; rfl)
  | planning => exact inv_silent inv rfl rfl rfl rfl (by rw [phase]; rfl)
  | finished => exact inv_silent inv rfl rfl rfl rfl (by rw [phase]; rfl)

end ConfirmCall

/-- The invariant of all the confirmations of a client. -/
def Client.ConfirmInv (cfg : Config) (w : Client) : Prop :=
  ∀ call, Call.confirm call ∈ w.calls → call.Inv cfg.billingServers

theorem Client.apply_confirmInv {cfg : Config} {w : Client} (inv : w.ConfirmInv cfg)
    {event : Event} (full : event.InFull) : (w.apply cfg event).ConfirmInv cfg := by
  intro call mem
  cases event with
  | checkAvailableBid bid ccgSetter =>
    simp only [apply, List.mem_append, List.mem_singleton, reduceCtorEq, or_false] at mem
    exact inv call mem
  | confirmBid bid accountSpentAmount spentAmount ccgSetter =>
    simp only [apply, List.mem_append, List.mem_singleton, Call.confirm.injEq] at mem
    obtain before | rfl := mem
    · exact inv call before
    · exact ConfirmCall.inv_fresh _ _ _ _ _
  | proceed i input =>
    simp only [apply] at mem
    split at mem
    · exact inv call mem
    · next present eq =>
      obtain before | stepped := List.mem_or_eq_of_mem_set mem
      · exact inv call before
      · cases present with
        | check other => simp [Call.step] at stepped
        | confirm other =>
          obtain rfl := Call.confirm.inj stepped
          exact ConfirmCall.step_inv (inv other (List.mem_of_getElem? eq)) full
  | clearCache => exact inv call mem
  | recheck time rand => exact inv call mem

theorem Client.run_confirmInv {cfg : Config} {w : Client} (inv : w.ConfirmInv cfg)
    {events : List Event} (full : ∀ event ∈ events, event.InFull) :
    (w.run cfg events).ConfirmInv cfg := by
  induction events generalizing w with
  | nil => exact inv
  | cons event rest ih =>
    exact ih (apply_confirmInv inv (full event (by simp)))
      (fun later h => full later (by simp [h]))

/-- When a call returns no spend has been dropped if and only if no server left
it a remainder: the first answer ends the loop, whatever it leaves. -/
theorem confirmBid_keepsSpend {cfg : Config} {events : List Event}
    (full : ∀ event ∈ events, event.InFull) {call : ConfirmCall}
    (mem : Call.confirm call ∈ (Client.start.run cfg events).calls)
    (returned : call.phase = .finished) :
    call.KeepsSpend cfg.billingServers ↔ call.LeftNothing := by
  have start : Client.start.ConfirmInv cfg := by
    intro call h
    simp [Client.start] at h
  have inv := Client.run_confirmInv start full call mem
  have left := inv.left (by rw [returned]; rfl)
  constructor
  · intro kept s hs remainder answer
    by_contra nonzero
    obtain ⟨k, bound, at_k⟩ := List.mem_iff_getElem.1 hs
    have found : call.sent[k]? = some s := by rw [← at_k, List.getElem?_eq_getElem bound]
    obtain ⟨next, after, -⟩ := kept.carriedOn k s remainder found answer nonzero
    obtain ⟨unanswered, -⟩ | ⟨failed, last, sent, unanswered, -⟩ := left
    · simp [Sent.remainder, unanswered s hs] at answer
    · -- an answered request is the last one
      have later : k + 1 < call.sent.length := (List.getElem?_eq_some_iff.1 after).1
      have early : k < failed.length := by
        rw [sent, List.length_append, List.length_singleton] at later
        omega
      have among : s ∈ failed := by
        rw [sent, List.getElem?_append_left early] at found
        exact List.mem_of_getElem? found
      simp [Sent.remainder, unanswered s among] at answer
  · intro nothing
    refine ⟨inv.balanced, ?_, ?_⟩
    · intro nonzero
      obtain ⟨-, failed⟩ | ⟨failed, last, sent, -, remains⟩ := left
      · exact failed
      · exact absurd (nothing last (by simp [sent]) _ remains) nonzero
    · intro k s remainder found answer nonzero
      exact absurd (nothing s (List.mem_of_getElem? found) remainder answer) nonzero

def twoServers : Config where
  billingServers := 2
  maxUseCount := 100
  some_server := by decide

def smallBid : BidInfo := ⟨⟨1000000000, 1, 2, 3, 4⟩, 0, false⟩

/-- A spend of 100 is confirmed, and the first server that is called replies. -/
def confirmHundred (replies : List (Option ConfirmBidResponse)) : List Event :=
  .confirmBid smallBid 100 ⟨100, 0, 0⟩ (some 7) ::
    replies.flatMap (fun reply => [.proceed 0 {}, .proceed 0 { confirmed := reply }]) ++
      [.proceed 0 {}, .proceed 0 {}]

def leaving (available : Bool) (amount : Int) : ConfirmBidResponse :=
  ⟨some ⟨available, 0⟩, some (confirmBidRequest smallBid amount ⟨amount, 0, 0⟩)⟩

theorem confirmHundred_inFull (replies : List (Option ConfirmBidResponse))
    (full : ∀ reply ∈ replies, ∀ response, reply = some response →
      response.result.isSome = true ∧ response.bid.isSome = true) :
    ∀ event ∈ confirmHundred replies, event.InFull := by
  intro event mem
  simp only [confirmHundred, List.cons_append, List.mem_cons, List.mem_append, List.mem_flatMap,
    List.not_mem_nil, or_false] at mem
  have silent : Input.InFull {} := fun response none_replied => by cases none_replied
  obtain rfl | ⟨reply, given, rfl | rfl⟩ | rfl | rfl := mem
  · exact trivial
  · exact silent
  · exact full reply given
  · exact silent
  · exact silent

/-- The first server fails, the second one records everything. -/
def recordedBySecond : ConfirmCall where
  bid := smallBid
  accountSpentAmount := 100
  spentAmount := ⟨100, 0, 0⟩
  ccgSetter := some 7
  confirmBidInfo := confirmBidRequest smallBid 0 ⟨0, 0, 0⟩
  available := true
  phase := .finished
  sent := [⟨0, confirmBidRequest smallBid 100 ⟨100, 0, 0⟩, none⟩,
    ⟨1, confirmBidRequest smallBid 100 ⟨100, 0, 0⟩, some (leaving true 0)⟩]

theorem recordedBySecond_keepsSpend : recordedBySecond.KeepsSpend 2 := by
  have full := confirmHundred_inFull [none, some (leaving true 0)] (by
    intro reply mem response eq
    subst eq
    simp only [List.mem_cons, reduceCtorEq, Option.some.injEq, List.not_mem_nil, or_false,
      false_or] at mem
    subst mem
    exact ⟨rfl, rfl⟩)
  apply (@confirmBid_keepsSpend twoServers _ full recordedBySecond (List.mem_singleton.2 rfl) rfl).2
  intro s hs remainder answer
  simp only [recordedBySecond, List.mem_cons, List.not_mem_nil, or_false] at hs
  obtain rfl | rfl := hs
  · cases answer
  · exact (Option.some.inj answer).symm

/-- A server records one half and has no budget for the other. -/
def halfRecorded : ConfirmCall where
  bid := smallBid
  accountSpentAmount := 100
  spentAmount := ⟨100, 0, 0⟩
  ccgSetter := some 7
  confirmBidInfo := confirmBidRequest smallBid 50 ⟨50, 0, 0⟩
  phase := .finished
  sent := [⟨0, confirmBidRequest smallBid 100 ⟨100, 0, 0⟩, some (leaving false 50)⟩]

/-- The other half is dropped, with the second server never asked. -/
theorem halfRecorded_dropped :
    ¬ ∀ (cfg : Config) (events : List Event) (call : ConfirmCall),
      (∀ event ∈ events, event.InFull) →
      Call.confirm call ∈ (Client.start.run cfg events).calls → call.phase = .finished →
      (∀ s ∈ call.sent, s.Within) → call.KeepsSpend cfg.billingServers := by
  intro always
  have full := confirmHundred_inFull [some (leaving false 50)] (by
    intro reply mem response eq
    subst eq
    obtain rfl := Option.some.inj (List.mem_singleton.1 mem)
    exact ⟨rfl, rfl⟩)
  have within : ∀ s ∈ halfRecorded.sent, s.Within := by
    intro s hs remainder answer
    obtain rfl := List.mem_singleton.1 hs
    obtain rfl := Option.some.inj answer
    decide
  have kept := always twoServers _ halfRecorded full (List.mem_singleton.2 rfl) rfl within
  obtain ⟨s, hs, -, forced, -⟩ := kept.complete (by decide) 0 (by decide)
  obtain rfl := List.mem_singleton.1 hs
  exact Bool.false_ne_true forced

end AdServer.BillingClient
