import AdServer.BillingClient.Calls

/-!
# Switching a CCG on again

A CCG that billing has switched off is switched on by a later recheck, through
the setter the container keeps for it.
-/

namespace AdServer.BillingClient

open AdServer.Lib Container
open AdServer.Billing (Time)

/-- The last call made on the setter switched it off, for the CCG. -/
def Shared.Off (s : Shared) (setter ccgId : Nat) : Prop :=
  ∃ goalCtr, s.setters.find? setter = some ⟨ccgId, false, goalCtr⟩

/-- The phases of the loop of a call. -/
def Phase.inCall : Phase → Bool
  | .choosing | .calling _ => true
  | _ => false

namespace Call

def phase : Call → Phase
  | check call => call.phase
  | confirm call => call.phase

def ccgId : Call → Nat
  | check call => call.bid.ccgId
  | confirm call => call.bid.ccgId

def ccgSetter : Call → Option Nat
  | check call => call.ccgSetter
  | confirm call => call.ccgSetter

/-- The setter a call gives to `get_service_index_`. -/
def givenSetter : Call → Option Nat
  | check call => call.ccgSetter
  | confirm _ => none

/-- What one section of a call does. -/
inductive StepCases (s s' : Shared) (call call' : Call) : Prop where
  | deactivates (goalCtr : Int) (at_phase : call.phase = .deactivating)
      (done : s' = s.setAvailable call.ccgSetter call.ccgId false goalCtr)
      (next : call'.phase = .planning)
  | keeps (not_deactivating : call.phase ≠ .deactivating) (setters : s'.setters = s.setters)
      (plans : Container.PlansKept s.container s'.container)
      (planned : call.phase = .planning → call.ccgId ∈ s'.container.addRecheckCcgs.keys)
      (stored : ∀ id, s'.container.setterOf id =
        if call.phase = .choosing ∧ id = call.ccgId then
          call.givenSetter.or (s.container.setterOf id)
        else s.container.setterOf id)

variable {cfg : Config} {s s' : Shared} {call call' : Call} {now : Time}

theorem StepCases.same (done : s' = s) (h₁ : call.phase ≠ .deactivating)
    (h₂ : call.phase ≠ .planning) (h₃ : call.phase ≠ .choosing) : StepCases s s' call call' := by
  subst done
  exact .keeps h₁ rfl (.refl _) (fun h => absurd h h₂) (fun id => by simp [h₃])

theorem StepCases.disables {index used : Nat} (at_phase : call.phase = .calling used)
    (done : s' = { s with container := s.container.disable call.ccgId index now }) :
    StepCases s s' call call' := by
  subst done
  refine .keeps (by simp [at_phase]) rfl (plansKept_disable _ _ _ _)
    (by simp [at_phase]) fun id => ?_
  rw [if_neg (by simp [at_phase])]
  exact setterOf_disable _ _ _ _ id

variable {disabledIn : Option DisabledIndexMap} {rand : Nat} {goalCtr : Int}

theorem StepCases.chooses (at_phase : call.phase = .choosing)
    (done : s' = { s with container :=
      (s.container.getServiceIndex cfg now call.ccgId disabledIn call.givenSetter rand).2 }) :
    StepCases s s' call call' := by
  subst done
  refine .keeps (by simp [at_phase]) rfl plansKept_getServiceIndex
    (by simp [at_phase]) fun id => ?_
  rw [setterOf_getServiceIndex]
  by_cases e : id = call.ccgId <;> simp [at_phase, e]

theorem StepCases.deactivation (at_phase : call.phase.inCall = false)
    (done : (s', call'.phase) =
      BillingClient.deactivation s call.phase call.ccgSetter call.ccgId goalCtr now) :
    StepCases s s' call call' := by
  cases phase : call.phase with
  | choosing => simp [phase, Phase.inCall] at at_phase
  | calling index => simp [phase, Phase.inCall] at at_phase
  | deactivating =>
    rw [phase] at done
    obtain ⟨shared, next⟩ := Prod.mk.inj done
    exact .deactivates goalCtr phase shared next
  | planning =>
    rw [phase] at done
    obtain ⟨shared, -⟩ := Prod.mk.inj done
    subst shared
    refine .keeps (by simp [phase]) rfl (plansKept_planRecheck _ _ _)
      (fun _ => planned_planRecheck _ _ _) fun id => ?_
    rw [if_neg (by simp [phase])]
    exact setterOf_planRecheck _ _ _ id
  | finished =>
    rw [phase] at done
    obtain ⟨shared, -⟩ := Prod.mk.inj done
    exact .same shared (by simp [phase]) (by simp [phase]) (by simp [phase])

theorem StepCases.of_phase
    (choosing : call.phase = .choosing → s' = { s with container :=
      (s.container.getServiceIndex cfg now call.ccgId disabledIn call.givenSetter rand).2 })
    (calling : ∀ index, call.phase = .calling index →
      s' = { s with container := s.container.disable call.ccgId index now } ∨ s' = s)
    (left : call.phase.inCall = false → (s', call'.phase) =
      BillingClient.deactivation s call.phase call.ccgSetter call.ccgId goalCtr now) :
    StepCases s s' call call' := by
  cases at_phase : call.phase with
  | choosing => exact .chooses at_phase (choosing at_phase)
  | calling index =>
    obtain disabled | same := calling index at_phase
    · exact .disables at_phase disabled
    · exact .same same (by simp [at_phase]) (by simp [at_phase]) (by simp [at_phase])
  | deactivating | planning | finished =>
    have outside : call.phase.inCall = false := by rw [at_phase]; rfl
    exact .deactivation outside (left outside)

theorem check_step_cases (cfg : Config) (s : Shared) (input : Input) (call : CheckCall) :
    StepCases s (call.step cfg s input).1 (.check call) (.check (call.step cfg s input).2) := by
  apply @StepCases.of_phase cfg s _ (.check call) _ call.bid.time none input.rand call.goalCtr
  · intro at_phase
    change call.phase = .choosing at at_phase
    unfold CheckCall.step
    rw [at_phase]
    simp only []
    split
    · rfl
    · split
      · rfl
      · rfl
  · intro index at_phase
    change call.phase = .calling index at at_phase
    unfold CheckCall.step
    rw [at_phase]
    simp only []
    split
    · exact Or.inl rfl
    · exact Or.inr rfl
  · intro outside
    change call.phase.inCall = false at outside
    change _ = BillingClient.deactivation s call.phase call.ccgSetter call.bid.ccgId _ _
    unfold CheckCall.step
    cases at_phase : call.phase with
    | choosing | calling => simp [at_phase, Phase.inCall] at outside
    | deactivating | planning | finished => rfl

theorem confirm_step_cases (cfg : Config) (s : Shared) (input : Input) (call : ConfirmCall) :
    StepCases s (call.step cfg s input).1 (.confirm call)
      (.confirm (call.step cfg s input).2) := by
  apply @StepCases.of_phase cfg s _ (.confirm call) _ call.bid.time
    (if call.confirmBidInfo.forced then some call.badIndexes else none) input.rand call.goalCtr
  · intro at_phase
    change call.phase = .choosing at at_phase
    unfold ConfirmCall.step
    rw [at_phase]
    simp only []
    split
    · split
      · rfl
      · rfl
    · rfl
  · intro index at_phase
    change call.phase = .calling index at at_phase
    unfold ConfirmCall.step
    rw [at_phase]
    simp only [ConfirmCall.answered]
    split
    · split
      · exact Or.inr rfl
      · exact Or.inl rfl
    · exact Or.inr rfl
  · intro outside
    change call.phase.inCall = false at outside
    change _ = BillingClient.deactivation s call.phase call.ccgSetter call.bid.ccgId _ _
    unfold ConfirmCall.step
    cases at_phase : call.phase with
    | choosing | calling => simp [at_phase, Phase.inCall] at outside
    | deactivating | planning | finished => rfl

theorem step_cases (cfg : Config) (s : Shared) (input : Input) (call : Call) :
    StepCases s (call.step cfg s input).1 call (call.step cfg s input).2 := by
  cases call with
  | check call => exact check_step_cases cfg s input call
  | confirm call => exact confirm_step_cases cfg s input call

theorem ccgId_step (cfg : Config) (s : Shared) (input : Input) (call : Call) :
    (call.step cfg s input).2.ccgId = call.ccgId := by
  cases call with
  | check call =>
    simp only [step, ccgId, CheckCall.step]
    cases call.phase with
    | choosing =>
      simp only []
      split
      · rfl
      · split <;> rfl
    | calling index =>
      simp only []
      split <;> rfl
    | deactivating | planning | finished => rfl
  | confirm call =>
    simp only [step, ccgId, ConfirmCall.step]
    cases call.phase with
    | choosing =>
      simp only []
      split
      · split <;> rfl
      · rfl
    | calling index =>
      simp only [ConfirmCall.answered]
      split
      · split <;> rfl
      · rfl
    | deactivating | planning | finished => rfl

end Call

namespace Client

/-- A call is about to plan the recheck of the CCG it has switched off. -/
def Planning (w : Client) (ccgId : Nat) : Prop :=
  ∃ call ∈ w.calls, call.phase = .planning ∧ call.ccgId = ccgId

/-- Whatever is switched off is to be rechecked, or is about to be, and the
recheck will find its setter. -/
def Reactivable (w : Client) : Prop :=
  ∀ setter ccgId, w.shared.Off setter ccgId →
    (w.shared.container.Pending ccgId ∨ w.Planning ccgId) ∧
      w.shared.container.setterOf ccgId = some setter

/-- The setter kept for the CCG is switched off. -/
def SwitchedOff (w : Client) (ccgId : Nat) : Prop :=
  ∃ setter, w.shared.container.setterOf ccgId = some setter ∧ w.shared.Off setter ccgId

/-- The next section of a call replaces no setter that is switched off, and
switches off no setter but the one kept for its CCG. -/
def CallKeepsSetter (w : Client) (call : Call) : Prop :=
  (call.phase = .choosing → ∀ setter, call.givenSetter = some setter →
    w.SwitchedOff call.ccgId → w.shared.container.setterOf call.ccgId = some setter) ∧
  (call.phase = .deactivating → ∀ setter, call.ccgSetter = some setter →
    w.shared.container.setterOf call.ccgId = some setter)

/-- The section drops no setter that is switched off either. -/
def KeepsSetter (w : Client) : Event → Prop
  | .proceed i _ => ∀ call, w.calls[i]? = some call → w.CallKeepsSetter call
  | .clearCache => ∀ ccgId, ¬ w.SwitchedOff ccgId
  | _ => True

/-- The next pass will take a recheck of the CCG over. -/
def Planned (w : Client) (ccgId : Nat) : Prop :=
  ccgId ∈ w.shared.container.addRecheckCcgs.keys ∨ w.Planning ccgId

/-- A pass that has fetched a setter may erase the recheck of its CCG: what else
is switched off by then is planned anew. -/
def PassInv (w : Client) : Pass → Prop
  | .idle => True
  | .visiting _ _ => True
  | .fetched _ ccgId ccgSetter _ =>
    ∀ setter, w.shared.Off setter ccgId → ccgSetter = some setter ∨ w.Planned ccgId
  | .switched _ ccgId ccgSetter _ =>
    ∀ setter, w.shared.Off setter ccgId → ccgSetter = some setter ∨ w.Planned ccgId
  | .enabled _ ccgId _ => ∀ setter, w.shared.Off setter ccgId → w.Planned ccgId

structure Inv (w : Client) : Prop where
  reactivable : w.Reactivable
  pass : w.PassInv w.pass

variable {w w' : Client} {ccgId : Nat} {cfg : Config} {event : Event}

theorem Planned.pending (h : w.Planned ccgId) :
    w.shared.container.Pending ccgId ∨ w.Planning ccgId :=
  h.imp Or.inl id

theorem Inv.setter_eq (inv : w.Inv) {setter ccgId : Nat} (off : w.shared.Off setter ccgId) :
    w.shared.container.setterOf ccgId = some setter :=
  (inv.reactivable setter ccgId off).2

theorem start_inv : start.Inv := by
  refine ⟨?_, trivial⟩
  rintro setter ccgId ⟨goalCtr, off⟩
  simp [start, SortedMap.find?, SortedMap.empty] at off

/-- What is planned in `w` stays planned in `w'`. -/
structure PlansKept (w w' : Client) : Prop where
  container : Container.PlansKept w.shared.container w'.shared.container
  planning : ∀ ccgId, w.Planning ccgId → w'.Planned ccgId

theorem PlansKept.planned (kept : PlansKept w w') (h : w.Planned ccgId) : w'.Planned ccgId := by
  cases h with
  | inl added => exact Or.inl (kept.container.planned ccgId added)
  | inr planning => exact kept.planning ccgId planning

theorem PlansKept.pending (kept : PlansKept w w')
    (h : w.shared.container.Pending ccgId ∨ w.Planning ccgId) :
    w'.shared.container.Pending ccgId ∨ w'.Planning ccgId := by
  cases h with
  | inl pending => exact Or.inl (kept.container.pending pending)
  | inr planning => exact (kept.planning ccgId planning).pending

/-- Where plans are kept, what is switched off has to be looked at only where it
or its setter changes. -/
theorem inv_of_plansKept (inv : w.Inv) (kept : PlansKept w w') (pass : w'.pass = w.pass)
    (off : ∀ setter ccgId, w'.shared.Off setter ccgId →
      w.shared.Off setter ccgId ∨ w'.Planning ccgId)
    (setters : ∀ setter ccgId, w'.shared.Off setter ccgId →
      w'.shared.container.setterOf ccgId = some setter) :
    w'.Inv := by
  have planned (setter ccgId : Nat) (h : w'.shared.Off setter ccgId)
      {P : Prop} (before : w.shared.Off setter ccgId → P ∨ w.Planned ccgId) :
      P ∨ w'.Planned ccgId := by
    obtain old | new := off setter ccgId h
    · exact (before old).imp id kept.planned
    · exact Or.inr (Or.inr new)
  refine ⟨fun setter ccgId h => ⟨?_, setters setter ccgId h⟩, ?_⟩
  · obtain old | new := off setter ccgId h
    · exact kept.pending (inv.reactivable setter ccgId old).1
    · exact Or.inr new
  · have before := inv.pass
    rw [pass]
    cases at_pass : w.pass with
    | idle => trivial
    | visiting now rest => trivial
    | fetched now ccgId ccgSetter rest =>
      rw [at_pass] at before
      exact fun setter h => planned setter ccgId h (before setter)
    | switched now ccgId ccgSetter rest =>
      rw [at_pass] at before
      exact fun setter h => planned setter ccgId h (before setter)
    | enabled now ccgId rest =>
      rw [at_pass] at before
      intro setter h
      simpa using planned setter ccgId h (P := False) fun old => Or.inr (before setter old)

section Proceed

variable {cfg : Config} {w : Client} {i : Nat} {input : Input} {call : Call}

section
variable (found : w.calls[i]? = some call)
include found

theorem apply_proceed :
    w.apply cfg (.proceed i input) =
      { w with
        shared := (call.step cfg w.shared input).1
        calls := w.calls.set i (call.step cfg w.shared input).2 } := by
  simp only [apply, found]

theorem plansKept_proceed
    (container : Container.PlansKept w.shared.container (call.step cfg w.shared input).1.container)
    (planned : call.phase = .planning → call.ccgId ∈
      (call.step cfg w.shared input).1.container.addRecheckCcgs.keys) :
    PlansKept w (w.apply cfg (.proceed i input)) := by
  rw [apply_proceed found]
  refine ⟨container, fun ccgId planning => ?_⟩
  obtain ⟨other, mem, phase, rfl⟩ := planning
  obtain ⟨j, at_j⟩ := List.mem_iff_getElem?.1 mem
  by_cases same : i = j
  · subst same
    obtain rfl := Option.some.inj (found.symm.trans at_j)
    exact Or.inl (planned phase)
  · refine Or.inr ⟨other, ?_, phase, rfl⟩
    exact List.mem_of_getElem? ((List.getElem?_set_ne same).trans at_j)

theorem mem_proceed :
    (call.step cfg w.shared input).2 ∈ (w.apply cfg (.proceed i input)).calls := by
  rw [apply_proceed found]
  have bound : i < w.calls.length := (List.getElem?_eq_some_iff.1 found).1
  exact List.mem_of_getElem? (List.getElem?_set_self bound)

end

theorem off_setAvailable {s : Shared} {ccgSetter : Option Nat} {ccgId : Nat} {available : Bool}
    {goalCtr : Int} {setter id : Nat}
    (off : (s.setAvailable ccgSetter ccgId available goalCtr).Off setter id) :
    (ccgSetter = some setter ∧ id = ccgId ∧ available = false) ∨
      (ccgSetter ≠ some setter ∧ s.Off setter id) := by
  cases ccgSetter with
  | none => exact Or.inr ⟨by simp, off⟩
  | some given =>
    obtain ⟨goal, found⟩ := off
    simp only [Shared.setAvailable, SortedMap.find?_put] at found
    split at found
    · next e =>
      obtain ⟨rfl, rfl, rfl⟩ := SetCall.mk.inj (Option.some.inj found)
      exact Or.inl ⟨by rw [e], rfl, rfl⟩
    · next ne => exact Or.inr ⟨by simpa using Ne.symm ne, goal, found⟩

theorem proceed_inv (inv : w.Inv) (keeps : w.KeepsSetter (.proceed i input))
    (found : w.calls[i]? = some call) : (w.apply cfg (.proceed i input)).Inv := by
  obtain ⟨no_replacing, no_stranger⟩ := keeps call found
  have shared : (w.apply cfg (.proceed i input)).shared = (call.step cfg w.shared input).1 := by
    rw [apply_proceed found]
  have pass : (w.apply cfg (.proceed i input)).pass = w.pass := by rw [apply_proceed found]
  cases call.step_cases cfg w.shared input with
  | deactivates goalCtr phase done next =>
    have same_container : (call.step cfg w.shared input).1.container = w.shared.container := by
      rw [done]
      cases call.ccgSetter <;> rfl
    have planning : (w.apply cfg (.proceed i input)).Planning call.ccgId :=
      ⟨_, mem_proceed found, next, Call.ccgId_step cfg w.shared input call⟩
    apply inv_of_plansKept inv _ pass
    · intro setter ccgId off
      rw [shared, done] at off
      obtain ⟨-, rfl, -⟩ | ⟨-, before⟩ := off_setAvailable off
      · exact Or.inr planning
      · exact Or.inl before
    · intro setter ccgId off
      rw [shared] at off ⊢
      rw [same_container]
      rw [done] at off
      obtain ⟨given, rfl, -⟩ | ⟨-, before⟩ := off_setAvailable off
      · exact no_stranger phase setter given
      · exact inv.setter_eq before
    · apply plansKept_proceed found
      · rw [same_container]
        exact .refl _
      · simp [phase]
  | keeps not_deactivating setters plans planned stored =>
    have off_same (setter ccgId : Nat)
        (off : (w.apply cfg (.proceed i input)).shared.Off setter ccgId) :
        w.shared.Off setter ccgId := by
      unfold Shared.Off at off ⊢
      rwa [shared, setters] at off
    apply inv_of_plansKept inv (plansKept_proceed found plans planned) pass
    · exact fun setter ccgId off => Or.inl (off_same setter ccgId off)
    · intro setter ccgId off
      have kept := inv.setter_eq (off_same setter ccgId off)
      rw [shared, stored]
      split
      · next chosen =>
        obtain ⟨choosing, rfl⟩ := chosen
        cases given : call.givenSetter with
        | none => rwa [Option.none_or]
        | some new =>
          rw [Option.some_or, ← no_replacing choosing new given
            ⟨setter, kept, off_same setter _ off⟩]
          exact kept
      · exact kept

end Proceed

theorem mem_keys_foldl_put {V : Type} {f : SortedMap Nat V → Nat × V → SortedMap Nat V}
    (puts : ∀ m e, ∃ v, f m e = m.put e.1 v) (l : List (Nat × V)) (m : SortedMap Nat V) {id : Nat} :
    id ∈ (l.foldl f m).keys ↔ id ∈ m.keys ∨ id ∈ l.map Prod.fst := by
  induction l generalizing m with
  | nil => simp
  | cons e rest ih =>
    obtain ⟨v, eq⟩ := puts m e
    rw [List.foldl_cons, ih, eq, mem_keys_put, List.map_cons, List.mem_cons]
    tauto

theorem pending_takePlanned {c : Container} (h : c.Pending ccgId) :
    c.takePlanned.Pending ccgId := by
  apply Or.inr
  simp only [takePlanned]
  rw [mem_keys_foldl_put, mem_keys_foldl_put]
  · cases h with
    | inl added => exact Or.inr added
    | inr taken => exact Or.inl (Or.inl taken)
  · exact fun m e => ⟨_, rfl⟩
  · intro m e
    cases m.find? e.1 with
    | none => exact ⟨_, rfl⟩
    | some target => exact ⟨_, rfl⟩

theorem pass_inv (inv : w.Inv) (time : Time) (rand : Nat) :
    (w.apply cfg (.recheck time rand)).Inv := by
  have before := inv.pass
  -- sections that change neither the setters nor who is kept for whom
  have moves {w' : Client} (calls : w'.calls = w.calls) (setters : w'.shared.setters = w.shared.setters)
      (kept : ∀ id, w'.shared.container.setterOf id = w.shared.container.setterOf id)
      (pending : ∀ id, w.shared.container.Pending id → w'.shared.container.Pending id)
      (pass : w'.PassInv w'.pass) : w'.Inv := by
    refine ⟨fun setter ccgId off => ?_, pass⟩
    have off_before : w.shared.Off setter ccgId := by
      unfold Shared.Off at off ⊢
      rwa [setters] at off
    obtain ⟨planned, keeps⟩ := inv.reactivable setter ccgId off_before
    refine ⟨planned.imp (pending ccgId) ?_, (kept ccgId).trans keeps⟩
    rintro ⟨call, mem, rest⟩
    exact ⟨call, calls ▸ mem, rest⟩
  cases at_pass : w.pass with
  | idle =>
    simp only [apply, at_pass, Pass.step]
    exact moves rfl rfl (fun id => rfl) (fun id => pending_takePlanned) trivial
  | visiting now left =>
    cases left with
    | nil =>
      simp only [apply, at_pass, Pass.step]
      exact moves rfl rfl (fun id => rfl) (fun id h => h) trivial
    | cons entry rest =>
      obtain ⟨ccgId, checkTime⟩ := entry
      simp only [apply, at_pass, Pass.step]
      split
      · refine moves rfl rfl (fun id => ?_) (fun id h => h) ?_
        · exact (setterOf_putState _ _ _ id).trans (ite_setterOf _ _ id)
        · intro setter off
          have kept := inv.setter_eq off
          rw [setterOf_eq] at kept
          exact Or.inl kept
      · exact moves rfl rfl (fun id => rfl) (fun id h => h) trivial
  | fetched now ccgId ccgSetter rest =>
    rw [at_pass] at before
    simp only [apply, at_pass, Pass.step]
    have plans : Container.PlansKept w.shared.container
      (w.shared.container.getServiceIndex cfg now ccgId none none rand).2 :=
        plansKept_getServiceIndex
    refine moves rfl rfl (fun id => ?_) (fun id => plans.pending) ?_
    · rw [setterOf_getServiceIndex, Option.none_or]
      split
      · next e => rw [e]
      · rfl
    · intro setter off
      exact (before setter off).imp id (Or.imp (plans.planned ccgId) id)
  | switched now ccgId ccgSetter rest =>
    rw [at_pass] at before
    simp only [apply, at_pass, Pass.step]
    have same_container : (w.shared.setAvailable ccgSetter ccgId true 0).container =
        w.shared.container := by cases ccgSetter <;> rfl
    have off_before {setter id : Nat}
        (off : (w.shared.setAvailable ccgSetter ccgId true 0).Off setter id) :
        ccgSetter ≠ some setter ∧ w.shared.Off setter id := by
      obtain ⟨-, -, wrong⟩ | old := off_setAvailable off
      · cases wrong
      · exact old
    refine ⟨fun setter id off => ?_, fun setter off => ?_⟩
    · obtain ⟨planned, kept⟩ := inv.reactivable setter id (off_before off).2
      rw [same_container]
      exact ⟨planned, kept⟩
    · -- the setter fetched is on again, so the one that is off is another
      obtain ⟨other, old⟩ := off_before off
      have planned := (before setter old).resolve_left other
      unfold Planned at planned ⊢
      rwa [same_container]
  | enabled now ccgId rest =>
    rw [at_pass] at before
    simp only [apply, at_pass, Pass.step]
    refine ⟨fun setter id off => ?_, trivial⟩
    obtain ⟨planned, kept⟩ := inv.reactivable setter id off
    refine ⟨?_, kept⟩
    by_cases erased : id = ccgId
    · subst erased
      exact (before setter off).imp Or.inl fun planning => planning
    · refine planned.imp (Or.imp (fun added => added) fun taken => ?_) fun planning => planning
      rw [SortedMap.mem_keys] at taken ⊢
      rwa [SortedMap.find?_erase, if_neg erased]

theorem apply_inv (inv : w.Inv) (keeps : w.KeepsSetter event) : (w.apply cfg event).Inv := by
  cases event with
  | checkAvailableBid bid ccgSetter =>
    refine inv_of_plansKept inv ⟨.refl _, ?_⟩ rfl ?_ ?_
    · rintro ccgId ⟨call, mem, rest⟩
      exact Or.inr ⟨call, List.mem_append_left _ mem, rest⟩
    · exact fun setter ccgId off => Or.inl off
    · exact fun setter ccgId off => inv.setter_eq off
  | confirmBid bid accountSpentAmount spentAmount ccgSetter =>
    refine inv_of_plansKept inv ⟨.refl _, ?_⟩ rfl ?_ ?_
    · rintro ccgId ⟨call, mem, rest⟩
      exact Or.inr ⟨call, List.mem_append_left _ mem, rest⟩
    · exact fun setter ccgId off => Or.inl off
    · exact fun setter ccgId off => inv.setter_eq off
  | proceed i input =>
    cases found : w.calls[i]? with
    | none =>
      simp only [apply, found]
      exact inv
    | some call => exact proceed_inv inv keeps found
  | clearCache =>
    -- with no setter switched off there is nothing to keep
    have nothing_off (setter ccgId : Nat) : ¬ w.shared.Off setter ccgId :=
      fun off => keeps ccgId ⟨setter, inv.setter_eq off, off⟩
    refine inv_of_plansKept inv ⟨⟨fun _ h => h, rfl⟩, fun _ h => Or.inr h⟩ rfl ?_ ?_
    · exact fun setter ccgId off => absurd off (nothing_off setter ccgId)
    · exact fun setter ccgId off => absurd off (nothing_off setter ccgId)
  | recheck time rand => exact pass_inv inv time rand

/-- A section that replaces or drops a setter that is switched off, or switches
off another than the one kept, leaves a CCG nothing will switch on. -/
theorem keepsSetter_of_reactivable (after : (w.apply cfg event).Reactivable) :
    w.KeepsSetter event := by
  cases event with
  | checkAvailableBid bid ccgSetter => trivial
  | confirmBid bid accountSpentAmount spentAmount ccgSetter => trivial
  | recheck time rand => trivial
  | clearCache =>
    rintro ccgId ⟨setter, -, off⟩
    obtain ⟨-, kept⟩ := after setter ccgId off
    simp [apply, clearCache, setterOf, SortedMap.find?, SortedMap.empty] at kept
  | proceed i input =>
    intro call found
    have shared : (w.apply cfg (.proceed i input)).shared = (call.step cfg w.shared input).1 := by
      rw [apply_proceed found]
    cases call.step_cases cfg w.shared input with
    | deactivates goalCtr phase done next =>
      refine ⟨fun choosing => by simp [phase] at choosing, fun _ setter given => ?_⟩
      rw [given] at done
      have off : (w.apply cfg (.proceed i input)).shared.Off setter call.ccgId := by
        rw [shared, done]
        refine ⟨goalCtr, ?_⟩
        rw [Shared.setAvailable, SortedMap.find?_put, if_pos rfl]
      obtain ⟨-, kept⟩ := after setter call.ccgId off
      rwa [shared, done] at kept
    | keeps not_deactivating setters plans planned stored =>
      refine ⟨fun choosing setter given => ?_, fun phase => absurd phase not_deactivating⟩
      rintro ⟨present, kept, off⟩
      have off_after : (w.apply cfg (.proceed i input)).shared.Off present call.ccgId := by
        unfold Shared.Off at off ⊢
        rwa [shared, setters]
      obtain ⟨-, kept_after⟩ := after present call.ccgId off_after
      rw [shared, stored, if_pos ⟨choosing, rfl⟩, given, Option.some_or] at kept_after
      rw [kept, kept_after]

theorem run_append (cfg : Config) (w : Client) (taken : List Event) (event : Event) :
    w.run cfg (taken ++ [event]) = (w.run cfg taken).apply cfg event := by
  simp [run]

/-- Every CCG switched off can be switched on again, in every state of a run, if
and only if no section replaces, drops or passes over the setter of a CCG that
is switched off. -/
theorem run_reactivable (cfg : Config) (events : List Event) :
    (∀ taken, taken <+: events → (start.run cfg taken).Reactivable) ↔
      ∀ taken event, taken ++ [event] <+: events → (start.run cfg taken).KeepsSetter event := by
  constructor
  · intro reactivable taken event before
    have after := reactivable (taken ++ [event]) before
    rw [run_append] at after
    exact keepsSetter_of_reactivable after
  · intro keeps taken before
    suffices h : (start.run cfg taken).Inv from h.reactivable
    induction taken using List.reverseRecOn with
    | nil => exact start_inv
    | append_singleton taken event ih =>
      rw [run_append]
      exact apply_inv (ih ((List.prefix_append taken [event]).trans before))
        (keeps taken event before)

end Client

def oneServer : Config where
  billingServers := 1
  maxUseCount := 100
  some_server := by decide

/-- A CCG no bid was checked for is switched off by a confirmation, and a pass
rechecks it when that is due. -/
def confirmThenRecheck : List Event :=
  let bid : BidInfo := ⟨⟨1000000000, 1, 2, 3, 4⟩, 0, false⟩
  [.confirmBid bid 100 ⟨100, 0, 0⟩ (some 7), .proceed 0 {},
    .proceed 0 { confirmed := some ⟨some ⟨false, 0⟩, none⟩ }, .proceed 0 {}, .proceed 0 {}] ++
    List.replicate 6 (.recheck 2000000000 0)

/-- The container never had the setter: it stays off, whatever is rechecked. -/
theorem confirmThenRecheck_staysOff :
    ¬ ∀ (cfg : Config) (events : List Event), (Client.start.run cfg events).Reactivable := by
  intro always
  have off : (Client.start.run oneServer confirmThenRecheck).shared.Off 7 4 := ⟨0, rfl⟩
  obtain ⟨-, kept⟩ := always oneServer confirmThenRecheck 7 4 off
  have none_kept :
      (Client.start.run oneServer confirmThenRecheck).shared.container.setterOf 4 = none := rfl
  rw [none_kept] at kept
  cases kept

end AdServer.BillingClient
