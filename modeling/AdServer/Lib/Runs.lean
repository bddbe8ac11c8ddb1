import Mathlib.Data.Multiset.Bind

/-!
# Runs of a system with calls in progress

A system takes one event at a time; a step answers `none` where its event
cannot happen. The calls in progress are a multiset, and an event lets one of
them go on.
-/

namespace AdServer.Lib.Runs

section Runs

variable {State Event : Type} (step : State → Event → Option State)

def run (s : State) : List Event → Option State
  | [] => some s
  | event :: events => (step s event).bind (run · events)

/-- Every event meets the condition in the state where it happens. -/
def Along (ok : State → Event → Prop) (s : State) : List Event → Prop
  | [] => True
  | event :: events => ok s event ∧ ∀ s' ∈ step s event, Along ok s' events

instance instDecidableAlong (ok : State → Event → Prop) [∀ s event, Decidable (ok s event)] :
    ∀ (s : State) (events : List Event), Decidable (Along step ok s events)
  | _, [] => isTrue trivial
  | s, event :: events =>
    have := fun s' => instDecidableAlong ok s' events
    inferInstanceAs (Decidable (ok s event ∧ ∀ s' ∈ step s event, Along step ok s' events))

variable {step}

variable {ok : State → Event → Prop} {s s' : State} {events : List Event}

theorem along_of_forall (all : ∀ s event, ok s event) (s : State) (events : List Event) :
    Along step ok s events := by
  induction events generalizing s with
  | nil => exact trivial
  | cons event events ih => exact ⟨all s event, fun s' _ => ih s'⟩

theorem along_congr {P Q : State → Event → Prop}
    (same : ∀ {s event s'}, step s event = some s' → (P s event ↔ Q s event))
    (ran : run step s events = some s') : Along step P s events ↔ Along step Q s events := by
  induction events generalizing s with
  | nil => exact Iff.rfl
  | cons event events ih =>
    obtain ⟨after, stepped, rest⟩ := Option.bind_eq_some_iff.1 ran
    simp only [Along, same stepped, stepped, Option.mem_def, Option.some.injEq, forall_eq', ih rest]

theorem run_inv (Inv : State → Prop)
    (keeps : ∀ {s event s'}, Inv s → ok s event → step s event = some s' → Inv s') (inv : Inv s)
    (along : Along step ok s events) (ran : run step s events = some s') : Inv s' := by
  induction events generalizing s with
  | nil =>
    cases ran
    exact inv
  | cons event events ih =>
    obtain ⟨s₁, stepped, rest⟩ := Option.bind_eq_some_iff.1 ran
    exact ih (keeps inv along.1 stepped) (along.2 s₁ stepped) rest

/-- The same for steps that keep the invariant without a condition. -/
theorem run_keeps (Inv : State → Prop)
    (keeps : ∀ {s event s'}, Inv s → step s event = some s' → Inv s') (inv : Inv s)
    (ran : run step s events = some s') : Inv s' :=
  run_inv Inv (fun inv (_ : True) stepped => keeps inv stepped) inv
    (along_of_forall (fun _ _ => trivial) s events) ran

/-- The condition is exact: a property holds in every state of a run if and only if every event
of the run meets the condition. -/
theorem throughout_iff (Inv P : State → Prop) (holds : ∀ {s}, Inv s → P s)
    (keeps : ∀ {s event s'}, Inv s → ok s event → step s event = some s' → Inv s')
    (needs : ∀ {s event s'}, Inv s → step s event = some s' → P s' → ok s event) (inv : Inv s)
    (ran : run step s events = some s') :
    (∀ before after s₁, events = before ++ after → run step s before = some s₁ → P s₁) ↔
      Along step ok s events := by
  induction events generalizing s with
  | nil =>
    refine ⟨fun _ => trivial, fun _ before after s₁ split ran₁ => ?_⟩
    obtain ⟨rfl, rfl⟩ := List.append_eq_nil_iff.1 split.symm
    cases ran₁
    exact holds inv
  | cons event events ih =>
    obtain ⟨s₂, stepped, rest⟩ := Option.bind_eq_some_iff.1 ran
    constructor
    · intro throughout
      have met : ok s event := by
        refine needs inv stepped (throughout [event] events s₂ rfl ?_)
        simp [run, stepped]
      refine ⟨met, fun s₃ stepped' => ?_⟩
      obtain rfl := Option.some.inj (stepped.symm.trans stepped')
      refine (ih (keeps inv met stepped) rest).1 fun before after s₁ split ran₁ => ?_
      refine throughout (event :: before) after s₁ (by rw [split, List.cons_append]) ?_
      rw [run, stepped]
      exact ran₁
    · rintro ⟨met, along⟩ before after s₁ split ran₁
      cases before with
      | nil =>
        cases ran₁
        exact holds inv
      | cons event' before =>
        obtain ⟨rfl, tails⟩ := List.cons.inj split
        rw [run, stepped] at ran₁
        exact (ih (keeps inv met stepped) rest).2 (along s₂ stepped) before after s₁ tails ran₁

end Runs

section Calls

variable {C : Type}

/-- What the calls weigh together. -/
def weigh (weight : C → Nat) (calls : Multiset C) : Nat := (calls.map weight).sum

variable {weight : C → Nat} {call : C} {calls next : Multiset C}

@[simp] theorem weigh_zero : weigh weight 0 = 0 := rfl

@[simp] theorem weigh_cons : weigh weight (call ::ₘ calls) = weight call + weigh weight calls := by
  simp [weigh]

@[simp] theorem weigh_singleton : weigh weight {call} = weight call := by simp [weigh]

@[simp] theorem weigh_add :
    weigh weight (calls + next) = weigh weight calls + weigh weight next := by
  simp [weigh]

theorem weight_le_weigh (member : call ∈ calls) : weight call ≤ weigh weight calls := by
  obtain ⟨rest, rfl⟩ := Multiset.exists_cons_of_mem member
  rw [weigh_cons]
  exact Nat.le_add_right _ _

theorem weigh_le_weigh {weight' : C → Nat} (le : ∀ call, weight call ≤ weight' call)
    (calls : Multiset C) : weigh weight calls ≤ weigh weight' calls := by
  induction calls using Multiset.induction_on with
  | empty => exact le_rfl
  | cons call calls ih =>
    rw [weigh_cons, weigh_cons]
    exact Nat.add_le_add (le call) ih

theorem weigh_eq_zero : weigh weight calls = 0 ↔ ∀ call ∈ calls, weight call = 0 := by
  induction calls using Multiset.induction_on with
  | empty => simp
  | cons call calls ih => rw [weigh_cons, Nat.add_eq_zero_iff, ih, Multiset.forall_mem_cons]

theorem exists_of_weigh_pos (pos : 0 < weigh weight calls) : ∃ call ∈ calls, 0 < weight call := by
  by_contra none_weighs
  push Not at none_weighs
  exact pos.ne' (weigh_eq_zero.2 fun call member => Nat.le_zero.1 (none_weighs call member))

theorem mem_gone_on {other : C} (member : other ∈ call ::ₘ calls) (ne : other ≠ call) :
    other ∈ next + calls :=
  Multiset.mem_add.2 (.inr ((Multiset.mem_cons.1 member).resolve_left ne))

section InHands

variable {A : Type} {inHand : C → Multiset A}

/-- What the calls have in hand together. -/
def inHands (inHand : C → Multiset A) (calls : Multiset C) : Multiset A := calls.bind inHand

@[simp] theorem inHands_zero : inHands inHand 0 = 0 := rfl

@[simp] theorem inHands_cons (call : C) (calls : Multiset C) :
    inHands inHand (call ::ₘ calls) = inHand call + inHands inHand calls :=
  Multiset.cons_bind _ _ _

@[simp] theorem inHands_singleton (call : C) : inHands inHand {call} = inHand call :=
  Multiset.singleton_bind _ _

@[simp] theorem inHands_add (calls next : Multiset C) :
    inHands inHand (calls + next) = inHands inHand calls + inHands inHand next :=
  Multiset.add_bind _ _ _

end InHands

variable [DecidableEq C]

/-- The call goes on as others, or as none. -/
def advance (calls : Multiset C) (call : C) (next : Multiset C) : Multiset C :=
  next + calls.erase call

@[simp] theorem advance_cons : advance (call ::ₘ calls) call next = next + calls := by
  simp [advance]

/-- What the calls share, and the calls in progress. -/
structure World (Shared C : Type) where
  shared : Shared
  calls : Multiset C

/-- One section of a call in progress: it may wait, change what is shared, and go on. -/
def World.goOn {Shared : Type} (section_ : Shared → C → Option (Shared × Multiset C))
    (w : World Shared C) (call : C) : Option (World Shared C) :=
  if call ∈ w.calls then
    (section_ w.shared call).map fun (shared, next) => ⟨shared, advance w.calls call next⟩
  else none

theorem World.goOn_cases {Shared : Type} {section_ : Shared → C → Option (Shared × Multiset C)}
    {w w' : World Shared C} (gone_on : w.goOn section_ call = some w') :
    ∃ rest next, w.calls = call ::ₘ rest ∧ section_ w.shared call = some (w'.shared, next) ∧
      w'.calls = next + rest := by
  simp only [goOn, Option.ite_none_right_eq_some, Option.map_eq_some_iff] at gone_on
  obtain ⟨member, ⟨shared, next⟩, stepped, rfl⟩ := gone_on
  obtain ⟨rest, calls⟩ := Multiset.exists_cons_of_mem member
  exact ⟨rest, next, calls, stepped, by rw [calls, advance_cons]⟩

end Calls

/-- A loop without a condition of its own: each round goes on with a new state or ends the loop
with a result. A measure that every round lowers makes it total. -/
structure Rounds (S R : Type) where
  round : S → S ⊕ R
  measure : S → Nat
  lowers : ∀ s next, round s = .inl next → measure next < measure s

namespace Rounds

variable {S R : Type} (loop : Rounds S R)

def run (s : S) : R :=
  match _h : loop.round s with
  | .inl next => run next
  | .inr result => result
termination_by loop.measure s
decreasing_by exact loop.lowers s next _h

variable {loop} {s next : S} {result : R}

theorem run_of_next (h : loop.round s = .inl next) : loop.run s = loop.run next := by
  rw [run]
  split
  · next other same =>
    rw [h] at same
    cases same
    rfl
  · next other same =>
    rw [h] at same
    cases same

theorem run_of_end (h : loop.round s = .inr result) : loop.run s = result := by
  rw [run]
  split
  · next other same =>
    rw [h] at same
    cases same
  · next other same =>
    rw [h] at same
    cases same
    rfl

end Rounds

end AdServer.Lib.Runs
