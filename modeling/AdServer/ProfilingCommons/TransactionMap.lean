import AdServer.Lib.Runs
import Mathlib.Algebra.Ring.Int.Defs

/-!
# The map of open transactions

A key that has transactions has a holder: a lock, the count of transactions that
live or wait for it, and a count of references. The call that takes the last
reference away erases the entry of the holder's key under the lock of the
portion.

A thread waits in the constructor of its transaction, a coroutine before it
creates one. The constructors do not fail, so a creation fails before it. The
counts do not overflow, and the lock is taken by any call that waits while it is
free.
-/

namespace AdServer.ProfilingCommons

open AdServer.Lib.Runs

variable {Key : Type}

/-- Which `TransactionHolder` it is: its key, and how many were made before. -/
structure Holder (Key : Type) where
  key : Key
  id : Nat
  deriving DecidableEq

/-- The references to a holder, `lock_count_`, and whether `lock_` is owned. -/
structure HolderState where
  refs : Nat := 0
  lockCount : Int := 0
  locked : Bool := false

/-- The entries of `open_transaction_map`, the holders, how many were made, and the portions whose
lock is never freed. -/
structure TransactionsState (Key : Type) where
  openTransactionMap : Key → Option Nat := fun _ => none
  holders : Holder Key → HolderState := fun _ => {}
  created : Nat := 0
  stuck : List Nat := []

inductive Caller where
  /-- `get_transaction`. -/
  | thread
  /-- `co_get_transaction`. -/
  | coroutine
  deriving DecidableEq

/-- A call or a transaction, by what it does next. -/
inductive TransactionCall (Key : Type) where
  /-- Before the lock of the portion. -/
  | getting (caller : Caller) (key : Key) (checkMaxWaiters : Bool)
  /-- Before it throws `MaxWaitersReached`. -/
  | refusing (holder : Holder Key)
  /-- `get_transaction`, before `create_transaction_impl_`. -/
  | creating (holder : Holder Key)
  /-- It waits for the holder's lock. -/
  | locking (caller : Caller) (holder : Holder Key)
  /-- `co_get_transaction` with the lock, before `create_transaction_impl_`. -/
  | creatingLocked (holder : Holder Key)
  /-- A transaction, before its destructor. -/
  | live (holder : Holder Key)
  /-- Its destructor after the count, before the members; and a call that failed with the lock. -/
  | unlocking (holder : Holder Key)
  | unlockingFailed (holder : Holder Key)
  /-- A call that failed, before it takes itself off the count. -/
  | uncounting (holder : Holder Key)
  /-- Before its reference is taken away. -/
  | releasing (holder : Holder Key)
  /-- It waits for the lock of the portion that it owns itself. -/
  | deadlocked (holder : Holder Key)
  deriving DecidableEq

/-- What the code called by a section does: it succeeds, or it fails to allocate the holder, to
create the transaction, or to insert into the map. -/
inductive Outcome where
  | succeeds
  | holderFails
  | creationFails
  | insertionFails
  deriving DecidableEq

abbrev TransactionsWorld (Key : Type) := World (TransactionsState Key) (TransactionCall Key)

/-- `max_waiters_ != 0 && lock_count >= max_waiters_`; a negative count converts to one above every
limit. -/
def HolderState.reached (holder : HolderState) (maxWaiters : Nat) : Prop :=
  maxWaiters ≠ 0 ∧ (holder.lockCount < 0 ∨ maxWaiters ≤ holder.lockCount)

instance (holder : HolderState) (maxWaiters : Nat) : Decidable (holder.reached maxWaiters) :=
  inferInstanceAs (Decidable (_ ∧ _))

namespace TransactionsState

variable [DecidableEq Key]

def setHolder (s : TransactionsState Key) (holder : Holder Key) (state : HolderState) :
    TransactionsState Key :=
  { s with holders := Function.update s.holders holder state }

@[simp] theorem setHolder_self (s : TransactionsState Key) (holder : Holder Key)
    (state : HolderState) : (s.setHolder holder state).holders holder = state := by
  simp [setHolder]

@[simp] theorem setHolder_other (s : TransactionsState Key) {holder other : Holder Key}
    (ne : other ≠ holder) (state : HolderState) :
    (s.setHolder holder state).holders other = s.holders other := by
  simp [setHolder, ne]

/-- `close_i_`. -/
def close (s : TransactionsState Key) (key : Key) : TransactionsState Key :=
  { s with openTransactionMap := Function.update s.openTransactionMap key none }

/-- The key has no entry: a new holder. -/
def getNew (s : TransactionsState Key) (portion : Nat) (caller : Caller) (key : Key)
    (outcome : Outcome) : Option (TransactionsState Key × Multiset (TransactionCall Key)) :=
  let holder : Holder Key := ⟨key, s.created⟩
  let made := { s with created := s.created + 1 }
  let inserted := { made with
    openTransactionMap := Function.update s.openTransactionMap key (some holder.id) }
  match outcome, caller with
  | .holderFails, _ => some (s, 0)
  | .succeeds, .thread =>
    some (inserted.setHolder holder ⟨2, 1, true⟩, {.live holder, .releasing holder})
  | .creationFails, .thread =>
    some (made.setHolder holder ⟨1, 1, false⟩, {.releasing holder})
  -- The transaction is destroyed in the scope of the guard, and takes its reference away there.
  | .insertionFails, .thread =>
    some ({ made.setHolder holder ⟨2, 0, false⟩ with stuck := portion :: s.stuck },
      {.deadlocked holder})
  | .succeeds, .coroutine =>
    some (inserted.setHolder holder ⟨1, 1, false⟩, {.locking .coroutine holder})
  | .creationFails, .coroutine => none
  | .insertionFails, .coroutine =>
    some (made.setHolder holder ⟨1, 1, false⟩, {.releasing holder})

/-- The key has an entry. -/
def getOpened (s : TransactionsState Key) (maxWaiters : Nat) (caller : Caller) (holder : Holder Key)
    (checkMaxWaiters : Bool) : TransactionsState Key × Multiset (TransactionCall Key) :=
  let found := s.holders holder
  if checkMaxWaiters ∧ found.reached maxWaiters then
    (s.setHolder holder { found with refs := found.refs + 1 }, {.refusing holder})
  else
    (s.setHolder holder { found with
        refs := found.refs + 1
        lockCount := found.lockCount + 1 },
      match caller with
      | .thread => {.creating holder}
      | .coroutine => {.locking .coroutine holder})

theorem getOpened_refusing_iff (s : TransactionsState Key) (maxWaiters : Nat) (caller : Caller)
    (holder : Holder Key) (checkMaxWaiters : Bool) :
    (∃ other, .refusing other ∈ (s.getOpened maxWaiters caller holder checkMaxWaiters).2) ↔
      checkMaxWaiters = true ∧ (s.holders holder).reached maxWaiters := by
  by_cases refused : checkMaxWaiters = true ∧ (s.holders holder).reached maxWaiters
  · simp [getOpened, refused]
  · cases caller <;> simp [getOpened, refused]

/-- `remove_ref_no_delete_`. -/
def removeRef (s : TransactionsState Key) (holder : Holder Key) : TransactionsState Key :=
  let removed := s.setHolder holder { s.holders holder with refs := (s.holders holder).refs - 1 }
  if (removed.holders holder).refs = 0 then removed.close holder.key else removed

end TransactionsState

open TransactionsState

variable [DecidableEq Key]

/-- `getPortion` is `get_portion_`. -/
def transactionSection (maxWaiters : Nat) (getPortion : Key → Nat) (outcome : Outcome)
    (s : TransactionsState Key) :
    TransactionCall Key → Option (TransactionsState Key × Multiset (TransactionCall Key))
  | .getting caller key checkMaxWaiters =>
    if getPortion key ∈ s.stuck then none
    else match s.openTransactionMap key with
      | none => s.getNew (getPortion key) caller key outcome
      | some id =>
        if outcome = .succeeds then some (s.getOpened maxWaiters caller ⟨key, id⟩ checkMaxWaiters)
        else none
  | .refusing holder => some (s, {.releasing holder})
  | .creating holder =>
    match outcome with
    | .succeeds =>
      some (s.setHolder holder { s.holders holder with refs := (s.holders holder).refs + 1 },
        {.locking .thread holder})
    | .creationFails => some (s, {.uncounting holder})
    | _ => none
  | .locking caller holder =>
    if (s.holders holder).locked then none
    else
      some (s.setHolder holder { s.holders holder with locked := true },
        match caller with
        | .thread => {.live holder, .releasing holder}
        | .coroutine => {.creatingLocked holder})
  | .creatingLocked holder =>
    match outcome with
    | .succeeds =>
      some (s.setHolder holder { s.holders holder with refs := (s.holders holder).refs + 1 },
        {.live holder, .releasing holder})
    | .creationFails => some (s, {.unlockingFailed holder})
    | _ => none
  | .live holder =>
    some (s.setHolder holder { s.holders holder with
      lockCount := (s.holders holder).lockCount - 1 }, {.unlocking holder})
  | .unlocking holder =>
    some (s.setHolder holder { s.holders holder with locked := false }, {.releasing holder})
  | .unlockingFailed holder =>
    some (s.setHolder holder { s.holders holder with locked := false }, {.uncounting holder})
  | .uncounting holder =>
    some (s.setHolder holder { s.holders holder with
      lockCount := (s.holders holder).lockCount - 1 }, {.releasing holder})
  | .releasing holder =>
    if getPortion holder.key ∈ s.stuck then none else some (s.removeRef holder, 0)
  | .deadlocked _ => none

inductive TransactionEvent (Key : Type) where
  | get (caller : Caller) (key : Key) (checkMaxWaiters : Bool)
  | goesOn (call : TransactionCall Key) (outcome : Outcome)
  /-- A coroutine is destroyed, or gets an exception, while it waits for the lock. -/
  | cancel (holder : Holder Key)

def TransactionsWorld.step (maxWaiters : Nat) (getPortion : Key → Nat)
    (w : TransactionsWorld Key) : TransactionEvent Key → Option (TransactionsWorld Key)
  | .get caller key checkMaxWaiters =>
    some { w with calls := .getting caller key checkMaxWaiters ::ₘ w.calls }
  | .goesOn call outcome => w.goOn (transactionSection maxWaiters getPortion outcome) call
  | .cancel holder =>
    if .locking .coroutine holder ∈ w.calls then
      some ⟨w.shared, advance w.calls (.locking .coroutine holder) {.uncounting holder}⟩
    else none

def TransactionsWorld.start : TransactionsWorld Key := ⟨{}, 0⟩

namespace TransactionCall

def holder : TransactionCall Key → Option (Holder Key)
  | .getting .. => none
  | .refusing holder | .creating holder | .locking _ holder | .creatingLocked holder
  | .live holder | .unlocking holder | .unlockingFailed holder | .uncounting holder
  | .releasing holder | .deadlocked holder => some holder

/-- The references that it has: of a thread that waits, also that of its transaction. -/
def refs : TransactionCall Key → Nat
  | .getting .. => 0
  | .locking .thread _ | .deadlocked _ => 2
  | _ => 1

/-- It is a transaction that lives or is waited for. -/
def counts : TransactionCall Key → Nat
  | .creating _ | .locking .. | .creatingLocked _ | .live _ | .unlockingFailed _
  | .uncounting _ => 1
  | _ => 0

/-- It owns the lock of its holder. -/
def owns : TransactionCall Key → Nat
  | .creatingLocked _ | .live _ | .unlocking _ | .unlockingFailed _ => 1
  | _ => 0

/-- A weight, of calls with this holder only. -/
def atHolder (weight : TransactionCall Key → Nat) (holder : Holder Key)
    (call : TransactionCall Key) : Nat :=
  if call.holder = some holder then weight call else 0

/-- A weight, of calls with a holder of this key only. -/
def atKey (weight : TransactionCall Key → Nat) (key : Key) (call : TransactionCall Key) : Nat :=
  if call.holder.map Holder.key = some key then weight call else 0

end TransactionCall

/-- Each key has one holder, which has an entry while there is a reference to it; its lock has one
owner at most; its count is that of the transactions that live or are waited for, and a call is
refused where this has reached the limit. -/
structure OneTransaction (maxWaiters : Nat) (getPortion : Key → Nat) (w : TransactionsWorld Key) :
    Prop where
  exclusive : ∀ key, weigh (TransactionCall.atKey TransactionCall.owns key) w.calls ≤ 1
  shared : ∀ call ∈ w.calls, ∀ call' ∈ w.calls, ∀ holder ∈ call.holder, ∀ holder' ∈ call'.holder,
    holder.key = holder'.key → holder = holder'
  opened : ∀ holder, w.shared.openTransactionMap holder.key = some holder.id ↔
    0 < weigh (TransactionCall.atHolder TransactionCall.refs holder) w.calls
  counted : ∀ holder, (w.shared.holders holder).lockCount =
    weigh (TransactionCall.atHolder TransactionCall.counts holder) w.calls
  refused : ∀ outcome caller key checkMaxWaiters s' next,
    transactionSection maxWaiters getPortion outcome w.shared
      (.getting caller key checkMaxWaiters) = some (s', next) →
    ((∃ holder, .refusing holder ∈ next) ↔ checkMaxWaiters = true ∧ maxWaiters ≠ 0 ∧
      maxWaiters ≤ weigh (TransactionCall.atKey TransactionCall.counts key) w.calls)

/-- Under the lock of the portion nothing fails after the holder is made. -/
def Inserted : TransactionEvent Key → Prop
  | .goesOn (.getting ..) outcome => outcome ≠ .creationFails ∧ outcome ≠ .insertionFails
  | _ => True

instance : ∀ event : TransactionEvent Key, Decidable (Inserted event)
  | .goesOn (.getting ..) _ => inferInstanceAs (Decidable (_ ∧ _))
  | .goesOn (.refusing _) _ | .goesOn (.creating _) _ | .goesOn (.locking ..) _
  | .goesOn (.creatingLocked _) _ | .goesOn (.live _) _ | .goesOn (.unlocking _) _
  | .goesOn (.unlockingFailed _) _ | .goesOn (.uncounting _) _ | .goesOn (.releasing _) _
  | .goesOn (.deadlocked _) _ | .get .. | .cancel _ => inferInstanceAs (Decidable True)

/-- What the sections keep. -/
structure TransactionsKept (s : TransactionsState Key) (calls : Multiset (TransactionCall Key)) :
    Prop where
  refs : ∀ holder, (s.holders holder).refs =
    weigh (TransactionCall.atHolder TransactionCall.refs holder) calls
  counted : ∀ holder, (s.holders holder).lockCount =
    weigh (TransactionCall.atHolder TransactionCall.counts holder) calls
  locked : ∀ holder, (s.holders holder).locked.toNat =
    weigh (TransactionCall.atHolder TransactionCall.owns holder) calls
  opened : ∀ holder, s.openTransactionMap holder.key = some holder.id ↔
    0 < (s.holders holder).refs
  fresh : ∀ holder, s.created ≤ holder.id → (s.holders holder).refs = 0

namespace TransactionCall

variable {weight : TransactionCall Key → Nat} {holder : Holder Key} {call : TransactionCall Key}

theorem atHolder_of_eq (same : call.holder = some holder) :
    call.atHolder weight holder = weight call := if_pos same

theorem atHolder_of_ne (other : call.holder ≠ some holder) : call.atHolder weight holder = 0 :=
  if_neg other

omit [DecidableEq Key] in
theorem counts_le_refs (call : TransactionCall Key) : call.counts ≤ call.refs := by
  cases call with
  | locking caller _ => cases caller <;> simp [counts, refs]
  | _ => simp [counts, refs]

omit [DecidableEq Key] in
theorem owns_le_refs (call : TransactionCall Key) : call.owns ≤ call.refs := by
  cases call with
  | locking caller _ => cases caller <;> simp [owns, refs]
  | _ => simp [owns, refs]

omit [DecidableEq Key] in
theorem refs_pos_iff (call : TransactionCall Key) : 0 < call.refs ↔ call.holder ≠ none := by
  cases call with
  | locking caller _ => cases caller <;> simp [holder, refs]
  | _ => simp [holder, refs]

theorem atHolder_le_refs (le : ∀ call : TransactionCall Key, weight call ≤ call.refs)
    (call : TransactionCall Key) : call.atHolder weight holder ≤ call.atHolder refs holder := by
  unfold atHolder
  split_ifs
  · exact le call
  · exact le_rfl

end TransactionCall

open TransactionCall

namespace TransactionsKept

variable {s s' : TransactionsState Key} {calls rest next : Multiset (TransactionCall Key)}
variable {call : TransactionCall Key} {holder : Holder Key}
variable {weight : TransactionCall Key → Nat}

theorem entry (kept : TransactionsKept s calls) (member : call ∈ calls)
    (is_holder : call.holder = some holder) :
    s.openTransactionMap holder.key = some holder.id := by
  rw [kept.opened, kept.refs]
  calc 0 < call.refs := call.refs_pos_iff.2 (by simp [is_holder])
    _ = call.atHolder TransactionCall.refs holder :=
      (atHolder_of_eq is_holder).symm
    _ ≤ _ := weight_le_weigh member

theorem weigh_unreferenced (kept : TransactionsKept s calls)
    (le : ∀ call : TransactionCall Key, weight call ≤ call.refs)
    (unreferenced : (s.holders holder).refs = 0) :
    weigh (atHolder weight holder) calls = 0 := by
  refine Nat.le_zero.1 (le_trans (weigh_le_weigh (atHolder_le_refs le) calls) ?_)
  rw [← kept.refs, unreferenced]

variable {key : Key} {call' : TransactionCall Key} {state : HolderState}

theorem weigh_key (kept : TransactionsKept s calls) {id : Nat}
    (entry : s.openTransactionMap key = some id) :
    weigh (atKey weight key) calls =
      weigh (atHolder weight ⟨key, id⟩) calls := by
  refine congrArg Multiset.sum (Multiset.map_congr rfl fun call member => ?_)
  unfold atKey atHolder
  cases is_holder : call.holder with
  | none => simp
  | some holder =>
    have opened := kept.entry member is_holder
    obtain ⟨key', id'⟩ := holder
    by_cases same : key' = key
    · subst same
      obtain rfl := Option.some.inj (opened.symm.trans entry)
      simp
    · simp [same]

theorem weigh_closed (kept : TransactionsKept s calls) (closed : s.openTransactionMap key = none) :
    weigh (atKey weight key) calls = 0 := by
  refine weigh_eq_zero.2 fun call member => if_neg fun is_key => ?_
  obtain ⟨holder, is_holder, rfl⟩ := Option.map_eq_some_iff.1 is_key
  rw [kept.entry member is_holder] at closed
  cases closed

/-- What goes on has this holder, or none before. -/
structure Concerns (holder : Holder Key) (call : TransactionCall Key)
    (next : Multiset (TransactionCall Key)) : Prop where
  before : call.holder = none ∨ call.holder = some holder
  after : ∀ call' ∈ next, call'.holder = some holder

omit [DecidableEq Key] in
theorem Concerns.one (before : call.holder = none ∨ call.holder = some holder)
    (after : call'.holder = some holder) : Concerns holder call {call'} where
  before := before
  after _ member := Multiset.mem_singleton.1 member ▸ after

omit [DecidableEq Key] in
theorem Concerns.two {call' call'' : TransactionCall Key}
    (before : call.holder = none ∨ call.holder = some holder)
    (after' : call'.holder = some holder) (after'' : call''.holder = some holder) :
    Concerns holder call {call', call''} where
  before := before
  after := by
    rintro other member
    obtain rfl | member := Multiset.mem_cons.1 member
    · exact after'
    · exact Multiset.mem_singleton.1 member ▸ after''

section
variable (concerns : Concerns holder call next)
include concerns

theorem Concerns.weigh_next :
    weigh (atHolder weight holder) next = weigh weight next :=
  congrArg Multiset.sum (Multiset.map_congr rfl fun call' member =>
    atHolder_of_eq (concerns.after call' member))

theorem Concerns.weigh_moved (rest : Multiset (TransactionCall Key))
    (le : ∀ call : TransactionCall Key, weight call ≤ call.refs) :
    weigh (atHolder weight holder) (next + rest) + weight call =
      weigh (atHolder weight holder) (call ::ₘ rest) + weigh weight next := by
  have same : call.atHolder weight holder = weight call := by
    obtain is_none | is_holder := concerns.before
    · have unreferenced : ¬0 < call.refs := fun pos => (call.refs_pos_iff.1 pos) is_none
      have := le call
      rw [atHolder_of_ne (by simp [is_none])]
      omega
    · exact atHolder_of_eq is_holder
  rw [weigh_add, weigh_cons, concerns.weigh_next, same]
  omega

theorem Concerns.weigh_other {other : Holder Key} (ne : other ≠ holder) :
    weigh (atHolder weight other) (next + rest) =
      weigh (atHolder weight other) (call ::ₘ rest) := by
  have before : call.atHolder weight other = 0 := by
    refine atHolder_of_ne fun is_other => ?_
    obtain is_none | is_holder := concerns.before
    · rw [is_none] at is_other
      cases is_other
    · exact ne (Option.some.inj (is_other.symm.trans is_holder))
  have after : weigh (atHolder weight other) next = 0 :=
    weigh_eq_zero.2 fun call' member => atHolder_of_ne fun is_other =>
      ne (Option.some.inj (is_other.symm.trans (concerns.after call' member)))
  rw [weigh_add, weigh_cons, before, after]

end

/-- The call goes on, what it weighs moves with it, and the other holders stay. -/
theorem goOn (kept : TransactionsKept s (call ::ₘ rest)) (concerns : Concerns holder call next)
    (others : ∀ other ≠ holder, s'.holders other = s.holders other)
    (refs : (s'.holders holder).refs + call.refs =
      (s.holders holder).refs + weigh TransactionCall.refs next)
    (counted : (s'.holders holder).lockCount + call.counts =
      (s.holders holder).lockCount + weigh counts next)
    (locked : (s'.holders holder).locked.toNat + call.owns =
      (s.holders holder).locked.toNat + weigh owns next)
    (opened : ∀ holder, s'.openTransactionMap holder.key = some holder.id ↔
      0 < (s'.holders holder).refs)
    (fresh : ∀ holder, s'.created ≤ holder.id → (s'.holders holder).refs = 0) :
    TransactionsKept s' (next + rest) where
  refs other := by
    by_cases same : other = holder
    · subst same
      have := kept.refs other
      have := concerns.weigh_moved rest fun call => le_refl (TransactionCall.refs call)
      omega
    · rw [others other same, concerns.weigh_other same, kept.refs]
  counted other := by
    by_cases same : other = holder
    · subst same
      have := kept.counted other
      have := concerns.weigh_moved rest counts_le_refs
      omega
    · rw [others other same, concerns.weigh_other same, kept.counted]
  locked other := by
    by_cases same : other = holder
    · subst same
      have := kept.locked other
      have := concerns.weigh_moved rest owns_le_refs
      omega
    · rw [others other same, concerns.weigh_other same, kept.locked]
  opened := opened
  fresh := fresh

theorem referenced (kept : TransactionsKept s calls) (member : call ∈ calls)
    (is_holder : call.holder = some holder) : 0 < (s.holders holder).refs :=
  (kept.opened holder).1 (kept.entry member is_holder)

theorem change (kept : TransactionsKept s (call ::ₘ rest)) (concerns : Concerns holder call next)
    (referenced : 0 < (s.holders holder).refs)
    (refs : state.refs + call.refs = (s.holders holder).refs + weigh TransactionCall.refs next)
    (counted : state.lockCount + call.counts =
      (s.holders holder).lockCount + weigh counts next)
    (locked : state.locked.toNat + call.owns =
      (s.holders holder).locked.toNat + weigh owns next)
    (remains : 0 < state.refs) : TransactionsKept (s.setHolder holder state) (next + rest) := by
  refine kept.goOn concerns (fun other ne => s.setHolder_other ne state) ?_ ?_ ?_
    (fun other => ?_) fun other later => ?_
  · rwa [s.setHolder_self]
  · rwa [s.setHolder_self]
  · rwa [s.setHolder_self]
  · by_cases same : other = holder
    · subst same
      rw [s.setHolder_self]
      exact iff_of_true ((kept.opened other).2 referenced) remains
    · rw [s.setHolder_other same]
      exact kept.opened other
  · by_cases same : other = holder
    · subst same
      exact absurd (kept.fresh other later) referenced.ne'
    · rw [s.setHolder_other same]
      exact kept.fresh other later

theorem stay (kept : TransactionsKept s (call ::ₘ rest)) (concerns : Concerns holder call {call'})
    (refs : call.refs = call'.refs) (counted : call.counts = call'.counts)
    (locked : call.owns = call'.owns) : TransactionsKept s ({call'} + rest) := by
  refine kept.goOn concerns (fun _ _ => rfl) ?_ ?_ ?_ kept.opened kept.fresh
  · rw [refs, weigh_singleton]
  · rw [counted, weigh_singleton]
  · rw [locked, weigh_singleton]

theorem getting_iff {caller : Caller} {checkMaxWaiters : Bool} :
    TransactionsKept s (.getting caller key checkMaxWaiters ::ₘ calls) ↔
      TransactionsKept s calls := by
  have silent : ∀ (weight : TransactionCall Key → Nat) (holder : Holder Key),
      weigh (atHolder weight holder)
        (.getting caller key checkMaxWaiters ::ₘ calls) =
      weigh (atHolder weight holder) calls := by
    intro weight holder
    rw [weigh_cons, TransactionCall.atHolder_of_ne (by simp [TransactionCall.holder]), zero_add]
  constructor
  · rintro ⟨refs, counted, locked, opened, fresh⟩
    simp only [silent] at refs counted locked
    exact ⟨refs, counted, locked, opened, fresh⟩
  · rintro ⟨refs, counted, locked, opened, fresh⟩
    refine ⟨?_, ?_, ?_, opened, fresh⟩
    all_goals simpa only [silent]

theorem owned (kept : TransactionsKept s calls) (member : call ∈ calls)
    (is_holder : call.holder = some holder) (owns : call.owns = 1) :
    (s.holders holder).locked = true := by
  have owner : call.atHolder TransactionCall.owns holder = 1 :=
    (atHolder_of_eq is_holder).trans owns
  have le : call.atHolder TransactionCall.owns holder ≤
      weigh (TransactionCall.atHolder TransactionCall.owns holder) calls := weight_le_weigh member
  rw [owner, ← kept.locked] at le
  exact Bool.toNat_eq_one.1 (le_antisymm (Bool.toNat_le _) le)

theorem insert (kept : TransactionsKept s (call ::ₘ rest))
    (concerns : Concerns ⟨key, s.created⟩ call next) (closed : s.openTransactionMap key = none)
    (refs : state.refs + call.refs = weigh TransactionCall.refs next)
    (counted : state.lockCount + call.counts = weigh counts next)
    (locked : state.locked.toNat + call.owns = weigh owns next)
    (remains : 0 < state.refs) :
    TransactionsKept ({ s with
      created := s.created + 1
      openTransactionMap := Function.update s.openTransactionMap key (some s.created) }.setHolder
        ⟨key, s.created⟩ state) (next + rest) := by
  have unreferenced := kept.fresh ⟨key, s.created⟩ le_rfl
  have uncounted := kept.weigh_unreferenced counts_le_refs unreferenced
  have unlocked := kept.weigh_unreferenced owns_le_refs unreferenced
  rw [← kept.locked] at unlocked
  refine kept.goOn concerns (fun other ne => setHolder_other _ ne state)
    ?_ ?_ ?_ (fun other => ?_) fun other later => ?_
  · rw [setHolder_self, unreferenced, zero_add]
    exact refs
  · rw [setHolder_self, kept.counted, uncounted, Nat.cast_zero, zero_add]
    exact counted
  · rw [setHolder_self, unlocked, zero_add]
    exact locked
  · by_cases same : other = ⟨key, s.created⟩
    · subst same
      rw [setHolder_self]
      exact iff_of_true (Function.update_self ..) remains
    · rw [setHolder_other _ same, ← kept.opened]
      by_cases same_key : other.key = key
      · obtain ⟨key', id⟩ := other
        subst same_key
        have ne : s.created ≠ id := fun same_id => same (same_id ▸ rfl)
        simp [setHolder, closed, ne]
      · simp [setHolder, same_key]
  · have ne : other ≠ ⟨key, s.created⟩ := by
      rintro rfl
      exact absurd later (Nat.not_succ_le_self _)
    rw [setHolder_other _ ne]
    exact kept.fresh other (Nat.le_of_succ_le later)

/-- A reference is taken away. -/
theorem removeRef (kept : TransactionsKept s (.releasing holder ::ₘ rest)) :
    TransactionsKept (s.removeRef holder) (0 + rest) := by
  have concerns : Concerns holder (.releasing holder) 0 := ⟨.inr rfl, nofun⟩
  have referenced := kept.referenced (Multiset.mem_cons_self _ _) rfl
  have entry := (kept.opened holder).2 referenced
  have refs : (s.holders holder).refs - 1 + 1 = (s.holders holder).refs :=
    Nat.sub_add_cancel referenced
  simp only [TransactionsState.removeRef, TransactionsState.setHolder_self]
  split_ifs with last
  · refine kept.goOn concerns (fun other ne => s.setHolder_other ne _) ?_ ?_ ?_
      (fun other => ?_) fun other later => ?_
    · rwa [close, setHolder_self]
    · rw [close, setHolder_self]
      rfl
    · rw [close, setHolder_self]
      rfl
    · by_cases same : other = holder
      · subst same
        simp [close, last]
      · rw [close, setHolder_other _ same, ← kept.opened]
        by_cases same_key : other.key = holder.key
        · have ne : holder.id ≠ other.id := fun same_id => same (by
            obtain ⟨key, id⟩ := other
            obtain ⟨key', id'⟩ := holder
            cases same_key
            cases same_id
            rfl)
          simp [same_key, entry, ne]
        · simp [setHolder, same_key]
    · by_cases same : other = holder
      · subst same
        rw [close, setHolder_self]
        exact last
      · rw [close, setHolder_other _ same]
        exact kept.fresh other later
  · exact kept.change concerns referenced refs rfl rfl (Nat.pos_of_ne_zero last)

end TransactionsKept

section Runs

variable {maxWaiters : Nat} {getPortion : Key → Nat} {outcome : Outcome}
variable {s s' : TransactionsState Key} {calls rest next : Multiset (TransactionCall Key)}
variable {call : TransactionCall Key}

variable {caller : Caller} {key : Key} {checkMaxWaiters : Bool}

theorem getNew_kept (kept : TransactionsKept s (.getting caller key checkMaxWaiters ::ₘ rest))
    (inserted : outcome ≠ .creationFails ∧ outcome ≠ .insertionFails)
    (closed : s.openTransactionMap key = none)
    (stepped : s.getNew (getPortion key) caller key outcome = some (s', next)) :
    TransactionsKept s' (next + rest) := by
  obtain ⟨not_creation, not_insertion⟩ := inserted
  cases outcome with
  | creationFails => exact absurd rfl not_creation
  | insertionFails => exact absurd rfl not_insertion
  | holderFails =>
    obtain ⟨rfl, rfl⟩ := Prod.mk.inj (Option.some.inj stepped)
    rw [zero_add]
    exact TransactionsKept.getting_iff.1 kept
  | succeeds =>
    cases caller with
    | thread =>
      obtain ⟨rfl, rfl⟩ := Prod.mk.inj (Option.some.inj stepped)
      exact kept.insert (.two (.inl rfl) rfl rfl) closed rfl rfl rfl Nat.two_pos
    | coroutine =>
      obtain ⟨rfl, rfl⟩ := Prod.mk.inj (Option.some.inj stepped)
      exact kept.insert (.one (.inl rfl) rfl) closed rfl rfl rfl Nat.one_pos

theorem getOpened_kept (maxWaiters : Nat) {id : Nat}
    (kept : TransactionsKept s (.getting caller key checkMaxWaiters ::ₘ rest))
    (opened : s.openTransactionMap key = some id) :
    TransactionsKept (s.getOpened maxWaiters caller ⟨key, id⟩ checkMaxWaiters).1
      ((s.getOpened maxWaiters caller ⟨key, id⟩ checkMaxWaiters).2 + rest) := by
  have referenced := (kept.opened ⟨key, id⟩).1 opened
  simp only [getOpened]
  split_ifs with refused
  · exact kept.change (.one (.inl rfl) rfl) referenced rfl rfl rfl (Nat.succ_pos _)
  · cases caller
    all_goals
      refine kept.change (.one (.inl rfl) rfl) referenced rfl ?_ rfl (Nat.succ_pos _)
      simp only [weigh_singleton, TransactionCall.counts, Nat.cast_zero, Nat.cast_one, add_zero]

theorem section_kept (kept : TransactionsKept s (call ::ₘ rest))
    (inserted : Inserted (.goesOn call outcome))
    (stepped : transactionSection maxWaiters getPortion outcome s call = some (s', next)) :
    TransactionsKept s' (next + rest) := by
  have referenced : ∀ holder, call.holder = some holder → 0 < (s.holders holder).refs :=
    fun holder => kept.referenced (Multiset.mem_cons_self _ _)
  cases call with
  | getting caller key checkMaxWaiters =>
    cases entry : s.openTransactionMap key with
    | none =>
      simp only [transactionSection, entry, Option.ite_none_left_eq_some] at stepped
      exact getNew_kept kept inserted entry stepped.2
    | some id =>
      simp only [transactionSection, entry, Option.ite_none_left_eq_some,
        Option.ite_none_right_eq_some] at stepped
      obtain ⟨-, -, same⟩ := stepped
      have getOpened := getOpened_kept maxWaiters kept entry
      rwa [Option.some.inj same] at getOpened
  | refusing holder =>
    obtain ⟨rfl, rfl⟩ := Prod.mk.inj (Option.some.inj stepped)
    exact kept.stay (.one (.inr rfl) rfl) rfl rfl rfl
  | creating holder =>
    cases outcome with
    | succeeds =>
      obtain ⟨rfl, rfl⟩ := Prod.mk.inj (Option.some.inj stepped)
      exact kept.change (.one (.inr rfl) rfl) (referenced holder rfl) rfl rfl rfl (Nat.succ_pos _)
    | creationFails =>
      obtain ⟨rfl, rfl⟩ := Prod.mk.inj (Option.some.inj stepped)
      exact kept.stay (.one (.inr rfl) rfl) rfl rfl rfl
    | holderFails | insertionFails => cases stepped
  | locking caller holder =>
    simp only [transactionSection] at stepped
    split_ifs at stepped with free
    obtain ⟨rfl, rfl⟩ := Prod.mk.inj (Option.some.inj stepped)
    cases caller
    · refine kept.change (.two (.inr rfl) rfl rfl) (referenced holder rfl) rfl rfl ?_
        (referenced holder rfl)
      rw [Bool.eq_false_of_not_eq_true free]
      rfl
    · refine kept.change (.one (.inr rfl) rfl) (referenced holder rfl) rfl rfl ?_
        (referenced holder rfl)
      rw [Bool.eq_false_of_not_eq_true free]
      rfl
  | creatingLocked holder =>
    cases outcome with
    | succeeds =>
      obtain ⟨rfl, rfl⟩ := Prod.mk.inj (Option.some.inj stepped)
      exact kept.change (.two (.inr rfl) rfl rfl) (referenced holder rfl) rfl rfl rfl
        (Nat.succ_pos _)
    | creationFails =>
      obtain ⟨rfl, rfl⟩ := Prod.mk.inj (Option.some.inj stepped)
      exact kept.stay (.one (.inr rfl) rfl) rfl rfl rfl
    | holderFails | insertionFails => cases stepped
  | unlocking holder | unlockingFailed holder =>
    have owned := kept.owned (Multiset.mem_cons_self _ _) rfl rfl
    obtain ⟨rfl, rfl⟩ := Prod.mk.inj (Option.some.inj stepped)
    refine kept.change (.one (.inr rfl) rfl) (referenced holder rfl) rfl rfl ?_
      (referenced holder rfl)
    rw [owned]
    rfl
  | live holder | uncounting holder =>
    obtain ⟨rfl, rfl⟩ := Prod.mk.inj (Option.some.inj stepped)
    refine kept.change (.one (.inr rfl) rfl) (referenced holder rfl) rfl ?_ rfl
      (referenced holder rfl)
    simp only [weigh_singleton, TransactionCall.counts, Nat.cast_zero, Nat.cast_one, add_zero,
      sub_add_cancel]
  | releasing holder =>
    simp only [transactionSection] at stepped
    split_ifs at stepped
    obtain ⟨rfl, rfl⟩ := Prod.mk.inj (Option.some.inj stepped)
    exact kept.removeRef
  | deadlocked holder => cases stepped

variable {w w' : TransactionsWorld Key} {event : TransactionEvent Key}

theorem TransactionsWorld.step_kept (kept : TransactionsKept w.shared w.calls)
    (inserted : Inserted event) (stepped : w.step maxWaiters getPortion event = some w') :
    TransactionsKept w'.shared w'.calls := by
  cases event with
  | get caller key checkMaxWaiters =>
    cases stepped
    exact TransactionsKept.getting_iff.2 kept
  | goesOn call outcome =>
    obtain ⟨shared, calls⟩ := w
    obtain ⟨rest, next, rfl, section_, after⟩ := World.goOn_cases stepped
    exact after ▸ section_kept kept inserted section_
  | cancel holder =>
    simp only [step, Option.ite_none_right_eq_some] at stepped
    obtain ⟨member, same⟩ := stepped
    obtain ⟨rest, calls⟩ := Multiset.exists_cons_of_mem member
    cases same
    rw [calls] at kept ⊢
    rw [advance_cons]
    exact kept.stay (.one (.inr rfl) rfl) rfl rfl rfl

theorem TransactionsKept.refused (kept : TransactionsKept s calls) (outcome : Outcome)
    (caller : Caller) (key : Key) (checkMaxWaiters : Bool)
    (stepped : transactionSection maxWaiters getPortion outcome s
      (.getting caller key checkMaxWaiters) = some (s', next)) :
    (∃ holder, .refusing holder ∈ next) ↔ checkMaxWaiters = true ∧ maxWaiters ≠ 0 ∧
      maxWaiters ≤ weigh (atKey counts key) calls := by
  cases entry : s.openTransactionMap key with
  | none =>
    rw [kept.weigh_closed entry]
    refine iff_of_false ?_ fun ⟨_, limited, reached⟩ => limited (Nat.le_zero.1 reached)
    rintro ⟨holder, member⟩
    simp only [transactionSection, entry, Option.ite_none_left_eq_some] at stepped
    obtain ⟨-, got⟩ := stepped
    cases outcome <;> cases caller <;> cases got <;> simp at member
  | some id =>
    rw [kept.weigh_key entry]
    have counted := kept.counted ⟨key, id⟩
    simp only [transactionSection, entry, Option.ite_none_left_eq_some,
      Option.ite_none_right_eq_some] at stepped
    obtain ⟨-, -, same⟩ := stepped
    have is_next := congrArg Prod.snd (Option.some.inj same)
    rw [← show _ = next from is_next, getOpened_refusing_iff]
    refine and_congr_right fun _ => and_congr_right fun _ => ?_
    omega

theorem TransactionsKept.oneTransaction (kept : TransactionsKept w.shared w.calls) :
    OneTransaction maxWaiters getPortion w where
  exclusive key := by
    cases entry : w.shared.openTransactionMap key with
    | none =>
      rw [kept.weigh_closed entry]
      exact Nat.zero_le 1
    | some id =>
      rw [kept.weigh_key entry, ← kept.locked]
      exact Bool.toNat_le _
  shared call member call' member' holder is_holder holder' is_holder' same_key := by
    have entry := kept.entry member is_holder
    have entry' := kept.entry member' is_holder'
    obtain ⟨key, id⟩ := holder
    obtain ⟨key', id'⟩ := holder'
    obtain rfl : key = key' := same_key
    obtain rfl := Option.some.inj (entry.symm.trans entry')
    rfl
  opened holder := kept.refs holder ▸ kept.opened holder
  counted := kept.counted
  refused outcome caller key checkMaxWaiters s' next stepped :=
    kept.refused outcome caller key checkMaxWaiters stepped

theorem OneTransaction.not_closed {holder : Holder Key}
    (one : OneTransaction maxWaiters getPortion w) (member : call ∈ w.calls)
    (is_holder : call.holder = some holder) : w.shared.openTransactionMap holder.key ≠ none := by
  have referenced :=
    calc 0 < call.refs := call.refs_pos_iff.2 (by simp [is_holder])
      _ = call.atHolder refs holder :=
        (atHolder_of_eq is_holder).symm
      _ ≤ weigh (atHolder refs holder) w.calls :=
        weight_le_weigh member
  rw [(one.opened holder).2 referenced]
  exact Option.some_ne_none _

theorem TransactionsWorld.inserted_of_oneTransaction (kept : TransactionsKept w.shared w.calls)
    (stepped : w.step maxWaiters getPortion event = some w')
    (one : OneTransaction maxWaiters getPortion w') : Inserted event := by
  cases event with
  | get | cancel => trivial
  | goesOn call outcome =>
    cases call with
    | getting caller key checkMaxWaiters =>
      obtain ⟨shared, calls⟩ := w
      obtain ⟨rest, next, rfl, section_, after⟩ := World.goOn_cases stepped
      cases entry : shared.openTransactionMap key with
      | none =>
        simp only [transactionSection, entry, Option.ite_none_left_eq_some] at section_
        obtain ⟨-, got⟩ := section_
        have member : ∀ call ∈ next, call ∈ w'.calls :=
          fun call member => after ▸ Multiset.mem_add.2 (.inl member)
        constructor
        · rintro rfl
          cases caller with
          | thread =>
            obtain ⟨is_shared, rfl⟩ := Prod.mk.inj (Option.some.inj got)
            exact one.not_closed (member _ (Multiset.mem_singleton_self _)) rfl (is_shared ▸ entry)
          | coroutine => cases got
        · rintro rfl
          cases caller with
          | thread =>
            obtain ⟨is_shared, rfl⟩ := Prod.mk.inj (Option.some.inj got)
            exact one.not_closed (member _ (Multiset.mem_singleton_self _)) rfl (is_shared ▸ entry)
          | coroutine =>
            obtain ⟨is_shared, rfl⟩ := Prod.mk.inj (Option.some.inj got)
            exact one.not_closed (member _ (Multiset.mem_singleton_self _)) rfl (is_shared ▸ entry)
      | some id =>
        simp only [transactionSection, entry, Option.ite_none_left_eq_some,
          Option.ite_none_right_eq_some] at section_
        obtain ⟨-, rfl, -⟩ := section_
        exact ⟨nofun, nofun⟩
    | _ => trivial

theorem TransactionsWorld.start_kept :
    TransactionsKept (start : TransactionsWorld Key).shared start.calls where
  refs _ := rfl
  counted _ := rfl
  locked _ := rfl
  opened _ := iff_of_false nofun (lt_irrefl 0)
  fresh _ _ := rfl

theorem run_oneTransaction (maxWaiters : Nat) (getPortion : Key → Nat)
    (events : List (TransactionEvent Key))
    (ran : run (TransactionsWorld.step maxWaiters getPortion) .start events = some w) :
    (∀ before after w', events = before ++ after →
      run (TransactionsWorld.step maxWaiters getPortion) .start before = some w' →
      OneTransaction maxWaiters getPortion w') ↔
    Along (TransactionsWorld.step maxWaiters getPortion) (fun _ => Inserted) .start events :=
  throughout_iff (fun w => TransactionsKept w.shared w.calls) _ TransactionsKept.oneTransaction
    TransactionsWorld.step_kept TransactionsWorld.inserted_of_oneTransaction
    TransactionsWorld.start_kept ran

end Runs

/-- A creation fails, another call comes before the holder of the first is released, and a third
after that. -/
def twice : List (TransactionEvent Nat) :=
  [.get .thread 0 true, .goesOn (.getting .thread 0 true) .creationFails, .get .thread 0 true,
    .goesOn (.getting .thread 0 true) .succeeds, .goesOn (.releasing ⟨0, 0⟩) .succeeds,
    .get .thread 0 true, .goesOn (.getting .thread 0 true) .succeeds]

theorem twice_not_oneTransaction : ¬∀ (events : List (TransactionEvent Nat)) w,
    run (TransactionsWorld.step 0 fun _ => 0) .start events = some w →
      OneTransaction 0 (fun _ => 0) w := by
  intro one
  exact absurd ((one twice _ rfl).exclusive 0) (by decide)

/-- A thread and a coroutine on one key, one after the other. -/
def taken : List (TransactionEvent Nat) :=
  [.get .thread 0 true, .goesOn (.getting .thread 0 true) .succeeds, .get .coroutine 0 true,
    .goesOn (.getting .coroutine 0 true) .succeeds, .goesOn (.live ⟨0, 0⟩) .succeeds,
    .goesOn (.unlocking ⟨0, 0⟩) .succeeds, .goesOn (.locking .coroutine ⟨0, 0⟩) .succeeds,
    .goesOn (.creatingLocked ⟨0, 0⟩) .succeeds]

theorem run_oneTransaction_taken :
    ∃ w, run (TransactionsWorld.step 2 fun _ => 0) .start taken = some w ∧
      OneTransaction 2 (fun _ => 0) w :=
  ⟨_, rfl, (run_oneTransaction 2 (fun _ => 0) taken rfl).2 (by decide) taken [] _
    (List.append_nil _).symm rfl⟩

end AdServer.ProfilingCommons
