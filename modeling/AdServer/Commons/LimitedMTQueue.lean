import AdServer.Lib.Runs

/-!
# The limited queue of threads

An insertion builds its node in a list of its own and splices that list into
the queue under the lock. `try_emplace` and `try_push` build it in the queue
itself, outside the lock, and splice an empty list. A splice is at the front,
and `pop` takes the front.

A wait on a condition may end at any time, so the broadcasts are left out.
`emplace` reads a variable that is not declared; no call of it compiles.
-/

namespace AdServer.Commons

open AdServer.Lib.Runs

/-- A node of a list, by the insertion that builds it. -/
structure Node (T : Type) where
  id : Nat
  value : T
  deriving DecidableEq

structure LimitedMTQueue (T : Type) where
  queue : List (Node T) := []
  queueSize : Nat := 0
  closed : Bool := false

/-- Which call takes nodes. -/
inductive Taking where
  | pop
  | popTimed
  | popAll
  deriving DecidableEq

/-- A call of the queue, by what it does next. -/
inductive QueueCall (T : Type) where
  /-- `try_emplace` or `try_push` before its access outside the lock. -/
  | trying (node : Node T)
  /-- The locked sections of insertions, with the lists of their own. -/
  | tryingLocked (node : Node T) (queue : List (Node T))
  | pushing (node : Node T) (queue : List (Node T))
  /-- The locked section of a call that takes, at first or after a wait. -/
  | taking (taking : Taking) (waited : Bool)
  deriving DecidableEq

section Queue

variable {T : Type}

namespace LimitedMTQueue

variable (maxSize : Nat) (q : LimitedMTQueue T)

def full : Prop := 0 < maxSize ∧ maxSize ≤ q.queueSize

instance : Decidable (q.full maxSize) := inferInstanceAs (Decidable (_ ∧ _))

/-- The access outside the lock. -/
def emplaceBack (node : Node T) : LimitedMTQueue T := { q with queue := q.queue ++ [node] }

/-- The size is a `size_t`. -/
def splice (queue : List (Node T)) : LimitedMTQueue T :=
  { q with queue := queue ++ q.queue, queueSize := (q.queueSize + 1) % 2 ^ 64 }

def takes : Taking → List (Node T)
  | .popAll => q.queue
  | .pop | .popTimed => q.queue.take 1

def take : Taking → LimitedMTQueue T
  | .popAll => { q with queue := [], queueSize := 0 }
  | .pop | .popTimed =>
    { q with queue := q.queue.drop 1, queueSize := (q.queueSize + (2 ^ 64 - 1)) % 2 ^ 64 }

end LimitedMTQueue

def tryEmplace (node : Node T) : QueueCall T := .trying node

def tryPush (node : Node T) : QueueCall T := .trying node

def push (node : Node T) : QueueCall T := .pushing node [node]

/-- The queue, how many nodes were built, and what the insertions that succeeded have inserted and
the calls that take have taken, in the order of their sections. -/
structure QueueState (T : Type) where
  queue : LimitedMTQueue T := {}
  built : Nat := 0
  inserted : List (Node T) := []
  delivered : List (Node T) := []

abbrev QueueWorld (T : Type) := World (QueueState T) (QueueCall T)

/-- A wait that has ended checks whether the queue is closed, and throws. -/
def ThrowsClosed (s : QueueState T) (waited : Bool) : Prop := waited ∧ s.queue.closed

instance (s : QueueState T) (waited : Bool) : Decidable (ThrowsClosed s waited) :=
  inferInstanceAs (Decidable (_ ∧ _))

def queueSection (maxSize : Nat) (s : QueueState T) :
    QueueCall T → Option (QueueState T × Multiset (QueueCall T))
  | .trying node =>
    some ({ s with queue := s.queue.emplaceBack node }, {.tryingLocked node []})
  | .tryingLocked node queue =>
    if s.queue.full maxSize then some (s, 0)
    else some ({ s with queue := s.queue.splice queue, inserted := s.inserted ++ [node] }, 0)
  | .pushing node queue =>
    if s.queue.full maxSize then none
    else some ({ s with queue := s.queue.splice queue, inserted := s.inserted ++ [node] }, 0)
  | .taking taking waited =>
    if ThrowsClosed s waited then some (s, 0)
    else if s.queue.queue.isEmpty then some (s, {.taking taking true})
    else
      some ({ s with
        queue := s.queue.take taking
        delivered := s.delivered ++ s.queue.takes taking }, 0)

inductive QueueEvent (T : Type) where
  | tryEmplace (value : T)
  | tryPush (value : T)
  | push (value : T)
  | take (taking : Taking)
  | goesOn (call : QueueCall T)
  /-- A timed wait ends with a timeout. -/
  | timesOut (taking : Taking)
  | close

/-- An insertion is called, and its node is the next one. -/
def QueueWorld.insert (w : QueueWorld T) (call : Node T → QueueCall T) (value : T) :
    QueueWorld T :=
  ⟨{ w.shared with built := w.shared.built + 1 }, call ⟨w.shared.built, value⟩ ::ₘ w.calls⟩

def QueueWorld.start : QueueWorld T := ⟨{}, 0⟩

def QueueWorld.step [DecidableEq T] (maxSize : Nat) (w : QueueWorld T) :
    QueueEvent T → Option (QueueWorld T)
  | .tryEmplace value => some (w.insert Commons.tryEmplace value)
  | .tryPush value => some (w.insert Commons.tryPush value)
  | .push value => some (w.insert Commons.push value)
  | .take taking => some { w with calls := .taking taking false ::ₘ w.calls }
  | .goesOn call => w.goOn (queueSection maxSize) call
  | .timesOut taking =>
    if taking ≠ .pop ∧ .taking taking true ∈ w.calls then
      some { w with calls := w.calls.erase (.taking taking true) }
    else none
  | .close => some { w with shared.queue.closed := true }

/-- What was inserted is in the queue or was delivered, in order and once, and the queue counts
its nodes. -/
structure BoundedFifo (maxSize : Nat) (s : QueueState T) : Prop where
  kept : (s.inserted : Multiset (Node T)) = s.delivered + s.queue.queue
  once : s.delivered.Nodup
  inOrder : s.delivered <+: s.inserted
  counted : s.queue.queueSize = s.queue.queue.length
  bounded : maxSize ≠ 0 → s.queue.queueSize ≤ maxSize

/-- Nothing is tried, no node is taken while another one is in the queue, and the size has room
for a push. -/
def Fits (w : QueueWorld T) : QueueEvent T → Prop
  | .goesOn (.trying _) => False
  | .goesOn (.pushing _ _) => w.shared.queue.queue.length + 1 < 2 ^ 64
  | .goesOn (.taking _ waited) =>
    ThrowsClosed w.shared waited ∨ w.shared.queue.queue.length ≤ 1
  | _ => True

instance (w : QueueWorld T) : ∀ event, Decidable (Fits w event)
  | .goesOn (.trying _) => inferInstanceAs (Decidable False)
  | .goesOn (.pushing ..) => inferInstanceAs (Decidable (_ < _))
  | .goesOn (.taking ..) => inferInstanceAs (Decidable (_ ∨ _))
  | .goesOn (.tryingLocked ..) | .tryEmplace _ | .tryPush _ | .push _ | .take _ | .timesOut _
  | .close => inferInstanceAs (Decidable True)

/-- The nodes that only this call knows of, or that it has put into the queue unasked. -/
def QueueCall.inHand : QueueCall T → Multiset Nat
  | .trying node | .tryingLocked node _ | .pushing node _ => {node.id}
  | .taking .. => 0

/-- The nodes of the insertions, those that succeeded and those in progress. -/
def ids (s : QueueState T) (calls : Multiset (QueueCall T)) : Multiset Nat :=
  s.inserted.map Node.id + calls.bind QueueCall.inHand

/-- Nodes are spliced in front of the older ones. -/
structure QueueKept (maxSize : Nat) (s : QueueState T) (calls : Multiset (QueueCall T)) :
    Prop where
  stacked : s.inserted = s.delivered ++ s.queue.queue.reverse
  counted : s.queue.queueSize = s.queue.queue.length
  bounded : maxSize ≠ 0 → s.queue.queueSize ≤ maxSize
  small : s.queue.queueSize < 2 ^ 64
  untried : ∀ node queue, .tryingLocked node queue ∉ calls
  own : ∀ node queue, .pushing node queue ∈ calls → queue = [node]
  distinct : (ids s calls).Nodup
  fresh : ∀ id ∈ ids s calls, id < s.built

namespace QueueKept

variable {maxSize : Nat} {s s' : QueueState T} {calls next : Multiset (QueueCall T)}
variable {call : QueueCall T}

section
variable (kept : QueueKept maxSize s calls)
include kept

theorem inserted_nodup : s.inserted.Nodup :=
  .of_map _ (Multiset.coe_nodup.1 (Multiset.nodup_of_le (Multiset.le_add_right _ _) kept.distinct))

theorem boundedFifo : BoundedFifo maxSize s where
  kept := by rw [kept.stacked, ← Multiset.coe_add, Multiset.coe_reverse]
  once := (kept.stacked ▸ kept.inserted_nodup).of_append_left
  inOrder := kept.stacked ▸ List.prefix_append _ _
  counted := kept.counted
  bounded := kept.bounded

theorem mono {calls' : Multiset (QueueCall T)}
    (fewer : ∀ call ∈ calls', call ∈ calls ∨ ∃ taking waited, call = .taking taking waited)
    (nodes : calls'.bind QueueCall.inHand ≤ calls.bind QueueCall.inHand) :
    QueueKept maxSize s calls' where
  stacked := kept.stacked
  counted := kept.counted
  bounded := kept.bounded
  small := kept.small
  untried node queue member := by
    obtain old | ⟨_, _, same⟩ := fewer _ member
    · exact kept.untried node queue old
    · cases same
  own node queue member := by
    obtain old | ⟨_, _, same⟩ := fewer _ member
    · exact kept.own node queue old
    · cases same
  distinct := Multiset.nodup_of_le (Multiset.add_le_add_left nodes) kept.distinct
  fresh id member :=
    kept.fresh id (Multiset.mem_of_le (Multiset.add_le_add_left nodes) member)

end

theorem rest (kept : QueueKept maxSize s (call ::ₘ calls)) : QueueKept maxSize s calls :=
  kept.mono (fun _ member => .inl (Multiset.mem_cons_of_mem member))
    (by rw [Multiset.cons_bind]; exact Multiset.le_add_left _ _)

theorem takes (kept : QueueKept maxSize s calls) (taking : Taking) (waited : Bool) :
    QueueKept maxSize s (.taking taking waited ::ₘ calls) :=
  kept.mono (fun call member => (Multiset.mem_cons.1 member).elim
      (fun same => .inr ⟨taking, waited, same⟩) .inl)
    (by rw [Multiset.cons_bind]; exact le_of_eq (zero_add _))

theorem insert {w : QueueWorld T} (kept : QueueKept maxSize w.shared w.calls)
    {insertion : Node T → QueueCall T} (value : T)
    (inHand : ∀ node, (insertion node).inHand = {node.id})
    (untried : ∀ node node' queue, insertion node ≠ .tryingLocked node' queue)
    (own : ∀ node node' queue, insertion node = .pushing node' queue → queue = [node']) :
    QueueKept maxSize (w.insert insertion value).shared (w.insert insertion value).calls := by
  have built : ids (w.insert insertion value).shared (w.insert insertion value).calls =
      w.shared.built ::ₘ ids w.shared w.calls := by
    simp only [ids, QueueWorld.insert, Multiset.cons_bind, inHand, Multiset.singleton_add,
      Multiset.add_cons]
  refine ⟨kept.stacked, kept.counted, kept.bounded, kept.small, fun node queue member => ?_,
    fun node queue member => ?_, ?_, fun id member => ?_⟩
  · obtain same | old := Multiset.mem_cons.1 member
    · exact untried _ _ _ same.symm
    · exact kept.untried node queue old
  · obtain same | old := Multiset.mem_cons.1 member
    · exact own _ _ _ same.symm
    · exact kept.own node queue old
  · rw [built, Multiset.nodup_cons]
    exact ⟨fun member => absurd (kept.fresh _ member) (lt_irrefl _), kept.distinct⟩
  · rw [built] at member
    obtain rfl | old := Multiset.mem_cons.1 member
    · exact Nat.lt_succ_self _
    · exact (kept.fresh id old).trans (Nat.lt_succ_self _)

theorem push {node : Node T} {queue : List (Node T)}
    (kept : QueueKept maxSize s (.pushing node queue ::ₘ calls))
    (room : ¬s.queue.full maxSize) (fits : s.queue.queue.length + 1 < 2 ^ 64) :
    QueueKept maxSize
      { s with queue := s.queue.splice queue, inserted := s.inserted ++ [node] } calls := by
  obtain rfl := kept.own node queue (Multiset.mem_cons_self _ _)
  have size : (s.queue.queueSize + 1) % 2 ^ 64 = s.queue.queueSize + 1 :=
    Nat.mod_eq_of_lt (by rw [kept.counted]; exact fits)
  have moved : ids { s with queue := s.queue.splice [node], inserted := s.inserted ++ [node] }
      calls = ids s (.pushing node [node] ::ₘ calls) := by
    simp only [ids, List.map_append, ← Multiset.coe_add, Multiset.cons_bind, add_assoc]
    rfl
  refine ⟨?_, ?_, fun limited => ?_, ?_, kept.rest.untried, kept.rest.own, moved ▸ kept.distinct,
    fun id member => kept.fresh id (moved ▸ member)⟩
  · simp [LimitedMTQueue.splice, kept.stacked]
  · change (s.queue.queueSize + 1) % 2 ^ 64 = ([node] ++ s.queue.queue).length
    rw [size, kept.counted, List.length_append, List.length_singleton, Nat.add_comm]
  · have := kept.bounded limited
    simp only [LimitedMTQueue.full, not_and, not_le] at room
    have := room (Nat.pos_of_ne_zero limited)
    simp only [LimitedMTQueue.splice, size]
    omega
  · exact Nat.mod_lt _ (by decide)

theorem take {taking : Taking} {waited : Bool}
    (kept : QueueKept maxSize s (.taking taking waited ::ₘ calls))
    (nonempty : ¬s.queue.queue.isEmpty) (single : s.queue.queue.length ≤ 1) :
    QueueKept maxSize
      { s with
        queue := s.queue.take taking
        delivered := s.delivered ++ s.queue.takes taking } calls := by
  obtain ⟨node, one⟩ : ∃ node, s.queue.queue = [node] := by
    cases queue : s.queue.queue with
    | nil => simp [queue] at nonempty
    | cons node nodes =>
      rw [queue, List.length_cons] at single
      exact ⟨node, by rw [List.length_eq_zero_iff.1 (by omega : nodes.length = 0)]⟩
  have size : s.queue.queueSize = 1 := by rw [kept.counted, one, List.length_singleton]
  have stacked : s.inserted = s.delivered ++ [node] := by rw [kept.stacked, one]; rfl
  refine ⟨?_, ?_, fun _ => ?_, ?_, kept.rest.untried, kept.rest.own, kept.rest.distinct,
    kept.rest.fresh⟩ <;>
  cases taking <;>
  simp [LimitedMTQueue.take, LimitedMTQueue.takes, one, size, stacked]

end QueueKept

section Sections

variable {maxSize : Nat} {s s' : QueueState T} {rest next : Multiset (QueueCall T)}
variable {call : QueueCall T}

theorem queueSection_kept (kept : QueueKept maxSize s (call ::ₘ rest))
    (fits : Fits ⟨s, call ::ₘ rest⟩ (.goesOn call))
    (stepped : queueSection maxSize s call = some (s', next)) :
    QueueKept maxSize s' (next + rest) := by
  cases call with
  | trying node => exact fits.elim
  | tryingLocked node queue =>
    exact absurd (Multiset.mem_cons_self _ _) (kept.untried node queue)
  | pushing node queue =>
    simp only [queueSection] at stepped
    split_ifs at stepped with full
    obtain ⟨rfl, rfl⟩ := Prod.mk.inj (Option.some.inj stepped)
    rw [zero_add]
    exact kept.push full fits
  | taking taking waited =>
    simp only [queueSection] at stepped
    split_ifs at stepped with closed empty <;>
      obtain ⟨rfl, rfl⟩ := Prod.mk.inj (Option.some.inj stepped)
    · rw [zero_add]
      exact kept.rest
    · exact kept.rest.takes taking true
    · rw [zero_add]
      exact kept.take empty (fits.resolve_left closed)

theorem head_ne_oldest {node : Node T} {nodes : List (Node T)} (once : (node :: nodes).Nodup)
    (several : nodes ≠ []) : (node :: nodes).reverse.head? ≠ some node := by
  rw [List.head?_reverse, List.getLast?_cons_of_ne_nil several]
  intro last
  exact (List.nodup_cons.1 once).1 (List.mem_of_getLast? last)

theorem section_needs (kept : QueueKept maxSize s (call ::ₘ rest))
    (stepped : queueSection maxSize s call = some (s', next))
    (fifo : BoundedFifo maxSize s') : Fits ⟨s, call ::ₘ rest⟩ (.goesOn call) := by
  cases call with
  | trying node =>
    -- the node is in the queue, and nothing has inserted it
    obtain ⟨rfl, -⟩ := Prod.mk.inj (Option.some.inj stepped)
    have inserted := congrArg List.length kept.stacked
    have counted := congrArg Multiset.card fifo.kept
    simp [LimitedMTQueue.emplaceBack] at inserted counted
    omega
  | tryingLocked node queue => exact trivial
  | pushing node queue =>
    simp only [queueSection] at stepped
    split_ifs at stepped with full
    obtain ⟨rfl, -⟩ := Prod.mk.inj (Option.some.inj stepped)
    obtain rfl := kept.own node queue (Multiset.mem_cons_self _ _)
    have counted := fifo.counted
    simp only [LimitedMTQueue.splice, List.length_append, List.length_singleton] at counted
    change s.queue.queue.length + 1 < 2 ^ 64
    rw [Nat.add_comm, ← counted]
    exact Nat.mod_lt _ (by decide)
  | taking taking waited =>
    simp only [queueSection] at stepped
    split_ifs at stepped with closed empty <;>
      obtain ⟨rfl, -⟩ := Prod.mk.inj (Option.some.inj stepped)
    · exact .inl closed
    · rw [List.isEmpty_iff] at empty
      exact .inr (by simp [empty])
    · right
      cases queue : s.queue.queue with
      | nil => simp [queue] at empty
      | cons node nodes =>
        by_contra several
        rw [List.length_cons, Nat.not_le, Nat.lt_add_left_iff_pos, List.length_pos_iff] at several
        have stacked := kept.stacked
        rw [queue] at stacked
        have once := (List.nodup_reverse.1 (stacked ▸ kept.inserted_nodup).of_append_right)
        have inOrder := fifo.inOrder
        obtain ⟨more, taken⟩ : ∃ more, s.queue.takes taking = node :: more := by
          cases taking <;> simp [LimitedMTQueue.takes, queue]
        simp only [stacked, taken, List.prefix_append_right_inj] at inOrder
        obtain ⟨after, split⟩ := inOrder
        refine head_ne_oldest once several ?_
        rw [← split]
        rfl

section Runs

theorem QueueWorld.start_kept : QueueKept maxSize (start : QueueWorld T).shared start.calls where
  stacked := rfl
  counted := rfl
  bounded _ := Nat.zero_le _
  small := Nat.two_pow_pos 64
  untried _ _ := Multiset.notMem_zero _
  own _ _ member := absurd member (Multiset.notMem_zero _)
  distinct := Multiset.nodup_zero
  fresh _ member := absurd member (Multiset.notMem_zero _)

variable [DecidableEq T] {w w' : QueueWorld T} {event : QueueEvent T}

theorem QueueWorld.step_kept (kept : QueueKept maxSize w.shared w.calls) (fits : Fits w event)
    (stepped : w.step maxSize event = some w') : QueueKept maxSize w'.shared w'.calls := by
  cases event with
  | tryEmplace value =>
    cases stepped
    exact kept.insert value (fun _ => rfl) (fun _ _ _ => nofun) (fun _ _ _ => nofun)
  | tryPush value =>
    cases stepped
    exact kept.insert value (fun _ => rfl) (fun _ _ _ => nofun) (fun _ _ _ => nofun)
  | push value =>
    cases stepped
    refine kept.insert value (fun _ => rfl) (fun _ _ _ => nofun) (fun _ _ _ same => ?_)
    obtain ⟨rfl, rfl⟩ := QueueCall.pushing.inj same
    rfl
  | take taking =>
    cases stepped
    exact kept.takes taking false
  | goesOn call =>
    obtain ⟨shared, calls⟩ := w
    obtain ⟨rest, next, rfl, section_, after⟩ := World.goOn_cases stepped
    exact after ▸ queueSection_kept kept fits section_
  | timesOut taking =>
    simp only [step, Option.ite_none_right_eq_some] at stepped
    obtain ⟨⟨-, member⟩, same⟩ := stepped
    cases same
    rw [← Multiset.cons_erase member] at kept
    exact kept.rest
  | close =>
    cases stepped
    exact ⟨kept.stacked, kept.counted, kept.bounded, kept.small, kept.untried, kept.own,
      kept.distinct, kept.fresh⟩

theorem QueueWorld.step_needs (kept : QueueKept maxSize w.shared w.calls)
    (stepped : w.step maxSize event = some w') (fifo : BoundedFifo maxSize w'.shared) :
    Fits w event := by
  cases event with
  | goesOn call =>
    obtain ⟨shared, calls⟩ := w
    obtain ⟨rest, next, rfl, section_, -⟩ := World.goOn_cases stepped
    exact section_needs kept section_ fifo
  | _ => exact trivial

theorem run_fifo (maxSize : Nat) {events : List (QueueEvent T)}
    (ran : run (QueueWorld.step maxSize) .start events = some w) :
    (∀ before after w₁, events = before ++ after →
      run (QueueWorld.step maxSize) .start before = some w₁ → BoundedFifo maxSize w₁.shared) ↔
    Along (QueueWorld.step maxSize) Fits .start events :=
  throughout_iff (fun w : QueueWorld T => QueueKept maxSize w.shared w.calls)
    (fun w => BoundedFifo maxSize w.shared) QueueKept.boundedFifo QueueWorld.step_kept
    QueueWorld.step_needs QueueWorld.start_kept ran

end Runs

/-- Two elements, each of them taken before the next one is pushed. -/
def alternating : List (QueueEvent Char) :=
  [.push 'a', .goesOn (push ⟨0, 'a'⟩), .take .pop, .goesOn (.taking .pop false),
    .take .popAll, .goesOn (.taking .popAll false), .push 'b', .goesOn (push ⟨1, 'b'⟩),
    .goesOn (.taking .popAll true)]

theorem run_fifo_alternating :
    ∃ w, run (QueueWorld.step 1) .start alternating = some w ∧
      ∀ before after w₁, alternating = before ++ after →
        run (QueueWorld.step 1) .start before = some w₁ → BoundedFifo 1 w₁.shared := by
  obtain ⟨w, ran⟩ : ∃ w, run (QueueWorld.step 1) .start alternating = some w :=
    ⟨⟨⟨{}, 2, [⟨0, 'a'⟩, ⟨1, 'b'⟩], [⟨0, 'a'⟩, ⟨1, 'b'⟩]⟩, 0⟩, rfl⟩
  exact ⟨w, ran, (run_fifo 1 ran).2 (by decide)⟩

/-- The second element is refused, as the queue is full, and stays in the queue. -/
def refused : List (QueueEvent Char) :=
  [.tryEmplace 'a', .goesOn (tryEmplace ⟨0, 'a'⟩), .goesOn (.tryingLocked ⟨0, 'a'⟩ []),
    .tryEmplace 'b', .goesOn (tryEmplace ⟨1, 'b'⟩), .goesOn (.tryingLocked ⟨1, 'b'⟩ [])]

theorem refused_not_fifo : ¬∀ (events : List (QueueEvent Char)) w,
    run (QueueWorld.step 1) .start events = some w → BoundedFifo 1 w.shared := by
  intro fifo
  have counted := (fifo refused ⟨⟨⟨[⟨0, 'a'⟩, ⟨1, 'b'⟩], 1, false⟩, 2, [⟨0, 'a'⟩], []⟩, 0⟩
    rfl).counted
  exact absurd counted (by decide)

end Sections

end Queue
end AdServer.Commons
