import AdServer.Lib.Runs
import Mathlib.Tactic.Abel

/-!
# The messages of a Kafka producer

A task takes all that is in the queue and hands it to RdKafka message by
message. An error of RdKafka leaves the loop, and the rest of the array with
it. A failed delivery comes back through `push_data`.

The queue is a bounded queue in order, and the producer stays active.
-/

namespace AdServer.Commons.Kafka

open AdServer.Lib.Runs

/-- A `ProducerPair`, by the call of `push_data` that it comes from. -/
structure Message where
  id : Nat
  key : String
  data : String
  deriving DecidableEq

/-- What RdKafka was handed, and for which topic. -/
structure Handed where
  topic : String
  message : Message
  deriving DecidableEq

structure Stats where
  errorOverflow : Nat := 0
  errorException : Nat := 0
  reconnect : Nat := 0
  sent : Nat := 0
  sentBytes : Nat := 0
  disconnected : Bool := false

structure Producer where
  topicName : String
  /-- The size of `messages_`, and zero for no limit. -/
  queueSize : Nat

/-- The queue and the statistics, what awaits its report, and what has been pushed, handed over,
reported and refused. -/
structure ProducerState where
  messages : List Message := []
  stats : Stats := {}
  awaiting : Multiset Handed := 0
  pushed : List Message := []
  handedOver : Multiset Message := 0
  failed : Multiset Message := 0
  delivered : Multiset Message := 0
  overflowed : Multiset Message := 0

/-- A call of the producer, by what it does next. -/
inductive ProducerCall where
  /-- `push_data`, before `try_emplace` and before it counts the overflow. -/
  | pushing (message : Message)
  | overflowing (message : Message)
  /-- `work_`, before the handler is created and while it waits to do so again. -/
  | connecting
  | reconnecting
  /-- `produce_`, before `pop_all`, in its loop with what is left of the array, and before
  `poll`. -/
  | popping
  | producing (msgArray left : List Message)
  | polling
  deriving DecidableEq

/-- Whether RdKafka answers a call with an error. -/
inductive Answer where
  | ok
  | error

namespace ProducerState

def tryEmplace (queueSize : Nat) (s : ProducerState) (message : Message) :
    Option ProducerState :=
  if 0 < queueSize ∧ queueSize ≤ s.messages.length then none
  else some { s with messages := s.messages ++ [message] }

/-- `process_error_`. -/
def processError (s : ProducerState) : ProducerState :=
  { s with
    stats.errorException :=
      s.stats.errorException + if s.stats.disconnected then 0 else 1 }

/-- `consider_connect`. -/
def considerConnect (s : ProducerState) : ProducerState :=
  if s.stats.disconnected then
    { s with stats := { s.stats with disconnected := false, reconnect := s.stats.reconnect + 1 } }
  else s

/-- RdKafka has taken the message. -/
def hand (topic : String) (s : ProducerState) (message : Message) : ProducerState :=
  { s with
    awaiting := ⟨topic, message⟩ ::ₘ s.awaiting
    handedOver := message ::ₘ s.handedOver }

end ProducerState

variable (producer : Producer)

/-- `push_data` comes again for a message of the own topic. -/
def resendMessage (topicName : String) (message : Message) : Multiset ProducerCall :=
  if producer.topicName = topicName then {.pushing message} else 0

def producerSection (answer : Answer) (s : ProducerState) :
    ProducerCall → Option (ProducerState × Multiset ProducerCall)
  | .pushing message =>
    match s.tryEmplace producer.queueSize message with
    | some s => some (s, 0)
    | none => some (s, {.overflowing message})
  | .overflowing message =>
    some ({ s with
      stats.errorOverflow := s.stats.errorOverflow + 1
      overflowed := message ::ₘ s.overflowed }, 0)
  | .connecting =>
    match answer with
    | .ok => some (s, {.popping})
    | .error => some (s.processError, {.reconnecting})
  | .reconnecting => some ({ s with stats.reconnect := s.stats.reconnect + 1 }, {.connecting})
  | .popping =>
    some ({ s with messages := [] },
      if s.messages = [] then {.polling} else {.producing s.messages s.messages})
  | .producing msgArray (message :: left) =>
    match answer with
    | .ok => some (s.hand producer.topicName message, {.producing msgArray left})
    | .error => some (s.processError, {.reconnecting})
  | .producing msgArray [] =>
    some ({ s with stats := { s.stats with
      sent := s.stats.sent + msgArray.length
      sentBytes := s.stats.sentBytes + (msgArray.map fun message => message.data.utf8ByteSize).sum
      } }, {.polling})
  | .polling => some (s, {.popping})

inductive ProducerEvent where
  | pushData (key data : String)
  | goesOn (call : ProducerCall) (answer : Answer)
  /-- A delivery report. -/
  | report (handed : Handed) (err : Bool)
  /-- An event of RdKafka about an error. -/
  | errorEvent (allBrokersDown : Bool)

abbrev ProducerWorld := World ProducerState ProducerCall

/-- `dr_cb`. -/
def ProducerWorld.drCb (w : ProducerWorld) (handed : Handed) (err : Bool) : ProducerWorld :=
  let s := { w.shared with awaiting := w.shared.awaiting.erase handed }
  if err then
    ⟨{ s with failed := handed.message ::ₘ s.failed },
      resendMessage producer handed.topic handed.message + w.calls⟩
  else ⟨{ s.considerConnect with delivered := handed.message ::ₘ s.delivered }, w.calls⟩

def ProducerWorld.step (w : ProducerWorld) : ProducerEvent → Option ProducerWorld
  | .pushData key data =>
    let message := ⟨w.shared.pushed.length, key, data⟩
    some ⟨{ w.shared with pushed := w.shared.pushed ++ [message] }, .pushing message ::ₘ w.calls⟩
  | .goesOn call answer => w.goOn (producerSection producer answer) call
  | .report handed err =>
    if handed ∈ w.shared.awaiting then some (w.drCb producer handed err) else none
  | .errorEvent allBrokersDown =>
    let s :=
      if allBrokersDown then { w.shared with stats.disconnected := true } else w.shared
    some ⟨s.processError, w.calls⟩

/-- Every thread is about to create its handler. -/
def ProducerWorld.start (threads : Nat) : ProducerWorld :=
  ⟨{}, Multiset.replicate threads .connecting⟩

/-- The messages that only this call knows of. -/
def ProducerCall.inHand : ProducerCall → Multiset Message
  | .pushing message | .overflowing message => {message}
  | .producing _ left => left
  | .connecting | .reconnecting | .popping | .polling => 0

/-- A message that was pushed is with a call in progress, or in the queue, or awaits its report, or
was delivered, or counted as an overflow, and in one of these places; and it was handed over once,
or once more for every failure. -/
structure Accounted (w : ProducerWorld) : Prop where
  places : (w.shared.pushed : Multiset Message) =
    w.shared.messages + w.shared.awaiting.map Handed.message + w.shared.delivered +
      w.shared.overflowed + inHands ProducerCall.inHand w.calls
  handedOnce : ∀ message,
    w.shared.handedOver.count message ≤ w.shared.failed.count message + 1

/-- No `produce` fails. -/
def NoneFails (_ : ProducerWorld) : ProducerEvent → Prop
  | .goesOn (.producing _ (_ :: _)) .error => False
  | _ => True

instance (w : ProducerWorld) : ∀ event, Decidable (NoneFails w event)
  | .goesOn (.producing _ (_ :: _)) .error => inferInstanceAs (Decidable False)
  | .goesOn (.producing _ (_ :: _)) .ok | .goesOn (.producing _ []) _ | .goesOn (.pushing _) _
  | .goesOn (.overflowing _) _ | .goesOn .connecting _ | .goesOn .reconnecting _
  | .goesOn .popping _ | .goesOn .polling _ | .pushData .. | .report .. | .errorEvent _ =>
    inferInstanceAs (Decidable True)

@[simp] theorem inHands_replicate (threads : Nat) :
    inHands ProducerCall.inHand (Multiset.replicate threads .connecting) = 0 := by
  induction threads with
  | zero => rfl
  | succ threads ih => rw [Multiset.replicate_succ, inHands_cons, ih]; rfl

/-- What the steps keep. -/
structure ProducerKept (s : ProducerState) (calls : Multiset ProducerCall) : Prop where
  places : (s.pushed : Multiset Message) =
    s.messages + s.awaiting.map Handed.message + s.delivered + s.overflowed +
      inHands ProducerCall.inHand calls
  handed : s.handedOver = s.awaiting.map Handed.message + s.delivered + s.failed
  topics : ∀ handed ∈ s.awaiting, handed.topic = producer.topicName
  distinct : s.pushed.Nodup
  numbered : ∀ message ∈ s.pushed, message.id < s.pushed.length

namespace ProducerKept

variable {producer} {s s' : ProducerState} {calls rest next : Multiset ProducerCall}
variable {call : ProducerCall} {answer : Answer}

variable {w : ProducerWorld} {message : Message}

theorem accounted (kept : ProducerKept producer w.shared w.calls) :
    Accounted w where
  places := kept.places
  handedOnce message := by
    have once : (w.shared.awaiting.map Handed.message + w.shared.delivered).count message ≤ 1 := by
      have pushed := Multiset.nodup_iff_count_le_one.1 (Multiset.coe_nodup.2 kept.distinct) message
      rw [kept.places] at pushed
      simp only [Multiset.count_add] at pushed ⊢
      omega
    rw [kept.handed, Multiset.count_add]
    omega

section
variable (kept : ProducerKept producer s calls)
include kept

theorem withStats (stats : Stats) : ProducerKept producer { s with stats } calls :=
  ⟨kept.places, kept.handed, kept.topics, kept.distinct, kept.numbered⟩

theorem withCalls (same : inHands ProducerCall.inHand calls = inHands ProducerCall.inHand next) :
    ProducerKept producer s next :=
  ⟨same ▸ kept.places, kept.handed, kept.topics, kept.distinct, kept.numbered⟩

theorem pushData (key data : String) :
    ProducerKept producer
      { s with pushed := s.pushed ++ [⟨s.pushed.length, key, data⟩] }
      (.pushing ⟨s.pushed.length, key, data⟩ ::ₘ calls) where
  places := by
    have places := kept.places
    simp only [inHands_cons, ProducerCall.inHand, ← Multiset.coe_add, places,
      Multiset.coe_singleton]
    abel
  handed := kept.handed
  topics := kept.topics
  distinct := by
    refine List.nodup_append.2 ⟨kept.distinct, List.nodup_singleton _, ?_⟩
    rintro message member _ other rfl
    rw [List.mem_singleton] at other
    exact (kept.numbered message member).ne (congrArg Message.id other)
  numbered message member := by
    rw [List.length_append, List.length_singleton]
    obtain old | new := List.mem_append.1 member
    · exact (kept.numbered message old).trans (Nat.lt_succ_self _)
    · rw [List.mem_singleton.1 new]
      exact Nat.lt_succ_self _

end

theorem tryEmplace (kept : ProducerKept producer s (.pushing message ::ₘ rest)) :
    match s.tryEmplace producer.queueSize message with
    | some s' => ProducerKept producer s' rest
    | none => ProducerKept producer s (.overflowing message ::ₘ rest) := by
  unfold ProducerState.tryEmplace
  split_ifs
  · exact kept.withCalls (by simp [ProducerCall.inHand])
  · refine ⟨?_, kept.handed, kept.topics, kept.distinct, kept.numbered⟩
    have places := kept.places
    simp only [inHands_cons, ProducerCall.inHand] at places
    simp only [places, ← Multiset.coe_add, Multiset.coe_singleton]
    abel

theorem overflow (kept : ProducerKept producer s (.overflowing message ::ₘ rest)) :
    ProducerKept producer { s with overflowed := message ::ₘ s.overflowed } rest := by
  refine ⟨?_, kept.handed, kept.topics, kept.distinct, kept.numbered⟩
  have places := kept.places
  simp only [inHands_cons, ProducerCall.inHand] at places
  simp only [places, ← Multiset.singleton_add]
  abel

theorem popAll (kept : ProducerKept producer s (.popping ::ₘ rest)) :
    ProducerKept producer { s with messages := [] }
      ((if s.messages = [] then {.polling} else {.producing s.messages s.messages}) + rest) := by
  refine ⟨?_, kept.handed, kept.topics, kept.distinct, kept.numbered⟩
  have places := kept.places
  simp only [inHands_cons, ProducerCall.inHand] at places
  split_ifs with empty
  · simpa [empty, ProducerCall.inHand] using places
  · simp only [inHands_add, inHands_singleton, ProducerCall.inHand, places, Multiset.coe_nil]
    abel

theorem hand {msgArray left : List Message}
    (kept : ProducerKept producer s (.producing msgArray (message :: left) ::ₘ rest)) :
    ProducerKept producer (s.hand producer.topicName message)
      (.producing msgArray left ::ₘ rest) := by
  refine ⟨?_, ?_, fun handed member => ?_, kept.distinct, kept.numbered⟩
  · have places := kept.places
    simp only [inHands_cons, ProducerCall.inHand, ← Multiset.cons_coe] at places
    simp only [ProducerState.hand, Multiset.map_cons, inHands_cons, ProducerCall.inHand, places]
    simp only [← Multiset.singleton_add]
    abel
  · simp only [ProducerState.hand, kept.handed, Multiset.map_cons, Multiset.cons_add]
  · obtain rfl | old := Multiset.mem_cons.1 member
    · rfl
    · exact kept.topics handed old

theorem report {handed : Handed} (err : Bool) (kept : ProducerKept producer w.shared w.calls)
    (member : handed ∈ w.shared.awaiting) :
    ProducerKept producer (w.drCb producer handed err).shared
      (w.drCb producer handed err).calls := by
  obtain ⟨awaiting, split⟩ := Multiset.exists_cons_of_mem member
  have own := kept.topics handed member
  have topics : ∀ handed ∈ awaiting, handed.topic = producer.topicName := fun handed member =>
    kept.topics handed (split ▸ Multiset.mem_cons_of_mem member)
  have places := kept.places
  have handedOver := kept.handed
  simp only [split, Multiset.map_cons] at places handedOver
  cases err with
  | true =>
    simp only [ProducerWorld.drCb, split, Multiset.erase_cons_head, resendMessage, own, if_pos]
    refine ⟨?_, ?_, topics, kept.distinct, kept.numbered⟩
    · simp only [inHands_add, inHands_singleton, ProducerCall.inHand, places,
        ← Multiset.singleton_add]
      abel
    · simp only [handedOver, ← Multiset.singleton_add]
      abel
  | false =>
    simp only [ProducerWorld.drCb, split, Multiset.erase_cons_head, ProducerState.considerConnect,
      Bool.false_eq_true, if_false]
    split_ifs <;> refine ⟨?_, ?_, topics, kept.distinct, kept.numbered⟩
    all_goals
      simp only [places, handedOver, ← Multiset.singleton_add]
      abel

end ProducerKept

section Runs

variable {producer} {s s' : ProducerState} {rest next : Multiset ProducerCall}
variable {call : ProducerCall} {answer : Answer} {w w' : ProducerWorld} {event : ProducerEvent}

theorem section_kept (kept : ProducerKept producer s (call ::ₘ rest))
    (fits : NoneFails ⟨s, call ::ₘ rest⟩ (.goesOn call answer))
    (stepped : producerSection producer answer s call = some (s', next)) :
    ProducerKept producer s' (next + rest) := by
  cases call with
  | pushing message =>
    have pushed := kept.tryEmplace
    simp only [producerSection] at stepped
    split at stepped <;> rename_i found <;>
      obtain ⟨rfl, rfl⟩ := Prod.mk.inj (Option.some.inj stepped) <;>
      rw [found] at pushed
    · rwa [zero_add]
    · exact pushed
  | overflowing message =>
    obtain ⟨rfl, rfl⟩ := Prod.mk.inj (Option.some.inj stepped)
    rw [zero_add]
    exact kept.overflow.withStats _
  | connecting =>
    cases answer <;> obtain ⟨rfl, rfl⟩ := Prod.mk.inj (Option.some.inj stepped)
    · exact kept.withCalls (by simp [ProducerCall.inHand])
    · exact (kept.withCalls (by simp [ProducerCall.inHand])).withStats _
  | reconnecting =>
    obtain ⟨rfl, rfl⟩ := Prod.mk.inj (Option.some.inj stepped)
    exact (kept.withCalls (by simp [ProducerCall.inHand])).withStats _
  | popping =>
    obtain ⟨rfl, rfl⟩ := Prod.mk.inj (Option.some.inj stepped)
    exact kept.popAll
  | producing msgArray left =>
    cases left with
    | nil =>
      obtain ⟨rfl, rfl⟩ := Prod.mk.inj (Option.some.inj stepped)
      exact (kept.withCalls (by simp [ProducerCall.inHand])).withStats _
    | cons message left =>
      cases answer with
      | ok =>
        obtain ⟨rfl, rfl⟩ := Prod.mk.inj (Option.some.inj stepped)
        exact kept.hand
      | error => exact fits.elim
  | polling =>
    obtain ⟨rfl, rfl⟩ := Prod.mk.inj (Option.some.inj stepped)
    exact kept.withCalls (by simp [ProducerCall.inHand])

theorem section_needs (kept : ProducerKept producer s (call ::ₘ rest))
    (stepped : producerSection producer answer s call = some (s', next))
    (accounted : Accounted ⟨s', next + rest⟩) :
    NoneFails ⟨s, call ::ₘ rest⟩ (.goesOn call answer) := by
  obtain ⟨msgArray, message, left, rfl, rfl⟩ | fits :
      (∃ msgArray message left, call = .producing msgArray (message :: left) ∧
        answer = .error) ∨ NoneFails ⟨s, call ::ₘ rest⟩ (.goesOn call answer) := by
    unfold NoneFails
    split
    · rename_i failing
      obtain ⟨rfl, rfl⟩ := ProducerEvent.goesOn.inj failing
      exact .inl ⟨_, _, _, rfl, rfl⟩
    · exact .inr trivial
  · -- the rest of the array is nowhere
    obtain ⟨rfl, rfl⟩ := Prod.mk.inj (Option.some.inj stepped)
    have before := congrArg Multiset.card kept.places
    have after := congrArg Multiset.card accounted.places
    simp only [ProducerState.processError, inHands_add, inHands_cons, inHands_singleton,
      ProducerCall.inHand, Multiset.card_add, Multiset.coe_card, List.length_cons,
      Multiset.card_zero] at before after
    omega
  · exact fits

theorem ProducerWorld.step_kept (kept : ProducerKept producer w.shared w.calls)
    (fits : NoneFails w event) (stepped : w.step producer event = some w') :
    ProducerKept producer w'.shared w'.calls := by
  cases event with
  | pushData key data =>
    cases stepped
    exact kept.pushData key data
  | goesOn call answer =>
    obtain ⟨shared, calls⟩ := w
    obtain ⟨rest, next, rfl, section_, after⟩ := World.goOn_cases stepped
    exact after ▸ section_kept kept fits section_
  | report handed err =>
    simp only [step, Option.ite_none_right_eq_some] at stepped
    obtain ⟨member, same⟩ := stepped
    cases same
    exact kept.report err member
  | errorEvent allBrokersDown =>
    cases stepped
    cases allBrokersDown <;> exact kept.withStats _

theorem ProducerWorld.step_needs (kept : ProducerKept producer w.shared w.calls)
    (stepped : w.step producer event = some w') (accounted : Accounted w') :
    NoneFails w event := by
  cases event with
  | goesOn call answer =>
    obtain ⟨shared, calls⟩ := w
    obtain ⟨shared', calls'⟩ := w'
    obtain ⟨rest, next, rfl, section_, rfl⟩ := World.goOn_cases stepped
    exact section_needs kept section_ accounted
  | _ => exact trivial

theorem ProducerWorld.start_kept (threads : Nat) :
    ProducerKept producer (start threads).shared (start threads).calls where
  places := by simp [start]
  handed := rfl
  topics _ member := absurd member (Multiset.notMem_zero _)
  distinct := List.nodup_nil
  numbered _ member := absurd member List.not_mem_nil

theorem run_accounted (producer : Producer) (threads : Nat) {events : List ProducerEvent}
    (ran : run (ProducerWorld.step producer) (.start threads) events = some w) :
    (∀ before after w₁, events = before ++ after →
      run (ProducerWorld.step producer) (.start threads) before = some w₁ → Accounted w₁) ↔
    Along (ProducerWorld.step producer) NoneFails (.start threads) events :=
  throughout_iff (fun w : ProducerWorld => ProducerKept producer w.shared w.calls) Accounted
    ProducerKept.accounted ProducerWorld.step_kept ProducerWorld.step_needs
    (ProducerWorld.start_kept threads) ran

end Runs

/-- One message is delivered after a failed delivery, the other one is still in the queue. -/
def resent : List ProducerEvent :=
  let message := ⟨0, "a", "1"⟩
  [.goesOn .connecting .ok, .pushData "a" "1", .goesOn (.pushing message) .ok,
    .goesOn .popping .ok, .goesOn (.producing [message] [message]) .ok,
    .pushData "b" "2", .goesOn (.pushing ⟨1, "b", "2"⟩) .ok, .goesOn (.producing [message] []) .ok,
    .report ⟨"topic", message⟩ true, .goesOn .polling .ok]

theorem run_accounted_resent :
    ∃ w, run (ProducerWorld.step ⟨"topic", 2⟩) (.start 1) resent = some w ∧
      ∀ before after w₁, resent = before ++ after →
        run (ProducerWorld.step ⟨"topic", 2⟩) (.start 1) before = some w₁ → Accounted w₁ := by
  obtain ⟨w, ran⟩ : ∃ w, run (ProducerWorld.step ⟨"topic", 2⟩) (.start 1) resent = some w :=
    ⟨_, rfl⟩
  exact ⟨w, ran, (run_accounted ⟨"topic", 2⟩ 1 ran).2 (by decide)⟩

/-- RdKafka fails at the first message of an array of two. -/
def failing : List ProducerEvent :=
  let message := ⟨0, "a", "1"⟩
  let message' := ⟨1, "b", "2"⟩
  [.pushData "a" "1", .goesOn (.pushing message) .ok, .pushData "b" "2",
    .goesOn (.pushing message') .ok, .goesOn .connecting .ok, .goesOn .popping .ok,
    .goesOn (.producing [message, message'] [message, message']) .error]

theorem failing_not_accounted : ¬∀ (events : List ProducerEvent) w,
    run (ProducerWorld.step ⟨"topic", 2⟩) (.start 1) events = some w → Accounted w := by
  intro accounted
  have places := (accounted failing ⟨{
    stats.errorException := 1
    pushed := [⟨0, "a", "1"⟩, ⟨1, "b", "2"⟩] }, {.reconnecting}⟩ rfl).places
  exact absurd (congrArg Multiset.card places) (by decide)

end AdServer.Commons.Kafka
