import AdServer.LogCommons.EldestFile
import Mathlib.Data.List.Sort

/-!
# The facade over several file receivers

Consumers take the eldest file of the receivers. A receiver with nothing left is parked among
`empty_file_receivers_`, and what comes first into it is signalled, after its lock is dropped;
a signal waits for the lock of the holder, which a consumer keeps from before its call until
it has parked the holder.
-/

namespace AdServer.LogProcessing

variable {LogType Name Key : Type} [DecidableEq LogType] [LinearOrder Name] [LinearOrder Key]

/-- `empty()`. -/
def FileReceiver.isEmpty (r : FileReceiver Name) : Bool :=
  r.oldestNotInFiles.isNone && decide (r.files = ∅)

/-- The holders, by their numbers, each with its type and its receiver, and the strategy. -/
structure FacadeConfig (LogType Name Key : Type) where
  holders : Nat
  type : Nat → LogType
  fileReceiver : Nat → Nat
  maxFilesToStore : Nat → Nat
  initialKey : LogType → Key
  key : LogType → WithBot Name → Key

/-- Each holder has a type and a receiver of its own, and each receiver lists some files. -/
structure FacadeConfig.OneEach (config : FacadeConfig LogType Name Key) : Prop where
  types : ∀ h < config.holders, ∀ h' < config.holders, config.type h = config.type h' → h = h'
  fileReceivers : ∀ h < config.holders, ∀ h' < config.holders,
    config.fileReceiver h = config.fileReceiver h' → h = h'
  room : ∀ r, 1 ≤ config.maxFilesToStore r

structure FileReceiverFacade (Key : Type) where
  fileReceivers : List Nat
  emptyFileReceivers : List Nat
  keys : Nat → Key

namespace FileReceiverFacade

variable (config : FacadeConfig LogType Name Key)

def new : FileReceiverFacade Key where
  fileReceivers := List.range config.holders
  emptyFileReceivers := []
  keys := fun h => config.initialKey (config.type h)

/-- `find_holder_i_`. -/
def findHolder (holders : List Nat) (type : LogType) : Option Nat :=
  holders.find? fun h => decide (config.type h = type)

def sort (f : FileReceiverFacade Key) : FileReceiverFacade Key :=
  { f with fileReceivers := f.fileReceivers.insertionSort fun h h' => f.keys h ≤ f.keys h' }

/-- `on_top_changed`. -/
def onTopChanged (h : Nat) (newTop : Name) (f : FileReceiverFacade Key) : FileReceiverFacade Key :=
  let newKey := config.key (config.type h) newTop
  match findHolder config f.emptyFileReceivers (config.type h) with
  | some it =>
    sort {
      fileReceivers := f.fileReceivers ++ [it]
      emptyFileReceivers := f.emptyFileReceivers.erase it
      keys := Function.update f.keys h newKey }
  | none =>
    if newKey < f.keys h then sort { f with keys := Function.update f.keys h newKey } else f.sort

/-- The holder moves to the empty ones. -/
def park (h : Nat) (f : FileReceiverFacade Key) : FileReceiverFacade Key :=
  match findHolder config f.fileReceivers (config.type h) with
  | none => f
  | some it =>
    { f with
      emptyFileReceivers := f.emptyFileReceivers ++ [it]
      fileReceivers := f.fileReceivers.erase it }

/-- The end of `get_eldest`, with what the receiver gave. -/
def afterEldest (h : Nat) (fileGuard : Option Name) (newTop : Oldest Name)
    (f : FileReceiverFacade Key) : FileReceiverFacade Key :=
  match newTop, fileGuard with
  | some top, some _ =>
    sort { f with keys := Function.update f.keys h (config.key (config.type h) top) }
  | _, _ => f.park config h

end FileReceiverFacade

/-! ## Consumers and signals -/

/-- Where a consumer is: at the loop head or in `timed_wait`, with a holder that it has read
from the list, inside the call of its receiver, or past that. The last two hold its lock. -/
inductive Consumer (Name : Type) where
  | waiting
  | picked (holder : Nat)
  | calling (holder : Nat)
  | served (holder : Nat) (fileGuard : Option Name) (newTop : Oldest Name)

structure Serving (Name Key : Type) where
  facade : FileReceiverFacade Key
  /-- Who holds `FileReceiverHolder::lock`. -/
  lockedBy : Nat → Option Nat
  receivers : Nat → Receiving Name
  consumers : Nat → Consumer Name
  /-- The calls of `on_top_changed` that are on their way. -/
  signals : List (Nat × Name)

/-- A section of a call of this thread. -/
def Event.isOf (thread : Nat) (w : Receiving Name) : Event Name → Bool
  | .call t => t == thread
  | .lockFetch t => t == thread
  | .take t => t == thread
  | .deliver _ => w.scan.any fun scan => scan.thread == thread
  | .failScan => w.scan.any fun scan => scan.thread == thread
  | .endScan => w.scan.any fun scan => scan.thread == thread
  | _ => false

/-- The section that ends the call. -/
def Event.returns (w : Receiving Name) : Event Name → Bool
  | .call _ => !w.receiver.fetchInternalInProgress && w.receiver.knowsEldest
  | .take _ => true
  | _ => false

def Event.throws : Event Name → Bool
  | .failScan => true
  | _ => false

inductive ServingEvent (Name : Type) where
  | fetch (receiver : Nat) (name : Name)
  | revert (receiver : Nat) (index : Nat)
  | remove (receiver : Nat) (index : Nat)
  | destroy (receiver : Nat) (index : Nat)
  | pick (consumer : Nat)
  | lock (consumer : Nat)
  /-- A section of the receiver's `get_eldest`. -/
  | receive (consumer : Nat) (event : Event Name)
  | finish (consumer : Nat)
  | signal (index : Nat)

namespace Serving

variable (config : FacadeConfig LogType Name Key)

def start (receivers : Nat → Receiving Name) : Serving Name Key :=
  ⟨.new config, fun _ => none, receivers, fun _ => .waiting, []⟩

def setReceiver (s : Serving Name Key) (receiver : Nat) (w : Receiving Name) :
    Serving Name Key :=
  { s with receivers := Function.update s.receivers receiver w }

def setConsumer (s : Serving Name Key) (consumer : Nat) (phase : Consumer Name) :
    Serving Name Key :=
  { s with consumers := Function.update s.consumers consumer phase }

def setLock (s : Serving Name Key) (holder : Nat) (consumer : Option Nat) : Serving Name Key :=
  { s with lockedBy := Function.update s.lockedBy holder consumer }

/-- What `check_top_changed_` calls. -/
def topChanged (receiver : Nat) (top : Oldest Name) (name : Name) : List (Nat × Name) :=
  if top = some (name : WithBot Name) then
    ((List.range config.holders).filter fun h => config.fileReceiver h == receiver).map (·, name)
  else []

def step (s : Serving Name Key) : ServingEvent Name → Option (Serving Name Key)
  | .fetch r name =>
    ((s.receivers r).step (config.maxFilesToStore r) (.fetch name)).map fun w =>
      let top := ((s.receivers r).receiver.addFile (config.maxFilesToStore r) name).1
      { s.setReceiver r w with signals := s.signals ++ topChanged config r top name }
  | .revert r index =>
    match (s.receivers r).guards[index]? with
    | none => none
    | some held =>
      ((s.receivers r).step (config.maxFilesToStore r) (.revert index)).map fun w =>
        let top := ((s.receivers r).receiver.revert (config.maxFilesToStore r) held.name).1
        { s.setReceiver r w with signals := s.signals ++ topChanged config r top held.name }
  | .remove r index =>
    ((s.receivers r).step (config.maxFilesToStore r) (.remove index)).map fun w =>
      s.setReceiver r w
  | .destroy r index =>
    ((s.receivers r).step (config.maxFilesToStore r) (.destroy index)).map fun w =>
      s.setReceiver r w
  | .pick c =>
    match s.consumers c, s.facade.fileReceivers with
    | .waiting, h :: _ => some (s.setConsumer c (.picked h))
    | _, _ => none
  | .lock c =>
    match s.consumers c with
    | .picked h =>
      if (s.lockedBy h).isNone then some ((s.setConsumer c (.calling h)).setLock h (some c))
      else none
    | _ => none
  | .receive c event =>
    match s.consumers c with
    | .calling h =>
      let r := config.fileReceiver h
      let before := s.receivers r
      if event.isOf c before then
        (before.step (config.maxFilesToStore r) event).map fun w =>
          let s := s.setReceiver r w
          if event.returns before then
            let (fileGuard, newTop, _) := before.receiver.getEldestI
            s.setConsumer c (.served h fileGuard newTop)
          else if event.throws then (s.setConsumer c .waiting).setLock h none
          else s
      else none
    | _ => none
  | .finish c =>
    match s.consumers c with
    | .served h fileGuard newTop =>
      some { (s.setConsumer c .waiting).setLock h none with
        facade := s.facade.afterEldest config h fileGuard newTop }
    | _ => none
  | .signal index =>
    match s.signals[index]? with
    | none => none
    | some (h, newTop) =>
      if (s.lockedBy h).isNone then
        some { s with
          facade := s.facade.onTopChanged config h newTop
          signals := s.signals.eraseIdx index }
      else none

def run (s : Serving Name Key) : List (ServingEvent Name) → Option (Serving Name Key)
  | [] => some s
  | event :: events => (s.step config event).bind (·.run events)

end Serving

/-! ## What is promised -/

/-- Only consumers that wait are left. -/
def Serving.Quiet (s : Serving Name Key) : Prop :=
  (∀ c, s.consumers c = .waiting) ∧ s.signals = []

structure ServesEldest (config : FacadeConfig LogType Name Key) (s : Serving Name Key) :
    Prop where
  eldest : ∀ r listing, (s.receivers r).scan = none →
    (∀ name, name ∈ listing ↔ name ∈ (s.receivers r).dir) →
    (Event.lockFetch 0).Fresh (s.receivers r) →
      let before := (s.receivers r).receiver
      let result := before.getEldest (config.maxFilesToStore r) listing
      GivesEldest ((s.receivers r).dir \ before.inProgressFiles) (¬ before.knowsEldest = true)
        result.2.2.oldestNotInFiles result.1 result.2.1
  one_list : ∀ h < config.holders,
    (s.facade.fileReceivers ++ s.facade.emptyFileReceivers).count h = 1
  parked : s.Quiet → ∀ h ∈ s.facade.emptyFileReceivers,
    (s.receivers (config.fileReceiver h)).receiver.isEmpty = true

/-- As for one receiver: no scan begins over a stale name. -/
def ServingEvent.Fresh (config : FacadeConfig LogType Name Key) (s : Serving Name Key) :
    ServingEvent Name → Prop
  | .receive c event =>
    ∀ h, s.consumers c = .calling h → event.Fresh (s.receivers (config.fileReceiver h))
  | _ => True

def FreshServing (config : FacadeConfig LogType Name Key) (s : Serving Name Key) :
    List (ServingEvent Name) → Prop
  | [] => True
  | event :: events => event.Fresh config s ∧
      ∀ s', s.step config event = some s' → FreshServing config s' events

section Section

variable {maxFilesToStore : Nat} {w w' : Receiving Name} {thread : Nat} {event : Event Name}

open FileReceiver

/-- The thread is inside its call, past the first section. -/
def Receiving.Inside (w : Receiving Name) (thread : Nat) : Prop :=
  w.threads thread ≠ .idle ∨ ∃ scan ∈ w.scan, scan.thread = thread

/-- Nothing is left, and no scan is going on. -/
def Receiving.Exhausted (w : Receiving Name) : Prop :=
  w.scan = none ∧ w.receiver.files = ∅ ∧ w.receiver.oldestNotInFiles = none

structure Receiving.Orderly (w : Receiving Name) : Prop where
  scanner : ∀ scan ∈ w.scan, w.threads scan.thread = .idle
  telling : w.scan.isSome ∨ (∃ thread, w.threads thread = .mustTake) →
    w.receiver.knowsEldest = true

variable {r : FileReceiver Name} {phase : Phase}

theorem topOf_eq_none (h : r.topOf = none) : r.files = ∅ ∧ r.oldestNotInFiles = none := by
  cases first : first? r.files with
  | none => exact ⟨first?_eq_none first, (topOf_of_empty first).symm.trans h⟩
  | some name =>
    obtain ⟨top, there, -⟩ := topOf_le first
    rw [h] at there
    cases there

/-- A window that tells, and gives nothing or has nothing left, is empty afterwards. -/
theorem empty_of_getEldestI (knows : r.knowsEldest = true)
    (last : r.getEldestI.2.1 = none ∨ r.getEldestI.1 = none) :
    r.getEldestI.2.2.files = ∅ ∧ r.getEldestI.2.2.oldestNotInFiles = none := by
  cases first : first? r.files with
  | none =>
    have same : r.getEldestI.2.2 = r := by simp [getEldestI, first]
    rw [same]
    exact ⟨first?_eq_none first, mark_of_empty knows first⟩
  | some name =>
    let taken := { r with
      files := r.files.erase name, inProgressFiles := insert name r.inProgressFiles }
    have result : r.getEldestI = (some name, taken.topOf, taken) := by
      simp [getEldestI, first, taken]
    rw [result] at last ⊢
    exact topOf_eq_none (last.resolve_right (fun h => by cases h))

/-- What the section of a thread does that is alone in its receiver. -/
structure OwnSection (w w' : Receiving Name) (thread : Nat) (event : Event Name) : Prop where
  inside : ∀ t, w'.Inside t → t = thread ∧ event.returns w = false ∧ event.throws = false
  orderly : w'.Orderly
  exhausted : w.Exhausted → w'.Exhausted
  returned : event.returns w = true →
    w.receiver.getEldestI.2.1 = none ∨ w.receiver.getEldestI.1 = none → w'.Exhausted

omit [LinearOrder Name] in
theorem setPhase_inside {t : Nat} (alone : ∀ t, w.Inside t → t = thread)
    (inside : (w.setPhase thread phase).Inside t) : t = thread := by
  obtain busy | scanning := inside
  · by_contra other
    refine other (alone t (.inl ?_))
    simpa [Receiving.setPhase, other] using busy
  · exact alone t (.inr scanning)

theorem orderly_of_left (left : ∀ t, ¬ w.Inside t) : w.Orderly where
  scanner scan going := absurd (.inr ⟨scan, going, rfl⟩) (left scan.thread)
  telling busy := by
    obtain scanning | ⟨t, must⟩ := busy
    · obtain ⟨scan, going⟩ := Option.isSome_iff_exists.1 scanning
      exact absurd (.inr ⟨scan, going, rfl⟩) (left scan.thread)
    · exact absurd (.inl (by simp [must])) (left t)

theorem own_taken (alone : ∀ t, w.Inside t → t = thread) (free : w.scan = none)
    (knows : w.receiver.knowsEldest = true) : OwnSection w (w.taken thread) thread event := by
  have left : ∀ t, ¬ (w.taken thread).Inside t := by
    rintro t (busy | ⟨scan, going, -⟩)
    · have inside : (w.setPhase thread .idle).Inside t := .inl busy
      obtain rfl := setPhase_inside alone inside
      exact busy (if_pos rfl)
    · rw [show (w.taken thread).scan = w.scan from rfl, free] at going
      cases going
  refine ⟨fun t inside => absurd inside (left t), orderly_of_left left, ?_, ?_⟩
  · rintro ⟨-, files, mark⟩
    have same : w.receiver.getEldestI.2.2 = w.receiver := by
      simp [getEldestI, files, first?]
    exact ⟨free, by rw [show (w.taken thread).receiver = w.receiver from same]; exact ⟨files, mark⟩⟩
  · exact fun _ last => ⟨free, empty_of_getEldestI knows last⟩

theorem own_setPhase (orderly : w.Orderly) (alone : ∀ t, w.Inside t → t = thread)
    (free : w.scan = none) (knows : phase = .mustTake → w.receiver.knowsEldest = true)
    (goes_on : event.returns w = false ∧ event.throws = false) :
    OwnSection w (w.setPhase thread phase) thread event where
  inside t inside := ⟨setPhase_inside alone inside, goes_on⟩
  orderly := by
    refine ⟨fun scan going => ?_, fun busy => ?_⟩
    · rw [show (w.setPhase thread phase).scan = w.scan from rfl, free] at going
      cases going
    · obtain scanning | ⟨t, must⟩ := busy
      · rw [show (w.setPhase thread phase).scan = w.scan from rfl, free] at scanning
        cases scanning
      · by_cases own : t = thread
        · exact knows (by simpa [Receiving.setPhase, own] using must)
        · exact orderly.telling (.inr ⟨t, by simpa [Receiving.setPhase, own] using must⟩)
  exhausted := id
  returned returns := by
    rw [goes_on.1] at returns
    cases returns

theorem own_section (positive : 1 ≤ maxFilesToStore) (orderly : w.Orderly)
    (fetching : w.receiver.fetchInternalInProgress = w.scan.isSome)
    (alone : ∀ t, w.Inside t → t = thread) (own : event.isOf thread w = true)
    (step : w.step maxFilesToStore event = some w') : OwnSection w w' thread event := by
  have scanner : ∀ scan, w.scan = some scan → scan.thread = thread := fun scan going =>
    alone _ (.inr ⟨scan, going, rfl⟩)
  cases event with
  | call t =>
    obtain rfl : t = thread := by simpa [Event.isOf] using own
    simp only [Receiving.step] at step
    split_ifs at step with idle direct
    · cases step
      simp only [Bool.and_eq_true, Bool.not_eq_true', fetching] at direct
      exact own_taken alone (by simpa using direct.1) direct.2
    · cases step
      have free : w.scan = none := by
        cases going : w.scan with
        | none => rfl
        | some scan => exact absurd (scanner scan going) (idle.2 scan going)
      exact own_setPhase orderly alone free (fun h => by cases h)
        ⟨by simpa [Event.returns] using direct, rfl⟩
  | lockFetch t =>
    obtain rfl : t = thread := by simpa [Event.isOf] using own
    simp only [Receiving.step] at step
    split_ifs at step with ready
    have free := Option.isNone_iff_eq_none.1 ready.2
    by_cases knows : w.receiver.knowsEldest = true
    · rw [beginFetch_of_knows knows] at step
      cases step
      exact own_setPhase orderly alone free (fun _ => knows) ⟨rfl, rfl⟩
    · obtain ⟨backup, begun⟩ := beginFetch_of_not_knows knows
      rw [begun] at step
      cases step
      refine ⟨?_, ⟨?_, fun _ => knowsEldest_iff.2 (fun _ h => by cases h)⟩, ?_,
        (fun h => by cases h)⟩
      · rintro u (busy | ⟨_, ⟨⟩, rfl⟩)
        · exact ⟨setPhase_inside alone (.inl busy), rfl, rfl⟩
        · exact ⟨rfl, rfl, rfl⟩
      · rintro _ ⟨⟩
        exact if_pos rfl
      · rintro ⟨-, -, mark⟩
        exact absurd (knowsEldest_iff.2 (by simp [mark])) knows
  | deliver name =>
    simp only [Receiving.step] at step
    split at step
    · cases step
    · next scan going =>
      split_ifs at step
      cases step
      refine ⟨?_, ⟨?_, fun _ => ?_⟩, ?_, (fun h => by cases h)⟩
      · rintro t (busy | ⟨_, ⟨⟩, rfl⟩)
        · exact ⟨alone t (.inl busy), rfl, rfl⟩
        · exact ⟨scanner scan going, rfl, rfl⟩
      · rintro _ ⟨⟩
        exact orderly.scanner scan going
      · exact knowsEldest_handler positive (orderly.telling (.inl (by simp [going]))) name
      · rintro ⟨free, -⟩
        rw [free] at going
        cases going
  | failScan =>
    obtain ⟨scan, going, rfl⟩ := Option.map_eq_some_iff.1 step
    have left : ∀ t, ¬ Receiving.Inside
        { w with receiver := w.receiver.failFetch scan.backup, scan := none } t := by
      rintro t (busy | ⟨_, ⟨⟩, -⟩)
      obtain rfl := alone t (.inl busy)
      exact busy (scanner scan going ▸ orderly.scanner scan going)
    refine ⟨fun t inside => absurd inside (left t), orderly_of_left left, ?_, (fun h => by cases h)⟩
    rintro ⟨free, -⟩
    rw [free] at going
    cases going
  | endScan =>
    simp only [Receiving.step] at step
    split at step
    · cases step
    · next scan going =>
      split_ifs at step
      cases step
      refine ⟨?_, ⟨(fun _ h => by cases h), fun _ => ?_⟩, ?_, (fun h => by cases h)⟩
      · rintro t (busy | ⟨_, ⟨⟩, -⟩)
        obtain rfl := scanner scan going
        exact ⟨setPhase_inside alone (.inl busy), rfl, rfl⟩
      · exact orderly.telling (.inl (by simp [going]))
      · rintro ⟨free, -⟩
        rw [free] at going
        cases going
  | take t =>
    obtain rfl : t = thread := by simpa [Event.isOf] using own
    simp only [Receiving.step] at step
    split_ifs at step with must
    cases step
    have free : w.scan = none := by
      cases going : w.scan with
      | none => rfl
      | some scan =>
        have idle := orderly.scanner scan going
        rw [scanner scan going, must] at idle
        cases idle
    exact own_taken alone free (orderly.telling (.inr ⟨_, must⟩))
  | fetch name => cases own
  | revert index => cases own
  | remove index => cases own
  | destroy index => cases own

/-- What a file that comes, goes back, or is processed does to the calls. -/
structure OtherSection (w w' : Receiving Name) : Prop where
  inside : ∀ t, w'.Inside t → w.Inside t
  orderly : w'.Orderly

theorem other_section (orderly : w.Orderly) (threads : w'.threads = w.threads)
    (scans : w'.scan.map Scan.thread = w.scan.map Scan.thread)
    (knows : w.receiver.knowsEldest = true → w'.receiver.knowsEldest = true) :
    OtherSection w w' := by
  have before : ∀ scan, w'.scan = some scan →
      ∃ earlier, w.scan = some earlier ∧ earlier.thread = scan.thread := fun scan going => by
    rw [going] at scans
    exact Option.map_eq_some_iff.1 scans.symm
  refine ⟨?_, ⟨fun scan going => ?_, fun busy => knows (orderly.telling ?_)⟩⟩
  · rintro t (busy | ⟨scan, going, rfl⟩)
    · exact .inl (threads ▸ busy)
    · exact .inr (before scan going)
  · obtain ⟨earlier, going, same⟩ := before scan going
    rw [threads, ← same]
    exact orderly.scanner earlier going
  · obtain scanning | must := busy
    · obtain ⟨scan, going⟩ := Option.isSome_iff_exists.1 scanning
      obtain ⟨earlier, going, -⟩ := before scan going
      exact .inl (by simp [going])
    · exact .inr (threads ▸ must)

theorem addFile_top (positive : 1 ≤ maxFilesToStore) (files : r.files = ∅)
    (mark : r.oldestNotInFiles = none) (name : Name) :
    (r.addFile maxFilesToStore name).1 = some (name : WithBot Name) := by
  have room : ¬ maxFilesToStore < 1 := not_lt.2 positive
  simp only [addFile, files, insert_empty_eq, Finset.card_singleton, if_neg room, mark, first?,
    Finset.min_singleton]
  rfl

end Section

namespace FileReceiverFacade

variable {config : FacadeConfig LogType Name Key} {f : FileReceiverFacade Key} {h : Nat}

/-- The two lists hold every holder once. -/
def ListsAll (config : FacadeConfig LogType Name Key) (f : FileReceiverFacade Key) : Prop :=
  (f.fileReceivers ++ f.emptyFileReceivers).Perm (List.range config.holders)

omit [DecidableEq LogType] [LinearOrder Name] [LinearOrder Key] in
theorem ListsAll.lt (all : ListsAll config f) :
    (∀ h ∈ f.fileReceivers, h < config.holders) ∧
      ∀ h ∈ f.emptyFileReceivers, h < config.holders :=
  ⟨fun _ there => List.mem_range.1 (all.mem_iff.1 (List.mem_append_left _ there)),
    fun _ there => List.mem_range.1 (all.mem_iff.1 (List.mem_append_right _ there))⟩

omit [LinearOrder Name] [LinearOrder Key] in
/-- With one holder of each type the search by type finds the holder itself. -/
theorem findHolder_eq (each : config.OneEach) {holders : List Nat}
    (inside : ∀ h ∈ holders, h < config.holders) (bound : h < config.holders) :
    findHolder config holders (config.type h) = if h ∈ holders then some h else none := by
  unfold findHolder
  split_ifs with there
  · obtain ⟨found, eq⟩ := Option.isSome_iff_exists.1
      (List.find?_isSome (p := fun h' => decide (config.type h' = config.type h)) |>.2
        ⟨h, there, by simp⟩)
    have same := each.types found (inside found (List.mem_of_find?_eq_some eq)) h bound
      (by simpa using List.find?_some eq)
    rw [eq, same]
  · refine List.find?_eq_none.2 fun h' there' same => there ?_
    exact each.types h' (inside h' there') h bound (by simpa using same) ▸ there'

omit [DecidableEq LogType] [LinearOrder Name] in
theorem ListsAll.sort (all : ListsAll config f) : ListsAll config f.sort :=
  ((List.perm_insertionSort _ _).append_right _).trans all

omit [LinearOrder Name] [LinearOrder Key] in
theorem park_spec (each : config.OneEach) (all : ListsAll config f) (bound : h < config.holders) :
    ListsAll config (f.park config h) ∧
      ∀ h' ∈ (f.park config h).emptyFileReceivers, h' ∈ f.emptyFileReceivers ∨ h' = h := by
  unfold park
  rw [findHolder_eq each all.lt.1 bound]
  split_ifs with there
  · refine ⟨List.Perm.trans ?_ all, fun h' parked => ?_⟩
    · rw [← List.append_assoc]
      exact (List.perm_append_singleton h _).trans
        ((List.perm_cons_erase there).symm.append_right _)
    · simpa using parked
  · exact ⟨all, fun h' parked => .inl parked⟩

omit [LinearOrder Name] in
theorem afterEldest_spec (each : config.OneEach) (all : ListsAll config f)
    (bound : h < config.holders) (fileGuard : Option Name)
    (newTop : Oldest Name) :
    ListsAll config (f.afterEldest config h fileGuard newTop) ∧
      ∀ h' ∈ (f.afterEldest config h fileGuard newTop).emptyFileReceivers,
        h' ∈ f.emptyFileReceivers ∨ h' = h ∧ (newTop = none ∨ fileGuard = none) := by
  unfold afterEldest
  split
  · exact ⟨ListsAll.sort all, fun h' parked => .inl parked⟩
  · next last =>
    obtain ⟨all, parked⟩ := park_spec each all bound
    refine ⟨all, fun h' there => (parked h' there).imp_right fun same => ⟨same, ?_⟩⟩
    cases newTop with
    | none => exact .inl rfl
    | some top =>
      cases fileGuard with
      | none => exact .inr rfl
      | some name => exact absurd rfl (last top name rfl)

omit [LinearOrder Name] in
theorem onTopChanged_spec (each : config.OneEach) (all : ListsAll config f)
    (bound : h < config.holders) (newTop : Name) :
    ListsAll config (f.onTopChanged config h newTop) ∧
      ∀ h' ∈ (f.onTopChanged config h newTop).emptyFileReceivers,
        h' ∈ f.emptyFileReceivers ∧ h' ≠ h := by
  have once : f.emptyFileReceivers.Nodup :=
    (List.nodup_append.1 (all.nodup_iff.2 List.nodup_range)).2.1
  unfold onTopChanged
  rw [findHolder_eq each all.lt.2 bound]
  split_ifs with there
  · refine ⟨ListsAll.sort (List.Perm.trans ?_ all), fun h' parked => ?_⟩
    · rw [List.append_assoc]
      exact (List.perm_cons_erase there).symm.append_left _
    · obtain ⟨other, parked⟩ := once.mem_erase_iff.1 parked
      exact ⟨parked, other⟩
  · dsimp only
    split_ifs
    · exact ⟨ListsAll.sort all, fun h' parked => ⟨parked, fun same => there (same ▸ parked)⟩⟩
    · exact ⟨ListsAll.sort all, fun h' parked => ⟨parked, fun same => there (same ▸ parked)⟩⟩

end FileReceiverFacade

/-! ## What is kept -/

/-- The holder that a consumer works with. -/
def Consumer.holder? : Consumer Name → Option Nat
  | .waiting => none
  | .picked h => some h
  | .calling h => some h
  | .served h _ _ => some h

/-- The holder whose lock a consumer holds. -/
def Consumer.locked? : Consumer Name → Option Nat
  | .calling h => some h
  | .served h _ _ => some h
  | _ => none

/-- The holder is parked, or its consumer is about to park it. -/
def Serving.Resting (s : Serving Name Key) (h : Nat) : Prop :=
  h ∈ s.facade.emptyFileReceivers ∨ ∃ c fileGuard newTop,
    s.consumers c = .served h fileGuard newTop ∧ (newTop = none ∨ fileGuard = none)

def Serving.Signalled (s : Serving Name Key) (h : Nat) : Prop := ∃ name, (h, name) ∈ s.signals

/-- The locks are those that the consumers hold. -/
def Owned (consumers : Nat → Consumer Name) (lockedBy : Nat → Option Nat) : Prop :=
  ∀ c h, (consumers c).locked? = some h ↔ lockedBy h = some c

structure Serves (config : FacadeConfig LogType Name Key) (s : Serving Name Key) : Prop where
  received : ∀ r, Received (config.maxFilesToStore r) none (s.receivers r)
  orderly : ∀ r, (s.receivers r).Orderly
  lists : s.facade.ListsAll config
  holder : ∀ c h, (s.consumers c).holder? = some h → h < config.holders
  owner : Owned s.consumers s.lockedBy
  signalled : ∀ signal ∈ s.signals, signal.1 < config.holders
  inside : ∀ r t, (s.receivers r).Inside t →
    ∃ h, s.consumers t = .calling h ∧ config.fileReceiver h = r
  awake : ∀ h < config.holders, s.Resting h →
    (s.receivers (config.fileReceiver h)).Exhausted ∨ s.Signalled h

section Serves

variable {config : FacadeConfig LogType Name Key} {s s' : Serving Name Key}

variable {c h r index : Nat} {w : Receiving Name} {top : Oldest Name} {name : Name}
  {event : Event Name}

omit [DecidableEq LogType] [LinearOrder Key] in
/-- Only the consumer with the lock of a holder is inside its receiver. -/
theorem Serves.alone (serves : Serves config s) (each : config.OneEach)
    (calling : s.consumers c = .calling h) {t : Nat}
    (inside : (s.receivers (config.fileReceiver h)).Inside t) : t = c := by
  obtain ⟨h', calling', same⟩ := serves.inside _ t inside
  obtain rfl := each.fileReceivers h' (serves.holder t h' (by rw [calling']; rfl)) h
    (serves.holder c h (by rw [calling]; rfl)) same
  have locked := (serves.owner t h').1 (by rw [calling']; rfl)
  rw [(serves.owner c h').1 (by rw [calling]; rfl)] at locked
  exact (Option.some.inj locked).symm

omit [DecidableEq LogType] [LinearOrder Key] in
theorem Serves.setReceiver (serves : Serves config s)
    (received : Received (config.maxFilesToStore r) none w) (other : OtherSection (s.receivers r) w)
    (signals : List (Nat × Name)) (known : ∀ signal ∈ signals, signal.1 < config.holders)
    (told : (s.receivers r).Exhausted → w.Exhausted ∨
      ∀ h < config.holders, config.fileReceiver h = r → ∃ name, (h, name) ∈ signals) :
    Serves config { s.setReceiver r w with signals := s.signals ++ signals } where
  received := (Function.forall_update_iff s.receivers _).2 ⟨received, fun r' _ => serves.received r'⟩
  orderly := (Function.forall_update_iff s.receivers fun _ w => w.Orderly).2
    ⟨other.orderly, fun r' _ => serves.orderly r'⟩
  lists := serves.lists
  holder := serves.holder
  owner := serves.owner
  signalled signal there :=
    (List.mem_append.1 there).elim (serves.signalled signal) (known signal)
  inside r' t inside := by
    by_cases same : r' = r
    · subst same
      exact serves.inside r' t (other.inside t (by simpa [Serving.setReceiver] using inside))
    · exact serves.inside r' t (by simpa [Serving.setReceiver, same] using inside)
  awake h bound resting := by
    obtain exhausted | ⟨name, there⟩ := serves.awake h bound resting
    · by_cases same : config.fileReceiver h = r
      · obtain still | all := told (same ▸ exhausted)
        · exact .inl (by simpa [Serving.setReceiver, same] using still)
        · obtain ⟨name, there⟩ := all h bound same
          exact .inr ⟨name, List.mem_append_right _ there⟩
      · exact .inl (by simpa [Serving.setReceiver, same] using exhausted)
    · exact .inr ⟨name, List.mem_append_left _ there⟩

omit [DecidableEq LogType] [LinearOrder Key] in
theorem topChanged_lt :
    ∀ signal ∈ Serving.topChanged config r top name, signal.1 < config.holders := by
  unfold Serving.topChanged
  split_ifs
  · rintro signal there
    obtain ⟨h, inside, rfl⟩ := List.mem_map.1 there
    exact List.mem_range.1 (List.mem_of_mem_filter inside)
  · simp

omit [DecidableEq LogType] [LinearOrder Key] in
theorem mem_topChanged (first : top = some (name : WithBot Name)) (bound : h < config.holders)
    (same : config.fileReceiver h = r) : (h, name) ∈ Serving.topChanged config r top name := by
  unfold Serving.topChanged
  rw [if_pos first]
  exact List.mem_map_of_mem (List.mem_filter.2 ⟨List.mem_range.2 bound, by simp [same]⟩)

section
variable (serves : Serves config s)
include serves

theorem step_fetch (each : config.OneEach) (step : s.step config (.fetch r name) = some s') :
    Serves config s' := by
  obtain ⟨w, section_step, rfl⟩ := Option.map_eq_some_iff.1 step
  have received := step_received (serves.received r) (.fetch name) trivial section_step
  simp only [Receiving.step, FileReceiver.fetchFile] at section_step
  split_ifs at section_step
  · cases section_step
  · cases section_step
    refine serves.setReceiver received (other_section (serves.orderly r) rfl ?_ fun knows =>
      knowsEldest_addFile (each.room r) knows name) _ topChanged_lt fun exhausted => .inr fun h bound same => ?_
    · simp [Option.map_map, Function.comp_def]
    · exact ⟨name, mem_topChanged (addFile_top (each.room r) exhausted.2.1 exhausted.2.2 name)
        bound same⟩

theorem step_revert (each : config.OneEach) (step : s.step config (.revert r index) = some s') :
    Serves config s' := by
  simp only [Serving.step] at step
  split at step
  · cases step
  · next held found =>
    obtain ⟨w, section_step, rfl⟩ := Option.map_eq_some_iff.1 step
    have received := step_received (serves.received r) (.revert index) trivial section_step
    simp only [Receiving.step, found] at section_step
    split_ifs at section_step
    cases section_step
    let reverted := { (s.receivers r).receiver with
      inProgressFiles := (s.receivers r).receiver.inProgressFiles.erase held.name }
    refine serves.setReceiver received (other_section (serves.orderly r) rfl rfl fun knows =>
      knowsEldest_addFile (r := reverted) (each.room r) knows held.name) _ topChanged_lt
      fun exhausted => .inr fun h bound same => ⟨held.name, ?_⟩
    exact mem_topChanged
      (addFile_top (r := reverted) (each.room r) exhausted.2.1 exhausted.2.2 held.name) bound same

theorem step_remove (step : s.step config (.remove r index) = some s') : Serves config s' := by
  obtain ⟨w, section_step, rfl⟩ := Option.map_eq_some_iff.1 step
  have received := step_received (serves.received r) (.remove index) trivial section_step
  simp only [Receiving.step] at section_step
  split at section_step
  · cases section_step
  · split_ifs at section_step
    cases section_step
    have kept := serves.setReceiver received
      (other_section (serves.orderly r) rfl (by simp [Option.map_map, Function.comp_def]) id) []
      (fun _ h => by cases h)
      fun exhausted => .inl ⟨by simp [exhausted.1], exhausted.2⟩
    rwa [List.append_nil] at kept

theorem step_destroy (step : s.step config (.destroy r index) = some s') : Serves config s' := by
  obtain ⟨w, section_step, rfl⟩ := Option.map_eq_some_iff.1 step
  have received := step_received (serves.received r) (.destroy index) trivial section_step
  simp only [Receiving.step] at section_step
  split at section_step
  · cases section_step
  · split_ifs at section_step
    cases section_step
    have kept := serves.setReceiver received (other_section (serves.orderly r) rfl rfl id) []
      (fun _ h => by cases h)
      fun exhausted => .inl exhausted
    rwa [List.append_nil] at kept

end

section Moves

variable {consumers : Nat → Consumer Name} {lockedBy : Nat → Option Nat} {c h : Nat}
  {phase : Consumer Name}

omit [LinearOrder Name] in
theorem Owned.same (owned : Owned consumers lockedBy)
    (same : phase.locked? = (consumers c).locked?) :
    Owned (Function.update consumers c phase) lockedBy := by
  intro c' h'
  rw [← owned]
  by_cases own : c' = c
  · subst own
    rw [Function.update_self, same]
  · rw [Function.update_of_ne own]

omit [LinearOrder Name] in
theorem Owned.acquire (owned : Owned consumers lockedBy) (idle : (consumers c).locked? = none)
    (free : lockedBy h = none) (holds : phase.locked? = some h) :
    Owned (Function.update consumers c phase) (Function.update lockedBy h (some c)) := by
  intro c' h'
  by_cases own : c' = c
  · subst own
    rw [Function.update_self, holds]
    by_cases here : h' = h
    · subst here
      simp
    · rw [Function.update_of_ne here, ← owned, idle]
      simp [Ne.symm here]
  · rw [Function.update_of_ne own, owned]
    by_cases here : h' = h
    · subst here
      simp [free, Ne.symm own]
    · rw [Function.update_of_ne here]

omit [LinearOrder Name] in
theorem Owned.release (owned : Owned consumers lockedBy)
    (held : (consumers c).locked? = some h) (left : phase.locked? = none) :
    Owned (Function.update consumers c phase) (Function.update lockedBy h none) := by
  intro c' h'
  by_cases own : c' = c
  · subst own
    rw [Function.update_self, left]
    by_cases here : h' = h
    · subst here
      simp
    · rw [Function.update_of_ne here, ← owned, held]
      simp [Ne.symm here]
  · rw [Function.update_of_ne own, owned]
    by_cases here : h' = h
    · subst here
      rw [(owned c h').1 held]
      simp [Ne.symm own]
    · rw [Function.update_of_ne here]

omit [DecidableEq LogType] [LinearOrder Key] in
theorem Serves.holder_update (serves : Serves config s)
    (bound : ∀ h, phase.holder? = some h → h < config.holders) (c' h' : Nat)
    (has : (Function.update s.consumers c phase c').holder? = some h') : h' < config.holders := by
  by_cases own : c' = c
  · subst own
    rw [Function.update_self] at has
    exact bound h' has
  · rw [Function.update_of_ne own] at has
    exact serves.holder c' h' has

omit [DecidableEq LogType] [LinearOrder Key] in
theorem Serves.inside_update (serves : Serves config s)
    (outside : ∀ h, s.consumers c ≠ .calling h) (r t : Nat) (inside : (s.receivers r).Inside t) :
    ∃ h, Function.update s.consumers c phase t = .calling h ∧ config.fileReceiver h = r := by
  obtain ⟨h', calling, same⟩ := serves.inside r t inside
  have other : t ≠ c := by
    rintro rfl
    exact outside h' calling
  exact ⟨h', by rw [Function.update_of_ne other, calling], same⟩

omit [DecidableEq LogType] [LinearOrder Name] [LinearOrder Key] in
theorem resting_update (s : Serving Name Key) (c : Nat) (phase : Consumer Name) {h' : Nat}
    (resting : (s.setConsumer c phase).Resting h') :
    s.Resting h' ∨ ∃ fileGuard newTop,
      phase = .served h' fileGuard newTop ∧ (newTop = none ∨ fileGuard = none) := by
  obtain parked | ⟨c', fileGuard, newTop, served, last⟩ := resting
  · exact .inl (.inl parked)
  · by_cases own : c' = c
    · subst own
      exact .inr ⟨fileGuard, newTop, by simpa [Serving.setConsumer] using served, last⟩
    · exact .inl (.inr ⟨c', fileGuard, newTop, by simpa [Serving.setConsumer, own] using served,
        last⟩)

end Moves

section
variable (serves : Serves config s)
include serves

theorem step_pick (step : s.step config (.pick c) = some s') : Serves config s' := by
  simp only [Serving.step] at step
  split at step
  · next h rest waiting head =>
    cases step
    have bound : h < config.holders := serves.lists.lt.1 h (by simp [head])
    refine { serves with
      holder := serves.holder_update (by rintro _ ⟨⟩; exact bound)
      owner := serves.owner.same (by rw [waiting]; rfl)
      inside := serves.inside_update (by simp [waiting])
      awake := fun h' bound resting => serves.awake h' bound ?_ }
    exact (resting_update s c (.picked h) resting).resolve_right (by rintro ⟨_, _, ⟨⟩, -⟩)
  · cases step

theorem step_lock (step : s.step config (.lock c) = some s') : Serves config s' := by
  simp only [Serving.step] at step
  split at step
  · next h picked =>
    split_ifs at step with free
    cases step
    have bound : h < config.holders := serves.holder c h (by rw [picked]; rfl)
    refine { serves with
      holder := serves.holder_update (by rintro _ ⟨⟩; exact bound)
      owner := serves.owner.acquire (by rw [picked]; rfl) (Option.isNone_iff_eq_none.1 free) rfl
      inside := serves.inside_update (by simp [picked])
      awake := fun h' bound resting => serves.awake h' bound ?_ }
    exact (resting_update s c (.calling h) resting).resolve_right (by rintro ⟨_, _, ⟨⟩, -⟩)
  · cases step

/-- The holder is parked, if at all, before its lock is free again. -/
theorem step_finish (each : config.OneEach) (step : s.step config (.finish c) = some s') :
    Serves config s' := by
  simp only [Serving.step] at step
  split at step
  · next h fileGuard newTop served =>
    cases step
    have bound : h < config.holders := serves.holder c h (by rw [served]; rfl)
    obtain ⟨lists, parked⟩ :=
      FileReceiverFacade.afterEldest_spec each serves.lists bound fileGuard newTop
    refine { serves with
      lists := lists
      holder := serves.holder_update nofun
      owner := serves.owner.release (by rw [served]; rfl) rfl
      inside := serves.inside_update (by simp [served])
      awake := fun h' bound resting => serves.awake h' bound ?_ }
    obtain there | still := resting
    · obtain before | ⟨rfl, last⟩ := parked h' there
      · exact .inl before
      · exact .inr ⟨c, fileGuard, newTop, served, last⟩
    · refine (resting_update s c .waiting (.inr still)).resolve_right ?_
      rintro ⟨_, _, ⟨⟩, -⟩
  · cases step

theorem step_signal (each : config.OneEach) (step : s.step config (.signal index) = some s') :
    Serves config s' := by
  simp only [Serving.step] at step
  split at step
  · cases step
  · next h newTop found =>
    split_ifs at step with free
    cases step
    have bound := serves.signalled _ (List.mem_of_getElem? found)
    obtain ⟨lists, parked⟩ := FileReceiverFacade.onTopChanged_spec each serves.lists bound newTop
    refine { serves with
      lists := lists
      signalled := fun signal there => serves.signalled signal (List.mem_of_mem_eraseIdx there)
      awake := fun h' bound' resting => ?_ }
    have still : s.Resting h' ∧ h' ≠ h := by
      obtain there | ⟨c, fileGuard, top, served, last⟩ := resting
      · exact (parked h' there).imp_left .inl
      · refine ⟨.inr ⟨c, fileGuard, top, served, last⟩, ?_⟩
        rintro rfl
        have locked := (serves.owner c h').1 (by rw [served]; rfl)
        rw [Option.isNone_iff_eq_none.1 free] at locked
        cases locked
    obtain exhausted | ⟨name, there⟩ := serves.awake h' bound' still.1
    · exact .inl exhausted
    · refine .inr ⟨name, ?_⟩
      obtain ⟨i, inside, at_i⟩ := List.mem_iff_getElem.1 there
      refine (List.mem_eraseIdx_iff_getElem).2 ⟨i, inside, ?_, at_i⟩
      rintro rfl
      rw [List.getElem?_eq_getElem inside, at_i] at found
      cases found
      exact still.2 rfl

end

omit [DecidableEq LogType] [LinearOrder Key] in
theorem Serves.setOwn (serves : Serves config s) (calling : s.consumers c = .calling h)
    (received : Received (config.maxFilesToStore (config.fileReceiver h)) none w)
    (own : OwnSection (s.receivers (config.fileReceiver h)) w c event) (phase : Consumer Name)
    (locks : Nat → Option Nat) (owner : Owned (Function.update s.consumers c phase) locks)
    (holder : ∀ h', phase.holder? = some h' → h' < config.holders)
    (goes_on : event.returns (s.receivers (config.fileReceiver h)) = false → event.throws = false →
      phase = .calling h)
    (last : ∀ h' fileGuard newTop, phase = .served h' fileGuard newTop →
      newTop = none ∨ fileGuard = none → h' = h ∧ w.Exhausted) :
    Serves config { (s.setReceiver (config.fileReceiver h) w).setConsumer c phase with
      lockedBy := locks } where
  received := (Function.forall_update_iff s.receivers _).2 ⟨received, fun r _ => serves.received r⟩
  orderly := (Function.forall_update_iff s.receivers fun _ w => w.Orderly).2
    ⟨own.orderly, fun r _ => serves.orderly r⟩
  lists := serves.lists
  holder := serves.holder_update holder
  owner := owner
  signalled := serves.signalled
  inside := by
    refine (Function.forall_update_iff s.receivers fun r w => ∀ t, w.Inside t →
      ∃ h', Function.update s.consumers c phase t = .calling h' ∧ config.fileReceiver h' = r).2
      ⟨fun t inside => ?_, fun r other t inside => ?_⟩
    · obtain ⟨rfl, stays, holds⟩ := own.inside t inside
      exact ⟨h, by rw [Function.update_self, goes_on stays holds], rfl⟩
    · obtain ⟨h', calling', same⟩ := serves.inside r t inside
      have apart : t ≠ c := by
        rintro rfl
        rw [calling] at calling'
        cases calling'
        exact other same.symm
      exact ⟨h', by rw [Function.update_of_ne apart, calling'], same⟩
  awake h' bound resting := by
    have kept : (s.receivers (config.fileReceiver h')).Exhausted → Receiving.Exhausted
        (Function.update s.receivers (config.fileReceiver h) w (config.fileReceiver h')) := by
      intro exhausted
      by_cases same : config.fileReceiver h' = config.fileReceiver h
      · rw [same, Function.update_self]
        exact own.exhausted (same ▸ exhausted)
      · rw [Function.update_of_ne same]
        exact exhausted
    obtain before | ⟨fileGuard, newTop, served, nothing⟩ := resting_update s c phase resting
    · exact (serves.awake h' bound before).imp_left kept
    · obtain ⟨rfl, exhausted⟩ := last h' fileGuard newTop served nothing
      exact .inl (by simpa [Serving.setReceiver, Serving.setConsumer] using exhausted)

theorem step_receive (serves : Serves config s) (each : config.OneEach)
    (fresh : (ServingEvent.receive c event).Fresh config s)
    (step : s.step config (.receive c event) = some s') : Serves config s' := by
  simp only [Serving.step] at step
  split at step
  · next h calling =>
    have bound : h < config.holders := serves.holder c h (by rw [calling]; rfl)
    have after : ∀ w, event.isOf c (s.receivers (config.fileReceiver h)) = true →
        (s.receivers (config.fileReceiver h)).step
          (config.maxFilesToStore (config.fileReceiver h)) event = some w →
        Received (config.maxFilesToStore (config.fileReceiver h)) none w ∧
          OwnSection (s.receivers (config.fileReceiver h)) w c event :=
      fun w own section_step => ⟨step_received (serves.received _) _ (fresh h calling) section_step,
        own_section (each.room _) (serves.orderly _) (serves.received _).fetching
          (fun t => serves.alone each calling) own section_step⟩
    split_ifs at step with own returns throws
    all_goals
      obtain ⟨w, section_step, rfl⟩ := Option.map_eq_some_iff.1 step
      obtain ⟨received, section_own⟩ := after w own section_step
    · refine serves.setOwn calling received section_own _ s.lockedBy
        (serves.owner.same (by rw [calling]; rfl)) (by rintro _ ⟨⟩; exact bound) ?_ ?_
      · intro stays
        rw [returns] at stays
        cases stays
      · rintro _ _ _ ⟨⟩ nothing
        exact ⟨rfl, section_own.returned returns nothing⟩
    · refine serves.setOwn calling received section_own .waiting _
        (serves.owner.release (by rw [calling]; rfl) rfl) nofun ?_ nofun
      intro _ holds
      rw [throws] at holds
      cases holds
    · have kept := serves.setOwn calling received section_own (.calling h) s.lockedBy
        (serves.owner.same (by rw [calling])) (by rintro _ ⟨⟩; exact bound) (fun _ _ => rfl) nofun
      have same : Function.update s.consumers c (.calling h) = s.consumers := by
        rw [← calling, Function.update_eq_self]
      simpa only [Serving.setConsumer, Serving.setReceiver, same] using kept
  · cases step

theorem step_serves (serves : Serves config s) (each : config.OneEach)
    {event : ServingEvent Name} (fresh : event.Fresh config s)
    (step : s.step config event = some s') : Serves config s' := by
  cases event with
  | fetch r name => exact step_fetch serves each step
  | revert r index => exact step_revert serves each step
  | remove r index => exact step_remove serves step
  | destroy r index => exact step_destroy serves step
  | pick c => exact step_pick serves step
  | lock c => exact step_lock serves step
  | receive c event => exact step_receive serves each fresh step
  | finish c => exact step_finish serves each step
  | signal index => exact step_signal serves each step

theorem run_serves {events : List (ServingEvent Name)} (serves : Serves config s)
    (each : config.OneEach) (fresh : FreshServing config s events)
    (run : s.run config events = some s') : Serves config s' := by
  induction events generalizing s with
  | nil =>
    cases run
    exact serves
  | cons event events ih =>
    obtain ⟨first, later⟩ := fresh
    obtain ⟨s₁, step, rest⟩ := Option.bind_eq_some_iff.1 run
    exact ih (step_serves serves each first step) (later s₁ step) rest

/-- A receiver before there is a facade: what has been fetched, and no call. -/
def Begun (maxFilesToStore : Nat) (w : Receiving Name) : Prop :=
  ∃ dir events, FreshRun maxFilesToStore (.start dir) events ∧
    (Receiving.start dir).run maxFilesToStore events = some w ∧ w.Idle

omit [DecidableEq LogType] [LinearOrder Key] in
theorem start_serves {receivers : Nat → Receiving Name}
    (begun : ∀ r, Begun (config.maxFilesToStore r) (receivers r)) :
    Serves config (.start config receivers) := by
  have left : ∀ r t, ¬ (receivers r).Inside t := by
    rintro r t (busy | ⟨scan, going, -⟩)
    · obtain ⟨-, -, -, -, idle⟩ := begun r
      exact busy (idle.2 t)
    · obtain ⟨-, -, -, -, idle⟩ := begun r
      rw [idle.1] at going
      cases going
  refine ⟨fun r => ?_, fun r => orderly_of_left (left r), ?_, nofun, fun c h => ?_, nofun,
    fun r t inside => absurd inside (left r t), ?_⟩
  · obtain ⟨dir, events, fresh, run, -⟩ := begun r
    exact run_received (start_received _ dir) fresh run
  · simp [FileReceiverFacade.ListsAll, Serving.start, FileReceiverFacade.new]
  · simp [Serving.start, Consumer.locked?]
  · rintro h - (parked | ⟨c, fileGuard, newTop, served, -⟩)
    · cases parked
    · cases served

omit [DecidableEq LogType] [LinearOrder Key] in
theorem Serves.servesEldest (serves : Serves config s) (each : config.OneEach) :
    ServesEldest config s where
  eldest r listing free entries fresh := by
    refine (serves.received r).getEldest (each.room r) free entries fun unknown => fresh ?_
    obtain ⟨backup, begun⟩ := beginFetch_of_not_knows unknown
    rw [begun]
    rfl
  one_list h bound := by
    rw [serves.lists.count_eq, List.count_range]
    exact if_pos bound
  parked quiet h there := by
    obtain exhausted | ⟨name, signalled⟩ := serves.awake h (serves.lists.lt.2 h there) (.inl there)
    · simp [FileReceiver.isEmpty, exhausted.2.1, exhausted.2.2]
    · rw [quiet.2] at signalled
      cases signalled

theorem run_servesEldest (config : FacadeConfig LogType Name Key) (each : config.OneEach)
    (receivers : Nat → Receiving Name)
    (begun : ∀ r, Begun (config.maxFilesToStore r) (receivers r))
    (events : List (ServingEvent Name))
    (fresh : FreshServing config (.start config receivers) events) (s : Serving Name Key)
    (run : (Serving.start config receivers).run config events = some s) :
    ServesEldest config s :=
  (run_serves (start_serves begun) each fresh run).servesEldest each

def oneHolder : FacadeConfig Unit Nat Nat where
  holders := 1
  type := fun _ => ()
  fileReceiver := fun _ => 0
  maxFilesToStore := fun _ => 1
  initialKey := fun _ => 0
  key := fun _ top => top.unbotD 0

theorem oneHolder_oneEach : oneHolder.OneEach where
  types := by decide
  fileReceivers := by decide
  room _ := le_rfl

/-- Two files, of which one has room; the first one is given out, and the scan for the other
fails when it is listed again. -/
def failedScan : List (ServingEvent Nat) :=
  [.fetch 0 1, .fetch 0 2, .pick 0, .lock 0, .receive 0 (.call 0),
    .receive 0 (.lockFetch 0), .receive 0 (.deliver 1), .receive 0 (.deliver 2),
    .receive 0 .endScan, .receive 0 (.take 0), .finish 0, .pick 0, .lock 0,
    .receive 0 (.call 0), .receive 0 (.lockFetch 0), .receive 0 (.deliver 2), .receive 0 .failScan]

theorem begun_empty (maxFilesToStore : Nat) :
    Begun maxFilesToStore (Receiving.start (∅ : Finset Nat)) :=
  ⟨∅, [], trivial, rfl, rfl, fun _ => rfl⟩

theorem run_servesEldest_failedScan : ∃ s : Serving Nat Nat,
    (Serving.start oneHolder fun _ => .start ∅).run oneHolder failedScan = some s ∧
      ServesEldest oneHolder s := by
  refine ⟨_, rfl, run_servesEldest oneHolder oneHolder_oneEach _ (fun _ => begun_empty 1)
    failedScan ?_ _ rfl⟩
  iterate 4
    refine ⟨trivial, ?_⟩
    rintro _ ⟨⟩
  refine ⟨fun _ _ => trivial, ?_⟩
  rintro _ ⟨⟩
  refine ⟨fun _ _ => show (Event.lockFetch 0).Fresh (Serving.receivers _ 0) from
    fun _ => by decide, ?_⟩
  rintro _ ⟨⟩
  iterate 4
    refine ⟨fun _ _ => trivial, ?_⟩
    rintro _ ⟨⟩
  iterate 3
    refine ⟨trivial, ?_⟩
    rintro _ ⟨⟩
  refine ⟨fun _ _ => trivial, ?_⟩
  rintro _ ⟨⟩
  refine ⟨fun _ _ => show (Event.lockFetch 0).Fresh (Serving.receivers _ 0) from
    fun _ => by decide, ?_⟩
  rintro _ ⟨⟩
  iterate 2
    refine ⟨fun _ _ => trivial, ?_⟩
    rintro _ ⟨⟩
  exact trivial

/-- The mark that the scan goes back to names the file itself. -/
theorem not_servesEldest_failedScan : ¬ ∀ (config : FacadeConfig Unit Nat Nat), config.OneEach →
    ∀ (receivers : Nat → Receiving Nat),
      (∀ r, Begun (config.maxFilesToStore r) (receivers r)) →
    ∀ (events : List (ServingEvent Nat)) (s : Serving Nat Nat),
      (Serving.start config receivers).run config events = some s →
    ∀ r listing, (s.receivers r).scan = none →
      (∀ name, name ∈ listing ↔ name ∈ (s.receivers r).dir) →
        let before := (s.receivers r).receiver
        let ready := (s.receivers r).dir \ before.inProgressFiles
        let result := before.getEldest (config.maxFilesToStore r) listing
        result.1 = FileReceiver.first? ready ∧
          result.2.1 = (FileReceiver.first? (ready.filter fun other => result.1 ≠ some other)).map
            fun top => WithBot.some top := by
  intro all
  have entries : ∀ name, name ∈ [1, 2] ↔ name ∈ (insert 2 (insert 1 ∅) : Finset Nat) := by
    simp [or_comm]
  have gives := all oneHolder oneHolder_oneEach (fun _ => .start ∅) (fun _ => begun_empty 1)
    failedScan _ rfl 0 [1, 2] rfl entries
  exact absurd gives.2 (by decide)

end Serves

end AdServer.LogProcessing
