import AdServer.Lib.Runs

/-!
# Retries in the order of their times

A file that could not be moved waits as a pending task for its time. The workers look at the top
of a priority queue of these tasks before they ask the receiver for a file. The queue has the
task of the greatest time on its top.
-/

namespace AdServer.SyncLogs

open AdServer.Lib.Runs

variable {File : Type}

/-- A time is a number of microseconds. -/
structure PendingTask (File : Type) where
  file : File
  time : Int
  deriving DecidableEq

/-- `operator<` -/
def PendingTask.less (arg1 arg2 : PendingTask File) : Bool := decide (arg1.time < arg2.time)

abbrev PendingTasks (File : Type) := Multiset (PendingTask File)

namespace PendingTasks

/-- A task that `std::priority_queue` may have on its top. -/
def IsTop (pending : PendingTasks File) (task : PendingTask File) : Prop :=
  task ∈ pending ∧ ∀ other ∈ pending, task.less other = false

instance [DecidableEq File] (pending : PendingTasks File) (task : PendingTask File) :
    Decidable (pending.IsTop task) :=
  inferInstanceAs (Decidable (_ ∧ _))

end PendingTasks

/-- A locked section, with the time of day that it reads. -/
inductive PendingEvent (File : Type) where
  /-- `add_pending_task_` -/
  | add (file : File) (timeout : Nat) (now : Int)
  /-- `work_` looks at the top, or finds the queue empty. -/
  | look (top : Option (PendingTask File)) (now : Int)
  deriving DecidableEq

namespace PendingEvent

/-- What `work_` takes out of the queue. -/
def taken : PendingEvent File → Option (PendingTask File)
  | .add _ _ _ => none
  | .look top now => top.filter fun task => task.time < now

theorem taken_look {top task : PendingTask File} {now : Int}
    (member : task ∈ (look (some top) now).taken) : top = task ∧ task.time < now := by
  obtain ⟨same, due⟩ := Option.filter_eq_some_iff.1 (by simpa only [taken, Option.mem_def] using member)
  exact ⟨Option.some.inj same, of_decide_eq_true due⟩

theorem taken_of_due {top : PendingTask File} {now : Int} (due : top.time < now) :
    top ∈ (look (some top) now).taken := by
  simp [taken, due]

/-- Whenever some task is due, one is taken, and none of the tasks has an earlier time. -/
def TakesEarliest (pending : PendingTasks File) : PendingEvent File → Prop
  | .add _ _ _ => True
  | .look top now => (∃ task ∈ pending, task.time < now) →
      ∃ task ∈ (look top now).taken, task ∈ pending ∧ ∀ other ∈ pending, task.time ≤ other.time

/-- There is nothing to choose between: no task is due, or all have one time. -/
def Unordered (pending : PendingTasks File) : PendingEvent File → Prop
  | .add _ _ _ => True
  | .look _ now => (∀ task ∈ pending, now ≤ task.time) ∨
      ∀ task ∈ pending, ∀ other ∈ pending, task.time = other.time

end PendingEvent

namespace PendingTasks

variable [DecidableEq File]

def step (pending : PendingTasks File) : PendingEvent File → Option (PendingTasks File)
  | .add file timeout now => some (⟨file, now + timeout * 1000000⟩ ::ₘ pending)
  | .look none _ => if pending = 0 then some pending else none
  | .look (some top) now =>
    if pending.IsTop top then some (if top.time < now then pending.erase top else pending)
    else none

variable {pending next : PendingTasks File} {event : PendingEvent File}

theorem takesEarliest_iff (stepped : pending.step event = some next) :
    event.TakesEarliest pending ↔ event.Unordered pending := by
  cases event with
  | add => exact Iff.rfl
  | look top now =>
    cases top with
    | none =>
      simp only [step, Option.ite_none_right_eq_some] at stepped
      obtain ⟨rfl, -⟩ := stepped
      exact iff_of_true (fun ⟨_, member, _⟩ => absurd member (Multiset.notMem_zero _))
        (.inl fun _ member => absurd member (Multiset.notMem_zero _))
    | some top =>
      simp only [step, Option.ite_none_right_eq_some] at stepped
      obtain ⟨⟨member, greatest⟩, -⟩ := stepped
      have le_top : ∀ other ∈ pending, other.time ≤ top.time := by
        intro other inside
        simpa [PendingTask.less] using greatest other inside
      constructor
      · intro earliest
        by_cases due : ∃ task ∈ pending, task.time < now
        · right
          obtain ⟨task, taken, -, least⟩ := earliest due
          obtain ⟨rfl, -⟩ := PendingEvent.taken_look taken
          have same : ∀ other ∈ pending, other.time = top.time := by
            intro other inside
            exact le_antisymm (le_top other inside) (least other inside)
          intro one inside other inside'
          rw [same one inside, same other inside']
        · left
          intro task inside
          by_contra before
          exact due ⟨task, inside, not_le.1 before⟩
      · rintro (none_due | same) ⟨task, inside, due⟩
        · exact absurd due (not_lt.2 (none_due task inside))
        · have top_due : top.time < now := same top member task inside ▸ due
          refine ⟨top, PendingEvent.taken_of_due top_due, member, ?_⟩
          intro other inside'
          exact (same top member other inside').le

end PendingTasks

variable [DecidableEq File]

theorem run_takesEarliest (events : List (PendingEvent File)) {pending : PendingTasks File}
    (ran : run PendingTasks.step 0 events = some pending) :
    Along PendingTasks.step (fun pending event => event.TakesEarliest pending) 0 events ↔
      Along PendingTasks.step (fun pending event => event.Unordered pending) 0 events :=
  along_congr PendingTasks.takesEarliest_iff ran

/-- One retry after another, each of them due before the next one is added. -/
def separate : List (PendingEvent Char) :=
  [.add 'a' 1 0, .look (some ⟨'a', 1000000⟩) 2000000, .look none 2000001, .add 'b' 1 3000000,
    .look (some ⟨'b', 4000000⟩) 5000000]

theorem run_takesEarliest_separate :
    ∃ pending, run PendingTasks.step 0 separate = some pending ∧
      Along PendingTasks.step (fun pending event => event.TakesEarliest pending) 0 separate := by
  obtain ⟨pending, ran⟩ : ∃ pending, run PendingTasks.step 0 separate = some pending := ⟨_, rfl⟩
  refine ⟨pending, ran, (run_takesEarliest separate ran).2 ?_⟩
  simp [separate, Along, PendingEvent.Unordered, PendingTasks.step]

/-- A retry that is due in a second is kept waiting by one that is due in a minute. -/
def passedOver : List (PendingEvent Char) :=
  [.add 'a' 1 0, .add 'b' 60 0, .look (some ⟨'b', 60000000⟩) 2000000]

theorem passedOver_not_takesEarliest : ¬∀ (events : List (PendingEvent Char)) pending,
    run PendingTasks.step 0 events = some pending →
      Along PendingTasks.step (fun pending event => event.TakesEarliest pending) 0 events := by
  intro takes
  obtain ⟨-, added⟩ := takes passedOver _ rfl
  obtain ⟨-, looked⟩ := added _ rfl
  obtain ⟨earliest, -⟩ := looked _ rfl
  obtain ⟨task, taken, -⟩ := earliest ⟨⟨'a', 1000000⟩, by decide, by decide⟩
  obtain ⟨rfl, due⟩ := PendingEvent.taken_look taken
  exact absurd due (by decide)

end AdServer.SyncLogs
