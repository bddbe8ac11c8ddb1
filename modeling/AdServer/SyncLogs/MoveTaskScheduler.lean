import AdServer.Lib.Runs
import AdServer.Lib.SortedMap
import Mathlib.Data.Prod.Lex

/-!
# The scheduler of move tasks

Move tasks of all routes share a pool of threads. At most `soft_threads` of them run at a
time, or `hard_threads` while the oldest pending one is older than `soft_max_file_age`.
-/

namespace AdServer.SyncLogs

open AdServer.Lib AdServer.Lib.Runs SortedMap

abbrev Time := Int

/-- The soft mode is enabled: `soft_mode_enabled_`. -/
structure Limits where
  hardThreads : Nat
  softThreads : Nat
  softMaxFileAge : Time
  soft_lt_hard : softThreads < hardThreads
  age_pos : 0 < softMaxFileAge

/-- A modification time and the number of the arrival. -/
abbrev PendingKey := Time ×ₗ Nat

def PendingKey.time (key : PendingKey) : Time := (ofLex key).1

/-- A task is the number of the call of `enqueue_task` that brought it. -/
abbrev Task := Nat

structure MoveTaskScheduler where
  pendingTasks : SortedMap PendingKey Task
  nextTaskId : Nat
  runningTasks : Nat
  deriving DecidableEq

/-- What a round of `dispatch_` meets: the time, and whether the task runner accepts. -/
structure Moment where
  now : Time
  accepts : Bool

/-- A task that was given to the runner, with what was running and pending then. -/
structure Started where
  key : PendingKey
  task : Task
  running : Nat
  now : Time
  waiting : List PendingKey
  deriving DecidableEq

structure Dispatched where
  scheduler : MoveTaskScheduler
  started : List Started
  threw : Bool

variable (limits : Limits)

/-- The threads that a task with the key may be one of. -/
def Limits.threads (key : PendingKey) (now : Time) : Nat :=
  if key.time < now - limits.softMaxFileAge then limits.hardThreads else limits.softThreads

/-- The rounds of `dispatch_`, one for each pending task at most. -/
def dispatchRounds : List Moment → MoveTaskScheduler → Dispatched
  | [], s => ⟨s, [], false⟩
  | moment :: moments, s =>
    match s.pendingTasks.entries with
    | [] => ⟨s, [], false⟩
    | (key, task) :: _ =>
      if limits.threads key moment.now ≤ s.runningTasks then ⟨s, [], false⟩
      else
        let taken := { s with
          pendingTasks := s.pendingTasks.erase key
          runningTasks := s.runningTasks + 1 }
        if moment.accepts then
          let later := dispatchRounds moments taken
          { later with started :=
              ⟨key, task, s.runningTasks, moment.now, s.pendingTasks.keys⟩ :: later.started }
        else
          -- the task is put back, and the exception goes on
          ⟨{ taken with
            pendingTasks := taken.pendingTasks.insertNew key task
            runningTasks := taken.runningTasks - 1 }, [], true⟩

/-- `dispatch_`. -/
def dispatch (moments : Nat → Moment) (s : MoveTaskScheduler) : Dispatched :=
  dispatchRounds limits ((List.range s.pendingTasks.size).map moments) s

/-- `enqueue_task`, with what `stat` says of the file: without a modification time
nothing is done but to throw. -/
def enqueueTask (moments : Nat → Moment) (modificationTime : Option Time) (task : Task)
    (s : MoveTaskScheduler) : Dispatched :=
  match modificationTime with
  | none => ⟨s, [], true⟩
  | some time =>
    dispatch limits moments { s with
      pendingTasks := s.pendingTasks.insertNew (toLex (time, s.nextTaskId)) task
      nextTaskId := s.nextTaskId + 1 }

/-- `task_finished_`, which keeps exceptions to itself. -/
def taskFinished (moments : Nat → Moment) (s : MoveTaskScheduler) : Dispatched :=
  dispatch limits moments { s with runningTasks := s.runningTasks - 1 }

/-- The scheduler and the pool of threads, with the history of the starts and of the calls
that threw. -/
structure World where
  scheduler : MoveTaskScheduler
  calls : Nat
  /-- Accepted by the runner and not finished. -/
  running : List Task
  started : List Started
  thrown : List Task
  deriving DecidableEq

def World.start : World := ⟨⟨.empty, 0, 0⟩, 0, [], [], []⟩

inductive Section where
  | enqueue (modificationTime : Option Time)
  | finish (index : Nat)

/-- A locked section, with the moments its rounds meet. -/
structure Action where
  locked : Section
  moments : Nat → Moment

def World.dispatched (w : World) (d : Dispatched) (running : List Task) : World :=
  { w with
    scheduler := d.scheduler
    running := running ++ d.started.map Started.task
    started := w.started ++ d.started }

def World.step (w : World) (action : Action) : Option World :=
  match action.locked with
  | .enqueue modificationTime =>
    let d := enqueueTask limits action.moments modificationTime w.calls w.scheduler
    let w' := w.dispatched d w.running
    some { w' with
      calls := w.calls + 1
      thrown := if d.threw then w.calls :: w.thrown else w.thrown }
  | .finish index =>
    if index < w.running.length then
      some (w.dispatched (taskFinished limits action.moments w.scheduler)
        (w.running.eraseIdx index))
    else none

/-- What the scheduler promises between any two of its locked sections. -/
structure RespectsLimits (w : World) : Prop where
  counted : w.scheduler.runningTasks = w.running.length
  limited : w.scheduler.runningTasks ≤ limits.hardThreads
  /-- Beyond the soft limit only tasks that are too old are started. -/
  overdue : ∀ s ∈ w.started, limits.softThreads ≤ s.running →
    s.key.time < s.now - limits.softMaxFileAge
  /-- What is started is the first of what was pending. -/
  ordered : ∀ s ∈ w.started, ∀ key ∈ s.waiting, s.key ≤ key
  /-- A call that threw left nothing. -/
  undone : ∀ task ∈ w.thrown, (∀ entry ∈ w.scheduler.pendingTasks.entries, entry.2 ≠ task) ∧
    ∀ s ∈ w.started, s.task ≠ task
  /-- Something runs whose end dispatches what is pending. -/
  progress : w.scheduler.pendingTasks.entries ≠ [] → w.running ≠ []

/-- When the limits are respected: the runner refuses no task of an `enqueue_task`, and
where nothing else is running the first task may start and is not refused. -/
def Action.Accepted (action : Action) (w : World) : Prop :=
  match action.locked with
  | .enqueue none => True
  | .enqueue (some time) => (∀ i, (action.moments i).accepts = true) ∧
      (w.running ≠ [] ∨ 1 ≤ limits.softThreads ∨
        time < (action.moments 0).now - limits.softMaxFileAge)
  | .finish _ => 2 ≤ w.running.length ∨ ∀ key ∈ w.scheduler.pendingTasks.first?,
      (action.moments 0).accepts = true ∧ (1 ≤ limits.softThreads ∨
        key.time < (action.moments 0).now - limits.softMaxFileAge)

section Dispatch

variable {limits} {s : MoveTaskScheduler}

structure DispatchedFrom (limits : Limits) (s : MoveTaskScheduler) (d : Dispatched) : Prop where
  counted : d.scheduler.runningTasks = s.runningTasks + d.started.length
  limited : s.runningTasks ≤ limits.hardThreads →
    d.scheduler.runningTasks ≤ limits.hardThreads
  overdue : ∀ started ∈ d.started, limits.softThreads ≤ started.running →
    started.key.time < started.now - limits.softMaxFileAge
  ordered : ∀ started ∈ d.started, ∀ key ∈ started.waiting, started.key ≤ key
  kept : ∀ entry ∈ d.scheduler.pendingTasks.entries, entry ∈ s.pendingTasks.entries
  taken : ∀ started ∈ d.started, (started.key, started.task) ∈ s.pendingTasks.entries

theorem DispatchedFrom.nothing (threw : Bool) : DispatchedFrom limits s ⟨s, [], threw⟩ where
  counted := rfl
  limited := id
  overdue := by simp
  ordered := by simp
  kept := fun _ h => h
  taken := by simp

variable {key : PendingKey} {task : Task} {rest : List (PendingKey × Task)} {now : Time}

theorem first_le {m : SortedMap PendingKey Task} (entries : m.entries = (key, task) :: rest) :
    ∀ other ∈ m.keys, key ≤ other := by
  intro other member
  have sorted := m.sorted
  rw [entries] at sorted
  simp only [keys, entries, List.map_cons, List.mem_cons] at member
  obtain rfl | later := member
  · exact le_rfl
  · obtain ⟨entry, mem, rfl⟩ := List.mem_map.1 later
    exact ((List.pairwise_cons.1 sorted).1 entry mem).le

theorem insertNew_erase {m : SortedMap PendingKey Task} (found : m.find? key = some task) :
    (m.erase key).insertNew key task = m := by
  apply ext_find
  intro k
  rw [find?_insertNew, find?_erase]
  by_cases here : k = key
  · subst here
    simp [found]
  · simp [here, find?_erase]

theorem find?_first {m : SortedMap PendingKey Task} (entries : m.entries = (key, task) :: rest) :
    m.find? key = some task := by
  rw [find?_eq_some, entries]
  exact List.mem_cons_self

theorem mem_of_mem_erase {m : SortedMap PendingKey Task} {entry : PendingKey × Task}
    (member : entry ∈ (m.erase key).entries) : entry ∈ m.entries :=
  (List.mem_filter.1 member).1

/-- The threads allowed to a key, when there are more than the soft ones. -/
theorem overdue_of_lt_threads {running : Nat} (free : running < limits.threads key now)
    (beyond : limits.softThreads ≤ running) : key.time < now - limits.softMaxFileAge := by
  unfold Limits.threads at free
  split_ifs at free with overdue
  · exact overdue
  · omega

theorem threads_le_hard (key : PendingKey) (now : Time) :
    limits.threads key now ≤ limits.hardThreads := by
  have := limits.soft_lt_hard
  unfold Limits.threads
  split_ifs <;> omega

theorem dispatchRounds_from (moments : List Moment) (s : MoveTaskScheduler) :
    DispatchedFrom limits s (dispatchRounds limits moments s) := by
  induction moments generalizing s with
  | nil => exact .nothing _
  | cons moment moments ih =>
    rw [dispatchRounds]
    split
    · exact .nothing _
    · next key task rest entries =>
      split_ifs with full accepts
      · exact .nothing _
      · have free := Nat.lt_of_not_le full
        have later := ih { s with
          pendingTasks := s.pendingTasks.erase key, runningTasks := s.runningTasks + 1 }
        refine ⟨?_, ?_, ?_, ?_, fun entry member => mem_of_mem_erase (later.kept entry member), ?_⟩
        · rw [later.counted, List.length_cons]
          dsimp only
          omega
        · intro _
          exact later.limited (free.trans_le (threads_le_hard key moment.now))
        · rintro started (_ | ⟨_, member⟩)
          · exact overdue_of_lt_threads free
          · exact later.overdue started member
        · rintro started (_ | ⟨_, member⟩)
          · exact first_le entries
          · exact later.ordered started member
        · rintro started (_ | ⟨_, member⟩)
          · exact entries ▸ List.mem_cons_self
          · exact mem_of_mem_erase (later.taken started member)
      · dsimp only
        rw [insertNew_erase (find?_first entries), Nat.add_sub_cancel]
        exact .nothing _

theorem dispatchRounds_accepted {moments : List Moment} (accepted : ∀ m ∈ moments, m.accepts)
    (s : MoveTaskScheduler) : (dispatchRounds limits moments s).threw = false := by
  induction moments generalizing s with
  | nil => rfl
  | cons moment moments ih =>
    rw [dispatchRounds]
    split
    · rfl
    · split_ifs with full accepts
      · rfl
      · exact ih (fun m member => accepted m (List.mem_cons_of_mem _ member)) _
      · exact absurd (accepted moment List.mem_cons_self) accepts

theorem threads_pos (may_run : 1 ≤ limits.softThreads ∨ key.time < now - limits.softMaxFileAge) :
    0 < limits.threads key now := by
  have := limits.soft_lt_hard
  unfold Limits.threads
  split_ifs with overdue
  · omega
  · exact may_run.resolve_right overdue

/-- Something is left running: what ran before, or the first task. -/
theorem dispatch_progress {moments : Nat → Moment}
    (beside : 0 < s.runningTasks ∨ ∀ key ∈ s.pendingTasks.first?, (moments 0).accepts = true ∧
      (1 ≤ limits.softThreads ∨ key.time < (moments 0).now - limits.softMaxFileAge))
    (waiting : (dispatch limits moments s).scheduler.pendingTasks.entries ≠ []) :
    0 < (dispatch limits moments s).scheduler.runningTasks := by
  obtain running | first := beside
  · have from_ : DispatchedFrom limits s (dispatch limits moments s) := dispatchRounds_from _ s
    have counted := from_.counted
    omega
  · cases entries : s.pendingTasks.entries with
    | nil =>
      have none_left : dispatch limits moments s = ⟨s, [], false⟩ := by
        simp [dispatch, size, entries, dispatchRounds]
      rw [none_left] at waiting
      exact absurd entries waiting
    | cons entry rest =>
      obtain ⟨accepts, may_run⟩ := first entry.1 (by simp [first?, entries])
      have rounds : (List.range s.pendingTasks.size).map moments =
          moments 0 :: (List.range rest.length).map (moments ∘ Nat.succ) := by
        simp [size, entries, List.range_succ_eq_map]
      rw [dispatch, rounds, dispatchRounds, entries]
      simp only [accepts, if_true]
      split_ifs with full
      · exact (threads_pos may_run).trans_le full
      · rw [(dispatchRounds_from _ _).counted]
        dsimp only
        omega

end Dispatch

/-- The limits, and that no label is met twice. -/
structure Kept (limits : Limits) (w : World) : Prop extends RespectsLimits limits w where
  pending_called : ∀ entry ∈ w.scheduler.pendingTasks.entries, entry.2 < w.calls
  started_called : ∀ s ∈ w.started, s.task < w.calls
  thrown_called : ∀ task ∈ w.thrown, task < w.calls

section Kept

variable {limits} {w w' : World}

theorem start_kept : Kept limits World.start where
  counted := rfl
  limited := Nat.zero_le _
  overdue := by simp [World.start]
  ordered := by simp [World.start]
  undone := by simp [World.start]
  progress := by simp [World.start, empty]
  pending_called := by simp [World.start, empty]
  started_called := by simp [World.start]
  thrown_called := by simp [World.start]

/-- A dispatch from a state that may have one more pending task or one less running. -/
theorem Kept.dispatched (kept : Kept limits w) {moments : Nat → Moment}
    {s : MoveTaskScheduler} {running : List Task} {calls : Nat}
    (counted : s.runningTasks = running.length) (limited : s.runningTasks ≤ limits.hardThreads)
    (more : w.calls ≤ calls) (called : ∀ entry ∈ s.pendingTasks.entries, entry.2 < calls)
    (fresh : ∀ entry ∈ s.pendingTasks.entries, entry.2 ∉ w.thrown)
    (beside : 0 < s.runningTasks ∨ ∀ key ∈ s.pendingTasks.first?, (moments 0).accepts = true ∧
      (1 ≤ limits.softThreads ∨ key.time < (moments 0).now - limits.softMaxFileAge)) :
    Kept limits { w.dispatched (dispatch limits moments s) running with calls := calls } := by
  have spec : DispatchedFrom limits s (dispatch limits moments s) := dispatchRounds_from _ s
  have all_counted : (dispatch limits moments s).scheduler.runningTasks =
      (running ++ (dispatch limits moments s).started.map Started.task).length := by
    rw [spec.counted, counted, List.length_append, List.length_map]
  refine ⟨⟨all_counted, spec.limited limited, ?_, ?_, ?_, ?_⟩, ?_, ?_, ?_⟩
  · intro started member
    obtain earlier | now := List.mem_append.1 member
    · exact kept.overdue started earlier
    · exact spec.overdue started now
  · intro started member
    obtain earlier | now := List.mem_append.1 member
    · exact kept.ordered started earlier
    · exact spec.ordered started now
  · intro task thrown
    refine ⟨fun entry member same => ?_, fun started member same => ?_⟩
    · exact fresh entry (spec.kept entry member) (same ▸ thrown)
    · obtain earlier | now := List.mem_append.1 member
      · exact (kept.undone task thrown).2 started earlier same
      · exact fresh _ (spec.taken started now) (same ▸ thrown)
  · intro waiting none_running
    have some_running := dispatch_progress beside waiting
    have none_counted : running ++ (dispatch limits moments s).started.map Started.task = [] :=
      none_running
    rw [all_counted, none_counted] at some_running
    exact absurd some_running (lt_irrefl 0)
  · exact fun entry member => called entry (spec.kept entry member)
  · intro started member
    obtain earlier | now := List.mem_append.1 member
    · exact (kept.started_called started earlier).trans_le more
    · exact called _ (spec.taken started now)
  · exact fun task thrown => (kept.thrown_called task thrown).trans_le more

theorem mem_insertNew {m : SortedMap PendingKey Task} {key : PendingKey} {task : Task}
    {entry : PendingKey × Task} (member : entry ∈ (m.insertNew key task).entries) :
    entry = (key, task) ∨ entry ∈ m.entries := by
  unfold insertNew at member
  split_ifs at member
  · exact .inr member
  · exact mem_putList member

theorem first_insertNew {m : SortedMap PendingKey Task} (none_pending : m.entries = [])
    (key : PendingKey) (task : Task) : (m.insertNew key task).first? = some key := by
  simp [insertNew, find?, put, putList, first?, none_pending]

theorem Kept.unfound (kept : Kept limits w) :
    Kept limits { w with calls := w.calls + 1, thrown := w.calls :: w.thrown } where
  counted := kept.counted
  limited := kept.limited
  overdue := kept.overdue
  ordered := kept.ordered
  undone := by
    rintro task (_ | ⟨_, thrown⟩)
    · exact ⟨fun entry member => (kept.pending_called entry member).ne,
        fun started member => (kept.started_called started member).ne⟩
    · exact kept.undone task thrown
  progress := kept.progress
  pending_called entry member := (kept.pending_called entry member).trans (Nat.lt_succ_self _)
  started_called started member :=
    (kept.started_called started member).trans (Nat.lt_succ_self _)
  thrown_called := by
    rintro task (_ | ⟨_, thrown⟩)
    · exact Nat.lt_succ_self _
    · exact (kept.thrown_called task thrown).trans (Nat.lt_succ_self _)

theorem step_kept (kept : Kept limits w) {action : Action}
    (accepted : action.Accepted limits w) (step : w.step limits action = some w') :
    Kept limits w' := by
  obtain ⟨locked, moments⟩ := action
  cases locked with
  | enqueue modificationTime =>
    cases modificationTime with
    | none =>
      simp only [World.step, enqueueTask, World.dispatched, List.map_nil, List.append_nil,
        if_true, Option.some.injEq] at step
      subst step
      exact kept.unfound
    | some time =>
      obtain ⟨all, beside⟩ := accepted
      have returned : (enqueueTask limits moments (some time) w.calls w.scheduler).threw = false :=
        dispatchRounds_accepted (fun m member => by
          obtain ⟨i, -, rfl⟩ := List.mem_map.1 member
          exact all i) _
      simp only [World.step, returned, Bool.false_eq_true, if_false, Option.some.injEq] at step
      subst step
      refine kept.dispatched kept.counted kept.limited (Nat.le_succ _) ?_ ?_ ?_
      · intro entry member
        obtain rfl | before := mem_insertNew member
        · exact Nat.lt_succ_self _
        · exact (kept.pending_called entry before).trans (Nat.lt_succ_self _)
      · intro entry member thrown
        obtain rfl | before := mem_insertNew member
        · exact absurd (kept.thrown_called _ thrown) (lt_irrefl _)
        · exact (kept.undone _ thrown).1 entry before rfl
      · by_cases idle : w.running = []
        · -- nothing was pending either, so the new task is the first
          have none_pending : w.scheduler.pendingTasks.entries = [] :=
            by_contra fun waiting => kept.progress waiting idle
          refine .inr fun key first => ⟨all 0, ?_⟩
          rw [first_insertNew none_pending] at first
          cases first
          exact beside.resolve_left (absurd idle)
        · refine .inl ?_
          rw [kept.counted]
          exact List.length_pos_iff.2 idle
  | finish index =>
    simp only [World.step] at step
    split_ifs at step with inside
    cases step
    have counted : w.scheduler.runningTasks - 1 = (w.running.eraseIdx index).length := by
      rw [List.length_eraseIdx_of_lt inside, kept.counted]
    refine kept.dispatched counted ((Nat.sub_le _ _).trans kept.limited) le_rfl
      kept.pending_called (fun entry member thrown => (kept.undone _ thrown).1 entry member rfl)
      (accepted.imp_left fun beside => ?_)
    have := kept.counted
    dsimp only at beside ⊢
    omega

theorem run_respectsLimits (limits : Limits) (actions : List Action)
    (accepted : Along (World.step limits) (fun w action => action.Accepted limits w) .start actions)
    (w : World) (ran : run (World.step limits) .start actions = some w) : RespectsLimits limits w :=
  (run_inv (Kept limits) (fun kept => step_kept kept) start_kept accepted ran).toRespectsLimits

/-- Two threads, one of them for tasks that are more than ten seconds old. -/
def twoThreads : Limits := ⟨2, 1, 10, by decide, by decide⟩

/-- The second task waits for its age; the runner refuses the last one beside it. -/
def waitingRun : List Action :=
  [⟨.enqueue (some 100), fun _ => ⟨100, true⟩⟩, ⟨.enqueue (some 95), fun _ => ⟨101, true⟩⟩,
    ⟨.enqueue (some 96), fun _ => ⟨106, true⟩⟩, ⟨.finish 0, fun _ => ⟨121, false⟩⟩]

theorem run_respectsLimits_waiting : ∃ w,
    run (World.step twoThreads) .start waitingRun = some w ∧ RespectsLimits twoThreads w := by
  refine ⟨_, rfl, run_respectsLimits twoThreads waitingRun ?_ _ rfl⟩
  refine ⟨⟨fun _ => rfl, .inr (.inl le_rfl)⟩, ?_⟩
  rintro _ ⟨⟩
  refine ⟨⟨fun _ => rfl, .inr (.inl le_rfl)⟩, ?_⟩
  rintro _ ⟨⟩
  refine ⟨⟨fun _ => rfl, .inr (.inl le_rfl)⟩, ?_⟩
  rintro _ ⟨⟩
  exact ⟨.inl (by decide), fun _ _ => trivial⟩

/-- The runner refuses the first task: the call throws, the task stays pending, and nothing
is running that would come back to it. -/
theorem respectsLimits_not_refused : ¬ ∀ (limits : Limits) (actions : List Action) (w : World),
    run (World.step limits) .start actions = some w → RespectsLimits limits w := fun all =>
  (all twoThreads [⟨.enqueue (some 100), fun _ => ⟨100, false⟩⟩] _ rfl).progress
    (by decide) rfl

end Kept

end AdServer.SyncLogs
