import AdServer.RequestInfo.RequestPool

/-!
# Servers that have amounts to send

A server with requests in `send_amounts` is to be in `non_empty_servers_`, where
the senders look for it. The multiset is ordered by the first request times, and
an erase by value takes out every server with the same time.
-/

namespace AdServer.RequestInfo

variable {division : Division}

namespace Pool

/-- `ServerStateFirstRequestLess` tells the server from every other element of
`non_empty_servers_`. -/
def erasesAlone (pool : Pool) (server : Nat) : Prop :=
  ∀ other ∈ pool.nonEmptyServers, other ≠ server → pool.tellsApart server other = true

instance (pool : Pool) (server : Nat) : Decidable (pool.erasesAlone server) :=
  inferInstanceAs (Decidable (∀ other ∈ pool.nonEmptyServers, _ → _))

/-- The server that a section erases by value. -/
def erasedServer (pool : Pool) : Task → Action → Option Nat
  | .attempt adding, .proceed =>
    ((pool.free adding.server).filter fun holder =>
      holder.active && decide (holder.aggregate.sendAmounts ≠ [])).map fun _ => adding.server
  | .popped server _, .proceed =>
    ((pool.free server).filter fun holder =>
      decide (holder.aggregate.sendAmounts ≠ [])).map fun _ => server
  | _, _ => none

/-- The section erases no server but its own from `non_empty_servers_`. -/
def sectionErasesAlone (pool : Pool) (task : Task) (action : Action) : Prop :=
  ∀ server ∈ pool.erasedServer task action, pool.erasesAlone server

instance (pool : Pool) (task : Task) (action : Action) :
    Decidable (pool.sectionErasesAlone task action) :=
  inferInstanceAs (Decidable (∀ server ∈ pool.erasedServer task action, _))

end Pool

namespace World

/-- Every section of the run erases no server but its own. -/
def EraseAlone (division : Division) : List (Nat × Action) → World → Prop
  | [], _ => True
  | (thread, action) :: rest, world =>
    (∀ task ∈ world.tasks[thread]?, world.pool.sectionErasesAlone task action) ∧
      ∀ next ∈ world.step division thread action, EraseAlone division rest next

instance instDecidableEraseAlone (division : Division) :
    ∀ (steps : List (Nat × Action)) (world : World), Decidable (EraseAlone division steps world)
  | [], _ => isTrue trivial
  | (thread, action) :: rest, world =>
    have := instDecidableEraseAlone division rest
    inferInstanceAs (Decidable
      ((∀ task ∈ world.tasks[thread]?, world.pool.sectionErasesAlone task action) ∧
        ∀ next ∈ world.step division thread action, EraseAlone division rest next))

end World

/-- The thread is between the lock sections that handle a server. -/
def Task.handles (server : Nat) : Task → Prop
  | .adding it => it.server = server
  | .popped other _ | .taking other _ => other = server
  | _ => False

/-- The thread is between two lock sections of one call. -/
def Task.betweenSections : Task → Bool
  | .adding _ | .popped _ _ | .taking _ _ => true
  | _ => false

theorem Task.handles_between {server : Nat} {task : Task} (handles : task.handles server) :
    task.betweenSections = true := by
  cases task with
  | adding | popped | taking => rfl
  | idle | attempt | delaying | sending | unreachable | sendingDelayed => exact handles.elim

namespace Pool

variable {pool : Pool} {server other : Nat} {holder held : Server}

@[simp] theorem sendAmounts_insertServer :
    (pool.insertServer server).sendAmounts other = pool.sendAmounts other := rfl

theorem sendAmounts_of (found : pool.servers[server]? = some holder) :
    pool.sendAmounts server = holder.aggregate.sendAmounts := by
  rw [sendAmounts, found, Option.map_some, Option.getD_some]

theorem sendAmounts_setServer (found : pool.servers[server]? = some held) :
    (pool.setServer server holder).sendAmounts other =
      if other = server then holder.aggregate.sendAmounts else pool.sendAmounts other := by
  have bound : server < pool.servers.length := (List.getElem?_eq_some_iff.1 found).1
  simp only [sendAmounts, setServer]
  split
  · next same =>
    subst same
    rw [List.getElem?_set_self bound]
    rfl
  · next different =>
    rw [List.getElem?_set_ne (Ne.symm different)]

theorem sendAmounts_setServer_same (found : pool.servers[server]? = some held)
    (same : holder.aggregate = held.aggregate) :
    (pool.setServer server holder).sendAmounts other = pool.sendAmounts other := by
  rw [sendAmounts_setServer found]
  split
  · next here =>
    subst here
    rw [same, sendAmounts_of found]
  · rfl

theorem mem_eraseServer (told : pool.erasesAlone server) (different : other ≠ server)
    (listed : other ∈ pool.nonEmptyServers) :
    other ∈ (pool.eraseServer server).nonEmptyServers :=
  List.mem_filter.2 ⟨listed, told other listed different⟩

theorem mem_insertServer :
    other ∈ (pool.insertServer server).nonEmptyServers ↔
      other = server ∨ other ∈ pool.nonEmptyServers := by
  have split := List.takeWhile_append_dropWhile
    (p := fun it => !pool.serverLess server it) (l := pool.nonEmptyServers)
  rw [← split]
  simp only [insertServer, List.mem_append, List.mem_cons]
  tauto

end Pool

/-- The server has no requests, is in `non_empty_servers_` or is handled by the
thread. -/
def Listed (pool : Pool) (task : Task) (server : Nat) : Prop :=
  pool.sendAmounts server ≠ [] → server ∈ pool.nonEmptyServers ∨ task.handles server

/-- The section leaves the server as it was. -/
structure LeftAlone (pool pool' : Pool) (task : Task) (server : Nat) : Prop where
  same : pool'.sendAmounts server = pool.sendAmounts server
  listed : server ∈ pool.nonEmptyServers → server ∈ pool'.nonEmptyServers
  notHandled : ¬task.handles server

namespace Pool

variable {pool pool' : Pool} {server other : Nat} {holder : Server} {task task' : Task}

theorem leftAlone_activity (found : pool.free other = some holder) (active : Bool)
    (notHandled : ¬task.handles server) :
    LeftAlone pool (pool.setServer other { holder with active := active }) task server :=
  ⟨sendAmounts_setServer_same (servers_of_free found) rfl, id, notHandled⟩

theorem leftAlone_deactivateServer (done : pool.deactivateServer other = some pool')
    (notHandled : ¬task.handles server) : LeftAlone pool pool' task server := by
  obtain ⟨holder, found, rfl⟩ := Option.map_eq_some_iff.1 done
  exact leftAlone_activity found false notHandled

theorem leftAlone_activateServer (done : pool.activateServer other = some pool')
    (notHandled : ¬task.handles server) : LeftAlone pool pool' task server := by
  obtain ⟨holder, found, rfl⟩ := Option.map_eq_some_iff.1 done
  have activated := leftAlone_activity found true notHandled
  split
  · exact activated
  · exact ⟨activated.same, fun listed => mem_insertServer.2 (.inr listed), notHandled⟩

theorem locked_listed {erased : Pool} (found : pool.servers[other]? = some holder)
    (sameServers : erased.servers = pool.servers)
    (kept : ∀ it, it ≠ other → it ∈ pool.nonEmptyServers → it ∈ erased.nonEmptyServers)
    (handled : task'.handles other) (notHandled : ∀ it, it ≠ other → ¬task.handles it) :
    Listed (erased.setServer other { holder with locked := true }) task' server ∨
      LeftAlone pool (erased.setServer other { holder with locked := true }) task server := by
  by_cases here : server = other
  · subst here
    exact .inl fun _ => .inr handled
  · have found' : erased.servers[other]? = some holder := by rw [sameServers, found]
    refine .inr ⟨?_, kept server here, notHandled server here⟩
    have same : ({ holder with locked := true } : Server).aggregate = holder.aggregate := rfl
    rw [sendAmounts_setServer_same found' same, sendAmounts, sendAmounts, sameServers]

theorem step_listed {action : Action} (done : pool.step division task action = some (pool', task'))
    (alone : pool.sectionErasesAlone task action) (server : Nat) :
    Listed pool' task' server ∨ LeftAlone pool pool' task server := by
  have unchanged {task task' : Task} (notHandled : ¬task.handles server) :
      Listed pool task' server ∨ LeftAlone pool pool task server :=
    .inr ⟨rfl, id, notHandled⟩
  unfold step at done
  split at done
  case h_1 =>
    cases done
    exact unchanged id
  case h_2 =>
    split at done
    · cases done
    next first others servers =>
      cases done
      by_cases here : first = server
      · exact .inl fun _ => .inr here
      · refine .inr ⟨rfl, fun listed => ?_, id⟩
        rw [servers] at listed
        exact (List.mem_cons.1 listed).resolve_left (Ne.symm here)
  case h_3 =>
    obtain ⟨deactivated, section_, same⟩ := Option.map_eq_some_iff.1 done
    cases same
    exact .inr (leftAlone_deactivateServer section_ id)
  case h_4 =>
    obtain ⟨activated, section_, same⟩ := Option.map_eq_some_iff.1 done
    cases same
    exact .inr (leftAlone_activateServer section_ id)
  case h_5 =>
    cases done
    exact .inr ⟨rfl, id, id⟩
  case h_6 adding =>
    obtain ⟨holder, found, same⟩ := Option.map_eq_some_iff.1 done
    have here := servers_of_free found
    unfold beginAdding at same
    split at same
    next locked begun =>
      split at begun
      next active =>
        cases begun
        cases same
        refine locked_listed here ?_ ?_ rfl fun _ _ => id
        · split <;> rfl
        · intro it different listed
          split
          · exact listed
          next waiting =>
            have erased : adding.server ∈ pool.erasedServer (.attempt adding) .proceed := by
              simp [erasedServer, found, active, waiting]
            exact mem_eraseServer (alone _ erased) different listed
      · cases begun
    · cases same
      exact unchanged id
  case h_7 adding =>
    obtain ⟨holder, found, same⟩ := Option.map_eq_some_iff.1 done
    cases same
    by_cases here : server = adding.server
    · exact .inl fun _ => .inl (mem_insertServer.2 (.inl here))
    · refine .inr ⟨?_, fun listed => mem_insertServer.2 (.inr listed), Ne.symm here⟩
      rw [finishAdding, sendAmounts_insertServer, sendAmounts_setServer found, if_neg here]
  case h_8 =>
    cases done
    exact .inr ⟨rfl, id, id⟩
  case h_9 popped maxRequests =>
    obtain ⟨holder, found, same⟩ := Option.map_eq_some_iff.1 done
    have here := servers_of_free found
    have nothing := sendAmounts_of here
    split at same
    next empty =>
      cases same
      by_cases other : server = popped
      · subst other
        exact .inl fun waiting => absurd (nothing.trans empty) waiting
      · exact unchanged (Ne.symm other)
    next waiting =>
      cases same
      have erased : popped ∈ pool.erasedServer (.popped popped maxRequests) .proceed := by
        simp [erasedServer, found, waiting]
      refine locked_listed here rfl ?_ rfl fun it different => Ne.symm different
      intro it different listed
      exact mem_eraseServer (alone _ erased) different listed
  case h_10 taking maxRequests =>
    obtain ⟨holder, found, same⟩ := Option.map_eq_some_iff.1 done
    cases same
    simp only [finishTaking]
    by_cases here : server = taking
    · subst here
      left
      intro waiting
      split at waiting
      next empty =>
        rw [sendAmounts_setServer found, if_pos rfl] at waiting
        exact absurd empty waiting
      next left =>
        rw [if_neg left]
        exact .inl (mem_insertServer.2 (.inl rfl))
    · right
      refine ⟨?_, fun listed => ?_, Ne.symm here⟩
      · split
        · rw [sendAmounts_setServer found, if_neg here]
        · rw [sendAmounts_insertServer, sendAmounts_setServer found, if_neg here]
      · split
        · exact listed
        · exact mem_insertServer.2 (.inr listed)
  case h_11 =>
    cases done
    exact unchanged id
  case h_12 =>
    obtain ⟨deactivated, section_, same⟩ := Option.map_eq_some_iff.1 done
    cases same
    exact .inr (leftAlone_deactivateServer section_ id)
  case h_13 =>
    split at done
    · cases done
      exact unchanged id
    · cases done
  case h_14 =>
    split at done
    · cases done
    · cases done
      exact unchanged id
  case h_15 => cases done

end Pool

namespace World

variable {world next : World}

/-- A server with requests is in `non_empty_servers_` or handled by a thread. -/
def NoneForgotten (world : World) : Prop :=
  ∀ server, world.pool.sendAmounts server ≠ [] →
    server ∈ world.pool.nonEmptyServers ∨ ∃ task ∈ world.tasks, task.handles server

theorem start_noneForgotten (serverCount threadCount : Nat) :
    (start serverCount threadCount).NoneForgotten := by
  intro server waiting
  refine absurd ?_ waiting
  simp only [start, Pool.new, Pool.sendAmounts, List.getElem?_replicate]
  split <;> rfl

theorem step_noneForgotten {thread : Nat} {action : Action} (kept : world.NoneForgotten)
    (alone : ∀ task ∈ world.tasks[thread]?, world.pool.sectionErasesAlone task action)
    (done : world.step division thread action = some next) : next.NoneForgotten := by
  unfold step at done
  split at done
  · cases done
  next task found =>
    obtain ⟨⟨pool', task'⟩, section_, same⟩ := Option.map_eq_some_iff.1 done
    cases same
    have bound : thread < world.tasks.length := (List.getElem?_eq_some_iff.1 found).1
    have member : task' ∈ world.tasks.set thread task' := List.mem_set bound task'
    intro server waiting
    rcases Pool.step_listed section_ (alone task found) server with listed | left
    · exact (listed waiting).imp id fun handles => ⟨task', member, handles⟩
    · have before : world.pool.sendAmounts server ≠ [] := left.same ▸ waiting
      rcases kept server before with listed | ⟨other, present, handles⟩
      · exact .inl (left.listed listed)
      · obtain ⟨place, there⟩ := List.mem_iff_getElem?.1 present
        have different : thread ≠ place := by
          rintro rfl
          rw [found] at there
          cases there
          exact left.notHandled handles
        refine .inr ⟨other, List.mem_iff_getElem?.2 ⟨place, ?_⟩, handles⟩
        rw [List.getElem?_set_ne different, there]

theorem run_noneForgotten {steps : List (Nat × Action)} (kept : world.NoneForgotten)
    (alone : EraseAlone division steps world) (done : world.run division steps = some next) :
    next.NoneForgotten := by
  induction steps generalizing world with
  | nil =>
    cases done
    exact kept
  | cons first rest ih =>
    obtain ⟨middle, step, run⟩ := Option.bind_eq_some_iff.1 done
    exact ih (step_noneForgotten kept alone.1 step) (alone.2 middle step) run

end World

/-- While every erase takes out its own server only, a server with requests is in
`non_empty_servers_` whenever no thread is between the sections of a call. -/
theorem waiting_listed {serverCount threadCount : Nat} {steps : List (Nat × Action)} {world : World}
    (done : (World.start serverCount threadCount).run division steps = some world)
    (alone : World.EraseAlone division steps (.start serverCount threadCount))
    (quiet : ∀ task ∈ world.tasks, task.betweenSections = false) {server : Nat}
    (waiting : world.pool.sendAmounts server ≠ []) : server ∈ world.pool.nonEmptyServers := by
  have kept := World.run_noneForgotten (World.start_noneForgotten _ _) alone done
  rcases kept server waiting with listed | ⟨task, present, handles⟩
  · exact listed
  · exact absurd (quiet task present) (by simp [Task.handles_between handles])

/-- An impression at a time in microseconds is added, in all its sections. -/
def addsImpression (time : Time) : List (Nat × Action) :=
  [(0, .add time 1 2 3 4 0 ⟨20, 10, 1, 0⟩), (0, .proceed), (0, .proceed), (0, .proceed),
    (0, .proceed)]

/-- Server 1 is away for the first impression and there for a later one; then server 0 is sent
its requests. -/
def served : List (Nat × Action) :=
  (0, .deactivateServer 1) :: addsImpression 7000000 ++ [(0, .proceed), (0, .activateServer 1)] ++
    addsImpression 8000000 ++
    [(0, .getRequests 0), (0, .proceed), (0, .proceed), (0, .reply (.remainders []))]

theorem waiting_listed_served :
    ∃ world, (World.start 2 1).run .truncating served = some world ∧
      world.pool.sendAmounts 1 ≠ [] ∧ 1 ∈ world.pool.nonEmptyServers := by
  have done : ∃ world, (World.start 2 1).run .truncating served = some world ∧
      world.pool.sendAmounts 1 ≠ [] ∧ ∀ task ∈ world.tasks, task.betweenSections = false :=
    ⟨_, rfl, by decide, by decide⟩
  obtain ⟨world, run, waiting, quiet⟩ := done
  exact ⟨world, run, waiting, waiting_listed run (by decide) quiet waiting⟩

/-- Two impressions of one time leave the first server with amounts and out of
`non_empty_servers_`, with no call under way. -/
theorem waiting_forgotten :
    ∃ world, (World.start 2 1).run .truncating
        (addsImpression 7000000 ++ addsImpression 7000000) = some world ∧
      world.tasks = [.idle] ∧ world.pool.sendAmounts 0 ≠ [] ∧
        0 ∉ world.pool.nonEmptyServers :=
  ⟨_, rfl, by decide, by decide, by decide⟩

end AdServer.RequestInfo
