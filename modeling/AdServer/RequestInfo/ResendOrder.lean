import AdServer.RequestInfo.RequestPool

/-!
# The servers that refused requests are offered to

Requests that a server has not confirmed go back to the pool. A thread offers them to the servers
one after another, a lock section at a time; other threads may run between its sections.
-/

namespace AdServer.RequestInfo

variable {division : Division}

def Pool.actives (pool : Pool) : List Bool := pool.servers.map (·.active)

/-- The first active server of a kind. -/
def firstActive (actives : List Bool) (kind : Nat → Prop) [DecidablePred kind] : Option Nat :=
  (List.range actives.length).find? fun server => kind server ∧ actives[server]? = some true

/-- What a thread has done with its requests. -/
structure Settled where
  queued : List (Nat × List Request) := []
  delayed : List Request := []
  deriving DecidableEq

/-- What one section adds to it. -/
def Task.record : Task → Settled → Settled
  | .adding it, settled => { settled with queued := (it.server, it.requests) :: settled.queued }
  | .delaying requests _, settled => { settled with delayed := requests ++ settled.delayed }
  | _, settled => settled

/-- The sections of a thread up to the end of its call, while no server becomes active or
inactive. -/
inductive Settles (division : Division) (actives : List Bool) : Task → Settled → Prop
  | idle : Settles division actives .idle {}
  | goOn {pool next : Pool} {task task' : Task} {settled : Settled} :
    pool.actives = actives → pool.step division task .proceed = some (next, task') →
      Settles division actives task' settled → Settles division actives task (task.record settled)

/-- `Sender::Job::work` gives back what is left after sending to the server. -/
def returned (actives : List Bool) (server : Nat) (requests : List Request) : Task :=
  .addResendToServer actives.length (server + 1) requests []

def offered (server : Option Nat) (requests : List Request) : List (Nat × List Request) :=
  if requests = [] then [] else server.toList.map (·, requests)

def left (server : Option Nat) (requests : List Request) : List Request :=
  if server.isSome then [] else requests

def isResend (request : Request) : Bool := decide (request.mode = .resend)

/-- The requests with the resend marker go to one server, the others are marked and go to another
one; what has no server is delayed. -/
def placed (first next : Option Nat) (requests : List Request) : Settled where
  queued := offered first (Task.markResend (requests.filter (!isResend ·))) ++
    offered next (requests.filter isResend)
  delayed := left first (Task.markResend (requests.filter (!isResend ·))) ++
    left next (requests.filter isResend)

/-- The others from the lowest index; from the marked ones on, those after the server. -/
def OffersInOrder (actives : List Bool) (server : Nat) (requests : List Request)
    (settled : Settled) : Prop :=
  settled = placed (firstActive actives (· ≠ server)) (firstActive actives (server < ·)) requests

/-- A request without the marker does not come back to the server, and the server after it takes
no requests that have the marker. -/
def ComesToOthers (actives : List Bool) (server : Nat) (requests : List Request) : Prop :=
  ((∃ request ∈ requests, request.mode ≠ .resend) →
      server = 0 ∨ actives[server]? ≠ some true ∨ ∃ other < server, actives[other]? = some true) ∧
    ((∃ request ∈ requests, request.mode = .resend) → actives[server + 1]? ≠ some true)

section FirstActive

variable {actives : List Bool} {kind kind' : Nat → Prop} [DecidablePred kind]
  [DecidablePred kind'] {server : Nat}

theorem firstActive_eq_some : firstActive actives kind = some server ↔
    kind server ∧ actives[server]? = some true ∧
      ∀ other < server, actives[other]? = some true → ¬kind other := by
  rw [firstActive, List.find?_range_eq_some]
  simp only [decide_eq_true_eq, List.mem_range, Bool.not_eq_true', decide_eq_false_iff_not]
  constructor
  · rintro ⟨⟨of_kind, active⟩, -, before⟩
    exact ⟨of_kind, active, fun other less active' of_kind' => before other less ⟨of_kind', active'⟩⟩
  · rintro ⟨of_kind, active, before⟩
    obtain ⟨inside, -⟩ := List.getElem?_eq_some_iff.1 active
    exact ⟨⟨of_kind, active⟩, inside, fun other less both => before other less both.2 both.1⟩

theorem firstActive_congr
    (same : ∀ server, actives[server]? = some true → (kind server ↔ kind' server)) :
    firstActive actives kind = firstActive actives kind' := by
  have agrees : ∀ server, (kind server ∧ actives[server]? = some true) ↔
      kind' server ∧ actives[server]? = some true := by
    intro server
    exact and_congr_left fun active => same server active
  simp only [firstActive, agrees]

theorem firstActive_none (inside : ∀ server < actives.length, ¬kind server) :
    firstActive actives kind = none := by
  rw [firstActive, List.find?_eq_none]
  intro server member both
  exact inside server (List.mem_range.1 member) (of_decide_eq_true both).1

theorem firstActive_from (active : actives[server]? = some true) :
    firstActive actives (server ≤ ·) = some server :=
  firstActive_eq_some.2 ⟨le_rfl, active, fun _ less _ => not_le.2 less⟩

theorem firstActive_after (inactive : actives[server]? ≠ some true) :
    firstActive actives (server ≤ ·) = firstActive actives (server + 1 ≤ ·) := by
  apply firstActive_congr
  intro other active
  have ne : other ≠ server := by
    rintro rfl
    exact inactive active
  omega

theorem firstActive_comesBack (comes_back : ¬(server = 0 ∨ actives[server]? ≠ some true ∨
      ∃ other < server, actives[other]? = some true)) :
    firstActive actives ((if server + 1 ≤ 1 then 1 else 0) ≤ ·) = some server := by
  push Not at comes_back
  obtain ⟨positive, active, before⟩ := comes_back
  rw [if_neg (by omega)]
  exact firstActive_eq_some.2 ⟨Nat.zero_le _, active, fun other less active' =>
    absurd active' (before other less)⟩

/-- Where the code starts, for requests without the marker. -/
theorem firstActive_others : firstActive actives ((if server + 1 ≤ 1 then 1 else 0) ≤ ·) =
      firstActive actives (· ≠ server) ↔
    server = 0 ∨ actives[server]? ≠ some true ∨ ∃ other < server, actives[other]? = some true := by
  constructor
  · intro same
    by_contra comes_back
    exact (firstActive_eq_some.1 (same.symm.trans (firstActive_comesBack comes_back))).1 rfl
  · rintro (rfl | inactive | ⟨other, less, active⟩)
    · exact firstActive_congr fun _ _ => Nat.one_le_iff_ne_zero
    · apply firstActive_congr
      intro other active
      have ne : other ≠ server := by
        rintro rfl
        exact inactive active
      split_ifs <;> omega
    · rw [if_neg (by omega)]
      cases found : firstActive actives (0 ≤ ·) with
      | none =>
        rw [firstActive, List.find?_eq_none] at found
        obtain ⟨inside, -⟩ := List.getElem?_eq_some_iff.1 active
        exact absurd (decide_eq_true ⟨Nat.zero_le _, active⟩) (found other (List.mem_range.2 inside))
      | some first =>
        obtain ⟨-, active', before⟩ := firstActive_eq_some.1 found
        have le : first ≤ other := by
          by_contra later
          exact before other (not_le.1 later) active (Nat.zero_le _)
        refine (firstActive_eq_some.2 ⟨by omega, active', ?_⟩).symm
        intro earlier less active'' _
        exact before earlier less active'' (Nat.zero_le _)

/-- Where the code starts, for requests with the marker. -/
theorem firstActive_next : firstActive actives (server + 1 + 1 ≤ ·) =
    firstActive actives (server < ·) ↔ actives[server + 1]? ≠ some true := by
  constructor
  · intro same active
    have found : firstActive actives (server < ·) = some (server + 1) := firstActive_from active
    have := (firstActive_eq_some.1 (same.trans found)).1
    omega
  · intro inactive
    exact (firstActive_after inactive).symm

end FirstActive

section Settles

variable {actives : List Bool} {settled : Settled} {requests first next : List Request}
  {server serverIndex : Nat}

/-- A pool with these servers whose locks are free. -/
def Pool.idle (actives : List Bool) : Pool where
  servers := actives.map fun active => { active }

theorem actives_idle (actives : List Bool) : (Pool.idle actives).actives = actives := by
  simp [Pool.idle, Pool.actives, Function.comp_def]

variable {pool after : Pool} {it : Attempt} {task : Task} {active : Bool}

theorem actives_getElem? {holder : Server} (found : pool.servers[server]? = some holder) :
    pool.actives[server]? = some holder.active := by
  simp [Pool.actives, found]

theorem length_actives (pool : Pool) : pool.actives.length = pool.servers.length :=
  List.length_map ..

theorem step_attempt (known : pool.actives[it.server]? = some active)
    (stepped : pool.step division (.attempt it) .proceed = some (after, task)) :
    task = if active then .adding it else .refused pool.actives.length it := by
  simp only [Pool.step, Option.map_eq_some_iff] at stepped
  obtain ⟨holder, found, stepped⟩ := stepped
  obtain rfl : active = holder.active := by
    simpa [known] using actives_getElem? (Pool.servers_of_free found)
  cases active : holder.active <;> simp only [Pool.beginAdding, active] at stepped <;>
    simp [← (Prod.mk.inj stepped).2, length_actives]

theorem idle_attempt (division : Division) (known : actives[it.server]? = some active) :
    ∃ after, (Pool.idle actives).step division (.attempt it) .proceed =
      some (after, if active then .adding it else .refused actives.length it) := by
  have found : (Pool.idle actives).free it.server = some { active } := by
    simp [Pool.free, Pool.idle, known]
  cases active <;>
    simp [Pool.step, found, Pool.beginAdding, ← length_actives, actives_idle]

theorem step_adding (stepped : pool.step division (.adding it) .proceed = some (after, task)) :
    task = .accepted pool.actives.length it := by
  simp only [Pool.step, Option.map_eq_some_iff] at stepped
  obtain ⟨holder, found, stepped⟩ := stepped
  rw [length_actives]
  exact (Prod.mk.inj stepped).2.symm

theorem settles_attempt (known : actives[it.server]? = some active) :
    Settles division actives (.attempt it) settled ↔
      if active then ∃ rest, Settles division actives (.accepted actives.length it) rest ∧
        settled = { rest with queued := (it.server, it.requests) :: rest.queued }
      else Settles division actives (.refused actives.length it) settled := by
  constructor
  · intro settles
    cases settles with
    | goOn same stepped settles =>
      subst same
      have next := step_attempt known stepped
      split_ifs at next ⊢ with taken
      · subst next
        cases settles with
        | goOn same stepped settles =>
          rw [step_adding stepped, same] at settles
          exact ⟨_, settles, rfl⟩
      · subst next
        exact settles
  · intro settles
    obtain ⟨after, stepped⟩ := idle_attempt division known
    split_ifs at settles stepped with taken
    · obtain ⟨rest, settles, rfl⟩ := settles
      obtain ⟨after, added⟩ : ∃ after, (Pool.idle actives).step division (.adding it) .proceed =
          some (after, .accepted actives.length it) := by
        simp [Pool.step, Pool.idle, known]
      exact .goOn (actives_idle actives) stepped (.goOn (actives_idle actives) added settles)
    · exact .goOn (actives_idle actives) stepped settles

theorem settles_idle : Settles division actives .idle settled ↔ settled = {} := by
  constructor
  · intro settles
    cases settles with
    | idle => rfl
    | goOn _ stepped => simp [Pool.step] at stepped
  · rintro rfl
    exact .idle

theorem settles_delaying : Settles division actives (.delaying requests []) settled ↔
    settled = { delayed := requests } := by
  constructor
  · intro settles
    cases settles with
    | goOn _ stepped settles =>
      obtain ⟨-, rfl⟩ := Prod.mk.inj (Option.some.inj stepped)
      rw [Task.resume, settles_idle] at settles
      simp [settles, Task.record]
  · rintro rfl
    have settles : Settles division actives (.delaying requests [])
        (Task.record (.delaying requests []) {}) := .goOn (actives_idle actives) rfl .idle
    simpa [Task.record] using settles

theorem settles_finishResend : Settles division actives (.finishResend first next []) settled ↔
    settled = { delayed := first ++ next } := by
  rw [Task.finishResend]
  split_ifs with empty
  · rw [Task.resume, settles_idle, empty.1, empty.2, List.append_nil]
  · exact settles_delaying

theorem settles_nextAt (some_left : requests ≠ []) :
    Settles division actives (.nextAt actives.length server first requests []) settled ↔
      settled = ⟨offered (firstActive actives (server ≤ ·)) requests,
        first ++ left (firstActive actives (server ≤ ·)) requests⟩ := by
  induction ahead : actives.length - server generalizing server with
  | zero =>
    rw [Task.nextAt, if_neg (by omega), settles_finishResend,
      firstActive_none fun other inside => by omega]
    simp [offered, left]
  | succ rest ih =>
    have inside : server < actives.length := by omega
    have known : actives[server]? = some actives[server] := List.getElem?_eq_getElem inside
    rw [Task.nextAt, if_pos inside, settles_attempt known]
    cases active : actives[server] with
    | true =>
      rw [firstActive_from (known.trans (congrArg some active))]
      simp [Task.accepted, settles_finishResend, offered, left, some_left]
    | false =>
      rw [firstActive_after (by simp [known, active])]
      have fewer : actives.length - (server + 1) = rest := by omega
      exact ih fewer

theorem settles_resendNext :
    Settles division actives (.resendNext actives.length serverIndex first next []) settled ↔
      settled = ⟨offered (firstActive actives (serverIndex + 1 ≤ ·)) next,
        first ++ left (firstActive actives (serverIndex + 1 ≤ ·)) next⟩ := by
  rw [Task.resendNext]
  split_ifs with more
  · exact settles_nextAt more.2
  · rw [settles_finishResend]
    by_cases empty : next = []
    · simp [empty, offered, left]
    · rw [firstActive_none fun other inside => by grind]
      simp [offered, left]

theorem settles_firstAt (some_left : requests ≠ []) :
    Settles division actives (.firstAt actives.length server serverIndex requests next []) settled ↔
      settled = ⟨offered (firstActive actives (server ≤ ·)) requests ++
          offered (firstActive actives (serverIndex + 1 ≤ ·)) next,
        left (firstActive actives (server ≤ ·)) requests ++
          left (firstActive actives (serverIndex + 1 ≤ ·)) next⟩ := by
  induction ahead : actives.length - server generalizing server with
  | zero =>
    rw [Task.firstAt, if_neg (by omega), settles_resendNext,
      show firstActive actives (server ≤ ·) = none from
        firstActive_none fun other inside => by omega]
    simp [offered, left]
  | succ rest ih =>
    have inside : server < actives.length := by omega
    have known : actives[server]? = some actives[server] := List.getElem?_eq_getElem inside
    rw [Task.firstAt, if_pos inside, settles_attempt known]
    cases active : actives[server] with
    | true =>
      rw [firstActive_from (known.trans (congrArg some active))]
      simp [Task.accepted, settles_resendNext, offered, left, some_left]
    | false =>
      have inactive : actives[server]? ≠ some true := by simp [known, active]
      rw [firstActive_after inactive]
      have fewer : actives.length - (server + 1) = rest := by omega
      exact ih fewer

/-- What the thread does with the requests, whatever the other threads do meanwhile. -/
theorem settles_returned :
    Settles division actives (returned actives server requests) settled ↔
      settled = placed (firstActive actives ((if server + 1 ≤ 1 then 1 else 0) ≤ ·))
        (firstActive actives (server + 1 + 1 ≤ ·)) requests := by
  have normal : (requests.filter fun request => request.mode ≠ .resend) =
      requests.filter (!isResend ·) := by
    simp [isResend]
  rw [returned, Task.addResendToServer, normal]
  by_cases none_normal : requests.filter (!isResend ·) = []
  · rw [if_pos none_normal, settles_resendNext, placed, none_normal]
    simp only [Task.markResend, List.map_nil, offered, left, if_true, ite_self, List.nil_append]
    rfl
  · rw [if_neg none_normal]
    exact settles_firstAt fun empty => none_normal (List.map_eq_nil_iff.1 empty)

end Settles

theorem mem_offered {server : Option Nat} {requests requests' : List Request} {other : Nat} :
    (other, requests') ∈ offered server requests ↔
      requests ≠ [] ∧ server = some other ∧ requests = requests' := by
  rw [offered]
  split_ifs with empty
  · simp [empty]
  · simp [empty, eq_comm]

variable {requests : List Request}

theorem offered_inj {server server' : Option Nat} (some_left : requests ≠ [])
    (same : offered server requests = offered server' requests) : server = server' := by
  ext other
  have both := congrArg ((other, requests) ∈ ·) same
  simpa [mem_offered, some_left] using both

theorem placed_congr {first first' next next' : Option Nat}
    (same : Task.markResend (requests.filter (!isResend ·)) ≠ [] → first = first')
    (same' : requests.filter isResend ≠ [] → next = next') :
    placed first next requests = placed first' next' requests := by
  have empty (server : Option Nat) : offered server [] = [] ∧ left server [] = [] := by
    simp [offered, left]
  by_cases none_normal : Task.markResend (requests.filter (!isResend ·)) = [] <;>
    by_cases none_resend : requests.filter isResend = []
  · simp only [placed, none_normal, none_resend, empty]
  · simp only [placed, none_normal, same' none_resend, empty]
  · simp only [placed, none_resend, same none_normal, empty]
  · rw [same none_normal, same' none_resend]

theorem placed_eq_iff {actives : List Bool} {server : Nat} :
    placed (firstActive actives ((if server + 1 ≤ 1 then 1 else 0) ≤ ·))
        (firstActive actives (server + 1 + 1 ≤ ·)) requests =
      placed (firstActive actives (· ≠ server)) (firstActive actives (server < ·)) requests ↔
        ComesToOthers actives server requests := by
  have normal : Task.markResend (requests.filter (!isResend ·)) ≠ [] ↔
      ∃ request ∈ requests, request.mode ≠ .resend := by
    simp [Task.markResend, isResend]
  have resend : requests.filter isResend ≠ [] ↔ ∃ request ∈ requests, request.mode = .resend := by
    simp [isResend]
  rw [ComesToOthers, ← normal, ← resend, ← firstActive_others, ← firstActive_next]
  constructor
  · intro same
    have queued := congrArg Settled.queued same
    have first : Task.markResend (requests.filter (!isResend ·)) ≠ [] →
        firstActive actives ((if server + 1 ≤ 1 then 1 else 0) ≤ ·) =
          firstActive actives (· ≠ server) := by
      intro some_normal
      by_contra differ
      -- the server itself is offered them, as no one is to be
      have comes_back := firstActive_comesBack (mt firstActive_others.2 differ)
      have member : (server, Task.markResend (requests.filter (!isResend ·))) ∈ (placed
          (firstActive actives (· ≠ server)) (firstActive actives (server < ·)) requests).queued := by
        rw [← queued]
        exact List.mem_append_left _ (mem_offered.2 ⟨some_normal, comes_back, rfl⟩)
      rcases List.mem_append.1 member with here | here
      · exact (firstActive_eq_some.1 (mem_offered.1 here).2.1).1 rfl
      · exact lt_irrefl server (firstActive_eq_some.1 (mem_offered.1 here).2.1).1
    refine ⟨first, fun some_resend => offered_inj some_resend ?_⟩
    by_cases none_normal : Task.markResend (requests.filter (!isResend ·)) = []
    · simpa only [placed, none_normal, offered, if_true, List.nil_append] using queued
    · rw [first none_normal] at queued
      exact List.append_cancel_left queued
  · rintro ⟨first, next⟩
    exact placed_congr first next

theorem returned_offersInOrder (actives : List Bool) (server : Nat) (requests : List Request) :
    ∃ settled, (∀ other, Settles division actives (returned actives server requests) other ↔
        other = settled) ∧
      (OffersInOrder actives server requests settled ↔ ComesToOthers actives server requests) :=
  ⟨_, fun _ => settles_returned, placed_eq_iff⟩

/-- A request with the marker passes by the server after the one that refused it. -/
theorem skipped_not_offersInOrder :
    ¬∀ (division : Division) (actives : List Bool) (server : Nat) (requests : List Request)
      (settled : Settled), Settles division actives (returned actives server requests) settled →
        OffersInOrder actives server requests settled := by
  intro offers
  let request : Request := { Request.make 0 1 2 3 4 0 0 with mode := .resend }
  have in_order := offers .truncating [true, true, true] 0 [request] _ (settles_returned.2 rfl)
  rw [OffersInOrder] at in_order
  exact absurd in_order (by decide)

end AdServer.RequestInfo
