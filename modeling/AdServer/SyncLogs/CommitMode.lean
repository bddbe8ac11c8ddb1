import AdServer.Lib.Runs

/-!
# Commit mode

A route in commit mode sends a regular file under a name that its receivers do not look at,
then a commit file to the host that has it. A receiver takes the regular file when the commit
file is there.
-/

namespace AdServer.SyncLogs

open AdServer.Lib.Runs

variable {File Host : Type}

/-- What `get_destination` gives; no host is the empty string. -/
inductive Destination (Host : Type) where
  | notReady
  | notAvailable
  | host (name : Option Host)
  deriving DecidableEq

/-- A copy may reach the host and be reported as failed. -/
inductive Copy where
  | copied
  | failed
  | reached
  deriving DecidableEq

inductive Unlink where
  | unlinked
  | notFound
  | failed
  deriving DecidableEq

structure Try (Host : Type) where
  destination : Destination Host
  copy : Copy
  deriving DecidableEq

/-- What a call of `move` meets: the tries that it is active for, and the unlinking. -/
structure Script (Host : Type) where
  tries : List (Try Host)
  unlink : Unlink
  deriving DecidableEq

structure Route where
  triesPerFile : Nat
  unlinkSource : Bool

inductive Ended where
  | returned (result : Bool)
  | after (moved : Bool)
  deriving DecidableEq

structure Looped (Host : Type) where
  ended : Ended
  dstHost : Option Host
  /-- The hosts that the file is on. -/
  reached : List Host
  deriving DecidableEq

/-- The loop of `FeedRouteMover::move`. -/
def moveLoop (dstHost : Option Host) : List (Try Host) → Looped Host
  | [] => ⟨.after false, dstHost, []⟩
  | t :: tries =>
    match t.destination with
    | .notReady => ⟨.returned false, dstHost, []⟩
    | .notAvailable => ⟨.returned false, dstHost, []⟩
    | .host none => ⟨.returned true, none, []⟩
    | .host (some host) =>
      match t.copy with
      | .copied => ⟨.after true, some host, [host]⟩
      | .failed => moveLoop (some host) tries
      | .reached =>
        let later := moveLoop (some host) tries
        { later with reached := host :: later.reached }

inductive MoveResult where
  | returned (moved : Bool)
  | unlinkException
  deriving DecidableEq

/-- What `FeedRouteMover::move` makes of the end of its loop. -/
def moveResult (route : Route) (unlink : Unlink) : Ended → MoveResult
  | .returned result => .returned result
  | .after moved =>
    if moved && route.unlinkSource && unlink == .failed then .unlinkException else .returned moved

def moveTries (route : Route) (script : Script Host) : Looped Host :=
  moveLoop none (script.tries.take route.triesPerFile)

/-- What is sent: a regular file, or the commit file that names its host. -/
inductive Entity (File Host : Type) where
  | regular (file : File)
  | commit (file : File) (host : Option Host)
  deriving DecidableEq

/-- `RouteHostFromFileNameHelper` sends to the host of the name; only a host may be not
ready. -/
def commitTry (host : Option Host) (t : Try Host) : Try Host :=
  match host, t.destination with
  | none, _ => { t with destination := .host none }
  | some host, .host _ => { t with destination := .host (some host) }
  | some _, _ => { t with destination := .notReady }

/-- The input directory of a receiving host, and what it has put into its intermediate
directory. -/
structure Receiving (File : Type) where
  regular : List File
  commits : List File
  taken : List File
  deriving DecidableEq

/-- The sender and the receiving hosts, with the history of what was given to the sender, of
the moves that succeeded, and of the commit files that were created. -/
structure Network (File Host : Type) where
  pendingTasks : List (Entity File Host)
  unlinkFiles : List (Entity File Host)
  given : List File
  moves : List (File × Host)
  created : List (File × Option Host)
  hosts : Host → Receiving File

namespace Network

def start : Network File Host := ⟨[], [], [], [], [], fun _ => ⟨[], [], []⟩⟩

variable [DecidableEq Host]

def arrive (w : Network File Host) (change : Receiving File → Receiving File) :
    List Host → Network File Host
  | [] => w
  | host :: rest =>
    arrive { w with hosts := Function.update w.hosts host (change (w.hosts host)) } change rest

variable [DecidableEq File]

/-- `process_file_`, for a regular file. -/
def processRegular (route : Route) (file : File) (script : Script Host) (w : Network File Host) :
    Network File Host :=
  let looped := moveTries route script
  let w := w.arrive (fun dir => { dir with regular := dir.regular.insert file }) looped.reached
  let w := { w with
    moves := match looped.ended, looped.dstHost with
      | .after true, some host => w.moves ++ [(file, host)]
      | _, _ => w.moves }
  match moveResult route script.unlink looped.ended with
  | .unlinkException => { w with unlinkFiles := w.unlinkFiles ++ [.regular file] }
  | .returned moved =>
    let pending := if moved then w.pendingTasks else w.pendingTasks ++ [.regular file]
    -- the commit file comes whatever the move returned
    { w with
      created := w.created ++ [(file, looped.dstHost)]
      pendingTasks := pending ++ [.commit file looped.dstHost] }

/-- `process_file_`, for a commit file. -/
def processCommit (route : Route) (file : File) (host : Option Host) (script : Script Host)
    (w : Network File Host) : Network File Host :=
  let looped := moveTries route { script with tries := script.tries.map (commitTry host) }
  let w := w.arrive (fun dir => { dir with commits := dir.commits.insert file }) looped.reached
  match moveResult route script.unlink looped.ended with
  | .unlinkException => { w with unlinkFiles := w.unlinkFiles ++ [.commit file host] }
  | .returned true => w
  | .returned false => { w with pendingTasks := w.pendingTasks ++ [.commit file host] }

def processFile (route : Route) (entity : Entity File Host) (script : Script Host)
    (w : Network File Host) : Network File Host :=
  match entity with
  | .regular file => w.processRegular route file script
  | .commit file host => w.processCommit route file host script

/-- The regular file of a commit file is taken if it is there. -/
def take (file : File) (dir : Receiving File) : Receiving File :=
  if file ∈ dir.regular then
    { dir with regular := dir.regular.filter (· ≠ file), taken := dir.taken ++ [file] }
  else dir

/-- `fetch_files_handler_` for a commit file, whose own unlinking may fail. -/
def fetchCommit (host : Host) (file : File) (unlinked : Bool) (w : Network File Host) :
    Network File Host :=
  let dir := take file (w.hosts host)
  let dir := { dir with
    commits := if unlinked then dir.commits.filter (· ≠ file) else dir.commits }
  { w with hosts := Function.update w.hosts host dir }

end Network

inductive Step (File Host : Type) where
  /-- A file that the receiver of the route gives out. -/
  | fresh (file : File) (script : Script Host)
  | retry (index : Nat) (script : Script Host)
  /-- `try_unlink_files_`, which puts back what it can not unlink. -/
  | tryUnlink (unlink : Nat → Unlink)
  | fetch (host : Host) (file : File) (unlinked : Bool)

namespace Network

variable [DecidableEq File] [DecidableEq Host]

def step (route : Route) (w : Network File Host) : Step File Host → Option (Network File Host)
  | .fresh file script =>
    if file ∈ w.given then none
    else some ({ w with given := file :: w.given }.processRegular route file script)
  | .retry index script =>
    w.pendingTasks[index]?.map fun entity =>
      { w with pendingTasks := w.pendingTasks.eraseIdx index }.processFile route entity script
  | .tryUnlink unlink =>
    some { w with unlinkFiles := (w.unlinkFiles.zipIdx.filter
      fun entry => unlink entry.2 == .failed).map Prod.fst }
  | .fetch host file unlinked =>
    if file ∈ (w.hosts host).commits then some (w.fetchCommit host file unlinked) else none

end Network

/-! ## Delivery -/

/-- What commit mode is for. A file has left the sender when neither it nor its commit file
is retried; it is through when no host has its commit file to look at. -/
structure DeliversOnce [DecidableEq File] (w : Network File Host) : Prop where
  /-- A commit file names the host of a move of its file that succeeded. -/
  committed : ∀ file host, (file, host) ∈ w.created → ∃ h, host = some h ∧ (file, h) ∈ w.moves
  /-- Every file that was copied has a commit file. -/
  all_committed : ∀ file host, (file, host) ∈ w.moves → (file, some host) ∈ w.created
  at_most_once : ∀ file host, file ∈ (w.hosts host).taken →
    (w.hosts host).taken.count file = 1 ∧ ∀ other, file ∈ (w.hosts other).taken → other = host
  delivered : ∀ file ∈ w.given, .regular file ∉ w.pendingTasks →
    (∀ host, .commit file host ∉ w.pendingTasks) → (∀ host, file ∉ (w.hosts host).commits) →
    ∃ host, file ∈ (w.hosts host).taken

/-- Some try copies the file before one of them gives up or skips it. -/
def Copies : List (Try Host) → Prop
  | [] => False
  | t :: tries => ∃ host, t.destination = .host (some host) ∧ (t.copy = .copied ∨ Copies tries)

/-- The move of a regular file copies it, and the source is removed if it is to be. -/
def Script.Moves (route : Route) (script : Script Host) : Prop :=
  Copies (script.tries.take route.triesPerFile) ∧
    (route.unlinkSource = true → script.unlink ≠ .failed)

def Step.Moves (route : Route) (w : Network File Host) : Step File Host → Prop
  | .fresh _ script => script.Moves route
  | .retry index script => ∀ file, w.pendingTasks[index]? = some (.regular file) →
      script.Moves route
  | .tryUnlink _ => True
  | .fetch _ _ _ => True

/-! ## Moves -/

theorem moveLoop_copies {tries : List (Try Host)} (copies : Copies tries) (dstHost : Option Host) :
    ∃ host, (moveLoop dstHost tries).ended = .after true ∧
      (moveLoop dstHost tries).dstHost = some host ∧ host ∈ (moveLoop dstHost tries).reached := by
  induction tries generalizing dstHost with
  | nil => exact copies.elim
  | cons t tries ih =>
    obtain ⟨name, destination, rest⟩ := copies
    simp only [moveLoop, destination]
    cases copy : t.copy with
    | copied => exact ⟨name, rfl, rfl, List.mem_cons_self⟩
    | failed => exact ih (rest.resolve_left (by simp [copy])) _
    | reached =>
      obtain ⟨host, ended, dst, reached⟩ := ih (rest.resolve_left (by simp [copy])) (some name)
      exact ⟨host, ended, dst, List.mem_cons_of_mem _ reached⟩

/-- A commit file arrives at its own host or nowhere, and is not skipped. -/
theorem moveLoop_commit (host : Host) (tries : List (Try Host)) (dstHost : Option Host) :
    (∀ other ∈ (moveLoop dstHost (tries.map (commitTry (some host)))).reached, other = host) ∧
    ((moveLoop dstHost (tries.map (commitTry (some host)))).ended = .after true →
      host ∈ (moveLoop dstHost (tries.map (commitTry (some host)))).reached) ∧
    (moveLoop dstHost (tries.map (commitTry (some host)))).ended ≠ .returned true := by
  induction tries generalizing dstHost with
  | nil => simp [moveLoop]
  | cons t tries ih =>
    obtain ⟨only, arrived, kept⟩ := ih (some host)
    cases destination : t.destination with
    | notReady => simp [moveLoop, commitTry, destination]
    | notAvailable => simp [moveLoop, commitTry, destination]
    | host name =>
      simp only [List.map_cons, moveLoop, commitTry, destination]
      cases t.copy with
      | copied => simp
      | failed => exact ⟨only, arrived, kept⟩
      | reached =>
        refine ⟨?_, fun ended => List.mem_cons_of_mem _ (arrived ended), kept⟩
        rintro other (_ | ⟨_, member⟩)
        · rfl
        · exact only other member

variable {route : Route} {unlink : Unlink} {ended : Ended}

theorem moved_of_exception (result : moveResult route unlink ended = .unlinkException) :
    ended = .after true := by
  cases ended with
  | returned b => cases result
  | after moved =>
    cases moved with
    | true => rfl
    | false => cases result

theorem moved_of_returned (result : moveResult route unlink ended = .returned true) :
    ended = .returned true ∨ ended = .after true := by
  cases ended with
  | returned b =>
    cases result
    exact .inl rfl
  | after moved =>
    cases moved with
    | true => exact .inr rfl
    | false => cases result

namespace Network

variable [DecidableEq Host] {w : Network File Host} {change : Receiving File → Receiving File}

section
variable (hosts : List Host)

@[simp] theorem arrive_pendingTasks : (w.arrive change hosts).pendingTasks = w.pendingTasks := by
  induction hosts generalizing w with
  | nil => rfl
  | cons host hosts ih => exact ih

@[simp] theorem arrive_given : (w.arrive change hosts).given = w.given := by
  induction hosts generalizing w with
  | nil => rfl
  | cons host hosts ih => exact ih

@[simp] theorem arrive_moves : (w.arrive change hosts).moves = w.moves := by
  induction hosts generalizing w with
  | nil => rfl
  | cons host hosts ih => exact ih

@[simp] theorem arrive_created : (w.arrive change hosts).created = w.created := by
  induction hosts generalizing w with
  | nil => rfl
  | cons host hosts ih => exact ih

end

theorem arrive_kept {A : Type} (field : Receiving File → A)
    (kept : ∀ dir, field (change dir) = field dir) (hosts : List Host) (host : Host) :
    field ((w.arrive change hosts).hosts host) = field (w.hosts host) := by
  induction hosts generalizing w with
  | nil => rfl
  | cons first hosts ih =>
    rw [arrive, ih]
    by_cases here : host = first
    · subst here
      simp [kept]
    · simp [here]

theorem arrive_mem {file : File} (field : Receiving File → List File)
    (added : ∀ dir g, g ∈ field (change dir) ↔ g = file ∨ g ∈ field dir) (hosts : List Host)
    (host : Host) (g : File) : g ∈ field ((w.arrive change hosts).hosts host) ↔
      g ∈ field (w.hosts host) ∨ (g = file ∧ host ∈ hosts) := by
  induction hosts generalizing w with
  | nil => simp [arrive]
  | cons first hosts ih =>
    rw [arrive, ih]
    by_cases here : host = first
    · subst here
      simp [added]
      tauto
    · simp [here]

end Network

open Network

/-! ## What is kept -/

/-- Between moves each file has one host, where it waits for its commit file or is taken. -/
structure Delivering (w : Network File Host) : Prop where
  given : ∀ file, file ∈ w.given ↔ ∃ host, (file, host) ∈ w.moves
  single : ∀ file host other, (file, host) ∈ w.moves → (file, other) ∈ w.moves → host = other
  created : w.created = w.moves.map fun move => (move.1, some move.2)
  pending : ∀ entity ∈ w.pendingTasks, ∃ file host, entity = .commit file (some host) ∧
    (file, host) ∈ w.moves
  commits : ∀ file host, file ∈ (w.hosts host).commits → (file, host) ∈ w.moves
  taken : ∀ file host, file ∈ (w.hosts host).taken → (file, host) ∈ w.moves
  taken_once : ∀ host, (w.hosts host).taken.Nodup
  /-- What is taken has left the input directory. -/
  left : ∀ file host, file ∈ (w.hosts host).taken → file ∉ (w.hosts host).regular
  waiting : ∀ file host, (file, host) ∈ w.moves → file ∈ (w.hosts host).taken ∨
    file ∈ (w.hosts host).regular ∧
      (.commit file (some host) ∈ w.pendingTasks ∨ file ∈ (w.hosts host).commits)

theorem Delivering.deliversOnce [DecidableEq File] {w : Network File Host} (delivering : Delivering w) :
    DeliversOnce w where
  committed file host member := by
    rw [delivering.created] at member
    obtain ⟨move, moved, same⟩ := List.mem_map.1 member
    cases same
    exact ⟨move.2, rfl, moved⟩
  all_committed file host moved := by
    rw [delivering.created]
    exact List.mem_map.2 ⟨(file, host), moved, rfl⟩
  at_most_once file host member :=
    ⟨List.count_eq_one_of_mem (delivering.taken_once host) member, fun other elsewhere =>
      delivering.single file other host (delivering.taken file other elsewhere)
        (delivering.taken file host member)⟩
  delivered file given _ no_commit looked_at := by
    obtain ⟨host, moved⟩ := (delivering.given file).1 given
    obtain taken | ⟨-, pending | there⟩ := delivering.waiting file host moved
    · exact ⟨host, taken⟩
    · exact absurd pending (no_commit _)
    · exact absurd there (looked_at host)

theorem start_delivering : Delivering (start : Network File Host) := by
  constructor <;> simp [start]

section Kept

variable {route : Route} {w w' : Network File Host}

variable {file g : File} {host : Host} {dir : Receiving File}

/-- A file that was not seen before is on some hosts, and its commit file names one. -/
theorem Delivering.moved (delivering : Delivering w) (host : Host) (reached : List Host)
    (fresh : file ∉ w.given) (arrived : host ∈ reached) (given : w'.given = file :: w.given)
    (moves : w'.moves = w.moves ++ [(file, host)])
    (created : w'.created = w.created ++ [(file, some host)])
    (pending : w'.pendingTasks = w.pendingTasks ++ [.commit file (some host)])
    (commits : ∀ h, (w'.hosts h).commits = (w.hosts h).commits)
    (taken : ∀ h, (w'.hosts h).taken = (w.hosts h).taken)
    (regular : ∀ h g, g ∈ (w'.hosts h).regular ↔
      g ∈ (w.hosts h).regular ∨ (g = file ∧ h ∈ reached)) :
    Delivering w' := by
  have new : ∀ other, (file, other) ∉ w.moves := fun other moved =>
    fresh ((delivering.given file).2 ⟨other, moved⟩)
  have mem_moves : ∀ g h, (g, h) ∈ w'.moves ↔ (g, h) ∈ w.moves ∨ (g = file ∧ h = host) := by
    intro g h
    simp [moves]
  refine ⟨?_, ?_, ?_, ?_, ?_, ?_, ?_, ?_, ?_⟩
  · intro g
    rw [given, List.mem_cons, delivering.given g]
    simp only [mem_moves, exists_or]
    constructor
    · rintro (same | earlier)
      · exact .inr ⟨host, same, rfl⟩
      · exact .inl earlier
    · rintro (earlier | ⟨_, same, -⟩)
      · exact .inr earlier
      · exact .inl same
  · intro g h other first second
    rw [mem_moves] at first second
    obtain first | ⟨rfl, rfl⟩ := first <;> obtain second | ⟨same, rfl⟩ := second
    · exact delivering.single g h other first second
    · exact absurd (same ▸ first) (new h)
    · exact absurd second (new other)
    · rfl
  · rw [created, moves, delivering.created]
    simp
  · intro entity member
    rw [pending, List.mem_append, List.mem_singleton] at member
    obtain member | rfl := member
    · obtain ⟨g, h, rfl, moved⟩ := delivering.pending entity member
      exact ⟨g, h, rfl, (mem_moves g h).2 (.inl moved)⟩
    · exact ⟨file, host, rfl, (mem_moves file host).2 (.inr ⟨rfl, rfl⟩)⟩
  · intro g h member
    rw [commits] at member
    exact (mem_moves g h).2 (.inl (delivering.commits g h member))
  · intro g h member
    rw [taken] at member
    exact (mem_moves g h).2 (.inl (delivering.taken g h member))
  · intro h
    rw [taken]
    exact delivering.taken_once h
  · intro g h member still
    rw [taken] at member
    obtain still | ⟨rfl, -⟩ := (regular h g).1 still
    · exact delivering.left g h member still
    · exact new h (delivering.taken g h member)
  · intro g h moved
    rw [taken, commits, regular, pending]
    obtain earlier | ⟨rfl, rfl⟩ := (mem_moves g h).1 moved
    · obtain done | ⟨there, going | come⟩ := delivering.waiting g h earlier
      · exact .inl done
      · exact .inr ⟨.inl there, .inl (List.mem_append_left _ going)⟩
      · exact .inr ⟨.inl there, .inr come⟩
    · exact .inr ⟨.inr ⟨rfl, arrived⟩, .inl (by simp)⟩

/-- A commit file that was to be sent arrives at its host, or is to be sent still. -/
theorem Delivering.committed (delivering : Delivering w) {reached : List Host}
    (moved : (file, host) ∈ w.moves) (only : ∀ other ∈ reached, other = host)
    (given : w'.given = w.given) (moves : w'.moves = w.moves) (created : w'.created = w.created)
    (pending : ∀ entity ∈ w'.pendingTasks, entity ∈ w.pendingTasks)
    (others : ∀ entity ∈ w.pendingTasks, entity ∈ w'.pendingTasks ∨
      (entity = .commit file (some host) ∧ host ∈ reached))
    (commits : ∀ h g, g ∈ (w'.hosts h).commits ↔ g ∈ (w.hosts h).commits ∨ (g = file ∧ h ∈ reached))
    (taken : ∀ h, (w'.hosts h).taken = (w.hosts h).taken)
    (regular : ∀ h, (w'.hosts h).regular = (w.hosts h).regular) : Delivering w' where
  given := by
    rw [given, moves]
    exact delivering.given
  single := by
    rw [moves]
    exact delivering.single
  created := by
    rw [created, moves]
    exact delivering.created
  pending entity member := by
    rw [moves]
    exact delivering.pending entity (pending entity member)
  commits g h member := by
    rw [moves]
    obtain earlier | ⟨rfl, there⟩ := (commits h g).1 member
    · exact delivering.commits g h earlier
    · exact only h there ▸ moved
  taken g h member := by
    rw [moves]
    exact delivering.taken g h (taken h ▸ member)
  taken_once h := taken h ▸ delivering.taken_once h
  left g h member := by
    rw [regular]
    exact delivering.left g h (taken h ▸ member)
  waiting g h member := by
    rw [taken, regular, commits]
    obtain done | ⟨there, going | come⟩ := delivering.waiting g h (moves ▸ member)
    · exact .inl done
    · obtain still | ⟨same, arrived⟩ := others _ going
      · exact .inr ⟨there, .inl still⟩
      · cases same
        exact .inr ⟨there, .inr (.inr ⟨rfl, arrived⟩)⟩
    · exact .inr ⟨there, .inr (.inl come)⟩

variable [DecidableEq File] [DecidableEq Host]

theorem Delivering.processRegular (delivering : Delivering w) (fresh : file ∉ w.given)
    {script : Script Host} (moves : script.Moves route) :
    Delivering ({ w with given := file :: w.given }.processRegular route file script) := by
  obtain ⟨copies, unlinked⟩ := moves
  obtain ⟨host, ended, dst, reached⟩ := moveLoop_copies copies none
  have result : moveResult route script.unlink (.after true) = .returned true := by
    have no_exception : (route.unlinkSource && script.unlink == .failed) = false := by
      cases source : route.unlinkSource with
      | false => rfl
      | true => simpa using unlinked source
    simp [moveResult, no_exception]
  refine delivering.moved host (moveTries route script).reached fresh reached ?_ ?_ ?_ ?_ ?_ ?_ ?_
  all_goals simp only [Network.processRegular, moveTries, ended, dst, result, if_true, arrive_given,
    arrive_moves, arrive_created, arrive_pendingTasks]
  · apply arrive_kept Receiving.commits
    exact fun _ => rfl
  · apply arrive_kept Receiving.taken
    exact fun _ => rfl
  · apply arrive_mem Receiving.regular
    exact fun _ _ => List.mem_insert_iff

theorem Delivering.processCommit (delivering : Delivering w) {index : Nat}
    (pending : w.pendingTasks[index]? = some (.commit file (some host))) (script : Script Host) :
    Delivering ({ w with pendingTasks := w.pendingTasks.eraseIdx index }.processCommit route file
      (some host) script) := by
  have moved : (file, host) ∈ w.moves := by
    obtain ⟨g, h, same, moved⟩ := delivering.pending _ (List.mem_of_getElem? pending)
    cases same
    exact moved
  have tries : moveTries route { script with tries := script.tries.map (commitTry (some host)) } =
      moveLoop none ((script.tries.take route.triesPerFile).map (commitTry (some host))) := by
    simp [moveTries, List.map_take]
  obtain ⟨only, arrived, not_skipped⟩ :=
    moveLoop_commit host (script.tries.take route.triesPerFile) none
  rw [← tries] at only arrived not_skipped
  have kept : ∀ entity ∈ w.pendingTasks.eraseIdx index, entity ∈ w.pendingTasks :=
    fun entity member => List.mem_of_mem_eraseIdx member
  have others : ∀ entity ∈ w.pendingTasks, entity ∈ w.pendingTasks.eraseIdx index ∨
      entity = .commit file (some host) := by
    intro entity member
    obtain ⟨i, bound, rfl⟩ := List.getElem_of_mem member
    by_cases same : i = index
    · subst same
      rw [List.getElem?_eq_getElem bound] at pending
      exact .inr (Option.some.inj pending)
    · exact .inl (List.mem_eraseIdx_iff_getElem.2 ⟨i, bound, same, rfl⟩)
  let unsent := { w with pendingTasks := w.pendingTasks.eraseIdx index }
  let looped := moveTries route { script with tries := script.tries.map (commitTry (some host)) }
  let there := unsent.arrive (fun dir => { dir with commits := dir.commits.insert file })
    looped.reached
  have commits : ∀ h g, g ∈ (there.hosts h).commits ↔
      g ∈ (w.hosts h).commits ∨ (g = file ∧ h ∈ looped.reached) := by
    apply arrive_mem Receiving.commits
    exact fun _ _ => List.mem_insert_iff
  have taken : ∀ h, (there.hosts h).taken = (w.hosts h).taken := by
    apply arrive_kept Receiving.taken
    exact fun _ => rfl
  have regular : ∀ h, (there.hosts h).regular = (w.hosts h).regular := by
    apply arrive_kept Receiving.regular
    exact fun _ => rfl
  have given : there.given = w.given := arrive_given _
  have moves : there.moves = w.moves := arrive_moves _
  have created : there.created = w.created := arrive_created _
  have pendingTasks : there.pendingTasks = w.pendingTasks.eraseIdx index :=
    arrive_pendingTasks _
  have sent (unlinkFiles : List (Entity File Host)) (came : host ∈ looped.reached) :
      Delivering { there with unlinkFiles := unlinkFiles } :=
    delivering.committed moved only given moves created
      (fun entity member => kept entity (pendingTasks ▸ member))
      (fun entity member => (others entity member).imp (pendingTasks ▸ ·) (⟨·, came⟩))
      commits taken regular
  change Delivering (match moveResult route script.unlink looped.ended with
    | .unlinkException => { there with unlinkFiles := there.unlinkFiles ++ [.commit file _] }
    | .returned true => there
    | .returned false => { there with
        pendingTasks := there.pendingTasks ++ [.commit file (some host)] })
  cases result : moveResult route script.unlink looped.ended with
  | unlinkException => exact sent _ (arrived (moved_of_exception result))
  | returned done =>
    cases done with
    | true => exact sent _ (arrived ((moved_of_returned result).resolve_left not_skipped))
    | false =>
      refine delivering.committed moved only given moves created ?_ ?_ commits taken regular
      · intro entity member
        obtain member | same := List.mem_append.1 member
        · exact kept entity (pendingTasks ▸ member)
        · obtain rfl := List.mem_singleton.1 same
          exact List.mem_of_getElem? pending
      · intro entity member
        refine .inl (List.mem_append.2 ((others entity member).imp (pendingTasks ▸ ·) ?_))
        rintro rfl
        exact List.mem_singleton_self _

theorem take_commits (file : File) (dir : Receiving File) :
    (take file dir).commits = dir.commits := by
  unfold take
  split_ifs <;> rfl

theorem mem_take_taken :
    g ∈ (take file dir).taken ↔
      g ∈ dir.taken ∨ g = file ∧ file ∈ dir.regular := by
  unfold take
  split_ifs with here <;> simp [here]

theorem mem_take_regular : g ∈ (take file dir).regular ↔ g ∈ dir.regular ∧ g ≠ file := by
  unfold take
  split_ifs with here
  · simp
  · exact ⟨fun member => ⟨member, fun same => here (same ▸ member)⟩, And.left⟩

theorem take_nodup (once : dir.taken.Nodup) (left : file ∈ dir.regular → file ∉ dir.taken) :
    (take file dir).taken.Nodup := by
  unfold take
  split_ifs with here
  · refine List.nodup_append.2 ⟨once, List.nodup_singleton _, ?_⟩
    rintro g member _ same rfl
    exact left here (List.mem_singleton.1 same ▸ member)
  · exact once

theorem Delivering.fetchCommit (delivering : Delivering w) (come : file ∈ (w.hosts host).commits)
    (unlinked : Bool) : Delivering (w.fetchCommit host file unlinked) := by
  have moved := delivering.commits file host come
  let w' := w.fetchCommit host file unlinked
  have hosts (h : Host) : h = host ∨ w'.hosts h = w.hosts h := by
    by_cases here : h = host
    · exact .inl here
    · exact .inr (Function.update_of_ne here _ _)
  have taken : (w'.hosts host).taken = (Network.take file (w.hosts host)).taken := by
    simp [w', Network.fetchCommit]
  have regular : (w'.hosts host).regular = (Network.take file (w.hosts host)).regular := by
    simp [w', Network.fetchCommit]
  have fewer : ∀ g, g ∈ (w'.hosts host).commits → g ∈ (w.hosts host).commits := by
    intro g
    simp only [w', Network.fetchCommit, Function.update_self, take_commits]
    split_ifs
    · exact fun member => (List.mem_filter.1 member).1
    · exact id
  have others : ∀ g ≠ file, g ∈ (w.hosts host).commits → g ∈ (w'.hosts host).commits := by
    intro g apart
    simp only [w', Network.fetchCommit, Function.update_self, take_commits]
    split_ifs
    · exact fun member => List.mem_filter.2 ⟨member, by simpa using apart⟩
    · exact id
  change Delivering w'
  refine ⟨delivering.given, delivering.single, delivering.created, delivering.pending,
    ?_, ?_, ?_, ?_, ?_⟩
  · intro g h member
    obtain rfl | same := hosts h
    · exact delivering.commits g h (fewer g member)
    · exact delivering.commits g h (same ▸ member)
  · intro g h member
    obtain rfl | same := hosts h
    · rw [taken] at member
      obtain earlier | ⟨rfl, -⟩ := mem_take_taken.1 member
      · exact delivering.taken g h earlier
      · exact moved
    · exact delivering.taken g h (same ▸ member)
  · intro h
    obtain rfl | same := hosts h
    · rw [taken]
      exact take_nodup (delivering.taken_once h)
        fun here member => delivering.left file h member here
    · exact same ▸ delivering.taken_once h
  · intro g h member still
    obtain rfl | same := hosts h
    · rw [taken] at member
      rw [regular] at still
      obtain ⟨still, apart⟩ := mem_take_regular.1 still
      obtain earlier | ⟨now, -⟩ := mem_take_taken.1 member
      · exact delivering.left g h earlier still
      · exact apart now
    · rw [same] at member still
      exact delivering.left g h member still
  · intro g h member
    obtain rfl | same := hosts h
    · rw [taken, regular, mem_take_taken, mem_take_regular]
      obtain done | ⟨there, rest⟩ := delivering.waiting g h member
      · exact .inl (.inl done)
      · by_cases now : g = file
        · exact .inl (.inr ⟨now, now ▸ there⟩)
        · exact .inr ⟨⟨there, now⟩, rest.imp_right (others g now)⟩
    · rw [same]
      exact delivering.waiting g h member

theorem step_delivering (delivering : Delivering w) {action : Step File Host}
    (moves : action.Moves route w) (step : w.step route action = some w') : Delivering w' := by
  cases action with
  | fresh file script =>
    simp only [Network.step] at step
    split_ifs at step with seen
    cases step
    exact delivering.processRegular seen moves
  | retry index script =>
    obtain ⟨entity, pending, rfl⟩ := Option.map_eq_some_iff.1 step
    obtain ⟨file, host, rfl, -⟩ := delivering.pending entity (List.mem_of_getElem? pending)
    exact delivering.processCommit pending script
  | tryUnlink unlink =>
    cases step
    exact { delivering with }
  | fetch host file unlinked =>
    simp only [Network.step] at step
    split_ifs at step with come
    cases step
    exact delivering.fetchCommit come unlinked

theorem run_deliversOnce (route : Route) (actions : List (Step File Host))
    (moving : Along (Network.step route) (Step.Moves route) .start actions)
    (w : Network File Host) (ran : run (Network.step route) .start actions = some w) :
    DeliversOnce w :=
  (run_inv Delivering (fun kept => step_delivering kept) start_delivering moving ran).deliversOnce

/-- A first copy is reported as failed though it reached its host; a second host has the file
then, and gets the commit file after a failure. -/
def secondHost : List (Step Nat Nat) :=
  [.fresh 1 ⟨[⟨.host (some 5), .reached⟩, ⟨.host (some 7), .copied⟩], .unlinked⟩,
    .retry 0 ⟨[⟨.host (some 7), .failed⟩], .unlinked⟩,
    .retry 0 ⟨[⟨.host (some 7), .copied⟩], .failed⟩, .fetch 7 1 true]

theorem run_deliversOnce_secondHost : ∃ w : Network Nat Nat,
    run (Network.step ⟨3, true⟩) .start secondHost = some w ∧ DeliversOnce w := by
  refine ⟨_, rfl, run_deliversOnce ⟨3, true⟩ secondHost ?_ _ rfl⟩
  refine ⟨⟨⟨5, rfl, .inr ⟨7, rfl, .inl rfl⟩⟩, fun _ => by decide⟩, ?_⟩
  rintro _ ⟨⟩
  refine ⟨fun file pending => (by cases pending), ?_⟩
  rintro _ ⟨⟩
  refine ⟨fun file pending => (by cases pending), ?_⟩
  rintro _ ⟨⟩
  exact ⟨trivial, fun _ _ => trivial⟩

/-- The only try of a move fails; a commit file that names its host is created all the same. -/
theorem deliversOnce_not_failed : ¬ ∀ (route : Route) (actions : List (Step Nat Nat))
    (w : Network Nat Nat), run (Network.step route) .start actions = some w → DeliversOnce w := by
  intro all
  obtain ⟨host, -, moved⟩ := (all ⟨1, true⟩ [.fresh 1 ⟨[⟨.host (some 5), .failed⟩], .unlinked⟩]
    _ rfl).committed 1 (some 5) (by decide)
  exact List.not_mem_nil moved

end Kept

end AdServer.SyncLogs
