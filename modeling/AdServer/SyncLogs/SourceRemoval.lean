import AdServer.SyncLogs.CommitMode

/-!
# The removal of a source file

A mover sends a file to a host and removes it; a fetch takes files from hosts and removes them
there. Both run a copy command, a mover also a post command, and go by the exit codes. A command
runs here, to or from a host that may be this one.
-/

namespace AdServer.SyncLogs

variable {Host : Type}

inductive CommandType where
  | generic
  | rsync
  deriving DecidableEq

/-- Which of its command templates are not empty. -/
structure FileRouter where
  type : CommandType
  hasCommand : Bool
  hasPostCommand : Bool
  deriving DecidableEq

inductive Answer where
  | threw
  | exited (code : Int) (output : String)
  deriving DecidableEq

/-- What the commands of one round of `move` would answer. -/
structure Answers where
  command : Answer
  postCommand : Answer
  deriving DecidableEq

/-- Whether `move` returns, and whether a copy command has succeeded in it. -/
structure Routed where
  returned : Bool
  copied : Bool
  deriving DecidableEq

namespace FileRouter

variable (router : FileRouter) (srcFileName : String) (answers : Nat → Answers)

/-- `run_command_` -/
def runCommand (hasCommand : Bool) (answer : Answer) : Answer :=
  if hasCommand then answer else .exited 0 ""

/-- The post command neither throws nor exits with an error. -/
def postSucceeds (answers : Answers) : Bool :=
  match runCommand router.hasPostCommand answers.postCommand with
  | .threw => false
  | .exited code _ => code == 0

/-- `AppFileRouter::move` -/
def appMove (answers : Answers) : Routed :=
  match runCommand router.hasCommand answers.command with
  | .threw => ⟨false, false⟩
  | .exited code _ =>
    if code ≠ 0 then ⟨false, false⟩
    else ⟨router.postSucceeds answers, router.hasCommand⟩

/-- `RSyncFileRouter::move`, by the rest of `rename_try_index`. -/
def rsyncMove : Nat → Routed
  | 0 => ⟨true, false⟩
  | renameTryIndex + 1 =>
    match runCommand router.hasCommand (answers renameTryIndex).command with
    | .threw => ⟨false, false⟩
    | .exited code output =>
      if code ≠ 0 then ⟨false, false⟩
      else if output = "" then
        -- it exists already
        if router.postSucceeds (answers renameTryIndex) then
          let later := rsyncMove renameTryIndex
          { later with copied := router.hasCommand || later.copied }
        else ⟨false, router.hasCommand⟩
      else if srcFileName.toList <:+: output.toList then
        ⟨router.postSucceeds (answers renameTryIndex), router.hasCommand⟩
      else ⟨false, router.hasCommand⟩

def move : Routed :=
  match router.type with
  | .generic => router.appMove (answers 0)
  | .rsync => router.rsyncMove srcFileName answers 2

variable {router srcFileName answers}

theorem rsyncMove_idle (empty : router.hasCommand = false) (tries : Nat) :
    (router.rsyncMove srcFileName answers tries).copied = false := by
  induction tries with
  | zero => rfl
  | succ tries ih =>
    simp only [rsyncMove, runCommand, empty, Bool.false_eq_true, if_false, ne_eq, not_true,
      if_true, Bool.false_or]
    split_ifs
    · exact ih
    · rfl

theorem move_idle (empty : router.hasCommand = false) :
    (router.move srcFileName answers).copied = false := by
  cases type : router.type with
  | generic => simp [move, type, appMove, runCommand, empty]
  | rsync => simp [move, type, rsyncMove_idle empty]

theorem move_copied (command : router.hasCommand = true)
    (returned : (router.move srcFileName answers).returned = true) :
    (router.move srcFileName answers).copied = true := by
  cases type : router.type with
  | generic =>
    simp only [move, type, appMove] at returned ⊢
    cases answer : runCommand router.hasCommand (answers 0).command with
    | threw => simp [answer] at returned
    | exited code output =>
      simp only [answer] at returned ⊢
      split_ifs at returned ⊢
      exact command
  | rsync =>
    simp only [move, type, rsyncMove] at returned ⊢
    cases answer : runCommand router.hasCommand (answers 1).command with
    | threw => simp [answer] at returned
    | exited code output =>
      simp only [answer] at returned ⊢
      split_ifs at returned ⊢ <;> simp [command]

end FileRouter

structure Mover where
  route : Route
  dstDir : String
  commitMode : Bool
  localFileRouter : FileRouter
  remoteFileRouter : FileRouter

/-- What one try meets. -/
structure Sending (Host : Type) where
  destination : Destination Host
  isLocal : Bool
  answers : Nat → Answers

/-- What the tries of a call come to, and where copy commands have succeeded; this machine is
`none`. -/
structure Sent (Host : Type) where
  ended : Ended
  dstHost : Option Host
  copies : List (Option Host × String)

structure MoveOutcome (Host : Type) where
  result : MoveResult
  dstHost : Option Host
  copies : List (Option Host × String)
  unlinked : Bool

namespace Mover

variable (mover : Mover) (srcPath srcFile : String)

def srcFilePath : String := srcPath ++ srcFile

def dstFileName : String :=
  (if mover.dstDir.toList.getLast? = some '/' then mover.dstDir else mover.dstDir ++ "/") ++
    srcFile ++ if mover.commitMode then ".C" else ""

/-- A try with a host. -/
def send (sending : Sending Host) : Routed :=
  if sending.isLocal then
    if srcFilePath srcPath srcFile ≠ mover.dstFileName srcFile then
      mover.localFileRouter.move srcFile sending.answers
    else ⟨true, false⟩
  else mover.remoteFileRouter.move srcFile sending.answers

/-- Where the try copies to, if its command succeeds. -/
def copies (sending : Sending Host) (host : Host) : List (Option Host × String) :=
  if (mover.send srcPath srcFile sending).copied then
    [(if sending.isLocal then none else some host, mover.dstFileName srcFile)]
  else []

/-- The loop of `FeedRouteMover::move`. -/
def loop (dstHost : Option Host) : List (Sending Host) → Sent Host
  | [] => ⟨.after false, dstHost, []⟩
  | sending :: rest =>
    match sending.destination with
    | .notReady => ⟨.returned false, dstHost, []⟩
    | .notAvailable => ⟨.returned false, dstHost, []⟩
    | .host none => ⟨.returned true, none, []⟩
    | .host (some host) =>
      if (mover.send srcPath srcFile sending).returned then
        ⟨.after true, some host, mover.copies srcPath srcFile sending host⟩
      else
        let later := loop (some host) rest
        { later with copies := mover.copies srcPath srcFile sending host ++ later.copies }

/-- `FeedRouteMover::move`, with the tries that it is active for. -/
def move (sendings : List (Sending Host)) (unlink : Unlink) : MoveOutcome Host :=
  let sent := mover.loop srcPath srcFile none (sendings.take mover.route.triesPerFile)
  { result := moveResult mover.route unlink sent.ended
    dstHost := sent.dstHost
    copies := sent.copies
    unlinked := sent.ended == .after true && mover.route.unlinkSource && unlink == .unlinked }

/-- The source is removed, or taken for moved, only with a copy elsewhere. -/
structure RemovesCopied (source : String) (moved : MoveOutcome Host) : Prop where
  unlinked : moved.unlinked → ∃ target ∈ moved.copies, target ≠ (none, source)
  returned : moved.result = .returned true → moved.dstHost.isSome →
    ∃ target ∈ moved.copies, target ≠ (none, source)
  untouched : moved.result ≠ .returned true ∨ moved.dstHost = none → moved.unlinked = false

/-- A try that runs no copy command. -/
def Idle (sending : Sending Host) : Prop :=
  if sending.isLocal then
    srcFilePath srcPath srcFile = mover.dstFileName srcFile ∨
      mover.localFileRouter.hasCommand = false
  else mover.remoteFileRouter.hasCommand = false

instance (sending : Sending Host) : Decidable (mover.Idle srcPath srcFile sending) :=
  inferInstanceAs (Decidable (ite _ _ _))

/-- No try that runs no copy command, and has no post command that fails, ends the call, unless a
command of an earlier try has succeeded or the call throws because the source cannot be removed. -/
def SendsCopies (unlink : Unlink) (copied : Bool) : List (Sending Host) → Prop
  | [] => True
  | sending :: rest =>
    match sending.destination with
    | .host (some _) =>
      if (mover.send srcPath srcFile sending).returned then
        mover.Idle srcPath srcFile sending →
          copied ∨ (mover.route.unlinkSource ∧ unlink = .failed)
      else SendsCopies unlink (copied || (mover.send srcPath srcFile sending).copied) rest
    | _ => True

variable {mover srcPath srcFile} {sending : Sending Host} {sendings : List (Sending Host)}

theorem send_idle (idle : mover.Idle srcPath srcFile sending) :
    (mover.send srcPath srcFile sending).copied = false := by
  rw [Idle] at idle
  rw [send]
  split_ifs at idle ⊢ with here differ
  · exact FileRouter.move_idle (idle.resolve_left differ)
  · rfl
  · exact FileRouter.move_idle idle

theorem send_copied (command : ¬mover.Idle srcPath srcFile sending)
    (returned : (mover.send srcPath srcFile sending).returned = true) :
    (mover.send srcPath srcFile sending).copied = true := by
  rw [Idle] at command
  rw [send] at returned ⊢
  split_ifs at command returned ⊢ with here differ
  · push Not at command
    exact FileRouter.move_copied (by simpa using command.2) returned
  · exact absurd (.inl (not_not.1 differ)) command
  · exact FileRouter.move_copied (by simpa using command) returned

theorem copies_elsewhere {host : Host} : ∀ target ∈ mover.copies srcPath srcFile sending host,
    target ≠ (none, srcFilePath srcPath srcFile) := by
  rintro target member rfl
  by_cases copied : (mover.send srcPath srcFile sending).copied
  · rw [copies, if_pos copied, List.mem_singleton, Prod.mk.injEq] at member
    obtain ⟨machine, path⟩ := member
    by_cases here : sending.isLocal
    · rw [send, if_pos here, if_neg (not_not.2 path)] at copied
      cases copied
    · rw [if_neg here] at machine
      cases machine
  · rw [copies, if_neg copied] at member
    cases member

theorem copies_eq_nil {host : Host} : mover.copies srcPath srcFile sending host = [] ↔
    (mover.send srcPath srcFile sending).copied = false := by
  rw [copies]
  split_ifs with copied <;> simp [copied]

theorem loop_elsewhere (dstHost : Option Host) : ∀ target ∈
    (mover.loop srcPath srcFile dstHost sendings).copies,
      target ≠ (none, srcFilePath srcPath srcFile) := by
  induction sendings generalizing dstHost with
  | nil => simp [loop]
  | cons sending rest ih =>
    intro target member
    rw [loop] at member
    split at member
    · cases member
    · cases member
    · cases member
    · dsimp only at member
      split_ifs at member with returned
      · exact copies_elsewhere target member
      · rcases List.mem_append.1 member with here | later
        · exact copies_elsewhere target here
        · exact ih _ target later

theorem loop_dstHost (dstHost : Option Host) :
    ((mover.loop srcPath srcFile dstHost sendings).ended = .returned true →
      (mover.loop srcPath srcFile dstHost sendings).dstHost = none) ∧
    ((mover.loop srcPath srcFile dstHost sendings).ended = .after true →
      (mover.loop srcPath srcFile dstHost sendings).dstHost.isSome) := by
  induction sendings generalizing dstHost with
  | nil => simp [loop]
  | cons sending rest ih =>
    rw [loop]
    split
    · simp
    · simp
    · simp
    · dsimp only
      split_ifs with returned
      · simp
      · exact ih _

theorem sendsCopies_iff (unlink : Unlink) (copied : Bool) (dstHost : Option Host) :
    mover.SendsCopies srcPath srcFile unlink copied sendings ↔
      ((mover.loop srcPath srcFile dstHost sendings).ended = .after true →
        copied ∨ (mover.loop srcPath srcFile dstHost sendings).copies ≠ [] ∨
          (mover.route.unlinkSource ∧ unlink = .failed)) := by
  induction sendings generalizing copied dstHost with
  | nil => simp [SendsCopies, loop]
  | cons sending rest ih =>
    rw [SendsCopies, loop]
    cases destination : sending.destination with
    | notReady => simp
    | notAvailable => simp
    | host name =>
      cases name with
      | none => simp
      | some host =>
        dsimp only
        by_cases returned : (mover.send srcPath srcFile sending).returned
        · rw [if_pos returned, if_pos returned]
          by_cases idle : mover.Idle srcPath srcFile sending
          · simp [idle, copies_eq_nil.2 (send_idle idle)]
          · simp [idle, copies_eq_nil, send_copied idle returned]
        · rw [if_neg returned, if_neg returned, ih _ (some host)]
          simp only [Bool.or_eq_true, ne_eq, List.append_eq_nil_iff, copies_eq_nil, not_and_or,
            Bool.not_eq_false, or_assoc]

theorem removesCopied_iff (unlink : Unlink) :
    RemovesCopied (srcFilePath srcPath srcFile) (mover.move srcPath srcFile sendings unlink) ↔
      mover.SendsCopies srcPath srcFile unlink false
        (sendings.take mover.route.triesPerFile) := by
  rw [sendsCopies_iff unlink false none]
  obtain ⟨skipped, sent⟩ := @loop_dstHost _ mover srcPath srcFile
    (sendings.take mover.route.triesPerFile) none
  have elsewhere := @loop_elsewhere _ mover srcPath srcFile
    (sendings.take mover.route.triesPerFile) none
  simp only [move]
  generalize mover.loop srcPath srcFile none (sendings.take mover.route.triesPerFile) = loop at *
  obtain ⟨ended, dstHost, copies⟩ := loop
  have somewhere : (∃ target ∈ copies, target ≠ (none, srcFilePath srcPath srcFile)) ↔
      copies ≠ [] := by
    constructor
    · rintro ⟨target, member, -⟩
      exact List.ne_nil_of_mem member
    · intro some_copies
      obtain ⟨target, member⟩ := List.exists_mem_of_ne_nil copies some_copies
      exact ⟨target, member, elsewhere target member⟩
  dsimp only at skipped sent somewhere ⊢
  constructor
  · rintro ⟨unlinked, returned, -⟩ rfl
    by_cases throws : mover.route.unlinkSource ∧ unlink = .failed
    · exact .inr (.inr throws)
    · refine .inr (.inl (somewhere.1 (returned ?_ (sent rfl))))
      simpa [moveResult] using throws
  · intro sends
    cases ended with
    | returned result =>
      refine ⟨by simp, ?_, by simp⟩
      intro is_true is_some
      obtain rfl : result = true := by simpa [moveResult] using is_true
      simp [skipped rfl] at is_some
    | after moved =>
      cases moved with
      | false => exact ⟨by simp, by simp [moveResult], by simp⟩
      | true =>
        by_cases throws : mover.route.unlinkSource ∧ unlink = .failed
        · obtain ⟨removes, rfl⟩ := throws
          exact ⟨by simp, by simp [moveResult, removes], by simp⟩
        · have some_copies : copies ≠ [] := by simpa [throws] using sends rfl
          refine ⟨fun _ => somewhere.2 some_copies, fun _ _ => somewhere.2 some_copies, ?_⟩
          rintro (failed | none_host)
          · exact absurd (by simpa [moveResult] using throws) failed
          · obtain rfl : dstHost = none := none_host
            simp at sent

end Mover

/-- The constructor gives the routers no post command, but nothing here depends on it. -/
structure Fetch where
  srcDir : String
  dstDir : String
  localFileRouter : FileRouter
  remoteFileRouter : FileRouter

/-- A file that a host lists. -/
structure Listed (Host : Type) where
  /-- `none` when the checker takes the source host for this machine -/
  machine : Option Host
  srcFile : String
  answers : Nat → Answers
  /-- whether the file can be removed, or the command for it succeeds -/
  removable : Bool

inductive FetchEvent (Host : Type) where
  /-- A copy command has succeeded. -/
  | copied (source target : Option Host × String)
  | unlinked (source : Option Host × String)

namespace Fetch

variable (fetch : Fetch)

def fileRouter (file : Listed Host) : FileRouter :=
  if file.machine.isNone then fetch.localFileRouter else fetch.remoteFileRouter

def source (file : Listed Host) : Option Host × String :=
  (file.machine, fetch.srcDir ++ file.srcFile)

def target (file : Listed Host) : Option Host × String := (none, fetch.dstDir ++ file.srcFile)

def route (file : Listed Host) : Routed :=
  (fetch.fileRouter file).move file.srcFile file.answers

/-- One file of `FetchRouteProcessor::process`. -/
def take (file : Listed Host) : List (FetchEvent Host) :=
  if file.srcFile = "" then []
  else
    (if (fetch.route file).copied then [.copied (fetch.source file) (fetch.target file)] else []) ++
      if (fetch.route file).returned && file.removable then [.unlinked (fetch.source file)] else []

/-- `FetchRouteProcessor::process`, with the files of all hosts. -/
def process (files : List (Listed Host)) : List (FetchEvent Host) := files.flatMap fetch.take

/-- Before a file is removed, it has been copied elsewhere; and a failed file stays. -/
structure RemovesCopied (files : List (Listed Host)) : Prop where
  unlinked : ∀ before source after,
    fetch.process files = before ++ FetchEvent.unlinked source :: after →
      ∃ target, .copied source target ∈ before ∧ target ≠ source
  untouched : ∀ file ∈ files, (fetch.route file).returned = false →
    ∀ source, FetchEvent.unlinked source ∉ fetch.take file

/-- A copy command takes the file to another place. -/
def CopiesAway (file : Listed Host) : Prop :=
  (fetch.fileRouter file).hasCommand = true ∧
    (file.machine = none → fetch.srcDir ++ file.srcFile ≠ fetch.dstDir ++ file.srcFile)

/-- What is removed has been taken to another place. -/
def SendsCopies (files : List (Listed Host)) : Prop :=
  ∀ file ∈ files, file.srcFile ≠ "" → (fetch.route file).returned = true → file.removable = true →
    fetch.CopiesAway file

variable {fetch} {file : Listed Host} {files : List (Listed Host)} {source target : Option Host × String}

theorem take_eq (named : file.srcFile ≠ "") (returned : (fetch.route file).returned = true)
    (removable : file.removable = true) : fetch.take file =
      (if (fetch.route file).copied then [.copied (fetch.source file) (fetch.target file)] else []) ++
        [.unlinked (fetch.source file)] := by
  rw [take, if_neg named, returned, removable]
  rfl

theorem copied_mem_take : FetchEvent.copied source target ∈ fetch.take file ↔
    file.srcFile ≠ "" ∧ (fetch.route file).copied = true ∧
      source = fetch.source file ∧ target = fetch.target file := by
  rw [take]
  split_ifs <;> simp_all

theorem unlinked_mem_take : FetchEvent.unlinked source ∈ fetch.take file ↔
    file.srcFile ≠ "" ∧ (fetch.route file).returned = true ∧ file.removable = true ∧
      source = fetch.source file := by
  rw [take]
  split_ifs <;> simp_all

theorem target_ne_source (away : fetch.CopiesAway file) : fetch.target file ≠ fetch.source file := by
  intro same
  obtain ⟨machine, path⟩ := Prod.mk.inj same
  exact away.2 machine.symm path.symm

theorem copiesAway_of_copied {other : Listed Host} (copied : (fetch.route other).copied = true)
    (same : fetch.source file = fetch.source other) (ne : fetch.target other ≠ fetch.source file) :
    fetch.CopiesAway file := by
  obtain ⟨machine, path⟩ := Prod.mk.inj same
  have name : file.srcFile = other.srcFile := (String.append_right_inj fetch.srcDir).1 path
  constructor
  · by_contra idle
    have router : fetch.fileRouter other = fetch.fileRouter file := by
      rw [fileRouter, fileRouter, show file.machine = other.machine from machine]
    rw [route, router, FileRouter.move_idle (by simpa using idle)] at copied
    cases copied
  · intro here same_path
    exact ne (Prod.ext here.symm (by rw [source, same_path, name]; rfl))

theorem unlinked_copied (sends : fetch.SendsCopies files) {before after : List (FetchEvent Host)}
    (split : fetch.process files = before ++ .unlinked source :: after) :
    ∃ target, .copied source target ∈ before ∧ target ≠ source := by
  induction files generalizing before with
  | nil => simp [process] at split
  | cons file files ih =>
    obtain ⟨away, sends⟩ := List.forall_mem_cons.1 sends
    rw [process, List.flatMap_cons] at split
    rcases List.append_eq_append_iff.1 split with ⟨later, rfl, rest⟩ | ⟨own, taken, rest⟩
    · obtain ⟨target, member, ne⟩ := ih sends rest
      exact ⟨target, List.mem_append_right _ member, ne⟩
    · cases own with
      | nil =>
        have removed_first : fetch.process files = [] ++ .unlinked source :: after := rest.symm
        obtain ⟨target, member, -⟩ := ih sends removed_first
        cases member
      | cons event own =>
        obtain ⟨rfl, -⟩ := List.cons.inj rest
        have removed : .unlinked source ∈ fetch.take file := by simp [taken]
        obtain ⟨named, returned, removable, rfl⟩ := unlinked_mem_take.1 removed
        have file_away := away named returned removable
        have copied := FileRouter.move_copied file_away.1 returned
        rw [take_eq named returned removable, show (fetch.route file).copied = true from copied,
          if_pos rfl] at taken
        refine ⟨fetch.target file, ?_, target_ne_source file_away⟩
        cases before with
        | nil => simp at taken
        | cons first before => simp [(List.cons.inj taken).1]

theorem removesCopied_iff (files : List (Listed Host)) :
    fetch.RemovesCopied files ↔ fetch.SendsCopies files := by
  constructor
  · rintro ⟨unlinked, -⟩ file member named returned removable
    obtain ⟨earlier, later, rfl⟩ := List.append_of_mem member
    have split : fetch.process (earlier ++ file :: later) = (fetch.process earlier ++
        if (fetch.route file).copied then [.copied (fetch.source file) (fetch.target file)] else []) ++
          .unlinked (fetch.source file) :: fetch.process later := by
      simp [process, take_eq named returned removable]
    obtain ⟨target, copied, ne⟩ := unlinked _ _ _ split
    have taken : .copied (fetch.source file) target ∈ fetch.process (earlier ++ [file]) := by
      rw [process, List.flatMap_append, List.flatMap_singleton, take_eq named returned removable,
        ← List.append_assoc]
      exact List.mem_append_left _ copied
    obtain ⟨other, -, took⟩ := List.mem_flatMap.1 taken
    obtain ⟨-, copied', same, rfl⟩ := copied_mem_take.1 took
    exact copiesAway_of_copied copied' same ne
  · intro sends
    refine ⟨fun _ _ _ split => unlinked_copied sends split, ?_⟩
    intro file _ failed source removed
    rw [(unlinked_mem_take.1 removed).2.1] at failed
    cases failed

end Fetch

theorem removed_copied (mover : Mover) (srcPath srcFile : String)
    (sendings : List (Sending Host)) (unlink : Unlink) (fetch : Fetch)
    (files : List (Listed Host)) :
    (Mover.RemovesCopied (Mover.srcFilePath srcPath srcFile)
        (mover.move srcPath srcFile sendings unlink) ↔
      mover.SendsCopies srcPath srcFile unlink false
        (sendings.take mover.route.triesPerFile)) ∧
    (fetch.RemovesCopied files ↔ fetch.SendsCopies files) :=
  ⟨Mover.removesCopied_iff unlink, Fetch.removesCopied_iff files⟩

/-- The route leads from a directory to itself. -/
def sameDirectory : Mover where
  route := ⟨3, true⟩
  dstDir := "/in/"
  commitMode := false
  localFileRouter := ⟨.rsync, true, false⟩
  remoteFileRouter := ⟨.rsync, true, false⟩

def toThisHost : Sending Nat := ⟨.host (some 1), true, fun _ => ⟨.threw, .threw⟩⟩

/-- The file is taken for moved, and the only one there is goes. -/
theorem sameDirectory_not_removesCopied :
    ¬∀ (mover : Mover) (srcPath srcFile : String) (sendings : List (Sending Nat))
      (unlink : Unlink), Mover.RemovesCopied (Mover.srcFilePath srcPath srcFile)
        (mover.move srcPath srcFile sendings unlink) := by
  intro removes
  have same : Mover.srcFilePath "/in/" "log" = sameDirectory.dstFileName "log" := by
    simp [Mover.srcFilePath, Mover.dstFileName, sameDirectory]
  have sends := (Mover.removesCopied_iff .unlinked).1
    (removes sameDirectory "/in/" "log" [toThisHost] .unlinked)
  have idle : sameDirectory.Idle "/in/" "log" toThisHost := .inl same
  have returned : (sameDirectory.send "/in/" "log" toThisHost).returned = true := by
    rw [Mover.send, show toThisHost.isLocal = true from rfl, if_pos rfl, if_neg (not_not.2 same)]
  rw [show [toThisHost].take sameDirectory.route.triesPerFile = [toThisHost] from rfl,
    Mover.SendsCopies] at sends
  simp only [show toThisHost.destination = .host (some 1) from rfl, returned, if_true] at sends
  obtain copied | ⟨-, failed⟩ := sends idle
  · cases copied
  · cases failed

end AdServer.SyncLogs
