import AdServer.SyncLogs.CommitMode
import Mathlib.Data.List.Sort

/-!
# Feed routes

A call of `process` unlinks what earlier calls could not, and if nothing of that is left it
searches for files and moves them, one after another or as tasks of a pool.
-/

namespace AdServer.SyncLogs

open AdServer.Lib.Runs

inductive FetchType where
  | full
  | new
  | commited
  deriving DecidableEq

/-- `FeedRouteProcessor` and `ThreadPoolFeedRouteProcessor`. -/
inductive Variant where
  | sequential
  | threadPool
  deriving DecidableEq

structure FeedRoute where
  variant : Variant
  fetchType : FetchType

/-- Whether files come through a `FileReceiver`. -/
def FeedRoute.receiver (route : FeedRoute) : Bool := route.fetchType != .full

inductive Moved where
  | copied
  | failed
  | unlinkException
  deriving DecidableEq

/-- What a call of `process` meets. -/
structure Call (File : Type) where
  arrivals : List File
  unlink : File → Unlink
  /-- Files that the receiver happens to find when it scans its directory again. -/
  rescanned : File → Bool
  moved : File → Moved
  /-- Whether `enqueue_task` takes the task of the file. -/
  enqueued : File → Bool

/-- The files of a route. Without a receiver the input directory is where they are moved
from. -/
structure Feed (File : Type) where
  seen : List File
  /-- The input directory of a receiver. -/
  input : List File
  present : List File
  /-- What the receiver gives out without a look at its directory. -/
  known : List File
  unlinkFiles : List File
  /-- Every copy that was made. -/
  copied : List File
  deriving DecidableEq

namespace Feed

variable {File : Type} [LinearOrder File] (route : FeedRoute)

def start : Feed File := ⟨[], [], [], [], [], []⟩

def arrive (arrivals : List File) (w : Feed File) : Feed File :=
  if route.receiver then { w with seen := w.seen ++ arrivals, input := w.input ++ arrivals }
  else { w with seen := w.seen ++ arrivals, present := w.present ++ arrivals }

/-- The unlinking at the beginning of `process`. -/
def sweep (unlink : File → Unlink) (w : Feed File) : Feed File :=
  { w with
    present := w.present.filter fun file => !(w.unlinkFiles.contains file && unlink file != .failed)
    unlinkFiles := w.unlinkFiles.filter fun file => unlink file == .failed }

/-- What a search finds. -/
def listing (w : Feed File) : List File :=
  if route.receiver then w.known ++ w.input else w.present

/-- `make_file_list_for_feed_`. -/
def makeFileList (rescanned : File → Bool) (w : Feed File) : List File × Feed File :=
  if route.receiver then
    let again := w.present.filter fun file => rescanned file && !w.known.contains file
    ((w.known ++ w.input ++ again).insertionSort (· ≤ ·),
      { w with present := w.present ++ w.input, input := [], known := [] })
  else (w.present.insertionSort (· ≤ ·), w)

/-- `FileGuard::revert`, which does nothing without a receiver. -/
def revert (files : List File) (w : Feed File) : Feed File :=
  if route.receiver then { w with known := w.known ++ files } else w

/-- A file that is not there can not be moved. -/
def moveFile (moved : File → Moved) (file : File) (w : Feed File) : Moved :=
  if file ∈ w.present then moved file else .failed

def copyFile (file : File) (w : Feed File) : Feed File :=
  { w with present := w.present.filter (· ≠ file), copied := file :: w.copied }

/-- `process_files_`, one file after another. -/
def processSequential (moved : File → Moved) : List File → Feed File → Feed File
  | [], w => w
  | file :: files, w =>
    match w.moveFile moved file with
    | .copied => processSequential moved files (w.copyFile file)
    | .failed => w.revert route (file :: files)
    | .unlinkException =>
      -- the file itself is reverted too
      { w with unlinkFiles := w.unlinkFiles ++ [file], copied := file :: w.copied }.revert route
        (file :: files)

/-- `process_files_` with a pool, where each file has a task. -/
def processTasks (enqueued : File → Bool) (moved : File → Moved) :
    List File → Feed File → Feed File
  | [], w => w
  | file :: files, w =>
    if enqueued file then
      match w.moveFile moved file with
      | .copied => processTasks enqueued moved files (w.copyFile file)
      | .failed => processTasks enqueued moved files (w.revert route [file])
      | .unlinkException =>
        -- the name goes to a set of the pool that nothing reads
        processTasks enqueued moved files { w with copied := file :: w.copied }
    else w

def processFiles (call : Call File) (files : List File) (w : Feed File) : Feed File :=
  match route.variant with
  | .sequential => w.processSequential route call.moved files
  | .threadPool => w.processTasks route call.enqueued call.moved files

def process (call : Call File) (w : Feed File) : Feed File :=
  let w := (w.arrive route call.arrivals).sweep call.unlink
  if w.unlinkFiles = [] then
    let (files, w) := w.makeFileList route call.rescanned
    w.processFiles route call files
  else w

/-- A call, for files that come under new names. -/
def step (w : Feed File) (call : Call File) : Option (Feed File) :=
  if call.arrivals.Nodup ∧ ∀ file ∈ call.arrivals, file ∉ w.seen then some (w.process route call)
  else none

end Feed

variable {File : Type} [LinearOrder File]

/-- What a route promises after each call. -/
structure NeitherStrandsNorResends (route : FeedRoute) (w : Feed File) : Prop where
  /-- What was not copied is found by the next search. -/
  not_stranded : ∀ file, file ∈ w.present ∨ file ∈ w.input → file ∉ w.copied →
    file ∈ w.listing route
  copied_once : w.copied.Nodup
  /-- What is left of a copied file is to be unlinked. -/
  to_unlink : ∀ file ∈ w.copied, file ∈ w.present → file ∈ w.unlinkFiles
  /-- What is unlinked later is gone, and not found again. -/
  unlinked : ∀ (unlink : File → Unlink), ∀ file ∈ w.unlinkFiles, unlink file ≠ .failed →
    file ∉ (w.sweep unlink).present ∧ file ∉ (w.sweep unlink).listing route
  gone : ∀ file ∈ w.copied, file ∉ w.present → file ∉ w.listing route

/-- A call keeps to the promise: an unlink fails only where the next search is of the whole
directory by one thread, and where files are a receiver's the pool takes all tasks. -/
structure Call.Regular (route : FeedRoute) (call : Call File) : Prop where
  unlinks : route = ⟨.sequential, .full⟩ ∨ ∀ file, call.moved file ≠ .unlinkException
  enqueues : route.variant = .sequential ∨ route.fetchType = .full ∨
    ∀ file, call.enqueued file = true

/-- What holds between the moves of a call, with the files that are still to be moved. -/
structure Sound {File : Type} (route : FeedRoute) (files : List File) (w : Feed File) : Prop where
  seen : ∀ file, file ∈ w.present ∨ file ∈ w.input ∨ file ∈ w.copied → file ∈ w.seen
  present_nodup : w.present.Nodup
  copied_nodup : w.copied.Nodup
  files_nodup : files.Nodup
  in_progress : ∀ file ∈ files, file ∈ w.present ∧ file ∉ w.copied
  to_unlink : ∀ file ∈ w.copied, file ∈ w.present → file ∈ w.unlinkFiles
  unlinked_copied : ∀ file ∈ w.unlinkFiles, file ∈ w.copied
  /-- Nothing of a receiver waits to be unlinked, and it knows what is there. -/
  receiver : route.receiver = true → w.unlinkFiles = [] ∧ (w.known ++ w.input).Nodup ∧
    (∀ file ∈ w.known, file ∈ w.present ∧ file ∉ w.copied ∧ file ∉ files) ∧
    (∀ file ∈ w.input, file ∉ w.present ∧ file ∉ w.copied) ∧
    ∀ file ∈ w.present, file ∈ w.known ∨ file ∈ files
  full : route.receiver = false → w.input = [] ∧ w.known = []

theorem start_sound {File : Type} (route : FeedRoute) : Sound route [] (Feed.start : Feed File) := by
  constructor <;> simp [Feed.start]

section Sound

variable {route : FeedRoute} {files : List File} {file : File} {w : Feed File}

theorem Sound.neitherStrandsNorResends (sound : Sound route [] w) :
    NeitherStrandsNorResends route w := by
  cases kind : route.receiver with
  | true =>
    obtain ⟨none_left, -, known, input, complete⟩ := sound.receiver kind
    refine ⟨?_, sound.copied_nodup, sound.to_unlink, ?_, ?_⟩
    · rintro file (here | here) -
      · simp [Feed.listing, kind, (complete file here).resolve_right List.not_mem_nil]
      · simp [Feed.listing, kind, here]
    · simp [none_left]
    · intro file copied _ listed
      simp only [Feed.listing, kind, if_true, List.mem_append] at listed
      obtain listed | listed := listed
      · exact (known file listed).2.1 copied
      · exact (input file listed).2 copied
  | false =>
    obtain ⟨no_input, -⟩ := sound.full kind
    refine ⟨?_, sound.copied_nodup, sound.to_unlink, ?_, ?_⟩
    · rintro file (here | here) -
      · simpa [Feed.listing, kind] using here
      · simp [no_input] at here
    · intro unlink file waiting succeeded
      have gone : file ∉ (w.sweep unlink).present := by
        simp [Feed.sweep, waiting, succeeded]
      exact ⟨gone, by simpa [Feed.listing, kind] using gone⟩
    · intro file _ absent
      simpa [Feed.listing, kind] using absent

theorem Sound.copyFile (sound : Sound route (file :: files) w) :
    Sound route files (w.copyFile file) := by
  obtain ⟨here, fresh⟩ := sound.in_progress file List.mem_cons_self
  obtain ⟨apart, files_nodup⟩ := List.nodup_cons.1 sound.files_nodup
  have mem_present : ∀ g, g ∈ (w.copyFile file).present ↔ g ∈ w.present ∧ g ≠ file := by
    simp [Feed.copyFile]
  have mem_copied : ∀ g, g ∈ (w.copyFile file).copied ↔ g = file ∨ g ∈ w.copied := by
    simp [Feed.copyFile]
  refine ⟨?_, sound.present_nodup.filter _, ?_, files_nodup, ?_, ?_, ?_, ?_, sound.full⟩
  · intro g member
    rw [mem_present, mem_copied] at member
    obtain ⟨member, -⟩ | member | rfl | member := member
    · exact sound.seen g (.inl member)
    · exact sound.seen g (.inr (.inl member))
    · exact sound.seen g (.inl here)
    · exact sound.seen g (.inr (.inr member))
  · exact List.nodup_cons.2 ⟨fresh, sound.copied_nodup⟩
  · intro g member
    obtain ⟨there, left⟩ := sound.in_progress g (List.mem_cons_of_mem _ member)
    have other : g ≠ file := fun same => apart (same ▸ member)
    rw [mem_present, mem_copied]
    exact ⟨⟨there, other⟩, not_or.2 ⟨other, left⟩⟩
  · intro g copied there
    rw [mem_present] at there
    obtain same | copied := (mem_copied g).1 copied
    · exact absurd same there.2
    · exact sound.to_unlink g copied there.1
  · exact fun g waiting => (mem_copied g).2 (.inr (sound.unlinked_copied g waiting))
  · intro kind
    obtain ⟨none_left, nodup, known, input, complete⟩ := sound.receiver kind
    refine ⟨none_left, nodup, ?_, ?_, ?_⟩
    · intro g member
      obtain ⟨there, left, outside⟩ := known g member
      obtain ⟨other, outside⟩ := not_or.1 (List.mem_cons.not.1 outside)
      rw [mem_present, mem_copied]
      exact ⟨⟨there, other⟩, not_or.2 ⟨other, left⟩, outside⟩
    · intro g member
      obtain ⟨absent, left⟩ := input g member
      rw [mem_present, mem_copied]
      exact ⟨fun there => absent there.1, not_or.2 ⟨fun same => absent (same ▸ here), left⟩⟩
    · intro g there
      rw [mem_present] at there
      exact (complete g there.1).imp_right
        fun member => (List.mem_cons.1 member).resolve_left there.2

variable {route : FeedRoute} {moved : File → Moved} {w' : Feed File}

/-- Files go back to the receiver, or stay in the directory that is searched. -/
theorem Sound.revert {File : Type} (files : List File) {more : List File} {w : Feed File}
    (sound : Sound route (files ++ more) w) : Sound route more (w.revert route files) := by
  obtain ⟨files_nodup, more_nodup, apart⟩ := List.nodup_append.1 sound.files_nodup
  have later : ∀ g ∈ more, g ∈ w.present ∧ g ∉ w.copied := fun g member =>
    sound.in_progress g (List.mem_append_right _ member)
  cases kind : route.receiver with
  | false =>
    have same : w.revert route files = w := by simp [Feed.revert, kind]
    rw [same]
    exact { sound with
      files_nodup := more_nodup
      in_progress := later
      receiver := fun receiver => by simp [kind] at receiver }
  | true =>
    obtain ⟨none_left, nodup, known, input, complete⟩ := sound.receiver kind
    obtain ⟨known_nodup, input_nodup, known_input⟩ := List.nodup_append.1 nodup
    have reverted : w.revert route files = { w with known := w.known ++ files } := by
      simp [Feed.revert, kind]
    rw [reverted]
    refine { sound with
      files_nodup := more_nodup
      in_progress := later
      receiver := fun _ => ⟨none_left, ?_, ?_, input, ?_⟩
      full := fun full => by simp [kind] at full }
    · rw [List.append_assoc]
      refine List.nodup_append.2 ⟨known_nodup, List.nodup_append.2 ⟨files_nodup, input_nodup, ?_⟩, ?_⟩
      · rintro g member _ come rfl
        exact (input g come).1 (sound.in_progress g (List.mem_append_left _ member)).1
      · rintro g member h come rfl
        obtain come | come := List.mem_append.1 come
        · exact (known g member).2.2 (List.mem_append_left _ come)
        · exact known_input g member g come rfl
    · intro g member
      obtain member | member := List.mem_append.1 member
      · obtain ⟨there, left, outside⟩ := known g member
        exact ⟨there, left, fun inside => outside (List.mem_append_right _ inside)⟩
      · obtain ⟨there, left⟩ := sound.in_progress g (List.mem_append_left _ member)
        exact ⟨there, left, fun inside => apart g member g inside rfl⟩
    · intro g there
      obtain member | member := complete g there
      · exact .inl (List.mem_append_left _ member)
      · exact (List.mem_append.1 member).imp_left (List.mem_append_right _)

theorem Sound.leave {File : Type} {files : List File} {w : Feed File} (sound : Sound route files w)
    (full : route.receiver = false) : Sound route [] w := by
  have reverted := (show Sound route (files ++ []) w by rwa [List.append_nil]).revert
  simpa [Feed.revert, full] using reverted

theorem Sound.copied {File : Type} {files : List File} {file : File} {w : Feed File}
    (sound : Sound route (file :: files) w) (full : route.receiver = false) :
    Sound route [] { w with unlinkFiles := w.unlinkFiles ++ [file], copied := file :: w.copied } := by
  obtain ⟨here, fresh⟩ := sound.in_progress file List.mem_cons_self
  refine { sound.leave full with
    seen := ?_
    copied_nodup := List.nodup_cons.2 ⟨fresh, sound.copied_nodup⟩
    in_progress := fun _ member => absurd member List.not_mem_nil
    to_unlink := ?_
    unlinked_copied := ?_
    receiver := fun receiver => by simp [full] at receiver }
  · intro g member
    simp only [List.mem_cons] at member
    obtain member | member | rfl | member := member
    · exact sound.seen g (.inl member)
    · exact sound.seen g (.inr (.inl member))
    · exact sound.seen g (.inl here)
    · exact sound.seen g (.inr (.inr member))
  · intro g copied there
    obtain rfl | copied := List.mem_cons.1 copied
    · exact List.mem_append_right _ List.mem_cons_self
    · exact List.mem_append_left _ (sound.to_unlink g copied there)
  · intro g waiting
    obtain waiting | same := List.mem_append.1 waiting
    · exact List.mem_cons_of_mem _ (sound.unlinked_copied g waiting)
    · exact List.mem_singleton.1 same ▸ List.mem_cons_self

theorem moveFile_here (here : file ∈ w.present) :
    w.moveFile moved file = moved file := if_pos here

theorem processSequential_sound
    (unlinks : route.receiver = false ∨ ∀ file, moved file ≠ .unlinkException)
    (sound : Sound route files w) : Sound route [] (w.processSequential route moved files) := by
  induction files generalizing w with
  | nil => exact sound
  | cons file files ih =>
    have here := (sound.in_progress file List.mem_cons_self).1
    rw [Feed.processSequential, moveFile_here here]
    cases result : moved file with
    | copied => exact ih sound.copyFile
    | failed => exact (show Sound route (file :: files ++ []) w by rwa [List.append_nil]).revert
    | unlinkException =>
      have full := unlinks.resolve_right fun never => never file result
      simpa [Feed.revert, full] using sound.copied full

theorem processTasks_sound {enqueued : File → Bool}
    (unlinks : ∀ file, moved file ≠ .unlinkException)
    (enqueues : route.receiver = false ∨ ∀ file, enqueued file = true)
    (sound : Sound route files w) : Sound route [] (w.processTasks route enqueued moved files) := by
  induction files generalizing w with
  | nil => exact sound
  | cons file files ih =>
    have here := (sound.in_progress file List.mem_cons_self).1
    rw [Feed.processTasks, moveFile_here here]
    split_ifs with taken
    · cases result : moved file with
      | copied => exact ih sound.copyFile
      | failed => exact ih (Sound.revert [file] sound)
      | unlinkException => exact absurd result (unlinks file)
    · exact sound.leave (enqueues.resolve_right fun all => taken (all file))

theorem Sound.arrive {File : Type} {w : Feed File} (sound : Sound route [] w) {arrivals : List File}
    (nodup : arrivals.Nodup) (fresh : ∀ file ∈ arrivals, file ∉ w.seen) :
    Sound route [] (w.arrive route arrivals) := by
  have absent : ∀ file ∈ arrivals, file ∉ w.present ∧ file ∉ w.input ∧ file ∉ w.copied :=
    fun file member =>
      ⟨fun there => fresh file member (sound.seen file (.inl there)),
        fun there => fresh file member (sound.seen file (.inr (.inl there))),
        fun there => fresh file member (sound.seen file (.inr (.inr there)))⟩
  cases kind : route.receiver with
  | true =>
    obtain ⟨none_left, known_nodup, known, input, complete⟩ := sound.receiver kind
    simp only [Feed.arrive, kind, if_true]
    refine { sound with
      seen := ?_
      receiver := fun _ => ⟨none_left, ?_, known, ?_, complete⟩
      full := fun full => by simp [kind] at full }
    · intro g member
      simp only [List.mem_append] at member ⊢
      obtain member | (member | member) | member := member
      · exact .inl (sound.seen g (.inl member))
      · exact .inl (sound.seen g (.inr (.inl member)))
      · exact .inr member
      · exact .inl (sound.seen g (.inr (.inr member)))
    · rw [← List.append_assoc]
      refine List.nodup_append.2 ⟨known_nodup, nodup, ?_⟩
      rintro g member _ come rfl
      obtain member | member := List.mem_append.1 member
      · exact (absent g come).1 (known g member).1
      · exact (absent g come).2.1 member
    · intro g member
      obtain member | member := List.mem_append.1 member
      · exact input g member
      · exact ⟨(absent g member).1, (absent g member).2.2⟩
  | false =>
    simp only [Feed.arrive, kind, Bool.false_eq_true, if_false]
    refine { sound with
      seen := ?_
      present_nodup := ?_
      in_progress := fun _ member => absurd member List.not_mem_nil
      to_unlink := ?_
      receiver := fun receiver => by simp [kind] at receiver }
    · intro g member
      simp only [List.mem_append] at member ⊢
      obtain (member | member) | member | member := member
      · exact .inl (sound.seen g (.inl member))
      · exact .inr member
      · exact .inl (sound.seen g (.inr (.inl member)))
      · exact .inl (sound.seen g (.inr (.inr member)))
    · refine List.nodup_append.2 ⟨sound.present_nodup, nodup, ?_⟩
      rintro g member _ come rfl
      exact (absent g come).1 member
    · intro g copied there
      obtain there | come := List.mem_append.1 there
      · exact sound.to_unlink g copied there
      · exact absurd copied (absent g come).2.2

theorem Sound.sweep (sound : Sound route [] w) (unlink : File → Unlink) :
    Sound route [] (w.sweep unlink) where
  seen file member := sound.seen file (member.imp_left fun there => (List.mem_filter.1 there).1)
  present_nodup := sound.present_nodup.filter _
  copied_nodup := sound.copied_nodup
  files_nodup := List.nodup_nil
  in_progress _ member := absurd member List.not_mem_nil
  to_unlink file copied there := by
    obtain ⟨there, kept⟩ := List.mem_filter.1 there
    have waiting := sound.to_unlink file copied there
    exact List.mem_filter.2 ⟨waiting, by simpa [waiting] using kept⟩
  unlinked_copied file waiting := sound.unlinked_copied file (List.mem_filter.1 waiting).1
  receiver kind := by
    have none_left := (sound.receiver kind).1
    have same : w.sweep unlink = w := by
      obtain ⟨seen, input, present, known, unlinkFiles, copied⟩ := w
      simp only at none_left
      subst none_left
      simp [Feed.sweep]
    rw [same]
    exact sound.receiver kind
  full := sound.full

theorem Sound.makeFileList (sound : Sound route [] w) (none_left : w.unlinkFiles = [])
    (rescanned : File → Bool) : Sound route (w.makeFileList route rescanned).1
      (w.makeFileList route rescanned).2 := by
  have not_copied : ∀ file ∈ w.present, file ∉ w.copied := fun file there copied => by
    have waiting := sound.to_unlink file copied there
    simp [none_left] at waiting
  cases kind : route.receiver with
  | true =>
    obtain ⟨-, nodup, known, input, complete⟩ := sound.receiver kind
    have none_again : (w.present.filter fun file => rescanned file && !w.known.contains file) =
        [] := by
      refine List.filter_eq_nil_iff.2 fun file there => ?_
      simp [(complete file there).resolve_right List.not_mem_nil]
    simp only [Feed.makeFileList, kind, if_true, none_again, List.append_nil]
    have files : ∀ file, file ∈ (w.known ++ w.input).insertionSort (· ≤ ·) ↔
        file ∈ w.known ∨ file ∈ w.input := fun file => by
      rw [List.mem_insertionSort, List.mem_append]
    refine ⟨?_, ?_, sound.copied_nodup, (List.perm_insertionSort _ _).nodup_iff.2 nodup, ?_, ?_,
      sound.unlinked_copied, fun _ => ⟨none_left, List.nodup_nil, ?_, ?_, ?_⟩,
      fun full => by simp [kind] at full⟩
    · intro g member
      simp only [List.mem_append, List.not_mem_nil, false_or] at member
      obtain (member | member) | member := member
      · exact sound.seen g (.inl member)
      · exact sound.seen g (.inr (.inl member))
      · exact sound.seen g (.inr (.inr member))
    · refine List.nodup_append.2 ⟨sound.present_nodup, (List.nodup_append.1 nodup).2.1, ?_⟩
      rintro g member _ come rfl
      exact (input g come).1 member
    · intro g member
      obtain member | member := (files g).1 member
      · obtain ⟨there, left, -⟩ := known g member
        exact ⟨List.mem_append_left _ there, left⟩
      · exact ⟨List.mem_append_right _ member, (input g member).2⟩
    · intro g copied there
      obtain there | come := List.mem_append.1 there
      · exact sound.to_unlink g copied there
      · exact absurd copied (input g come).2
    · simp
    · simp
    · intro g there
      refine .inr ((files g).2 ?_)
      obtain there | come := List.mem_append.1 there
      · exact .inl ((complete g there).resolve_right List.not_mem_nil)
      · exact .inr come
  | false =>
    simp only [Feed.makeFileList, kind, Bool.false_eq_true, if_false]
    exact { sound with
      files_nodup := (List.perm_insertionSort _ _).nodup_iff.2 sound.present_nodup
      in_progress := fun file member => by
        rw [List.mem_insertionSort] at member
        exact ⟨member, not_copied file member⟩
      receiver := fun receiver => by simp [kind] at receiver }

theorem receiver_eq_false (full : route.fetchType = .full) : route.receiver = false := by
  simp [FeedRoute.receiver, full]

theorem step_sound (sound : Sound route [] w) {call : Call File} (regular : call.Regular route)
    (step : w.step route call = some w') : Sound route [] w' := by
  simp only [Feed.step] at step
  split_ifs at step with fresh
  cases step
  have swept := (sound.arrive fresh.1 fresh.2).sweep call.unlink
  simp only [Feed.process]
  split_ifs with none_left
  · have files := swept.makeFileList none_left call.rescanned
    simp only [Feed.processFiles]
    cases variant : route.variant with
    | sequential =>
      refine processSequential_sound (regular.unlinks.imp_left fun same => ?_) files
      exact receiver_eq_false (by rw [same])
    | threadPool =>
      have apart : route ≠ ⟨.sequential, .full⟩ := fun same => by simp [same] at variant
      have apart_variant : route.variant ≠ .sequential := fun same => by simp [same] at variant
      exact processTasks_sound (regular.unlinks.resolve_left apart)
        ((regular.enqueues.resolve_left apart_variant).imp_left receiver_eq_false) files
  · exact swept

theorem run_neitherStrandsNorResends (route : FeedRoute) (calls : List (Call File))
    (regular : Along (Feed.step route) (fun _ call => call.Regular route) .start calls)
    (w : Feed File) (ran : run (Feed.step route) .start calls = some w) :
    NeitherStrandsNorResends route w :=
  (run_inv (Sound route []) (fun sound => step_sound sound) (start_sound route) regular ran).neitherStrandsNorResends

/-- The second file is copied but stays; the next call can not unlink it either, the last one
does and goes on with the third file. -/
def slowUnlink : List (Call Nat) :=
  [⟨[1, 2, 3], fun _ => .unlinked, fun _ => false,
      fun file => if file = 2 then .unlinkException else .copied, fun _ => true⟩,
    ⟨[], fun _ => .failed, fun _ => false, fun _ => .copied, fun _ => true⟩,
    ⟨[], fun _ => .unlinked, fun _ => false, fun _ => .copied, fun _ => true⟩]

theorem run_neitherStrandsNorResends_slow : ∃ w : Feed Nat,
    run (Feed.step ⟨.sequential, .full⟩) .start slowUnlink = some w ∧
      NeitherStrandsNorResends ⟨.sequential, .full⟩ w := by
  refine ⟨_, rfl, run_neitherStrandsNorResends ⟨.sequential, .full⟩ slowUnlink ?_ _ rfl⟩
  exact ⟨⟨.inl rfl, .inl rfl⟩, fun _ _ => ⟨⟨.inl rfl, .inl rfl⟩, fun _ _ =>
    ⟨⟨.inl rfl, .inl rfl⟩, fun _ _ => trivial⟩⟩⟩

/-- A receiver's file that was copied but not unlinked is reverted: it is given out again
when it has long been unlinked. -/
theorem neitherStrandsNorResends_not_reverted : ¬ ∀ (route : FeedRoute) (calls : List (Call Nat))
    (w : Feed Nat), run (Feed.step route) .start calls = some w →
      NeitherStrandsNorResends route w := by
  intro all
  have promise := all ⟨.sequential, .new⟩
    [⟨[1], fun _ => .unlinked, fun _ => false, fun _ => .unlinkException, fun _ => true⟩] _ rfl
  exact (promise.unlinked (fun _ => .unlinked) 1 (by decide) (by decide)).2 (by decide)

end Sound

end AdServer.SyncLogs
