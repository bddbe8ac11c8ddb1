import Mathlib.Data.Finset.Max

/-!
# The file receiver

A window on the eldest files of `intermediate_dir_`. The files past its end are not listed:
`oldest_not_in_files_` is a mark below all of them, and when the window is empty the directory
is scanned again, while files come and go.
-/

namespace AdServer.LogProcessing

variable {Name : Type} [LinearOrder Name]

/-- `oldest_not_in_files_`: empty, the mark of the undefined state, or a name. -/
abbrev Oldest (Name : Type) := Option (WithBot Name)

structure FileReceiver (Name : Type) where
  files : Finset Name
  oldestNotInFiles : Oldest Name
  inProgressFiles : Finset Name
  processedFiles : Finset Name
  fetchInternalInProgress : Bool
  deriving DecidableEq

namespace FileReceiver

/-- The undefined state: what is in the directory is not known. -/
def new : FileReceiver Name := ⟨∅, some ⊥, ∅, ∅, false⟩

def first? (files : Finset Name) : Option Name := files.min

def last? (files : Finset Name) : Option Name := files.max

/-- Whether the first file is not younger than the mark. -/
def firstWithin (r : FileReceiver Name) (oldest : WithBot Name) : Bool :=
  (first? r.files).any fun first => decide ((first : WithBot Name) ≤ oldest)

/-- Whether the window says what the eldest file is. -/
def knowsEldest (r : FileReceiver Name) : Bool :=
  match r.oldestNotInFiles with
  | none => true
  | some oldest => r.firstWithin oldest

/-- The smaller one of the first file and the mark. -/
def topOf (r : FileReceiver Name) : Oldest Name :=
  match first? r.files, r.oldestNotInFiles with
  | none, oldest => oldest
  | some first, none => some first
  | some first, some oldest => if oldest < first then some oldest else some first

/-- `get_eldest_i_`, with the new top. -/
def getEldestI (r : FileReceiver Name) : Option Name × Oldest Name × FileReceiver Name :=
  match first? r.files with
  | none => (none, r.topOf, r)
  | some first =>
    let r := { r with
      files := r.files.erase first
      inProgressFiles := insert first r.inProgressFiles }
    (some first, r.topOf, r)

/-- The file past the end is dropped, and the mark goes down to it. -/
def dropLast (r : FileReceiver Name) : FileReceiver Name :=
  match last? r.files with
  | none => r
  | some last =>
    { r with
      files := r.files.erase last
      oldestNotInFiles := match r.oldestNotInFiles with
        | none => some last
        | some oldest => if (last : WithBot Name) < oldest then some last else some oldest }

/-- `add_file_i_`, with the top. -/
def addFile (maxFilesToStore : Nat) (name : Name) (r : FileReceiver Name) :
    Oldest Name × FileReceiver Name :=
  let r := { r with files := insert name r.files }
  let r := if maxFilesToStore < r.files.card then r.dropLast else r
  (match first? r.files, r.oldestNotInFiles with
    | some first, some oldest => if (first : WithBot Name) < oldest then some first else some oldest
    | first, none => first.map fun first => (first : WithBot Name)
    | none, some oldest => some oldest, r)

/-- `fetch_file_`, when the name is not in use. -/
def fetchFile (maxFilesToStore : Nat) (name : Name) (r : FileReceiver Name) :
    Option (Oldest Name × FileReceiver Name) :=
  if name ∈ r.files ∨ name ∈ r.inProgressFiles then none
  else some (r.addFile maxFilesToStore name)

/-- `revert_`. -/
def revert (maxFilesToStore : Nat) (name : Name) (r : FileReceiver Name) :
    Oldest Name × FileReceiver Name :=
  { r with inProgressFiles := r.inProgressFiles.erase name }.addFile maxFilesToStore name

/-- `file_processed_`. -/
def fileProcessed (name : Name) (r : FileReceiver Name) : FileReceiver Name :=
  { r with
    inProgressFiles := r.inProgressFiles.erase name
    processedFiles := if r.fetchInternalInProgress then insert name r.processedFiles
      else r.processedFiles }

/-- `fetch_intermediate_dir_handler_`. -/
def fetchIntermediateDirHandler (maxFilesToStore : Nat) (name : Name) (r : FileReceiver Name) :
    FileReceiver Name :=
  if name ∈ r.inProgressFiles ∨ name ∈ r.processedFiles then r
  else (r.addFile maxFilesToStore name).2

/-- The beginning of `fetch_intermediate_dir_`, unless the eldest file is known meanwhile:
the mark is kept and cleared. -/
def beginFetch (r : FileReceiver Name) : Option (WithBot Name × FileReceiver Name) :=
  match r.oldestNotInFiles with
  | none => none
  | some oldest =>
    if r.firstWithin oldest then none
    else some (oldest, { r with oldestNotInFiles := none, fetchInternalInProgress := true })

/-- A scan that fails goes back to the mark before it. -/
def failFetch (backup : WithBot Name) (r : FileReceiver Name) : FileReceiver Name :=
  { r with
    oldestNotInFiles := match r.oldestNotInFiles with
      | none => some backup
      | some oldest => if backup < oldest then some backup else some oldest
    fetchInternalInProgress := false }

def endFetch (r : FileReceiver Name) : FileReceiver Name :=
  { r with processedFiles := ∅, fetchInternalInProgress := false }

end FileReceiver

/-! ## The directory and its users -/

/-- A scan, by the thread that holds `fetch_lock_`: the files that have been there all the
time, those that have been there at some time, and the entries it has read. -/
structure Scan (Name : Type) where
  thread : Nat
  backup : WithBot Name
  whole : Finset Name
  met : Finset Name
  delivered : Finset Name

/-- Where a call of `get_eldest` is between two locked sections. -/
inductive Phase where
  | idle
  | mustFetch
  | mustTake
  deriving DecidableEq

/-- A file that was given out, and whether its client has removed it. -/
structure Held (Name : Type) where
  name : Name
  removed : Bool
  deriving DecidableEq

structure Receiving (Name : Type) where
  receiver : FileReceiver Name
  dir : Finset Name
  guards : List (Held Name)
  threads : Nat → Phase
  scan : Option (Scan Name)

inductive Event (Name : Type) where
  /-- `move`, or `fetch_files` for a file of its directory. -/
  | fetch (name : Name)
  /-- The sections of `get_eldest`. -/
  | call (thread : Nat)
  | lockFetch (thread : Nat)
  | deliver (name : Name)
  | failScan
  | endScan
  | take (thread : Nat)
  | revert (index : Nat)
  /-- The client removes the file, and destroys its guard. -/
  | remove (index : Nat)
  | destroy (index : Nat)

namespace Receiving

variable (maxFilesToStore : Nat)

def start (dir : Finset Name) : Receiving Name := ⟨.new, dir, [], fun _ => .idle, none⟩

def setPhase (w : Receiving Name) (thread : Nat) (phase : Phase) : Receiving Name :=
  { w with threads := fun t => if t = thread then phase else w.threads t }

/-- `get_eldest_i_` at the end of a call, whose thread gets the guard. -/
def taken (w : Receiving Name) (thread : Nat) : Receiving Name :=
  let (name, _, receiver) := w.receiver.getEldestI
  let w := w.setPhase thread .idle
  { w with
    receiver := receiver
    guards := match name with
      | none => w.guards
      | some name => w.guards ++ [⟨name, false⟩] }

def step (w : Receiving Name) : Event Name → Option (Receiving Name)
  | .fetch name =>
    if name ∈ w.dir then none
    else (w.receiver.fetchFile maxFilesToStore name).map fun fetched =>
      { w with
        receiver := fetched.2
        dir := insert name w.dir
        scan := w.scan.map fun scan => { scan with met := insert name scan.met } }
  | .call thread =>
    if w.threads thread = .idle ∧ (∀ scan ∈ w.scan, scan.thread ≠ thread) then
      if !w.receiver.fetchInternalInProgress && w.receiver.knowsEldest then some (w.taken thread)
      else some (w.setPhase thread .mustFetch)
    else none
  | .lockFetch thread =>
    if w.threads thread = .mustFetch ∧ w.scan.isNone then
      match w.receiver.beginFetch with
      | none => some (w.setPhase thread .mustTake)
      | some (backup, receiver) =>
        some { w.setPhase thread .idle with
          receiver := receiver
          scan := some ⟨thread, backup, w.dir, w.dir, ∅⟩ }
    else none
  | .deliver name =>
    match w.scan with
    | none => none
    | some scan =>
      if name ∈ scan.met then
        some { w with
          receiver := w.receiver.fetchIntermediateDirHandler maxFilesToStore name
          scan := some { scan with delivered := insert name scan.delivered } }
      else none
  | .failScan =>
    w.scan.map fun scan => { w with receiver := w.receiver.failFetch scan.backup, scan := none }
  | .endScan =>
    match w.scan with
    | none => none
    | some scan =>
      if scan.whole ⊆ scan.delivered then
        some { w.setPhase scan.thread .mustTake with receiver := w.receiver.endFetch, scan := none }
      else none
  | .take thread => if w.threads thread = .mustTake then some (w.taken thread) else none
  | .revert index =>
    match w.guards[index]? with
    | none => none
    | some held =>
      if held.removed then none
      else some { w with
        receiver := (w.receiver.revert maxFilesToStore held.name).2
        guards := w.guards.eraseIdx index }
  | .remove index =>
    match w.guards[index]? with
    | none => none
    | some held =>
      if held.removed then none
      else some { w with
        dir := w.dir.erase held.name
        guards := w.guards.set index ⟨held.name, true⟩
        scan := w.scan.map fun scan => { scan with whole := scan.whole.erase held.name } }
  | .destroy index =>
    match w.guards[index]? with
    | none => none
    | some held =>
      if held.removed then
        some { w with
          receiver := w.receiver.fileProcessed held.name
          guards := w.guards.eraseIdx index }
      else none

def run (w : Receiving Name) : List (Event Name) → Option (Receiving Name)
  | [] => some w
  | event :: events => (w.step maxFilesToStore event).bind (·.run events)

end Receiving

/-! ## What is promised -/

/-- The name is past the end of the window. -/
def FileReceiver.Past (r : FileReceiver Name) (name : Name) : Prop :=
  ∃ oldest, r.oldestNotInFiles = some oldest ∧ oldest ≤ name

/-- No call is running. -/
def Receiving.Idle (w : Receiving Name) : Prop := w.scan = none ∧ ∀ thread, w.threads thread = .idle

structure KeepsFiles (maxFilesToStore : Nat) (w : Receiving Name) : Prop where
  named : w.Idle → ∀ name ∈ w.dir,
    (name ∈ w.receiver.files ∧ name ∉ w.receiver.inProgressFiles ∨
      name ∈ w.receiver.inProgressFiles ∧ name ∉ w.receiver.files) ∨ w.receiver.Past name
  bounded : w.receiver.files.card ≤ maxFilesToStore
  listed : w.receiver.files ⊆ w.dir
  held_once : (w.guards.map Held.name).Nodup

/-- No file that is not listed bears a name that an earlier scan has left as processed. -/
def Event.Fresh (w : Receiving Name) : Event Name → Prop
  | .lockFetch _ => w.receiver.beginFetch.isSome → ∀ name ∈ w.dir, name ∉ w.receiver.files →
      name ∉ w.receiver.inProgressFiles → name ∉ w.receiver.processedFiles
  | _ => True

def FreshRun (maxFilesToStore : Nat) (w : Receiving Name) : List (Event Name) → Prop
  | [] => True
  | event :: events => event.Fresh w ∧
      ∀ w', w.step maxFilesToStore event = some w' → FreshRun maxFilesToStore w' events

section Window

variable {maxFilesToStore : Nat} {r : FileReceiver Name} {name : Name}

open FileReceiver

variable {files : Finset Name}

theorem first?_eq_some {first : Name} (h : first? files = some first) :
    first ∈ files ∧ ∀ other ∈ files, first ≤ other :=
  ⟨Finset.mem_of_min h, fun _ member => Finset.min_le_of_eq member h⟩

theorem first?_eq_none (h : first? files = none) : files = ∅ :=
  Finset.min_eq_top.1 h

theorem last?_eq_some {last : Name} (h : last? files = some last) :
    last ∈ files ∧ ∀ other ∈ files, other ≤ last :=
  ⟨Finset.mem_of_max h, fun _ member => Finset.le_max_of_eq member h⟩

theorem last?_eq_none (h : last? files = none) : files = ∅ :=
  Finset.max_eq_bot.1 h

/-- What the window becomes where only it and its mark change. -/
structure Windowed (r r' : FileReceiver Name) : Prop where
  inProgressFiles : r'.inProgressFiles = r.inProgressFiles
  processedFiles : r'.processedFiles = r.processedFiles
  fetching : r'.fetchInternalInProgress = r.fetchInternalInProgress
  past : ∀ other, r.Past other → r'.Past other

theorem dropLast_spec (r : FileReceiver Name) : Windowed r r.dropLast ∧
    (r.dropLast.files.card = r.files.card - 1 ∧ r.dropLast.files ⊆ r.files) ∧
    ∀ other ∈ r.files, other ∈ r.dropLast.files ∨ r.dropLast.Past other := by
  cases last : last? r.files with
  | none =>
    have same : r.dropLast = r := by simp [dropLast, last]
    rw [same, last?_eq_none last]
    exact ⟨⟨rfl, rfl, rfl, fun _ h => h⟩, ⟨rfl, fun _ h => h⟩, by simp⟩
  | some last' =>
    obtain ⟨member, youngest⟩ := last?_eq_some last
    have files : r.dropLast.files = r.files.erase last' := by simp [dropLast, last]
    have mark : ∃ oldest, r.dropLast.oldestNotInFiles = some oldest ∧ oldest ≤ last' ∧
        ∀ before, r.oldestNotInFiles = some before → oldest ≤ before := by
      simp only [dropLast, last]
      cases r.oldestNotInFiles with
      | none => exact ⟨last', rfl, le_rfl, by simp⟩
      | some before =>
        by_cases lower : (last' : WithBot Name) < before
        · refine ⟨last', by simp [lower], le_rfl, ?_⟩
          rintro _ ⟨⟩
          exact lower.le
        · refine ⟨before, by simp [lower], not_lt.1 lower, ?_⟩
          rintro _ ⟨⟩
          exact le_rfl
    obtain ⟨oldest, marked, le_last, le_before⟩ := mark
    refine ⟨⟨?_, ?_, ?_, ?_⟩, ⟨?_, ?_⟩, ?_⟩
    · simp [dropLast, last]
    · simp [dropLast, last]
    · simp [dropLast, last]
    · rintro other ⟨before, same, le_other⟩
      exact ⟨oldest, marked, (le_before before same).trans le_other⟩
    · rw [files, Finset.card_erase_of_mem member]
    · rw [files]
      exact Finset.erase_subset _ _
    · intro other there
      by_cases same : other = last'
      · exact .inr ⟨oldest, marked, same ▸ le_last⟩
      · exact .inl (files ▸ Finset.mem_erase.2 ⟨same, there⟩)

/-- The file goes into the window, and a window past its bound drops the youngest. -/
theorem addFile_cases (maxFilesToStore : Nat) (name : Name) (r : FileReceiver Name) :
    (∃ last, last? (insert name r.files) = some last ∧
      maxFilesToStore < (insert name r.files).card ∧
      (r.addFile maxFilesToStore name).2 = { r with files := insert name r.files }.dropLast) ∨
    ((insert name r.files).card ≤ maxFilesToStore ∧
      (r.addFile maxFilesToStore name).2 = { r with files := insert name r.files }) := by
  obtain full | room := Nat.lt_or_ge maxFilesToStore (insert name r.files).card
  · obtain ⟨last, youngest⟩ := Finset.max_of_mem (Finset.mem_insert_self name r.files)
    refine .inl ⟨last, youngest, full, ?_⟩
    simp only [addFile]
    exact if_pos full
  · refine .inr ⟨room, ?_⟩
    simp only [addFile]
    exact if_neg (not_lt.2 room)

/-- A file that is added is in the window or past its end, like every other one. -/
theorem addFile_spec (maxFilesToStore : Nat) (name : Name) (r : FileReceiver Name) :
    Windowed r (r.addFile maxFilesToStore name).2 ∧
    (r.files.card ≤ maxFilesToStore →
      (r.addFile maxFilesToStore name).2.files.card ≤ maxFilesToStore) ∧
    (r.addFile maxFilesToStore name).2.files ⊆ insert name r.files ∧
    ∀ other ∈ insert name r.files, other ∈ (r.addFile maxFilesToStore name).2.files ∨
      (r.addFile maxFilesToStore name).2.Past other := by
  have card : (insert name r.files).card ≤ r.files.card + 1 := Finset.card_insert_le name r.files
  obtain ⟨-, -, -, same⟩ | ⟨room, same⟩ := addFile_cases maxFilesToStore name r
  · obtain ⟨windowed, ⟨fewer, subset⟩, kept⟩ := dropLast_spec { r with files := insert name r.files }
    rw [same]
    refine ⟨⟨windowed.inProgressFiles, windowed.processedFiles, windowed.fetching,
      windowed.past⟩, fun _ => ?_, subset, kept⟩
    dsimp only at fewer
    omega
  · rw [same]
    exact ⟨⟨rfl, rfl, rfl, fun _ h => h⟩, fun _ => room, fun _ h => h,
      fun _ member => .inl member⟩

theorem getEldestI_spec (r : FileReceiver Name) :
    (r.getEldestI.1 = none ∧ r.getEldestI.2.2 = r) ∨
    ∃ first ∈ r.files, r.getEldestI.1 = some first ∧ r.getEldestI.2.2 =
      { r with
        files := r.files.erase first
        inProgressFiles := insert first r.inProgressFiles } := by
  cases h : first? r.files with
  | none => exact .inl (by simp [getEldestI, h])
  | some first => exact .inr ⟨first, (first?_eq_some h).1, by simp [getEldestI, h]⟩

end Window

/-! ## What is kept -/

/-- A file of the directory is listed, in progress, past the end, or still to be read by the
scan that is going on. -/
def Receiving.Known (w : Receiving Name) (name : Name) : Prop :=
  name ∈ w.receiver.files ∨ name ∈ w.receiver.inProgressFiles ∨ w.receiver.Past name ∨
    ∃ scan ∈ w.scan, scan.backup ≤ name ∧ name ∈ scan.whole ∧ name ∉ scan.delivered ∧
      name ∉ w.receiver.processedFiles

/-- The invariant, but for one name that is just about to be added. -/
structure Received (maxFilesToStore : Nat) (added : Option Name) (w : Receiving Name) :
    Prop where
  bounded : w.receiver.files.card ≤ maxFilesToStore
  listed : w.receiver.files ⊆ w.dir
  apart : ∀ name ∈ w.receiver.files, name ∉ w.receiver.inProgressFiles
  held : ∀ name, name ∈ w.receiver.inProgressFiles ↔ name ∈ w.guards.map Held.name
  held_once : (w.guards.map Held.name).Nodup
  removed : ∀ held ∈ w.guards, held.removed = true ↔ held.name ∉ w.dir
  fetching : w.receiver.fetchInternalInProgress = w.scan.isSome
  known : ∀ name ∈ w.dir, added ≠ some name → w.Known name
  /-- What a scan has met and is gone has been given out. -/
  met : ∀ scan ∈ w.scan, ∀ name ∈ scan.met,
    name ∈ w.dir ∨ name ∈ w.receiver.inProgressFiles ∨ name ∈ w.receiver.processedFiles

section Received

variable {maxFilesToStore : Nat} {w w' : Receiving Name}

theorem Received.keepsFiles (received : Received maxFilesToStore none w) :
    KeepsFiles maxFilesToStore w where
  named idle name there := by
    obtain listed | given | past | ⟨scan, going, -⟩ := received.known name there nofun
    · exact .inl (.inl ⟨listed, received.apart name listed⟩)
    · exact .inl (.inr ⟨given, fun listed => received.apart name listed given⟩)
    · exact .inr past
    · rw [idle.1] at going
      cases going
  bounded := received.bounded
  listed := received.listed
  held_once := received.held_once

theorem start_received (maxFilesToStore : Nat) (dir : Finset Name) :
    Received maxFilesToStore none (Receiving.start dir) where
  bounded := Nat.zero_le _
  listed := Finset.empty_subset _
  apart := by simp [Receiving.start, FileReceiver.new]
  held := by simp [Receiving.start, FileReceiver.new]
  held_once := by simp [Receiving.start]
  removed := by simp [Receiving.start]
  fetching := rfl
  known name _ _ := .inr (.inr (.inl ⟨⊥, rfl, bot_le⟩))
  met := by simp [Receiving.start]

theorem Received.setPhase (received : Received maxFilesToStore none w) (thread : Nat)
    (phase : Phase) : Received maxFilesToStore none (w.setPhase thread phase) := { received with }

theorem Received.taken (received : Received maxFilesToStore none w) (thread : Nat) :
    Received maxFilesToStore none (w.taken thread) := by
  obtain ⟨none_there, same⟩ | ⟨first, member, given, same⟩ := getEldestI_spec w.receiver
  · have unchanged : w.taken thread = w.setPhase thread .idle := by
      simp [Receiving.taken, none_there, same, Receiving.setPhase]
    rw [unchanged]
    exact received.setPhase thread .idle
  · have here : first ∈ w.dir := received.listed member
    have fresh : first ∉ w.receiver.inProgressFiles := received.apart first member
    have next : w.taken thread = { w.setPhase thread .idle with
        receiver := { w.receiver with
          files := w.receiver.files.erase first
          inProgressFiles := insert first w.receiver.inProgressFiles }
        guards := w.guards ++ [⟨first, false⟩] } := by
      simp [Receiving.taken, given, same, Receiving.setPhase]
    rw [next]
    refine ⟨(Finset.card_erase_le).trans received.bounded,
      (Finset.erase_subset _ _).trans received.listed, ?_, ?_, ?_, ?_, received.fetching, ?_, ?_⟩
    · intro name listed
      obtain ⟨other, listed⟩ := Finset.mem_erase.1 listed
      exact fun given => (Finset.mem_insert.1 given).elim other (received.apart name listed)
    · intro name
      simp only [Finset.mem_insert, List.map_append, List.mem_append, received.held name,
        List.map_cons, List.map_nil, List.mem_singleton]
      exact or_comm
    · simp only [List.map_append, List.map_cons, List.map_nil]
      refine List.nodup_append.2 ⟨received.held_once, List.nodup_singleton _, ?_⟩
      rintro name held _ last rfl
      exact fresh ((received.held first).2 (List.mem_singleton.1 last ▸ held))
    · intro held member
      obtain earlier | last := List.mem_append.1 member
      · exact received.removed held earlier
      · obtain rfl := List.mem_singleton.1 last
        exact ⟨(fun h => by cases h), fun absent => absurd here absent⟩
    · intro name there _
      obtain listed | given | past | going := received.known name there (fun h => by cases h)
      · by_cases same : name = first
        · exact .inr (.inl (same ▸ Finset.mem_insert_self _ _))
        · exact .inl (Finset.mem_erase.2 ⟨same, listed⟩)
      · exact .inr (.inl (Finset.mem_insert_of_mem given))
      · exact .inr (.inr (.inl past))
      · exact .inr (.inr (.inr going))
    · intro scan going name met
      exact (received.met scan going name met).imp_right
        (Or.imp_left Finset.mem_insert_of_mem)

variable {name : Name} {guards : List (Held Name)} {index : Nat} {held : Held Name}
  {scan : Scan Name}

theorem Received.addFile (received : Received maxFilesToStore (some name) w) (there : name ∈ w.dir)
    (free : name ∉ w.receiver.inProgressFiles) :
    Received maxFilesToStore none
      { w with receiver := (w.receiver.addFile maxFilesToStore name).2 } := by
  obtain ⟨windowed, bounded, subset, kept⟩ := addFile_spec maxFilesToStore name w.receiver
  refine ⟨bounded received.bounded, ?_, ?_, ?_, received.held_once, received.removed, ?_, ?_, ?_⟩
  · intro other listed
    obtain rfl | listed := Finset.mem_insert.1 (subset listed)
    · exact there
    · exact received.listed listed
  · intro other listed
    rw [windowed.inProgressFiles]
    obtain rfl | listed := Finset.mem_insert.1 (subset listed)
    · exact free
    · exact received.apart other listed
  · intro other
    rw [windowed.inProgressFiles]
    exact received.held other
  · rw [windowed.fetching]
    exact received.fetching
  · intro other there _
    by_cases same : other = name
    · exact (kept other (same ▸ Finset.mem_insert_self _ _)).imp_right fun past => .inr (.inl past)
    obtain listed | given | past | ⟨scan, going, rest⟩ :=
      received.known other there fun added => same (Option.some.inj added).symm
    · exact (kept other (Finset.mem_insert_of_mem listed)).imp_right fun past => .inr (.inl past)
    · exact .inr (.inl (windowed.inProgressFiles ▸ given))
    · exact .inr (.inr (.inl (windowed.past other past)))
    · exact .inr (.inr (.inr ⟨scan, going, windowed.processedFiles ▸ rest⟩))
  · intro scan going other met
    rw [windowed.inProgressFiles, windowed.processedFiles]
    exact received.met scan going other met

theorem Received.fetch (received : Received maxFilesToStore none w) (absent : name ∉ w.dir)
    (free : name ∉ w.receiver.inProgressFiles) :
    Received maxFilesToStore none { w with
      receiver := (w.receiver.addFile maxFilesToStore name).2
      dir := insert name w.dir
      scan := w.scan.map fun scan => { scan with met := insert name scan.met } } := by
  refine Received.addFile (w := { w with
      dir := insert name w.dir
      scan := w.scan.map fun scan => { scan with met := insert name scan.met } })
    ⟨received.bounded, received.listed.trans (Finset.subset_insert _ _), received.apart,
      received.held, received.held_once, ?_, ?_, ?_, ?_⟩ (Finset.mem_insert_self _ _) free
  · intro held member
    have other : held.name ≠ name := fun same =>
      free (same ▸ (received.held held.name).2 (List.mem_map_of_mem member))
    rw [received.removed held member]
    simp [other]
  · simpa using received.fetching
  · intro other there added
    have there := (Finset.mem_insert.1 there).resolve_left fun same => added (same ▸ rfl)
    obtain listed | given | past | ⟨scan, going, rest⟩ := received.known other there nofun
    · exact .inl listed
    · exact .inr (.inl given)
    · exact .inr (.inr (.inl past))
    · exact .inr (.inr (.inr ⟨_, Option.mem_map_of_mem _ going, rest⟩))
  · intro scan going other met
    obtain ⟨before, earlier, rfl⟩ := Option.mem_map.1 going
    obtain rfl | met := Finset.mem_insert.1 met
    · exact .inl (Finset.mem_insert_self _ _)
    · exact (received.met before earlier other met).imp_left Finset.mem_insert_of_mem

/-- The guards that are left hold the other names. -/
theorem names_eraseIdx (once : (guards.map Held.name).Nodup) (found : guards[index]? = some held) :
    ((guards.eraseIdx index).map Held.name).Nodup ∧ ∀ name,
      name ∈ (guards.eraseIdx index).map Held.name ↔
        name ≠ held.name ∧ name ∈ guards.map Held.name := by
  obtain ⟨bound, rfl⟩ := List.getElem?_eq_some_iff.1 found
  have names : (guards.eraseIdx index).map Held.name =
      (guards.map Held.name).erase guards[index].name := by
    have there : index < (guards.map Held.name).length := by simpa using bound
    have same := once.erase_getElem index there
    rw [List.getElem_map] at same
    rw [same, List.eraseIdx_map]
  rw [names]
  exact ⟨once.erase _, fun name => once.mem_erase_iff⟩

section
variable (received : Received maxFilesToStore none w)
include received

theorem Received.revert (found : w.guards[index]? = some held) (present : held.removed = false) :
    Received maxFilesToStore none { w with
      receiver := (w.receiver.revert maxFilesToStore held.name).2
      guards := w.guards.eraseIdx index } := by
  have member := List.mem_of_getElem? found
  have there : held.name ∈ w.dir := by
    by_contra absent
    rw [(received.removed held member).2 absent] at present
    cases present
  refine Received.addFile (w := { w with
      receiver := { w.receiver with
        inProgressFiles := w.receiver.inProgressFiles.erase held.name }
      guards := w.guards.eraseIdx index })
    ⟨received.bounded, received.listed, ?_, ?_, ?_, ?_, received.fetching, ?_, ?_⟩ there
    (Finset.notMem_erase _ _)
  · exact fun name listed given => received.apart name listed (Finset.mem_of_mem_erase given)
  · intro name
    rw [(names_eraseIdx received.held_once found).2, ← received.held, Finset.mem_erase]
  · exact (names_eraseIdx received.held_once found).1
  · exact fun other inside => received.removed other (List.mem_of_mem_eraseIdx inside)
  · intro name there added
    have other : name ≠ held.name := fun same => added (same ▸ rfl)
    obtain listed | given | rest := received.known name there nofun
    · exact .inl listed
    · exact .inr (.inl (Finset.mem_erase.2 ⟨other, given⟩))
    · exact .inr (.inr rest)
  · intro scan going name met
    obtain here | given | processed := received.met scan going name met
    · exact .inl here
    · by_cases same : name = held.name
      · exact .inl (same ▸ there)
      · exact .inr (.inl (Finset.mem_erase.2 ⟨same, given⟩))
    · exact .inr (.inr processed)

theorem Received.deliver (going : w.scan = some scan) (met : name ∈ scan.met) :
    Received maxFilesToStore none { w with
      receiver := w.receiver.fetchIntermediateDirHandler maxFilesToStore name
      scan := some { scan with delivered := insert name scan.delivered } } := by
  have still : ∀ other ∈ w.dir, other ≠ name ∨ other ∈ w.receiver.inProgressFiles ∨
      other ∈ w.receiver.processedFiles → Receiving.Known { w with
        scan := some { scan with delivered := insert name scan.delivered } } other := by
    intro other there skipped
    obtain listed | given | past | ⟨before, same, backup, whole, unread, fresh⟩ :=
      received.known other there nofun
    · exact .inl listed
    · exact .inr (.inl given)
    · exact .inr (.inr (.inl past))
    · obtain apart | given | processed := skipped
      · rw [going] at same
        cases same
        exact .inr (.inr (.inr ⟨_, rfl, backup, whole,
          fun read => (Finset.mem_insert.1 read).elim apart unread, fresh⟩))
      · exact .inr (.inl given)
      · exact absurd processed fresh
  have met_read : ∀ after ∈ some { scan with delivered := insert name scan.delivered },
      ∀ other ∈ after.met, other ∈ w.dir ∨ other ∈ w.receiver.inProgressFiles ∨
        other ∈ w.receiver.processedFiles := by
    rintro _ ⟨⟩ other inside
    exact received.met scan going other inside
  have fetching : w.receiver.fetchInternalInProgress = true := by
    rw [received.fetching, going]
    rfl
  unfold FileReceiver.fetchIntermediateDirHandler
  split_ifs with skipped
  · refine { received with
      fetching := fetching
      known := fun other there _ => still other there ?_
      met := met_read }
    by_cases same : other = name
    · exact .inr (same ▸ skipped)
    · exact .inl same
  · obtain ⟨free, fresh⟩ := not_or.1 skipped
    have there : name ∈ w.dir :=
      (received.met scan going name met).resolve_right (not_or.2 ⟨free, fresh⟩)
    exact Received.addFile (w := { w with
        scan := some { scan with delivered := insert name scan.delivered } })
      { received with
        fetching := fetching
        known := fun other there added => still other there (.inl fun same => added (same ▸ rfl))
        met := met_read } there free

theorem Received.beginFetch {thread : Nat} {backup : WithBot Name} {receiver : FileReceiver Name}
    (begun : w.receiver.beginFetch = some (backup, receiver)) (free : w.scan = none)
    (fresh : ∀ name ∈ w.dir, name ∉ w.receiver.files → name ∉ w.receiver.inProgressFiles →
      name ∉ w.receiver.processedFiles) :
    Received maxFilesToStore none { w.setPhase thread .idle with
      receiver := receiver
      scan := some ⟨thread, backup, w.dir, w.dir, ∅⟩ } := by
  have marked : w.receiver.oldestNotInFiles = some backup ∧ receiver =
      { w.receiver with oldestNotInFiles := none, fetchInternalInProgress := true } := by
    unfold FileReceiver.beginFetch at begun
    split at begun
    · cases begun
    · split_ifs at begun
      cases begun
      exact ⟨by assumption, rfl⟩
  obtain ⟨mark, rfl⟩ := marked
  refine { received with
    fetching := rfl
    known := ?_
    met := ?_ }
  · intro name there _
    by_cases listed : name ∈ w.receiver.files
    · exact .inl listed
    by_cases given : name ∈ w.receiver.inProgressFiles
    · exact .inr (.inl given)
    obtain listed' | given' | ⟨oldest, same, past⟩ | ⟨scan, going, -⟩ :=
      received.known name there nofun
    · exact absurd listed' listed
    · exact absurd given' given
    · rw [mark] at same
      cases same
      exact .inr (.inr (.inr ⟨_, rfl, past, there, Finset.notMem_empty _,
        fresh name there listed given⟩))
    · rw [free] at going
      cases going
  · rintro _ ⟨⟩ name met
    exact .inl met

end

theorem failFetch_past (r : FileReceiver Name) (backup : WithBot Name)
    (past : r.Past name ∨ backup ≤ name) : (r.failFetch backup).Past name := by
  unfold FileReceiver.failFetch FileReceiver.Past
  cases mark : r.oldestNotInFiles with
  | none =>
    refine ⟨backup, rfl, past.resolve_left ?_⟩
    rintro ⟨oldest, same, -⟩
    rw [mark] at same
    cases same
  | some oldest =>
    have past : oldest ≤ name ∨ backup ≤ name := past.imp_left fun ⟨other, same, le⟩ => by
      rw [mark] at same
      cases same
      exact le
    by_cases lower : backup < oldest
    · exact ⟨backup, by simp [lower], past.elim lower.le.trans id⟩
    · exact ⟨oldest, by simp [lower], past.elim id (not_lt.1 lower).trans⟩

theorem Received.failScan (received : Received maxFilesToStore none w)
    (going : w.scan = some scan) : Received maxFilesToStore none
      { w with receiver := w.receiver.failFetch scan.backup, scan := none } := by
  refine { received with
    fetching := rfl
    known := ?_
    met := nofun }
  intro name there _
  obtain listed | given | past | ⟨other, same, backup, -⟩ := received.known name there nofun
  · exact .inl listed
  · exact .inr (.inl given)
  · exact .inr (.inr (.inl (failFetch_past _ _ (.inl past))))
  · rw [going] at same
    cases same
    exact .inr (.inr (.inl (failFetch_past _ _ (.inr backup))))

theorem Received.endScan (received : Received maxFilesToStore none w) (going : w.scan = some scan)
    (complete : scan.whole ⊆ scan.delivered) :
    Received maxFilesToStore none { w.setPhase scan.thread .mustTake with
      receiver := w.receiver.endFetch, scan := none } := by
  refine { received with
    fetching := rfl
    known := ?_
    met := nofun }
  intro name there _
  obtain listed | given | past | ⟨other, same, -, whole, unread, -⟩ :=
    received.known name there nofun
  · exact .inl listed
  · exact .inr (.inl given)
  · exact .inr (.inr (.inl past))
  · rw [going] at same
    cases same
    exact absurd (complete whole) unread

omit [LinearOrder Name] in
theorem mem_set_guards (once : (guards.map Held.name).Nodup) {held other : Held Name}
    (found : guards[index]? = some held) (member : other ∈ guards.set index ⟨held.name, true⟩) :
    other = ⟨held.name, true⟩ ∨ other ∈ guards ∧ other.name ≠ held.name := by
  obtain ⟨bound, rfl⟩ := List.getElem?_eq_some_iff.1 found
  obtain ⟨i, inside, rfl⟩ := List.mem_iff_getElem.1 member
  rw [List.length_set] at inside
  rw [List.getElem_set]
  split_ifs with here
  · exact .inl rfl
  · refine .inr ⟨List.getElem_mem inside, fun same => here ?_⟩
    have bound' : index < (guards.map Held.name).length := by simpa using bound
    have inside' : i < (guards.map Held.name).length := by simpa using inside
    have names : (guards.map Held.name)[index] = (guards.map Held.name)[i] := by
      simpa using same.symm
    exact (once.getElem_inj_iff).1 names

omit [LinearOrder Name] in
theorem names_set (found : guards[index]? = some held) :
    (guards.set index ⟨held.name, true⟩).map Held.name = guards.map Held.name := by
  obtain ⟨bound, rfl⟩ := List.getElem?_eq_some_iff.1 found
  rw [List.map_set]
  refine List.ext_getElem (by simp) fun i h h' => ?_
  rw [List.getElem_set]
  split_ifs with here
  · subst here
    simp
  · rfl

section
variable (received : Received maxFilesToStore none w)
include received

theorem Received.remove (found : w.guards[index]? = some held) :
    Received maxFilesToStore none { w with
      dir := w.dir.erase held.name
      guards := w.guards.set index ⟨held.name, true⟩
      scan := w.scan.map fun scan => { scan with whole := scan.whole.erase held.name } } := by
  have given : held.name ∈ w.receiver.inProgressFiles :=
    (received.held held.name).2 (List.mem_map_of_mem (List.mem_of_getElem? found))
  refine ⟨received.bounded, ?_, received.apart, ?_, ?_, ?_, ?_, ?_, ?_⟩
  · intro name listed
    exact Finset.mem_erase.2 ⟨fun same => received.apart name listed (same ▸ given),
      received.listed listed⟩
  · intro name
    rw [names_set found]
    exact received.held name
  · rw [names_set found]
    exact received.held_once
  · intro other member
    obtain rfl | ⟨member, apart⟩ := mem_set_guards received.held_once found member
    · simp
    · rw [received.removed other member]
      simp [apart]
  · simpa using received.fetching
  · intro name there _
    obtain ⟨other, there⟩ := Finset.mem_erase.1 there
    obtain listed | given | past | ⟨scan, going, backup, whole, rest⟩ :=
      received.known name there nofun
    · exact .inl listed
    · exact .inr (.inl given)
    · exact .inr (.inr (.inl past))
    · exact .inr (.inr (.inr ⟨_, Option.mem_map_of_mem _ going, backup,
        Finset.mem_erase.2 ⟨other, whole⟩, rest⟩))
  · intro scan going name met
    obtain ⟨before, earlier, rfl⟩ := Option.mem_map.1 going
    obtain here | rest := received.met before earlier name met
    · by_cases same : name = held.name
      · exact .inr (.inl (same ▸ given))
      · exact .inl (Finset.mem_erase.2 ⟨same, here⟩)
    · exact .inr rest

theorem Received.destroy (found : w.guards[index]? = some held) (removed : held.removed = true) :
    Received maxFilesToStore none { w with
      receiver := w.receiver.fileProcessed held.name
      guards := w.guards.eraseIdx index } := by
  have absent : held.name ∉ w.dir :=
    (received.removed held (List.mem_of_getElem? found)).1 removed
  obtain ⟨once, names⟩ := names_eraseIdx received.held_once found
  refine ⟨received.bounded, received.listed, ?_, ?_, once, ?_, received.fetching, ?_, ?_⟩
  · exact fun name listed given => received.apart name listed (Finset.mem_of_mem_erase given)
  · intro name
    rw [names, ← received.held]
    exact Finset.mem_erase
  · exact fun other inside => received.removed other (List.mem_of_mem_eraseIdx inside)
  · intro name there _
    have other : name ≠ held.name := fun same => absent (same ▸ there)
    obtain listed | given | past | ⟨scan, going, backup, whole, unread, fresh⟩ :=
      received.known name there nofun
    · exact .inl listed
    · exact .inr (.inl (Finset.mem_erase.2 ⟨other, given⟩))
    · exact .inr (.inr (.inl past))
    · refine .inr (.inr (.inr ⟨scan, going, backup, whole, unread, ?_⟩))
      simp only [FileReceiver.fileProcessed]
      split_ifs
      · exact fun processed => (Finset.mem_insert.1 processed).elim other fresh
      · exact fresh
  · intro scan going name met
    have fetching : w.receiver.fetchInternalInProgress = true := by
      rw [received.fetching, Option.mem_def.1 going]
      rfl
    simp only [FileReceiver.fileProcessed, fetching, if_true]
    obtain here | given | processed := received.met scan going name met
    · exact .inl here
    · by_cases same : name = held.name
      · exact .inr (.inr (same ▸ Finset.mem_insert_self _ _))
      · exact .inr (.inl (Finset.mem_erase.2 ⟨same, given⟩))
    · exact .inr (.inr (Finset.mem_insert_of_mem processed))

theorem step_received (event : Event Name) (fresh : event.Fresh w)
    (step : w.step maxFilesToStore event = some w') : Received maxFilesToStore none w' := by
  cases event with
  | fetch name =>
    simp only [Receiving.step, FileReceiver.fetchFile] at step
    split_ifs at step with there used
    · cases step
    · cases step
      exact received.fetch there (not_or.1 used).2
  | call thread =>
    simp only [Receiving.step] at step
    split_ifs at step
    · cases step
      exact received.taken thread
    · cases step
      exact received.setPhase thread _
  | lockFetch thread =>
    simp only [Receiving.step] at step
    split_ifs at step with ready
    split at step
    · cases step
      exact received.setPhase thread _
    · next backup receiver begun =>
      cases step
      exact received.beginFetch begun (Option.isNone_iff_eq_none.1 ready.2)
        (fresh (by simp [begun]))
  | deliver name =>
    simp only [Receiving.step] at step
    split at step
    · cases step
    · next scan going =>
      split_ifs at step with met
      cases step
      exact received.deliver going met
  | failScan =>
    obtain ⟨scan, going, rfl⟩ := Option.map_eq_some_iff.1 step
    exact received.failScan going
  | endScan =>
    simp only [Receiving.step] at step
    split at step
    · cases step
    · next scan going =>
      split_ifs at step with complete
      cases step
      exact received.endScan going complete
  | take thread =>
    simp only [Receiving.step] at step
    split_ifs at step
    cases step
    exact received.taken thread
  | revert index =>
    simp only [Receiving.step] at step
    split at step
    · cases step
    · next held found =>
      split_ifs at step with removed
      cases step
      exact received.revert found (Bool.not_eq_true _ ▸ removed)
  | remove index =>
    simp only [Receiving.step] at step
    split at step
    · cases step
    · next held found =>
      split_ifs at step with removed
      cases step
      exact received.remove found
  | destroy index =>
    simp only [Receiving.step] at step
    split at step
    · cases step
    · next held found =>
      split_ifs at step with removed
      cases step
      exact received.destroy found removed

theorem run_received {events : List (Event Name)} (fresh : FreshRun maxFilesToStore w events)
    (run : w.run maxFilesToStore events = some w') : Received maxFilesToStore none w' := by
  induction events generalizing w with
  | nil =>
    cases run
    exact received
  | cons event events ih =>
    obtain ⟨first, later⟩ := fresh
    obtain ⟨w₁, step, rest⟩ := Option.bind_eq_some_iff.1 run
    exact ih (step_received received _ first step) (later w₁ step) rest

end

theorem run_keepsFiles (maxFilesToStore : Nat) (dir : Finset Name) (events : List (Event Name))
    (fresh : FreshRun maxFilesToStore (.start dir) events) (w : Receiving Name)
    (run : (Receiving.start dir).run maxFilesToStore events = some w) :
    KeepsFiles maxFilesToStore w :=
  (run_received (start_received maxFilesToStore dir) fresh run).keepsFiles

/-- A scan fails while a file that was given out is processed; the next one finds the file
that was past the end. -/
def scanAgain : List (Event Nat) :=
  [.fetch 2, .call 0, .lockFetch 0, .deliver 2, .endScan, .take 0, .fetch 3, .fetch 4, .call 0,
    .call 0, .lockFetch 0, .remove 0, .destroy 0, .failScan, .call 1, .lockFetch 1, .deliver 3,
    .deliver 4, .endScan, .take 1]

theorem run_keepsFiles_scanAgain : ∃ w : Receiving Nat,
    (Receiving.start ∅).run 1 scanAgain = some w ∧ KeepsFiles 1 w := by
  refine ⟨_, rfl, run_keepsFiles 1 ∅ scanAgain ?_ _ rfl⟩
  iterate 2
    refine ⟨trivial, ?_⟩
    rintro _ ⟨⟩
  refine ⟨fun _ => by decide, ?_⟩
  rintro _ ⟨⟩
  iterate 7
    refine ⟨trivial, ?_⟩
    rintro _ ⟨⟩
  refine ⟨fun _ => by decide, ?_⟩
  rintro _ ⟨⟩
  iterate 4
    refine ⟨trivial, ?_⟩
    rintro _ ⟨⟩
  refine ⟨fun _ => by decide, ?_⟩
  rintro _ ⟨⟩
  iterate 4
    refine ⟨trivial, ?_⟩
    rintro _ ⟨⟩
  exact trivial

/-- A file is processed during a scan that fails; then one of the same name comes and is
pushed past the end. The next scan skips it, and clears the mark that stood for it. -/
def staleName : List (Event Nat) :=
  [.fetch 2, .call 0, .lockFetch 0, .deliver 2, .endScan, .take 0, .fetch 3, .fetch 4, .call 0,
    .call 0, .lockFetch 0, .remove 0, .destroy 0, .failScan, .fetch 2, .fetch 1, .call 0,
    .call 0, .lockFetch 0, .deliver 1, .deliver 2, .deliver 3, .deliver 4, .endScan, .take 0]

theorem not_keepsFiles_staleName : ¬ ∀ (maxFilesToStore : Nat), 1 ≤ maxFilesToStore →
    ∀ (dir : Finset Nat) (events : List (Event Nat)) (w : Receiving Nat),
      (Receiving.start dir).run maxFilesToStore events = some w →
        KeepsFiles maxFilesToStore w := by
  intro all
  have keeps := all 1 le_rfl ∅ staleName _ rfl
  have named := keeps.named ⟨rfl, fun thread => by cases thread <;> rfl⟩ 2 (by decide)
  obtain (⟨listed, -⟩ | ⟨given, -⟩) | ⟨oldest, mark, -⟩ := named
  · exact absurd listed (by decide)
  · exact absurd given (by decide)
  · cases mark

end Received

end AdServer.LogProcessing
