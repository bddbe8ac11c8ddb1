import AdServer.LogCommons.FileReceiver

/-!
# The eldest file

A call of `get_eldest` with no other call in between.
-/

namespace AdServer.LogProcessing

variable {Name : Type} [LinearOrder Name]

open FileReceiver

/-- `get_eldest_`, one section after another; a scan reads the entries of a listing. -/
def FileReceiver.getEldest (maxFilesToStore : Nat) (listing : List Name) (r : FileReceiver Name) :
    Option Name × Oldest Name × FileReceiver Name :=
  if !r.fetchInternalInProgress && r.knowsEldest then r.getEldestI
  else
    match r.beginFetch with
    | none => r.getEldestI
    | some (_, r) =>
      (listing.foldl (fun r name => r.fetchIntermediateDirHandler maxFilesToStore name)
        r).endFetch.getEldestI

/-- The mark names one of the files that are left. -/
def NamesLeft (ready : Finset Name) (name : Option Name) (oldest : Oldest Name) : Prop :=
  ∀ mark, oldest = some mark →
    ∃ other ∈ ready, name ≠ some other ∧ mark = ((other : Name) : WithBot Name)

/-- What a call of `get_eldest` gives, and what it says of the files that are left. -/
structure GivesEldest (ready : Finset Name) (scanned : Prop) (oldest : Oldest Name)
    (name : Option Name) (newTop : Oldest Name) : Prop where
  eldest : name = first? ready
  /-- The new top is empty only when nothing is left, and never younger than what is left. -/
  lower : ∀ other ∈ ready, name ≠ some other → ∃ top, newTop = some top ∧ top ≤ other
  /-- It is the eldest that is left, unless a mark from before names none of that. -/
  exact : scanned ∨ NamesLeft ready name oldest →
    newTop = (first? (ready.filter fun other => name ≠ some other)).map fun top => (top : WithBot Name)

/-- The window tells what is ready: all of it is listed or past the end. -/
structure Tells (ready : Finset Name) (r : FileReceiver Name) : Prop where
  listed : r.files ⊆ ready
  known : ∀ name ∈ ready, name ∈ r.files ∨ r.Past name
  knowsEldest : r.knowsEldest = true

section Eldest

variable {ready : Finset Name} {r : FileReceiver Name} {maxFilesToStore : Nat}

theorem first?_of_least {files : Finset Name} {first : Name} (member : first ∈ files)
    (least : ∀ other ∈ files, first ≤ other) : first? files = some first := by
  cases h : first? files with
  | none =>
    rw [first?_eq_none h] at member
    exact absurd member (Finset.notMem_empty _)
  | some other =>
    obtain ⟨there, le⟩ := first?_eq_some h
    rw [le_antisymm (le first member) (least other there)]

theorem firstWithin_iff {oldest : WithBot Name} : r.firstWithin oldest = true ↔
    ∃ first, first? r.files = some first ∧ (first : WithBot Name) ≤ oldest := by
  unfold firstWithin
  cases first? r.files <;> simp

theorem mark_of_empty (knows : r.knowsEldest = true) (empty : first? r.files = none) :
    r.oldestNotInFiles = none := by
  unfold knowsEldest at knows
  cases mark : r.oldestNotInFiles with
  | none => rfl
  | some oldest =>
    rw [mark] at knows
    obtain ⟨first, there, -⟩ := firstWithin_iff.1 knows
    rw [empty] at there
    cases there

theorem Tells.first_eq (tells : Tells ready r) : first? r.files = first? ready := by
  cases h : first? r.files with
  | none =>
    have none_ready : ready = ∅ := by
      refine Finset.eq_empty_of_forall_notMem fun name there => ?_
      obtain listed | ⟨oldest, mark, -⟩ := tells.known name there
      · rw [first?_eq_none h] at listed
        exact absurd listed (Finset.notMem_empty _)
      · rw [mark_of_empty tells.knowsEldest h] at mark
        cases mark
    rw [none_ready]
    rfl
  | some first =>
    obtain ⟨member, least⟩ := first?_eq_some h
    refine (first?_of_least (tells.listed member) fun other there => ?_).symm
    obtain listed | ⟨oldest, mark, past⟩ := tells.known other there
    · exact least other listed
    · have knows := tells.knowsEldest
      rw [FileReceiver.knowsEldest, mark] at knows
      obtain ⟨same, there, within⟩ := firstWithin_iff.1 knows
      rw [h] at there
      cases there
      exact WithBot.coe_le_coe.1 (within.trans past)

theorem topOf_le {first : Name} (h : first? r.files = some first) :
    ∃ top, r.topOf = some top ∧ top ≤ first ∧ ∀ oldest, r.oldestNotInFiles = some oldest →
      top ≤ oldest := by
  unfold topOf
  rw [h]
  cases r.oldestNotInFiles with
  | none => exact ⟨first, rfl, le_rfl, by simp⟩
  | some oldest =>
    by_cases lower : oldest < (first : WithBot Name)
    · refine ⟨oldest, by simp [lower], lower.le, ?_⟩
      rintro _ ⟨⟩
      exact le_rfl
    · refine ⟨first, by simp [lower], le_rfl, ?_⟩
      rintro _ ⟨⟩
      exact not_lt.1 lower

theorem topOf_of_empty (h : first? r.files = none) : r.topOf = r.oldestNotInFiles := by
  unfold topOf
  rw [h]

theorem Tells.givesEldest (tells : Tells ready r) :
    GivesEldest ready False r.oldestNotInFiles r.getEldestI.1 r.getEldestI.2.1 := by
  have same := tells.first_eq
  cases h : first? r.files with
  | none =>
    have none_ready : ready = ∅ := first?_eq_none (same.symm.trans h)
    have result : r.getEldestI = (none, r.topOf, r) := by simp [getEldestI, h]
    rw [result, topOf_of_empty h, mark_of_empty tells.knowsEldest h]
    subst none_ready
    exact ⟨rfl, by simp, fun _ => rfl⟩
  | some first =>
    let taken := { r with
      files := r.files.erase first, inProgressFiles := insert first r.inProgressFiles }
    have result : r.getEldestI = (some first, taken.topOf, taken) := by
      simp [getEldestI, h, taken]
    rw [result]
    have left : ∀ other ∈ ready, some first ≠ some other →
        other ∈ taken.files ∨ taken.Past other := by
      intro other there apart
      refine (tells.known other there).imp_left fun listed => Finset.mem_erase.2 ⟨?_, listed⟩
      rintro rfl
      exact apart rfl
    have lower : ∀ other ∈ ready, some first ≠ some other →
        ∃ top, taken.topOf = some top ∧ top ≤ other := by
      intro other there apart
      cases next : first? taken.files with
      | none =>
        obtain listed | ⟨oldest, mark, past⟩ := left other there apart
        · rw [first?_eq_none next] at listed
          exact absurd listed (Finset.notMem_empty _)
        · exact ⟨oldest, (topOf_of_empty next).trans mark, past⟩
      | some second =>
        obtain ⟨top, eq, le_second, le_mark⟩ := topOf_le next
        refine ⟨top, eq, ?_⟩
        obtain listed | ⟨oldest, mark, past⟩ := left other there apart
        · exact le_second.trans (WithBot.coe_le_coe.2 ((first?_eq_some next).2 other listed))
        · exact (le_mark oldest mark).trans past
    refine ⟨h ▸ same, lower, fun named => ?_⟩
    replace named := named.resolve_left id
    -- the top is one of the files that are left, and not greater than any
    have from_left : ∀ top, taken.topOf = some top →
        ∃ other ∈ ready, some first ≠ some other ∧ top = (other : WithBot Name) := by
      intro top eq
      cases next : first? taken.files with
      | none => exact named top ((topOf_of_empty next).symm.trans eq)
      | some second =>
        have member := Finset.mem_erase.1 (first?_eq_some next).1
        have second_left : ∃ other ∈ ready, some first ≠ some other ∧
            (second : WithBot Name) = (other : WithBot Name) :=
          ⟨second, tells.listed member.2, fun same => member.1 (Option.some.inj same).symm, rfl⟩
        unfold topOf at eq
        rw [next] at eq
        cases mark : r.oldestNotInFiles with
        | none =>
          rw [show taken.oldestNotInFiles = none from mark] at eq
          cases eq
          exact second_left
        | some oldest =>
          rw [show taken.oldestNotInFiles = some oldest from mark] at eq
          dsimp only at eq
          split_ifs at eq
          · cases eq
            exact named _ mark
          · cases eq
            exact second_left
    cases eq : taken.topOf with
    | none =>
      have nothing : ready.filter (fun other => some first ≠ some other) = ∅ := by
        refine Finset.eq_empty_of_forall_notMem fun other there => ?_
        obtain ⟨there, apart⟩ := Finset.mem_filter.1 there
        obtain ⟨top, some_top, -⟩ := lower other there apart
        rw [eq] at some_top
        cases some_top
      rw [nothing]
      rfl
    | some top =>
      obtain ⟨other, there, apart, rfl⟩ := from_left top eq
      rw [first?_of_least (Finset.mem_filter.2 ⟨there, apart⟩) fun next left => ?_]
      · rfl
      · obtain ⟨left, apart⟩ := Finset.mem_filter.1 left
        obtain ⟨top, same, le⟩ := lower next left apart
        rw [eq] at same
        cases same
        exact WithBot.coe_le_coe.1 le

end Eldest

section Scan

variable {ready : Finset Name} {r : FileReceiver Name} {maxFilesToStore : Nat} {name : Name}

theorem knowsEldest_iff : r.knowsEldest = true ↔
    ∀ oldest, r.oldestNotInFiles = some oldest → ∃ file ∈ r.files, (file : WithBot Name) ≤ oldest := by
  unfold knowsEldest
  cases r.oldestNotInFiles with
  | none => simp
  | some oldest =>
    rw [firstWithin_iff]
    constructor
    · rintro ⟨first, there, le⟩ _ ⟨⟩
      exact ⟨first, (first?_eq_some there).1, le⟩
    · intro all
      obtain ⟨file, member, le⟩ := all oldest rfl
      cases there : first? r.files with
      | none =>
        rw [first?_eq_none there] at member
        exact absurd member (Finset.notMem_empty _)
      | some first =>
        exact ⟨first, rfl, (WithBot.coe_le_coe.2 ((first?_eq_some there).2 file member)).trans le⟩

theorem dropLast_eq {last : Name} (youngest : last? r.files = some last) :
    r.dropLast.files = r.files.erase last ∧
    ((r.dropLast.oldestNotInFiles = some (last : WithBot Name) ∧
        ∀ oldest, r.oldestNotInFiles = some oldest → last < oldest) ∨
      ∃ oldest, r.oldestNotInFiles = some oldest ∧ oldest ≤ last ∧
        r.dropLast.oldestNotInFiles = some oldest) := by
  unfold dropLast
  rw [youngest]
  refine ⟨rfl, ?_⟩
  cases r.oldestNotInFiles with
  | none => exact .inl ⟨rfl, nofun⟩
  | some oldest =>
    by_cases lower : (last : WithBot Name) < oldest
    · refine .inl ⟨by simp [lower], ?_⟩
      rintro _ ⟨⟩
      exact lower
    · exact .inr ⟨oldest, rfl, not_lt.1 lower, by simp [lower]⟩

/-- What is added keeps the window telling, if there is room for one file. -/
theorem knowsEldest_addFile (positive : 1 ≤ maxFilesToStore) (knows : r.knowsEldest = true)
    (name : Name) : (r.addFile maxFilesToStore name).2.knowsEldest = true := by
  let added := { r with files := insert name r.files }
  have knows : added.knowsEldest = true := knowsEldest_iff.2 fun oldest mark =>
    (knowsEldest_iff.1 knows oldest mark).imp fun file =>
      And.imp_left Finset.mem_insert_of_mem
  obtain ⟨last, youngest, full, same⟩ | ⟨-, same⟩ := addFile_cases maxFilesToStore name r
  · rw [same, knowsEldest_iff]
    obtain ⟨files, mark⟩ := dropLast_eq (r := added) youngest
    obtain ⟨other, there, apart⟩ := Finset.exists_mem_ne (positive.trans_lt full) last
    have other_kept : other ∈ added.dropLast.files ∧ (other : WithBot Name) ≤ last :=
      ⟨files ▸ Finset.mem_erase.2 ⟨apart, there⟩,
        WithBot.coe_le_coe.2 ((last?_eq_some youngest).2 other there)⟩
    obtain ⟨marked, -⟩ | ⟨oldest, before, -, marked⟩ := mark
    · rw [marked]
      rintro _ ⟨⟩
      exact ⟨other, other_kept⟩
    · rw [marked]
      rintro _ ⟨⟩
      obtain ⟨file, member, le⟩ := knowsEldest_iff.1 knows oldest before
      by_cases same : file = last
      · exact ⟨other, other_kept.1, other_kept.2.trans (same ▸ le)⟩
      · exact ⟨file, files ▸ Finset.mem_erase.2 ⟨same, member⟩, le⟩
  · rw [same]
    exact knows

/-- The mark stands only at the end of a full window, and names a file that is ready. -/
structure MarkedBy (maxFilesToStore : Nat) (ready : Finset Name) (r : FileReceiver Name) :
    Prop where
  bounded : r.files.card ≤ maxFilesToStore
  marked : ∀ oldest, r.oldestNotInFiles = some oldest → r.files.card = maxFilesToStore ∧
    ∃ other ∈ ready, oldest = (other : WithBot Name) ∧ ∀ file ∈ r.files, file < other

theorem MarkedBy.addFile (marked : MarkedBy maxFilesToStore ready r) (listed : r.files ⊆ ready)
    (there : name ∈ ready) : MarkedBy maxFilesToStore ready (r.addFile maxFilesToStore name).2 := by
  let added := { r with files := insert name r.files }
  have card : (insert name r.files).card ≤ r.files.card + 1 := Finset.card_insert_le name r.files
  have bounded := marked.bounded
  obtain ⟨last, youngest, full, same⟩ | ⟨room, same⟩ :=
    addFile_cases maxFilesToStore name r
  · rw [same]
    obtain ⟨files, mark⟩ := dropLast_eq (r := added) youngest
    obtain ⟨member, greatest⟩ := last?_eq_some youngest
    have left : added.dropLast.files.card = maxFilesToStore := by
      rw [files, Finset.card_erase_of_mem member]
      omega
    refine ⟨left.le, ?_⟩
    obtain ⟨now, -⟩ | ⟨oldest, before, le, now⟩ := mark
    · rw [now]
      rintro _ ⟨⟩
      refine ⟨left, last, ?_, rfl, ?_⟩
      · obtain rfl | earlier := Finset.mem_insert.1 member
        · exact there
        · exact listed earlier
      · intro file inside
        obtain ⟨other, inside⟩ := Finset.mem_erase.1 (files ▸ inside)
        exact lt_of_le_of_ne (greatest file inside) other
    · -- what is dropped is the file just added, past the mark
      rw [now]
      rintro _ ⟨⟩
      obtain ⟨-, other, ready, rfl, below⟩ := marked.marked oldest before
      refine ⟨left, other, ready, rfl, fun file inside => ?_⟩
      obtain ⟨apart, inside⟩ := Finset.mem_erase.1 (files ▸ inside)
      obtain rfl | earlier := Finset.mem_insert.1 inside
      · obtain rfl | listed := Finset.mem_insert.1 member
        · exact absurd rfl apart
        · exact absurd (below last listed) (not_lt.2 (WithBot.coe_le_coe.1 le))
      · exact below file earlier
  · rw [same]
    refine ⟨room, fun oldest mark => ?_⟩
    obtain ⟨card, other, ready, rfl, below⟩ := marked.marked oldest mark
    have again : name ∈ r.files := by
      by_contra new
      have grown : (insert name r.files).card = r.files.card + 1 :=
        Finset.card_insert_of_notMem new
      omega
    have files : added.files = r.files := Finset.insert_eq_of_mem again
    rw [files]
    exact ⟨card, other, ready, rfl, below⟩

/-- What a scan relies on, entry after entry. -/
structure Scanning (maxFilesToStore : Nat) (ready : Finset Name) (r : FileReceiver Name) :
    Prop where
  listed : r.files ⊆ ready
  knows : r.knowsEldest = true
  marked : MarkedBy maxFilesToStore ready r

theorem Scanning.addFile (scanning : Scanning maxFilesToStore ready r)
    (positive : 1 ≤ maxFilesToStore) (there : name ∈ ready) :
    Scanning maxFilesToStore ready (r.addFile maxFilesToStore name).2 where
  listed := (addFile_spec maxFilesToStore name r).2.2.1.trans
    (Finset.insert_subset there scanning.listed)
  knows := knowsEldest_addFile positive scanning.knows name
  marked := scanning.marked.addFile scanning.listed there

end Scan

section Alone

variable {maxFilesToStore : Nat} {w : Receiving Name} {scan : Scan Name} {listing : List Name}

/-- The world after a scan has read the entries of a listing. -/
def Receiving.read (maxFilesToStore : Nat) (w : Receiving Name) (scan : Scan Name)
    (listing : List Name) : Receiving Name :=
  { w with
    receiver := listing.foldl (fun r name => r.fetchIntermediateDirHandler maxFilesToStore name)
      w.receiver
    scan := some { scan with
      delivered := listing.foldl (fun delivered name => insert name delivered) scan.delivered } }

theorem mem_delivered (listing : List Name) (delivered : Finset Name) {name : Name} :
    name ∈ listing.foldl (fun delivered name => insert name delivered) delivered ↔
      name ∈ listing ∨ name ∈ delivered := by
  induction listing generalizing delivered with
  | nil => simp
  | cons entry listing ih =>
    simp only [List.foldl_cons, ih, Finset.mem_insert, List.mem_cons]
    tauto

theorem Received.read (received : Received maxFilesToStore none w) (going : w.scan = some scan)
    (met : ∀ name ∈ listing, name ∈ scan.met) :
    Received maxFilesToStore none (w.read maxFilesToStore scan listing) := by
  induction listing generalizing w scan with
  | nil =>
    simp only [Receiving.read, List.foldl_nil]
    rw [← going]
    exact received
  | cons name listing ih =>
    exact ih (received.deliver going (met name List.mem_cons_self)) rfl
      fun other member => met other (List.mem_cons_of_mem _ member)

variable {r : FileReceiver Name}

theorem knowsEldest_handler (positive : 1 ≤ maxFilesToStore) (knows : r.knowsEldest = true)
    (name : Name) : (r.fetchIntermediateDirHandler maxFilesToStore name).knowsEldest = true := by
  unfold fetchIntermediateDirHandler
  split_ifs
  · exact knows
  · exact knowsEldest_addFile positive knows name

theorem handler_inProgressFiles (maxFilesToStore : Nat) (r : FileReceiver Name) (name : Name) :
    (r.fetchIntermediateDirHandler maxFilesToStore name).inProgressFiles = r.inProgressFiles := by
  unfold fetchIntermediateDirHandler
  split_ifs
  · rfl
  · exact (addFile_spec maxFilesToStore name r).1.inProgressFiles

theorem Scanning.read {dir : Finset Name}
    (scanning : Scanning maxFilesToStore (dir \ r.inProgressFiles) r)
    (positive : 1 ≤ maxFilesToStore) (there : ∀ name ∈ listing, name ∈ dir) :
    Scanning maxFilesToStore (dir \ r.inProgressFiles)
      (listing.foldl (fun r name => r.fetchIntermediateDirHandler maxFilesToStore name) r) ∧
    (listing.foldl (fun r name => r.fetchIntermediateDirHandler maxFilesToStore name)
      r).inProgressFiles = r.inProgressFiles := by
  induction listing generalizing r with
  | nil => exact ⟨scanning, rfl⟩
  | cons name listing ih =>
    have same := handler_inProgressFiles maxFilesToStore r name
    have next : Scanning maxFilesToStore (dir \ r.inProgressFiles)
        (r.fetchIntermediateDirHandler maxFilesToStore name) := by
      unfold fetchIntermediateDirHandler
      split_ifs with skipped
      · exact scanning
      · exact scanning.addFile positive
          (Finset.mem_sdiff.2 ⟨there name List.mem_cons_self, (not_or.1 skipped).1⟩)
    rw [← same] at next ⊢
    exact ih next fun other member => there other (List.mem_cons_of_mem _ member)

theorem beginFetch_of_not_knows (unknown : ¬ r.knowsEldest = true) :
    ∃ backup, r.beginFetch = some (backup,
      { r with oldestNotInFiles := none, fetchInternalInProgress := true }) := by
  unfold knowsEldest at unknown
  unfold beginFetch
  cases mark : r.oldestNotInFiles with
  | none => simp [mark] at unknown
  | some oldest =>
    rw [mark] at unknown
    exact ⟨oldest, if_neg unknown⟩

theorem beginFetch_of_knows (knows : r.knowsEldest = true) : r.beginFetch = none := by
  unfold knowsEldest at knows
  unfold beginFetch
  cases mark : r.oldestNotInFiles with
  | none => rfl
  | some oldest =>
    rw [mark] at knows
    exact if_pos knows

theorem Received.tells (received : Received maxFilesToStore none w) (free : w.scan = none)
    (knows : w.receiver.knowsEldest = true) :
    Tells (w.dir \ w.receiver.inProgressFiles) w.receiver where
  listed name listed := Finset.mem_sdiff.2 ⟨received.listed listed, received.apart name listed⟩
  known name there := by
    obtain ⟨there, free_name⟩ := Finset.mem_sdiff.1 there
    obtain listed | given | past | ⟨scan, going, -⟩ := received.known name there nofun
    · exact .inl listed
    · exact absurd given free_name
    · exact .inr past
    · rw [free] at going
      cases going
  knowsEldest := knows

/-- The window after a scan that has read the whole directory. -/
def FileReceiver.scanned (maxFilesToStore : Nat) (listing : List Name) (r : FileReceiver Name) :
    FileReceiver Name :=
  let before := { r with oldestNotInFiles := none, fetchInternalInProgress := true }
  (listing.foldl (fun r name => r.fetchIntermediateDirHandler maxFilesToStore name)
    before).endFetch

theorem getEldest_eq (w : FileReceiver Name) (free : w.fetchInternalInProgress = false)
    (listing : List Name) : w.getEldest maxFilesToStore listing =
      if w.knowsEldest then w.getEldestI else (w.scanned maxFilesToStore listing).getEldestI := by
  unfold getEldest
  rw [free]
  split_ifs with direct knows knows
  · rfl
  · exact absurd direct (by simpa using knows)
  · exact absurd (by simpa using knows) direct
  · obtain ⟨backup, begun⟩ := beginFetch_of_not_knows knows
    rw [begun]
    rfl

theorem getEldestI_mark (r : FileReceiver Name) :
    r.getEldestI.2.2.oldestNotInFiles = r.oldestNotInFiles := by
  obtain ⟨-, same⟩ | ⟨first, -, -, same⟩ := getEldestI_spec r
  all_goals rw [same]

theorem MarkedBy.namesLeft {ready : Finset Name} (marked : MarkedBy maxFilesToStore ready r) :
    NamesLeft ready r.getEldestI.1 r.oldestNotInFiles := by
  intro mark there
  obtain ⟨-, other, ready, rfl, below⟩ := marked.marked mark there
  refine ⟨other, ready, ?_, rfl⟩
  obtain ⟨nothing, -⟩ | ⟨first, member, given, -⟩ := getEldestI_spec r
  · simp [nothing]
  · rw [given]
    rintro ⟨⟩
    exact lt_irrefl _ (below _ member)

theorem Received.scanned (received : Received maxFilesToStore none w)
    (positive : 1 ≤ maxFilesToStore) (free : w.scan = none)
    (entries : ∀ name, name ∈ listing ↔ name ∈ w.dir) (unknown : ¬ w.receiver.knowsEldest = true)
    (fresh : ∀ name ∈ w.dir, name ∉ w.receiver.files → name ∉ w.receiver.inProgressFiles →
      name ∉ w.receiver.processedFiles) :
    Tells (w.dir \ w.receiver.inProgressFiles) (w.receiver.scanned maxFilesToStore listing) ∧
    MarkedBy maxFilesToStore (w.dir \ w.receiver.inProgressFiles)
      (w.receiver.scanned maxFilesToStore listing) := by
  obtain ⟨backup, begun⟩ := beginFetch_of_not_knows unknown
  let before := { w.receiver with oldestNotInFiles := none, fetchInternalInProgress := true }
  let scan : Scan Name := ⟨0, backup, w.dir, w.dir, ∅⟩
  let w₁ := { w.setPhase 0 .idle with receiver := before, scan := some scan }
  have scanning : Scanning maxFilesToStore (w.dir \ before.inProgressFiles) before :=
    ⟨fun name listed => Finset.mem_sdiff.2 ⟨received.listed listed, received.apart name listed⟩,
      knowsEldest_iff.2 nofun, received.bounded, nofun⟩
  obtain ⟨⟨-, knows, bounded, marked⟩, same⟩ :=
    scanning.read positive fun name (there : name ∈ listing) => (entries name).1 there
  have read : Received maxFilesToStore none (w₁.read maxFilesToStore scan listing) :=
    (received.beginFetch begun free fresh).read rfl fun name => (entries name).1
  have complete : w.dir ⊆ listing.foldl (fun delivered name => insert name delivered) ∅ :=
    fun name there => (mem_delivered listing ∅).2 (.inl ((entries name).2 there))
  have ended := read.endScan rfl complete
  have tells := ended.tells rfl knows
  refine ⟨?_, bounded, marked⟩
  have inProgress : (w.receiver.scanned maxFilesToStore listing).inProgressFiles =
      w.receiver.inProgressFiles := same
  rw [← inProgress]
  exact tells

/-- A call with no other in between gives the eldest file that is not in progress. -/
theorem Received.getEldest (received : Received maxFilesToStore none w)
    (positive : 1 ≤ maxFilesToStore) (free : w.scan = none)
    (entries : ∀ name, name ∈ listing ↔ name ∈ w.dir)
    (fresh : ¬ w.receiver.knowsEldest = true → ∀ name ∈ w.dir, name ∉ w.receiver.files →
      name ∉ w.receiver.inProgressFiles → name ∉ w.receiver.processedFiles) :
    GivesEldest (w.dir \ w.receiver.inProgressFiles) (¬ w.receiver.knowsEldest = true)
      (w.receiver.getEldest maxFilesToStore listing).2.2.oldestNotInFiles
      (w.receiver.getEldest maxFilesToStore listing).1
      (w.receiver.getEldest maxFilesToStore listing).2.1 := by
  have idle : w.receiver.fetchInternalInProgress = false := by
    rw [received.fetching, free]
    rfl
  rw [getEldest_eq w.receiver idle]
  split_ifs with knows
  · have gives := (received.tells free knows).givesEldest
    rw [getEldestI_mark]
    exact ⟨gives.eldest, gives.lower, fun exact =>
      gives.exact (.inr (exact.resolve_left (absurd knows)))⟩
  · obtain ⟨tells, marked⟩ := received.scanned positive free entries knows (fresh knows)
    have gives := tells.givesEldest
    exact ⟨gives.eldest, gives.lower, fun _ => gives.exact (.inr marked.namesLeft)⟩

end Alone

end AdServer.LogProcessing
