import AdServer.Lib.FixedWidth
import AdServer.Lib.SortedMap
import Mathlib.Algebra.Order.Group.Nat
import Mathlib.Data.List.Nodup

/-!
# Filtering hits

Hits are counted by date in a table of bytes, and withheld until a cell has
enough of them. The tables outlive the filter in one file for each date.
-/

namespace AdServer.LogProcessing.HitsFilter

open AdServer.Lib SortedMap

abbrev Bytes := List UInt8

/-- The limits of a filter, the file names it makes, and what the library does
with the dates in them. -/
structure HitsConfig (Date : Type) where
  minCount : UInt8
  tableSize : Nat
  positive : 0 < tableSize
  fits : tableSize < 2 ^ 64
  /-- `storage_dir_ + '/' + file_prefix_` -/
  storage : List Char
  gmF : Date → List Char
  parse : List Char → Date
  parse_gmF : ∀ date, parse (gmF date) = date
  no_dot : ∀ date, '.' ∉ gmF date

structure HitsState (Date : Type) [LinearOrder Date] where
  counters : SortedMap Date Bytes
  files : List (List Char × Bytes)

section Filter

variable {Date : Type} [LinearOrder Date] (cfg : HitsConfig Date)

/-- `make_file_name_`. -/
def makeFileName (date : Date) : List Char := cfg.storage ++ '.' :: cfg.gmF date

/-- `HitsFilter::check`. -/
def check (state : HitsState Date) (date : Date) (hash addCount : Nat) : Nat × HitsState Date :=
  let table := (state.counters.find? date).getD (List.replicate cfg.tableSize 0)
  let index := hash % table.length
  let oldCounter := (table.getD index 0).toNat
  let sum := (oldCounter + addCount) % 2 ^ 64
  let table := table.set index (UInt8.ofNat (min sum 255))
  let hits :=
    if sum < cfg.minCount.toNat then 0
    else if cfg.minCount.toNat ≤ oldCounter then addCount
    else sum
  (hits, { state with counters := state.counters.put date table })

/-- `HitsFilter::clear_expired`. -/
def clearExpired (state : HitsState Date) (expDate : Date) : HitsState Date where
  counters := state.counters.filterKeys fun date => !decide (date < expDate)
  files := state.files.filter fun file =>
    !state.counters.keys.any fun date => decide (date < expDate) && file.1 == makeFileName cfg date

/-! ## Files -/

/-- `CURRENT_FILE_VERSION_`. -/
def fileVersion : Bytes := [51, 46, 50, 46, 48, 0, 0, 0, 0, 0, 0, 0]

/-- `EOF_MARKER_`. -/
def eofMarker : Bytes := [46, 69, 79, 70]

/-- `save_`, for one date. -/
def saveTable (table : Bytes) : Bytes :=
  fileVersion ++ (numberBytes 8 table.length ++ (table ++ eofMarker))

def oldFileSize : Nat := 10485760

/-- `load_`, for one file; nothing where it throws. -/
def loadTable (file : Bytes) : Option Bytes :=
  if file.length = 0 then none
  else if file.length = oldFileSize then some file
  else if file.take 12 ≠ fileVersion then none
  else
    let sized := file.drop 12
    let tableSize := readNumber (sized.take 8)
    let data := sized.drop 8
    if sized.length < 8 then none
    else if tableSize = 0 then none
    else if data.length < tableSize then none
    else if (data.drop tableSize).take 4 ≠ eofMarker then none
    else some (data.take tableSize)

/-- What stands behind the last dot. -/
def afterLastDot (name : List Char) : Option (List Char) :=
  if '.' ∈ name then some (name.reverse.takeWhile (· ≠ '.')).reverse else none

def writeFile (files : List (List Char × Bytes)) (file : List Char × Bytes) :
    List (List Char × Bytes) :=
  file :: files.filter fun other => other.1 ≠ file.1

/-- `save_`. -/
def save (state : HitsState Date) : List (List Char × Bytes) :=
  (state.counters.entries.map fun entry => (makeFileName cfg entry.1, saveTable entry.2)).foldl
    writeFile state.files

/-- `load_`. -/
def load : List (List Char × Bytes) → SortedMap Date Bytes → Option (SortedMap Date Bytes)
  | [], counters => some counters
  | file :: files, counters =>
    match loadTable file.2, afterLastDot file.1 with
    | some table, some date => load files (counters.put (cfg.parse date) table)
    | _, _ => none

/-- The filter is destroyed and made again. -/
def reload (state : HitsState Date) : Option (HitsState Date) :=
  (load cfg (save cfg state) SortedMap.empty).map fun counters => ⟨counters, save cfg state⟩

/-! ## Collectors -/

/-- What the filter reads of the keys of the records. -/
structure RecordKeys (Date Key Inner : Type) where
  sdate : Key → Date
  distribHash : Inner → Nat

/-- The hits of the records by their keys. -/
abbrev Collector (Key Inner : Type) := List (Key × List (Inner × Nat))

variable {Key Inner : Type} (keys : RecordKeys Date Key Inner)

def filterData (date : Date) :
    List (Inner × Nat) → HitsState Date → List (Inner × Nat) × HitsState Date
  | [], state => ([], state)
  | item :: rest, state =>
    let checked := check cfg state date (keys.distribHash item.1) item.2
    let filtered := filterData date rest checked.2
    (if checked.1 ≠ 0 then (item.1, checked.1) :: filtered.1 else filtered.1, filtered.2)

/-- `CollectorHitsFilter::filter`. -/
def filter : Collector Key Inner → HitsState Date → Collector Key Inner × HitsState Date
  | [], state => ([], state)
  | entry :: rest, state =>
    let data := filterData cfg keys (keys.sdate entry.1) entry.2 state
    let filtered := filter rest data.2
    (if data.1.isEmpty then filtered.1 else (entry.1, data.1) :: filtered.1, filtered.2)

/-- The hits of a cell in a list of records of one date, and in a collector. -/
def dataHits (cell : Nat) (data : List (Inner × Nat)) : Nat :=
  (data.map fun item =>
    if keys.distribHash item.1 % cfg.tableSize = cell then item.2 else 0).sum

def cellHits (date : Date) (cell : Nat) (collector : Collector Key Inner) : Nat :=
  (collector.map fun entry =>
    if keys.sdate entry.1 = date then dataHits cfg keys cell entry.2 else 0).sum

/-! ## Runs -/

inductive HitsEvent (Date Key Inner : Type) where
  | check (date : Date) (hash addCount : Nat)
  | filter (collector : Collector Key Inner)
  | clearExpired (expDate : Date)
  | reload

/-- What an event gives to a cell. -/
def given (date : Date) (cell : Nat) : HitsEvent Date Key Inner → Nat
  | .check date' hash addCount =>
    if date' = date ∧ hash % cfg.tableSize = cell then addCount else 0
  | .filter collector => cellHits cfg keys date cell collector
  | .clearExpired _ => 0
  | .reload => 0

/-- The hits of each cell that an event lets through, and the state after it. -/
def step (state : HitsState Date) :
    HitsEvent Date Key Inner → Option ((Date → Nat → Nat) × HitsState Date)
  | .check date' hash addCount =>
    let checked := check cfg state date' hash addCount
    some (fun date cell => if date' = date ∧ hash % cfg.tableSize = cell then checked.1 else 0,
      checked.2)
  | .filter collector =>
    let filtered := filter cfg keys collector state
    some (fun date cell => cellHits cfg keys date cell filtered.1, filtered.2)
  | .clearExpired expDate => some (fun _ _ => 0, clearExpired cfg state expDate)
  | .reload => (reload cfg state).map fun state => (fun _ _ => 0, state)

def run : List (HitsEvent Date Key Inner) → HitsState Date →
    Option ((Date → Nat → Nat) × HitsState Date)
  | [], state => some (fun _ _ => 0, state)
  | event :: events, state =>
    match step cfg keys state event with
    | none => none
    | some (passed, state) =>
      (run events state).map fun later =>
        (fun date cell => passed date cell + later.1 date cell, later.2)

def fresh : HitsState Date := ⟨SortedMap.empty, []⟩

/-- No table whose file has the size of an old one is saved and loaded. -/
def Reloads : List (HitsEvent Date Key Inner) → HitsState Date → Prop
  | [], _ => True
  | event :: events, state =>
    (event = .reload → ∀ entry ∈ state.counters.entries,
      (saveTable entry.2).length ≠ oldFileSize) ∧
    ∀ passed after, step cfg keys state event = some (passed, after) → Reloads events after

/-! ## One cell -/

/-- The tables have their size, and every file is one of a date that is counted. -/
structure Sound (state : HitsState Date) : Prop where
  sized : ∀ date table, state.counters.find? date = some table → table.length = cfg.tableSize
  owned : ∀ file ∈ state.files, ∃ date ∈ state.counters.keys, file.1 = makeFileName cfg date

/-- The byte of a cell; a date that has no table has no hits. -/
def cellByte (state : HitsState Date) (date : Date) (cell : Nat) : Nat :=
  match state.counters.find? date with
  | none => 0
  | some table => (table.getD cell 0).toNat

/-- A cell counts what it was given up to 255, and has let through all of it or
nothing. -/
structure Counted (state : HitsState Date) (date : Date) (cell given passed : Nat) : Prop where
  byte : cellByte state date cell = min given 255
  passed : passed = if given < cfg.minCount.toNat then 0 else given

variable {cfg keys} {state : HitsState Date}

section
variable (sound : Sound cfg state)
include sound

/-- The table of a date, new or not, has the filter's size and the bytes of the cells. -/
theorem table_spec (date : Date) :
    ((state.counters.find? date).getD (List.replicate cfg.tableSize 0)).length = cfg.tableSize ∧
      ∀ cell, cellByte state date cell =
        (((state.counters.find? date).getD (List.replicate cfg.tableSize 0)).getD cell
          0).toNat := by
  cases stored : state.counters.find? date with
  | none =>
    refine ⟨by simp, fun cell => ?_⟩
    rw [cellByte, stored]
    simp [List.getElem?_replicate]
    split <;> rfl
  | some table =>
    refine ⟨sound.sized date table stored, fun cell => ?_⟩
    rw [cellByte, stored]
    rfl

theorem check_sound (date : Date) (hash addCount : Nat) :
    Sound cfg (check cfg state date hash addCount).2 := by
  constructor
  · intro date' table found
    simp only [check, find?_put] at found
    split at found
    · rw [← Option.some.inj found, List.length_set, (table_spec sound date).1]
    · exact sound.sized date' table found
  · intro file mem
    obtain ⟨date', known, name⟩ := sound.owned file mem
    refine ⟨date', ?_, name⟩
    rw [mem_keys] at known ⊢
    simp only [check, find?_put]
    split
    · rfl
    · exact known

theorem cellByte_check (date date' : Date) (hash addCount : Nat) {cell : Nat}
    (inside : cell < cfg.tableSize) :
    cellByte (check cfg state date' hash addCount).2 date cell =
      if date' = date ∧ hash % cfg.tableSize = cell then
        min ((cellByte state date cell + addCount) % 2 ^ 64) 255
      else cellByte state date cell := by
  obtain ⟨size, bytes⟩ := table_spec sound date'
  by_cases same : date' = date
  · subst same
    rw [bytes cell, cellByte]
    simp only [check, find?_put, if_true, size, true_and]
    by_cases own : hash % cfg.tableSize = cell
    · rw [if_pos own, own]
      simp only [List.getD_eq_getElem?_getD, List.getElem?_set] at size ⊢
      simp [size, inside]
    · rw [if_neg own]
      simp [own]
  · rw [if_neg fun h => same h.1]
    simp only [cellByte, check, find?_put]
    rw [if_neg (Ne.symm same)]

theorem check_hits (date : Date) (hash addCount : Nat) :
    (check cfg state date hash addCount).1 =
      if (cellByte state date (hash % cfg.tableSize) + addCount) % 2 ^ 64 < cfg.minCount.toNat
      then 0
      else if cfg.minCount.toNat ≤ cellByte state date (hash % cfg.tableSize) then addCount
      else (cellByte state date (hash % cfg.tableSize) + addCount) % 2 ^ 64 := by
  obtain ⟨size, bytes⟩ := table_spec sound date
  rw [bytes]
  simp only [check, size]

end

variable {date : Date} {table : Bytes} {file : List Char × Bytes}

section
variable (sound : Sound cfg state)
include sound

variable {cell given passed : Nat}

theorem check_counted (inside : cell < cfg.tableSize)
    (counted : Counted cfg state date cell given passed) (date' : Date) (hash addCount : Nat)
    (fits : (given + if date' = date ∧ hash % cfg.tableSize = cell then addCount else 0) < 2 ^ 64) :
    Counted cfg (check cfg state date' hash addCount).2 date cell
      (given + if date' = date ∧ hash % cfg.tableSize = cell then addCount else 0)
      (passed + if date' = date ∧ hash % cfg.tableSize = cell then
        (check cfg state date' hash addCount).1 else 0) := by
  have byte_after := cellByte_check sound date date' hash addCount inside
  by_cases own : date' = date ∧ hash % cfg.tableSize = cell
  · obtain ⟨rfl, rfl⟩ := own
    have low := cfg.minCount.toNat_lt
    simp only [and_self, if_true] at byte_after fits ⊢
    have byte := counted.byte
    have whole : (cellByte state date' (hash % cfg.tableSize) + addCount) % 2 ^ 64 =
        cellByte state date' (hash % cfg.tableSize) + addCount := by
      apply Nat.mod_eq_of_lt
      omega
    have withheld := counted.passed
    rw [whole] at byte_after
    have hits := check_hits sound date' hash addCount
    rw [whole] at hits
    have limits : cellByte state date' (hash % cfg.tableSize) ≤ 255 ∧
        cellByte state date' (hash % cfg.tableSize) ≤ given ∧
        (cellByte state date' (hash % cfg.tableSize) < 255 →
          cellByte state date' (hash % cfg.tableSize) = given) := by
      omega
    constructor
    · omega
    · rw [hits, withheld]
      generalize cellByte state date' (hash % cfg.tableSize) = byte at limits
      clear byte_after hits withheld
      split_ifs <;> omega
  · rw [if_neg own] at byte_after ⊢
    rw [if_neg own]
    exact ⟨byte_after.trans counted.byte, counted.passed⟩

/-! ## Collectors -/

theorem filterData_counted (inside : cell < cfg.tableSize)
    (counted : Counted cfg state date cell given passed) (date' : Date) (data : List (Inner × Nat))
    (fits : (given + if date' = date then dataHits cfg keys cell data else 0) < 2 ^ 64) :
    Sound cfg (filterData cfg keys date' data state).2 ∧
    Counted cfg (filterData cfg keys date' data state).2 date cell
      (given + if date' = date then dataHits cfg keys cell data else 0)
      (passed + if date' = date then
        dataHits cfg keys cell (filterData cfg keys date' data state).1 else 0) := by
  induction data generalizing state given passed with
  | nil => simpa [filterData, dataHits] using ⟨sound, counted⟩
  | cons item rest ih =>
    have data_cons (item : Inner × Nat) (rest : List (Inner × Nat)) :
        dataHits cfg keys cell (item :: rest) =
          (if keys.distribHash item.1 % cfg.tableSize = cell then item.2 else 0) +
            dataHits cfg keys cell rest := by
      simp [dataHits]
    have kept (hits : Nat) (rest : List (Inner × Nat)) :
        dataHits cfg keys cell (if hits ≠ 0 then (item.1, hits) :: rest else rest) =
          (if keys.distribHash item.1 % cfg.tableSize = cell then hits else 0) +
            dataHits cfg keys cell rest := by
      by_cases none_left : hits = 0
      · simp [none_left]
      · simp [none_left, data_cons]
    have checked := check_counted sound inside counted date' (keys.distribHash item.1) item.2
    rw [data_cons] at fits ⊢
    simp only [filterData, kept]
    by_cases same : date' = date
    · simp only [same, true_and, if_true] at checked fits ih ⊢
      rw [← Nat.add_assoc] at fits ⊢
      rw [← Nat.add_assoc]
      exact ih (check_sound sound date _ _) (checked (by omega)) fits
    · simp only [same, false_and, if_false, Nat.add_zero] at checked fits ih ⊢
      exact ih (check_sound sound date' _ _) (checked fits) fits

theorem filter_counted (inside : cell < cfg.tableSize)
    (counted : Counted cfg state date cell given passed) (collector : Collector Key Inner)
    (fits : given + cellHits cfg keys date cell collector < 2 ^ 64) :
    Sound cfg (filter cfg keys collector state).2 ∧
    Counted cfg (filter cfg keys collector state).2 date cell
      (given + cellHits cfg keys date cell collector)
      (passed + cellHits cfg keys date cell (filter cfg keys collector state).1) := by
  induction collector generalizing state given passed with
  | nil => simpa [filter, cellHits] using ⟨sound, counted⟩
  | cons entry rest ih =>
    have hits_cons (entry : Key × List (Inner × Nat)) (rest : Collector Key Inner) :
        cellHits cfg keys date cell (entry :: rest) =
          (if keys.sdate entry.1 = date then dataHits cfg keys cell entry.2 else 0) +
            cellHits cfg keys date cell rest := by
      simp [cellHits]
    have kept (data : List (Inner × Nat)) (rest : Collector Key Inner) :
        cellHits cfg keys date cell (if data.isEmpty then rest else (entry.1, data) :: rest) =
          (if keys.sdate entry.1 = date then dataHits cfg keys cell data else 0) +
            cellHits cfg keys date cell rest := by
      cases data with
      | nil => simp [dataHits]
      | cons item data => exact hits_cons _ _
    rw [hits_cons, ← Nat.add_assoc] at fits ⊢
    obtain ⟨sound', counted'⟩ := filterData_counted sound inside counted (keys.sdate entry.1)
      entry.2 (Nat.lt_of_le_of_lt (Nat.le_add_right _ _) fits)
    simp only [filter, kept]
    rw [← Nat.add_assoc]
    exact ih sound' counted' fits

theorem clearExpired_counted (counted : Counted cfg state date cell given passed) {expDate : Date}
    (stays : ¬ date < expDate) :
    Sound cfg (clearExpired cfg state expDate) ∧
      Counted cfg (clearExpired cfg state expDate) date cell given passed := by
  refine ⟨⟨fun date' table found => ?_, fun file mem => ?_⟩, ?_, counted.passed⟩
  · simp only [clearExpired, find?_filterKeys] at found
    split at found
    · exact sound.sized date' table found
    · cases found
  · obtain ⟨inFiles, unexpired⟩ := List.mem_filter.1 mem
    obtain ⟨date', known, name⟩ := sound.owned file inFiles
    have kept : ¬ date' < expDate := by
      intro expired
      simp only [Bool.not_eq_true', List.any_eq_false] at unexpired
      exact unexpired date' known (by simp [expired, name])
    refine ⟨date', ?_, name⟩
    rw [mem_keys] at known ⊢
    simpa only [clearExpired, find?_filterKeys, kept, decide_false, Bool.not_false,
      if_true] using known
  · rw [← counted.byte]
    simp only [cellByte, clearExpired, find?_filterKeys, stays, decide_false,
      Bool.not_false, if_true]

end

/-! ## Saved and loaded -/

/-- A table is read back as it was, unless its file has the size of an old one. -/
theorem load_save (some_bytes : 0 < table.length) (fits : table.length < 2 ^ 64)
    (new : (saveTable table).length ≠ oldFileSize) : loadTable (saveTable table) = some table := by
  have version : (saveTable table).take 12 = fileVersion := rfl
  have sized : (saveTable table).drop 12 = numberBytes 8 table.length ++ (table ++ eofMarker) := rfl
  have number : (numberBytes 8 table.length ++ (table ++ eofMarker)).take 8 =
      numberBytes 8 table.length := List.take_left' (numberBytes_length _ _)
  have data : (numberBytes 8 table.length ++ (table ++ eofMarker)).drop 8 =
      table ++ eofMarker := List.drop_left' (numberBytes_length _ _)
  have eof : (eofMarker).take 4 = eofMarker := rfl
  unfold loadTable
  rw [if_neg (by simp [saveTable, fileVersion]), if_neg new, version, if_neg (by simp)]
  simp only [sized, number, data, readNumber_numberBytes 8 (by omega : table.length < 256 ^ 8)]
  rw [if_neg (by simp [numberBytes_length]), if_neg (by omega), if_neg (by simp),
    List.drop_left, eof, if_neg (by simp), List.take_left]

theorem afterLastDot_append (front : List Char) {text : List Char} (no_dot : '.' ∉ text) :
    afterLastDot (front ++ '.' :: text) = some text := by
  have plain : ∀ c ∈ text.reverse, decide (c ≠ '.') = true := by
    intro c mem
    simp only [decide_eq_true_eq]
    rintro rfl
    exact no_dot (List.mem_reverse.1 mem)
  rw [afterLastDot, if_pos (by simp), List.reverse_append, List.reverse_cons,
    List.append_assoc, List.takeWhile_append_of_pos plain]
  simp

omit [LinearOrder Date] in
theorem makeFileName_inj {date date' : Date}
    (same : makeFileName cfg date = makeFileName cfg date') : date = date' := by
  have texts := congrArg afterLastDot same
  rw [makeFileName, makeFileName, afterLastDot_append _ (cfg.no_dot _),
    afterLastDot_append _ (cfg.no_dot _), Option.some.injEq] at texts
  rw [← cfg.parse_gmF date, texts, cfg.parse_gmF]

theorem mem_writeFiles {files writes : List (List Char × Bytes)}
    (distinct : (writes.map (·.1)).Nodup) :
    file ∈ writes.foldl writeFile files ↔
      file ∈ writes ∨ file ∈ files ∧ file.1 ∉ writes.map (·.1) := by
  induction writes generalizing files with
  | nil => simp
  | cons write writes ih =>
    rw [List.map_cons, List.nodup_cons] at distinct
    rw [List.foldl_cons, ih distinct.2, writeFile, List.mem_cons, List.mem_filter, List.map_cons,
      List.mem_cons, List.mem_cons]
    by_cases new : file = write
    · simp [new, distinct.1]
    · simp [new]
      tauto

/-- Where every file is of a date that is counted, the files saved are those of the counters. -/
theorem mem_save (sound : Sound cfg state) :
    file ∈ save cfg state ↔
      ∃ entry ∈ state.counters.entries, (makeFileName cfg entry.1, saveTable entry.2) = file := by
  have names : (state.counters.entries.map fun entry =>
      (makeFileName cfg entry.1, saveTable entry.2)).map (·.1) =
        state.counters.keys.map (makeFileName cfg) := by
    rw [keys, List.map_map, List.map_map]
    rfl
  have distinct : (state.counters.keys.map (makeFileName cfg)).Nodup :=
    state.counters.keys_nodup.map fun _ _ => makeFileName_inj
  rw [← names] at distinct
  rw [save, mem_writeFiles distinct, List.mem_map, names]
  constructor
  · rintro (saved | ⟨mem, other⟩)
    · exact saved
    · obtain ⟨date, known, name⟩ := sound.owned file mem
      exact absurd (name ▸ List.mem_map_of_mem known) other
  · exact .inl

theorem load_spec {counters : SortedMap Date Bytes} {files : List (List Char × Bytes)}
    (base : SortedMap Date Bytes)
    (each : ∀ file ∈ files, ∃ date table, counters.find? date = some table ∧
      loadTable (saveTable table) = some table ∧ (makeFileName cfg date, saveTable table) = file) :
    ∃ loaded, load cfg files base = some loaded ∧ ∀ date, loaded.find? date =
      if makeFileName cfg date ∈ files.map (·.1) then counters.find? date
      else base.find? date := by
  induction files generalizing base with
  | nil => exact ⟨base, rfl, fun date => rfl⟩
  | cons file files ih =>
    obtain ⟨date, table, found, readable, rfl⟩ := each file (List.mem_cons_self ..)
    obtain ⟨loaded, loads, finds⟩ := ih (base.put date table)
      fun file mem => each file (List.mem_cons_of_mem _ mem)
    refine ⟨loaded, ?_, fun date' => ?_⟩
    · simp only [load, readable, makeFileName, afterLastDot_append _ (cfg.no_dot _),
        cfg.parse_gmF, loads]
    · simp only [finds, List.map_cons, List.mem_cons, find?_put]
      by_cases own : date' = date
      · subst own
        simp [found]
      · have other : makeFileName cfg date' ≠ makeFileName cfg date :=
          fun same => own (makeFileName_inj same)
        simp only [other, own, false_or, if_false]

section
variable (sound : Sound cfg state)
include sound

theorem reload_eq
    (new : ∀ entry ∈ state.counters.entries, (saveTable entry.2).length ≠ oldFileSize) :
    reload cfg state = some ⟨state.counters, save cfg state⟩ := by
  obtain ⟨loaded, loads, finds⟩ := @load_spec _ _ cfg state.counters (save cfg state)
    empty (by
      intro file mem
      obtain ⟨entry, known, name⟩ := (mem_save sound).1 mem
      have found := find?_eq_some.2 known
      have size := sound.sized _ _ found
      have some_bytes := cfg.positive
      have fits := cfg.fits
      exact ⟨entry.1, entry.2, found, load_save (by omega) (by omega) (new entry known), name⟩)
  have same : loaded = state.counters := by
    apply ext_find
    intro date
    rw [finds]
    split
    · rfl
    · rename_i unsaved
      symm
      rw [find?_empty, find?_eq_none]
      intro table known
      exact unsaved (List.mem_map_of_mem ((mem_save sound).2 ⟨(date, table), known, rfl⟩))
  rw [reload, loads, same]
  rfl

theorem reload_sound : Sound cfg ⟨state.counters, save cfg state⟩ := by
  refine ⟨sound.sized, fun file mem => ?_⟩
  obtain ⟨entry, known, rfl⟩ := (mem_save sound).1 mem
  exact ⟨entry.1, List.mem_map_of_mem known, rfl⟩

/-! ## Runs -/

/-- One event gives a cell its hits and lets through what is due, where it does not
clear the cell. -/
theorem step_counted {cell hits passed : Nat} (inside : cell < cfg.tableSize)
    (counted : Counted cfg state date cell hits passed) (event : HitsEvent Date Key Inner)
    (stays : ∀ expDate, event = .clearExpired expDate → ¬ date < expDate)
    (fits : hits + given cfg keys date cell event < 2 ^ 64)
    (new : event = .reload → ∀ entry ∈ state.counters.entries,
      (saveTable entry.2).length ≠ oldFileSize) :
    ∃ through after, step cfg keys state event = some (through, after) ∧ Sound cfg after ∧
      Counted cfg after date cell (hits + given cfg keys date cell event)
        (passed + through date cell) := by
  cases event with
  | check date' hash addCount =>
    exact ⟨_, _, rfl, check_sound sound date' hash addCount,
      check_counted sound inside counted date' hash addCount fits⟩
  | filter collector =>
    obtain ⟨sound', counted'⟩ := filter_counted sound inside counted collector fits
    exact ⟨_, _, rfl, sound', counted'⟩
  | clearExpired expDate =>
    obtain ⟨sound', counted'⟩ := clearExpired_counted sound counted (stays expDate rfl)
    exact ⟨_, _, rfl, sound', counted'⟩
  | reload =>
    refine ⟨fun _ _ => 0, ⟨state.counters, save cfg state⟩, ?_, reload_sound sound, ?_⟩
    · rw [step, reload_eq sound (new rfl)]
      rfl
    · exact ⟨counted.byte, counted.passed⟩

end

theorem run_counted (events : List (HitsEvent Date Key Inner)) (sound : Sound cfg state)
    {cell hits passed : Nat} (inside : cell < cfg.tableSize)
    (counted : Counted cfg state date cell hits passed) (reloads : Reloads cfg keys events state)
    (stays : ∀ expDate, .clearExpired expDate ∈ events → ¬ date < expDate)
    (fits : hits + (events.map (given cfg keys date cell)).sum < 2 ^ 64) :
    ∃ through after, run cfg keys events state = some (through, after) ∧ Sound cfg after ∧
      Counted cfg after date cell (hits + (events.map (given cfg keys date cell)).sum)
        (passed + through date cell) := by
  induction events generalizing state hits passed with
  | nil => exact ⟨_, _, rfl, sound, counted⟩
  | cons event events ih =>
    obtain ⟨new, reloads⟩ := reloads
    rw [List.map_cons, List.sum_cons, ← Nat.add_assoc] at fits ⊢
    obtain ⟨through, after, steps, sound', counted'⟩ := step_counted sound inside counted event
      (fun expDate own => stays expDate (own ▸ List.mem_cons_self ..))
      (Nat.lt_of_le_of_lt (Nat.le_add_right _ _) fits) new
    obtain ⟨later, last, runs, sound'', counted''⟩ := ih sound' counted'
      (reloads through after steps) (fun expDate mem => stays expDate (List.mem_cons_of_mem _ mem))
      fits
    refine ⟨fun date cell => through date cell + later date cell, last, ?_, sound'', ?_⟩
    · simp only [run, steps, runs, Option.map_some]
    · rwa [← Nat.add_assoc]

/-- No run without a table of the old files' size loses hits: what a cell that is not
cleared has let through is nothing below the limit, and all it was given from there on. -/
theorem hits_delayed (cfg : HitsConfig Date) (keys : RecordKeys Date Key Inner)
    (events : List (HitsEvent Date Key Inner)) {date : Date} {cell : Nat}
    (inside : cell < cfg.tableSize)
    (stays : ∀ expDate, .clearExpired expDate ∈ events → ¬ date < expDate)
    (fits : (events.map (given cfg keys date cell)).sum < 2 ^ 64)
    (reloads : Reloads cfg keys events fresh) :
    ∃ through after, run cfg keys events fresh = some (through, after) ∧
      through date cell =
        if (events.map (given cfg keys date cell)).sum < cfg.minCount.toNat then 0
        else (events.map (given cfg keys date cell)).sum := by
  have sound : Sound cfg (fresh : HitsState Date) := by
    constructor
    · intro date table found
      cases found
    · intro file mem
      cases mem
  have counted : Counted cfg (fresh : HitsState Date) date cell 0 0 := by
    constructor
    · rfl
    · split <;> rfl
  obtain ⟨through, after, runs, -, counted⟩ :=
    run_counted events sound inside counted reloads stays (by rwa [Nat.zero_add])
  have passed := counted.passed
  rw [Nat.zero_add, Nat.zero_add] at passed
  exact ⟨through, after, runs, passed⟩

/-! ## Files of the old size -/

/-- The filter of two days that lets through from two hits on. -/
def twoDays (tableSize : Nat) (positive : 0 < tableSize) (fits : tableSize < 2 ^ 64) :
    HitsConfig Bool where
  minCount := 2
  tableSize
  positive
  fits
  storage := "Hits/Requests".toList
  gmF day := if day then "1970-01-02".toList else "1970-01-01".toList
  parse text := text == "1970-01-02".toList
  parse_gmF := by decide
  no_dot := by decide

def fourCells : HitsConfig Bool := twoDays 4 (by decide) (by decide)

/-- The tables of this one have files of the old size. -/
def oldSized : HitsConfig Bool := twoDays 10485736 (by decide) (by decide)

def dayKeys : RecordKeys Bool Bool Nat := ⟨id, id⟩

/-- Two hits of a cell, one before and one after the filter is made again. -/
def twice : List (HitsEvent Bool Bool Nat) :=
  [.check true 0 1, .clearExpired true, .reload, .filter [(true, [(0, 1)])]]

theorem hits_delayed_twice : ∃ through after,
    run fourCells dayKeys twice fresh = some (through, after) ∧ through true 0 = 2 := by
  have reloads : Reloads fourCells dayKeys twice fresh := by
    refine ⟨fun own => (by cases own), fun _ _ checks => ?_⟩
    cases checks
    refine ⟨fun own => (by cases own), fun _ _ clears => ?_⟩
    cases clears
    exact ⟨fun _ => by decide, fun _ _ _ => ⟨fun own => (by cases own), fun _ _ _ => trivial⟩⟩
  have stays : ∀ expDate, .clearExpired expDate ∈ twice → ¬ true < expDate := by
    intro expDate mem
    cases expDate <;> decide
  exact @hits_delayed _ _ _ _ fourCells dayKeys twice true 0 (by decide) stays (by decide) reloads

theorem saveTable_length (table : Bytes) : (saveTable table).length = table.length + 24 := by
  simp [saveTable, numberBytes_length, fileVersion, eofMarker]
  omega

/-- A saved table of the old files' size is taken whole for one of them. -/
theorem load_old (old : (saveTable table).length = oldFileSize) :
    loadTable (saveTable table) = some (saveTable table) := by
  rw [loadTable, if_neg (by simp [saveTable, fileVersion]), if_pos old]

section
variable (cfg : HitsConfig Date)

theorem check_fresh (date : Date) (withheld : 1 < cfg.minCount.toNat) :
    check cfg fresh date 0 1 =
      (0, ⟨empty.put date ((List.replicate cfg.tableSize 0).set 0 1), []⟩) := by
  have zero_byte : ((List.replicate cfg.tableSize (0 : UInt8)).getD 0 0).toNat = 0 := by
    simp [List.getElem?_replicate]
    split <;> rfl
  simp only [check, fresh, find?_empty, Option.getD_none, Nat.zero_mod, zero_byte]
  rw [if_pos (by omega)]
  rfl

theorem reload_old (date : Date) (old : (saveTable table).length = oldFileSize) :
    reload cfg ⟨empty.put date table, []⟩ =
      some ⟨empty.put date (saveTable table),
        [(makeFileName cfg date, saveTable table)]⟩ := by
  have saves : save cfg ⟨empty.put date table, []⟩ =
      [(makeFileName cfg date, saveTable table)] := rfl
  have name := afterLastDot_append cfg.storage (cfg.no_dot date)
  rw [reload, saves, load, load_old old, makeFileName, name]
  simp only [cfg.parse_gmF, load, Option.map_some]

/-- The first byte of such a file is the first character of the version. -/
theorem check_old (date : Date) (table : Bytes) (files : List (List Char × Bytes))
    (due : cfg.minCount.toNat ≤ 51) :
    (check cfg ⟨empty.put date (saveTable table), files⟩ date 0 1).1 = 1 := by
  have version : ((saveTable table).getD 0 0).toNat = 51 := rfl
  simp only [check, find?_put, if_true, Option.getD_some, Nat.zero_mod, version]
  rw [if_neg (by omega), if_pos due]

end

/-- Of two hits of a cell one is let through where the tables' files have the old size. -/
theorem run_old (cfg : HitsConfig Bool) (old : cfg.tableSize + 24 = oldFileSize)
    (withheld : 1 < cfg.minCount.toNat) (due : cfg.minCount.toNat ≤ 51) : ∃ through after,
      run cfg dayKeys twice fresh = some (through, after) ∧ through true 0 = 1 := by
  have first := check_fresh cfg true withheld
  have size : (saveTable ((List.replicate cfg.tableSize 0).set 0 1)).length = oldFileSize := by
    rw [saveTable_length, List.length_set, List.length_replicate, old]
  generalize (List.replicate cfg.tableSize (0 : UInt8)).set 0 1 = table at first size
  have clears : clearExpired cfg ⟨empty.put true table, []⟩ true =
      ⟨empty.put true table, []⟩ := rfl
  have reloads := reload_old cfg true size
  have second := check_old cfg true table [(makeFileName cfg true, saveTable table)] due
  generalize [(makeFileName cfg true, saveTable table)] = files at reloads second
  have passed : (filter cfg dayKeys [(true, [(0, 1)])]
      ⟨empty.put true (saveTable table), files⟩).1 = [(true, [(0, 1)])] := by
    simp only [filter, filterData, dayKeys, id, second]
    rfl
  simp only [twice, run, step, first, clears, reloads, Option.map_some]
  refine ⟨_, _, rfl, ?_⟩
  rw [passed]
  simp [cellHits, dataHits, dayKeys]

theorem hit_lost : ∃ through after, run oldSized dayKeys twice fresh = some (through, after) ∧
    through true 0 ≠
      if (twice.map (given oldSized dayKeys true 0)).sum < oldSized.minCount.toNat then 0
      else (twice.map (given oldSized dayKeys true 0)).sum := by
  have old : oldSized.tableSize + 24 = oldFileSize := by rw [oldSized, twoDays, oldFileSize]
  obtain ⟨through, after, runs, one⟩ := run_old oldSized old (by decide) (by decide)
  refine ⟨through, after, runs, ?_⟩
  rw [one]
  decide

end Filter

end AdServer.LogProcessing.HitsFilter
