import Mathlib.Algebra.Group.Nat.Defs
import Mathlib.Data.List.Basic

/-!
# Log file names

A name tells the format it is written in by what stands at its first dot. The fields of the
oldest formats are looked for at fixed places in front of it, those of the newest one behind it.
-/

namespace AdServer.LogProcessing

inductive FileNameFormat where
  | invalid
  | csv
  | basic
  | extended
  | v26
  deriving DecidableEq

/-- A time is a number of microseconds. -/
structure LogFileNameInfo where
  format : FileNameFormat := .invalid
  baseName : List Char := []
  timestamp : Int := 0
  random : Nat := 0
  distribCount : Nat := 0
  distribIndex : Nat := 0
  processedLinesCount : Nat := 0
  deriving DecidableEq

inductive TimeFormat where
  /-- `"%Y%m%d%H%M%S-%q"` -/
  | joined
  /-- `"%Y%m%d"` -/
  | day
  /-- `"%Y%m%d.%H%M%S.%q"` -/
  | full
  deriving DecidableEq

/-- What is taken from the library: strict parsing of times, writing them in the full format, and
reading integers. -/
structure NameLibrary where
  set : TimeFormat → List Char → Option Int
  format : Int → List Char
  strToInt : List Char → Option Nat
  strToTime : List Char → Option Int

/-- A date, a time of day and microseconds. -/
def IsStamp (stamp : List Char) : Prop :=
  ∃ date time micro : List Char, stamp = date ++ '.' :: time ++ '.' :: micro ∧
    date.length = 8 ∧ time.length = 6 ∧ micro.length = 6 ∧
      ∀ c ∈ date ++ time ++ micro, c.isDigit = true

/-- Strict parsing reads what formatting writes for years of four digits, and nothing else;
decimal digits are read as the number they write, if there is room for it. -/
structure NameLibrary.Lawful (l : NameLibrary) : Prop where
  set (stamp : List Char) (t : Int) :
    l.set .full stamp = some t ↔ stamp.length = 22 ∧ l.format t = stamp
  format (t : Int) (years : (l.format t).length = 22) : IsStamp (l.format t)
  strToInt (digits : List Char) (some : digits ≠ []) (all : ∀ c ∈ digits, c.isDigit = true)
    (fits : Nat.ofDigitChars 10 digits 0 < 2 ^ 64) :
    l.strToInt digits = Option.some (Nat.ofDigitChars 10 digits 0)

/-- How parsing ends without a result: by its exception, or with an index or the start of a
`substr` behind the end of the string. -/
inductive NameFault where
  | invalidLogFileNameFormat
  | outside
  deriving DecidableEq

section Reading

abbrev Parsed (α : Type) := Except NameFault α

/-- Everything that is not as expected throws. -/
def expect (condition : Bool) : Parsed Unit :=
  if condition then .ok () else .error .invalidLogFileNameFormat

def orInvalid {α : Type} : Option α → Parsed α
  | some value => .ok value
  | none => .error .invalidLogFileNameFormat

/-- `SubString::operator[]`. -/
def charAt (str : List Char) (index : Nat) : Parsed Char :=
  match str[index]? with
  | some c => .ok c
  | none => .error .outside

def substr (str : List Char) (pos count : Nat) : Parsed (List Char) :=
  if str.length < pos then .error .outside else .ok ((str.drop pos).take count)

/-- `find_first_of('.')`. -/
def findDot (str : List Char) : Option Nat := str.findIdx? (· == '.')

/-- Unsigned subtraction. -/
def sub (left right : Nat) : Nat := (left + 2 ^ 64 - right) % 2 ^ 64

end Reading

section Parse

variable (l : NameLibrary)

def parseCsv (fname : List Char) (fDPos : Nat) (info : LogFileNameInfo) :
    Parsed LogFileNameInfo := do
  let uPos := sub fDPos 29
  expect ((← charAt fname uPos) == '_')
  let mPos := sub fDPos 14
  expect ((← charAt fname mPos) == '-')
  let rPos := sub fDPos 7
  expect ((← charAt fname rPos) == '-')
  let baseName ← substr fname 0 uPos
  let tstamp ← substr fname (uPos + 1) (rPos - uPos - 1)
  let timestamp ← orInvalid (l.set .joined tstamp)
  let rnd ← substr fname (rPos + 1) (fDPos - rPos - 1)
  let random ← orInvalid (l.strToInt rnd)
  return { info with
    baseName := baseName
    timestamp := timestamp
    random := random
    distribCount := 0
    distribIndex := 0
    format := .csv }

/-- The rest of a basic name, with its time and random number. -/
def parseBasic (tmpSubstr : List Char) : Parsed (Int × Nat) := do
  expect ((← charAt tmpSubstr 8) == '.')
  let _ ← orInvalid (l.set .day (← substr tmpSubstr 0 8))
  let tmpSubstr ← substr tmpSubstr 9 (tmpSubstr.length - 8)
  let dPos ← orInvalid (findDot tmpSubstr)
  let unixtime ← orInvalid (l.strToTime (← substr tmpSubstr 0 dPos))
  let tmpSubstr ← substr tmpSubstr (dPos + 1) (tmpSubstr.length - dPos)
  expect (tmpSubstr.length == 8)
  let random ← orInvalid (l.strToInt tmpSubstr)
  return (unixtime * 1000000, random)

/-- The rest of an extended name. -/
def parseExtended (tmpSubstr : List Char) : Parsed (Int × Nat) := do
  let timestamp ← orInvalid (l.set .full (← substr tmpSubstr 0 22))
  let tmpSubstr ← substr tmpSubstr 23 (tmpSubstr.length - 22)
  expect (tmpSubstr.length == 8)
  let random ← orInvalid (l.strToInt tmpSubstr)
  return (timestamp, random)

/-- The digit after the first dot of the rest tells the two apart. -/
def parseKind (kind : Char) (tmpSubstr : List Char) : Parsed (FileNameFormat × Int × Nat) :=
  if kind = '1' then (FileNameFormat.basic, ·) <$> parseBasic l tmpSubstr
  else if kind = '0' then (FileNameFormat.extended, ·) <$> parseExtended l tmpSubstr
  else .error .invalidLogFileNameFormat

def parseLog (fname : List Char) (fDPos : Nat) (info : LogFileNameInfo) :
    Parsed LogFileNameInfo := do
  let uPos := fDPos + 4
  expect ((← charAt fname uPos) == '_')
  expect (← charAt fname (uPos + 1)).isDigit
  let tmpSubstr ← substr fname (uPos + 1) (fname.length - uPos)
  let dPos ← orInvalid (findDot tmpSubstr)
  let kind ← charAt tmpSubstr (dPos + 1)
  expect kind.isDigit
  let uPos := dPos + 2
  expect ((← charAt tmpSubstr uPos) == '_')
  let distribIndex ← orInvalid (l.strToInt (← substr tmpSubstr 0 dPos))
  let rest ← substr tmpSubstr (uPos + 1) (tmpSubstr.length - uPos)
  let (format, timestamp, random) ← parseKind l kind rest
  let baseName ← substr fname 0 fDPos
  return { info with
    format := format
    timestamp := timestamp
    random := random
    distribIndex := distribIndex
    baseName := baseName
    distribCount := 0 }

/-- What follows the count: the index, and the lines processed where they are given. -/
def parseIndex (tmpSubstr : List Char) : Parsed (Nat × Nat) :=
  match findDot tmpSubstr with
  | none => do
    let distribIndex ← orInvalid (l.strToInt tmpSubstr)
    return (distribIndex, 0)
  | some dPos => do
    let distribIndex ← orInvalid (l.strToInt (← substr tmpSubstr 0 dPos))
    let tmpSubstr ← substr tmpSubstr (dPos + 1) (tmpSubstr.length - dPos)
    let processedLinesCount ← orInvalid (l.strToInt tmpSubstr)
    return (distribIndex, processedLinesCount)

def parseV26 (fname : List Char) (fDPos : Nat) (info : LogFileNameInfo) :
    Parsed LogFileNameInfo := do
  let tmpSubstr ← substr fname (fDPos + 1) (fname.length - fDPos)
  let timestamp ← orInvalid (l.set .full (← substr tmpSubstr 0 22))
  let randStr ← substr tmpSubstr 23 8
  expect (randStr.length == 8)
  let random ← orInvalid (l.strToInt randStr)
  let tmpSubstr ← substr tmpSubstr 32 (tmpSubstr.length - 31)
  let dPos ← orInvalid (findDot tmpSubstr)
  let distribCount ← orInvalid (l.strToInt (← substr tmpSubstr 0 dPos))
  let tmpSubstr ← substr tmpSubstr (dPos + 1) (tmpSubstr.length - dPos)
  let (distribIndex, processedLinesCount) ← parseIndex l tmpSubstr
  let baseName ← substr fname 0 fDPos
  return { info with
    timestamp := timestamp
    random := random
    distribCount := distribCount
    distribIndex := distribIndex
    processedLinesCount := processedLinesCount
    format := .v26
    baseName := baseName }

/-- `parse_log_file_name`; what it throws leaves the information empty. -/
def parseLogFileName (logFileName : List Char) (info : LogFileNameInfo) :
    Parsed LogFileNameInfo :=
  match findDot logFileName with
  | none => .error .invalidLogFileNameFormat
  | some fDPos =>
    if fDPos = 0 ∨ logFileName.length - fDPos < 4 then .error .invalidLogFileNameFormat
    else
      let cond := (logFileName.drop fDPos).take 4
      if cond = ['.', 'c', 's', 'v'] then parseCsv l logFileName fDPos info
      else if cond = ['.', 'l', 'o', 'g'] then parseLog l logFileName fDPos info
      else parseV26 l logFileName fDPos info

/-- `DefaultOrderStrategy::key`; nothing stands for `std::terminate`. -/
def orderKey (logFileName : Option (List Char)) : Option Int :=
  match logFileName with
  | none => some 0
  | some name => (parseLogFileName l name {}).toOption.map (·.timestamp)

end Parse

section Restore

variable (l : NameLibrary)

/-- A `long`, which the number is taken as. -/
def decimalLong (number : Nat) : List Char :=
  if number < 2 ^ 63 then Nat.toDigits 10 number else '-' :: Nat.toDigits 10 (2 ^ 64 - number)

/-- `make_log_file_name_V_2_6`. -/
def makeV26 (info : LogFileNameInfo) : List Char :=
  '.' :: l.format info.timestamp ++ '.' :: (decimalLong info.random).leftpad 8 '0' ++
    '.' :: Nat.toDigits 10 info.distribCount ++ '.' :: Nat.toDigits 10 info.distribIndex ++
      if info.processedLinesCount = 0 then []
      else '.' :: Nat.toDigits 10 info.processedLinesCount

/-- `restore_log_file_name`, which throws for other formats. -/
def restoreLogFileName (info : LogFileNameInfo) (outDirName : List Char) : Option (List Char) :=
  if info.format = .v26 then
    some ((if outDirName = [] then [] else outDirName ++ ['/']) ++ info.baseName ++ makeV26 l info)
  else none

end Restore

section Cutting

variable {α β : Type} {a b c str : List Char} {pos count : Nat}

theorem parsed_bind {x : Parsed α} {g : α → Parsed β} {result : β} :
    (x >>= g) = .ok result ↔ ∃ y, x = .ok y ∧ g y = .ok result := by
  cases x <;> simp [bind, Except.bind]

@[simp] theorem ok_then (x : α) (g : α → Parsed β) : ((Except.ok x : Parsed α) >>= g) = g x := rfl

@[simp] theorem expect_true : expect true = .ok () := rfl

@[simp] theorem orInvalid_some (x : α) : orInvalid (some x) = .ok x := rfl

theorem findDot_append (free : '.' ∉ a) : findDot (a ++ '.' :: b) = some a.length := by
  induction a with
  | nil => rfl
  | cons x a ih =>
    have other : x ≠ '.' := fun same => free (same ▸ List.mem_cons_self)
    have differs : (x == '.') = false := by simpa using other
    have later := ih fun mem => free (List.mem_cons_of_mem x mem)
    rw [findDot] at later ⊢
    rw [List.cons_append, List.findIdx?_cons, differs, later]
    simp

theorem findDot_of_free (free : '.' ∉ a) : findDot a = none := by
  rw [findDot, List.findIdx?_eq_none_iff]
  intro x mem
  have differs : x ≠ '.' := fun same => free (same ▸ mem)
  simpa using differs

theorem substr_part (at_a : pos = a.length) (all_b : count = b.length) :
    substr (a ++ (b ++ c)) pos count = .ok b := by
  subst at_a all_b
  simp [substr]

theorem substr_rest (at_a : pos = a.length) (all_b : b.length ≤ count) :
    substr (a ++ b) pos count = .ok b := by
  subst at_a
  simp [substr, List.take_of_length_le all_b]

end Cutting

section Names

variable {l : NameLibrary}

variable {fname stamp : List Char} {fDPos : Nat} {info result : LogFileNameInfo}

theorem parseCsv_keeps (h : parseCsv l fname fDPos info = .ok result) :
    result.processedLinesCount = info.processedLinesCount := by
  unfold parseCsv at h
  dsimp only at h
  repeat obtain ⟨_, -, h⟩ := parsed_bind.1 h
  cases h
  rfl

theorem parseLog_keeps (h : parseLog l fname fDPos info = .ok result) :
    result.processedLinesCount = info.processedLinesCount := by
  unfold parseLog at h
  dsimp only at h
  repeat obtain ⟨_, -, h⟩ := parsed_bind.1 h
  cases h
  rfl

theorem parseV26_format (h : parseV26 l fname fDPos info = .ok result) : result.format = .v26 := by
  unfold parseV26 at h
  dsimp only at h
  repeat obtain ⟨_, -, h⟩ := parsed_bind.1 h
  cases h
  rfl

theorem parseLogFileName_keeps {name : List Char} (h : parseLogFileName l name info = .ok result) :
    result.format = .v26 ∨ result.processedLinesCount = info.processedLinesCount := by
  unfold parseLogFileName at h
  split at h
  · simp at h
  · dsimp only at h
    split_ifs at h
    · exact .inr (parseCsv_keeps h)
    · exact .inr (parseLog_keeps h)
    · exact .inl (parseV26_format h)

/-- The number of processed lines stands at the end, unless there is none. -/
def WritesLines (l : NameLibrary) (lines : List Char) (processed : Nat) : Prop :=
  (lines = [] ∧ processed = 0) ∨
    ∃ number, lines = '.' :: number ∧ l.strToInt number = some processed

theorem parseIndex_eq {index lines : List Char} {distribIndex processed : Nat}
    (free : '.' ∉ index) (read : l.strToInt index = some distribIndex)
    (ends : WritesLines l lines processed) :
    parseIndex l (index ++ lines) = .ok (distribIndex, processed) := by
  obtain ⟨rfl, rfl⟩ | ⟨number, rfl, read_lines⟩ := ends
  · rw [List.append_nil, parseIndex, findDot_of_free free, read]
    rfl
  · rw [parseIndex, findDot_append free]
    have own : substr (index ++ '.' :: number) 0 index.length = .ok index :=
      substr_part (a := []) rfl rfl
    have rest : substr (index ++ '.' :: number) (index.length + 1)
        ((index ++ '.' :: number).length - index.length) = .ok number := by
      rw [List.append_cons]
      exact substr_rest (by simp) (by simp)
    dsimp only
    rw [own, ok_then, read, orInvalid_some, ok_then, rest, ok_then, read_lines]
    rfl

/-- The fields of a name of the newest format. -/
structure Fields where
  base : List Char
  stamp : List Char
  random : List Char
  count : List Char
  index : List Char
  lines : List Char

variable {fields : Fields}

def Fields.name (fields : Fields) : List Char :=
  fields.base ++ '.' :: (fields.stamp ++ '.' :: (fields.random ++ '.' :: (fields.count ++
    '.' :: (fields.index ++ fields.lines))))

/-- Each field can be read, and the separators are found. -/
structure Fields.Read (l : NameLibrary) (fields : Fields) (info : LogFileNameInfo) : Prop where
  format : info.format = .v26
  base : fields.base = info.baseName ∧ fields.base ≠ [] ∧ '.' ∉ fields.base
  stamp : IsStamp fields.stamp ∧ l.set .full fields.stamp = some info.timestamp
  random : fields.random.length = 8 ∧ l.strToInt fields.random = some info.random
  count : '.' ∉ fields.count ∧ l.strToInt fields.count = some info.distribCount
  index : '.' ∉ fields.index ∧ l.strToInt fields.index = some info.distribIndex
  lines : WritesLines l fields.lines info.processedLinesCount

theorem IsStamp.length (h : IsStamp stamp) : stamp.length = 22 := by
  obtain ⟨date, time, micro, rfl, eight, six, six', -⟩ := h
  simp [eight, six, six']

theorem IsStamp.head (h : IsStamp stamp) : ∃ c rest, stamp = c :: rest ∧ c.isDigit = true := by
  obtain ⟨date, time, micro, rfl, eight, -, -, digits⟩ := h
  cases date with
  | nil => simp at eight
  | cons c date => exact ⟨c, _, rfl, digits c (by simp)⟩

/-- What stands behind the first dot, the random number and the count. -/
def Fields.tail (fields : Fields) : List Char :=
  fields.count ++ '.' :: (fields.index ++ fields.lines)

theorem substr_behind_dot (a b : List Char) :
    substr (a ++ '.' :: b) (a.length + 1) ((a ++ '.' :: b).length - a.length) = .ok b := by
  rw [List.append_cons]
  exact substr_rest (by simp) (by simp)

theorem parseV26_eq (read : fields.Read l info) (previous : LogFileNameInfo) :
    parseV26 l fields.name fields.base.length previous = .ok info := by
  have stamp_length := read.stamp.1.length
  have eight := read.random.1
  generalize behind : fields.stamp ++ '.' :: (fields.random ++ '.' :: fields.tail) = rest
  have name : fields.name = fields.base ++ '.' :: rest := by
    rw [← behind]
    rfl
  have stamp : substr rest 0 22 = .ok fields.stamp := by
    rw [← behind]
    exact substr_part (a := []) rfl stamp_length.symm
  have random : substr rest 23 8 = .ok fields.random := by
    rw [← behind, List.append_cons]
    exact substr_part (by simp [stamp_length]) eight.symm
  have tail : substr rest 32 (rest.length - 31) = .ok fields.tail := by
    have split : rest = (fields.stamp ++ '.' :: fields.random ++ ['.']) ++ fields.tail := by
      rw [← behind]
      simp
    rw [split]
    exact substr_rest (by simp [stamp_length, eight]) (by simp [stamp_length, eight]; omega)
  have count : substr fields.tail 0 fields.count.length = .ok fields.count :=
    substr_part (a := []) rfl rfl
  have index : substr fields.tail (fields.count.length + 1)
      (fields.tail.length - fields.count.length) = .ok (fields.index ++ fields.lines) :=
    substr_behind_dot _ _
  have base : substr (fields.base ++ '.' :: rest) 0 fields.base.length = .ok fields.base :=
    substr_part (a := []) rfl rfl
  have separator : findDot fields.tail = some fields.count.length := findDot_append read.count.1
  have ends := parseIndex_eq read.index.1 read.index.2 read.lines
  unfold parseV26
  rw [name, substr_behind_dot, ok_then, stamp, ok_then, read.stamp.2, orInvalid_some, ok_then,
    random, ok_then, eight, beq_self_eq_true, expect_true, ok_then, read.random.2, orInvalid_some,
    ok_then, tail, ok_then, separator, orInvalid_some, ok_then, count, ok_then, read.count.2,
    orInvalid_some, ok_then, index, ok_then, ends, ok_then, base, read.base.1]
  have newest := read.format
  cases info
  cases newest
  rfl

theorem parseLogFileName_eq (read : fields.Read l info) (previous : LogFileNameInfo) :
    parseLogFileName l fields.name previous = .ok info := by
  have found : findDot fields.name = some fields.base.length := findDot_append read.base.2.2
  obtain ⟨c, rest, head, digit⟩ := read.stamp.1.head
  have length := read.stamp.1.length
  have behind : fields.name.drop fields.base.length = '.' :: (fields.stamp ++ '.' ::
      (fields.random ++ '.' :: (fields.count ++ '.' :: (fields.index ++ fields.lines)))) := by
    rw [Fields.name, List.drop_left]
  have long : ¬(fields.base.length = 0 ∨ fields.name.length - fields.base.length < 4) := by
    rintro (none | short)
    · exact read.base.2.1 (List.length_eq_zero_iff.1 none)
    · rw [← List.length_drop, behind] at short
      simp at short
      omega
  have second : ∀ d e f, d.isDigit = false →
      (fields.name.drop fields.base.length).take 4 ≠ ['.', d, e, f] := by
    rintro d e f other same
    rw [behind, head] at same
    simp only [List.take_succ_cons, List.cons_append, List.cons.injEq] at same
    rw [same.2.1, other] at digit
    exact Bool.false_ne_true digit
  unfold parseLogFileName
  rw [found]
  dsimp only
  rw [if_neg long, if_neg (second _ _ _ rfl), if_neg (second _ _ _ rfl)]
  exact parseV26_eq read previous

/-- What restoring a name is for; the numbers are of 64 bits. -/
structure Restorable (l : NameLibrary) (info : LogFileNameInfo) : Prop where
  format : info.format = .v26
  baseName : info.baseName ≠ [] ∧ '.' ∉ info.baseName
  years : (l.format info.timestamp).length = 22
  random : info.random < 10 ^ 8
  distribCount : info.distribCount < 2 ^ 64
  distribIndex : info.distribIndex < 2 ^ 64
  processedLinesCount : info.processedLinesCount < 2 ^ 64

theorem strToInt_toDigits (lawful : l.Lawful) {number : Nat} (fits : number < 2 ^ 64) :
    l.strToInt (Nat.toDigits 10 number) = some number := by
  have value : Nat.ofDigitChars 10 (Nat.toDigits 10 number) 0 = number :=
    Nat.ofDigitChars_toDigits (by decide) (by decide)
  rw [lawful.strToInt _ Nat.toDigits_ne_nil
    (fun c => Nat.isDigit_of_mem_toDigits (by decide) (by decide)) (by rwa [value]), value]

theorem dot_notMem_toDigits (number : Nat) : '.' ∉ Nat.toDigits 10 number := by
  intro mem
  exact Bool.false_ne_true (Nat.isDigit_of_mem_toDigits (by decide) (by decide) mem)

theorem padded_random (lawful : l.Lawful) {random : Nat} (small : random < 10 ^ 8) :
    ((decimalLong random).leftpad 8 '0').length = 8 ∧
      l.strToInt ((decimalLong random).leftpad 8 '0') = some random := by
  have long : decimalLong random = Nat.toDigits 10 random := if_pos (by omega)
  have digits : (Nat.toDigits 10 random).length ≤ 8 :=
    (Nat.length_toDigits_le_iff (by decide) (by decide)).2 small
  have value : Nat.ofDigitChars 10 ((Nat.toDigits 10 random).leftpad 8 '0') 0 = random := by
    rw [List.leftpad, Nat.ofDigitChars_append, Nat.ofDigitChars_replicate_zero, Nat.mul_zero]
    exact Nat.ofDigitChars_toDigits (by decide) (by decide)
  rw [long]
  refine ⟨by rw [List.length_leftpad]; omega, ?_⟩
  rw [lawful.strToInt _ ?_ ?_ (by rw [value]; omega), value]
  · rw [List.leftpad]
    simp [Nat.toDigits_ne_nil]
  · intro c mem
    cases List.mem_append.1 mem with
    | inl zero => rw [List.eq_of_mem_replicate zero]; rfl
    | inr own => exact Nat.isDigit_of_mem_toDigits (by decide) (by decide) own

/-- The fields a name is made of. -/
def writtenFields (l : NameLibrary) (info : LogFileNameInfo) : Fields where
  base := info.baseName
  stamp := l.format info.timestamp
  random := (decimalLong info.random).leftpad 8 '0'
  count := Nat.toDigits 10 info.distribCount
  index := Nat.toDigits 10 info.distribIndex
  lines :=
    if info.processedLinesCount = 0 then [] else '.' :: Nat.toDigits 10 info.processedLinesCount

theorem restoreLogFileName_eq (format : info.format = .v26) :
    restoreLogFileName l info [] = some (writtenFields l info).name := by
  rw [restoreLogFileName, if_pos format]
  simp [makeV26, Fields.name, writtenFields]

theorem writtenFields_read (lawful : l.Lawful) (h : Restorable l info) :
    (writtenFields l info).Read l info where
  format := h.format
  base := ⟨rfl, h.baseName⟩
  stamp := ⟨lawful.format _ h.years, (lawful.set _ _).2 ⟨h.years, rfl⟩⟩
  random := padded_random lawful h.random
  count := ⟨dot_notMem_toDigits _, strToInt_toDigits lawful h.distribCount⟩
  index := ⟨dot_notMem_toDigits _, strToInt_toDigits lawful h.distribIndex⟩
  lines := by
    by_cases none : info.processedLinesCount = 0
    · exact .inl ⟨if_pos none, none⟩
    · exact .inr ⟨_, if_neg none, strToInt_toDigits lawful h.processedLinesCount⟩

/-- Base name, date, time, microseconds, a random number of eight digits, count, index and,
where they are given, lines, with dots between them. -/
def IsV26Name (l : NameLibrary) (name : List Char) : Prop :=
  ∃ fields : Fields, fields.name = name ∧ fields.base ≠ [] ∧ '.' ∉ fields.base ∧
    (IsStamp fields.stamp ∧ (l.set .full fields.stamp).isSome) ∧
    (fields.random.length = 8 ∧ (l.strToInt fields.random).isSome) ∧
    ('.' ∉ fields.count ∧ (l.strToInt fields.count).isSome) ∧
    ('.' ∉ fields.index ∧ (l.strToInt fields.index).isSome) ∧
    (fields.lines = [] ∨
      ∃ number, fields.lines = '.' :: number ∧ (l.strToInt number).isSome)

/-- Parsing throws its exception or sets everything by the name alone, without a look outside of
it; the key of the name is returned; and a name taken for one of the newest format is one. -/
structure ParsedSafely (l : NameLibrary) (name : List Char) : Prop where
  determined : (∀ previous, parseLogFileName l name previous = .error .invalidLogFileNameFormat) ∨
    ∃ info, ∀ previous, parseLogFileName l name previous = .ok info
  key : (orderKey l (some name)).isSome
  separated : ∀ previous info, parseLogFileName l name previous = .ok info → info.format = .v26 →
    IsV26Name l name

theorem isV26Name_of_parsedSafely {name : List Char} (h : ParsedSafely l name) :
    IsV26Name l name := by
  obtain ⟨throws | ⟨info, sets⟩, key, separated⟩ := h
  · rw [orderKey, throws] at key
    simp [Except.toOption] at key
  · -- what the information held before shows up in a name of another format
    have first := parseLogFileName_keeps (sets { processedLinesCount := 0 })
    have second := parseLogFileName_keeps (sets { processedLinesCount := 1 })
    obtain newest | zero := first
    · exact separated {} info (sets {}) newest
    · obtain newest | one := second
      · exact separated {} info (sets {}) newest
      · exact absurd (zero.symm.trans one) (by decide)

theorem exists_read {name : List Char} (h : IsV26Name l name) :
    ∃ fields : Fields, fields.name = name ∧ ∃ info, fields.Read l info := by
  obtain ⟨fields, named, some_base, free, ⟨isStamp, stamp⟩, ⟨eight, random⟩,
    ⟨count_free, count⟩, ⟨index_free, index⟩, lines⟩ := h
  obtain ⟨timestamp, stamp⟩ := Option.isSome_iff_exists.1 stamp
  obtain ⟨random_, random⟩ := Option.isSome_iff_exists.1 random
  obtain ⟨distribCount, count⟩ := Option.isSome_iff_exists.1 count
  obtain ⟨distribIndex, index⟩ := Option.isSome_iff_exists.1 index
  obtain ⟨processed, writes⟩ : ∃ processed, WritesLines l fields.lines processed := by
    obtain none | ⟨number, given, read⟩ := lines
    · exact ⟨0, .inl ⟨none, rfl⟩⟩
    · obtain ⟨processed, read⟩ := Option.isSome_iff_exists.1 read
      exact ⟨processed, .inr ⟨number, given, read⟩⟩
  exact ⟨fields, named,
    ⟨.v26, fields.base, timestamp, random_, distribCount, distribIndex, processed⟩, rfl,
    ⟨rfl, some_base, free⟩, ⟨isStamp, stamp⟩, ⟨eight, random⟩, ⟨count_free, count⟩,
    ⟨index_free, index⟩, writes⟩

theorem parsedSafely_of_isV26Name {name : List Char} (h : IsV26Name l name) :
    ParsedSafely l name := by
  obtain ⟨fields, named, info, read⟩ := exists_read h
  have sets := parseLogFileName_eq read
  rw [named] at sets
  refine ⟨.inr ⟨info, sets⟩, ?_, fun _ _ _ _ => h⟩
  rw [orderKey, sets]
  rfl

/-- A name of the newest format gives back what it was made of. -/
theorem parseLogFileName_restore (lawful : l.Lawful) (h : Restorable l info) :
    ∃ name, restoreLogFileName l info [] = some name ∧
      ∀ previous, parseLogFileName l name previous = .ok info :=
  ⟨_, restoreLogFileName_eq h.format, parseLogFileName_eq (writtenFields_read lawful h)⟩

theorem parseLogFileName_safe (lawful : l.Lawful) (name : List Char) :
    (ParsedSafely l name ↔ IsV26Name l name) ∧
      ∀ info, Restorable l info → ∃ written, restoreLogFileName l info [] = some written ∧
        ∀ previous, parseLogFileName l written previous = .ok info :=
  ⟨⟨isV26Name_of_parsedSafely, parsedSafely_of_isV26Name⟩,
    fun _ restorable => parseLogFileName_restore lawful restorable⟩

end Names

def augustStamp : List Char :=
  ['2', '0', '1', '2', '0', '8', '3', '1', '.', '1', '0', '2', '4', '3', '8', '.',
    '7', '3', '6', '4', '9', '6']

/-- A library that knows one time. -/
def augustLibrary : NameLibrary where
  set format str := if format = .full ∧ str = augustStamp then some 1346408678736496 else none
  format t := if t = 1346408678736496 then augustStamp else []
  strToInt digits :=
    if digits ≠ [] ∧ digits.all (·.isDigit) = true ∧ Nat.ofDigitChars 10 digits 0 < 2 ^ 64 then
      some (Nat.ofDigitChars 10 digits 0)
    else none
  strToTime _ := none

theorem augustStamp_isStamp : IsStamp augustStamp :=
  ⟨['2', '0', '1', '2', '0', '8', '3', '1'], ['1', '0', '2', '4', '3', '8'],
    ['7', '3', '6', '4', '9', '6'], rfl, rfl, rfl, rfl, List.all_eq_true.1 rfl⟩

theorem augustLibrary_lawful : augustLibrary.Lawful where
  set stamp t := by
    constructor
    · intro read
      obtain ⟨⟨-, rfl⟩, same⟩ := Option.ite_none_right_eq_some.1 read
      cases same
      exact ⟨rfl, rfl⟩
    · rintro ⟨length, written⟩
      by_cases known : t = 1346408678736496
      · subst known
        have same : augustStamp = stamp := written
        rw [← same]
        rfl
      · have empty : stamp = [] := written.symm.trans (if_neg known)
        rw [empty] at length
        exact absurd length (by decide)
  format t years := by
    by_cases known : t = 1346408678736496
    · rw [known]
      exact augustStamp_isStamp
    · have empty : augustLibrary.format t = [] := if_neg known
      rw [empty] at years
      exact absurd years (by decide)
  strToInt digits some all fits := if_pos ⟨some, List.all_eq_true.2 all, fits⟩

/-- `A.20120831.102438.736496.43242548.1.0` -/
def augustFields : Fields where
  base := ['A']
  stamp := augustStamp
  random := ['4', '3', '2', '4', '2', '5', '4', '8']
  count := ['1']
  index := ['0']
  lines := []

theorem parseLogFileName_safe_august : ParsedSafely augustLibrary augustFields.name :=
  (parseLogFileName_safe augustLibrary_lawful augustFields.name).1.2
    ⟨augustFields, rfl, by decide, by decide, ⟨augustStamp_isStamp, by decide⟩,
      ⟨by decide, by decide⟩, ⟨by decide, by decide⟩, ⟨by decide, by decide⟩, .inl rfl⟩

/-- The exception for a name without a dot leaves a function that throws nothing. -/
theorem dotless_not_parsedSafely :
    ¬∀ (l : NameLibrary), l.Lawful → ∀ name, ParsedSafely l name := by
  intro safe
  exact absurd (safe augustLibrary augustLibrary_lawful ['a']).key (by decide)

end AdServer.LogProcessing
