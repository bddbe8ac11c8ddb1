import AdServer.Billing.State
import AdServer.Lib.ChainedDays
import AdServer.Lib.Delimited
import AdServer.Lib.Portions

/-!
# The stored amounts

`BillingContainer::save_account_amounts_`, `save_amounts_` and the functions
that load what they write. A holder is stored as a line for each of its days and,
after them, a line on the zero date with the start of its first day.
-/

namespace AdServer.Billing

open AdServer.Lib SortedMap

abbrev Text := List Char

/-- What ends a line, a token, an element of a list or a part of one. -/
def isSeparator (c : Char) : Bool := c == '\n' || c == '\t' || c == ',' || c == '|' || c == ':'

/-- Numbers and dates as text and back. Reading a text that is none throws. -/
structure TextFormat where
  int : Int → Text
  decimal : Int → Text
  impDecimal : Int → Text
  date : Time → Text
  strToInt : Text → Option Nat
  readDecimal : Text → Except String Int
  readImpDecimal : Text → Except String Int
  readDate : Text → Except String Time
  strToInt_int : ∀ n : Nat, strToInt (int n) = some n
  readDecimal_decimal : ∀ x, readDecimal (decimal x) = .ok x
  readImpDecimal_impDecimal : ∀ x, readImpDecimal (impDecimal x) = .ok x
  readDate_zero : readDate (date 0) = .ok 0
  int_clean : ∀ n, ∀ c ∈ int n, isSeparator c = false
  decimal_clean : ∀ x, ∀ c ∈ decimal x, isSeparator c = false
  impDecimal_clean : ∀ x, ∀ c ∈ impDecimal x, isSeparator c = false
  date_clean : ∀ d, ∀ c ∈ date d, isSeparator c = false
  impDecimal_some : ∀ x, impDecimal x ≠ []

/-- `%F` is exact on the date. -/
def TextFormat.ExactDate (F : TextFormat) (d : Time) : Prop := F.readDate (F.date d) = .ok d

/-- An exception with its text, or an assertion that fails. -/
inductive LoadError where
  | exception (what : String)
  | aborted
  deriving DecidableEq

def throwing {α : Type} : Except String α → Except LoadError α
  | .ok a => .ok a
  | .error what => .error (.exception what)

section ReadFile

variable {S : Type} (FUN path : String) (load : Text → S → Except LoadError S)

/-- The lines from number `i` on. Only the last one can be empty with the stream
failed, when the file ends with a line end. -/
def readLines : Nat → List Text → S → Except LoadError S
  | _, [], s => .ok s
  | i, line :: rest, s =>
    let loaded :=
      if rest.isEmpty && line.isEmpty then .error (.exception "read failed or empty line")
      else load line s
    match loaded with
    | .ok s => readLines (i + 1) rest s
    | .error (.exception what) =>
      .error (.exception (FUN ++ ": can't read '" ++ path ++ "', invalid line #" ++ toString i ++
        " '" ++ String.ofList line ++ "': " ++ what))
    | .error .aborted => .error .aborted

/-- Line by line to the end; an empty file is allowed. -/
def readFile (file : Text) (s : S) : Except LoadError S :=
  if file.isEmpty then .ok s else readLines FUN path load 0 (file.splitOnP (· == '\n')) s

variable {FUN path load}

theorem readLines_ok {lines : List Text} (full : ∀ line ∈ lines, line ≠ []) {s s' : S} {i : Nat}
    (loaded : lines.foldlM (fun s line => load line s) s = .ok s') :
    readLines FUN path load i lines s = .ok s' := by
  induction lines generalizing s i with
  | nil => exact loaded
  | cons line rest ih =>
    have some_line : line.isEmpty = false := by simpa using full line (by simp)
    rw [List.foldlM_cons] at loaded
    cases one : load line s with
    | error e => simp [one, bind, Except.bind] at loaded
    | ok next =>
      simp only [one, bind, Except.bind] at loaded
      simp only [readLines, some_line, Bool.and_false, Bool.false_eq_true, if_false, one]
      exact ih (fun line h => full line (by simp [h])) loaded

end ReadFile

/-- `SplitTab` over a line. -/
def splitTab (line : Text) : List Text :=
  if line.isEmpty then [] else line.splitOnP (· == '\t')

/-- A line of amounts. -/
structure AmountRecord (A : Type) where
  id : Nat
  date : Time
  amount : A

section Records

variable {A : Type} [AddCommGroup A]

/-- A date and amount read for a holder. The zero date stands for the start of
the first day: `add_prev_days_amount`, for which there must be a day. -/
def addDayRecord (days : Days Time A) (date : Time) (amount : A) : Except LoadError (Days Time A) :=
  if date = 0 then
    if days.isEmpty then .error .aborted else .ok (days.shift amount)
  else .ok (days.addAmount date amount)

/-- A record read, its holder created when it is the first for its id. -/
def addRecord (amounts : Ledgers Nat Time A) (r : AmountRecord A) :
    Except LoadError (Ledgers Nat Time A) :=
  (addDayRecord (Ledgers.days amounts r.id) r.date r.amount).map (amounts.put r.id)

def addRecords (amounts : Ledgers Nat Time A) (rs : List (AmountRecord A)) :
    Except LoadError (Ledgers Nat Time A) :=
  rs.foldlM addRecord amounts

end Records

variable (F : TextFormat)

/-- A line of the accounts file. -/
def readAccountLine (line : Text) : Except String (AmountRecord Int) :=
  match splitTab line with
  | [] => .error "no id"
  | [_] => .error "no date"
  | [_, _] => .error "no amount"
  | [idStr, dateStr, amountStr] =>
    match F.strToInt idStr with
    | none => .error ("invalid id value: '" ++ String.ofList idStr ++ "'")
    | some id => do
      let date ← F.readDate dateStr
      let amount ← F.readDecimal amountStr
      return ⟨id, date, amount⟩
  | _ :: _ :: _ :: _ :: _ => .error "unexpected content after amount"

/-- A decimal that is not there is zero. -/
def readOptional (str : Text) : Except String Int :=
  if str.isEmpty then .ok 0 else F.readImpDecimal str

/-- The id, date and counts of a line of the campaigns or groups file. -/
def readAmounts (idStr dateStr amountStr impsStr clicksStr : Text) :
    Except String (AmountRecord Counts) :=
  match F.strToInt idStr with
  | none => .error ("invalid id value: '" ++ String.ofList idStr ++ "'")
  | some id => do
    let imps ← readOptional F impsStr
    let clicks ← readOptional F clicksStr
    let date ← F.readDate dateStr
    let amount ← F.readDecimal amountStr
    return ⟨id, date, ⟨amount, imps, clicks⟩⟩

/-- A line of the campaigns or groups file. Impressions and clicks may be left
out, both or neither. -/
def readAmountLine (line : Text) : Except String (AmountRecord Counts) :=
  match splitTab line with
  | [] => .error "no id"
  | [_] => .error "no date"
  | [_, _] => .error "no amount"
  | [idStr, dateStr, amountStr] => readAmounts F idStr dateStr amountStr [] []
  | [_, _, _, _] => .error "no amount"
  | [idStr, dateStr, amountStr, impsStr, clicksStr] =>
    readAmounts F idStr dateStr amountStr impsStr clicksStr
  | _ :: _ :: _ :: _ :: _ :: _ :: _ => .error "unexpected content after amount"

/-- `load_account_amounts_`. -/
def loadAccountAmounts_ (amounts : Ledgers Nat Time Int) (path : String) (file : Text) :
    Except LoadError (Ledgers Nat Time Int) :=
  readFile "BillingContainer::load_account_amounts_()" path
    (fun line amounts => throwing (readAccountLine F line) >>= addRecord amounts) file amounts

/-- `load_amounts_`. -/
def loadAmounts_ (amounts : Ledgers Nat Time Counts) (path : String) (file : Text) :
    Except LoadError (Ledgers Nat Time Counts) :=
  readFile "BillingContainer::load_amounts_()" path
    (fun line amounts => throwing (readAmountLine F line) >>= addRecord amounts) file amounts

/-- The tokens of a line. -/
def tabLine (tokens : List Text) : Text := ['\t'].intercalate tokens

def accountLine (r : AmountRecord Int) : Text :=
  tabLine [F.int r.id, F.date r.date, F.decimal r.amount]

def amountLine (r : AmountRecord Counts) : Text :=
  tabLine [F.int r.id, F.date r.date, F.decimal r.amount.amount, F.impDecimal r.amount.imps,
    F.impDecimal r.amount.clicks]

section Save

variable {A : Type} [AddCommGroup A] (line : AmountRecord A → Text)

/-- The days of a holder, a line each, and its base on the zero date, with no
line end. The holder must have a day. -/
def saveHolder (id : Nat) (days : Days Time A) : Option Text :=
  match days.entries with
  | [] => none
  | (_, first) :: _ =>
    some (days.entries.flatMap (fun day => line ⟨id, day.1, day.2.value⟩ ++ ['\n']) ++
      line ⟨id, 0, first.before⟩)

/-- The holders of a map that no writer changes, read in portions. -/
def saveLedgers (portionSize : Nat) (amounts : Ledgers Nat Time A) : Option Text := do
  let saved ← amounts.readPortions portionSize (amounts.size + 1) none
  let holders ← saved.mapM (fun holder => saveHolder line holder.1 holder.2)
  return (holders.foldl (writePiece '\n') ([], false)).1

end Save

def savePortionSize_ : Nat := 100

/-- `save_account_amounts_`. -/
def saveAccountAmounts_ (amounts : Ledgers Nat Time Int) : Option Text :=
  saveLedgers (accountLine F) savePortionSize_ amounts

/-- `save_amounts_`. -/
def saveAmounts_ (amounts : Ledgers Nat Time Counts) : Option Text :=
  saveLedgers (amountLine F) savePortionSize_ amounts

section RoundTrip

variable {F}

theorem separator_clean {c : Char} (h : isSeparator c = false) :
    (c == '\n') = false ∧ (c == '\t') = false ∧ (c == ',' || c == '|') = false ∧
      (c == ':') = false := by
  simpa [isSeparator, not_or, and_assoc] using h

theorem tabLine_clean {tokens : List Text}
    (clean : ∀ token ∈ tokens, ∀ c ∈ token, isSeparator c = false) (c : Char)
    (hc : c ∈ tabLine tokens) : (c == '\n') = false := by
  rcases mem_intercalate hc with rfl | ⟨token, htoken, hc⟩
  · decide
  · exact (separator_clean (clean token htoken c hc)).1

theorem tabLine_ne_nil (a b : Text) (rest : List Text) : tabLine (a :: b :: rest) ≠ [] := by
  rw [tabLine, intercalate_cons]
  simp

theorem splitTab_tabLine {a b : Text} {rest : List Text}
    (clean : ∀ token ∈ a :: b :: rest, ∀ c ∈ token, (c == '\t') = false) :
    splitTab (tabLine (a :: b :: rest)) = a :: b :: rest := by
  have some_text := tabLine_ne_nil a b rest
  rw [splitTab, if_neg (by simpa using some_text)]
  exact splitOnP_intercalate_clean (by decide) (by simp) clean

theorem accountTokens_clean (r : AmountRecord Int) (token : Text)
    (htoken : token ∈ [F.int r.id, F.date r.date, F.decimal r.amount]) :
    ∀ c ∈ token, isSeparator c = false := by
  simp only [List.mem_cons, List.not_mem_nil, or_false] at htoken
  rcases htoken with rfl | rfl | rfl
  · exact F.int_clean _
  · exact F.date_clean _
  · exact F.decimal_clean _

theorem amountTokens_clean (r : AmountRecord Counts) (token : Text)
    (htoken : token ∈ [F.int r.id, F.date r.date, F.decimal r.amount.amount,
      F.impDecimal r.amount.imps, F.impDecimal r.amount.clicks]) :
    ∀ c ∈ token, isSeparator c = false := by
  simp only [List.mem_cons, List.not_mem_nil, or_false] at htoken
  rcases htoken with rfl | rfl | rfl | rfl | rfl
  · exact F.int_clean _
  · exact F.date_clean _
  · exact F.decimal_clean _
  · exact F.impDecimal_clean _
  · exact F.impDecimal_clean _

theorem readAccountLine_accountLine {r : AmountRecord Int} (exact_ : F.ExactDate r.date) :
    readAccountLine F (accountLine F r) = .ok r := by
  have tokens : splitTab (accountLine F r) = [F.int r.id, F.date r.date, F.decimal r.amount] := by
    exact splitTab_tabLine fun token htoken c hc =>
      (separator_clean (accountTokens_clean r token htoken c hc)).2.1
  have date : F.readDate (F.date r.date) = .ok r.date := exact_
  simp only [readAccountLine, tokens, F.strToInt_int, date, F.readDecimal_decimal]
  rfl

theorem readAmountLine_amountLine {r : AmountRecord Counts} (exact_ : F.ExactDate r.date) :
    readAmountLine F (amountLine F r) = .ok r := by
  have tokens : splitTab (amountLine F r) = [F.int r.id, F.date r.date, F.decimal r.amount.amount,
      F.impDecimal r.amount.imps, F.impDecimal r.amount.clicks] := by
    exact splitTab_tabLine fun token htoken c hc =>
      (separator_clean (amountTokens_clean r token htoken c hc)).2.1
  have date : F.readDate (F.date r.date) = .ok r.date := exact_
  have optional (x : Int) : readOptional F (F.impDecimal x) = .ok x := by
    rw [readOptional, if_neg (by simpa using F.impDecimal_some x), F.readImpDecimal_impDecimal]
  simp only [readAmountLine, tokens, readAmounts, F.strToInt_int, optional, date,
    F.readDecimal_decimal]
  rfl

variable {A : Type} [AddCommGroup A]

/-- What is written for a holder. -/
def holderRecords (id : Nat) (days : Days Time A) : List (AmountRecord A) :=
  days.entries.map (fun day => ⟨id, day.1, day.2.value⟩) ++ [⟨id, 0, days.base⟩]

def records (amounts : Ledgers Nat Time A) : List (AmountRecord A) :=
  amounts.entries.flatMap (fun holder => holderRecords holder.1 holder.2)

/-- Every holder has a day. -/
def NonEmpty (amounts : Ledgers Nat Time A) : Prop :=
  ∀ id days, amounts.find? id = some days → days.isEmpty = false

variable {line : AmountRecord A → Text} {days : Days Time A} {portionSize : Nat}
  {amounts : Ledgers Nat Time A} {read : Text → Except String (AmountRecord A)}

section
variable (clean : ∀ r, ∀ c ∈ line r, (c == '\n') = false)
include clean

theorem saveHolder_lines (id : Nat) (some_day : days.isEmpty = false) :
    ∃ text, saveHolder line id days = some text ∧
      text.splitOnP (· == '\n') = (holderRecords id days).map line := by
  unfold saveHolder
  cases h : days.entries with
  | nil => simp [isEmpty, h] at some_day
  | cons first rest =>
    refine ⟨_, rfl, ?_⟩
    have lines : (first :: rest).flatMap (fun day => line ⟨id, day.1, day.2.value⟩ ++ ['\n']) =
        ((first :: rest).map fun day => line ⟨id, day.1, day.2.value⟩).flatMap (· ++ ['\n']) := by
      rw [List.flatMap_map]
    have base : days.base = first.2.before := by simp [Days.base, h]
    rw [lines, splitOnP_terminated (by decide) ?_ (clean _), holderRecords, h, base]
    · simp
    · intro l hl
      obtain ⟨day, -, rfl⟩ := List.mem_map.1 hl
      exact clean _

theorem mapM_saveHolder {holders : List (Nat × Days Time A)}
    (some_day : ∀ holder ∈ holders, holder.2.isEmpty = false) :
    ∃ texts, holders.mapM (fun holder => saveHolder line holder.1 holder.2) = some texts ∧
      texts.length = holders.length ∧
      texts.flatMap (List.splitOnP (· == '\n')) =
        (holders.flatMap fun holder => holderRecords holder.1 holder.2).map line := by
  induction holders with
  | nil => exact ⟨[], rfl, rfl, rfl⟩
  | cons holder rest ih =>
    obtain ⟨text, saved, split⟩ := saveHolder_lines clean holder.1 (some_day holder (by simp))
    obtain ⟨texts, saved', length, split'⟩ := ih fun h hh => some_day h (by simp [hh])
    refine ⟨text :: texts, ?_, by simp [length], ?_⟩
    · simp [List.mapM_cons, saved, saved']
    · rw [List.flatMap_cons, split, split', List.flatMap_cons, List.map_append]

/-- The lines of the saved file are those of the records. -/
theorem saveLedgers_lines (full : ∀ r, line r ≠ []) (pos : 0 < portionSize)
    (some_day : NonEmpty amounts) :
    ∃ file, saveLedgers line portionSize amounts = some file ∧
      if file.isEmpty then records amounts = []
      else file.splitOnP (· == '\n') = (records amounts).map line := by
  have holders (holder : Nat × Days Time A) (h : holder ∈ amounts.entries) :
      holder.2.isEmpty = false := some_day holder.1 holder.2 (find?_eq_some.2 h)
  obtain ⟨texts, saved, length, split⟩ := mapM_saveHolder clean holders
  refine ⟨['\n'].intercalate texts, ?_, ?_⟩
  · simp [saveLedgers, readPortions_eq amounts pos, saved, writePieces_eq]
  · change _ = (records amounts).map line at split
    cases texts with
    | nil =>
      have no_holder : amounts.entries = [] := List.length_eq_zero_iff.1 length.symm
      simp [records, no_holder]
    | cons text texts =>
      have joined : (['\n'].intercalate (text :: texts)).splitOnP (· == '\n') =
          (text :: texts).flatMap (List.splitOnP (· == '\n')) :=
        splitOnP_intercalate (by decide) (List.cons_ne_nil text texts)
      rw [split] at joined
      by_cases empty : (['\n'].intercalate (text :: texts)).isEmpty
      · -- an empty file has one empty line, and no record's line is empty
        rw [List.isEmpty_iff.1 empty, List.splitOnP_nil] at joined
        have mem : ([] : Text) ∈ (records amounts).map line := by simp [← joined]
        obtain ⟨r, -, none_written⟩ := List.mem_map.1 mem
        exact absurd none_written (full r)
      · rw [if_neg empty, joined]

end

theorem foldlM_read {rs : List (AmountRecord A)} (inverse : ∀ r ∈ rs, read (line r) = .ok r)
    (amounts : Ledgers Nat Time A) :
    rs.foldlM (fun amounts r => throwing (read (line r)) >>= addRecord amounts) amounts =
      addRecords amounts rs := by
  unfold addRecords
  induction rs generalizing amounts with
  | nil => rfl
  | cons r rest ih =>
    rw [List.foldlM_cons, List.foldlM_cons, inverse r (by simp)]
    simp only [throwing, bind, Except.bind]
    cases addRecord amounts r with
    | error e => rfl
    | ok next => exact ih (fun q hq => inverse q (by simp [hq])) next

/-- Loading a saved file adds its records one by one. -/
theorem readFile_saveLedgers (clean : ∀ r, ∀ c ∈ line r, (c == '\n') = false)
    (full : ∀ r, line r ≠ []) (pos : 0 < portionSize) {amounts loaded : Ledgers Nat Time A}
    (some_day : NonEmpty amounts) (inverse : ∀ r ∈ records amounts, read (line r) = .ok r)
    (added : addRecords empty (records amounts) = .ok loaded) (FUN path : String) :
    ∃ file, saveLedgers line portionSize amounts = some file ∧
      readFile FUN path (fun line amounts => throwing (read line) >>= addRecord amounts) file
        empty = .ok loaded := by
  obtain ⟨file, saved, lines⟩ := saveLedgers_lines clean full pos some_day
  refine ⟨file, saved, ?_⟩
  unfold readFile
  by_cases empty : file.isEmpty
  · rw [if_pos empty] at lines ⊢
    rw [lines] at added
    exact added
  · rw [if_neg empty] at lines ⊢
    rw [lines]
    refine readLines_ok (fun l hl => ?_) ?_
    · obtain ⟨r, -, rfl⟩ := List.mem_map.1 hl
      exact full r
    · rw [List.foldlM_map, foldlM_read inverse]
      exact added

/-- The records of one holder, added to a new one. -/
def reloadDays (days : Days Time A) : Except LoadError (Days Time A) := do
  let added ← days.entries.foldlM (fun added day => addDayRecord added day.1 day.2.value)
    SortedMap.empty
  addDayRecord added 0 days.base

theorem addRecords_same (acc : Ledgers Nat Time A) (id : Nat) (days : Days Time A)
    (l : List (Time × A)) :
    addRecords (acc.put id days) (l.map fun day => ⟨id, day.1, day.2⟩) =
      (l.foldlM (fun added day => addDayRecord added day.1 day.2) days).map (acc.put id) := by
  unfold addRecords
  induction l generalizing days with
  | nil => rfl
  | cons day rest ih =>
    rw [List.map_cons, List.foldlM_cons, List.foldlM_cons]
    simp only [addRecord, Ledgers.days_put]
    cases addDayRecord days day.1 day.2 with
    | error e => rfl
    | ok next =>
      simp only [Except.map, bind, Except.bind, put_put]
      exact ih next

theorem addRecords_holder {acc : Ledgers Nat Time A} {id : Nat} (fresh : acc.find? id = none)
    (days : Days Time A) :
    addRecords acc (holderRecords id days) = (reloadDays days).map (acc.put id) := by
  have listed : holderRecords id days =
      ((days.entries.map fun day : Time × Day A => (day.1, day.2.value)) ++ [(0, days.base)]).map
        fun day : Time × A => (⟨id, day.1, day.2⟩ : AmountRecord A) := by
    simp [holderRecords]
  have start (l : List (Time × A)) (some_record : l ≠ []) :
      addRecords acc (l.map fun day => ⟨id, day.1, day.2⟩) =
        addRecords (acc.put id empty) (l.map fun day => ⟨id, day.1, day.2⟩) := by
    cases l with
    | nil => exact absurd rfl some_record
    | cons day rest =>
      have same : addRecord acc ⟨id, day.1, day.2⟩ =
          addRecord (acc.put id empty) ⟨id, day.1, day.2⟩ := by
        simp only [addRecord, Ledgers.days_put]
        have empty : Ledgers.days acc id = empty := by simp [Ledgers.days, fresh]
        rw [empty]
        refine congrArg (fun f => Except.map f _) (funext fun next => ?_)
        exact (put_put acc id _ next).symm
      simp only [addRecords, List.map_cons, List.foldlM_cons, same]
  rw [listed, start _ (by simp), addRecords_same, reloadDays, List.foldlM_append,
    List.foldlM_map]
  simp

/-- A chained holder with a day, and none on the zero date, is read back. -/
theorem reloadDays_chained (chained : days.Chained) (some_day : days.isEmpty = false)
    (no_zero : (0 : Time) ∉ days.keys) : reloadDays days = .ok days := by
  have added (l : List (Time × Day A)) (dates : ∀ day ∈ l, day.1 ≠ 0) (start : Days Time A) :
      l.foldlM (fun added day => addDayRecord added day.1 day.2.value) start =
        (.ok (l.foldl (fun added day => added.addAmount day.1 day.2.value) start) :
          Except LoadError (Days Time A)) := by
    induction l generalizing start with
    | nil => rfl
    | cons day rest ih =>
      rw [List.foldlM_cons, addDayRecord, if_neg (dates day (by simp))]
      exact ih (fun d hd => dates d (by simp [hd])) _
  have nonzero (day : Time × Day A) (h : day ∈ days.entries) : day.1 ≠ 0 := by
    intro zero
    exact no_zero (zero ▸ List.mem_map_of_mem h)
  have readded : days.entries.foldl (fun (added : Days Time A) day => added.addAmount day.1 day.2.value)
      empty = Days.readd days.entries := rfl
  have has_day : (Days.readd days.entries).isEmpty = false := by
    have entries := Days.entries_readd chained
    cases h : days.entries with
    | nil => simp [isEmpty, h] at some_day
    | cons day rest =>
      rw [h] at entries
      simp [isEmpty, entries]
  rw [reloadDays, added _ nonzero, readded]
  simp only [bind, Except.bind, addDayRecord, if_true, has_day, Bool.false_eq_true, if_false,
    Days.readd_eq chained]

/-- Every holder is chained and has a day, and none is on the zero date. -/
structure Storable (amounts : Ledgers Nat Time A) : Prop where
  some_day : NonEmpty amounts
  chained : ∀ id days, amounts.find? id = some days → days.Chained
  no_zero : ∀ id days, amounts.find? id = some days → (0 : Time) ∉ days.keys

theorem addRecords_records (storable : Storable amounts) :
    addRecords empty (records amounts) = .ok amounts := by
  have step (l : List (Nat × Days Time A)) (nodup : (l.map Prod.fst).Nodup)
      (acc : Ledgers Nat Time A) (fresh : ∀ holder ∈ l, acc.find? holder.1 = none)
      (reloads : ∀ holder ∈ l, reloadDays holder.2 = .ok holder.2) :
      addRecords acc (l.flatMap fun holder => holderRecords holder.1 holder.2) =
        .ok (l.foldl (fun acc holder => acc.put holder.1 holder.2) acc) := by
    induction l generalizing acc with
    | nil => rfl
    | cons holder rest ih =>
      obtain ⟨new, nodup'⟩ := List.nodup_cons.1 nodup
      have first := addRecords_holder (fresh holder (by simp)) holder.2
      rw [reloads holder (by simp)] at first
      have later := ih nodup' (acc.put holder.1 holder.2) (fun next hnext => by
        have other : next.1 ≠ holder.1 := fun same => new (List.mem_map.2 ⟨next, hnext, same⟩)
        rw [find?_put, if_neg other]
        exact fresh next (by simp [hnext])) (fun next hnext => reloads next (by simp [hnext]))
      unfold addRecords at first later ⊢
      rw [List.flatMap_cons, List.foldlM_append, first]
      exact later
  rw [records, step _ amounts.keys_nodup _ (fun _ _ => rfl) (fun holder hholder => ?_),
    foldl_put_entries]
  have found := find?_eq_some.2 hholder
  exact reloadDays_chained (storable.chained _ _ found) (storable.some_day _ _ found)
    (storable.no_zero _ _ found)

end RoundTrip

end AdServer.Billing
