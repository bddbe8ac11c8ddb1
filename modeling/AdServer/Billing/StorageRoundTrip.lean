import AdServer.Billing.RateOptStorage
import AdServer.Billing.RateStorage

/-!
# The storage round trip

`BillingContainer::dump_storage_` and `load_storage_` over all five files, with no
writer running.
-/

namespace AdServer.Billing

open AdServer.Lib SortedMap

/-- `BillingContainerState` with the maps of rates. -/
structure StoredState where
  amounts : BillingContainerState
  ccgRateAmounts : RateAmountMap
  campaignRateOpts : RateOptimizationMap

/-- The files of the storage folder, those that are there. -/
structure StorageFiles where
  accounts : Option Text
  campaigns : Option Text
  ccgs : Option Text
  ccgRateAmounts : Option Text
  campaignRateOpts : Option Text

variable (F : TextFormat)

/-- `dump_storage_`. -/
def dumpStorage_ (state : StoredState) : Option StorageFiles := do
  let accounts ← saveAccountAmounts_ F state.amounts.accounts
  let campaigns ← saveAmounts_ F state.amounts.campaigns
  let ccgs ← saveAmounts_ F state.amounts.ccgs
  let ccgRateAmounts ← saveCcgRates_ F state.ccgRateAmounts
  let campaignRateOpts ← saveRateOpts_ F state.campaignRateOpts
  return ⟨some accounts, some campaigns, some ccgs, some ccgRateAmounts, some campaignRateOpts⟩

/-- A file that must be there. -/
def openFile {S : Type} (FUN path : String) (file : Option Text)
    (load : Text → Except LoadError S) : Except LoadError S :=
  match file with
  | some file => load file
  | none => .error (.exception (FUN ++ ": can't open file '" ++ path ++ "'"))

/-- `load_storage_`. The files of rates may be missing. -/
def loadStorage_ (path : String) (files : StorageFiles) : Except LoadError StoredState := do
  let accounts ← openFile "BillingContainer::load_account_amounts_()" (path ++ "/Accounts")
    files.accounts (loadAccountAmounts_ F SortedMap.empty (path ++ "/Accounts"))
  let campaigns ← openFile "BillingContainer::load_amounts_()" (path ++ "/Campaigns")
    files.campaigns (loadAmounts_ F SortedMap.empty (path ++ "/Campaigns"))
  let ccgs ← openFile "BillingContainer::load_amounts_()" (path ++ "/Ccgs")
    files.ccgs (loadAmounts_ F SortedMap.empty (path ++ "/Ccgs"))
  let ccgRateAmounts ← match files.ccgRateAmounts with
    | some file => loadRates_ F SortedMap.empty (path ++ "/CcgRateAmounts") file
    | none => .ok SortedMap.empty
  let campaignRateOpts ← match files.campaignRateOpts with
    | some file => loadRateOpts_ F SortedMap.empty (path ++ "/CampaignRateOpts") file
    | none => .ok SortedMap.empty
  return ⟨⟨accounts, campaigns, ccgs⟩, ccgRateAmounts, campaignRateOpts⟩

/-- The dates of the holders are exact in the format. -/
def ExactDates {A : Type} (amounts : Ledgers Nat Time A) : Prop :=
  ∀ id days, amounts.find? id = some days → ∀ d ∈ days.keys, F.ExactDate d

/-- Every holder has a day and is chained, and every date is exact. -/
structure KeptAmounts {A : Type} [AddCommGroup A] (amounts : Ledgers Nat Time A) : Prop where
  some_day : NonEmpty amounts
  chained : ∀ id days, amounts.find? id = some days → days.Chained
  dates : ExactDates F amounts

/-- No holder has a day on the zero date. -/
def NoZeroDate {A : Type} (amounts : Ledgers Nat Time A) : Prop :=
  ∀ id days, amounts.find? id = some days → (0 : Time) ∉ days.keys

/-- A state whose holders are not empty and chained, and whose rates were in use
for whole seconds of an hour. -/
structure KeptState (state : StoredState) : Prop where
  accounts : KeptAmounts F state.amounts.accounts
  campaigns : KeptAmounts F state.amounts.campaigns
  ccgs : KeptAmounts F state.amounts.ccgs
  rates : StorableRates F state.ccgRateAmounts
  rateOpts : ∀ id dates, state.campaignRateOpts.find? id = some dates →
    ∀ d ∈ dates.keys, F.ExactDate d

/-- The state without the hours and dates of the rates that have nothing. -/
def dropUnusedState (state : StoredState) : StoredState :=
  { state with
    ccgRateAmounts := dropUnusedRates state.ccgRateAmounts
    campaignRateOpts := dropEmptyDates state.campaignRateOpts }

variable {F}

theorem records_dates {A : Type} [AddCommGroup A] {amounts : Ledgers Nat Time A}
    (exact_ : ExactDates F amounts) (r : AmountRecord A) (h : r ∈ records amounts) :
    F.ExactDate r.date := by
  obtain ⟨holder, hholder, h⟩ := List.mem_flatMap.1 h
  rcases List.mem_append.1 h with h | h
  · obtain ⟨day, hday, rfl⟩ := List.mem_map.1 h
    exact exact_ holder.1 holder.2 (find?_eq_some.2 hholder) day.1
      (List.mem_map_of_mem hday)
  · rw [List.mem_singleton.1 h]
    exact F.readDate_zero

theorem KeptAmounts.storable {A : Type} [AddCommGroup A] {amounts : Ledgers Nat Time A}
    (h : KeptAmounts F amounts) (no_zero : NoZeroDate amounts) : Storable amounts :=
  ⟨h.some_day, h.chained, no_zero⟩

theorem loadAccountAmounts_save {amounts : Ledgers Nat Time Int} (h : KeptAmounts F amounts)
    (no_zero : NoZeroDate amounts) (path : String) :
    ∃ file, saveAccountAmounts_ F amounts = some file ∧
      loadAccountAmounts_ F empty path file = .ok amounts :=
  readFile_saveLedgers (fun r => tabLine_clean (accountTokens_clean r))
    (fun _ => tabLine_ne_nil _ _ _) (by decide) h.some_day
    (fun r hr => readAccountLine_accountLine (records_dates h.dates r hr))
    (addRecords_records (h.storable no_zero)) _ _

theorem loadAmounts_save {amounts : Ledgers Nat Time Counts} (h : KeptAmounts F amounts)
    (no_zero : NoZeroDate amounts) (path : String) :
    ∃ file, saveAmounts_ F amounts = some file ∧
      loadAmounts_ F empty path file = .ok amounts :=
  readFile_saveLedgers (fun r => tabLine_clean (amountTokens_clean r))
    (fun _ => tabLine_ne_nil _ _ _) (by decide) h.some_day
    (fun r hr => readAmountLine_amountLine (records_dates h.dates r hr))
    (addRecords_records (h.storable no_zero)) _ _

variable (F)

/-- What is dumped is loaded: the amounts as they were, the rates without the
hours and dates that have nothing. -/
theorem loadStorage_dumpStorage (state : StoredState) (kept : KeptState F state)
    (accounts_dates : NoZeroDate state.amounts.accounts)
    (campaigns_dates : NoZeroDate state.amounts.campaigns)
    (ccgs_dates : NoZeroDate state.amounts.ccgs) (path : String) :
    ∃ files, dumpStorage_ F state = some files ∧
      loadStorage_ F path files = .ok (dropUnusedState state) := by
  obtain ⟨accounts, saved_a, loaded_a⟩ :=
    loadAccountAmounts_save kept.accounts accounts_dates (path ++ "/Accounts")
  obtain ⟨campaigns, saved_c, loaded_c⟩ :=
    loadAmounts_save kept.campaigns campaigns_dates (path ++ "/Campaigns")
  obtain ⟨ccgs, saved_g, loaded_g⟩ := loadAmounts_save kept.ccgs ccgs_dates (path ++ "/Ccgs")
  obtain ⟨rates, saved_r, loaded_r⟩ :=
    loadRates_saveCcgRates kept.rates (path ++ "/CcgRateAmounts")
  obtain ⟨opts, saved_o, loaded_o⟩ :=
    loadRateOpts_saveRateOpts kept.rateOpts (path ++ "/CampaignRateOpts")
  refine ⟨⟨some accounts, some campaigns, some ccgs, some rates, some opts⟩, ?_, ?_⟩
  · simp [dumpStorage_, saved_a, saved_c, saved_g, saved_r, saved_o]
  · simp only [loadStorage_, openFile, loaded_a, loaded_c, loaded_g, loaded_r, loaded_o, bind,
      Except.bind]
    rfl

section Example

def natText (n : Nat) : Text := Nat.toDigits 10 n

def textNat (text : Text) : Nat := Nat.ofDigitChars 10 text 0

def signText (x : Int) : Text := if x < 0 then ['-'] else []

def intText (x : Int) : Text := signText x ++ natText x.natAbs

/-- A whole part and eight digits after the point. -/
def decimalText (x : Int) : Text :=
  signText x ++ (natText (x.natAbs / 100000000) ++ '.' ::
    (List.replicate (8 - (natText (x.natAbs % 100000000)).length) '0' ++
      natText (x.natAbs % 100000000)))

def readUnsigned (text : Text) : Except String Int :=
  match text.splitOnP (· == '.') with
  | [whole, part] => .ok (textNat whole * 100000000 + textNat part)
  | _ => .error "not a decimal"

def readDecimalText (text : Text) : Except String Int :=
  match text with
  | '-' :: rest => (readUnsigned rest).map (-·)
  | _ => readUnsigned text

/-- Year, month and day of the days since the epoch. -/
def civil (days : Int) : Int × Int × Int :=
  let z := days + 719468
  let era := z / 146097
  let doe := z - era * 146097
  let yoe := (doe - doe / 1460 + doe / 36524 - doe / 146096) / 365
  let doy := doe - (365 * yoe + yoe / 4 - yoe / 100)
  let mp := (5 * doy + 2) / 153
  let month := if mp < 10 then mp + 3 else mp - 9
  (yoe + era * 400 + if month ≤ 2 then 1 else 0, month, doy - (153 * mp + 2) / 5 + 1)

def daysOfCivil (year month day : Int) : Int :=
  let y := if month ≤ 2 then year - 1 else year
  let era := y / 400
  let yoe := y - era * 400
  let doy := (153 * (if month > 2 then month - 3 else month + 9) + 2) / 5 + day - 1
  era * 146097 + (yoe * 365 + yoe / 4 - yoe / 100 + doy) - 719468

def twoDigits (n : Int) : Text :=
  (if n < 10 then ['0'] else []) ++ natText n.natAbs

/-- `%F` from the first year of four digits on. -/
def dateText (d : Time) : Text :=
  let (year, month, day) := civil (d / oneDay)
  natText year.natAbs ++ '-' :: (twoDigits month ++ '-' :: twoDigits day)

def readDateText (text : Text) : Except String Time :=
  match text.splitOnP (· == '-') with
  | [year, month, day] =>
    .ok (daysOfCivil (textNat year) (textNat month) (textNat day) * oneDay)
  | _ => .error "not a date"

theorem natText_digits {n : Nat} {c : Char} (hc : c ∈ natText n) : c.isDigit :=
  Nat.isDigit_of_mem_toDigits (by decide) (by decide) hc

theorem isDigit_clean {c : Char} (h : c.isDigit) : isSeparator c = false ∧ (c == '.') = false ∧
    c ≠ '-' := by
  have other (d : Char) (hd : d.isDigit = false) : (c == d) = false := by
    rw [beq_eq_false_iff_ne]
    rintro rfl
    simp [h] at hd
  refine ⟨?_, other '.' (by decide), fun same => ?_⟩
  · simp [isSeparator, other '\n' (by decide), other '\t' (by decide), other ',' (by decide),
      other '|' (by decide), other ':' (by decide)]
  · simp [same] at h

theorem textNat_natText (n : Nat) : textNat (natText n) = n := Nat.ofDigitChars_ten_toDigits

theorem signText_clean (x : Int) (c : Char) (hc : c ∈ signText x) : isSeparator c = false := by
  unfold signText at hc
  split at hc
  · rw [List.mem_singleton.1 hc]
    decide
  · cases hc

theorem decimalText_clean (x : Int) (c : Char) (hc : c ∈ decimalText x) :
    isSeparator c = false := by
  simp only [decimalText, List.mem_append, List.mem_cons] at hc
  rcases hc with hc | hc | rfl | hc | hc
  · exact signText_clean x c hc
  · exact (isDigit_clean (natText_digits hc)).1
  · decide
  · rw [List.eq_of_mem_replicate hc]
    decide
  · exact (isDigit_clean (natText_digits hc)).1

theorem readUnsigned_text (n : Nat) :
    readUnsigned (natText (n / 100000000) ++ '.' ::
      (List.replicate (8 - (natText (n % 100000000)).length) '0' ++ natText (n % 100000000))) =
      .ok n := by
  have part : textNat (List.replicate (8 - (natText (n % 100000000)).length) '0' ++
      natText (n % 100000000)) = n % 100000000 := by
    rw [textNat, Nat.ofDigitChars_append, Nat.ofDigitChars_replicate_zero, Nat.mul_zero]
    exact textNat_natText _
  have no_point (c : Char) (hc : c ∈ List.replicate (8 - (natText (n % 100000000)).length) '0' ++
      natText (n % 100000000)) : (c == '.') = false := by
    rcases List.mem_append.1 hc with hc | hc
    · rw [List.eq_of_mem_replicate hc]
      decide
    · exact (isDigit_clean (natText_digits hc)).2.1
  rw [readUnsigned, List.splitOnP_append_cons_of_forall_mem
    (fun c hc => (isDigit_clean (natText_digits hc)).2.1) _ (by decide),
    List.splitOnP_eq_singleton no_point]
  simp only [textNat_natText, part]
  congr 1
  omega

theorem readDecimalText_decimalText (x : Int) : readDecimalText (decimalText x) = .ok x := by
  have read := readUnsigned_text x.natAbs
  by_cases negative : x < 0
  · rw [decimalText, signText, if_pos negative, List.singleton_append]
    simp only [readDecimalText, read, Except.map]
    congr 1
    omega
  · rw [decimalText, signText, if_neg negative, List.nil_append]
    have start : readDecimalText (natText (x.natAbs / 100000000) ++ '.' ::
        (List.replicate (8 - (natText (x.natAbs % 100000000)).length) '0' ++
          natText (x.natAbs % 100000000))) =
        readUnsigned (natText (x.natAbs / 100000000) ++ '.' ::
          (List.replicate (8 - (natText (x.natAbs % 100000000)).length) '0' ++
            natText (x.natAbs % 100000000))) := by
      unfold readDecimalText
      split
      · rename_i rest same
        cases whole : natText (x.natAbs / 100000000) with
        | nil => simp [whole] at same
        | cons c cs =>
          have digit := (isDigit_clean (natText_digits (n := x.natAbs / 100000000) (c := c)
            (by simp [whole]))).2.2
          rw [whole, List.cons_append, List.cons.injEq] at same
          exact absurd same.1 digit
      · rfl
    rw [start, read]
    congr 1
    omega

theorem twoDigits_clean (n : Int) (c : Char) (hc : c ∈ twoDigits n) : isSeparator c = false := by
  rcases List.mem_append.1 hc with hc | hc
  · split at hc
    · rw [List.mem_singleton.1 hc]
      decide
    · cases hc
  · exact (isDigit_clean (natText_digits hc)).1

/-- Plain decimal text. -/
def plainText : TextFormat where
  int := intText
  decimal := decimalText
  impDecimal := decimalText
  date := dateText
  strToInt := fun text =>
    if text.all Char.isDigit && !text.isEmpty then some (textNat text) else none
  readDecimal := readDecimalText
  readImpDecimal := readDecimalText
  readDate := readDateText
  strToInt_int := by
    intro n
    have digits : intText n = natText n := by simp [intText, signText]
    have all : (natText n).all Char.isDigit = true :=
      List.all_eq_true.2 fun c hc => natText_digits hc
    have some_digit : (natText n).isEmpty = false := by
      cases h : natText n with
      | nil =>
        have zero := textNat_natText n
        rw [h] at zero
        obtain rfl : 0 = n := zero
        revert h
        decide
      | cons c cs => rfl
    simp [digits, all, some_digit, textNat_natText]
  readDecimal_decimal := readDecimalText_decimalText
  readImpDecimal_impDecimal := readDecimalText_decimalText
  readDate_zero := by decide +kernel
  int_clean := by
    intro n c hc
    rcases List.mem_append.1 hc with hc | hc
    · exact signText_clean n c hc
    · exact (isDigit_clean (natText_digits hc)).1
  decimal_clean := decimalText_clean
  impDecimal_clean := decimalText_clean
  date_clean := by
    intro d c hc
    simp only [dateText, List.mem_append, List.mem_cons] at hc
    rcases hc with hc | rfl | hc | rfl | hc
    · exact (isDigit_clean (natText_digits hc)).1
    · decide
    · exact twoDigits_clean _ c hc
    · decide
    · exact twoDigits_clean _ c hc
  impDecimal_some := by
    intro x
    simp [decimalText]

instance (F : TextFormat) (d : Time) : Decidable (F.ExactDate d) :=
  inferInstanceAs (Decidable (_ = _))

theorem forall_found {K V : Type} [LinearOrder K] {m : SortedMap K V} {p : K → V → Prop}
    (h : ∀ e ∈ m.entries, p e.1 e.2) : ∀ k v, m.find? k = some v → p k v :=
  fun k v found => h (k, v) (find?_eq_some.1 found)

/-- One impression in the fourth hour, for a minute. -/
def fourthHour : HourActivityDistribution :=
  (Vector.replicate 24 .empty).set 3 ⟨100000000, 0, 60 * oneSecond⟩

/-- An account with a base, a group with one hour of one rate and a campaign with
one least rate. -/
def smallState : StoredState where
  amounts :=
    { accounts := SortedMap.empty.put 1
        ((SortedMap.empty.put oneDay ⟨100, 5⟩).put (3 * oneDay) ⟨105, -3⟩)
      campaigns := SortedMap.empty.put 2 (SortedMap.empty.put oneDay ⟨⟨0, 0, 0⟩, ⟨5, 1, 0⟩⟩)
      ccgs := SortedMap.empty }
  ccgRateAmounts := SortedMap.empty.put (toLex (2, 3))
    (SortedMap.empty.put oneDay ⟨SortedMap.empty, SortedMap.empty.put 7 fourthHour⟩)
  campaignRateOpts := SortedMap.empty.put 2
    (SortedMap.empty.put oneDay (noMinRates.set 0 9))

theorem fourthHour_useTimes : UseTimesOk fourthHour := by
  intro hour
  by_cases fourth : (3 : Nat) = hour
  · exact ⟨60, by decide, by simp [fourthHour, ← fourth]⟩
  · refine ⟨0, by decide, ?_⟩
    have other : fourthHour[hour] = .empty := by
      simp [fourthHour, fourth]
    rw [other]
    rfl

theorem smallState_kept : KeptState plainText smallState where
  accounts := ⟨forall_found (by decide +kernel), forall_found (by decide +kernel),
    forall_found (by decide +kernel)⟩
  campaigns := ⟨forall_found (by decide +kernel), forall_found (by decide +kernel),
    forall_found (by decide +kernel)⟩
  ccgs := ⟨forall_found (by decide +kernel), forall_found (by decide +kernel),
    forall_found (by decide +kernel)⟩
  rates := by
    refine ⟨forall_found (by decide +kernel), forall_found ?_⟩
    intro e he
    obtain rfl := List.mem_singleton.1 he
    refine forall_found fun d hd => ?_
    obtain rfl := List.mem_singleton.1 hd
    refine ⟨fun _ _ found => by simp at found, forall_found fun rate hrate => ?_⟩
    obtain rfl := List.mem_singleton.1 hrate
    exact fourthHour_useTimes
  rateOpts := forall_found (by decide +kernel)

theorem smallState_round_trip :
    ∃ files, dumpStorage_ plainText smallState = some files ∧
      loadStorage_ plainText "" files = .ok (dropUnusedState smallState) :=
  loadStorage_dumpStorage plainText smallState smallState_kept (forall_found (by decide +kernel))
    (forall_found (by decide +kernel)) (forall_found (by decide +kernel)) ""

/-- An account whose only day is on the zero date. -/
def zeroDated : StoredState :=
  ⟨⟨SortedMap.empty.put 1 (SortedMap.empty.put 0 ⟨0, 5⟩), SortedMap.empty, SortedMap.empty⟩,
    SortedMap.empty, SortedMap.empty⟩

/-- The line of a day on the zero date is taken for the base of a holder that has
no day yet. -/
theorem zero_date_not_loaded :
    ¬ ∀ (F : TextFormat) (state : StoredState) (path : String), KeptState F state →
      ∃ files, dumpStorage_ F state = some files ∧
        loadStorage_ F path files = .ok (dropUnusedState state) := by
  intro always
  have kept : KeptState plainText zeroDated :=
    ⟨⟨forall_found (by decide +kernel), forall_found (by decide +kernel),
        forall_found (by decide +kernel)⟩,
      ⟨forall_found (by decide), forall_found (by decide), forall_found (by decide)⟩,
      ⟨forall_found (by decide), forall_found (by decide), forall_found (by decide)⟩,
      ⟨forall_found (by decide), fun _ _ found => by simp [zeroDated] at found⟩,
      forall_found (by decide)⟩
  obtain ⟨files, dumped, loaded⟩ := always plainText zeroDated "" kept
  have stopped : (dumpStorage_ plainText zeroDated).map
      (fun files => (loadStorage_ plainText "" files).toOption.isSome) = some false := by
    decide +kernel
  rw [dumped, Option.map_some, loaded] at stopped
  simp [Except.toOption] at stopped

end Example

end AdServer.Billing
