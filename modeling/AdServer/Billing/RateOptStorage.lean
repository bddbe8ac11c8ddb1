import AdServer.Billing.DatedStorage

/-!
# The stored least rates

`BillingContainer::save_rate_opts_` and `load_rate_opts_`: for each campaign and
date the least rate of every hour.
-/

namespace AdServer.Billing

open AdServer.Lib

variable {F : TextFormat}

/-- `HourRateDistribution`: a least rate for each hour. -/
abbrev MinRates := Vector Int 24

def noMinRates : MinRates := Vector.replicate 24 0

/-- `DateHolder::empty`. -/
def minRatesEmpty (v : MinRates) : Bool := hours.all fun hour => decide (v.get hour = 0)

/-- `RateOptimizationMap`. -/
abbrev RateOptimizationMap := SortedMap Nat (SortedMap Time MinRates)

def saveRateOptsPortionSize_ : Nat := 10

variable (F) in
/-- `DateHolder::save`. -/
def saveMinRates (v : MinRates) : Text :=
  (v.toList.foldl (fun out rate => writePiece ',' out (F.decimal rate)) ([], false)).1

variable (F) in
/-- `DateHolder::load` from hour `i` on. A rate past the last hour would be written
past the vector. -/
def loadMinRates : Nat → List Text → MinRates → Except String MinRates
  | _, [], v => .ok v
  | i, token :: rest, v =>
    match F.readDecimal token with
    | .ok rate => loadMinRates (i + 1) rest (v.setIfInBounds i rate)
    | .error _ => .error (invalid "min rate value" token)

variable (F) in
def rateOptLine (e : Nat × Time × MinRates) : Text :=
  tabLine [F.int e.1, F.date e.2.1, saveMinRates F e.2.2]

variable (F) in
/-- `save_rate_opts_`. -/
def saveRateOpts_ (rateOpts : RateOptimizationMap) : Option Text :=
  saveDates (rateOptLine F) minRatesEmpty saveRateOptsPortionSize_ rateOpts

variable (F) in
/-- The campaign, the date and the text of the rates in a line. -/
def readRateOptLine (line : Text) : Except String (Nat × Time × List Text) :=
  match splitTab line with
  | [] => .error "no campaign_id"
  | [_] => .error "no date"
  | [_, _] => .error "no min rates"
  | [campaignIdStr, dateStr, minRatesStr] =>
    match F.strToInt campaignIdStr with
    | none => .error (invalid "campaign_id value:" campaignIdStr)
    | some campaignId => do
      let date ← F.readDate dateStr
      return (campaignId, date, minRatesStr.splitOnP isListSep)
  | _ :: _ :: _ :: _ :: _ => .error "unexpected content after min rates"

variable (F) in
/-- The rates of a line loaded into the holder of their campaign and date. -/
def loadRateOpt (rateOpts : RateOptimizationMap) (e : Nat × Time × List Text) :
    Except String RateOptimizationMap :=
  let dates := SortedMap.inner rateOpts e.1
  (loadMinRates F 0 e.2.2 ((dates.find? e.2.1).getD noMinRates)).map fun loaded =>
    rateOpts.put e.1 (dates.put e.2.1 loaded)

variable (F) in
/-- `load_rate_opts_`, whose exceptions name `load_rates_`. -/
def loadRateOpts_ (rateOpts : RateOptimizationMap) (path : String) (file : Text) :
    Except LoadError RateOptimizationMap :=
  readFile "BillingContainer::load_rates_()" path
    (fun line rateOpts => throwing (readRateOptLine F line >>= loadRateOpt F rateOpts)) file rateOpts

/-- The least rates without the dates that have none. -/
def dropEmptyDates (rateOpts : RateOptimizationMap) : RateOptimizationMap :=
  rateOpts.filterMap₂ fun v => if minRatesEmpty v then none else some v

theorem saveMinRates_eq (v : MinRates) :
    saveMinRates F v = [','].intercalate (v.toList.map F.decimal) := by
  have pieces := writePieces_eq ',' (v.toList.map F.decimal)
  rw [List.foldl_map] at pieces
  rw [saveMinRates, pieces]

theorem splitOnP_saveMinRates (v : MinRates) :
    (saveMinRates F v).splitOnP isListSep = v.toList.map F.decimal := by
  rw [saveMinRates_eq]
  have some_rate : v.toList.map F.decimal ≠ [] := by
    intro nothing
    have length := congrArg List.length nothing
    simp at length
  refine splitOnP_intercalate_clean (by decide) some_rate fun token htoken c hc => ?_
  obtain ⟨rate, -, rfl⟩ := List.mem_map.1 htoken
  exact (separator_clean (F.decimal_clean _ c hc)).2.2.1

theorem loadMinRates_decimal (l : List Int) (i : Nat) (v : MinRates) :
    ∃ v', loadMinRates F i (l.map F.decimal) v = .ok v' ∧
      ∀ k, (hk : k < 24) → v'[k] = if h : i ≤ k ∧ k - i < l.length then l[k - i] else v[k] := by
  induction l generalizing i v with
  | nil => exact ⟨v, rfl, fun k hk => by simp⟩
  | cons rate rest ih =>
    obtain ⟨v', loaded, at_k⟩ := ih (i + 1) (v.setIfInBounds i rate)
    refine ⟨v', ?_, fun k hk => ?_⟩
    · simp only [List.map_cons, loadMinRates, F.readDecimal_decimal, loaded]
    · rw [at_k k hk]
      by_cases here : k = i
      · subst here
        simp
      · by_cases after : i < k
        · have shifted : k - i = (k - (i + 1)) + 1 := by omega
          by_cases listed : k - (i + 1) < rest.length
          · rw [dif_pos ⟨by omega, listed⟩, dif_pos ⟨by omega, by simp; omega⟩]
            simp [shifted]
          · rw [dif_neg (by omega), dif_neg (by simp; omega)]
            simp [Ne.symm here]
        · rw [dif_neg (by omega), dif_neg (by omega)]
          simp [Ne.symm here]

theorem loadMinRates_saveMinRates (v w : MinRates) :
    loadMinRates F 0 ((saveMinRates F v).splitOnP isListSep) w = .ok v := by
  rw [splitOnP_saveMinRates]
  obtain ⟨v', loaded, at_k⟩ := loadMinRates_decimal (F := F) v.toList 0 w
  rw [loaded]
  refine congrArg Except.ok (Vector.ext fun k hk => ?_)
  rw [at_k k hk, dif_pos ⟨Nat.zero_le k, by simpa using hk⟩]
  simp

theorem loadRateOpts_saveRateOpts {rateOpts : RateOptimizationMap}
    (exact_ : ∀ id dates, rateOpts.find? id = some dates → ∀ d ∈ dates.keys, F.ExactDate d)
    (path : String) :
    ∃ file, saveRateOpts_ F rateOpts = some file ∧
      loadRateOpts_ F SortedMap.empty path file = .ok (dropEmptyDates rateOpts) := by
  have tokens (e : Nat × Time × MinRates) (token : Text)
      (htoken : token ∈ [F.int e.1, F.date e.2.1, saveMinRates F e.2.2]) (c : Char)
      (hc : c ∈ token) : (c == '\n') = false ∧ (c == '\t') = false := by
    simp only [List.mem_cons, List.not_mem_nil, or_false] at htoken
    have both {c : Char} (clean : isSeparator c = false) :
        (c == '\n') = false ∧ (c == '\t') = false :=
      ⟨(separator_clean clean).1, (separator_clean clean).2.1⟩
    rcases htoken with rfl | rfl | rfl
    · exact both (F.int_clean _ c hc)
    · exact both (F.date_clean _ c hc)
    · rw [saveMinRates_eq] at hc
      rcases mem_intercalate hc with rfl | ⟨piece, hpiece, hc⟩
      · decide
      · obtain ⟨rate, -, rfl⟩ := List.mem_map.1 hpiece
        exact both (F.decimal_clean _ c hc)
  have puts : SortedMap.PutsNew (fun (rateOpts : RateOptimizationMap) (e : Nat × Time × MinRates) =>
      rateOpts.put e.1 ((SortedMap.inner rateOpts e.1).put e.2.1 e.2.2)) := fun _ _ _ _ _ => rfl
  have clean (e : Nat × Time × MinRates) (c : Char) (hc : c ∈ rateOptLine F e) :
      (c == '\n') = false := by
    rcases mem_intercalate hc with rfl | ⟨token, htoken, hc⟩
    · decide
    · exact (tokens e token htoken c hc).1
  have full (e : Nat × Time × MinRates) : rateOptLine F e ≠ [] := tabLine_ne_nil _ _ _
  refine readFile_saveDates (by decide) (fun e _ => clean e) (fun e _ => full e) puts
    (fun e he _ acc => ?_) _ _
  obtain ⟨dates, found, found_date⟩ := mem_entries₂ he
  have date : F.readDate (F.date e.2.1) = .ok e.2.1 :=
    exact_ e.1 dates found e.2.1 (SortedMap.mem_keys.2 (by simp [found_date]))
  have split : splitTab (rateOptLine F e) = [F.int e.1, F.date e.2.1, saveMinRates F e.2.2] :=
    splitTab_tabLine fun token htoken c hc => (tokens e token htoken c hc).2
  have read : readRateOptLine F (rateOptLine F e) =
      .ok (e.1, e.2.1, (saveMinRates F e.2.2).splitOnP isListSep) := by
    rw [readRateOptLine, split]
    simp only [F.strToInt_int, date]
    rfl
  simp only [read, bind, Except.bind, loadRateOpt, loadMinRates_saveMinRates, Except.map,
    throwing]

end AdServer.Billing
