import AdServer.Billing.DatedStorage
import Mathlib.Data.Prod.Lex
import Mathlib.Order.Fin.Basic

/-!
# The stored rates

`BillingContainer::save_ccg_rates_` and `load_rates_`. Rates are kept by creative
group and date, then by rate and hour; hours in which nothing was shown or clicked
are not written.
-/

namespace AdServer.Billing

open AdServer.Lib

/-- `HourActivity`. -/
structure HourActivity where
  imps : Int
  clicks : Int
  useTime : Time
  deriving DecidableEq, Repr

namespace HourActivity

def empty : HourActivity := ⟨0, 0, 0⟩

/-- Something was shown or clicked. -/
def used (a : HourActivity) : Bool := decide (a.imps ≠ 0) || decide (a.clicks ≠ 0)

end HourActivity

/-- `HourActivityDistribution`: one activity for each hour. -/
abbrev HourActivityDistribution := Vector HourActivity 24

/-- `RateHourActivityDistributionMap`. -/
abbrev RateMap := SortedMap Int HourActivityDistribution

structure RateDistributionHolder where
  rates : RateMap
  freeRates : RateMap
  deriving DecidableEq

def someUsed (d : HourActivityDistribution) : Bool := hours.any fun hour => d[hour].used

namespace RateDistributionHolder

def new : RateDistributionHolder := ⟨SortedMap.empty, SortedMap.empty⟩

def empty (h : RateDistributionHolder) : Bool :=
  !(h.freeRates.entries.any fun rate => someUsed rate.2) &&
    !(h.rates.entries.any fun rate => someUsed rate.2)

end RateDistributionHolder

variable (F : TextFormat)

/-- `hour:rate:type:imps:clicks:use_time`. -/
def cellText (type : Char) (rate : Int) (hour : Fin 24) (a : HourActivity) : Text :=
  [':'].intercalate [F.int hour, F.decimal rate, [type], F.impDecimal a.imps,
    F.impDecimal a.clicks, F.int (a.useTime / oneSecond)]

/-- `save_`: what has been written and whether something has. -/
def save_ (out : Text × Bool) (saveRates : RateMap) (type : Char) : Text × Bool :=
  saveRates.entries.foldl (fun out rate =>
    hours.foldl (fun out hour =>
      if rate.2[hour].used then
        writePiece ',' out (cellText F type rate.1 hour rate.2[hour])
      else out) out) out

/-- `RateDistributionHolder::save`. -/
def RateDistributionHolder.save (h : RateDistributionHolder) : Text :=
  let out := save_ F ([], false) h.freeRates 'F'
  let out := save_ F out h.rates 'G'
  if out.2 then out.1 else out.1 ++ ['-']

def entry (m : RateMap) (rate : Int) : HourActivityDistribution :=
  (m.find? rate).getD (Vector.replicate 24 .empty)

/-- One activity more in an hour: counts are added, of the use times the greater
is kept. -/
def HourActivity.plus (a b : HourActivity) : HourActivity :=
  ⟨a.imps + b.imps, a.clicks + b.clicks, max a.useTime b.useTime⟩

def addActivity (m : RateMap) (rate : Int) (hour : Fin 24) (a : HourActivity) : RateMap :=
  m.put rate ((entry m rate).set hour ((entry m rate)[hour].plus a))

/-- `RateDistributionHolder::add`. -/
def RateDistributionHolder.add (h : RateDistributionHolder) (hour : Fin 24) (rate : Int)
    (freeBudget : Bool) (a : HourActivity) : RateDistributionHolder :=
  if freeBudget then { h with freeRates := addActivity h.freeRates rate hour a }
  else { h with rates := addActivity h.rates rate hour a }

/-- A part that must be a decimal. -/
def readPart (read : Text → Except String Int) (what : String) (part : Text) :
    Except String Int :=
  match read part with
  | .ok x => .ok x
  | .error _ => .error (invalid what part)

/-- Whether the type is that of the free budget. -/
def readType (typeStr : Text) : Except String Bool :=
  match typeStr with
  | ['F'] => .ok true
  | ['G'] => .ok false
  | _ => .error (invalid "type" typeStr ++ "(len=" ++ toString typeStr.length ++ ")")

/-- The hour of a cell. -/
def readHour (hourStr : Text) : Except String (Fin 24) :=
  match F.strToInt hourStr with
  | some n => if lt : n < 24 then .ok ⟨n, lt⟩ else .error (invalid "hour value" hourStr)
  | none => .error (invalid "hour value" hourStr)

/-- The use time of a cell, at most an hour. -/
def readUseTime (useTimeStr : Text) : Except String Time :=
  match F.strToInt useTimeStr with
  | some sec =>
    if sec ≤ 3600 then .ok (sec * oneSecond) else .error (invalid "use time value" useTimeStr)
  | none => .error (invalid "use time value" useTimeStr)

/-- One cell of `load`. Parts after the sixth are not looked at. -/
def loadCell (h : RateDistributionHolder) (token : Text) : Except String RateDistributionHolder :=
  match token.splitOnP (· == ':') with
  | hourStr :: rateStr :: typeStr :: impsStr :: clicksStr :: useTimeStr :: _ =>
    do
      let hour ← readHour F hourStr
      let rate ← readPart F.readDecimal "rate value" rateStr
      let freeBudget ← readType typeStr
      let imps ← readPart F.readImpDecimal "imps value" impsStr
      let clicks ← readPart F.readImpDecimal "clicks value" clicksStr
      let useTime ← readUseTime F useTimeStr
      return h.add hour rate freeBudget ⟨imps, clicks, useTime⟩
  | _ => .error (invalid "hour part" token)

/-- `RateDistributionHolder::load`. -/
def RateDistributionHolder.load (h : RateDistributionHolder) (str : Text) :
    Except String RateDistributionHolder :=
  if str = ['-'] then .ok h else (str.splitOnP isListSep).foldlM (loadCell F) h

/-- The hours that are written, by rate. -/
def cells (m : RateMap) : List (Int × Fin 24 × HourActivity) :=
  m.entries.flatMap fun rate =>
    (hours.filter fun hour => rate.2[hour].used).map fun hour => (rate.1, hour, rate.2[hour])

/-- A rate without the hours that are not written; no value when none is. -/
def usedHours (d : HourActivityDistribution) : Option HourActivityDistribution :=
  if someUsed d then some (d.map fun a => if a.used then a else .empty) else none

/-- The rates without the hours in which nothing was shown or clicked. -/
def dropUnused (h : RateDistributionHolder) : RateDistributionHolder :=
  ⟨h.rates.filterMap usedHours, h.freeRates.filterMap usedHours⟩

/-- The activities added one by one. -/
def addCells (m : RateMap) (cs : List (Int × Fin 24 × HourActivity)) : RateMap :=
  cs.foldl (fun m cell => addActivity m cell.1 cell.2.1 cell.2.2) m

theorem entry_put (m : RateMap) (rate : Int) (d : HourActivityDistribution) :
    entry (m.put rate d) rate = d := by
  simp [entry, SortedMap.find?_put]

/-- The activities of some hours added to those of a rate. -/
def addHours (d v : HourActivityDistribution) (l : List (Fin 24)) : HourActivityDistribution :=
  l.foldl (fun (v : HourActivityDistribution) (hour : Fin 24) =>
    v.set hour (v[hour].plus d[hour])) v

variable {l : List (Fin 24)} {a : HourActivity} {m : RateMap} {h : RateDistributionHolder}
  {type : Char}

theorem addCells_rate (m : RateMap) (rate : Int) (d : HourActivityDistribution)
    (some_hour : l ≠ []) :
    addCells m (l.map fun hour => (rate, hour, d[hour])) =
      m.put rate (addHours d (entry m rate) l) := by
  induction l generalizing m with
  | nil => exact absurd rfl some_hour
  | cons hour rest ih =>
    have first : addCells m ((hour :: rest).map fun hour => (rate, hour, d[hour])) =
        addCells (addActivity m rate hour d[hour]) (rest.map fun hour => (rate, hour, d[hour])) :=
      rfl
    rw [first, addActivity, addHours, List.foldl_cons]
    by_cases last : rest = []
    · simp [last, addCells]
    · rw [ih _ last, entry_put, SortedMap.put_put]
      rfl

theorem getElem_addHours (d v : HourActivityDistribution) (nodup : l.Nodup) (k : Fin 24) :
    (addHours d v l)[k] = if k ∈ l then v[k].plus d[k] else v[k] := by
  induction l generalizing v with
  | nil => simp [addHours]
  | cons hour rest ih =>
    obtain ⟨new, nodup'⟩ := List.nodup_cons.1 nodup
    have first : addHours d v (hour :: rest) =
        addHours d (v.set hour (v[hour].plus d[hour])) rest := rfl
    rw [first, ih _ nodup']
    by_cases here : k = hour
    · subst here
      simp [new]
    · have apart : (hour : Nat) ≠ k := fun same => here (Fin.ext same.symm)
      have other : (v.set hour (v[hour].plus d[hour]))[k] = v[k] := by
        simp only [Fin.getElem_fin, Vector.getElem_set, apart, if_false]
      rw [other]
      simp [here]

/-- Nothing was in use for less than no time. -/
def UseTimesOk (d : HourActivityDistribution) : Prop :=
  ∀ hour : Fin 24, ∃ sec : Nat, sec ≤ 3600 ∧ d[hour].useTime = sec * oneSecond

theorem empty_plus (h : 0 ≤ a.useTime) : HourActivity.empty.plus a = a := by
  simp [HourActivity.plus, HourActivity.empty, h]

theorem UseTimesOk.nonneg {d : HourActivityDistribution} (h : UseTimesOk d) (hour : Fin 24) :
    0 ≤ d[hour].useTime := by
  obtain ⟨sec, -, eq⟩ := h hour
  rw [eq]
  exact mul_nonneg (Int.natCast_nonneg _) (by decide)

/-- The hours that are written, added to nothing, give the rates back without the
others. -/
theorem addCells_cells (ok : ∀ rate d, m.find? rate = some d → UseTimesOk d) :
    addCells SortedMap.empty (cells m) = m.filterMap usedHours := by
  have step (l : List (Int × HourActivityDistribution)) (nodup : (l.map Prod.fst).Nodup)
      (ok : ∀ rate ∈ l, UseTimesOk rate.2) (acc : RateMap)
      (fresh : ∀ rate ∈ l, acc.find? rate.1 = none) :
      addCells acc (l.flatMap fun rate =>
          (hours.filter fun hour => rate.2[hour].used).map fun hour => (rate.1, hour, rate.2[hour])) =
        (l.filterMap fun rate => (usedHours rate.2).map fun d => (rate.1, d)).foldl
          (fun acc rate => acc.put rate.1 rate.2) acc := by
    induction l generalizing acc with
    | nil => rfl
    | cons rate rest ih =>
      obtain ⟨new, nodup'⟩ := List.nodup_cons.1 nodup
      have split (cs cs' : List (Int × Fin 24 × HourActivity)) :
          addCells acc (cs ++ cs') = addCells (addCells acc cs) cs' := List.foldl_append
      rw [List.flatMap_cons, split]
      cases written : hours.filter fun hour => rate.2[hour].used with
      | nil =>
        have unused : someUsed rate.2 = false := by
          simpa [someUsed, List.filter_eq_nil_iff] using written
        have dropped : usedHours rate.2 = none := by simp [usedHours, unused]
        rw [List.filterMap_cons_none (by simp [dropped])]
        exact ih nodup' (fun r hr => ok r (by simp [hr])) acc (fun r hr => fresh r (by simp [hr]))
      | cons first later =>
        have used : someUsed rate.2 = true := by
          have mem : first ∈ hours.filter fun hour => rate.2[hour].used := by rw [written]; simp
          exact List.any_eq_true.2 ⟨first, List.mem_of_mem_filter mem, (List.mem_filter.1 mem).2⟩
        have hour_nodup : (first :: later).Nodup :=
          written ▸ (List.nodup_finRange 24).filter _
        have nothing : entry acc rate.1 = Vector.replicate 24 .empty := by
          simp [entry, fresh rate (by simp)]
        have rebuilt : addHours rate.2 (entry acc rate.1) (first :: later) =
            rate.2.map fun a => if a.used then a else .empty := by
          refine Vector.ext fun k hk => ?_
          have at_k := getElem_addHours rate.2 (entry acc rate.1) hour_nodup ⟨k, hk⟩
          simp only [Fin.getElem_fin] at at_k
          rw [at_k, nothing, ← written]
          have nonneg := (ok rate (by simp)).nonneg ⟨k, hk⟩
          simp only [Fin.getElem_fin] at nonneg
          simp [hours, empty_plus nonneg]
        rw [addCells_rate acc rate.1 rate.2 (by simp), rebuilt,
          List.filterMap_cons_some (b := (rate.1, rate.2.map fun a => if a.used then a else .empty))
            (by simp [usedHours, used]), List.foldl_cons]
        refine ih nodup' (fun r hr => ok r (by simp [hr])) _ (fun r hr => ?_)
        have other : r.1 ≠ rate.1 := fun same => new (List.mem_map.2 ⟨r, hr, same⟩)
        rw [SortedMap.find?_put, if_neg other]
        exact fresh r (by simp [hr])
  have listed : (m.filterMap usedHours).entries =
      m.entries.filterMap fun rate => (usedHours rate.2).map fun d => (rate.1, d) := rfl
  rw [cells, step _ m.keys_nodup (fun rate h => ok rate.1 rate.2 (SortedMap.find?_eq_some.2 h)) _
    (fun _ _ => rfl), ← listed, SortedMap.foldl_put_entries]

variable {F}

theorem save_eq (out : Text × Bool) (m : RateMap) (type : Char) :
    save_ F out m type =
      ((cells m).map fun cell => cellText F type cell.1 cell.2.1 cell.2.2).foldl
        (writePiece ',') out := by
  unfold save_ cells
  generalize m.entries = l
  induction l generalizing out with
  | nil => rfl
  | cons rate rest ih =>
    have inner (hs : List (Fin 24)) (out : Text × Bool) :
        hs.foldl (fun out hour =>
            if rate.2[hour].used then
              writePiece ',' out (cellText F type rate.1 hour rate.2[hour])
            else out) out =
          (((hs.filter fun hour => rate.2[hour].used).map
            fun hour => (rate.1, hour, rate.2[hour])).map
              fun cell => cellText F type cell.1 cell.2.1 cell.2.2).foldl (writePiece ',') out := by
      induction hs generalizing out with
      | nil => rfl
      | cons hour hs ihs =>
        rw [List.foldl_cons, ihs]
        by_cases used : rate.2[hour].used = true
        · simp only [List.filter_cons, used, if_true, List.map_cons, List.foldl_cons]
        · simp only [List.filter_cons, used, Bool.false_eq_true, if_false]
    rw [List.foldl_cons, ih, inner, List.flatMap_cons, List.map_append, List.foldl_append]

/-- The cells of a holder as they are written. -/
def cellTexts (F : TextFormat) (h : RateDistributionHolder) : List Text :=
  ((cells h.freeRates).map fun cell => cellText F 'F' cell.1 cell.2.1 cell.2.2) ++
    (cells h.rates).map fun cell => cellText F 'G' cell.1 cell.2.1 cell.2.2

theorem saved_eq (written : cellTexts F h ≠ []) : h.save F = [','].intercalate (cellTexts F h) := by
  have out : save_ F (save_ F ([], false) h.freeRates 'F') h.rates 'G' =
      ([','].intercalate (cellTexts F h), true) := by
    rw [save_eq, save_eq, ← List.foldl_append]
    have all := writePieces_eq ',' (cellTexts F h)
    rw [cellTexts] at all written ⊢
    rw [all]
    simpa using written
  simp [RateDistributionHolder.save, out]

theorem cellTexts_ne_nil (some_activity : h.empty = false) : cellTexts F h ≠ [] := by
  have from_used {m : RateMap} (used : (m.entries.any fun rate => someUsed rate.2) = true) :
      cells m ≠ [] := by
    obtain ⟨rate, hrate, used⟩ := List.any_eq_true.1 used
    obtain ⟨hour, hhour, used⟩ := List.any_eq_true.1 used
    refine List.ne_nil_of_mem (a := (rate.1, hour, rate.2[hour])) ?_
    refine List.mem_flatMap.2 ⟨rate, hrate, List.mem_map.2 ⟨hour, ?_, rfl⟩⟩
    exact List.mem_filter.2 ⟨hhour, used⟩
  unfold RateDistributionHolder.empty at some_activity
  unfold cellTexts
  cases free : h.freeRates.entries.any fun rate => someUsed rate.2 with
  | true => simp [from_used free]
  | false =>
    have gross : (h.rates.entries.any fun rate => someUsed rate.2) = true := by
      simpa [free] using some_activity
    simp [from_used gross]

theorem mem_cellText (type_clean : isSeparator type = false) {rate : Int} {hour : Fin 24} {c : Char}
    (hc : c ∈ cellText F type rate hour a) : c = ':' ∨ isSeparator c = false := by
  rcases mem_intercalate hc with rfl | ⟨part, hpart, hc⟩
  · exact .inl rfl
  · simp only [List.mem_cons, List.not_mem_nil, or_false] at hpart
    rcases hpart with rfl | rfl | rfl | rfl | rfl | rfl
    · exact .inr (F.int_clean _ c hc)
    · exact .inr (F.decimal_clean _ c hc)
    · rw [List.mem_singleton.1 hc]
      exact .inr type_clean
    · exact .inr (F.impDecimal_clean _ c hc)
    · exact .inr (F.impDecimal_clean _ c hc)
    · exact .inr (F.int_clean _ c hc)

theorem splitOnP_cellText (type_clean : isSeparator type = false) (rate : Int) (hour : Fin 24)
    (a : HourActivity) :
    (cellText F type rate hour a).splitOnP (· == ':') =
      [F.int hour, F.decimal rate, [type], F.impDecimal a.imps, F.impDecimal a.clicks,
        F.int (a.useTime / oneSecond)] := by
  refine splitOnP_intercalate_clean (by decide) (by simp) fun part hpart c hc => ?_
  simp only [List.mem_cons, List.not_mem_nil, or_false] at hpart
  refine (separator_clean ?_).2.2.2
  rcases hpart with rfl | rfl | rfl | rfl | rfl | rfl
  · exact F.int_clean _ c hc
  · exact F.decimal_clean _ c hc
  · rw [List.mem_singleton.1 hc]
    exact type_clean
  · exact F.impDecimal_clean _ c hc
  · exact F.impDecimal_clean _ c hc
  · exact F.int_clean _ c hc

/-- A cell that is written is added as it was. -/
theorem loadCell_cellText (h : RateDistributionHolder) {free : Bool}
    (kind : type = 'F' ∧ free = true ∨ type = 'G' ∧ free = false) (rate : Int) (hour : Fin 24)
    (time : ∃ sec : Nat, sec ≤ 3600 ∧ a.useTime = sec * oneSecond) :
    loadCell F h (cellText F type rate hour a) = .ok (h.add hour rate free a) := by
  obtain ⟨sec, short, use_time⟩ := time
  have type_clean : isSeparator type = false := by
    rcases kind with ⟨rfl, -⟩ | ⟨rfl, -⟩ <;> decide
  have read_type : readType [type] = .ok free := by
    rcases kind with ⟨rfl, rfl⟩ | ⟨rfl, rfl⟩ <;> rfl
  have read_hour : readHour F (F.int hour) = .ok hour := by
    have int := F.strToInt_int hour
    simp [readHour, int]
  have whole : a.useTime / oneSecond = (sec : Int) := by
    rw [use_time, Int.mul_ediv_cancel _ (by decide)]
  have read_time : readUseTime F (F.int (a.useTime / oneSecond)) = .ok a.useTime := by
    rw [whole, readUseTime, F.strToInt_int]
    simp [short, use_time]
  have read_rate : readPart F.readDecimal "rate value" (F.decimal rate) = .ok rate := by
    simp [readPart, F.readDecimal_decimal]
  have read_counts (what : String) (x : Int) :
      readPart F.readImpDecimal what (F.impDecimal x) = .ok x := by
    simp [readPart, F.readImpDecimal_impDecimal]
  rw [loadCell, splitOnP_cellText type_clean]
  simp only [read_hour, read_rate, read_type, read_counts, read_time]
  rfl

/-- Every use time of a holder is a whole number of seconds within the hour. -/
structure UseTimesKept (h : RateDistributionHolder) : Prop where
  rates : ∀ rate d, h.rates.find? rate = some d → UseTimesOk d
  freeRates : ∀ rate d, h.freeRates.find? rate = some d → UseTimesOk d

theorem cells_useTime (ok : ∀ rate d, m.find? rate = some d → UseTimesOk d)
    {cell : Int × Fin 24 × HourActivity} (h : cell ∈ cells m) :
    ∃ sec : Nat, sec ≤ 3600 ∧ cell.2.2.useTime = sec * oneSecond := by
  obtain ⟨rate, hrate, h⟩ := List.mem_flatMap.1 h
  obtain ⟨hour, -, rfl⟩ := List.mem_map.1 h
  exact ok rate.1 rate.2 (SortedMap.find?_eq_some.2 hrate) hour

theorem foldlM_loadCell_free (l : List (Int × Fin 24 × HourActivity))
    (ok : ∀ cell ∈ l, ∃ sec : Nat, sec ≤ 3600 ∧ cell.2.2.useTime = sec * oneSecond)
    (h : RateDistributionHolder) :
    (l.map fun cell => cellText F 'F' cell.1 cell.2.1 cell.2.2).foldlM (loadCell F) h =
      .ok { h with freeRates := addCells h.freeRates l } := by
  induction l generalizing h with
  | nil => rfl
  | cons cell rest ih =>
    rw [List.map_cons, List.foldlM_cons,
      loadCell_cellText h (.inl ⟨rfl, rfl⟩) cell.1 cell.2.1 (ok cell (by simp))]
    exact ih (fun c hc => ok c (by simp [hc])) _

theorem foldlM_loadCell_gross (l : List (Int × Fin 24 × HourActivity))
    (ok : ∀ cell ∈ l, ∃ sec : Nat, sec ≤ 3600 ∧ cell.2.2.useTime = sec * oneSecond)
    (h : RateDistributionHolder) :
    (l.map fun cell => cellText F 'G' cell.1 cell.2.1 cell.2.2).foldlM (loadCell F) h =
      .ok { h with rates := addCells h.rates l } := by
  induction l generalizing h with
  | nil => rfl
  | cons cell rest ih =>
    rw [List.map_cons, List.foldlM_cons,
      loadCell_cellText h (.inr ⟨rfl, rfl⟩) cell.1 cell.2.1 (ok cell (by simp))]
    exact ih (fun c hc => ok c (by simp [hc])) _

theorem load_save (some_activity : h.empty = false) (ok : UseTimesKept h) :
    RateDistributionHolder.new.load F (h.save F) = .ok (dropUnused h) := by
  have written := cellTexts_ne_nil (F := F) some_activity
  have type_clean (t : Text) (ht : t ∈ cellTexts F h) (c : Char) (hc : c ∈ t) :
      c = ':' ∨ isSeparator c = false := by
    rcases List.mem_append.1 ht with ht | ht
    · obtain ⟨cell, -, rfl⟩ := List.mem_map.1 ht
      exact mem_cellText (by decide) hc
    · obtain ⟨cell, -, rfl⟩ := List.mem_map.1 ht
      exact mem_cellText (by decide) hc
  have split : (h.save F).splitOnP isListSep = cellTexts F h := by
    rw [saved_eq written]
    refine splitOnP_intercalate_clean (by decide) written fun t ht c hc => ?_
    rcases type_clean t ht c hc with rfl | clean
    · decide
    · exact (separator_clean clean).2.2.1
  have not_dash : h.save F ≠ ['-'] := by
    intro dash
    have one : cellTexts F h = [['-']] := by rw [← split, dash]; rfl
    have mem : ['-'] ∈ cellTexts F h := by simp [one]
    have colons (type : Char) (rate : Int) (hour : Fin 24) (a : HourActivity)
        (same : cellText F type rate hour a = ['-']) : False := by
      have colon : ':' ∈ cellText F type rate hour a := by
        rw [cellText, intercalate_cons]
        simp
      rw [same] at colon
      exact absurd colon (by decide)
    rcases List.mem_append.1 mem with mem | mem
    · obtain ⟨cell, -, same⟩ := List.mem_map.1 mem
      exact colons _ _ _ _ same
    · obtain ⟨cell, -, same⟩ := List.mem_map.1 mem
      exact colons _ _ _ _ same
  rw [RateDistributionHolder.load, if_neg not_dash, split, cellTexts, List.foldlM_append,
    foldlM_loadCell_free _ (fun _ hc => cells_useTime ok.freeRates hc)]
  simp only [bind, Except.bind]
  rw [foldlM_loadCell_gross _ (fun _ hc => cells_useTime ok.rates hc)]
  simp only [RateDistributionHolder.new, addCells_cells ok.rates, addCells_cells ok.freeRates,
    dropUnused]

/-- `CampaignCCGId`, ordered by campaign and then by group. -/
abbrev CampaignCCGId := Nat ×ₗ Nat

/-- `RateAmountMap`. -/
abbrev RateAmountMap := SortedMap CampaignCCGId (SortedMap Time RateDistributionHolder)

def saveRatesPortionSize_ : Nat := 10

variable (F) in
def rateLine (e : CampaignCCGId × Time × RateDistributionHolder) : Text :=
  tabLine [F.int (ofLex e.1).1, F.int (ofLex e.1).2, F.date e.2.1, e.2.2.save F]

variable (F) in
/-- `save_ccg_rates_`. -/
def saveCcgRates_ (rates : RateAmountMap) : Option Text :=
  saveDates (rateLine F) RateDistributionHolder.empty saveRatesPortionSize_ rates

/-- `rate_holder.dates.insert`, the rate holder created when it is not there. -/
def insertDate (rates : RateAmountMap) (e : CampaignCCGId × Time × RateDistributionHolder) :
    RateAmountMap :=
  rates.put e.1 ((SortedMap.inner rates e.1).insertNew e.2.1 e.2.2)

variable (F) in
/-- A line of the rates file. -/
def readRateLine (line : Text) :
    Except String (CampaignCCGId × Time × RateDistributionHolder) :=
  match splitTab line with
  | [] => .error "no campaign_id"
  | [_] => .error "no ccg_id"
  | [_, _] => .error "no date"
  | [_, _, _] => .error "no ctr"
  | [campaignIdStr, ccgIdStr, dateStr, ctrsStr] =>
    match F.strToInt campaignIdStr, F.strToInt ccgIdStr with
    | none, _ => .error (invalid "campaign_id value:" campaignIdStr)
    | some _, none => .error (invalid "ccg_id value:" ccgIdStr)
    | some campaignId, some ccgId => do
      let date ← F.readDate dateStr
      let holder ← RateDistributionHolder.new.load F ctrsStr
      return (toLex (campaignId, ccgId), date, holder)
  | _ :: _ :: _ :: _ :: _ :: _ => .error "unexpected content after amounts"

variable (F) in
/-- `load_rates_`. -/
def loadRates_ (rates : RateAmountMap) (path : String) (file : Text) :
    Except LoadError RateAmountMap :=
  readFile "BillingContainer::load_rates_()" path
    (fun line rates => (throwing (readRateLine F line)).map (insertDate rates)) file rates

/-- The rates without the hours in which nothing was shown or clicked, and what
is left empty by that. -/
def dropUnusedRates (rates : RateAmountMap) : RateAmountMap :=
  rates.filterMap₂ fun holder => if holder.empty then none else some (dropUnused holder)

/-- What the rates must be to be read back. -/
structure StorableRates (F : TextFormat) (rates : RateAmountMap) : Prop where
  dates : ∀ key dates, rates.find? key = some dates → ∀ d ∈ dates.keys, F.ExactDate d
  useTimes : ∀ key dates, rates.find? key = some dates →
    ∀ d holder, dates.find? d = some holder → UseTimesKept holder

theorem putsNew_insertDate : SortedMap.PutsNew insertDate := by
  intro m k d v fresh
  simp [insertDate, SortedMap.insertNew, fresh]

theorem save_clean (h : RateDistributionHolder) (c : Char) (hc : c ∈ h.save F) :
    (c == '\n') = false ∧ (c == '\t') = false := by
  by_cases nothing : cellTexts F h = []
  · have dash : h.save F = ['-'] := by
      have none_free : (cells h.freeRates).map
          (fun cell => cellText F 'F' cell.1 cell.2.1 cell.2.2) = [] :=
        (List.append_eq_nil_iff.1 nothing).1
      have none_gross : (cells h.rates).map
          (fun cell => cellText F 'G' cell.1 cell.2.1 cell.2.2) = [] :=
        (List.append_eq_nil_iff.1 nothing).2
      simp [RateDistributionHolder.save, save_eq, none_free, none_gross]
    rw [dash] at hc
    rw [List.mem_singleton.1 hc]
    decide
  · rw [saved_eq nothing] at hc
    rcases mem_intercalate hc with rfl | ⟨t, ht, hc⟩
    · decide
    · have part : c = ':' ∨ isSeparator c = false := by
        rcases List.mem_append.1 ht with ht | ht
        · obtain ⟨cell, -, rfl⟩ := List.mem_map.1 ht
          exact mem_cellText (by decide) hc
        · obtain ⟨cell, -, rfl⟩ := List.mem_map.1 ht
          exact mem_cellText (by decide) hc
      rcases part with rfl | clean
      · decide
      · exact ⟨(separator_clean clean).1, (separator_clean clean).2.1⟩

section
variable (e : CampaignCCGId × Time × RateDistributionHolder)

theorem rateLine_clean (c : Char) (hc : c ∈ rateLine F e) : (c == '\n') = false := by
  rcases mem_intercalate hc with rfl | ⟨token, htoken, hc⟩
  · decide
  · simp only [List.mem_cons, List.not_mem_nil, or_false] at htoken
    rcases htoken with rfl | rfl | rfl | rfl
    · exact (separator_clean (F.int_clean _ c hc)).1
    · exact (separator_clean (F.int_clean _ c hc)).1
    · exact (separator_clean (F.date_clean _ c hc)).1
    · exact (save_clean e.2.2 c hc).1

theorem splitTab_rateLine :
    splitTab (rateLine F e) =
      [F.int (ofLex e.1).1, F.int (ofLex e.1).2, F.date e.2.1, e.2.2.save F] := by
  refine splitTab_tabLine fun token htoken c hc => ?_
  simp only [List.mem_cons, List.not_mem_nil, or_false] at htoken
  rcases htoken with rfl | rfl | rfl | rfl
  · exact (separator_clean (F.int_clean _ c hc)).2.1
  · exact (separator_clean (F.int_clean _ c hc)).2.1
  · exact (separator_clean (F.date_clean _ c hc)).2.1
  · exact (save_clean e.2.2 c hc).2

end

theorem loadRates_saveCcgRates {rates : RateAmountMap} (ok : StorableRates F rates)
    (path : String) :
    ∃ file, saveCcgRates_ F rates = some file ∧
      loadRates_ F SortedMap.empty path file = .ok (dropUnusedRates rates) := by
  refine readFile_saveDates (by decide) (fun e _ => rateLine_clean e)
    (fun e _ => tabLine_ne_nil _ _ _) putsNew_insertDate (fun e he some_activity acc => ?_) _ _
  obtain ⟨dates, found, found_date⟩ := mem_entries₂ he
  have date : F.readDate (F.date e.2.1) = .ok e.2.1 :=
    ok.dates e.1 dates found e.2.1 (SortedMap.mem_keys.2 (by simp [found_date]))
  have read : readRateLine F (rateLine F e) = .ok (e.1, e.2.1, dropUnused e.2.2) := by
    have loaded := load_save (F := F) some_activity (ok.useTimes e.1 dates found _ _ found_date)
    rw [readRateLine, splitTab_rateLine]
    simp only [F.strToInt_int, date, loaded]
    rfl
  simp only [read, throwing, Except.map]

end AdServer.Billing
