import AdServer.Billing.State

/-!
# Adding an amount that overflows

`AmountHolder::add_amount` and `AccountAmountHolder::add_amount` with decimals of
a limited range: what an `Overflow` inside leaves behind.
-/

namespace AdServer.Billing

open AdServer.Lib SortedMap

/-- What a decimal type can hold. -/
structure DecimalRange where
  low : Int
  high : Int
  low_le : low ≤ 0
  le_high : 0 ≤ high

namespace DecimalRange

variable (r : DecimalRange)

def Fits (x : Int) : Prop := r.low ≤ x ∧ x ≤ r.high

instance (x : Int) : Decidable (r.Fits x) := inferInstanceAs (Decidable (_ ∧ _))

/-- `+=`: whether it returns, and its left operand afterwards. -/
def plusAssign (x d : Int) : Bool × Int := if r.Fits (x + d) then (true, x + d) else (false, x)

/-- `x += b + v`, where the sum may overflow by itself. -/
def plusAssignSum (x b v : Int) : Bool × Int :=
  if r.Fits (b + v) then r.plusAssign x (b + v) else (false, x)

/-- `-=`. -/
def minusAssign (x d : Int) : Bool × Int := r.plusAssign x (-d)

end DecimalRange

open DecimalRange

/-- The additions a day is updated with, over all the fields the day has for them,
with the left operands as they are after the last one that was reached. -/
structure DayFields (A : Type) [AddCommGroup A] where
  Fits : A → Prop
  fits_dec : DecidablePred Fits
  plusAssign : A → A → Bool × A
  plusAssignSum : A → A → A → Bool × A
  minusAssign : A → A → Bool × A
  fits_zero : Fits 0
  plus_fits {x d : A} : Fits (x + d) → plusAssign x d = (true, x + d)
  plus_throws {x d : A} : ¬ Fits (x + d) → (plusAssign x d).1 = false
  sum_fits {b v : A} : Fits (b + v) → plusAssignSum 0 b v = (true, b + v)
  sum_throws {b v : A} : ¬ Fits (b + v) → (plusAssignSum 0 b v).1 = false
  minus_fits {d : A} : minusAssign d d = (true, 0)
  /-- Taking back what was not added does not restore the left operand. -/
  minus_after {x d : A} : Fits x → ¬ Fits (x + d) →
    minusAssign (plusAssign x d).2 d ≠ (true, x)

/-- `AccountDayAmount` has one field. -/
def accountFields (r : DecimalRange) : DayFields Int where
  Fits := r.Fits
  fits_dec := inferInstance
  plusAssign := r.plusAssign
  plusAssignSum := r.plusAssignSum
  minusAssign := r.minusAssign
  fits_zero := ⟨r.low_le, r.le_high⟩
  plus_fits fits := by simp [DecimalRange.plusAssign, fits]
  plus_throws throws := by simp [DecimalRange.plusAssign, throws]
  sum_fits fits := by simp [DecimalRange.plusAssignSum, DecimalRange.plusAssign, fits]
  sum_throws throws := by simp [DecimalRange.plusAssignSum, throws]
  minus_fits := by
    simp [DecimalRange.minusAssign, DecimalRange.plusAssign, DecimalRange.Fits, r.low_le, r.le_high]
  minus_after {x d} fits throws := by
    intro same
    have kept : r.minusAssign x d = (true, x) := by
      simpa [DecimalRange.plusAssign, throws] using same
    have none_added : d = 0 := by
      unfold DecimalRange.minusAssign DecimalRange.plusAssign at kept
      split at kept
      · simpa using congrArg Prod.snd kept
      · simp at kept
    exact throws (by simpa [none_added] using fits)

/-- The decimals of money and those of impressions and clicks. -/
structure CountRanges where
  revenue : DecimalRange
  imp : DecimalRange

namespace CountRanges

variable (R : CountRanges)

/-- The three fields one after another; `old` is what the first that throws and
those after it leave. -/
def inOrder (old : Counts) (amount imps clicks : Bool × Int) : Bool × Counts :=
  if !amount.1 then (false, old)
  else if !imps.1 then (false, { old with amount := amount.2 })
  else if !clicks.1 then (false, { old with amount := amount.2, imps := imps.2 })
  else (true, ⟨amount.2, imps.2, clicks.2⟩)

def Fits (x : Counts) : Prop :=
  R.revenue.Fits x.amount ∧ R.imp.Fits x.imps ∧ R.imp.Fits x.clicks

instance (x : Counts) : Decidable (R.Fits x) := inferInstanceAs (Decidable (_ ∧ _ ∧ _))

def plusAssign (x d : Counts) : Bool × Counts :=
  inOrder x (R.revenue.plusAssign x.amount d.amount) (R.imp.plusAssign x.imps d.imps)
    (R.imp.plusAssign x.clicks d.clicks)

def plusAssignSum (x b v : Counts) : Bool × Counts :=
  inOrder x (R.revenue.plusAssignSum x.amount b.amount v.amount)
    (R.imp.plusAssignSum x.imps b.imps v.imps) (R.imp.plusAssignSum x.clicks b.clicks v.clicks)

def minusAssign (x d : Counts) : Bool × Counts :=
  inOrder x (R.revenue.minusAssign x.amount d.amount) (R.imp.minusAssign x.imps d.imps)
    (R.imp.minusAssign x.clicks d.clicks)

end CountRanges

theorem inOrder_eq_true {old x : Counts} {amount imps clicks : Bool × Int} :
    CountRanges.inOrder old amount imps clicks = (true, x) ↔
      amount = (true, x.amount) ∧ imps = (true, x.imps) ∧ clicks = (true, x.clicks) := by
  obtain ⟨a, u⟩ := amount
  obtain ⟨b, v⟩ := imps
  obtain ⟨c, w⟩ := clicks
  obtain ⟨x₁, x₂, x₃⟩ := x
  cases a <;> cases b <;> cases c <;> simp [CountRanges.inOrder]

theorem inOrder_fst (old : Counts) (amount imps clicks : Bool × Int) :
    (CountRanges.inOrder old amount imps clicks).1 = (amount.1 && (imps.1 && clicks.1)) := by
  obtain ⟨a, u⟩ := amount
  obtain ⟨b, v⟩ := imps
  obtain ⟨c, w⟩ := clicks
  cases a <;> cases b <;> cases c <;> rfl

/-- `DayAmount` has three fields. -/
def amountFields (R : CountRanges) : DayFields Counts where
  Fits := R.Fits
  fits_dec := inferInstance
  plusAssign := R.plusAssign
  plusAssignSum := R.plusAssignSum
  minusAssign := R.minusAssign
  fits_zero := ⟨(accountFields R.revenue).fits_zero, (accountFields R.imp).fits_zero,
    (accountFields R.imp).fits_zero⟩
  plus_fits fits := by
    apply inOrder_eq_true.2
    exact ⟨(accountFields _).plus_fits fits.1, (accountFields _).plus_fits fits.2.1,
      (accountFields _).plus_fits fits.2.2⟩
  plus_throws {x d} throws := by
    by_contra done
    apply throws
    rw [CountRanges.plusAssign, inOrder_fst] at done
    simpa [DecimalRange.plusAssign, CountRanges.Fits, apply_ite] using done
  sum_fits fits := by
    apply inOrder_eq_true.2
    exact ⟨(accountFields _).sum_fits fits.1, (accountFields _).sum_fits fits.2.1,
      (accountFields _).sum_fits fits.2.2⟩
  sum_throws {b v} throws := by
    by_contra done
    apply throws
    rw [CountRanges.plusAssignSum, inOrder_fst] at done
    simpa [DecimalRange.plusAssignSum, DecimalRange.plusAssign, CountRanges.Fits, apply_ite]
      using done
  minus_fits := by
    intro d
    apply inOrder_eq_true.2
    exact ⟨(accountFields _).minus_fits, (accountFields _).minus_fits,
      (accountFields _).minus_fits⟩
  minus_after {x d} fits throws := by
    intro same
    obtain ⟨amount, imps, clicks⟩ := inOrder_eq_true.1 same
    apply throws
    -- the first field that throws is as it was, so taking it back is seen there
    have left := (accountFields R.revenue).minus_after (d := d.amount) fits.1
    have middle := (accountFields R.imp).minus_after (d := d.imps) fits.2.1
    have right := (accountFields R.imp).minus_after (d := d.clicks) fits.2.2
    simp only [accountFields, DecimalRange.plusAssign, CountRanges.plusAssign,
      CountRanges.inOrder, CountRanges.Fits, Counts.add_amount, Counts.add_imps,
      Counts.add_clicks] at left middle right amount imps clicks ⊢
    by_cases a : R.revenue.Fits (x.amount + d.amount)
    · by_cases b : R.imp.Fits (x.imps + d.imps)
      · by_cases c : R.imp.Fits (x.clicks + d.clicks)
        · exact ⟨a, b, c⟩
        · simp [a, b, c] at right clicks
          exact absurd clicks right
      · simp [a, b] at middle imps
        exact absurd imps middle
    · simp [a] at left amount
      exact absurd amount left

section AddAmount

variable {A : Type} [AddCommGroup A] (F : DayFields A)

instance : DecidablePred F.Fits := F.fits_dec

/-- The loop over the later days: whether it ends, the days, and the dates it came
to, the last one first. -/
def addLater (amount : A) : List Time → Days Time A → List Time → Bool × Days Time A × List Time
  | [], days, visited => (true, days, visited)
  | date :: rest, days, visited =>
    let added := F.plusAssign ((days.find? date).getD ⟨0, 0⟩).before amount
    let days := days.modify date (fun day => { day with before := added.2 })
    if added.1 then addLater amount rest days (date :: visited) else (false, days, date :: visited)

/-- The loop that reverts the bases, down to the day that was added to. An
`Overflow` here would leave a `noexcept` function: there is no state after it. -/
def revertLater (amount : A) : List Time → Days Time A → Option (Days Time A)
  | [], days => some days
  | date :: rest, days =>
    let taken := F.minusAssign ((days.find? date).getD ⟨0, 0⟩).before amount
    if taken.1 then
      revertLater amount rest (days.modify date (fun day => { day with before := taken.2 }))
    else none

/-- The additions of `add_amount`, up to the first that throws: the days there, and
the dates of the loop. -/
def tryAdd (holder : Days Time A) (date : Time) (amount : A) :
    Bool × Days Time A × List Time :=
  let inserted := (holder.find? date).isNone
  let days := holder.insertNew date ⟨0, 0⟩
  let added := F.plusAssign ((days.find? date).getD ⟨0, 0⟩).value amount
  let days := days.modify date (fun day => { day with value := added.2 })
  if !added.1 then (false, days, [])
  else
    let based := match (if inserted then holder.predecessor? date else none) with
      | some (_, beforeIt) => F.plusAssignSum 0 beforeIt.before beforeIt.value
      | none => (true, ((days.find? date).getD ⟨0, 0⟩).before)
    let days := days.modify date (fun day => { day with before := based.2 })
    if !based.1 then (false, days, [])
    else addLater F amount (holder.keys.filter (fun key => decide (date < key))) days []

/-- `add_amount`, of either holder: what it returns and the days it leaves, none
where it ends the program. -/
def addAmount (holder : Days Time A) (date : Time) (amount : A) : Option (Bool × Days Time A) :=
  let tried := tryAdd F holder date amount
  if tried.1 then some (true, tried.2.1)
  else
    let taken := F.minusAssign ((tried.2.1.find? date).getD ⟨0, 0⟩).value amount
    if !taken.1 then none
    else
      let days := tried.2.1.modify date (fun day => { day with value := taken.2 })
      (revertLater F amount tried.2.2 days).map fun days =>
        (false, if (holder.find? date).isNone then days.erase date else days)

/-- Some addition throws. -/
def Throws (holder : Days Time A) (date : Time) (amount : A) : Prop :=
  (tryAdd F holder date amount).1 = false

instance (holder : Days Time A) (date : Time) (amount : A) : Decidable (Throws F holder date amount) :=
  inferInstanceAs (Decidable (_ = false))

/-- If an addition throws, the call returns false and the holder is as before. -/
def AllOrNothing (holder : Days Time A) (date : Time) (amount : A) : Prop :=
  Throws F holder date amount → addAmount F holder date amount = some (false, holder)

/-- Everything in the holder is a value of its decimal type. -/
def Representable (holder : Days Time A) : Prop :=
  ∀ e ∈ holder.entries, F.Fits e.2.before ∧ F.Fits e.2.value

instance (holder : Days Time A) : Decidable (Representable F holder) :=
  inferInstanceAs (Decidable (∀ e ∈ holder.entries, _ ∧ _))

/-- The days after the date can all take the amount. -/
def LaterFit (holder : Days Time A) (date : Time) (amount : A) : Prop :=
  ∀ e ∈ holder.entries, date < e.1 → F.Fits (e.2.before + amount)

/-- The amount of the date fits and so do the later bases, unless the date has no
day yet and its base does not fit. -/
def OnlyBaseOverflows (holder : Days Time A) (date : Time) (amount : A) : Prop :=
  match holder.find? date with
  | some day => F.Fits (day.value + amount) ∧ LaterFit F holder date amount
  | none => F.Fits (holder.totalBefore date) → LaterFit F holder date amount

/-! ## How far the loop gets -/

variable {F}

section Step

variable {amount : A} {date : Time} {rest : List Time} {days : Days Time A} {visited : List Time}
  {day : Day A} (found : days.find? date = some day)

include found

theorem addLater_step (fits : F.Fits (day.before + amount)) :
    addLater F amount (date :: rest) days visited =
      addLater F amount rest (days.modify date fun d => { d with before := day.before + amount })
        (date :: visited) := by
  simp [addLater, found, F.plus_fits fits]

theorem addLater_stop (throws : ¬ F.Fits (day.before + amount)) :
    addLater F amount (date :: rest) days visited =
      (false, days.modify date (fun d => { d with before := (F.plusAssign day.before amount).2 }),
        date :: visited) := by
  simp [addLater, found, F.plus_throws throws]

end Step

variable {amount : A} {dates : List Time} {days : Days Time A} {key : Time}

theorem addLater_fits (days : Days Time A) (visited : List Time) (nodup : dates.Nodup)
    (fits : ∀ k ∈ dates, F.Fits (((days.find? k).getD ⟨0, 0⟩).before + amount)) :
    (addLater F amount dates days visited).1 = true ∧
      ∀ k, (addLater F amount dates days visited).2.1.find? k =
        if k ∈ dates then (days.find? k).map (fun day => { day with before := day.before + amount })
        else days.find? k := by
  induction dates generalizing days visited with
  | nil => simp [addLater]
  | cons date rest ih =>
    obtain ⟨fresh, nodup'⟩ := List.nodup_cons.1 nodup
    have added := F.plus_fits (fits date (by simp))
    have others (k : Time) (hk : k ∈ rest) : k ≠ date := by
      rintro rfl
      exact fresh hk
    rw [addLater, added]
    dsimp only
    rw [if_pos rfl]
    obtain ⟨ends, found⟩ := ih _ (date :: visited) nodup' (by
      intro k hk
      rw [find?_modify, if_neg (others k hk)]
      exact fits k (by simp [hk]))
    refine ⟨ends, fun k => ?_⟩
    rw [found, find?_modify]
    by_cases same : k = date
    · subst same
      cases days.find? k <;> simp [fresh]
    · simp [same]

/-- The loop stops at a day whose base does not fit, having visited others only. -/
theorem addLater_throws (visited : List Time) (nodup : dates.Nodup)
    (unvisited : ∀ k ∈ dates, k ∉ visited) (present : ∀ k ∈ dates, (days.find? k).isSome)
    (mem : key ∈ dates) (overflows : ¬ F.Fits (((days.find? key).getD ⟨0, 0⟩).before + amount)) :
    ∃ days' at_ passed day, addLater F amount dates days visited = (false, days', at_ :: passed) ∧
      at_ ∈ dates ∧ at_ ∉ passed ∧ days.find? at_ = some day ∧ ¬ F.Fits (day.before + amount) ∧
      days'.find? at_ = some { day with before := (F.plusAssign day.before amount).2 } ∧
      ∀ k ∉ dates, days'.find? k = days.find? k := by
  induction dates generalizing days visited with
  | nil => simp at mem
  | cons date rest ih =>
    obtain ⟨fresh, nodup'⟩ := List.nodup_cons.1 nodup
    obtain ⟨day, found⟩ := Option.isSome_iff_exists.1 (present date (by simp))
    have others (k : Time) (hk : k ∈ rest) : k ≠ date := by
      rintro rfl
      exact fresh hk
    by_cases fits : F.Fits (day.before + amount)
    · rw [addLater_step found fits]
      have later : key ∈ rest := by
        rcases List.mem_cons.1 mem with rfl | later
        · simp [found, fits] at overflows
        · exact later
      have unchanged (k : Time) (hk : k ≠ date) : (days.modify date
          (fun d => { d with before := day.before + amount })).find? k = days.find? k := by
        rw [find?_modify, if_neg hk]
      obtain ⟨days', at_, passed, day', stops, at_mem, at_fresh, at_found, throws, left, kept⟩ :=
        ih (date :: visited) nodup'
        (by
          intro k hk
          simp [others k hk, unvisited k (by simp [hk])])
        (by
          intro k hk
          rw [unchanged k (others k hk)]
          exact present k (by simp [hk]))
        later
        (by rwa [unchanged key (others key later)])
      rw [unchanged at_ (others at_ at_mem)] at at_found
      refine ⟨days', at_, passed, day', stops, by simp [at_mem], at_fresh, at_found, throws, left,
        fun k hk => ?_⟩
      obtain ⟨ne, outside⟩ := not_or.1 (mt List.mem_cons.2 hk)
      rw [kept k outside, unchanged k ne]
    · rw [addLater_stop found fits]
      refine ⟨_, date, visited, day, rfl, by simp, unvisited date (by simp), found, fits, ?_,
        fun k hk => ?_⟩
      · simp [find?_modify, found]
      · rw [find?_modify, if_neg]
        rintro rfl
        exact hk (by simp)

theorem reverted_other {visited : List Time} {days days' : Days Time A} (outside : key ∉ visited)
    (reverts : revertLater F amount visited days = some days') :
    days'.find? key = days.find? key := by
  induction visited generalizing days with
  | nil =>
    obtain rfl : days = days' := Option.some.inj reverts
    rfl
  | cons date rest ih =>
    obtain ⟨ne, outside'⟩ := not_or.1 (mt List.mem_cons.2 outside)
    rw [revertLater] at reverts
    split at reverts
    · rw [ih outside' reverts, find?_modify, if_neg ne]
    · cases reverts

theorem taken_ne {x d : A} (fits : F.Fits x) (throws : ¬ F.Fits (x + d))
    (done : (F.minusAssign (F.plusAssign x d).2 d).1 = true) :
    (F.minusAssign (F.plusAssign x d).2 d).2 ≠ x := by
  intro same
  apply F.minus_after fits throws
  exact Prod.ext done same

/-! ## The day of the date -/

/-- The dates of the loop. -/
def laterDates (holder : Days Time A) (date : Time) : List Time :=
  holder.keys.filter (fun key => decide (date < key))

omit [AddCommGroup A] in
theorem mem_laterDates {holder : Days Time A} {date k : Time} :
    k ∈ laterDates holder date ↔ (holder.find? k).isSome ∧ date < k := by
  simp [laterDates, mem_keys]

variable {holder : Days Time A} {date : Time} {amount : A} {day : Day A}

variable (holder date) in
omit [AddCommGroup A] in
theorem laterDates_nodup : (laterDates holder date).Nodup := holder.keys_nodup.filter _

theorem laterFit_iff (days : Days Time A)
    (same : ∀ k, date < k → days.find? k = holder.find? k) :
    LaterFit F holder date amount ↔
      ∀ k ∈ laterDates holder date, F.Fits (((days.find? k).getD ⟨0, 0⟩).before + amount) := by
  constructor
  · intro fits k hk
    obtain ⟨some_day, late⟩ := mem_laterDates.1 hk
    obtain ⟨d, found⟩ := Option.isSome_iff_exists.1 some_day
    rw [same k late, found]
    exact fits (k, d) (find?_eq_some.1 found) late
  · intro fits e he late
    have found : holder.find? e.1 = some e.2 := find?_eq_some.2 he
    have one := fits e.1 (mem_laterDates.2 ⟨by simp [found], late⟩)
    rwa [same e.1 late, found] at one

/-- The days in the loop, once the day of the date is written. -/
def withDay (holder : Days Time A) (date : Time) (day : Day A) : Days Time A :=
  (holder.insertNew date ⟨0, 0⟩).modify date fun _ => day

theorem find?_withDay (k : Time) :
    (withDay holder date day).find? k = if k = date then some day else holder.find? k := by
  rw [withDay, find?_modify, find?_insertNew]
  by_cases same : k = date
  · cases found : holder.find? date <;> simp [same, found]
  · simp [same]

theorem withDay_eq (at_date : days.find? date = some day)
    (others : ∀ k, k ≠ date → days.find? k = holder.find? k) : days = withDay holder date day := by
  apply ext_find
  intro k
  rw [find?_withDay]
  by_cases same : k = date
  · rw [if_pos same, same, at_date]
  · rw [if_neg same, others k same]

theorem tryAdd_some (found : holder.find? date = some day) :
    tryAdd F holder date amount =
      if F.Fits (day.value + amount) then
        addLater F amount (laterDates holder date)
          (withDay holder date { day with value := day.value + amount }) []
      else
        (false, withDay holder date { day with value := (F.plusAssign day.value amount).2 }, []) := by
  have opened (v : A) : ((holder.insertNew date ⟨0, 0⟩).modify date
      (fun d => { d with value := v })) = withDay holder date { day with value := v } := by
    apply withDay_eq
    · simp [find?_modify, find?_insertNew, found]
    · intro k ne
      simp [find?_modify, find?_insertNew, ne]
  have based (v : A) : ((withDay holder date { day with value := v }).modify date
      (fun d => { d with before := day.before })) = withDay holder date { day with value := v } := by
    apply withDay_eq
    · simp [find?_modify, find?_withDay]
    · intro k ne
      simp [find?_modify, find?_withDay, ne]
  have value : (((holder.insertNew date ⟨0, 0⟩).find? date).getD ⟨0, 0⟩).value = day.value := by
    simp [find?_insertNew, found]
  unfold tryAdd
  simp only [value, opened, found, Option.isNone_some, Bool.false_eq_true, if_false, find?_withDay,
    if_true, Option.getD_some, Bool.not_true, based]
  by_cases fits : F.Fits (day.value + amount)
  · simp [F.plus_fits fits, fits, laterDates]
  · simp [F.plus_throws fits, fits]

/-- A new day is left with the amount, and with its base if that fits. -/
theorem tryAdd_none (missing : holder.find? date = none) (fits : F.Fits amount) :
    if F.Fits (holder.totalBefore date) then
      tryAdd F holder date amount = addLater F amount (laterDates holder date)
        (withDay holder date ⟨holder.totalBefore date, amount⟩) []
    else ∃ b, tryAdd F holder date amount = (false, withDay holder date ⟨b, amount⟩, []) := by
  have value : (((holder.insertNew date ⟨0, 0⟩).find? date).getD ⟨0, 0⟩).value = (0 : A) := by
    simp [find?_insertNew, missing]
  have opened : ((holder.insertNew date ⟨0, 0⟩).modify date
      (fun d => { d with value := 0 + amount })) = withDay holder date ⟨0, amount⟩ := by
    apply withDay_eq
    · simp [find?_modify, find?_insertNew, missing]
    · intro k ne
      simp [find?_modify, find?_insertNew, ne]
  have based (b : A) : ((withDay holder date ⟨0, amount⟩).modify date
      (fun d => { d with before := b })) = withDay holder date ⟨b, amount⟩ := by
    apply withDay_eq
    · simp [find?_modify, find?_withDay]
    · intro k ne
      simp [find?_modify, find?_withDay, ne]
  have added : F.plusAssign 0 amount = (true, 0 + amount) := F.plus_fits (by simpa using fits)
  unfold tryAdd
  simp only [value, added, opened, missing, Option.isNone_none, if_true, Bool.not_true,
    Bool.false_eq_true, if_false, find?_withDay, Option.getD_some, based]
  unfold Days.totalBefore
  cases holder.predecessor? date with
  | none => simp [F.fits_zero, laterDates]
  | some entry =>
    by_cases base : F.Fits (entry.2.before + entry.2.value)
    · simp [base, F.sum_fits base, laterDates]
    · simp only [base, F.sum_throws base, if_false, Bool.not_false, if_true]
      exact ⟨_, rfl⟩

/-- The day the additions leave when the base of the date is in place. -/
def addedDay (holder : Days Time A) (date : Time) (amount : A) : Day A :=
  match holder.find? date with
  | some day => { day with value := day.value + amount }
  | none => ⟨holder.totalBefore date, amount⟩

/-- Nothing overflows but later bases. -/
def DayFits (F : DayFields A) (holder : Days Time A) (date : Time) (amount : A) : Prop :=
  match holder.find? date with
  | some day => F.Fits (day.value + amount)
  | none => F.Fits (holder.totalBefore date)

theorem tryAdd_day (fits : F.Fits amount) (day : DayFits F holder date amount) :
    tryAdd F holder date amount = addLater F amount (laterDates holder date)
      (withDay holder date (addedDay holder date amount)) [] := by
  unfold DayFits at day
  unfold addedDay
  cases found : holder.find? date with
  | some d =>
    simp only [found] at day ⊢
    rw [tryAdd_some found, if_pos day]
  | none =>
    simp only [found] at day ⊢
    have opened := tryAdd_none found fits
    rwa [if_pos day] at opened

theorem withDay_later (k : Time) (late : date < k) :
    (withDay holder date day).find? k = holder.find? k := by
  rw [find?_withDay, if_neg late.ne']

/-- Where nothing overflows, the holder is the one of unlimited decimals. -/
theorem addAmount_done (fits : F.Fits amount) (day : DayFits F holder date amount)
    (later : LaterFit F holder date amount) :
    addAmount F holder date amount = some (true, holder.addAmount date amount) := by
  obtain ⟨ends, found⟩ := addLater_fits
    (withDay holder date (addedDay holder date amount)) [] (laterDates_nodup holder date)
    ((laterFit_iff _ withDay_later).1 later)
  unfold addAmount
  simp only [tryAdd_day fits day, ends, if_true]
  congr 2
  apply ext_find
  intro k
  rw [found, Days.find?_addAmount]
  by_cases same : k = date
  · subst same
    have not_later : k ∉ laterDates holder k := fun mem => lt_irrefl k (mem_laterDates.1 mem).2
    rw [if_neg not_later, find?_withDay, if_pos rfl, if_pos rfl]
    unfold addedDay
    cases holder.find? k <;> rfl
  · rw [if_neg same, find?_withDay, if_neg same]
    by_cases late : date < k
    · cases there : holder.find? k <;> simp [late, there, mem_laterDates]
    · simp [late, mem_laterDates]

/-! ## The revert -/

theorem later_overflow (stored : Representable F holder) (fits : F.Fits amount)
    (day : DayFits F holder date amount) (later : ¬ LaterFit F holder date amount) :
    ¬ AllOrNothing F holder date amount := by
  intro restored
  rw [laterFit_iff (withDay holder date (addedDay holder date amount)) withDay_later]
    at later
  push Not at later
  obtain ⟨key, mem, overflows⟩ := later
  obtain ⟨days, at_, passed, d, stops, at_mem, fresh, found, throws, left, -⟩ :=
    addLater_throws [] (laterDates_nodup holder date) (by simp)
      (fun k hk => by
        obtain ⟨some_day, late⟩ := mem_laterDates.1 hk
        rwa [withDay_later k late]) mem overflows
  obtain ⟨-, late⟩ := mem_laterDates.1 at_mem
  rw [withDay_later at_ late] at found
  have d_fits : F.Fits d.before := (stored _ (find?_eq_some.1 found)).1
  have result := restored (by rw [Throws, tryAdd_day fits day, stops])
  rw [addAmount, tryAdd_day fits day, stops] at result
  simp only [Bool.false_eq_true, if_false] at result
  split at result
  · cases result
  · obtain ⟨reverted, reverts, same⟩ := Option.map_eq_some_iff.1 result
    have unchanged : reverted.find? at_ = some d := by
      have whole := congrArg (fun m => m.find? at_) (Prod.mk.inj same).2
      rw [← found, ← whole]
      split
      · rw [find?_erase, if_neg late.ne']
      · rfl
    rw [revertLater] at reverts
    simp only [find?_modify, late.ne', if_false, left, Option.getD_some] at reverts
    split at reverts
    · rename_i done
      rw [reverted_other fresh reverts] at unchanged
      simp [find?_modify, late.ne', left] at unchanged
      have same_base := congrArg Day.before unchanged
      exact taken_ne d_fits throws done same_base
    · cases reverts

theorem day_overflow (stored : Representable F holder) (found : holder.find? date = some day)
    (throws : ¬ F.Fits (day.value + amount)) : ¬ AllOrNothing F holder date amount := by
  intro restored
  have day_fits : F.Fits day.value := (stored _ (find?_eq_some.1 found)).2
  have tried : tryAdd F holder date amount = if F.Fits (day.value + amount) then
      addLater F amount (laterDates holder date)
        (withDay holder date { day with value := day.value + amount }) []
    else (false, withDay holder date { day with value := (F.plusAssign day.value amount).2 }, []) :=
    tryAdd_some found
  rw [if_neg throws] at tried
  have result := restored (by rw [Throws, tried])
  rw [addAmount, tried] at result
  simp only [Bool.false_eq_true, if_false, find?_withDay, if_true, Option.getD_some] at result
  split at result
  · cases result
  · rename_i done
    have same := (Prod.mk.inj (Option.some.inj result)).2
    have unchanged := congrArg (fun m => m.find? date) same
    simp only [found, Option.isNone_some, Bool.false_eq_true, if_false, find?_modify,
      if_true, find?_withDay, Option.map_some, Option.some.injEq] at unchanged
    exact taken_ne day_fits throws (by simpa using done) (congrArg Day.value unchanged)

theorem base_overflow (missing : holder.find? date = none) (fits : F.Fits amount)
    (throws : ¬ F.Fits (holder.totalBefore date)) : AllOrNothing F holder date amount := by
  intro _
  have opened := tryAdd_none missing fits
  rw [if_neg throws] at opened
  obtain ⟨b, tried⟩ := opened
  unfold addAmount
  simp only [tried, Bool.false_eq_true, if_false, find?_withDay, if_true, Option.getD_some,
    F.minus_fits, Bool.not_true, revertLater, Option.map_some, missing, Option.isNone_none]
  congr 2
  apply ext_find
  intro k
  rw [find?_erase, find?_modify, find?_withDay]
  by_cases same : k = date
  · rw [if_pos same, same, missing]
  · simp [same]

theorem allOrNothing_fields (stored : Representable F holder) (fits : F.Fits amount) :
    AllOrNothing F holder date amount ↔ OnlyBaseOverflows F holder date amount := by
  by_cases day_fits : DayFits F holder date amount
  · have only : OnlyBaseOverflows F holder date amount ↔ LaterFit F holder date amount := by
      unfold OnlyBaseOverflows
      unfold DayFits at day_fits
      cases found : holder.find? date with
      | some day =>
        simp only [found] at day_fits ⊢
        exact and_iff_right day_fits
      | none =>
        simp only [found] at day_fits ⊢
        exact forall_prop_of_true day_fits
    rw [only]
    constructor
    · intro restored
      by_contra later
      exact later_overflow stored fits day_fits later restored
    · intro later throws
      have done := addLater_fits
        (withDay holder date (addedDay holder date amount)) [] (laterDates_nodup holder date)
        ((laterFit_iff _ withDay_later).1 later)
      rw [Throws, tryAdd_day fits day_fits, done.1] at throws
      cases throws
  · unfold OnlyBaseOverflows
    unfold DayFits at day_fits
    cases found : holder.find? date with
    | some day =>
      simp only [found] at day_fits ⊢
      exact iff_of_false (day_overflow stored found day_fits) (fun only => day_fits only.1)
    | none =>
      simp only [found] at day_fits ⊢
      exact iff_of_true (base_overflow found fits day_fits) (fun base => absurd base day_fits)

end AddAmount

/-- Both holders are left as they were after every overflow exactly where the only
overflow there can be is in the base of a new day. -/
theorem all_or_nothing_iff (R : CountRanges) :
    (∀ (holder : AccountAmountHolder) (date : Time) (amount : Int),
        Representable (accountFields R.revenue) holder → R.revenue.Fits amount →
        (AllOrNothing (accountFields R.revenue) holder date amount ↔
          OnlyBaseOverflows (accountFields R.revenue) holder date amount)) ∧
      ∀ (holder : AmountHolder) (date : Time) (add : Counts),
        Representable (amountFields R) holder → R.Fits add →
        (AllOrNothing (amountFields R) holder date add ↔
          OnlyBaseOverflows (amountFields R) holder date add) := by
  constructor
  · intro holder date amount stored fits
    exact allOrNothing_fields stored fits
  · intro holder date add stored fits
    exact allOrNothing_fields stored fits

section

def upToHundred : DecimalRange := ⟨-100, 100, by decide, by decide⟩

def hundreds : CountRanges := ⟨upToHundred, upToHundred⟩

/-- One day with the greatest amount there is. -/
def fullDay : AmountHolder := SortedMap.empty.put oneDay ⟨0, ⟨100, 3, 1⟩⟩

theorem addAmount_done_later : addAmount (amountFields hundreds) fullDay 0 ⟨0, 1, 1⟩ =
    some (true, fullDay.addAmount 0 ⟨0, 1, 1⟩) :=
  addAmount_done (by decide) (show hundreds.Fits _ by decide) (by unfold LaterFit; decide)

/-- Adding one more to it takes one away, and an impression and a click with it. -/
theorem full_day_not_restored :
    addAmount (amountFields hundreds) fullDay oneDay ⟨1, 1, 1⟩ =
        some (false, SortedMap.empty.put oneDay ⟨0, ⟨99, 2, 0⟩⟩) ∧
      Representable (amountFields hundreds) fullDay ∧
      ¬ AllOrNothing (amountFields hundreds) fullDay oneDay ⟨1, 1, 1⟩ := by
  have result : addAmount (amountFields hundreds) fullDay oneDay ⟨1, 1, 1⟩ =
      some (false, SortedMap.empty.put oneDay ⟨0, ⟨99, 2, 0⟩⟩) := by decide
  refine ⟨result, by decide, fun restored => ?_⟩
  rw [restored (by decide)] at result
  exact absurd result (by decide)

theorem all_or_nothing_new_day :
    AllOrNothing (accountFields upToHundred)
      (SortedMap.empty.put 0 ⟨60, 60⟩ : AccountAmountHolder) oneDay 1 :=
  ((all_or_nothing_iff hundreds).1 _ _ _ (by decide) (by decide)).2
    (show upToHundred.Fits 120 → _ from fun base => absurd base (by decide))

end

end AdServer.Billing
