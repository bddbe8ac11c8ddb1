import AdServer.RequestInfo.FraudProtection

/-!
# Fraud as too many motions in an interval

A rule is violated when its limit is reached within an interval of its period that has now in it.
The search finds the interval among the motions around now by moving two positions.
-/

namespace AdServer.RequestInfo.FraudProtection

variable {first last low up nowMotions fuel : Nat} {bound' start end_ : Int} {time : Int → Int}

/-- With the motion at now, an interval around now reaches the limit. -/
def Violated (motions : List UserMotion) (now : Int) (rule : FraudRule) : Prop :=
  ∃ start, start ≤ now ∧ now ≤ start + rule.period ∧
    rule.limit ≤
      motions.countP (fun motion => start ≤ motion.at ∧ motion.at ≤ start + rule.period) + 1

def SomeViolated (motions : List UserMotion) (now : Int) (set : FraudRuleSet) : Prop :=
  ∃ rule ∈ set.rules, Violated motions now rule

/-- What is found is a fraud, around now, and as long as the period of a rule. -/
structure FindsFraud (motions : List UserMotion) (now : Int) (set : FraudRuleSet)
    (result : Bool × Interval) : Prop where
  fraud : result.1 = true ↔ SomeViolated motions now set
  interval : result.1 = true → result.2.start ≤ now ∧ now ≤ result.2.end_ ∧
    ∃ rule ∈ set.rules, Violated motions now rule ∧
      rule.period ≤ result.2.end_ - result.2.start

/-- A fraud is one without the motions that come a longest period after now. -/
def SeenInTime (motions : List UserMotion) (now : Int) (set : FraudRuleSet) : Prop :=
  SomeViolated motions now set →
    SomeViolated (motions.filter fun motion => motion.at < now + set.maxPeriod) now set

section Positions

variable {α : Type} {p : α → Bool} {l : List α}

section
variable (closed : l.Pairwise fun x y => p y → p x)
include closed

/-- What meets the condition comes first. -/
theorem lt_countP_iff {i : Nat} : i < l.countP p ↔ ∃ x, l[i]? = some x ∧ p x := by
  induction l generalizing i with
  | nil => simp
  | cons x l ih =>
    obtain ⟨first, closed⟩ := List.pairwise_cons.1 closed
    by_cases met : p x
    · rw [List.countP_cons_of_pos met]
      cases i with
      | zero => simp [met]
      | succ i => simp [ih closed]
    · rw [List.countP_cons_of_neg met, List.countP_eq_zero.2 fun y member => mt (first y member) met]
      constructor
      · intro impossible
        exact absurd impossible (Nat.not_lt_zero _)
      · rintro ⟨y, found, met'⟩
        rcases List.mem_cons.1 (List.mem_of_getElem? found) with rfl | member
        · exact absurd met' met
        · exact absurd (first y member met') met

theorem countP_take (k : Nat) : (l.take k).countP p = min k (l.countP p) := by
  apply eq_of_forall_lt_iff
  intro i
  rw [lt_min_iff, lt_countP_iff (closed.sublist (List.take_sublist k l)), lt_countP_iff closed]
  rw [List.getElem?_take]
  split_ifs with inside <;> simp [inside]

theorem countP_filter_min {q : α → Bool} (closed' : l.Pairwise fun x y => q y → q x) :
    (l.filter q).countP p = min (l.countP p) (l.countP q) := by
  have both : l.Pairwise fun x y => (p y && q y) → (p x && q x) := by
    refine closed.imp₂ (fun x y keeps keeps' => ?_) closed'
    simp only [Bool.and_eq_true]
    exact And.imp keeps keeps'
  apply eq_of_forall_lt_iff
  intro i
  rw [List.countP_filter, lt_min_iff, lt_countP_iff closed, lt_countP_iff closed',
    lt_countP_iff both]
  cases found : l[i]? <;> simp

theorem length_takeWhile : (l.takeWhile p).length = l.countP p := by
  induction l with
  | nil => rfl
  | cons x l ih =>
    obtain ⟨first, closed⟩ := List.pairwise_cons.1 closed
    by_cases met : p x
    · simp [met, ih closed]
    · rw [List.takeWhile_cons_of_neg met, List.countP_cons_of_neg met,
        List.countP_eq_zero.2 fun y member => mt (first y member) met, List.length_nil]

/-- A search between two positions finds the position of the whole list, if it is between them. -/
theorem length_takeWhile_between (_ : first ≤ last) :
    first + (((l.drop first).take (last - first)).takeWhile p).length =
      max first (min last (l.countP p)) := by
  have split : (l.take last).countP p =
      ((l.take last).take first).countP p + ((l.take last).drop first).countP p := by
    rw [← List.countP_append, List.take_append_drop]
  have closed_take := closed.sublist (List.take_sublist last l)
  rw [← List.drop_take, length_takeWhile (closed_take.sublist (List.drop_sublist first _))]
  rw [countP_take closed_take, countP_take closed] at split
  omega

end

end Positions

section Counts

variable {motions : List UserMotion} {bound : Int} {i : Nat}

def countBefore (motions : List UserMotion) (bound : Int) : Nat :=
  motions.countP fun motion => motion.at < bound

def countUntil (motions : List UserMotion) (bound : Int) : Nat :=
  motions.countP fun motion => motion.at ≤ bound

theorem read_natCast (outside : Int → Nat) {motion : UserMotion} (found : motions[i]? = some motion) :
    read motions outside i = motion.at := by
  simp [read, found]

theorem countBefore_le_countBefore (le : bound ≤ bound') :
    countBefore motions bound ≤ countBefore motions bound' := by
  apply List.countP_mono_left
  intro motion _ before
  exact decide_eq_true ((of_decide_eq_true before).trans_le le)

theorem countUntil_le_countUntil (le : bound ≤ bound') :
    countUntil motions bound ≤ countUntil motions bound' := by
  apply List.countP_mono_left
  intro motion _ before
  exact decide_eq_true ((of_decide_eq_true before).trans le)

theorem countBefore_le_countUntil (le : bound ≤ bound' + 1) :
    countBefore motions bound ≤ countUntil motions bound' := by
  apply List.countP_mono_left
  intro motion _ before
  have := of_decide_eq_true before
  exact decide_eq_true (by omega)

/-- The motions of an interval are those until its end without those before its start. -/
theorem countP_interval (le : start ≤ end_ + 1) :
    motions.countP (fun motion => start ≤ motion.at ∧ motion.at ≤ end_) =
      countUntil motions end_ - countBefore motions start := by
  have sum : countUntil motions end_ = countBefore motions start +
      motions.countP fun motion => start ≤ motion.at ∧ motion.at ≤ end_ := by
    induction motions with
    | nil => rfl
    | cons motion motions ih =>
      simp only [countUntil, countBefore] at ih ⊢
      simp only [List.countP_cons, ih, decide_eq_true_eq]
      split_ifs <;> omega
  omega

variable (sorted : motions.Pairwise (·.at ≤ ·.at))

include sorted

theorem closed_before (bound : Int) :
    motions.Pairwise fun x y => decide (y.at < bound) → decide (x.at < bound) :=
  sorted.imp fun le before => decide_eq_true (le.trans_lt (of_decide_eq_true before))

theorem closed_until (bound : Int) :
    motions.Pairwise fun x y => decide (y.at ≤ bound) → decide (x.at ≤ bound) :=
  sorted.imp fun le before => decide_eq_true (le.trans (of_decide_eq_true before))

theorem lowerBound_eq (le : first ≤ last) (bound : Int) :
    lowerBound motions first last bound = max first (min last (countBefore motions bound)) :=
  length_takeWhile_between (closed_before sorted bound) le

theorem upperBound_eq (le : first ≤ last) (bound : Int) :
    upperBound motions first last bound = max first (min last (countUntil motions bound)) :=
  length_takeWhile_between (closed_until sorted bound) le

theorem lt_countBefore (outside : Int → Nat) (inside : i < motions.length) :
    i < countBefore motions bound ↔ read motions outside i < bound := by
  have found := List.getElem?_eq_getElem inside
  rw [countBefore, lt_countP_iff (closed_before sorted bound), read_natCast outside found]
  simp [found]

theorem lt_countUntil (outside : Int → Nat) (inside : i < motions.length) :
    i < countUntil motions bound ↔ read motions outside i ≤ bound := by
  have found := List.getElem?_eq_getElem inside
  rw [countUntil, lt_countP_iff (closed_until sorted bound), read_natCast outside found]
  simp [found]

theorem read_mono (outside : Int → Nat) {i j : Int} (from_ : 0 ≤ i) (le : i ≤ j)
    (inside : j < motions.length) :
    read motions outside i ≤ read motions outside j := by
  lift j to Nat using by omega
  lift i to Nat using from_
  rw [← lt_countUntil sorted outside (by omega)]
  have : j < countUntil motions (read motions outside j) :=
    (lt_countUntil sorted outside (by omega)).2 le_rfl
  omega

end Counts

/-- Two positions before the last one that make up an interval of the rule. -/
def Reaches (rule : FraudRule) (time : Int → Int) (nowMotions : Nat) (last left right : Int) :
    Prop :=
  left ≤ right ∧ right < last ∧ time right ≤ rule.period + time left ∧
    rule.limit ≤ right - left + 1 + nowMotions

section Search

variable {rule : FraudRule} {time : Int → Int} {nowMotions fuel : Nat} {last left right : Int}

theorem searchForward_some {found : Int}
    (search : searchForward rule time nowMotions last fuel left right = some found)
    (period : 0 ≤ rule.period) (le : left ≤ right) (inside : right ≤ last) :
    left ≤ found ∧ ∃ right, Reaches rule time nowMotions last found right := by
  induction fuel generalizing left right with
  | zero => cases search
  | succ fuel ih =>
    rw [searchForward] at search
    split_ifs at search with more late enough
    · have ne : left ≠ right := by
        rintro rfl
        omega
      obtain ⟨after, reaches⟩ := ih search (by omega) inside
      exact ⟨by omega, reaches⟩
    · cases search
      exact ⟨le_rfl, right, le, by omega, by omega, enough⟩
    · exact ih search (by omega) (by omega)

theorem searchForward_none
    (search : searchForward rule time nowMotions last fuel left right = none)
    (period : 0 ≤ rule.period) (le : left ≤ right) (inside : right ≤ last)
    (fuels : (last - left) + (last - right) < fuel) {first : Int}
    (mono : ∀ i j, first ≤ i → i ≤ j → j < last → time i ≤ time j) (from_ : first ≤ left)
    {i j : Int} (after : left ≤ i) (after' : right ≤ j) :
    ¬Reaches rule time nowMotions last i j := by
  rintro ⟨le', inside', within, enough⟩
  induction fuel generalizing left right with
  | zero => omega
  | succ fuel ih =>
    rw [searchForward] at search
    split_ifs at search with more late few
    · have ne : left ≠ right := by
        rintro rfl
        omega
      have ne' : left ≠ i := by
        rintro rfl
        have := mono right j (by omega) after' inside'
        omega
      exact ih search (by omega) inside (by omega) (by omega) (by omega) after'
    · have ne : right ≠ j := by
        rintro rfl
        omega
      exact ih search (by omega) (by omega) (by omega) from_ after (by omega)
    · omega

end Search

section Rule

variable {motions : List UserMotion} {rule : FraudRule} {now maxPeriod : Int}
  {outside : Int → Nat}

theorem violated_before_iff (sorted : motions.Pairwise (·.at ≤ ·.at)) :
    Violated (motions.filter fun motion => motion.at < now + maxPeriod) now rule ↔
      ∃ start, start ≤ now ∧ now ≤ start + rule.period ∧ rule.limit ≤
        min (countUntil motions (start + rule.period)) (countBefore motions (now + maxPeriod)) -
          min (countBefore motions start) (countBefore motions (now + maxPeriod)) + 1 := by
  apply exists_congr
  intro start
  refine and_congr_right fun past => and_congr_right fun future => ?_
  rw [countP_interval (by omega), countUntil, countBefore,
    countP_filter_min (closed_until sorted _) (closed_before sorted _),
    countP_filter_min (closed_before sorted _) (closed_before sorted _)]
  rfl

theorem violated_of_reaches (sorted : motions.Pairwise (·.at ≤ ·.at)) (_ : 0 ≤ rule.period) {last left right : Int}
    (from_ : (countBefore motions (now - rule.period) : Int) ≤ left)
    (before : last ≤ min (countBefore motions (now + maxPeriod))
      (countUntil motions (now + rule.period)))
    (reaches : Reaches rule (read motions outside) 1 last left right) :
    Violated (motions.filter fun motion => motion.at < now + maxPeriod) now rule := by
  obtain ⟨le, inside, within, enough⟩ := reaches
  lift left to Nat using by omega
  lift right to Nat using by omega
  have length : countUntil motions (now + rule.period) ≤ motions.length := List.countP_le_length
  have left_after : now - rule.period ≤ read motions outside left := by
    by_contra! early
    have := (lt_countBefore sorted outside (by omega)).2 early
    omega
  have right_before : read motions outside right ≤ now + rule.period :=
    (lt_countUntil sorted outside (by omega)).1 (by omega)
  refine (violated_before_iff sorted).2 ⟨min now (read motions outside left), by omega, by omega, ?_⟩
  have not_before : countBefore motions (min now (read motions outside left)) ≤ left := by
    by_contra! early
    have := (lt_countBefore sorted outside (by omega)).1 early
    omega
  have until_ : right < countUntil motions (min now (read motions outside left) + rule.period) :=
    (lt_countUntil sorted outside (by omega)).2 (by omega)
  omega

/-- No more than the limit of the motions on each side of now are needed. -/
theorem reaches_of_violated (outside : Int → Nat) (sorted : motions.Pairwise (·.at ≤ ·.at))
    (limit : 2 ≤ rule.limit) (positive : 0 ≤ maxPeriod)
    (violated : Violated (motions.filter fun motion => motion.at < now + maxPeriod) now rule)
    {from_ end_ : Int} (is_low : low = countBefore motions now)
    (is_up : up = min (countBefore motions (now + maxPeriod)) (countUntil motions now))
    (is_first : first = countBefore motions (now - rule.period))
    (is_last : last = min (countBefore motions (now + maxPeriod))
      (countUntil motions (now + rule.period)))
    (is_from : from_ = if rule.limit < low - first + 1 then low + (1 - rule.limit : Int) else first)
    (is_end : end_ = if rule.limit < last - up then (up + rule.limit : Int) else last) :
    rule.limit ≤ last - first + 1 ∧ ∃ left right : Int, from_ ≤ left ∧
      Reaches rule (read motions outside) 1 end_ left right := by
  obtain ⟨start, past, future, enough⟩ := (violated_before_iff sorted).1 violated
  have length : countUntil motions (start + rule.period) ≤ motions.length := List.countP_le_length
  -- the motions of the interval are around now
  have first_le : first ≤ countBefore motions start :=
    is_first ▸ countBefore_le_countBefore (by omega)
  have before_low : countBefore motions start ≤ low :=
    is_low ▸ countBefore_le_countBefore (by omega)
  have low_until : low ≤ countUntil motions (start + rule.period) :=
    is_low ▸ countBefore_le_countUntil (by omega)
  have until_last : countUntil motions (start + rule.period) ≤
      countUntil motions (now + rule.period) := countUntil_le_countUntil (by omega)
  have low_le : low ≤ countBefore motions (now + maxPeriod) :=
    is_low ▸ countBefore_le_countBefore (by omega)
  have low_now : low ≤ countUntil motions now := is_low ▸ countBefore_le_countUntil (by omega)
  have now_last : countUntil motions now ≤ countUntil motions (now + rule.period) :=
    countUntil_le_countUntil (by omega)
  obtain ⟨left, is_left⟩ : ∃ left, left = max (countBefore motions start : Int) from_ := ⟨_, rfl⟩
  obtain ⟨hi, is_hi⟩ : ∃ hi, hi = min (countUntil motions (start + rule.period))
      (countBefore motions (now + maxPeriod)) := ⟨_, rfl⟩
  obtain ⟨right, is_right⟩ : ∃ right : Int, right = min (hi : Int) end_ - 1 := ⟨_, rfl⟩
  have low_up : low ≤ up := is_up ▸ le_min low_le low_now
  have hi_last : hi ≤ last := by
    rw [is_hi, is_last, min_comm]
    exact min_le_min_left _ until_last
  have low_hi : low ≤ hi := is_hi ▸ le_min low_until low_le
  have wide : rule.limit ≤ hi - countBefore motions start + 1 := by
    clear is_from is_end is_right is_left
    omega
  have order : left ≤ right ∧ rule.limit ≤ right - left + 2 := by
    clear enough is_hi is_up is_last until_last now_last low_until low_le low_now
    split_ifs at is_from is_end <;> omega
  refine ⟨by omega, left, right, by omega, order.1, by omega, ?_, by omega⟩
  lift left to Nat using by omega
  lift right to Nat using by omega
  have start_le : start ≤ read motions outside left := by
    by_contra! early
    have := (lt_countBefore sorted outside (by omega)).2 early
    omega
  have le_end : read motions outside right ≤ start + rule.period :=
    (lt_countUntil sorted outside (by omega)).1 (by omega)
  omega

/-- An interval around now that is as long as the period. -/
def Interval.Around (found : Interval) (now period : Int) : Prop :=
  found.start ≤ now ∧ now ≤ found.end_ ∧ period ≤ found.end_ - found.start

theorem searchRule_none {first last : Int}
    (search : searchForward rule time nowMotions last fuel first first = none) (found : Interval) :
    searchRule rule time now nowMotions fuel first last found = (false, found) := by
  rw [searchRule, search]

/-- It ends no later than a period after now, or where it ended. -/
theorem searchRule_some {first last start : Int}
    (search : searchForward rule time nowMotions last fuel first first = some start)
    (recent : now ≤ time start + rule.period) (period : 0 ≤ rule.period) (found : Interval) :
    (searchRule rule time now nowMotions fuel first last found).1 = true ∧
      (searchRule rule time now nowMotions fuel first last found).2.Around now rule.period ∧
      min now (time start) + rule.period ≤
        (searchRule rule time now nowMotions fuel first last found).2.end_ ∧
      (searchRule rule time now nowMotions fuel first last found).2.end_ ≤
        max found.end_ (now + rule.period) := by
  rw [searchRule, search]
  dsimp only
  have le_start : (if found.start = 0 then min now (time start)
      else min found.start (min now (time start))) ≤ min now (time start) := by
    split_ifs <;> omega
  generalize (if found.start = 0 then min now (time start)
    else min found.start (min now (time start))) = first at le_start ⊢
  simp only [Interval.Around]
  split_ifs with more
  · cases searchBackward rule time nowMotions start fuel (last - 1) (last - 1) with
    | none => exact ⟨rfl, by dsimp only; omega⟩
    | some left => exact ⟨rfl, by dsimp only; omega⟩
  · exact ⟨rfl, by dsimp only; omega⟩

theorem recent_of_reaches (sorted : motions.Pairwise (·.at ≤ ·.at)) {last left right : Int}
    (from_ : (countBefore motions (now - rule.period) : Int) ≤ left) (inside : last ≤ motions.length)
    (reaches : Reaches rule (read motions outside) 1 last left right) :
    now ≤ read motions outside left + rule.period := by
  obtain ⟨le, before, -⟩ := reaches
  by_contra! early
  lift left to Nat using by omega
  have : left < countBefore motions (now - rule.period) :=
    (lt_countBefore sorted outside (by omega)).2 (by omega)
  omega

section Bounds
variable (outside : Int → Nat) (sorted : motions.Pairwise (·.at ≤ ·.at)) (limit : 1 ≤ rule.limit)
  (period : 0 ≤ rule.period) (le : rule.period ≤ maxPeriod) {start last low up : Nat}
  (is_start : start = countBefore motions (now - maxPeriod))
  (is_last : last = countBefore motions (now + maxPeriod))
  (is_low : low = countBefore motions now)
  (is_up : up = min last (countUntil motions now)) (found : Interval)
include sorted limit period le is_start is_last is_low is_up

/-- The search goes from the motions a period before now to those a period after it. -/
theorem checkRule_eq : ∃ (first end_ : Nat) (from_ to_ : Int),
    first = countBefore motions (now - rule.period) ∧
    end_ = min last (countUntil motions (now + rule.period)) ∧
    (from_ = if rule.limit < low - first + 1 then low + (1 - rule.limit : Int) else first) ∧
    (to_ = if rule.limit < end_ - up then (up + rule.limit : Int) else end_) ∧
    first ≤ from_ ∧ from_ ≤ to_ ∧ to_ ≤ end_ ∧
    checkRule motions outside now 1 start last low up found rule =
      if rule.limit ≤ end_ - first + 1 then
        searchRule rule (read motions outside) now 1 (2 * motions.length + 2) from_ to_ found
      else (false, found) := by
  have start_low : start ≤ low := by
    rw [is_start, is_low]
    exact countBefore_le_countBefore (by omega)
  have start_first : start ≤ countBefore motions (now - rule.period) :=
    is_start ▸ countBefore_le_countBefore (by omega)
  have first_low : countBefore motions (now - rule.period) ≤ low :=
    is_low ▸ countBefore_le_countBefore (by omega)
  have low_up : low ≤ up := by
    rw [is_up, is_low, is_last]
    exact le_min (countBefore_le_countBefore (by omega)) (countBefore_le_countUntil (by omega))
  have until_le : countUntil motions now ≤ countUntil motions (now + rule.period) :=
    countUntil_le_countUntil (by omega)
  rw [checkRule, lowerBound_eq sorted start_low, upperBound_eq sorted (by omega)]
  obtain ⟨first, is_first⟩ : ∃ first, first = countBefore motions (now - rule.period) := ⟨_, rfl⟩
  obtain ⟨end_, is_end⟩ : ∃ end_, end_ = min last (countUntil motions (now + rule.period)) :=
    ⟨_, rfl⟩
  rw [show max start (min low (countBefore motions (now - rule.period))) = first by omega,
    show max up (min last (countUntil motions (now + rule.period))) = end_ by omega]
  refine ⟨first, end_, _, _, is_first, is_end, rfl, rfl, ?_, ?_, ?_, rfl⟩
  all_goals split_ifs <;> omega

/-- What a rule finds is around now, and ends no later than its period after now. -/
theorem checkRule_around :
    checkRule motions outside now 1 start last low up found rule = (false, found) ∨
    ∃ at_ : Int,
      (checkRule motions outside now 1 start last low up found rule).1 = true ∧
      (checkRule motions outside now 1 start last low up found rule).2.Around now rule.period ∧
      min now (read motions outside at_) + rule.period ≤
        (checkRule motions outside now 1 start last low up found rule).2.end_ ∧
      (checkRule motions outside now 1 start last low up found rule).2.end_ ≤
        max found.end_ (now + rule.period) := by
  obtain ⟨first, end_, from_, to_, is_first, is_end, -, -, bounds, order, until_, eq⟩ :=
    checkRule_eq outside sorted limit period le is_start is_last is_low is_up found
  rw [eq]
  split_ifs with enough
  · cases search : searchForward rule (read motions outside) 1 to_ (2 * motions.length + 2) from_
      from_ with
    | none => exact .inl (searchRule_none search found)
    | some found_at =>
      obtain ⟨from_le, right, reaches⟩ := searchForward_some search period le_rfl order
      have length : last ≤ motions.length := is_last ▸ List.countP_le_length
      have recent : now ≤ read motions outside found_at + rule.period :=
        recent_of_reaches sorted (by omega) (by omega) reaches
      exact .inr ⟨found_at, searchRule_some search recent period found⟩
  · exact .inl rfl

end Bounds

theorem checkRule_cases (outside : Int → Nat) (sorted : motions.Pairwise (·.at ≤ ·.at)) (limit : 2 ≤ rule.limit)
    (period : 0 ≤ rule.period) (le : rule.period ≤ maxPeriod) {start last low up : Nat}
    (is_start : start = countBefore motions (now - maxPeriod))
    (is_last : last = countBefore motions (now + maxPeriod))
    (is_low : low = countBefore motions now)
    (is_up : up = min last (countUntil motions now)) (found : Interval) :
    (checkRule motions outside now 1 start last low up found rule = (false, found) ∧
      ¬Violated (motions.filter fun motion => motion.at < now + maxPeriod) now rule) ∨
    ((checkRule motions outside now 1 start last low up found rule).1 = true ∧
      Violated (motions.filter fun motion => motion.at < now + maxPeriod) now rule ∧
      (checkRule motions outside now 1 start last low up found rule).2.Around now rule.period) := by
  obtain ⟨first, end_, from_, to_, is_first, is_end, is_from, is_to, bounds, order, until_, eq⟩ :=
    checkRule_eq outside sorted (by omega) period le is_start is_last is_low is_up found
  have length : last ≤ motions.length := is_last ▸ List.countP_le_length
  have needed (violated : Violated (motions.filter fun motion => motion.at < now + maxPeriod) now
      rule) := by
    rw [is_last] at is_up is_end
    exact reaches_of_violated outside sorted limit (period.trans le) violated is_low is_up is_first
      is_end is_from is_to
  rw [eq]
  split_ifs with enough
  · cases search : searchForward rule (read motions outside) 1 to_ (2 * motions.length + 2) from_
      from_ with
    | none =>
      left
      refine ⟨searchRule_none search found, fun violated => ?_⟩
      obtain ⟨-, left, right, from_le, reaches⟩ := needed violated
      refine searchForward_none search period le_rfl order (by omega) ?_ le_rfl from_le
        (from_le.trans reaches.1) reaches
      intro i j from_ le inside
      exact read_mono sorted outside (by omega) le (by omega)
    | some found_at =>
      right
      obtain ⟨from_le, right, reaches⟩ := searchForward_some search period le_rfl order
      have recent : now ≤ read motions outside found_at + rule.period :=
        recent_of_reaches sorted (by omega) (by omega) reaches
      obtain ⟨fraud, around, -⟩ := searchRule_some search recent period found
      refine ⟨fraud, violated_of_reaches sorted period (by omega) ?_ reaches, around⟩
      rw [← is_last]
      omega
  · exact .inl ⟨rfl, fun violated => enough (needed violated).1⟩

end Rule

section Rules

variable {motions : List UserMotion} {set : FraudRuleSet} {now : Int}

theorem Violated.of_before {rule : FraudRule} {early : UserMotion → Bool}
    (violated : Violated (motions.filter early) now rule) : Violated motions now rule := by
  obtain ⟨start, past, future, enough⟩ := violated
  refine ⟨start, past, future, enough.trans (Nat.add_le_add_right ?_ 1)⟩
  exact List.filter_sublist.countP_le

/-- What the rules find among the motions before the end of the longest period. -/
def FindsBefore (motions : List UserMotion) (now maxPeriod : Int) (rules : List FraudRule)
    (result : Bool × Interval) : Prop :=
  let before := motions.filter fun motion => motion.at < now + maxPeriod
  (result.1 = true ↔ ∃ rule ∈ rules, Violated before now rule) ∧
    (result.1 = true → ∃ rule ∈ rules, Violated before now rule ∧
      result.2.Around now rule.period)

/-- Each rule searches the motions up to a longest period around now. -/
theorem userMotionsIsFraud_eq (outside : Int → Nat) (sorted : motions.Pairwise (·.at ≤ ·.at))
    (positive : 0 ≤ set.maxPeriod) : userMotionsIsFraud outside now 1 motions set =
      set.rules.foldl (fun result rule =>
        let checked := checkRule motions outside now 1 (countBefore motions (now - set.maxPeriod))
          (countBefore motions (now + set.maxPeriod)) (countBefore motions now)
          (min (countBefore motions (now + set.maxPeriod)) (countUntil motions now)) result.2 rule
        (result.1 || checked.1, checked.2)) (false, ⟨0, 0⟩) := by
  rw [userMotionsIsFraud]
  have start_le : countBefore motions (now - set.maxPeriod) ≤
      countBefore motions (now + set.maxPeriod) := countBefore_le_countBefore (by omega)
  have start_low : countBefore motions (now - set.maxPeriod) ≤ countBefore motions now :=
    countBefore_le_countBefore (by omega)
  have low_last : countBefore motions now ≤ countBefore motions (now + set.maxPeriod) :=
    countBefore_le_countBefore (by omega)
  have low_up : countBefore motions now ≤ countUntil motions now :=
    countBefore_le_countUntil (by omega)
  have length : countBefore motions (now + set.maxPeriod) ≤ motions.length :=
    List.countP_le_length
  rw [lowerBound_eq sorted (Nat.zero_le _), Nat.zero_max, min_eq_right (by omega),
    lowerBound_eq sorted (by omega), min_eq_right (by omega), max_eq_right (by omega),
    upperBound_eq sorted (by omega), max_eq_right (by omega), lowerBound_eq sorted (by omega),
    min_eq_right (by omega), max_eq_right (by omega)]

theorem userMotionsIsFraud_finds (outside : Int → Nat) (sorted : motions.Pairwise (·.at ≤ ·.at))
    (limits : ∀ rule ∈ set.rules, 2 ≤ rule.limit)
    (periods : ∀ rule ∈ set.rules, 0 ≤ rule.period ∧ rule.period ≤ set.maxPeriod) :
    FindsBefore motions now set.maxPeriod set.rules
      (userMotionsIsFraud outside now 1 motions set) := by
  by_cases positive : 0 ≤ set.maxPeriod
  · rw [userMotionsIsFraud_eq outside sorted positive]
    generalize set.rules = rules at limits periods
    induction rules using List.reverseRecOn with
    | nil => exact ⟨by simp, by simp⟩
    | append_singleton rules rule ih =>
      obtain ⟨fraud, interval⟩ := ih (fun other member => limits other (by simp [member]))
        fun other member => periods other (by simp [member])
      rw [List.foldl_append, List.foldl_cons, List.foldl_nil]
      generalize rules.foldl _ _ = acc at fraud interval
      obtain ⟨isFraud, found⟩ := acc
      have last : rule ∈ rules ++ [rule] := by simp
      rcases checkRule_cases outside sorted (limits rule last) (periods rule last).1
        (periods rule last).2 rfl rfl rfl rfl found with ⟨none, not_violated⟩ |
          ⟨some, violated, around⟩
      · dsimp only
        rw [none]
        refine ⟨?_, fun is_fraud => ?_⟩
        · simp [fraud, or_and_right, exists_or, not_violated]
        · obtain ⟨other, member, rest⟩ := interval (by simpa using is_fraud)
          exact ⟨other, List.mem_append_left _ member, rest⟩
      · dsimp only
        rw [some, Bool.or_true]
        exact ⟨iff_of_true rfl ⟨rule, last, violated⟩, fun _ => ⟨rule, last, violated, around⟩⟩
  · have empty : set.rules = [] := by
      rw [List.eq_nil_iff_forall_not_mem]
      intro rule member
      exact positive ((periods rule member).1.trans (periods rule member).2)
    rw [userMotionsIsFraud, empty]
    exact ⟨by simp, by simp⟩

theorem userMotionsIsFraud_equals (outside : Int → Nat) (sorted : motions.Pairwise (·.at ≤ ·.at))
    (limits : ∀ rule ∈ set.rules, 2 ≤ rule.limit)
    (periods : ∀ rule ∈ set.rules, 0 ≤ rule.period ∧ rule.period ≤ set.maxPeriod) :
    FindsFraud motions now set (userMotionsIsFraud outside now 1 motions set) ↔
      SeenInTime motions now set := by
  have finds : FindsBefore motions now set.maxPeriod set.rules
      (userMotionsIsFraud outside now 1 motions set) :=
    userMotionsIsFraud_finds outside sorted limits periods
  obtain ⟨fraud, interval⟩ := finds
  constructor
  · intro finds violated
    exact fraud.1 (finds.fraud.2 violated)
  · intro seen
    refine ⟨⟨fun found => ?_, fun violated => fraud.2 (seen violated)⟩, fun found => ?_⟩
    · obtain ⟨rule, member, violated⟩ := fraud.1 found
      exact ⟨rule, member, violated.of_before⟩
    · obtain ⟨rule, member, violated, past, future, long⟩ := interval found
      exact ⟨past, future, rule, member, violated.of_before, long⟩

end Rules

/-- Two motions in a hundred seconds. -/
def twoInHundred : FraudRuleSet := .ofRules [⟨2, 100 * second⟩]

/-- Two motions just before ten seconds, one later, and two out of reach of the rules. -/
def fiveMotions : List UserMotion := [⟨5, 1⟩, ⟨5, 1⟩, ⟨60, 1⟩, ⟨180, 2⟩, ⟨190, 2⟩]

def twoRules : FraudRuleSet := .ofRules [⟨4, 100 * second⟩, ⟨3, 10 * second⟩]

theorem userMotionsIsFraud_equals_fiveMotions : FindsFraud fiveMotions (10 * second) twoRules
    (userMotionsIsFraud (fun _ => 0) (10 * second) 1 fiveMotions twoRules) :=
  (userMotionsIsFraud_equals _ (by decide) (by decide) (by decide)).2 fun _ =>
    ⟨⟨3, 10 * second⟩, by decide, 5 * second, by decide, by decide, by decide⟩

/-- The motion is a hundred seconds after now. -/
theorem motionAtEnd_not_findsFraud :
    ¬∀ (motions : List UserMotion) (set : FraudRuleSet) (now : Int) (outside : Int → Nat),
      motions.Pairwise (·.at ≤ ·.at) → (∀ rule ∈ set.rules, 2 ≤ rule.limit) →
      (∀ rule ∈ set.rules, 0 ≤ rule.period ∧ rule.period ≤ set.maxPeriod) →
        FindsFraud motions now set (userMotionsIsFraud outside now 1 motions set) := by
  intro finds
  have found := (finds [⟨110, 1⟩] twoInHundred (10 * second) (fun _ => 0) (by decide) (by decide)
    (by decide)).fraud.2
      ⟨⟨2, 100 * second⟩, by decide, 10 * second, by decide, by decide, by decide⟩
  exact absurd found (by decide)

end AdServer.RequestInfo.FraudProtection
