import Mathlib.Data.Rat.Floor

/-!
# Reading a decimal

`extract_decimal` reads the integer and the fraction digits into the unsigned `Base` of
the decimal type and takes the rounding from the first digit that has no place.
-/

namespace AdServer.Commons

/-- `Generics::DecimalMulRemainder` -/
inductive Remainder
  | floor
  | round
  | ceil
  deriving DecidableEq

inductive Failure
  | overflow
  | notNumber
  deriving DecidableEq

/-- A type of the decimal library. A value is counted in units of the last fraction
digit, and a value out of range is refused. -/
structure DecimalType where
  fractionRank : Nat
  /-- of `Base` -/
  bits : Nat
  low : Int
  high : Int
  mul : Int → Int → Remainder → Except Failure Int
  div : Int → Int → Except Failure Int
  /-- the constructor from a number and the place of the point -/
  pointed : Nat → Nat → Except Failure Int
  low_le : low ≤ 0
  high_ge : 0 ≤ high
  bits_pos : 0 < bits
  fraction_fits : 10 ^ fractionRank ≤ 2 ^ bits

def digit (c : Char) : Nat := c.toNat - '0'.toNat

def signed (negative : Bool) (n : Nat) : Int := if negative then -n else n

namespace DecimalType

variable (T : DecimalType)

def InRange (value : Int) : Prop := T.low ≤ value ∧ value ≤ T.high

instance (value : Int) : Decidable (T.InRange value) :=
  inferInstanceAs (Decidable (_ ∧ _))

def check (value : Int) : Except Failure Int :=
  if T.InRange value then .ok value else .error .overflow

/-- `DecimalType(negative, integer, fraction)` -/
def make (negative : Bool) (integer fraction : Nat) : Except Failure Int :=
  T.check (signed negative (integer * 10 ^ T.fractionRank + fraction))

/-- `operator+=` -/
def add (left right : Int) : Except Failure Int := T.check (left + right)

/-- Digits read into a `Base`. -/
def accumulate (digits : List Char) : Nat :=
  digits.foldl (fun n c => (n * 10 + digit c) % 2 ^ T.bits) 0

end DecimalType

def checkNegative : List Char → Bool × List Char
  | [] => (false, [])
  | c :: rest => (c == '-', if c == '-' || c == '+' then rest else c :: rest)

section Extract

variable (T : DecimalType) (roundType : Remainder)

/-- The rounding by the first digit that has no place. -/
def roundingBy (negative : Bool) (c : Char) : Except Failure Int :=
  match roundType with
  | .round => if 4 < digit c then T.make negative 0 1 else .ok 0
  | .ceil => if negative then .ok 0 else T.make false 0 1
  | .floor => if negative then T.make true 0 1 else .ok 0

/-- The fraction, the rounding and what is left of the string. -/
def readFraction (negative : Bool) : List Char → Except Failure (Nat × Int × List Char)
  | '.' :: str => do
    let kept := (str.takeWhile Char.isDigit).take T.fractionRank
    let digitsLeft := T.fractionRank - kept.length
    let rest := str.drop kept.length
    let (rounding, rest) ←
      match rest with
      | c :: _ =>
        if digitsLeft = 0 ∧ c.isDigit then do
          let rounding ← roundingBy T roundType negative c
          pure (rounding, rest.dropWhile Char.isDigit)
        else pure (0, rest)
      | [] => pure (0, [])
    let fraction := T.accumulate kept
    let fraction :=
      if 1 < T.fractionRank ∧ 0 < digitsLeft then fraction * 10 ^ digitsLeft % 2 ^ T.bits
      else fraction
    return (fraction, rounding, rest)
  | str => .ok (0, 0, str)

/-- A number of times by the same power. -/
def scaleBy (negativeOrder : Bool) (rank : Nat) : Nat → Int → Except Failure Int
  | 0, result => .ok result
  | times + 1, result => do
    let power ← T.pointed 1 rank
    let result ← if negativeOrder then T.mul result power .round else T.div result power
    scaleBy negativeOrder rank times result

def readExponent (result : Int) : List Char → Except Failure (Int × List Char)
  | c :: str =>
    if c == 'e' || c == 'E' then do
      let (negativeOrder, str) := checkNegative str
      let exponent := T.accumulate (str.takeWhile Char.isDigit)
      let powRank := if 1 < T.fractionRank then T.fractionRank - 1 else 1
      let result ← scaleBy T negativeOrder powRank (exponent / powRank) result
      let result ←
        if 0 < exponent % powRank then scaleBy T negativeOrder (exponent % powRank) 1 result
        else .ok result
      return (result, str.dropWhile Char.isDigit)
    else .ok (result, c :: str)
  | [] => .ok (result, [])

def extractDecimal (checkFormat : Bool) (str : List Char) : Except Failure Int :=
  if str.isEmpty then if checkFormat then .error .notNumber else T.make false 0 0
  else do
    let (negative, str) := checkNegative str
    let integer := T.accumulate (str.takeWhile Char.isDigit)
    let (fraction, rounding, str) ←
      readFraction T roundType negative (str.dropWhile Char.isDigit)
    let result ← T.make negative integer fraction
    let result ← T.add result rounding
    let (result, str) ← readExponent T result str
    if checkFormat && !str.isEmpty then .error .notNumber else .ok result

end Extract

/-! ## Numbers as they are written -/

/-- [sign] digits [. digits] -/
structure Written where
  sign : Option Bool
  digits : List Char
  fraction : Option (List Char)
  nonempty : digits ≠ []
  all_digits : ∀ c ∈ digits, c.isDigit
  all_fraction : ∀ c ∈ fraction.getD [], c.isDigit

def number (digits : List Char) : Nat := digits.foldl (fun n c => n * 10 + digit c) 0

namespace Written

variable (n : Written)

/-- With true for a minus. -/
def signText : List Char :=
  match n.sign with
  | none => []
  | some true => ['-']
  | some false => ['+']

def fractionText : List Char :=
  match n.fraction with
  | none => []
  | some digits => '.' :: digits

def text : List Char := n.signText ++ (n.digits ++ n.fractionText)

def negative : Bool := n.sign == some true

def fractionDigits : List Char := n.fraction.getD []

def magnitude : ℚ :=
  number n.digits + number n.fractionDigits / 10 ^ n.fractionDigits.length

def value : ℚ := if n.negative then -n.magnitude else n.magnitude

end Written

/-- To the nearest integer, half of one away from zero. -/
def halfAway (x : ℚ) : Int := if 0 ≤ x then ⌊x + 1 / 2⌋ else ⌈x - 1 / 2⌉

/-- The written value rounded to the digits of the type, in its units. -/
def rounded (T : DecimalType) (roundType : Remainder) (n : Written) : Int :=
  let scaled := n.value * 10 ^ T.fractionRank
  match roundType with
  | .floor => ⌊scaled⌋
  | .ceil => ⌈scaled⌉
  | .round => halfAway scaled

/-! ## Digits -/

theorem foldl_number (digits : List Char) (n : Nat) :
    digits.foldl (fun n c => n * 10 + digit c) n = n * 10 ^ digits.length + number digits := by
  induction digits generalizing n with
  | nil => simp [number]
  | cons c rest ih =>
    rw [number, List.foldl_cons, List.foldl_cons, ih, ih, List.length_cons]
    ring

theorem number_append (first second : List Char) :
    number (first ++ second) = number first * 10 ^ second.length + number second := by
  rw [number, List.foldl_append, foldl_number]
  rfl

theorem digit_lt {c : Char} (h : c.isDigit) : digit c < 10 := by
  simp only [Char.isDigit, Bool.and_eq_true, decide_eq_true_eq] at h
  have upper : c.toNat ≤ 57 := h.2
  have zero : '0'.toNat = 48 := rfl
  rw [digit, zero]
  omega

theorem number_lt {digits : List Char} (all : ∀ c ∈ digits, c.isDigit) :
    number digits < 10 ^ digits.length := by
  induction digits with
  | nil => decide
  | cons c rest ih =>
    have head := digit_lt (all c (by simp))
    have tail := ih fun c mem => all c (List.mem_cons_of_mem _ mem)
    have split := number_append [c] rest
    have one : number [c] = digit c := by simp [number]
    rw [List.singleton_append, one] at split
    rw [split, List.length_cons, Nat.pow_succ]
    have most : digit c * 10 ^ rest.length ≤ 9 * 10 ^ rest.length :=
      Nat.mul_le_mul_right _ (by omega)
    omega

theorem DecimalType.accumulate_eq (T : DecimalType) (digits : List Char) :
    T.accumulate digits = number digits % 2 ^ T.bits := by
  have each : ∀ n, digits.foldl (fun n c => (n * 10 + digit c) % 2 ^ T.bits) (n % 2 ^ T.bits) =
      digits.foldl (fun n c => n * 10 + digit c) n % 2 ^ T.bits := by
    induction digits with
    | nil =>
      intro n
      rfl
    | cons c rest ih =>
      intro n
      have step : (n % 2 ^ T.bits * 10 + digit c) % 2 ^ T.bits =
          (n * 10 + digit c) % 2 ^ T.bits := by
        rw [Nat.add_mod, Nat.mul_mod, Nat.mod_mod, ← Nat.mul_mod, ← Nat.add_mod]
      rw [List.foldl_cons, List.foldl_cons, step, ih]
  have start := each 0
  rwa [Nat.zero_mod] at start

theorem scan_digits {digits rest : List Char} (all : ∀ c ∈ digits, c.isDigit)
    (stop : ∀ c ∈ rest.head?, c.isDigit = false) :
    (digits ++ rest).takeWhile Char.isDigit = digits ∧
      (digits ++ rest).dropWhile Char.isDigit = rest := by
  rw [List.takeWhile_append_of_pos all, List.dropWhile_append_of_pos all]
  cases rest with
  | nil => simp
  | cons c rest => simp [stop c (by simp)]

theorem scan_all {digits : List Char} (all : ∀ c ∈ digits, c.isDigit) :
    digits.takeWhile Char.isDigit = digits ∧ digits.dropWhile Char.isDigit = [] := by
  have stop : ∀ c ∈ ([] : List Char).head?, c.isDigit = false := by simp
  have scanned := scan_digits all stop
  rwa [List.append_nil] at scanned

/-! ## What is read -/

/-- The unit that the first digit without a place adds. -/
def unitBy (roundType : Remainder) (negative : Bool) (c : Char) : Nat :=
  match roundType with
  | .round => if 4 < digit c then 1 else 0
  | .ceil => if negative then 0 else 1
  | .floor => if negative then 1 else 0

namespace Written

variable (T : DecimalType) (roundType : Remainder) (n : Written)

def kept : List Char := n.fractionDigits.take T.fractionRank

def dropped : List Char := n.fractionDigits.drop T.fractionRank

/-- The fraction digits of the type, in units. -/
def keptUnits : Nat := number (n.kept T) * 10 ^ (T.fractionRank - (n.kept T).length)

def truncated : Nat := number n.digits * 10 ^ T.fractionRank + n.keptUnits T

/-- With the integer part as `Base` has it. -/
def wrapped : Nat := number n.digits % 2 ^ T.bits * 10 ^ T.fractionRank + n.keptUnits T

def unit : Nat :=
  match n.dropped T with
  | [] => 0
  | c :: _ => unitBy roundType n.negative c

end Written

open Written

namespace DecimalType

variable (T : DecimalType)

theorem inRange_shrink {negative : Bool} {small large : Nat} (le : small ≤ large)
    (h : T.InRange (signed negative large)) : T.InRange (signed negative small) := by
  have low := T.low_le
  have high := T.high_ge
  obtain ⟨above, below⟩ := h
  cases negative with
  | true =>
    simp only [signed, if_true] at above below ⊢
    constructor <;> omega
  | false =>
    simp only [signed, Bool.false_eq_true, if_false] at above below ⊢
    constructor <;> omega

theorem signed_add (negative : Bool) (a b : Nat) :
    signed negative (a + b) = signed negative a + signed negative b := by
  cases negative with
  | true =>
    simp only [signed, if_true, Nat.cast_add]
    omega
  | false => rfl

/-- The rounding, as a value of the type. -/
def unitValue (negative : Bool) (unit : Nat) : Except Failure Int :=
  if unit = 0 then .ok 0 else T.make negative 0 1

/-- Making the value and adding the unit refuses just what is out of range. -/
theorem check_add {negative : Bool} {value unit : Nat} (small : unit ≤ 1) :
    (do
      let rounding ← T.unitValue negative unit
      let result ← T.check (signed negative value)
      T.add result rounding) = T.check (signed negative (value + unit)) := by
  by_cases none : unit = 0
  · subst none
    rw [unitValue, if_pos rfl, Nat.add_zero]
    unfold DecimalType.add DecimalType.check
    split
    · next inside =>
      show (if T.InRange (signed negative value + 0) then _ else _) = _
      rw [Int.add_zero, if_pos inside]
    · rfl
  · have one : unit = 1 := by omega
    subst one
    rw [unitValue, if_neg none, make, Nat.zero_mul, Nat.zero_add]
    unfold DecimalType.add DecimalType.check
    by_cases inside : T.InRange (signed negative (value + 1))
    · have unitInside := T.inRange_shrink (Nat.le_add_left 1 value) inside
      have valueInside := T.inRange_shrink (Nat.le_add_right value 1) inside
      rw [if_pos unitInside, if_pos valueInside, if_pos inside]
      show (if T.InRange (signed negative value + signed negative 1) then _ else _) = _
      rw [← signed_add, if_pos inside]
    · rw [if_neg inside]
      by_cases unitInside : T.InRange (signed negative 1)
      · rw [if_pos unitInside]
        by_cases valueInside : T.InRange (signed negative value)
        · rw [if_pos valueInside]
          show (if T.InRange (signed negative value + signed negative 1) then _ else _) = _
          rw [← signed_add, if_neg inside]
        · rw [if_neg valueInside]
          rfl
      · rw [if_neg unitInside]
        rfl

end DecimalType

section Read

variable (T : DecimalType) (roundType : Remainder)

theorem checkNegative_text (n : Written) :
    checkNegative n.text = (n.negative, n.digits ++ n.fractionText) := by
  obtain ⟨sign, digits, fraction, nonempty, all, _⟩ := n
  cases sign with
  | some negative => cases negative <;> rfl
  | none =>
    obtain ⟨c, rest, rfl⟩ := List.exists_cons_of_ne_nil nonempty
    have head := all c (by simp)
    have minus : (c == '-') = false := by
      apply beq_eq_false_iff_ne.2
      rintro rfl
      revert head
      decide
    have plus : (c == '+') = false := by
      apply beq_eq_false_iff_ne.2
      rintro rfl
      revert head
      decide
    simp only [text, signText, List.nil_append, List.cons_append, checkNegative,
      minus, plus, Bool.or_false, Bool.false_eq_true, if_false]
    rfl

theorem roundingBy_eq (negative : Bool) (c : Char) :
    roundingBy T roundType negative c =
      T.unitValue negative (unitBy roundType negative c) := by
  cases roundType with
  | floor => cases negative <;> rfl
  | round =>
    simp only [roundingBy, unitBy]
    split
    · rfl
    · rfl
  | ceil => cases negative <;> rfl

theorem keptUnits_lt (n : Written) : n.keptUnits T < 10 ^ T.fractionRank := by
  have all : ∀ c ∈ n.kept T, c.isDigit := fun c mem =>
    n.all_fraction c (List.mem_of_mem_take mem)
  have le : (n.kept T).length ≤ T.fractionRank := by
    rw [kept, List.length_take]
    exact Nat.min_le_left _ _
  have total : 10 ^ T.fractionRank =
      10 ^ (n.kept T).length * 10 ^ (T.fractionRank - (n.kept T).length) := by
    rw [← Nat.pow_add, Nat.add_sub_cancel' le]
  rw [keptUnits, total]
  exact Nat.mul_lt_mul_of_pos_right (number_lt all) (Nat.pow_pos (by decide))

theorem fraction_eq (n : Written) :
    (if 1 < T.fractionRank ∧ 0 < T.fractionRank - (n.kept T).length then
      T.accumulate (n.kept T) * 10 ^ (T.fractionRank - (n.kept T).length) % 2 ^ T.bits
      else T.accumulate (n.kept T)) = n.keptUnits T := by
  have units := keptUnits_lt T n
  have fits := T.fraction_fits
  have positive : 0 < 10 ^ (T.fractionRank - (n.kept T).length) := Nat.pow_pos (by decide)
  have part : number (n.kept T) ≤ n.keptUnits T := Nat.le_mul_of_pos_right _ positive
  have same : T.accumulate (n.kept T) = number (n.kept T) := by
    rw [T.accumulate_eq, Nat.mod_eq_of_lt (by omega)]
  rw [same]
  split
  · rw [← keptUnits, Nat.mod_eq_of_lt (by omega)]
  · next unscaled =>
    rw [keptUnits]
    by_cases left : T.fractionRank - (n.kept T).length = 0
    · rw [left, Nat.pow_zero, Nat.mul_one]
    · -- a type of one digit, and none read
      have none : n.kept T = [] := List.length_eq_zero_iff.1 (by omega)
      rw [none]
      simp [number]

theorem readFraction_text (n : Written) :
    readFraction T roundType n.negative n.fractionText = (do
      let rounding ← T.unitValue n.negative (n.unit T roundType)
      return ((n.keptUnits T, rounding, []) : Nat × Int × List Char)) := by
  cases point : n.fraction with
  | none =>
    simp [fractionText, unit, dropped, keptUnits, kept, fractionDigits, point, readFraction, number]
    rfl
  | some digits =>
    have all : ∀ c ∈ digits, c.isDigit := by simpa [point] using n.all_fraction
    have fraction : n.fractionDigits = digits := by simp [fractionDigits, point]
    obtain ⟨taken, left⟩ := scan_all all
    have kept : (digits.takeWhile Char.isDigit).take T.fractionRank = n.kept T := by
      rw [taken, kept, fraction]
    have rest : digits.drop (n.kept T).length = n.dropped T := by
      rw [Written.kept, Written.dropped, fraction, List.length_take]
      by_cases long : T.fractionRank ≤ digits.length
      · rw [Nat.min_eq_left long]
      · rw [Nat.min_eq_right (by omega), List.drop_length, List.drop_of_length_le (by omega)]
    simp only [fractionText, point, readFraction, kept, rest, fraction_eq]
    cases after : n.dropped T with
    | nil =>
      rw [unit, after]
      rfl
    | cons c more =>
      have full : T.fractionRank - (n.kept T).length = 0 := by
        have length := congrArg List.length after
        rw [dropped, List.length_drop, List.length_cons] at length
        rw [Written.kept, List.length_take]
        omega
      have digits : ∀ d ∈ c :: more, d.isDigit := by
        intro d mem
        rw [← after, dropped, fraction] at mem
        exact all d (List.mem_of_mem_drop mem)
      have none := (scan_all digits).2
      have unit : n.unit T roundType = unitBy roundType n.negative c := by
        rw [unit, after]
      simp only [full, digits c (by simp), and_self, if_true, none, roundingBy_eq, unit]
      rfl

theorem unit_le_one (n : Written) : n.unit T roundType ≤ 1 := by
  unfold unit unitBy
  split
  · exact Nat.zero_le _
  · cases roundType <;> dsimp only <;> split <;> decide

/-- What `extract_decimal` makes of a number without exponent. -/
theorem extractDecimal_text (checkFormat : Bool) (n : Written) :
    extractDecimal T roundType checkFormat n.text =
      T.check (signed n.negative (n.wrapped T + n.unit T roundType)) := by
  have some : n.text.isEmpty = false := by
    obtain ⟨c, rest, same⟩ := List.exists_cons_of_ne_nil n.nonempty
    simp [text, same]
  have stop : ∀ c ∈ n.fractionText.head?, c.isDigit = false := by
    unfold fractionText
    split
    · simp
    · intro c mem
      cases mem
      decide
  obtain ⟨integer, rest⟩ := scan_digits n.all_digits stop
  rw [← T.check_add (unit_le_one T roundType n), extractDecimal, some, if_neg Bool.false_ne_true, checkNegative_text]
  dsimp only
  rw [integer, rest, readFraction_text, T.accumulate_eq]
  cases T.unitValue n.negative (n.unit T roundType) with
  | error failure => rfl
  | ok rounding =>
    show (do
      let result ← T.make n.negative (number n.digits % 2 ^ T.bits) (n.keptUnits T)
      let result ← T.add result rounding
      let (result, str) ← readExponent T result []
      if checkFormat && !str.isEmpty then .error .notNumber else .ok result :
        Except Failure Int) = (do
      let result ← T.check (signed n.negative (n.wrapped T))
      T.add result rounding)
    rw [DecimalType.make, ← wrapped]
    cases T.check (signed n.negative (n.wrapped T)) with
    | error failure => rfl
    | ok result =>
      show (do
        let result ← T.add result rounding
        let (result, str) ← readExponent T result []
        if checkFormat && !str.isEmpty then .error .notNumber else .ok result :
          Except Failure Int) = T.add result rounding
      cases T.add result rounding with
      | error failure => rfl
      | ok result => cases checkFormat <;> rfl

end Read

section Rounded

variable (T : DecimalType) (roundType : Remainder) (n : Written)

theorem dropped_digits : ∀ c ∈ n.dropped T, c.isDigit := fun c mem =>
  n.all_fraction c (List.mem_of_mem_drop mem)

/-- The written value in units of the type: what is kept, and less than one unit. -/
theorem magnitude_eq : n.magnitude * 10 ^ T.fractionRank =
    (n.truncated T : ℚ) + number (n.dropped T) / 10 ^ (n.dropped T).length := by
  have split : n.fractionDigits = n.kept T ++ n.dropped T :=
    (List.take_append_drop T.fractionRank n.fractionDigits).symm
  have keptLength : (n.kept T).length = min T.fractionRank n.fractionDigits.length :=
    List.length_take
  have droppedLength : (n.dropped T).length = n.fractionDigits.length - T.fractionRank :=
    List.length_drop
  rw [magnitude, truncated, keptUnits, split, number_append, List.length_append]
  push_cast
  by_cases long : T.fractionRank ≤ n.fractionDigits.length
  · have whole : (n.kept T).length = T.fractionRank := by omega
    rw [whole, Nat.sub_self, pow_add]
    field_simp
    ring
  · have none : n.dropped T = [] := List.length_eq_zero_iff.1 (by omega)
    have rank : T.fractionRank = (n.kept T).length + (T.fractionRank - (n.kept T).length) := by
      omega
    have total : (10 : ℚ) ^ T.fractionRank =
        10 ^ (n.kept T).length * 10 ^ (T.fractionRank - (n.kept T).length) := by
      rw [← pow_add, ← rank]
    rw [none, total]
    simp only [number, List.foldl_nil, List.length_nil, Nat.cast_zero]
    field_simp
    ring

/-- The unit that rounding the written value adds. -/
def Written.exactUnit : Nat :=
  match roundType with
  | .floor => if n.negative = true ∧ number (n.dropped T) ≠ 0 then 1 else 0
  | .ceil => if n.negative = false ∧ number (n.dropped T) ≠ 0 then 1 else 0
  | .round => if 10 ^ (n.dropped T).length ≤ 2 * number (n.dropped T) then 1 else 0

/-- Digits without a place that are all zero are rounded up, or down, from zero. -/
def Written.Spurious : Prop :=
  n.dropped T ≠ [] ∧ number (n.dropped T) = 0 ∧
    (roundType = .ceil ∧ n.negative = false ∨ roundType = .floor ∧ n.negative = true)

instance : Decidable (n.Spurious T roundType) :=
  inferInstanceAs (Decidable (_ ∧ _ ∧ _))

section Parts

variable (whole : Nat) {part total : Nat} (below : part < total)

include below

omit whole in
theorem part_lt : (0 : ℚ) < total ∧ (part : ℚ) / total < 1 := by
  have positive : (0 : ℚ) < total := by exact_mod_cast Nat.zero_lt_of_lt below
  exact ⟨positive, (div_lt_one positive).2 (by exact_mod_cast below)⟩

theorem floor_parts : ⌊(whole : ℚ) + part / total⌋ = whole := by
  obtain ⟨positive, less⟩ := part_lt below
  have nonneg : (0 : ℚ) ≤ (part : ℚ) / total := by positivity
  apply Int.floor_eq_iff.2
  push_cast
  constructor <;> linarith

theorem ceil_parts : ⌈(whole : ℚ) + part / total⌉ = whole + if part = 0 then 0 else 1 := by
  obtain ⟨positive, less⟩ := part_lt below
  split
  · next none => simp [none]
  · next some =>
    have nonzero : (0 : ℚ) < part := by exact_mod_cast Nat.pos_of_ne_zero some
    have more : (0 : ℚ) < (part : ℚ) / total := div_pos nonzero positive
    apply Int.ceil_eq_iff.2
    push_cast
    constructor <;> linarith

theorem half_parts : ⌊(whole : ℚ) + part / total + 1 / 2⌋ =
    whole + if total ≤ 2 * part then 1 else 0 := by
  obtain ⟨positive, less⟩ := part_lt below
  have nonneg : (0 : ℚ) ≤ (part : ℚ) / total := by positivity
  apply Int.floor_eq_iff.2
  split
  · next large =>
    have atLeast : (1 : ℚ) / 2 ≤ part / total := by
      rw [div_le_div_iff₀ two_pos positive]
      exact_mod_cast by omega
    push_cast
    constructor <;> linarith
  · next small =>
    have under : (part : ℚ) / total < 1 / 2 := by
      rw [div_lt_div_iff₀ positive two_pos]
      exact_mod_cast by omega
    push_cast
    constructor <;> linarith

end Parts

theorem halfAway_neg {x : ℚ} (nonneg : 0 ≤ x) : halfAway (-x) = -⌊x + 1 / 2⌋ := by
  unfold halfAway
  split
  · next zero =>
    have none : x = 0 := by linarith
    rw [none]
    norm_num
  · rw [← Int.ceil_neg]
    congr 1
    ring

theorem rounded_eq :
    rounded T roundType n = signed n.negative (n.truncated T + n.exactUnit T roundType) := by
  have below := number_lt (dropped_digits T n)
  have scaled := magnitude_eq T n
  have floor := floor_parts (n.truncated T) below
  have ceil := ceil_parts (n.truncated T) below
  have half := half_parts (n.truncated T) below
  push_cast at floor ceil half
  rw [← scaled] at floor ceil half
  have nonneg : 0 ≤ n.magnitude * 10 ^ T.fractionRank := by
    rw [scaled]
    positivity
  unfold rounded exactUnit
  cases sign : n.negative with
  | false =>
    have value : n.value * 10 ^ T.fractionRank = n.magnitude * 10 ^ T.fractionRank := by
      simp [value, sign]
    rw [value]
    cases roundType with
    | floor => simp [floor, signed]
    | round => simp only [halfAway, if_pos nonneg, half, signed]; push_cast; rfl
    | ceil => simp [ceil, signed]
  | true =>
    have value : n.value * 10 ^ T.fractionRank = -(n.magnitude * 10 ^ T.fractionRank) := by
      simp [value, sign]
    rw [value]
    cases roundType with
    | floor => simp [Int.floor_neg, ceil, signed]
    | round => simp only [halfAway_neg nonneg, half, signed]; push_cast; rfl
    | ceil => simp [Int.ceil_neg, floor, signed]

/-- The first digit without a place tells the half, but not whether there is anything
to round. -/
theorem unit_eq :
    n.unit T roundType = n.exactUnit T roundType + if n.Spurious T roundType then 1 else 0 := by
  have all := dropped_digits T n
  cases after : n.dropped T with
  | nil =>
    have none : ¬ n.Spurious T roundType := fun spurious => spurious.1 after
    rw [if_neg none]
    unfold unit exactUnit
    rw [after]
    cases roundType <;> simp [number]
  | cons c more =>
    have spurious : n.Spurious T roundType ↔ number (c :: more) = 0 ∧
        (roundType = .ceil ∧ n.negative = false ∨ roundType = .floor ∧ n.negative = true) := by
      simp [Written.Spurious, after]
    rw [if_congr spurious rfl rfl]
    unfold unit exactUnit
    rw [after]
    rw [after] at all
    cases roundType with
    | floor => cases n.negative <;> by_cases zero : number (c :: more) = 0 <;> simp [unitBy, zero]
    | ceil => cases n.negative <;> by_cases zero : number (c :: more) = 0 <;> simp [unitBy, zero]
    | round =>
      have rest := number_lt fun d mem => all d (List.mem_cons_of_mem _ mem)
      have total : number (c :: more) = digit c * 10 ^ more.length + number more := by
        have split := number_append [c] more
        have one : number [c] = digit c := by simp [number]
        rwa [List.singleton_append, one] at split
      have half : 10 ^ (c :: more).length ≤ 2 * number (c :: more) ↔ 4 < digit c := by
        rw [total, List.length_cons, Nat.pow_succ]
        constructor
        · intro large
          by_contra low
          have most : digit c * 10 ^ more.length ≤ 4 * 10 ^ more.length :=
            Nat.mul_le_mul_right _ (by omega)
          omega
        · intro high
          have least : 5 * 10 ^ more.length ≤ digit c * 10 ^ more.length :=
            Nat.mul_le_mul_right _ high
          omega
      rw [List.length_cons] at half
      simp [unitBy, half]

end Rounded

section Right

variable (T : DecimalType) (roundType : Remainder)

/-- The integer part fits into `Base` and no unit is added for zeros, unless the number
is out of range as it is; or the integer part does not fit, and with what is left of it
the number is as much out of range as it should be. -/
def RoundsRight (n : Written) : Prop :=
  if number n.digits < 2 ^ T.bits then
    ¬ n.Spurious T roundType ∨ ¬ T.InRange (signed n.negative (n.truncated T))
  else
    ¬ T.InRange (rounded T roundType n) ∧
      ¬ T.InRange (signed n.negative (n.wrapped T + n.unit T roundType))

theorem signed_inj {negative : Bool} {a b : Nat} (same : signed negative a = signed negative b) :
    a = b := by
  cases negative with
  | true =>
    simp only [signed, if_true] at same
    omega
  | false => exact Int.ofNat_inj.1 same

theorem DecimalType.check_eq_iff (a b : Int) :
    T.check a = T.check b ↔ a = b ∨ ¬ T.InRange a ∧ ¬ T.InRange b := by
  unfold DecimalType.check
  by_cases left : T.InRange a
  · by_cases right : T.InRange b
    · simp [left, right]
    · rw [if_pos left, if_neg right]
      constructor
      · intro same
        cases same
      · rintro (rfl | ⟨out, _⟩)
        · exact absurd left right
        · exact absurd left out
  · by_cases right : T.InRange b
    · rw [if_neg left, if_pos right]
      constructor
      · intro same
        cases same
      · rintro (rfl | ⟨_, out⟩)
        · exact absurd right left
        · exact absurd right out
    · simp [left, right]

/-- What does not fit into `Base` is lost by more than a unit. -/
theorem wrapped_far {n : Written} (long : ¬ number n.digits < 2 ^ T.bits) :
    n.wrapped T + 1 < n.truncated T := by
  have rank : 0 < 10 ^ T.fractionRank := Nat.pow_pos (by decide)
  have base : 2 ≤ 2 ^ T.bits := by
    have power := Nat.pow_le_pow_right (Nat.zero_lt_two) T.bits_pos
    omega
  have below := Nat.mod_lt (number n.digits) (Nat.two_pow_pos T.bits)
  have split := Nat.mod_add_div (number n.digits) (2 ^ T.bits)
  have quotient : 1 ≤ number n.digits / 2 ^ T.bits := (Nat.one_le_div_iff (by omega)).2 (by omega)
  have large : 2 ^ T.bits ≤ 2 ^ T.bits * (number n.digits / 2 ^ T.bits) :=
    Nat.le_mul_of_pos_right _ quotient
  have lost : number n.digits % 2 ^ T.bits + 2 ≤ number n.digits := by omega
  have scaled : (number n.digits % 2 ^ T.bits + 2) * 10 ^ T.fractionRank ≤
      number n.digits * 10 ^ T.fractionRank := Nat.mul_le_mul_right _ lost
  rw [Nat.add_mul] at scaled
  rw [wrapped, truncated]
  omega

theorem extractDecimal_rounds_iff (checkFormat : Bool) (n : Written) :
    extractDecimal T roundType checkFormat n.text = T.check (rounded T roundType n) ↔
      RoundsRight T roundType n := by
  rw [extractDecimal_text, T.check_eq_iff, RoundsRight]
  have exact := rounded_eq T roundType n
  have unit := unit_eq T roundType n
  split
  · next fits =>
    have whole : n.wrapped T = n.truncated T := by
      rw [wrapped, Nat.mod_eq_of_lt fits, truncated]
    rw [exact, unit, whole]
    by_cases spurious : n.Spurious T roundType
    · have none : n.exactUnit T roundType = 0 := by
        obtain ⟨_, zero, ⟨rfl, _⟩ | ⟨rfl, _⟩⟩ := spurious <;> simp [exactUnit, zero]
      rw [none, if_pos spurious]
      simp only [Nat.zero_add, Nat.add_zero]
      constructor
      · rintro (same | ⟨_, out⟩)
        · have equal := signed_inj same
          omega
        · exact .inr out
      · rintro (clean | out)
        · exact absurd spurious clean
        · exact .inr ⟨fun inside => out (T.inRange_shrink (Nat.le_succ _) inside), out⟩
    · simp [spurious]
  · next long =>
    have far := wrapped_far T long
    have small := unit_le_one T roundType n
    constructor
    · rintro (same | ⟨out, outExact⟩)
      · rw [exact] at same
        have equal := signed_inj same
        omega
      · exact ⟨outExact, out⟩
    · rintro ⟨outExact, out⟩
      exact .inr ⟨out, outExact⟩

end Right

/-- `Decimal<uint64_t, 25, 8>` -/
def useDecimalType : DecimalType where
  fractionRank := 8
  bits := 64
  low := -(10 ^ 25 - 1)
  high := 10 ^ 25 - 1
  mul a b _ := .ok (a * b / 10 ^ 8)
  div a b := .ok (a * 10 ^ 8 / b)
  pointed n place := .ok (n * 10 ^ 8 / 10 ^ place)
  low_le := by decide
  high_ge := by decide
  bits_pos := by decide
  fraction_fits := by decide

/-- 1.000000000, with a zero more than has a place -/
def oneAndZeros : Written where
  sign := none
  digits := ['1']
  fraction := some ['0', '0', '0', '0', '0', '0', '0', '0', '0']
  nonempty := by decide
  all_digits := List.all_eq_true.1 rfl
  all_fraction := List.all_eq_true.1 rfl

/-- 2 ^ 64 -/
def wholeBase : Written where
  sign := none
  digits := ['1', '8', '4', '4', '6', '7', '4', '4', '0', '7', '3', '7', '0', '9', '5', '5', '1',
    '6', '1', '6']
  fraction := none
  nonempty := by decide
  all_digits := List.all_eq_true.1 rfl
  all_fraction := List.all_eq_true.1 rfl

theorem extractDecimal_not_rounded :
    (extractDecimal useDecimalType .ceil false oneAndZeros.text = .ok 100000001 ∧
      useDecimalType.check (rounded useDecimalType .ceil oneAndZeros) = .ok 100000000) ∧
    (extractDecimal useDecimalType .round false wholeBase.text = .ok 0 ∧
      useDecimalType.check (rounded useDecimalType .round wholeBase) =
        .error .overflow) := by
  rw [rounded_eq, rounded_eq]
  exact ⟨⟨rfl, rfl⟩, rfl, rfl⟩

end AdServer.Commons
