import AdServer.ChannelServer.UrlTrigger
import Mathlib.Data.Nat.Bitwise
import Mathlib.Tactic.IntervalCases

/-!
# The bytes of a trigger

A byte of flags for the trigger, bytes with seven quote flags each of which all but the
last have the flag of a next one, and the parts, each with a zero after it. How many
bytes the quote flags take is counted ahead of writing them, and every reader skips
them on its own.
-/

namespace AdServer.ChannelServer.Serialization

structure Part where
  part : List UInt8
  quotes : Bool
  deriving DecidableEq

def nextByteFlag : UInt8 := 0x80

def exactBit : UInt8 := 0x01

def typeBits : UInt8 := 0x0E

def negativeBit : UInt8 := 0x10

def flagsInByte : Nat := 7

/-! ## Writing -/

/-- `std::string::resize` -/
def resize (old : List UInt8) (size : Nat) : List UInt8 :=
  old.take size ++ List.replicate (size - old.length) 0

/-- Bytes written at a position, none where that is outside of the string. -/
def store (result : List UInt8) (position : Nat) (bytes : List UInt8) : Option (List UInt8) :=
  if position + bytes.length ≤ result.length then
    some (result.take position ++ bytes ++ result.drop (position + bytes.length))
  else none

/-- The variables of the loop of `serialize`; `flags` is an index here. -/
structure Writer where
  result : List UInt8
  flags : Nat
  bitvalue : UInt8
  position : Nat

/-- `*flags |= bitvalue` -/
def Writer.mark (w : Writer) : Option Writer := do
  let byte ← w.result[w.flags]?
  let result ← store w.result w.flags [byte ||| w.bitvalue]
  return { w with result }

def Writer.nextByte (w : Writer) : Option Writer := do
  let w ← w.mark
  let result ← store w.result (w.flags + 1) [0]
  return { w with result, flags := w.flags + 1, bitvalue := 0x01 }

/-- `add_bit_` -/
def Writer.addBit (w : Writer) (value : Bool) : Option Writer := do
  let w ← if w.bitvalue = nextByteFlag then w.nextByte else some w
  let w ← if value then w.mark else some w
  return { w with bitvalue := w.bitvalue <<< 1 }

/-- One pass of the second loop of `serialize`. -/
def Writer.addPart (w : Writer) (part : Part) : Option Writer := do
  let w ← w.addBit part.quotes
  let result ← store w.result w.position part.part
  let position := w.position + part.part.length
  let result ← store result position [0]
  return { w with result, position := position + 1 }

def countBytesForFlags (count : Nat) : Nat :=
  if count ≤ flagsInByte then 1 else (count + flagsInByte - 1) / flagsInByte

def typeFlags : Char → UInt8
  | 'U' => 0x02
  | 'P' => 0x04
  | 'S' => 0x06
  | 'R' => 0x08
  | 'D' => 0x0A
  | _ => 0

def triggerFlags (type : Char) (exact negative : Bool) : UInt8 :=
  (if exact then exactBit else 0) ||| (if negative then negativeBit else 0) ||| typeFlags type

/-- `serialize` into a string that holds something already. -/
def serialize (parts : List Part) (type : Char) (exact negative : Bool) (old : List UInt8) :
    Option (List UInt8) := do
  let len := 1 + (parts.map fun part => part.part.length + 1).sum
  let countBytes := countBytesForFlags parts.length
  let result ← store (resize old (len + countBytes)) 0 [triggerFlags type exact negative]
  let result ← store result 1 [0]
  let w ← parts.foldlM Writer.addPart
    { result, flags := 1, bitvalue := 0x01, position := 1 + countBytes }
  return w.result

/-! ## Reading -/

/-- Past the bytes of quote flags, with their count. -/
def skipFlags : List UInt8 → Option (Nat × List UInt8)
  | [] => none
  | byte :: rest =>
    if byte &&& nextByteFlag = 0 then some (1, rest)
    else (skipFlags rest).map fun (count, parts) => (count + 1, parts)

/-- `SubString(word_ptr)`: up to the zero, and what is after it. -/
def cString : List UInt8 → Option (List UInt8 × List UInt8)
  | [] => none
  | byte :: rest =>
    if byte = 0 then some ([], rest)
    else (cString rest).map fun (word, after) => (byte :: word, after)

/-- The loop of `get_parts` over the slots left of the vector; none where it writes past
the vector or reads past the data. -/
def fillParts {α : Type} (slot : Nat → List UInt8 → Option α) (index : Nat) :
    Nat → List UInt8 → Option (List α)
  | _, [] => some []
  | 0, _ => none
  | slots + 1, bytes => do
    let (word, after) ← cString bytes
    let first ← slot index word
    let rest ← fillParts slot (index + 1) slots after
    return first :: rest

def partsOf {α : Type} (slot : Nat → List UInt8 → Option α) (data : List UInt8) :
    Option (List α) := do
  let (countBytes, bytes) ← skipFlags (data.drop 1)
  fillParts slot 0 (countBytes * flagsInByte) bytes

/-- none where it reads past the data. -/
def quoted (data : List UInt8) (index : Nat) : Option Bool := do
  let indexInFlags := index / flagsInByte
  let bitvalue := (1 : UInt8) <<< UInt8.ofNat (index - indexInFlags * flagsInByte)
  let byte ← (data.drop 1)[indexInFlags]?
  return byte &&& bitvalue != 0

/-- `get_parts` into a `SubStringVector`, which a short trigger leaves as it is. -/
def getSubStrings (data : List UInt8) (parts : List (List UInt8)) : Option (List (List UInt8)) :=
  if data.length < 3 then some parts else partsOf (fun _ word => some word) data

/-- `get_parts` into `Parts`. -/
def getParts (data : List UInt8) : Option (List Part) :=
  if data.length < 3 then some []
  else partsOf (fun index word => (quoted data index).map (Part.mk word)) data

def exact (data : List UInt8) : Option Bool := data[0]?.map fun flags => flags &&& exactBit != 0

def negative (data : List UInt8) : Option Bool :=
  data[0]?.map fun flags => flags &&& negativeBit != 0

def typeOfFlags (flags : UInt8) : Char :=
  let type := flags &&& typeBits
  if type = 0x02 then 'U'
  else if type = 0x04 then 'P'
  else if type = 0x06 then 'S'
  else if type = 0x08 then 'R'
  else if type = 0x0A then 'D'
  else 'I'

def triggerType (data : List UInt8) : Option Char := data[0]?.map typeOfFlags

/-! ## Bits of a byte -/

variable {k : Nat} {current head : UInt8}

theorem toNat_bit (below : k < 8) : (UInt8.ofNat (2 ^ k)).toNat = 2 ^ k := by
  rw [UInt8.toNat_ofNat', Nat.mod_eq_of_lt]
  exact Nat.pow_lt_pow_right (by decide) below

theorem shift_bit (below : k < 7) : UInt8.ofNat (2 ^ k) <<< 1 = UInt8.ofNat (2 ^ (k + 1)) := by
  interval_cases k <;> rfl

theorem one_shift (below : k < 8) : (1 : UInt8) <<< UInt8.ofNat k = UInt8.ofNat (2 ^ k) := by
  interval_cases k <;> rfl

theorem bit_eq_nextByteFlag (below : k < 8) : UInt8.ofNat (2 ^ k) = nextByteFlag ↔ k = 7 := by
  interval_cases k <;> decide

theorem nextByteFlag_eq : nextByteFlag = UInt8.ofNat (2 ^ 7) := rfl

theorem and_bit (byte : UInt8) (below : k < 8) :
    (byte &&& UInt8.ofNat (2 ^ k) != 0) = byte.toNat.testBit k := by
  have value : (byte &&& UInt8.ofNat (2 ^ k)).toNat = (byte.toNat.testBit k).toNat * 2 ^ k := by
    rw [UInt8.toNat_and, toNat_bit below, Nat.and_two_pow]
  have positive := Nat.two_pow_pos k
  cases set : byte.toNat.testBit k with
  | true =>
    rw [bne_iff_ne]
    intro zero
    rw [zero, set, UInt8.toNat_zero, Bool.toNat_true] at value
    omega
  | false =>
    rw [bne_eq_false_iff_eq]
    apply UInt8.toNat_inj.1
    rw [value, set]
    simp

theorem and_nextByteFlag (byte : UInt8) :
    byte &&& nextByteFlag = 0 ↔ byte.toNat.testBit 7 = false := by
  rw [← and_bit byte (by decide : 7 < 8), bne_eq_false_iff_eq, nextByteFlag_eq]

theorem testBit_or_bit (byte : UInt8) (below : k < 8) (j : Nat) :
    (byte ||| UInt8.ofNat (2 ^ k)).toNat.testBit j = (byte.toNat.testBit j || decide (k = j)) := by
  rw [UInt8.toNat_or, toNat_bit below, Nat.testBit_or, Nat.testBit_two_pow]

/-! ## The quote flags -/

/-- The bytes of quote flags so far: those with the flag of a next one, and the last
with the bits used of it. -/
structure Flags where
  closed : List UInt8
  current : UInt8
  used : Nat

variable {f : Flags} {quotes done : List Bool} {w : Writer} {spare body room : List UInt8}
  {parts : List Part}

def Flags.marked (f : Flags) (value : Bool) : UInt8 :=
  if value then f.current ||| UInt8.ofNat (2 ^ f.used) else f.current

/-- What `add_bit_` makes of the bytes. -/
def Flags.push (f : Flags) (value : Bool) : Flags :=
  if f.used = 7 then
    ⟨f.closed ++ [f.current ||| nextByteFlag], if value then 1 else 0, 1⟩
  else ⟨f.closed, f.marked value, f.used + 1⟩

def Flags.bytes (f : Flags) : List UInt8 := f.closed ++ [f.current]

/-- The bytes hold these quotes. -/
structure Flags.Hold (f : Flags) (quotes : List Bool) : Prop where
  count : quotes.length = 7 * f.closed.length + f.used
  used_le : f.used ≤ 7
  used_pos : f.closed ≠ [] → 0 < f.used
  next : ∀ byte ∈ f.closed, byte.toNat.testBit 7 = true
  unused : ∀ j, f.used ≤ j → f.current.toNat.testBit j = false
  quote : ∀ i (h : i < quotes.length),
    f.bytes[i / 7]?.map (fun byte => byte.toNat.testBit (i % 7)) = some quotes[i]

theorem Flags.hold_nil : Flags.Hold ⟨[], 0, 0⟩ [] where
  count := rfl
  used_le := by decide
  used_pos none := absurd rfl none
  next := by simp
  unused j _ := by simp
  quote i h := absurd h (Nat.not_lt_zero i)

theorem quote_kept {closed more : List UInt8} {current changed : UInt8} {place bit : Nat}
    (within : place ≤ closed.length)
    (same : place = closed.length → changed.toNat.testBit bit = current.toNat.testBit bit) :
    (closed ++ changed :: more)[place]?.map (fun byte => byte.toNat.testBit bit) =
      (closed ++ [current])[place]?.map fun byte => byte.toNat.testBit bit := by
  by_cases before : place < closed.length
  · rw [List.getElem?_append_left before, List.getElem?_append_left before]
  · have last : place = closed.length := by omega
    rw [last, List.getElem?_append_right (Nat.le_refl _),
      List.getElem?_append_right (Nat.le_refl _), Nat.sub_self]
    simp [same last]

theorem Flags.Hold.push_next (h : f.Hold quotes) (value : Bool) (full : f.used = 7) :
    Flags.Hold ⟨f.closed ++ [f.current ||| nextByteFlag], if value then 1 else 0, 1⟩
      (quotes ++ [value]) := by
  have count := h.count
  have flagged : ∀ j, (f.current ||| nextByteFlag).toNat.testBit j =
      (f.current.toNat.testBit j || decide (7 = j)) := by
    intro j
    rw [nextByteFlag_eq, testBit_or_bit f.current (by decide)]
  constructor
  · simp only [List.length_append, List.length_singleton]
    omega
  · exact Nat.le_of_ble_eq_true rfl
  · intro _
    exact Nat.one_pos
  · intro byte mem
    rcases List.mem_append.1 mem with old | new
    · exact h.next byte old
    · rw [List.mem_singleton.1 new, flagged]
      simp
  · intro j after
    cases value with
    | true =>
      apply Nat.testBit_lt_two_pow
      exact Nat.lt_of_lt_of_le Nat.one_lt_two (Nat.pow_le_pow_right Nat.two_pos after)
    | false => exact Nat.zero_testBit j
  · intro i inside
    rw [List.length_append, List.length_singleton] at inside
    rw [Flags.bytes, List.append_assoc]
    by_cases last : i = quotes.length
    · have place : i / 7 = f.closed.length + 1 := by omega
      have first : i % 7 = 0 := by omega
      rw [place, first, List.getElem?_append_right (Nat.le_succ _)]
      cases value <;> simp [last]
    · have earlier : i < quotes.length := by omega
      have other : ¬ 7 = i % 7 := by omega
      rw [List.getElem_append_left earlier, ← h.quote i earlier]
      apply quote_kept (by omega)
      intro _
      rw [flagged, decide_eq_false other, Bool.or_false]

theorem Flags.Hold.push_bit (h : f.Hold quotes) (value : Bool) (room : f.used < 7) :
    Flags.Hold ⟨f.closed, f.marked value, f.used + 1⟩ (quotes ++ [value]) := by
  have count := h.count
  have marked : ∀ j, (f.marked value).toNat.testBit j =
      (f.current.toNat.testBit j || (value && decide (f.used = j))) := by
    intro j
    cases value with
    | true => simpa [Flags.marked] using testBit_or_bit f.current (by omega) j
    | false => simp [Flags.marked]
  constructor
  · simp only [List.length_append, List.length_singleton]
    omega
  · exact room
  · intro _
    exact Nat.succ_pos _
  · exact h.next
  · intro j after
    have other : ¬ f.used = j := Nat.ne_of_lt after
    rw [marked, h.unused j (Nat.le_of_lt after)]
    simp [other]
  · intro i inside
    rw [List.length_append, List.length_singleton] at inside
    rw [Flags.bytes]
    by_cases last : i = quotes.length
    · have place : i / 7 = f.closed.length := by omega
      have bit : i % 7 = f.used := by omega
      rw [place, bit, List.getElem?_append_right (Nat.le_refl _), Nat.sub_self]
      simp [marked, h.unused _ (Nat.le_refl _), last]
    · have earlier : i < quotes.length := by omega
      have within : i / 7 ≤ f.closed.length := by omega
      rw [List.getElem_append_left earlier, ← h.quote i earlier]
      apply quote_kept within
      intro place
      have place : i / 7 = f.closed.length := place
      have other : ¬ f.used = i % 7 := by omega
      rw [marked, decide_eq_false other, Bool.and_false, Bool.or_false]

theorem Flags.Hold.push (h : f.Hold quotes) (value : Bool) :
    (f.push value).Hold (quotes ++ [value]) := by
  unfold Flags.push
  split
  · next full => exact h.push_next value full
  · next room => exact h.push_bit value (Nat.lt_of_le_of_ne h.used_le room)

/-! ## What is written -/

theorem store_between (before old new after : List UInt8) (same : new.length = old.length) :
    store (before ++ (old ++ after)) before.length new = some (before ++ (new ++ after)) := by
  unfold store
  rw [if_pos (by simp [same])]
  simp [same]

theorem Writer.mark_between {before after : List UInt8}
    (result : w.result = before ++ current :: after) (flags : w.flags = before.length) :
    w.mark = some { w with result := before ++ (current ||| w.bitvalue) :: after } := by
  have found : w.result[w.flags]? = some current := by
    rw [result, flags, List.getElem?_append_right (Nat.le_refl _), Nat.sub_self]
    rfl
  have stored := store_between before [current] [current ||| w.bitvalue] after rfl
  rw [Writer.mark, found, Option.bind_eq_bind, Option.bind_some, result, flags]
  rw [List.singleton_append, List.singleton_append] at stored
  rw [stored]
  rfl

/-- The string in front of a part: the quote flags so far, the bytes to come for them,
the parts so far and the room for the others. -/
structure Writer.At (w : Writer) (head : UInt8) (f : Flags) (spare body room : List UInt8) :
    Prop where
  result : w.result = (head :: f.closed) ++ f.current :: (spare ++ (body ++ room))
  flags : w.flags = f.closed.length + 1
  bitvalue : w.bitvalue = UInt8.ofNat (2 ^ f.used)
  position : w.position = f.closed.length + 2 + spare.length + body.length

theorem Writer.At.mark (h : w.At head f spare body room) :
    ∃ w', w.mark = some w' ∧
      w'.result = (head :: f.closed) ++
        (f.current ||| UInt8.ofNat (2 ^ f.used)) :: (spare ++ (body ++ room)) ∧
      w'.flags = w.flags ∧ w'.bitvalue = w.bitvalue ∧ w'.position = w.position := by
  have marked := Writer.mark_between h.result h.flags
  rw [h.bitvalue] at marked
  exact ⟨_, marked, rfl, rfl, h.bitvalue.symm, rfl⟩

theorem Writer.At.nextByte {head next : UInt8} (h : w.At head f (next :: spare) body room)
    (full : f.used = 7) :
    ∃ w', w.nextByte = some w' ∧
      w'.At head ⟨f.closed ++ [f.current ||| nextByteFlag], 0, 0⟩ spare body room := by
  obtain ⟨marked, mark, result, flags, bitvalue, position⟩ := h.mark
  rw [full, ← nextByteFlag_eq] at result
  let closed := f.closed ++ [f.current ||| nextByteFlag]
  have split : marked.result = (head :: closed) ++ ([next] ++ (spare ++ (body ++ room))) := by
    simp [result, closed]
  have place : marked.flags + 1 = (head :: closed).length := by
    rw [flags, h.flags]
    simp [closed]
  have stored := store_between (head :: closed) [next] [0] (spare ++ (body ++ room)) rfl
  rw [← split, ← place] at stored
  refine ⟨{ marked with
    result := (head :: closed) ++ ([0] ++ (spare ++ (body ++ room)))
    flags := marked.flags + 1
    bitvalue := 0x01 }, ?_, ?_⟩
  · rw [Writer.nextByte, mark, Option.bind_eq_bind, Option.bind_some, stored]
    rfl
  · constructor
    · rfl
    · exact place
    · rfl
    · show marked.position = closed.length + 2 + spare.length + body.length
      rw [position, h.position, List.length_cons, List.length_append, List.length_singleton]
      omega

theorem Writer.At.addBit_room (h : w.At head f spare body room) (below : f.used < 7)
    (value : Bool) :
    ∃ w', (do
        let w ← if value then w.mark else some w
        return { w with bitvalue := w.bitvalue <<< 1 } : Option Writer) = some w' ∧
      w'.At head ⟨f.closed, f.marked value, f.used + 1⟩ spare body room := by
  have shifted : w.bitvalue <<< 1 = UInt8.ofNat (2 ^ (f.used + 1)) := by
    rw [h.bitvalue, shift_bit below]
  cases value with
  | false =>
    refine ⟨{ w with bitvalue := w.bitvalue <<< 1 }, rfl, ?_⟩
    exact ⟨h.result, h.flags, shifted, h.position⟩
  | true =>
    obtain ⟨marked, mark, result, flags, bitvalue, position⟩ := h.mark
    refine ⟨{ marked with bitvalue := marked.bitvalue <<< 1 }, ?_, ?_⟩
    · rw [if_pos rfl, mark]
      rfl
    · exact ⟨result, flags.trans h.flags, bitvalue ▸ shifted, position.trans h.position⟩

theorem Flags.marked_empty (closed : List UInt8) (value : Bool) :
    Flags.marked ⟨closed, 0, 0⟩ value = if value then 1 else 0 := by
  cases value with
  | true =>
    show (0 : UInt8) ||| UInt8.ofNat (2 ^ 0) = 1
    decide
  | false => rfl

theorem Writer.At.addBit (h : w.At head f spare body room) (used : f.used ≤ 7)
    (next : f.used = 7 → spare ≠ []) (value : Bool) :
    ∃ w' spare', w.addBit value = some w' ∧ w'.At head (f.push value) spare' body room ∧
      (f.push value).closed.length + spare'.length = f.closed.length + spare.length := by
  unfold Writer.addBit Flags.push
  by_cases full : f.used = 7
  · obtain ⟨first, spare, rfl⟩ := List.exists_cons_of_ne_nil (next full)
    obtain ⟨opened, open_, at_⟩ := h.nextByte full
    obtain ⟨w', added, after⟩ := at_.addBit_room (Nat.zero_lt_succ 6) value
    rw [Flags.marked_empty] at after
    refine ⟨w', spare, ?_, ?_, ?_⟩
    · rw [if_pos (by rw [h.bitvalue, full]; rfl), open_]
      exact added
    · rw [if_pos full]
      exact after
    · rw [if_pos full]
      simp only [List.length_append, List.length_cons, List.length_nil]
      omega
  · have below : f.used < 7 := Nat.lt_of_le_of_ne used full
    obtain ⟨w', added, after⟩ := h.addBit_room below value
    refine ⟨w', spare, ?_, ?_, ?_⟩
    · rw [if_neg (by rw [h.bitvalue, bit_eq_nextByteFlag (by omega)]; exact full)]
      exact added
    · rw [if_neg full]
      exact after
    · rw [if_neg full]

def textOf (parts : List Part) : List UInt8 := parts.flatMap fun part => part.part ++ [0]

theorem Writer.At.addPart {part : Part} {text terminator : List UInt8}
    (h : w.At head f spare body (text ++ (terminator ++ room))) (used : f.used ≤ 7)
    (next : f.used = 7 → spare ≠ []) (textLength : text.length = part.part.length)
    (one : terminator.length = 1) :
    ∃ w' spare', w.addPart part = some w' ∧
      w'.At head (f.push part.quotes) spare' (body ++ (part.part ++ [0])) room ∧
      (f.push part.quotes).closed.length + spare'.length = f.closed.length + spare.length := by
  obtain ⟨marked, spare', added, at_, lengths⟩ := h.addBit used next part.quotes
  let g := f.push part.quotes
  let before := (head :: g.closed) ++ g.current :: (spare' ++ body)
  have split : marked.result = before ++ (text ++ (terminator ++ room)) := by
    simp [at_.result, before, g]
  have place : marked.position = before.length := by
    rw [at_.position]
    simp only [before, g, List.length_append, List.length_cons]
    omega
  have stored := store_between before text part.part (terminator ++ room) textLength.symm
  have closed := store_between (before ++ part.part) terminator [0] room one.symm
  rw [List.length_append, List.append_assoc] at closed
  refine ⟨{ marked with
    result := before ++ part.part ++ ([0] ++ room)
    position := before.length + part.part.length + 1 }, spare', ?_, ?_, lengths⟩
  · rw [Writer.addPart, added, Option.bind_eq_bind, Option.bind_some, split, place, stored]
    dsimp only [Option.bind_eq_bind, Option.bind_some]
    rw [closed]
    rfl
  · constructor
    · simp [before, g]
    · exact at_.flags
    · exact at_.bitvalue
    · rw [← place, at_.position]
      simp only [List.length_append, List.length_singleton]
      omega

theorem countBytesForFlags_eq {count : Nat} (some : 0 < count) :
    countBytesForFlags count = (count + 6) / 7 := by
  unfold countBytesForFlags flagsInByte
  split <;> omega

theorem Flags.Hold.foldl (h : f.Hold done) (quotes : List Bool) :
    (quotes.foldl Flags.push f).Hold (done ++ quotes) := by
  induction quotes generalizing f done with
  | nil => rwa [List.append_nil]
  | cons value rest ih =>
    rw [List.append_cons]
    exact ih (h.push value)

theorem Writer.At.foldlM (h : w.At head f spare body room) (hold : f.Hold done)
    (bytes : f.closed.length + 1 + spare.length = countBytesForFlags (done.length + parts.length))
    (length : room.length = (textOf parts).length) :
    ∃ w' spare', parts.foldlM Writer.addPart w = some w' ∧
      w'.At head ((parts.map Part.quotes).foldl Flags.push f) spare' (body ++ textOf parts) [] ∧
      ((parts.map Part.quotes).foldl Flags.push f).closed.length + spare'.length =
        f.closed.length + spare.length := by
  induction parts generalizing w f done spare body room with
  | nil =>
    have none : room = [] := List.length_eq_zero_iff.1 length
    refine ⟨w, spare, rfl, ?_, rfl⟩
    rw [textOf, List.flatMap_nil, List.append_nil]
    exact none ▸ h
  | cons part rest ih =>
    rw [textOf, List.flatMap_cons, List.length_append, List.length_append, ← textOf,
      List.length_singleton] at length
    obtain ⟨text, terminator, left, rfl, textLength, one⟩ :
        ∃ text terminator left, room = text ++ (terminator ++ left) ∧
          text.length = part.part.length ∧ terminator.length = 1 := by
      refine ⟨room.take part.part.length, (room.drop part.part.length).take 1,
        (room.drop part.part.length).drop 1, ?_, ?_, ?_⟩
      · rw [List.take_append_drop, List.take_append_drop]
      · rw [List.length_take]
        omega
      · rw [List.length_take, List.length_drop]
        omega
    have count := hold.count
    rw [List.length_cons, countBytesForFlags_eq (by omega)] at bytes
    have next : f.used = 7 → spare ≠ [] := by
      intro full none
      rw [none, List.length_nil] at bytes
      omega
    obtain ⟨w', spare', added, at_, lengths⟩ := h.addPart hold.used_le next textLength one
    have room : left.length = (textOf rest).length := by
      simp only [List.length_append] at length
      omega
    have counted : (f.push part.quotes).closed.length + 1 + spare'.length =
        countBytesForFlags ((done ++ [part.quotes]).length + rest.length) := by
      rw [List.length_append, List.length_singleton, countBytesForFlags_eq (by omega)]
      omega
    obtain ⟨last, spare'', loop, final, same⟩ := ih at_ (hold.push part.quotes) counted room
    refine ⟨last, spare'', ?_, ?_, same.trans lengths⟩
    · rw [List.foldlM_cons, added, Option.bind_eq_bind, Option.bind_some]
      exact loop
    · rwa [List.append_assoc] at final

theorem length_resize (old : List UInt8) (size : Nat) : (resize old size).length = size := by
  simp only [resize, List.length_append, List.length_take, List.length_replicate]
  omega

/-- The bytes, as they stand one after the other. -/
theorem serialize_eq (nonempty : parts ≠ []) (type : Char) (exact negative : Bool)
    (old : List UInt8) :
    ∃ f, (parts.map Part.quotes).foldl Flags.push ⟨[], 0, 0⟩ = f ∧ f.Hold (parts.map Part.quotes) ∧
      serialize parts type exact negative old =
        some (triggerFlags type exact negative :: (f.bytes ++ textOf parts)) := by
  have positive := List.length_pos_iff.2 nonempty
  have text : (parts.map fun part => part.part.length + 1).sum = (textOf parts).length := by
    simp [textOf, List.length_flatMap]
  have count := countBytesForFlags_eq positive
  obtain ⟨first, second, spare, room, fresh, spareLength, roomLength⟩ :
      ∃ first second spare room,
        resize old (1 + (textOf parts).length + countBytesForFlags parts.length) =
          [first] ++ ([second] ++ (spare ++ room)) ∧
        spare.length + 1 = countBytesForFlags parts.length ∧
        room.length = (textOf parts).length := by
    have length := length_resize old (1 + (textOf parts).length + countBytesForFlags parts.length)
    match resize old (1 + (textOf parts).length + countBytesForFlags parts.length), length with
    | [], length => simp at length; omega
    | [_], length => simp at length; omega
    | first :: second :: rest, length =>
      rw [List.length_cons, List.length_cons] at length
      refine ⟨first, second, rest.take (countBytesForFlags parts.length - 1),
        rest.drop (countBytesForFlags parts.length - 1), ?_, ?_, ?_⟩
      · rw [List.take_append_drop]
        rfl
      · rw [List.length_take]
        omega
      · rw [List.length_drop]
        omega
  have head : store ([first] ++ ([second] ++ (spare ++ room))) 0
      [triggerFlags type exact negative] =
        some ([triggerFlags type exact negative] ++ ([second] ++ (spare ++ room))) :=
    store_between [] [first] [triggerFlags type exact negative] ([second] ++ (spare ++ room)) rfl
  have flags : store ([triggerFlags type exact negative] ++ ([second] ++ (spare ++ room))) 1 [0] =
      some ([triggerFlags type exact negative] ++ ([0] ++ (spare ++ room))) :=
    store_between [triggerFlags type exact negative] [second] [0] (spare ++ room) rfl
  have start : Writer.At
      ⟨[triggerFlags type exact negative] ++ ([0] ++ (spare ++ room)), 1, 0x01,
        1 + countBytesForFlags parts.length⟩
      (triggerFlags type exact negative) ⟨[], 0, 0⟩ spare [] room := by
    refine ⟨rfl, rfl, rfl, ?_⟩
    simp only [List.length_nil]
    omega
  have bytes : ([] : List UInt8).length + 1 + spare.length =
      countBytesForFlags (([] : List Bool).length + parts.length) := by
    simp only [List.length_nil, Nat.zero_add]
    omega
  obtain ⟨w, spare', loop, final, lengths⟩ := start.foldlM Flags.hold_nil bytes roomLength
  have hold := Flags.hold_nil.foldl (parts.map Part.quotes)
  generalize (parts.map Part.quotes).foldl Flags.push ⟨[], 0, 0⟩ = f at final lengths hold
  have none : spare' = [] := by
    have used := hold.used_le
    have total := hold.count
    simp only [List.nil_append, List.length_map, List.length_nil] at total lengths
    have positive : 0 < f.used := by
      by_cases closed : f.closed = []
      · rw [closed, List.length_nil] at total
        omega
      · exact hold.used_pos closed
    apply List.length_eq_zero_iff.1
    omega
  refine ⟨f, rfl, hold, ?_⟩
  simp only [serialize, text, fresh, head, flags, loop, Option.bind_eq_bind, Option.bind_some,
    Option.pure_def]
  rw [final.result, none, List.append_nil, List.nil_append, List.nil_append, Flags.bytes,
    List.cons_append, List.append_assoc]
  rfl

/-! ## What is read -/

theorem skipFlags_bytes (h : f.Hold quotes) (rest : List UInt8) :
    skipFlags (f.bytes ++ rest) = some (f.closed.length + 1, rest) := by
  obtain ⟨closed, current, used⟩ := f
  have last : current &&& nextByteFlag = 0 :=
    (and_nextByteFlag current).2 (h.unused 7 h.used_le)
  have next : ∀ byte ∈ closed, byte.toNat.testBit 7 = true := h.next
  clear h
  rw [Flags.bytes]
  induction closed with
  | nil => exact if_pos last
  | cons byte closed ih =>
    have flagged : byte &&& nextByteFlag ≠ 0 := by
      intro none
      have set := next byte (by simp)
      rw [(and_nextByteFlag byte).1 none] at set
      cases set
    rw [List.cons_append, List.cons_append, skipFlags, if_neg flagged,
      ih fun byte mem => next byte (List.mem_cons_of_mem _ mem)]
    rfl

theorem cString_part {part : List UInt8} (clean : 0 ∉ part) (rest : List UInt8) :
    cString (part ++ (0 :: rest)) = some (part, rest) := by
  induction part with
  | nil => rfl
  | cons byte part ih =>
    rw [List.mem_cons, not_or] at clean
    rw [List.cons_append, cString, if_neg (Ne.symm clean.1), ih clean.2]
    rfl

theorem fillParts_textOf {α : Type} {slot : Nat → List UInt8 → Option α} {read : Part → α}
    {index slots : Nat} (enough : parts.length ≤ slots) (clean : ∀ part ∈ parts, 0 ∉ part.part)
    (slots_ : ∀ i (h : i < parts.length), slot (index + i) parts[i].part = some (read parts[i])) :
    fillParts slot index slots (textOf parts) = some (parts.map read) := by
  induction parts generalizing index slots with
  | nil =>
    rw [textOf, List.flatMap_nil]
    unfold fillParts
    rfl
  | cons part rest ih =>
    cases slots with
    | zero => exact absurd enough (Nat.not_succ_le_zero _)
    | succ slots =>
      have word := cString_part (clean part (by simp)) (textOf rest)
      have first := slots_ 0 (Nat.zero_lt_succ _)
      have others := ih (Nat.le_of_succ_le_succ enough)
        (fun part mem => clean part (List.mem_cons_of_mem _ mem)) fun i h => by
          have next := slots_ (i + 1) (Nat.succ_lt_succ h)
          rwa [← Nat.add_assoc, Nat.add_right_comm] at next
      rw [textOf, List.flatMap_cons, ← textOf, List.append_assoc, List.singleton_append]
      have some : part.part ++ 0 :: textOf rest ≠ [] := by simp
      rw [fillParts, word, Option.bind_eq_bind, Option.bind_some]
      dsimp only
      rw [Nat.add_zero, List.getElem_cons_zero] at first
      rw [first, Option.bind_eq_bind, Option.bind_some, others]
      rfl
      · exact some

theorem quoted_bytes (h : f.Hold quotes) (flags : UInt8) (text : List UInt8) (index : Nat)
    (inside : index < quotes.length) :
    quoted (flags :: (f.bytes ++ text)) index = some quotes[index] := by
  have count := h.count
  have used := h.used_le
  have place : index / 7 < f.bytes.length := by
    simp only [Flags.bytes, List.length_append, List.length_singleton]
    omega
  have bit : index - index / 7 * 7 = index % 7 := by omega
  have value := h.quote index inside
  rw [quoted, flagsInByte, List.drop_one, List.tail_cons, List.getElem?_append_left place, bit,
    one_shift (by omega)]
  obtain ⟨byte, found, same⟩ := Option.map_eq_some_iff.1 value
  rw [found, Option.bind_eq_bind, Option.bind_some, and_bit byte (by omega)]
  exact congrArg some same

/-- What a trigger is made of. -/
structure Source where
  parts : List Part
  type : Char
  exact : Bool
  negative : Bool
  nonempty : parts ≠ []
  terminated : ∀ part ∈ parts, 0 ∉ part.part
  known : type ∈ ['U', 'P', 'S', 'R', 'D']

def Source.serialize (source : Source) (old : List UInt8) : Option (List UInt8) :=
  Serialization.serialize source.parts source.type source.exact source.negative old

theorem Source.flags (source : Source) (rest : List UInt8) :
    let data := triggerFlags source.type source.exact source.negative :: rest
    Serialization.exact data = some source.exact ∧
      Serialization.negative data = some source.negative ∧
      triggerType data = some source.type := by
  have each : ∀ type ∈ ['U', 'P', 'S', 'R', 'D'], ∀ exact negative,
      (triggerFlags type exact negative &&& exactBit != 0) = exact ∧
      (triggerFlags type exact negative &&& negativeBit != 0) = negative ∧
      typeOfFlags (triggerFlags type exact negative) = type := by
    intro type known exact negative
    simp only [List.mem_cons, List.not_mem_nil, or_false] at known
    rcases known with rfl | rfl | rfl | rfl | rfl <;>
      cases exact <;> cases negative <;> decide
  obtain ⟨exact, negative, type⟩ := each source.type source.known source.exact source.negative
  exact ⟨congrArg some exact, congrArg some negative, congrArg some type⟩

/-- All that is read of what is written. -/
structure Source.Read (source : Source) (data : List UInt8) : Prop where
  subStrings : ∀ stale, getSubStrings data stale = some (source.parts.map Part.part)
  parts : getParts data = some source.parts
  quoted : ∀ i (h : i < source.parts.length), Serialization.quoted data i =
    some source.parts[i].quotes
  exact : Serialization.exact data = some source.exact
  negative : Serialization.negative data = some source.negative
  type : triggerType data = some source.type

theorem Source.serialize_read (source : Source) (old : List UInt8) :
    ∃ data, source.serialize old = some data ∧ source.Read data := by
  obtain ⟨f, -, hold, written⟩ :=
    serialize_eq source.nonempty source.type source.exact source.negative old
  refine ⟨_, written, ?_⟩
  have count := hold.count
  have used := hold.used_le
  rw [List.length_map] at count
  have positive := List.length_pos_iff.2 source.nonempty
  have long : ¬ (triggerFlags source.type source.exact source.negative ::
      (f.bytes ++ textOf source.parts)).length < 3 := by
    obtain ⟨part, rest, same⟩ := List.exists_cons_of_ne_nil source.nonempty
    simp only [Flags.bytes, same, textOf, List.flatMap_cons, List.length_cons, List.length_append,
      List.length_nil]
    omega
  have skipped : skipFlags ((triggerFlags source.type source.exact source.negative ::
      (f.bytes ++ textOf source.parts)).drop 1) = some (f.closed.length + 1, textOf source.parts) :=
    skipFlags_bytes hold _
  have enough : source.parts.length ≤ (f.closed.length + 1) * flagsInByte := by
    rw [flagsInByte]
    omega
  have quotes : ∀ i (h : i < source.parts.length), Serialization.quoted
      (triggerFlags source.type source.exact source.negative ::
        (f.bytes ++ textOf source.parts)) i = some source.parts[i].quotes := by
    intro i inside
    have read := quoted_bytes hold
      (triggerFlags source.type source.exact source.negative) (textOf source.parts) i
      (by rwa [List.length_map])
    rwa [List.getElem_map] at read
  obtain ⟨exact, negative, type⟩ := source.flags (f.bytes ++ textOf source.parts)
  generalize triggerFlags source.type source.exact source.negative ::
    (f.bytes ++ textOf source.parts) = data at *
  refine ⟨?_, ?_, quotes, exact, negative, type⟩
  · intro stale
    rw [getSubStrings, if_neg long, partsOf, skipped]
    apply fillParts_textOf enough source.terminated
    intro i inside
    rfl
  · rw [getParts, if_neg long, partsOf, skipped]
    have read : fillParts (fun index word => (Serialization.quoted data index).map (Part.mk word)) 0
        ((f.closed.length + 1) * flagsInByte) (textOf source.parts) =
          some (source.parts.map id) := by
      apply fillParts_textOf enough source.terminated
      intro i inside
      rw [Nat.zero_add, quotes i inside]
      rfl
    rwa [List.map_id] at read

/-- What is read of a serialized trigger is what it is made of, so that no two are
serialized to the same bytes. -/
theorem Source.serialize_round_trip (source : Source) (old : List UInt8) :
    ∃ data, source.serialize old = some data ∧ source.Read data ∧
      ∀ (other : Source) (stale : List UInt8), other.serialize stale = some data →
        other = source := by
  obtain ⟨data, written, read⟩ := source.serialize_read old
  refine ⟨data, written, read, ?_⟩
  intro other stale same
  obtain ⟨bytes, rewritten, reread⟩ := other.serialize_read stale
  rw [same] at rewritten
  cases rewritten
  have parts := read.parts.symm.trans reread.parts
  have type := read.type.symm.trans reread.type
  have exact := read.exact.symm.trans reread.exact
  have negative := read.negative.symm.trans reread.negative
  obtain ⟨_, _, _, _, _, _, _⟩ := source
  obtain ⟨_, _, _, _, _, _, _⟩ := other
  cases parts
  cases type
  cases exact
  cases negative
  rfl

/-! ## The bytes as numbers

Where a word is the numbers of its bytes, the same is written and read. -/

variable {data bytes rest word after : List UInt8}

/-- The numbers of the bytes. -/
def wordOf (bytes : List UInt8) : Word := bytes.map UInt8.toNat

def typeOfChar : Char → TriggerType
  | 'U' => .url
  | 'P' => .page
  | 'S' => .search
  | 'R' => .urlKeyword
  | 'D' => .uid
  | _ => .unknown

theorem skipFlags_wordOf {count : Nat} (skipped : skipFlags bytes = some (count, rest)) :
    ChannelServer.skipFlags (wordOf bytes) = wordOf rest := by
  induction bytes generalizing count with
  | nil => cases skipped
  | cons byte bytes ih =>
    have flag : byte.toNat &&& 128 = 0 ↔ byte &&& nextByteFlag = 0 := by
      rw [← UInt8.toNat_inj, UInt8.toNat_and]
      rfl
    rw [skipFlags] at skipped
    rw [wordOf, List.map_cons, ChannelServer.skipFlags]
    split at skipped
    · next last =>
      cases skipped
      exact if_pos (flag.2 last)
    · next next_ =>
      obtain ⟨⟨_, _⟩, found, same⟩ := Option.map_eq_some_iff.1 skipped
      cases same
      rw [if_neg (mt flag.1 next_)]
      exact ih found

theorem splitParts_wordOf (read : cString bytes = some (word, after)) :
    splitParts (wordOf bytes) = wordOf word :: splitParts (wordOf after) := by
  induction bytes generalizing word with
  | nil => cases read
  | cons byte bytes ih =>
    have zero : byte.toNat = 0 ↔ byte = 0 := UInt8.toNat_inj (b := 0)
    rw [cString] at read
    rw [wordOf, List.map_cons, splitParts]
    split at read
    · next last =>
      cases read
      exact if_pos (zero.2 last)
    · next other =>
      obtain ⟨⟨_, _⟩, found, same⟩ := Option.map_eq_some_iff.1 read
      cases same
      rw [if_neg (mt zero.1 other), ← wordOf, ih found]
      rfl

theorem fillParts_wordOf {index slots : Nat} {parts : List (List UInt8)}
    (read : fillParts (fun _ word => some word) index slots bytes = some parts) :
    splitParts (wordOf bytes) = parts.map wordOf := by
  induction slots generalizing index bytes parts with
  | zero =>
    cases bytes with
    | nil => cases read; rfl
    | cons byte bytes => cases read
  | succ slots ih =>
    cases bytes with
    | nil => cases read; rfl
    | cons byte bytes =>
      rw [fillParts] at read
      · obtain ⟨⟨word, after⟩, first, read⟩ := Option.bind_eq_some_iff.1 read
        obtain ⟨_, slot, read⟩ := Option.bind_eq_some_iff.1 read
        obtain ⟨others, found, same⟩ := Option.bind_eq_some_iff.1 read
        cases slot
        rw [splitParts_wordOf first, ih found, ← Option.some.inj same]
        rfl
      · simp

/-- Where all of the data is read, the parts are the ones of the numbers. -/
theorem getParts_wordOf {parts : List (List UInt8)} (read : getSubStrings data [] = some parts) :
    ChannelServer.getParts (wordOf data) = parts.map wordOf := by
  have length : (wordOf data).length = data.length := List.length_map _
  rw [getSubStrings] at read
  rw [ChannelServer.getParts, length]
  split at read
  · next short =>
    cases read
    exact if_pos short
  · next long =>
    obtain ⟨⟨count, bytes⟩, skipped, filled⟩ := Option.bind_eq_some_iff.1 read
    rw [if_neg long, wordOf, ← List.map_drop, ← wordOf, skipFlags_wordOf skipped]
    exact fillParts_wordOf filled

theorem exact_wordOf {set : Bool} (read : Serialization.exact data = some set) :
    decide ((wordOf data).headD 0 &&& 1 ≠ 0) = set := by
  cases data with
  | nil => cases read
  | cons flags rest =>
    cases read
    have same : flags.toNat &&& 1 = 0 ↔ flags &&& exactBit = 0 := by
      rw [← UInt8.toNat_inj, UInt8.toNat_and]
      rfl
    rw [Bool.eq_iff_iff, decide_eq_true_iff, bne_iff_ne]
    exact not_congr same

theorem triggerType_wordOf {type : Char} (read : triggerType data = some type) :
    triggerTypeOf (wordOf data) = typeOfChar type := by
  cases data with
  | nil => cases read
  | cons flags rest =>
    cases read
    have same (bits : UInt8) : flags &&& typeBits = bits ↔ flags.toNat &&& 14 = bits.toNat := by
      rw [← UInt8.toNat_inj, UInt8.toNat_and]
      rfl
    unfold typeOfFlags triggerTypeOf
    simp only [same]
    split_ifs <;> first | rfl | contradiction

theorem or_bit {flags k : Nat} (unused : flags < 2 ^ k) : flags ||| 2 ^ k = flags + 2 ^ k := by
  have value := Nat.two_pow_add_eq_or_of_lt unused 1
  rw [Nat.mul_one] at value
  rw [Nat.lor_comm, ← value, Nat.add_comm]

theorem addBits_wordOf (quotes : List Bool) (used : f.used ≤ 7)
    (unused : f.current.toNat < 2 ^ f.used) :
    wordOf f.closed ++ addBits f.used f.current.toNat quotes =
      wordOf (quotes.foldl Flags.push f).bytes := by
  induction quotes generalizing f with
  | nil => simp [Flags.bytes, wordOf, addBits]
  | cons value rest ih =>
    obtain ⟨closed, current, k⟩ := f
    simp only at used unused
    rw [List.foldl_cons, addBits]
    by_cases full : k = 7
    · subst full
      have closing : (current ||| nextByteFlag).toNat = current.toNat + 128 := by
        rw [UInt8.toNat_or]
        exact or_bit unused
      have fresh := ih (f := (Flags.mk closed current 7).push value) (by simp [Flags.push])
        (by cases value <;> simp [Flags.push])
      rw [if_pos rfl, ← fresh, ← closing]
      cases value <;> simp [Flags.push, wordOf]
    · have below : k < 7 := Nat.lt_of_le_of_ne used full
      have marked : ((Flags.mk closed current k).marked value).toNat =
          current.toNat + value.toNat * 2 ^ k := by
        cases value with
        | false => simp [Flags.marked]
        | true =>
          rw [Flags.marked, if_pos rfl, UInt8.toNat_or, toNat_bit (Nat.lt_succ_of_lt below), or_bit unused]
          simp
      have push : (Flags.mk closed current k).push value =
          ⟨closed, (Flags.mk closed current k).marked value, k + 1⟩ := if_neg full
      have next := ih (f := (Flags.mk closed current k).push value) (by rw [push]; exact below) (by
        have bit := Nat.mul_le_mul_right (2 ^ k) (Bool.toNat_le value)
        rw [push]
        dsimp only
        rw [marked, Nat.pow_succ]
        omega)
      rw [push, marked] at next
      rw [if_neg full, next, push]

/-- The bytes of the parts of a trigger are written as the numbers are. -/
theorem serialize_wordOf (nonempty : parts ≠ []) {type : Char}
    (known : type ∈ ['U', 'P', 'S', 'R', 'D']) {exact negative : Bool} {old : List UInt8}
    (written : serialize parts type exact negative old = some data) :
    ChannelServer.serialize (parts.map fun part => ⟨wordOf part.part, part.quotes⟩)
      (typeOfChar type) exact negative = wordOf data := by
  have flags : ((if exact then 1 else 0) + ChannelServer.typeBits (typeOfChar type) +
      if negative then 16 else 0) = (triggerFlags type exact negative).toNat := by
    simp only [List.mem_cons, List.not_mem_nil, or_false] at known
    rcases known with rfl | rfl | rfl | rfl | rfl <;> cases exact <;> cases negative <;> rfl
  have bits := addBits_wordOf (f := ⟨[], 0, 0⟩) (parts.map Part.quotes) (Nat.zero_le _)
    Nat.one_pos
  obtain ⟨f, pushed, -, same⟩ := serialize_eq nonempty type exact negative old
  rw [pushed] at bits
  rw [written] at same
  cases same
  rw [ChannelServer.serialize, flags, List.map_map]
  simp only [wordOf, textOf, List.map_cons, List.map_append, List.flatMap_map, List.map_flatMap]
  exact congrArg (fun bits => _ :: (bits ++ _)) bits

example : serialize [⟨[97], true⟩, ⟨[], false⟩] 'P' true false [] =
    some [0x05, 0x01, 97, 0, 0] := by decide

end AdServer.ChannelServer.Serialization
