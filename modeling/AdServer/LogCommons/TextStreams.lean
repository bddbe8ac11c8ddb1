import AdServer.Lib.Delimited
import AdServer.Lib.Runs

/-!
# Text fields of logs

Strings are written with their reserved bytes escaped, and read back by two readers: from
an `std::istream`, and token by token from a `FixedBufStream`. Both handle the wrappers that
give an empty value a text of its own.
-/

namespace AdServer.LogProcessing

open AdServer.Lib
open AdServer.Lib.Runs (Rounds)

abbrev Bytes := List UInt8

def escChar : UInt8 := 0x5E

def nullMarker : UInt8 := 0x2D

def presentMarker : UInt8 := 0x40

def tab : UInt8 := 0x09

def comma : UInt8 := 0x2C

/-- `std::ctype_base::space`. -/
def isSpace (ch : UInt8) : Bool := ch == 0x20 || decide (0x09 ≤ ch ∧ ch ≤ 0x0D)

inductive Convertor where
  | convertSpaces
  | convertSpacesSeparators
  deriving DecidableEq

/-- `WRITE_RESERVED_CHAR_TABLE` of each. -/
def Convertor.writeReservedCharTable : Convertor → UInt8 → Option (UInt8 × UInt8)
  | _, 0x00 => some (0x30, 0x30)
  | _, 0x09 => some (0x30, 0x39)
  | _, 0x0A => some (0x30, 0x41)
  | _, 0x0B => some (0x30, 0x42)
  | _, 0x0C => some (0x30, 0x43)
  | _, 0x0D => some (0x30, 0x44)
  | _, 0x20 => some (0x32, 0x30)
  | .convertSpacesSeparators, 0x2C => some (0x32, 0x43)
  | .convertSpacesSeparators, 0x3A => some (0x33, 0x41)
  | .convertSpacesSeparators, 0x3D => some (0x33, 0x44)
  | _, 0x5E => some (0x35, 0x45)
  | _, _ => none

structure StringIo (convertor : Convertor) where
  data : Bytes
  deriving DecidableEq

/-- What is written of a byte. -/
def Convertor.reserve (convertor : Convertor) (ch : UInt8) : Bytes :=
  if ch < 128 then
    match convertor.writeReservedCharTable ch with
    | some (high, low) => [escChar, high, low]
    | none => [ch]
  else [ch]

/-- A digit as the readers compute it, with unsigned numbers that wrap. -/
def hexDigit (ch : UInt8) : Option UInt32 :=
  let digit := ch.toUInt32 - 0x30
  if digit ≤ 9 then some digit
  else if digit - 7 < 10 ∨ 15 < digit - 7 then none
  else some (digit - 7)

structure IStream where
  rest : Bytes
  eofbit : Bool := false
  failbit : Bool := false
  width : Nat := 0
  deriving DecidableEq

namespace IStream

def good (is : IStream) : Bool := !is.eofbit && !is.failbit

def peek (is : IStream) : Option UInt8 × IStream :=
  if is.good then (is.rest.head?, { is with eofbit := is.rest.isEmpty })
  else (none, { is with failbit := true })

/-- `get()`, after a look at what is there. -/
def get (is : IStream) : IStream := { is with rest := is.rest.tail }

def checkNull (is : IStream) (marker : UInt8) : Bool × IStream :=
  match is.peek with
  | (some ch, is) =>
    if ch = marker then
      let (next, behind) := is.get.peek
      if next.any isSpace || behind.eofbit then (true, behind)
      else (false, { behind with rest := ch :: behind.rest })
    else (false, is)
  | (none, is) => (false, is)

end IStream

/-- Where the two rounds over the digits of an escaped byte end. -/
inductive Unescaped where
  | stop (rest : Bytes)
  | byte (result : UInt32) (failed : Bool) (rest : Bytes)

/-- Whether a string ends before the byte. -/
def ends (ch : UInt8) : Bool := isSpace ch || ch == tab

def unescape : Nat → UInt32 → Bytes → Unescaped
  | 0, result, rest => .byte result false rest
  | _ + 1, _, [] => .stop []
  | rounds + 1, result, ch :: rest =>
    if ends ch then .stop (ch :: rest)
    else
      match hexDigit ch with
      | none => .byte (result * 16) true rest
      | some digit => unescape rounds (result * 16 + digit) rest

/-- The loop of `operator >>` over at most so many bytes: what was extracted, what is left,
and whether some escape was wrong. -/
def extractBytes : Nat → Bytes → Bytes × Bytes × Bool
  | 0, rest => ([], rest, false)
  | _ + 1, [] => ([], [], false)
  | n + 1, ch :: rest =>
    if ends ch then ([], ch :: rest, false)
    else if ch = escChar then
      match unescape 2 0 rest with
      | .stop rest => ([], rest, true)
      | .byte result failed rest =>
        let (text, rest, failedLater) := extractBytes n rest
        (result.toUInt8 :: text, rest, failed || failedLater)
    else
      let (text, rest, failed) := extractBytes n rest
      (ch :: text, rest, failed)

/-- `FixedBufStream` over the rest of a text, its tokens separated by one byte. -/
structure FixedBufStream (separator : UInt8) where
  rest : Bytes
  lastToken : Option Bytes := none
  badbit : Bool := false
  eofbit : Bool := false
  failbit : Bool := false
  deriving DecidableEq

namespace FixedBufStream

variable {separator : UInt8} (is : FixedBufStream separator)

def good : Bool := !is.badbit && !is.eofbit && !is.failbit

def readToken : Bytes × FixedBufStream separator :=
  match is.lastToken with
  | some token => (token, { is with lastToken := none })
  | none =>
    let token := is.rest.takeWhile (· != separator)
    (token, { is with
      rest := (is.rest.dropWhile (· != separator)).tail
      eofbit := is.eofbit || token.isEmpty })

def pushBack (token : Bytes) : FixedBufStream separator := { is with lastToken := some token }

/-- Bytes that are not read yet. -/
def left : Nat := is.rest.length + (is.lastToken.getD []).length

end FixedBufStream

/-- The loop over a token from its first escape on. -/
def unescapeToken : Bytes → Option Bytes
  | [] => some []
  | ch :: rest =>
    if ch = escChar then
      match rest with
      | high :: low :: rest =>
        (hexDigit high).bind fun d => (hexDigit low).bind fun d' =>
          (unescapeToken rest).map ((d * 16 + d').toUInt8 :: ·)
      | _ => none
    else (unescapeToken rest).map (ch :: ·)

/-- `operator <<`, and `operator >>` of the stream of tokens: the value read into may keep
what it was. -/
class LogField (T : Type) where
  write : T → Bytes
  read {separator : UInt8} : FixedBufStream separator → T → FixedBufStream separator × T

/-- `operator >>` of the standard stream, for strings of a largest size. -/
class Extracted (T : Type) where
  extract : Nat → IStream → T → IStream × T

/-- What the wrappers of empty values need. -/
class Clearable (T : Type) where
  empty : T → Bool
  clear : T → T

/-- What a list reads: an element starts as a new one, and a good read takes some byte. -/
class ListElement (T : Type) extends LogField T where
  initial : T
  reads {separator : UInt8} (is : FixedBufStream separator) (value : T) :
    (read is value).1.good = true → (read is value).1.left < is.left

section StringIo

variable {convertor : Convertor} {separator : UInt8}

def StringIo.write (str : StringIo convertor) : Bytes := str.data.flatMap convertor.reserve

def StringIo.read (is : FixedBufStream separator) (value : StringIo convertor) :
    FixedBufStream separator × StringIo convertor :=
  let (token, is) := is.readToken
  if is.good then
    if token.isEmpty then ({ is with eofbit := true }, value)
    else
      match token.dropWhile (· != escChar) with
      | [] => (is, ⟨token⟩)
      | escape =>
        if escape.length < 3 then ({ is with failbit := true }, value)
        else
          match unescapeToken escape with
          | none => ({ is with failbit := true }, value)
          | some str => (is, ⟨token.takeWhile (· != escChar) ++ str⟩)
  else (is, value)

def StringIo.extract (maxSize : Nat) (is : IStream) (str : StringIo convertor) :
    IStream × StringIo convertor :=
  if is.good then
    let (text, rest, failed) := extractBytes (if 0 < is.width then is.width else maxSize) is.rest
    ({ is with
      rest := rest
      width := 0
      eofbit := rest.isEmpty
      failbit := failed || (text.isEmpty && rest.head? != some tab) }, ⟨text⟩)
  else ({ is with failbit := true }, str)

instance : Clearable (StringIo convertor) := ⟨fun str => str.data.isEmpty, fun _ => ⟨[]⟩⟩

end StringIo

structure EmptyHolder (Object : Type) where
  object : Object
  deriving DecidableEq

section EmptyHolder

variable {Object : Type} [Clearable Object] {separator : UInt8}

def EmptyHolder.write [LogField Object] (holder : EmptyHolder Object) : Bytes :=
  if Clearable.empty holder.object then [nullMarker] else LogField.write holder.object

def EmptyHolder.read [LogField Object] (is : FixedBufStream separator)
    (holder : EmptyHolder Object) : FixedBufStream separator × EmptyHolder Object :=
  let (token, is) := is.readToken
  if is.good then
    if token.head? = some nullMarker then (is, ⟨Clearable.clear holder.object⟩)
    else (LogField.read (is.pushBack token) holder.object).map id .mk
  else (is, holder)

def EmptyHolder.extract [Extracted Object] (maxSize : Nat) (is : IStream)
    (holder : EmptyHolder Object) : IStream × EmptyHolder Object :=
  if is.good then
    match is.checkNull nullMarker with
    | (true, is) => (is, ⟨Clearable.clear holder.object⟩)
    | (false, is) => (Extracted.extract maxSize is holder.object).map id .mk
  else (is, holder)

end EmptyHolder

/-- `OptionalValue` with `ClearableOptionalValueTraits`. -/
structure OptionalValue (T : Type) where
  value : T
  present : Bool
  deriving DecidableEq

namespace OptionalValue

variable {T : Type} [Clearable T] {separator : UInt8}

/-- The value it was made from is present unless it is empty. -/
def of (value : T) : OptionalValue T := ⟨value, !Clearable.empty value⟩

def get? (ov : OptionalValue T) : Option T := if ov.present then some ov.value else none

def clear (ov : OptionalValue T) : OptionalValue T :=
  if ov.present then { ov with value := Clearable.clear ov.value } else ov

def write [LogField T] (ov : OptionalValue T) : Bytes :=
  if ov.present && !Clearable.empty ov.value then presentMarker :: LogField.write ov.value
  else [nullMarker]

def read [LogField T] (is : FixedBufStream separator) (ov : OptionalValue T) :
    FixedBufStream separator × OptionalValue T :=
  if is.good then
    match is.readToken with
    | ([], is) => ({ is with badbit := true }, ov)
    | (first :: behind, is) =>
      if first = nullMarker then
        if behind.isEmpty then (is, { ov.clear with present := false })
        else ({ is with badbit := true }, ov)
      else
        let is := is.pushBack (if first = presentMarker then behind else first :: behind)
        let (is, value) := LogField.read is ov.value
        if is.badbit || is.failbit then (is, { ov with value := value })
        else (is, of value)
  else (is, ov)

def extract [Extracted T] (maxSize : Nat) (is : IStream) (ov : OptionalValue T) :
    IStream × OptionalValue T :=
  let (ch, is) := is.peek
  if ch = some nullMarker then (is.get, { ov.clear with present := false })
  else
    let (ch, is) := is.peek
    let is := if ch = some presentMarker then is.get else is
    let (is, value) := Extracted.extract maxSize is ov.value
    if is.failbit then (is, { ov with value := value }) else (is, of value)

end OptionalValue

section List

variable {T : Type} {separator : UInt8}

/-- `operator <<` of a list, with its elements separated by commas. -/
def writeList [LogField T] (values : List T) : Bytes :=
  if values.isEmpty then [nullMarker] else [comma].intercalate (values.map LogField.write)

/-- The loop over the elements of a token, which ends with the first one that is not good. -/
def elementRounds [ListElement T] : Rounds (FixedBufStream comma × List T)
    (FixedBufStream comma × List T) where
  round s :=
    let (is, elem) := LogField.read s.1 (ListElement.initial : T)
    if is.good then .inl (is, s.2 ++ [elem]) else .inr (is, s.2)
  measure s := s.1.left
  lowers s next round := by
    dsimp only at round
    split_ifs at round with good
    cases round
    exact ListElement.reads s.1 ListElement.initial good

def readList [ListElement T] (is : FixedBufStream separator) (values : List T) :
    FixedBufStream separator × List T :=
  let (token, is) := is.readToken
  if is.good then
    if token = [nullMarker] then (is, [])
    else
      let (listStream, container) := elementRounds.run (⟨token, none, false, false, false⟩, [])
      let is := { is with
        badbit := is.badbit || listStream.badbit
        failbit := is.failbit || listStream.failbit }
      if is.good then (is, container) else (is, values)
  else (is, values)

end List

section Reads

variable {convertor : Convertor} {separator : UInt8}

theorem FixedBufStream.readToken_left (is : FixedBufStream separator) :
    is.readToken.2.left + is.readToken.1.length ≤ is.left := by
  unfold readToken left
  cases pushed : is.lastToken with
  | some token => simp
  | none =>
    have whole : (is.rest.takeWhile (· != separator)).length +
        (is.rest.dropWhile (· != separator)).length = is.rest.length := by
      rw [← List.length_append, List.takeWhile_append_dropWhile]
    simp only [Option.getD_none, List.length_nil, List.length_tail]
    omega

theorem StringIo.reads (is : FixedBufStream separator) (value : StringIo convertor)
    (good : (StringIo.read is value).1.good = true) : (StringIo.read is value).1.left < is.left := by
  have fewer := is.readToken_left
  have same : (StringIo.read is value).1 = is.readToken.2 ∧ is.readToken.1 ≠ [] := by
    unfold StringIo.read at good ⊢
    dsimp only at good ⊢
    split_ifs at good ⊢ with token_good empty
    · simp [FixedBufStream.good] at good
    · have some_byte : is.readToken.1 ≠ [] := by simpa using empty
      refine ⟨?_, some_byte⟩
      split at good
      · rfl
      · split_ifs at good ⊢
        · simp [FixedBufStream.good] at good
        · split at good
          · simp [FixedBufStream.good] at good
          · rfl
    · exact absurd good token_good
  rw [same.1]
  have := List.length_pos_iff.2 same.2
  omega

end Reads

instance {convertor : Convertor} : LogField (StringIo convertor) :=
  ⟨StringIo.write, StringIo.read⟩

instance {convertor : Convertor} : Extracted (StringIo convertor) := ⟨StringIo.extract⟩

instance {convertor : Convertor} : ListElement (StringIo convertor) where
  initial := ⟨[]⟩
  reads := StringIo.reads

instance {Object : Type} [Clearable Object] [LogField Object] : LogField (EmptyHolder Object) :=
  ⟨EmptyHolder.write, EmptyHolder.read⟩

instance {Object : Type} [Clearable Object] [Extracted Object] : Extracted (EmptyHolder Object) :=
  ⟨EmptyHolder.extract⟩

instance {T : Type} [Clearable T] [LogField T] : LogField (OptionalValue T) :=
  ⟨OptionalValue.write, OptionalValue.read⟩

instance {T : Type} [Clearable T] [Extracted T] : Extracted (OptionalValue T) :=
  ⟨OptionalValue.extract⟩

instance {T : Type} [ListElement T] : LogField (List T) := ⟨writeList, readList⟩

instance {T : Type} : Clearable (List T) := ⟨List.isEmpty, fun _ => []⟩

end AdServer.LogProcessing
