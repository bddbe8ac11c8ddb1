import AdServer.Lib.FixedWidth
import Mathlib.Data.Nat.Digits.Lemmas

/-!
# External ids in few bytes

An external id is kept as the bytes of the first format that it fits, behind its
hash and the format's number.
-/

namespace AdServer.UserBind.ExternalIds

open AdServer.Lib

abbrev Bytes := List UInt8

/-! ## Characters -/

def isDec (b : UInt8) : Bool := 48 ≤ b && b ≤ 57

/-- `HEX_LOWALPHA_NUMBER`. -/
def isHexLow (b : UInt8) : Bool := isDec b || 97 ≤ b && b ≤ 102

/-- `HEX_UPALPHA_NUMBER`. -/
def isHexUp (b : UInt8) : Bool := isDec b || 65 ≤ b && b ≤ 70

/-- `BASE64MOD_CHARS`. -/
def isBase64mod (b : UInt8) : Bool :=
  isDec b || 97 ≤ b && b ≤ 122 || 65 ≤ b && b ≤ 90 || b == 95 || b == 45

def minus : UInt8 := 45

def hexValue (b : UInt8) : Nat :=
  if isDec b then b.toNat - 48 else if 97 ≤ b then b.toNat - 87 else b.toNat - 55

/-- Two digits, of any case, are one byte. -/
def ReadsPairs (hexToBuf : Bytes → Bytes) : Prop :=
  ∀ {high low : UInt8} (rest : Bytes),
    (isHexLow high || isHexUp high) = true → (isHexLow low || isHexUp low) = true →
      hexToBuf (high :: low :: rest) =
        UInt8.ofNat (hexValue high * 16 + hexValue low) :: hexToBuf rest

/-- What the encoders use of the string library, base64 without padding. -/
structure StringManip where
  hexToBuf : Bytes → Bytes
  hexEncode : Bytes → Bytes
  base64modDecode : Bytes → Bytes
  base64modEncode : Bytes → Bytes
  strToInt : Bytes → Option Nat
  intToStr : Nat → Bytes
  hexToBuf_nil : hexToBuf [] = []
  hexToBuf_pair : ReadsPairs hexToBuf
  hexEncode_hexToBuf : ∀ text, text.length % 2 = 0 → text.all isHexUp = true →
    hexEncode (hexToBuf text) = text
  base64mod_inverse : ∀ text, text.length % 4 = 0 → text.all isBase64mod = true →
    (base64modDecode text).length = text.length * 3 / 4 ∧
      base64modEncode (base64modDecode text) = text
  int_inverse : ∀ text, text ≠ [] → text.length ≤ 9 → text.head? ≠ some 48 →
    text.all isDec = true → ∃ value < 2 ^ 32, strToInt text = some value ∧ intToStr value = text

/-- `0123456789abcdef`. -/
def hexLowDigits : Bytes := [48, 49, 50, 51, 52, 53, 54, 55, 56, 57, 97, 98, 99, 100, 101, 102]

/-- `0123456789ABCDEF`. -/
def hexUpDigits : Bytes := [48, 49, 50, 51, 52, 53, 54, 55, 56, 57, 65, 66, 67, 68, 69, 70]

/-- `hex_low_encode` and `hex_up_encode`; no caller skips leading zeroes. -/
def encodeDigits (digits : Bytes) (data : Bytes) : Bytes :=
  data.flatMap fun byte => [digits.getD (byte.toNat / 16) 0, digits.getD (byte.toNat % 16) 0]

def hexLowEncode : Bytes → Bytes := encodeDigits hexLowDigits

def hexUpEncode : Bytes → Bytes := encodeDigits hexUpDigits

/-! ## Encoders -/

/-- An encoding is nothing where an assertion fails. -/
structure Encoder where
  id : UInt8
  encodeSize : Bytes → Nat
  encode : Bytes → Option Bytes
  encodedSizeByBuf : Bytes → Nat
  decode : Bytes → Bytes

/-- The size is a sum of 32 bits. -/
def defaultEncoder (id : UInt8) : Encoder where
  id
  encodeSize text := text.length + 4
  encode text := some (numberBytes 4 text.length ++ text)
  encodedSizeByBuf buf := (readNumber (buf.take 4) + 4) % 2 ^ 32
  decode buf := (buf.drop 4).take (readNumber (buf.take 4))

def sizeLess256Encoder (id : UInt8) : Encoder where
  id
  encodeSize text := text.length + 1
  encode text := if text.length < 256 then some (numberBytes 1 text.length ++ text) else none
  encodedSizeByBuf buf := readNumber (buf.take 1) + 1
  decode buf := (buf.drop 1).take (readNumber (buf.take 1))

/-- `text.substr(start, count)`. -/
def substr (text : Bytes) (start count : Nat) : Bytes := (text.drop start).take count

variable (manip : StringManip)

/-- The digits of both cases are read by one function. -/
def dashedEncoder (hexEncode : Bytes → Bytes) (id : UInt8) : Encoder where
  id
  encodeSize _ := 16
  encode text :=
    if text.length = 36 then
      some (manip.hexToBuf (substr text 0 8) ++ (manip.hexToBuf (substr text 9 4) ++
        (manip.hexToBuf (substr text 14 4) ++ (manip.hexToBuf (substr text 19 4) ++
          manip.hexToBuf (substr text 24 12)))))
    else none
  encodedSizeByBuf _ := 16
  decode buf :=
    hexEncode (substr buf 0 4) ++ minus :: (hexEncode (substr buf 4 2) ++
      minus :: (hexEncode (substr buf 6 2) ++ minus :: (hexEncode (substr buf 8 2) ++
        minus :: hexEncode (substr buf 10 6))))

/-- `h8_h4_h4_h4_h12_Encoder`. -/
def h8h4h4h4h12Encoder : UInt8 → Encoder := dashedEncoder manip hexLowEncode

/-- `H8_H4_H4_H4_H12_Encoder`. -/
def H8H4H4H4H12Encoder : UInt8 → Encoder := dashedEncoder manip hexUpEncode

def digitsEncoder (hexEncode : Bytes → Bytes) (id : UInt8) (len : Nat) (start : Bytes) :
    Encoder where
  id
  encodeSize _ := (len + 1) / 2
  encode text :=
    if text.length = len + start.length then some (manip.hexToBuf (text.drop start.length))
    else none
  encodedSizeByBuf _ := (len + 1) / 2
  decode buf := start ++ hexEncode (buf.take ((len + 1) / 2))

/-- `hX_Encoder`. -/
def hXEncoder : UInt8 → Nat → Bytes → Encoder := digitsEncoder manip hexLowEncode

/-- `HX_Encoder`. -/
def HXEncoder : UInt8 → Nat → Bytes → Encoder := digitsEncoder manip manip.hexEncode

def caese : Bytes := [67, 65, 69, 83, 69]

/-- `CAESE_B22_Encoder`. -/
def caeseB22Encoder (id : UInt8) : Encoder where
  id
  encodeSize _ := 17
  encode text :=
    let d := manip.base64modDecode (substr text 5 20)
    if text.length = 27 ∧ d.length = 15 then some (d ++ [text.getD 25 0, text.getD 26 0]) else none
  encodedSizeByBuf _ := 17
  decode buf :=
    caese ++ (manip.base64modEncode (buf.take 15) ++ [buf.getD 15 0, buf.getD 16 0])

/-- `BMX_Encoder`. -/
def bmxEncoder (id : UInt8) (len : Nat) : Encoder where
  id
  encodeSize _ := len * 3 / 4
  encode text :=
    let d := manip.base64modDecode text
    if text.length = len ∧ d.length = len * 3 / 4 then some d else none
  encodedSizeByBuf _ := len * 3 / 4
  decode buf := manip.base64modEncode (buf.take (len * 3 / 4))

def uintEncoder (id : UInt8) : Encoder where
  id
  encodeSize _ := 4
  encode text := (manip.strToInt text).map (numberBytes 4)
  encodedSizeByBuf _ := 4
  decode buf := manip.intToStr (readNumber (buf.take 4))

def aid : Bytes := [97, 105, 100]

/-- `encoders_`. -/
def encoders : List Encoder :=
  [defaultEncoder 1, sizeLess256Encoder 2, h8h4h4h4h12Encoder manip 3, hXEncoder manip 4 64 [],
    caeseB22Encoder manip 5, hXEncoder manip 6 40 [], bmxEncoder manip 7 8, bmxEncoder manip 8 12,
    hXEncoder manip 9 32 [], hXEncoder manip 10 32 aid, HXEncoder manip 11 32 [],
    H8H4H4H4H12Encoder manip 12, hXEncoder manip 13 24 [], bmxEncoder manip 14 20,
    uintEncoder manip 15, hXEncoder manip 16 96 []]

/-- `get_encoder`. -/
def getEncoder (index : UInt8) : Option Encoder := (encoders manip).find? (·.id == index)

/-- Groups of 8, 4, 4, 4 and 12 digits. -/
def dashed (isDigit : UInt8 → Bool) (text : Bytes) : Bool :=
  text.length == 36 && text.getD 8 0 == minus && text.getD 13 0 == minus &&
    text.getD 18 0 == minus && text.getD 23 0 == minus && (substr text 0 8).all isDigit &&
    (substr text 9 4).all isDigit && (substr text 14 4).all isDigit &&
    (substr text 19 4).all isDigit && (substr text 24 12).all isDigit

/-- `select_encoder`. -/
def selectEncoder (text : Bytes) : Encoder :=
  if text ≠ [] ∧ text.length ≤ 9 ∧ text.head? ≠ some 48 ∧ text.all isDec then uintEncoder manip 15
  else if dashed isHexLow text then h8h4h4h4h12Encoder manip 3
  else if text.length = 24 ∧ text.all isHexLow then hXEncoder manip 13 24 []
  else if text.length = 32 ∧ text.all isHexLow then hXEncoder manip 9 32 []
  else if text.length = 40 ∧ text.all isHexLow then hXEncoder manip 6 40 []
  else if text.length = 64 ∧ text.all isHexLow then hXEncoder manip 4 64 []
  else if text.length = 32 ∧ text.all isHexUp then HXEncoder manip 11 32 []
  else if text.length = 96 ∧ text.all isHexLow then hXEncoder manip 16 96 []
  else if text.length = 35 ∧ text.take 3 = aid ∧ (text.drop 3).all isHexLow then
    hXEncoder manip 10 32 aid
  else if dashed isHexUp text then H8H4H4H4H12Encoder manip 12
  else if text.length = 27 ∧ text.take 5 = caese ∧ (text.drop 5).all isBase64mod then
    caeseB22Encoder manip 5
  else if text.length = 8 ∧ text.all isBase64mod then bmxEncoder manip 7 8
  else if text.length = 12 ∧ text.all isBase64mod then bmxEncoder manip 8 12
  else if text.length < 256 then sizeLess256Encoder 2
  else defaultEncoder 1

/-! ## Adapters -/

/-- `ExternalIdHashAdapter`: the hash, the encoder's number and the encoded text. -/
def adapter (text : Bytes) (hash : UInt32) : Option Bytes :=
  ((selectEncoder manip text).encode text).map fun buf =>
    numberBytes 4 hash.toNat ++ (selectEncoder manip text).id :: buf

/-- `ExternalIdHashAdapter::text`. -/
def adapterText (data : Bytes) : Option Bytes :=
  (getEncoder manip (data.getD 4 0)).map fun encoder => encoder.decode (data.drop 5)

/-- `ExternalIdHashAdapter::operator==`. -/
def adapterEq (left right : Bytes) : Option Bool :=
  if left.take 5 ≠ right.take 5 then some false
  else (getEncoder manip (left.getD 4 0)).map fun encoder =>
    let leftSize := encoder.encodedSizeByBuf (left.drop 5)
    let rightSize := encoder.encodedSizeByBuf (right.drop 5)
    leftSize == rightSize && (left.drop 5).take leftSize == (right.drop 5).take leftSize

/-! ## Hex digits -/

/-- Texts of these digits are read back from their bytes. -/
def Inverse (hexToBuf : Bytes → Bytes) (isDigit : UInt8 → Bool) (hexEncode : Bytes → Bytes) :
    Prop :=
  ∀ text, text.length % 2 = 0 → text.all isDigit = true →
    (hexToBuf text).length = text.length / 2 ∧ hexEncode (hexToBuf text) = text

variable {hexToBuf hexEncode : Bytes → Bytes} {isDigit : UInt8 → Bool} {start count len : Nat}
  {id : UInt8} {encoder : Encoder} {buf text' buf' : Bytes}

theorem inverse_of_digits (empty : hexToBuf [] = []) (pair : ReadsPairs hexToBuf) {digits : Bytes}
    (reads : ∀ b, isDigit b = true →
      digits.getD (hexValue b) 0 = b ∧ hexValue b < 16 ∧ (isHexLow b || isHexUp b) = true) :
    Inverse hexToBuf isDigit (encodeDigits digits)
  | [], _, _ => by simp [empty, encodeDigits]
  | [_], odd, _ => by simp at odd
  | high :: low :: rest, even, hex => by
    simp only [List.all_cons, Bool.and_eq_true] at hex
    obtain ⟨highRead, highValue, highHex⟩ := reads high hex.1
    obtain ⟨lowRead, lowValue, lowHex⟩ := reads low hex.2.1
    have rest_even : rest.length % 2 = 0 := by
      simp only [List.length_cons] at even
      omega
    obtain ⟨size, back⟩ := inverse_of_digits empty pair reads rest rest_even hex.2.2
    have byte : (UInt8.ofNat (hexValue high * 16 + hexValue low)).toNat =
        hexValue high * 16 + hexValue low := by
      rw [UInt8.toNat_ofNat']
      omega
    have quotient : (hexValue high * 16 + hexValue low) / 16 = hexValue high := by omega
    have remainder : (hexValue high * 16 + hexValue low) % 16 = hexValue low := by omega
    rw [pair rest highHex lowHex]
    constructor
    · simp only [List.length_cons, size]
      omega
    · rw [encodeDigits, List.flatMap_cons, byte, quotient, remainder, highRead, lowRead]
      exact congrArg (high :: low :: ·) back

theorem forall_byte {p : UInt8 → Prop} (all : ∀ n < 256, p (UInt8.ofNat n)) (b : UInt8) : p b := by
  simpa using all b.toNat b.toNat_lt

set_option maxRecDepth 2000 in
theorem inverse_up (empty : hexToBuf [] = []) (pair : ReadsPairs hexToBuf) :
    Inverse hexToBuf isHexUp hexUpEncode :=
  inverse_of_digits empty pair (forall_byte (by decide))

variable {manip}

set_option maxRecDepth 2000 in
theorem inverse_low : Inverse manip.hexToBuf isHexLow hexLowEncode :=
  inverse_of_digits manip.hexToBuf_nil manip.hexToBuf_pair (forall_byte (by decide))

theorem inverse_hexUp : Inverse manip.hexToBuf isHexUp hexUpEncode :=
  inverse_up manip.hexToBuf_nil manip.hexToBuf_pair

theorem inverse_hexEncode : Inverse manip.hexToBuf isHexUp manip.hexEncode :=
  fun text even hex => ⟨(inverse_hexUp text even hex).1, manip.hexEncode_hexToBuf text even hex⟩

/-! ## Encoders -/

variable (manip)

/-- The encoder writes as many bytes as it says and reads the text back from them; its
sizes are right up to 32 bits. -/
structure Restored (encoder : Encoder) (text buf : Bytes) : Prop where
  encoded : encoder.encode text = some buf
  written : buf.length = encoder.encodeSize text
  decoded : encoder.decode buf = text
  sized : encoder.encodedSizeByBuf buf = buf.length % 2 ^ 32
  known : getEncoder manip encoder.id = some encoder
  short : text.length + 4 < 2 ^ 32 ∧ buf.length < 2 ^ 32 ∨ encoder = defaultEncoder 1

variable {manip} {text : Bytes}

theorem substr_length (inside : start + count ≤ text.length) :
    (substr text start count).length = count := by
  rw [substr, List.length_take, List.length_drop]
  omega

theorem drop_group (inside : start + count < text.length)
    (dash : text.getD (start + count) 0 = minus) :
    text.drop start = substr text start count ++ minus :: text.drop (start + count + 1) := by
  rw [← List.take_append_drop count (text.drop start), List.drop_drop, substr,
    List.drop_eq_getElem_cons inside, ← dash]
  simp [inside]

theorem decode_groups {a b c d e : Bytes} (sizeA : a.length = 4) (sizeB : b.length = 2)
    (sizeC : c.length = 2) (sizeD : d.length = 2) (sizeE : e.length = 6) :
    (dashedEncoder manip hexEncode id).decode (a ++ (b ++ (c ++ (d ++ e)))) =
      hexEncode a ++ minus :: (hexEncode b ++ minus :: (hexEncode c ++ minus :: (hexEncode d ++
        minus :: hexEncode e))) := by
  simp [dashedEncoder, substr, List.drop_append, sizeA, sizeB, sizeC, sizeD, sizeE,
    List.take_of_length_le, List.drop_of_length_le]

theorem dashed_restored (inverse : Inverse manip.hexToBuf isDigit hexEncode)
    (known : getEncoder manip id = some (dashedEncoder manip hexEncode id))
    (fits : dashed isDigit text = true) :
    ∃ buf, Restored manip (dashedEncoder manip hexEncode id) text buf := by
  simp only [dashed, Bool.and_eq_true, beq_iff_eq] at fits
  obtain ⟨⟨⟨⟨⟨⟨⟨⟨⟨size, dash8⟩, dash13⟩, dash18⟩, dash23⟩, hex0⟩, hex9⟩, hex14⟩, hex19⟩, hex24⟩ :=
    fits
  have parts : substr text 0 8 ++ minus :: (substr text 9 4 ++ minus :: (substr text 14 4 ++
      minus :: (substr text 19 4 ++ minus :: substr text 24 12))) = text := by
    have last : substr text 24 12 = text.drop 24 := List.take_of_length_le (by simp [size])
    rw [last, ← drop_group (by omega) dash23, ← drop_group (by omega) dash18,
      ← drop_group (by omega) dash13, ← drop_group (by omega) dash8, List.drop_zero]
  have group {start count : Nat} (inside : start + count ≤ 36) (even : count % 2 = 0)
      (hex : (substr text start count).all isDigit = true) :
      (manip.hexToBuf (substr text start count)).length = count / 2 ∧
        hexEncode (manip.hexToBuf (substr text start count)) = substr text start count := by
    have length : (substr text start count).length = count := substr_length (by omega)
    have back := inverse (substr text start count) (by omega) hex
    rwa [length] at back
  obtain ⟨size0, back0⟩ := group (by decide) (by decide) hex0
  obtain ⟨size9, back9⟩ := group (by decide) (by decide) hex9
  obtain ⟨size14, back14⟩ := group (by decide) (by decide) hex14
  obtain ⟨size19, back19⟩ := group (by decide) (by decide) hex19
  obtain ⟨size24, back24⟩ := group (by decide) (by decide) hex24
  refine ⟨_, ⟨if_pos size, ?_, ?_, ?_, known, ?_⟩⟩
  · simp [dashedEncoder, size0, size9, size14, size19, size24]
  · rw [decode_groups size0 size9 size14 size19 size24, back0, back9, back14, back19, back24,
      parts]
  · simp [dashedEncoder, size0, size9, size14, size19, size24]
  · simp [size, size0, size9, size14, size19, size24]

theorem digits_restored (inverse : Inverse manip.hexToBuf isDigit hexEncode) {start : Bytes}
    (known : getEncoder manip id = some (digitsEncoder manip hexEncode id len start))
    (even : len % 2 = 0) (low : len + start.length < 2 ^ 31)
    (size : text.length = len + start.length) (starts : text.take start.length = start)
    (hex : (text.drop start.length).all isDigit = true) :
    ∃ buf, Restored manip (digitsEncoder manip hexEncode id len start) text buf := by
  have digits : (text.drop start.length).length = len := by simp [size]
  obtain ⟨length, back⟩ := inverse (text.drop start.length) (by omega) hex
  rw [digits] at length
  have half : (len + 1) / 2 = len / 2 := by omega
  refine ⟨_, ⟨if_pos size, ?_, ?_, ?_, known, .inl ⟨by omega, by omega⟩⟩⟩
  · simp only [digitsEncoder, length, half]
  · simp only [digitsEncoder, half]
    rw [← length, List.take_length, back]
    exact (congrArg (· ++ _) starts.symm).trans (List.take_append_drop _ _)
  · simp only [digitsEncoder, length, half]
    omega

theorem bmx_restored (known : getEncoder manip id = some (bmxEncoder manip id len))
    (whole : len % 4 = 0) (low : len < 2 ^ 31) (size : text.length = len)
    (base64 : text.all isBase64mod = true) :
    ∃ buf, Restored manip (bmxEncoder manip id len) text buf := by
  subst size
  obtain ⟨length, back⟩ := manip.base64mod_inverse text whole base64
  refine ⟨_, ⟨if_pos ⟨rfl, length⟩, length, ?_, ?_, known, .inl ⟨by omega, by omega⟩⟩⟩
  · simp only [bmxEncoder, ← length, List.take_length, back]
  · simp only [bmxEncoder, length]
    omega

theorem uint_restored (known : getEncoder manip id = some (uintEncoder manip id))
    (some_digits : text ≠ []) (low : text.length ≤ 9) (first : text.head? ≠ some 48)
    (dec : text.all isDec = true) : ∃ buf, Restored manip (uintEncoder manip id) text buf := by
  obtain ⟨value, fits, read, back⟩ := manip.int_inverse text some_digits low first dec
  refine ⟨numberBytes 4 value, ⟨by simp [uintEncoder, read], ?_, ?_, ?_, known, .inl ⟨?_, ?_⟩⟩⟩
  · simp [uintEncoder]
  · have whole : (numberBytes 4 value).take 4 = numberBytes 4 value :=
      List.take_of_length_le (by simp)
    simp only [uintEncoder, whole, readNumber_numberBytes 4 fits, back]
  · simp [uintEncoder]
  · omega
  · simp

theorem caese_restored (known : getEncoder manip id = some (caeseB22Encoder manip id))
    (size : text.length = 27) (starts : text.take 5 = caese)
    (base64 : (text.drop 5).all isBase64mod = true) :
    ∃ buf, Restored manip (caeseB22Encoder manip id) text buf := by
  have length : (substr text 5 20).length = 20 := substr_length (by omega)
  have plain : (substr text 5 20).all isBase64mod = true := by
    rw [List.all_eq_true] at base64 ⊢
    exact fun b mem => base64 b (List.mem_of_mem_take mem)
  obtain ⟨packed, back⟩ := manip.base64mod_inverse _ (by omega) plain
  rw [length] at packed
  refine ⟨_, ⟨if_pos ⟨size, packed⟩, ?_, ?_, ?_, known, .inl ⟨by omega, ?_⟩⟩⟩
  · simp [caeseB22Encoder, packed]
  · have last : text.drop 25 = [text.getD 25 0, text.getD 26 0] := by
      rw [List.drop_eq_getElem_cons (by omega), List.drop_eq_getElem_cons (by omega),
        List.drop_of_length_le (by omega)]
      simp [size]
    have decoded : (caeseB22Encoder manip id).decode
        (manip.base64modDecode (substr text 5 20) ++ [text.getD 25 0, text.getD 26 0]) =
          caese ++ (substr text 5 20 ++ [text.getD 25 0, text.getD 26 0]) := by
      simp [caeseB22Encoder, List.take_left' packed, packed, back]
    rw [decoded, ← last, ← starts, substr, ← List.drop_drop (i := 20) (j := 5),
      List.take_append_drop, List.take_append_drop]
  · simp [caeseB22Encoder, packed]
  · simp [packed]

theorem sizeLess256_restored (low : text.length < 256) :
    ∃ buf, Restored manip (sizeLess256Encoder 2) text buf := by
  have count : readNumber (numberBytes 1 text.length) = text.length :=
    readNumber_numberBytes 1 (by omega)
  have header : (numberBytes 1 text.length ++ text).take 1 = numberBytes 1 text.length :=
    List.take_left' (numberBytes_length _ _)
  refine ⟨_, ⟨if_pos low, ?_, ?_, ?_, rfl, .inl ⟨by omega, ?_⟩⟩⟩
  · simp [sizeLess256Encoder, Nat.add_comm]
  · simp only [sizeLess256Encoder, header, count, List.drop_left' (numberBytes_length _ _),
      List.take_length]
  · simp only [sizeLess256Encoder, header, count, List.length_append, numberBytes_length]
    omega
  · simp
    omega

theorem default_restored (low : text.length < 2 ^ 32) :
    Restored manip (defaultEncoder 1) text (numberBytes 4 text.length ++ text) := by
  have count : readNumber (numberBytes 4 text.length) = text.length :=
    readNumber_numberBytes 4 low
  have header : (numberBytes 4 text.length ++ text).take 4 = numberBytes 4 text.length :=
    List.take_left' (numberBytes_length _ _)
  refine ⟨rfl, ?_, ?_, ?_, rfl, .inr rfl⟩
  · simp [defaultEncoder, Nat.add_comm]
  · simp only [defaultEncoder, header, count, List.drop_left' (numberBytes_length _ _),
      List.take_length]
  · simp only [defaultEncoder, header, count, List.length_append, numberBytes_length,
      Nat.add_comm]

theorem restored_ite {c : Prop} [Decidable c] {encoder other : Encoder}
    (taken : c → ∃ buf, Restored manip encoder text buf)
    (left : ∃ buf, Restored manip other text buf) :
    ∃ buf, Restored manip (if c then encoder else other) text buf := by
  split
  · exact taken ‹_›
  · exact left

/-- Each test lets through what its encoder restores. -/
theorem selectEncoder_restored (manip : StringManip) (low : text.length < 2 ^ 32) :
    ∃ buf, Restored manip (selectEncoder manip text) text buf := by
  apply restored_ite fun uint => uint_restored rfl uint.1 uint.2.1 uint.2.2.1 uint.2.2.2
  apply restored_ite fun dashes => dashed_restored inverse_low rfl dashes
  apply restored_ite fun hex => digits_restored inverse_low rfl rfl (by decide) hex.1 rfl hex.2
  apply restored_ite fun hex => digits_restored inverse_low rfl rfl (by decide) hex.1 rfl hex.2
  apply restored_ite fun hex => digits_restored inverse_low rfl rfl (by decide) hex.1 rfl hex.2
  apply restored_ite fun hex => digits_restored inverse_low rfl rfl (by decide) hex.1 rfl hex.2
  apply restored_ite fun hex =>
    digits_restored inverse_hexEncode rfl rfl (by decide) hex.1 rfl hex.2
  apply restored_ite fun hex => digits_restored inverse_low rfl rfl (by decide) hex.1 rfl hex.2
  apply restored_ite fun device =>
    digits_restored inverse_low rfl rfl (by decide) device.1 device.2.1 device.2.2
  apply restored_ite fun dashes => dashed_restored inverse_hexUp rfl dashes
  apply restored_ite fun google => caese_restored rfl google.1 google.2.1 google.2.2
  apply restored_ite fun base64 => bmx_restored rfl rfl (by decide) base64.1 base64.2
  apply restored_ite fun base64 => bmx_restored rfl rfl (by decide) base64.1 base64.2
  apply restored_ite sizeLess256_restored
  exact ⟨_, default_restored low⟩

/-! ## Adapters -/

theorem adapter_head (hash : UInt32) (id : UInt8) (buf : Bytes) :
    (numberBytes 4 hash.toNat ++ id :: buf).take 5 = numberBytes 4 hash.toNat ++ [id] ∧
      (numberBytes 4 hash.toNat ++ id :: buf).getD 4 0 = id ∧
      (numberBytes 4 hash.toNat ++ id :: buf).drop 5 = buf :=
  ⟨rfl, rfl, rfl⟩

theorem numberBytes_hash {hash hash' : UInt32}
    (same : numberBytes 4 hash.toNat = numberBytes 4 hash'.toNat) : hash = hash' := by
  have numbers := congrArg readNumber same
  rw [readNumber_numberBytes 4 hash.toNat_lt, readNumber_numberBytes 4 hash'.toNat_lt] at numbers
  exact UInt32.toNat_inj.1 numbers

theorem adapter_eq (restored : Restored manip (selectEncoder manip text) text buf) (hash : UInt32) :
    adapter manip text hash =
      some (numberBytes 4 hash.toNat ++ (selectEncoder manip text).id :: buf) := by
  rw [adapter, restored.encoded]
  rfl

theorem adapterText_eq (restored : Restored manip (selectEncoder manip text) text buf)
    (hash : UInt32) :
    adapterText manip (numberBytes 4 hash.toNat ++ (selectEncoder manip text).id :: buf) =
      some text := by
  obtain ⟨-, number, rest⟩ := adapter_head hash (selectEncoder manip text).id buf
  rw [adapterText, number, rest, restored.known, Option.map_some, restored.decoded]

theorem Restored.length_default (restored : Restored manip (defaultEncoder 1) text buf) :
    buf.length = text.length + 4 :=
  restored.written

theorem Restored.fits_iff (restored : Restored manip encoder text buf) :
    buf.length < 2 ^ 32 ↔ text.length + 4 < 2 ^ 32 := by
  obtain ⟨small, fits⟩ | rfl := restored.short
  · exact iff_of_true fits small
  · rw [restored.length_default]

/-- The sizes and the bytes of one encoder tell its texts apart, as far as one of the
sizes fits. -/
theorem buf_eq (restored : Restored manip encoder text buf)
    (restored' : Restored manip encoder text' buf') (fits : buf.length < 2 ^ 32)
    (low' : text'.length < 2 ^ 32)
    (sizes : encoder.encodedSizeByBuf buf = encoder.encodedSizeByBuf buf')
    (bytes : buf.take (encoder.encodedSizeByBuf buf) = buf'.take (encoder.encodedSizeByBuf buf)) :
    text = text' := by
  have lengths : buf.length = buf'.length := by
    rw [restored.sized, restored'.sized] at sizes
    obtain ⟨-, fits'⟩ | rfl := restored'.short
    · omega
    · have length := restored.length_default
      have length' := restored'.length_default
      omega
  rw [restored.sized, Nat.mod_eq_of_lt fits, List.take_length, lengths, List.take_length] at bytes
  rw [← restored.decoded, bytes, restored'.decoded]

/-- What is asked of an id: its text is given back, its sizes are the same, and it is
equal to an id of the same text and hash only. -/
structure Compact (manip : StringManip) (text : Bytes) (hash : UInt32) (data : Bytes) : Prop where
  built : adapter manip text hash = some data
  text_eq : adapterText manip data = some text
  written : (data.drop 5).length = (selectEncoder manip text).encodeSize text
  sized : (selectEncoder manip text).encodedSizeByBuf (data.drop 5) =
    (selectEncoder manip text).encodeSize text
  equal : ∀ text' hash' data', text'.length < 2 ^ 32 → adapter manip text' hash' = some data' →
    adapterEq manip data data' = some (decide (text = text' ∧ hash = hash'))

theorem adapterEq_eq (low : text.length + 4 < 2 ^ 32) (low' : text'.length < 2 ^ 32)
    (restored : Restored manip (selectEncoder manip text) text buf)
    (restored' : Restored manip (selectEncoder manip text') text' buf') (hash hash' : UInt32) :
    adapterEq manip (numberBytes 4 hash.toNat ++ (selectEncoder manip text).id :: buf)
        (numberBytes 4 hash'.toNat ++ (selectEncoder manip text').id :: buf') =
      some (decide (text = text' ∧ hash = hash')) := by
  obtain ⟨start, number, rest⟩ := adapter_head hash (selectEncoder manip text).id buf
  obtain ⟨start', -, rest'⟩ := adapter_head hash' (selectEncoder manip text').id buf'
  rw [adapterEq, start, start', number, rest, rest', restored.known, Option.map_some]
  split
  · rename_i differ
    symm
    rw [Option.some.injEq, decide_eq_false_iff_not]
    rintro ⟨rfl, rfl⟩
    exact differ rfl
  · rename_i same
    obtain ⟨hashes, ids⟩ := List.append_inj (not_not.1 same) (by simp)
    obtain rfl := numberBytes_hash hashes
    have encoders_eq : selectEncoder manip text = selectEncoder manip text' := by
      have known' := restored'.known
      rw [← List.head_eq_of_cons_eq ids, restored.known] at known'
      exact Option.some.inj known'
    rw [← encoders_eq] at restored'
    rw [Option.some.injEq, Bool.eq_iff_iff, Bool.and_eq_true, beq_iff_eq, beq_iff_eq,
      decide_eq_true_iff]
    constructor
    · intro ⟨sizes, bytes⟩
      exact ⟨buf_eq restored restored' (restored.fits_iff.2 low) low' sizes bytes, rfl⟩
    · rintro ⟨rfl, -⟩
      obtain rfl := Option.some.inj (restored.encoded.symm.trans restored'.encoded)
      exact ⟨rfl, rfl⟩

/-- Ids keep their sizes and are told apart where four bytes more have a size of 32 bits. -/
theorem compact_iff (manip : StringManip) {text : Bytes} (low : text.length < 2 ^ 32)
    (hash : UInt32) : (∃ data, Compact manip text hash data) ↔ text.length + 4 < 2 ^ 32 := by
  obtain ⟨buf, restored⟩ := selectEncoder_restored manip low
  obtain ⟨-, -, rest⟩ := adapter_head hash (selectEncoder manip text).id buf
  have sized_iff : (selectEncoder manip text).encodedSizeByBuf buf =
      (selectEncoder manip text).encodeSize text ↔ buf.length < 2 ^ 32 := by
    rw [restored.sized, ← restored.written]
    omega
  rw [← restored.fits_iff, ← sized_iff]
  constructor
  · rintro ⟨data, compact⟩
    obtain rfl := Option.some.inj ((adapter_eq restored hash).symm.trans compact.built)
    exact compact.sized
  · intro sized
    refine ⟨_, adapter_eq restored hash, adapterText_eq restored hash, restored.written, sized, ?_⟩
    intro text' hash' data' low' built
    obtain ⟨buf', restored'⟩ := selectEncoder_restored manip low'
    obtain rfl := Option.some.inj ((adapter_eq restored' hash').symm.trans built)
    exact adapterEq_eq (restored.fits_iff.1 (sized_iff.1 sized)) low' restored restored' hash hash'

/-! ## Long ids -/

theorem selectEncoder_long (manip : StringManip) (low : text.length < 2 ^ 32)
    (long : 2 ^ 32 ≤ text.length + 4) : selectEncoder manip text = defaultEncoder 1 := by
  obtain ⟨buf, restored⟩ := selectEncoder_restored manip low
  obtain ⟨small, -⟩ | default := restored.short
  · omega
  · exact default

theorem long_equal (manip : StringManip) (low : text.length < 2 ^ 32)
    (long : 2 ^ 32 ≤ text.length + 4) (same : text'.length = text.length) (hash : UInt32) :
    ∃ data data', adapter manip text hash = some data ∧ adapter manip text' hash = some data' ∧
      adapterEq manip data data' = some true := by
  have default := selectEncoder_long manip low long
  have default' := selectEncoder_long manip (same ▸ low) (same ▸ long)
  have restored := @default_restored manip text low
  have restored' := @default_restored manip text' (same ▸ low)
  rw [← default] at restored
  rw [← default'] at restored'
  refine ⟨_, _, adapter_eq restored hash, adapter_eq restored' hash, ?_⟩
  have few : (text.length + 4) % 2 ^ 32 ≤ 4 := by omega
  have bytes (tail : Bytes) :
      (numberBytes 4 text.length ++ tail).take ((text.length + 4) % 2 ^ 32) =
        (numberBytes 4 text.length).take ((text.length + 4) % 2 ^ 32) :=
    List.take_append_of_le_length (by simpa using few)
  obtain ⟨start, number, rest⟩ := adapter_head hash (defaultEncoder 1).id
    (numberBytes 4 text.length ++ text)
  obtain ⟨start', -, rest'⟩ := adapter_head hash (defaultEncoder 1).id
    (numberBytes 4 text.length ++ text')
  have sized := restored.sized
  have sized' := restored'.sized
  rw [default, List.length_append, numberBytes_length, Nat.add_comm] at sized
  rw [default', List.length_append, numberBytes_length, Nat.add_comm, same] at sized'
  rw [adapterEq, default, default', same, start, start', number, rest, rest',
    if_neg (not_not.2 rfl), ← default, restored.known, default, Option.map_some, sized, sized']
  simp only [bytes, beq_self_eq_true, Bool.and_self]

def hexPairs : Bytes → Bytes
  | high :: low :: rest => UInt8.ofNat (hexValue high * 16 + hexValue low) :: hexPairs rest
  | _ => []

def sixBits (b : UInt8) : Nat :=
  if isDec b then b.toNat + 4
  else if b == 45 then 62
  else if b == 95 then 63
  else if 97 ≤ b then b.toNat - 71
  else b.toNat - 65

def base64Char (n : Nat) : UInt8 :=
  UInt8.ofNat (if n < 26 then n + 65 else if n < 52 then n + 71 else if n < 62 then n - 4
    else if n = 62 then 45 else 95)

def base64Bytes : Bytes → Bytes
  | a :: b :: c :: d :: rest =>
    UInt8.ofNat (sixBits a * 4 + sixBits b / 16) ::
      UInt8.ofNat (sixBits b % 16 * 16 + sixBits c / 4) ::
        UInt8.ofNat (sixBits c % 4 * 64 + sixBits d) :: base64Bytes rest
  | _ => []

def base64Text : Bytes → Bytes
  | x :: y :: z :: rest =>
    base64Char (x.toNat / 4) :: base64Char (x.toNat % 4 * 16 + y.toNat / 16) ::
      base64Char (y.toNat % 16 * 4 + z.toNat / 64) :: base64Char (z.toNat % 64) :: base64Text rest
  | _ => []

set_option maxRecDepth 2000 in
theorem base64Char_sixBits :
    ∀ b, isBase64mod b = true → sixBits b < 64 ∧ base64Char (sixBits b) = b :=
  forall_byte (by decide)

theorem base64_inverse : ∀ text : Bytes, text.length % 4 = 0 → text.all isBase64mod = true →
    (base64Bytes text).length = text.length * 3 / 4 ∧ base64Text (base64Bytes text) = text
  | [], _, _ => ⟨rfl, rfl⟩
  | [_], odd, _ | [_, _], odd, _ | [_, _, _], odd, _ => by simp at odd
  | a :: b :: c :: d :: rest, whole, base64 => by
    simp only [List.all_cons, Bool.and_eq_true] at base64
    obtain ⟨lowA, backA⟩ := base64Char_sixBits a base64.1
    obtain ⟨lowB, backB⟩ := base64Char_sixBits b base64.2.1
    obtain ⟨lowC, backC⟩ := base64Char_sixBits c base64.2.2.1
    obtain ⟨lowD, backD⟩ := base64Char_sixBits d base64.2.2.2.1
    simp only [List.length_cons] at whole ⊢
    obtain ⟨size, back⟩ := base64_inverse rest (by omega) base64.2.2.2.2
    constructor
    · simp only [base64Bytes, List.length_cons, size]
      omega
    · have first : (sixBits a * 4 + sixBits b / 16) % 256 / 4 = sixBits a := by omega
      have second : (sixBits a * 4 + sixBits b / 16) % 256 % 4 * 16 +
          (sixBits b % 16 * 16 + sixBits c / 4) % 256 / 16 = sixBits b := by omega
      have third : (sixBits b % 16 * 16 + sixBits c / 4) % 256 % 16 * 4 +
          (sixBits c % 4 * 64 + sixBits d) % 256 / 64 = sixBits c := by omega
      have fourth : (sixBits c % 4 * 64 + sixBits d) % 256 % 64 = sixBits d := by omega
      simp only [base64Bytes, base64Text, UInt8.toNat_ofNat', Nat.reducePow, first, second, third,
        fourth, backA, backB, backC, backD, back]

theorem decimal_inverse (text : Bytes) (some_digits : text ≠ []) (low : text.length ≤ 9)
    (first : text.head? ≠ some 48) (dec : text.all isDec = true) :
    ∃ value < 2 ^ 32, some (Nat.ofDigits 10 (text.reverse.map fun b => b.toNat - 48)) = some value ∧
      ((Nat.digits 10 value).map fun digit => UInt8.ofNat (digit + 48)).reverse = text := by
  have digit (b : UInt8) (mem : b ∈ text) : 48 ≤ b.toNat ∧ b.toNat ≤ 57 := by
    have own := List.all_eq_true.1 dec b mem
    simpa [isDec, UInt8.le_iff_toNat_le] using own
  have below : ∀ value ∈ text.reverse.map (fun b => b.toNat - 48), value < 10 := by
    intro value mem
    obtain ⟨b, own, rfl⟩ := List.mem_map.1 mem
    have limits := digit b (List.mem_reverse.1 own)
    omega
  have digits : Nat.digits 10 (Nat.ofDigits 10 (text.reverse.map fun b => b.toNat - 48)) =
      text.reverse.map fun b => b.toNat - 48 := by
    apply Nat.digits_ofDigits 10 (by decide) _ below
    intro nonempty
    cases text with
    | nil => exact absurd rfl some_digits
    | cons b rest =>
      have limits := digit b (List.mem_cons_self ..)
      have nonzero : b.toNat ≠ 48 := fun zero => first (by simp [← UInt8.toNat_inj, zero])
      simp
      omega
  refine ⟨_, ?_, rfl, ?_⟩
  · have bound := Nat.ofDigits_lt_base_pow_length (by decide : 1 < 10) below
    have power := Nat.pow_le_pow_right (by decide : 0 < 10) low
    rw [List.length_map, List.length_reverse] at bound
    omega
  · rw [digits, List.map_map, ← List.map_reverse, List.reverse_reverse]
    have byte (b : UInt8) (mem : b ∈ text) :
        ((fun digit => UInt8.ofNat (digit + 48)) ∘ fun b => b.toNat - 48) b = id b := by
      have limits := digit b mem
      simp only [Function.comp_apply, Nat.sub_add_cancel limits.1, UInt8.ofNat_toNat, id]
    rw [List.map_congr_left byte, List.map_id]

/-- The string library. -/
def plain : StringManip where
  hexToBuf := hexPairs
  hexEncode := hexUpEncode
  base64modDecode := base64Bytes
  base64modEncode := base64Text
  strToInt text := some (Nat.ofDigits 10 (text.reverse.map fun b => b.toNat - 48))
  intToStr value := ((Nat.digits 10 value).map fun digit => UInt8.ofNat (digit + 48)).reverse
  hexToBuf_nil := rfl
  hexToBuf_pair _ _ _ := rfl
  hexEncode_hexToBuf text even hex :=
    (inverse_up rfl (fun _ _ _ => rfl) text even hex).2
  base64mod_inverse := base64_inverse
  int_inverse := decimal_inverse

theorem compact_device : ∃ data, Compact plain (aid ++ List.replicate 32 97) 7 data :=
  (compact_iff plain (by decide) 7).2 (by decide)

theorem replicate_not_told_apart (low : count < 2 ^ 32) (long : 2 ^ 32 ≤ count + 4) :
    List.replicate count (48 : UInt8) ≠ List.replicate count 49 ∧
      ∃ data data', adapter plain (List.replicate count 48) 7 = some data ∧
        adapter plain (List.replicate count 49) 7 = some data' ∧
          adapterEq plain data data' = some true := by
  constructor
  · intro same
    obtain ⟨-, none_left | digits⟩ := List.replicate_inj.1 same
    · omega
    · exact absurd digits (by decide)
  · exact long_equal plain (by rwa [List.length_replicate]) (by rwa [List.length_replicate])
      (by rw [List.length_replicate, List.length_replicate]) 7

/-- Two ids of 2^32 - 4 bytes that differ everywhere. -/
theorem long_not_told_apart :
    List.replicate 4294967292 (48 : UInt8) ≠ List.replicate 4294967292 49 ∧
      ∃ data data', adapter plain (List.replicate 4294967292 48) 7 = some data ∧
        adapter plain (List.replicate 4294967292 49) 7 = some data' ∧
          adapterEq plain data data' = some true :=
  replicate_not_told_apart (by decide) (by decide)

end AdServer.UserBind.ExternalIds
