import AdServer.LogCommons.TextStreams
import Mathlib.Data.List.TakeWhile

/-!
# Fields read back

What is written of a string or a list is one token of its line, and both readers give it
back, unless an `EmptyHolder` takes its first byte for the marker of the empty value.
-/

namespace AdServer.LogProcessing

open AdServer.Lib OptionalValue
open AdServer.Lib.Runs (Rounds)

variable {convertor : Convertor}

/-! ## What is written of a byte -/

/-- An escaped byte, or one that both readers take as it is. -/
def Convertor.Reserves (convertor : Convertor) (ch : UInt8) : Prop :=
  match convertor.reserve ch with
  | [plain] => plain = ch ∧ plain ≠ escChar ∧ isSpace plain = false ∧
      (convertor = .convertSpacesSeparators → plain ≠ comma)
  | [esc, high, low] => esc = escChar ∧ isSpace high = false ∧ isSpace low = false ∧
      high ≠ comma ∧ low ≠ comma ∧ ch ≠ nullMarker ∧
      ((hexDigit high).bind fun d => (hexDigit low).map fun d' => (d * 16 + d').toUInt8) = some ch
  | _ => False

instance (convertor : Convertor) (ch : UInt8) : Decidable (convertor.Reserves ch) := by
  unfold Convertor.Reserves
  split <;> infer_instance

theorem reserves (convertor : Convertor) (ch : UInt8) : convertor.Reserves ch := by
  have all : ∀ n : Fin 256, ∀ c ∈ [Convertor.convertSpaces, .convertSpacesSeparators],
      c.Reserves (UInt8.ofNat n) := by decide +kernel
  have this := all ⟨ch.toNat, ch.toNat_lt⟩ convertor (by cases convertor <;> simp)
  rwa [UInt8.ofNat_toNat] at this

theorem reserve_cases (convertor : Convertor) (ch : UInt8) :
    (convertor.reserve ch = [ch] ∧ ch ≠ escChar ∧ isSpace ch = false ∧
      (convertor = .convertSpacesSeparators → ch ≠ comma)) ∨
    ∃ high low d d', convertor.reserve ch = [escChar, high, low] ∧ isSpace high = false ∧
      isSpace low = false ∧ high ≠ comma ∧ low ≠ comma ∧ ch ≠ nullMarker ∧
      hexDigit high = some d ∧ hexDigit low = some d' ∧ (d * 16 + d').toUInt8 = ch := by
  have cases := reserves convertor ch
  unfold Convertor.Reserves at cases
  split at cases
  · next plain written =>
    obtain ⟨rfl, rest⟩ := cases
    exact .inl ⟨written, rest⟩
  · next esc high low written =>
    obtain ⟨rfl, high_text, low_text, high_sep, low_sep, marker, decoded⟩ := cases
    obtain ⟨d, high_digit, decoded⟩ := Option.bind_eq_some_iff.1 decoded
    obtain ⟨d', low_digit, decoded⟩ := Option.map_eq_some_iff.1 decoded
    exact .inr ⟨high, low, d, d', written, high_text, low_text, high_sep, low_sep, marker,
      high_digit, low_digit, decoded⟩
  · exact cases.elim

theorem isSpace_escChar : isSpace escChar = false := by decide

theorem isSpace_tab : isSpace tab = true := by decide

theorem ends_eq_isSpace (ch : UInt8) : ends ch = isSpace ch := by
  unfold ends
  by_cases h : ch = tab
  · simp [h, isSpace_tab]
  · simp [h]

theorem mem_reserve {ch c : UInt8} (member : c ∈ convertor.reserve ch) :
    isSpace c = false ∧ (convertor = .convertSpacesSeparators → c ≠ comma) := by
  obtain ⟨written, -, text, apart⟩ |
      ⟨high, low, d, d', written, high_text, low_text, high_sep, low_sep, -⟩ :=
    reserve_cases convertor ch
  · rw [written, List.mem_singleton] at member
    exact member ▸ ⟨text, apart⟩
  · rw [written] at member
    simp only [List.mem_cons, List.not_mem_nil, or_false] at member
    obtain rfl | rfl | rfl := member
    · exact ⟨isSpace_escChar, fun _ => by decide⟩
    · exact ⟨high_text, fun _ => high_sep⟩
    · exact ⟨low_text, fun _ => low_sep⟩

theorem reserve_ne_nil (ch : UInt8) : convertor.reserve ch ≠ [] := by
  obtain ⟨written, -⟩ | ⟨high, low, d, d', written, -⟩ := reserve_cases convertor ch <;>
    simp [written]

theorem reserve_head (ch : UInt8) :
    (convertor.reserve ch).head? = some nullMarker ↔ ch = nullMarker := by
  obtain ⟨written, -⟩ | ⟨high, low, d, d', written, -, -, -, -, marker, -⟩ :=
    reserve_cases convertor ch
  · simp [written]
  · have apart : escChar ≠ nullMarker := by decide
    simp [written, apart, marker]

/-! ## Strings that are written -/

theorem write_nil : (⟨[]⟩ : StringIo convertor).write = [] := rfl

theorem write_cons (ch : UInt8) (data : Bytes) :
    (⟨ch :: data⟩ : StringIo convertor).write = convertor.reserve ch ++
      (⟨data⟩ : StringIo convertor).write := by
  simp [StringIo.write]

variable {c : UInt8} {str : StringIo convertor}

theorem write_text (member : c ∈ str.write) : isSpace c = false := by
  obtain ⟨ch, -, member⟩ := List.mem_flatMap.1 member
  exact (mem_reserve member).1

theorem write_no_comma {str : StringIo .convertSpacesSeparators} (member : c ∈ str.write) :
    c ≠ comma := by
  obtain ⟨ch, -, member⟩ := List.mem_flatMap.1 member
  exact (mem_reserve member).2 rfl

theorem write_eq_nil : str.write = [] ↔ str.data = [] := by
  cases str with
  | mk data =>
    cases data with
    | nil => simp [write_nil]
    | cons ch data => simp [write_cons, reserve_ne_nil]

theorem write_head (str : StringIo convertor) :
    str.write.head? = some nullMarker ↔ str.data.head? = some nullMarker := by
  cases str with
  | mk data =>
    cases data with
    | nil => simp [write_nil]
    | cons ch data =>
      rw [write_cons, List.head?_append_of_ne_nil _ (reserve_ne_nil ch), reserve_head]
      simp

theorem unescapeToken_write (str : StringIo convertor) :
    unescapeToken str.write = some str.data := by
  cases str with
  | mk data =>
    induction data with
    | nil => rfl
    | cons ch data ih =>
      rw [write_cons]
      obtain ⟨written, plain, -⟩ | ⟨high, low, d, d', written, -, -, -, -, -, digit, digit', byte⟩ :=
        reserve_cases convertor ch
      · rw [written, List.singleton_append, unescapeToken.eq_def]
        simp [plain, ih]
      · rw [written]
        subst byte
        simp [unescapeToken, digit, digit', ih]

theorem write_marker (same : str.write = [nullMarker]) : str.data = [nullMarker] := by
  have decoded := unescapeToken_write str
  rw [same] at decoded
  have plain : nullMarker ≠ escChar := by decide
  simpa [unescapeToken, plain] using decoded.symm

/-- The plain bytes before the first escape, which are copied, are what the loop makes of
them too. -/
theorem unescapeToken_eq (token : Bytes) :
    unescapeToken token = (unescapeToken (token.dropWhile (· != escChar))).map
      (token.takeWhile (· != escChar) ++ ·) := by
  induction token with
  | nil => rfl
  | cons ch token ih =>
    by_cases esc : ch = escChar
    · simp [esc]
    · have kept : (ch != escChar) = true := by simpa using esc
      rw [unescapeToken.eq_def]
      simp only [if_neg esc]
      rw [ih]
      simp [kept, Option.map_map, Function.comp_def]

theorem unescapeToken_short {token : Bytes} (escape : token.head? = some escChar)
    (short : token.length < 3) : unescapeToken token = none := by
  match token with
  | [] => cases escape
  | [ch] =>
    cases escape
    simp [unescapeToken]
  | [ch, high] =>
    cases escape
    simp [unescapeToken]
  | ch :: high :: low :: rest =>
    simp only [List.length_cons] at short
    omega

theorem extractBytes_write (str : StringIo convertor) {n : Nat} (fits : str.data.length ≤ n)
    {rest : Bytes} (behind : ∀ ch ∈ rest.head?, ch = tab) :
    extractBytes n (str.write ++ rest) = (str.data, rest, false) := by
  cases str with
  | mk data =>
    induction data generalizing n with
    | nil =>
      rw [write_nil, List.nil_append]
      cases n with
      | zero => rfl
      | succ n =>
        cases rest with
        | nil => rfl
        | cons ch rest =>
          obtain rfl := behind ch rfl
          simp [extractBytes, ends]
    | cons ch data ih =>
      cases n with
      | zero => simp at fits
      | succ n =>
        have later := ih (n := n) (by simpa using fits)
        rw [write_cons]
        obtain ⟨written, plain, text, -⟩ |
            ⟨high, low, d, d', written, high_text, low_text, -, -, -, digit, digit', byte⟩ :=
          reserve_cases convertor ch
        · rw [written]
          simp [extractBytes, ends_eq_isSpace, text, plain, later]
        · rw [written]
          subst byte
          simp [extractBytes, ends_eq_isSpace, isSpace_escChar, unescape, high_text, low_text,
            digit, digit', later]

/-! ## Tokens of a line -/

/-- A text, and the next one behind a separator if there is any. -/
def line (separator : UInt8) (text : Bytes) : Option Bytes → Bytes
  | none => text
  | some next => text ++ separator :: next

/-- The stream at the beginning of a text, nothing having gone wrong. -/
def FixedBufStream.on (separator : UInt8) (text : Bytes) : FixedBufStream separator :=
  ⟨text, none, false, false, false⟩

section Tokens

variable {separator : UInt8}

variable {text behind : Bytes} {is : FixedBufStream separator}

theorem takeWhile_line (clean : ∀ ch ∈ text, ch ≠ separator) (next : Option Bytes) :
    (line separator text next).takeWhile (· != separator) = text := by
  have all : ∀ ch ∈ text, (ch != separator) = true := fun ch member => by
    simpa using clean ch member
  cases next with
  | none => exact List.takeWhile_eq_self_iff.2 all
  | some next =>
    rw [line, List.takeWhile_append_of_pos all]
    simp

theorem dropWhile_line (clean : ∀ ch ∈ text, ch ≠ separator) (next : Option Bytes) :
    ((line separator text next).dropWhile (· != separator)).tail = next.getD [] := by
  have all : ∀ ch ∈ text, (ch != separator) = true := fun ch member => by
    simpa using clean ch member
  cases next with
  | none =>
    rw [line, List.dropWhile_eq_nil_iff.2 all]
    rfl
  | some next =>
    rw [line, List.dropWhile_append_of_pos all]
    simp

/-- A stream whose next token is the text: it is in front, or was pushed back. -/
inductive FixedBufStream.Next (text : Bytes) (behind : Bytes) : FixedBufStream separator → Prop
  | front {next : Option Bytes} (clean : ∀ ch ∈ text, ch ≠ separator)
      (same : next.getD [] = behind) (some_byte : text ≠ []) :
      Next text behind (.on separator (line separator text next))
  | pushed : Next text behind ((FixedBufStream.on separator behind).pushBack text)

theorem FixedBufStream.Next.readToken (next : is.Next text behind) :
    is.readToken = (text, .on separator behind) := by
  cases next with
  | front clean same some_byte =>
    subst same
    simp [FixedBufStream.readToken, FixedBufStream.on, takeWhile_line clean, dropWhile_line clean,
      some_byte]
  | pushed => rfl

@[simp] theorem FixedBufStream.good_on (text : Bytes) :
    (FixedBufStream.on separator text).good = true := rfl

theorem StringIo.read_write (str : StringIo convertor) (some_byte : str.data ≠ [])
    (next : is.Next str.write behind) (old : StringIo convertor) :
    StringIo.read is old = (.on separator behind, str) := by
  have token : str.write.isEmpty = false := by
    simpa [List.isEmpty_eq_false_iff] using fun h => some_byte (write_eq_nil.1 h)
  have decoded := unescapeToken_write str
  rw [unescapeToken_eq] at decoded
  unfold StringIo.read
  rw [next.readToken]
  simp only [FixedBufStream.good_on, token, if_true, Bool.false_eq_true, if_false]
  split
  · next plain =>
    rw [plain] at decoded
    have whole := List.takeWhile_append_dropWhile (p := (· != escChar)) (l := str.write)
    rw [plain, List.append_nil] at whole
    simp only [unescapeToken, Option.map_some, List.append_nil, Option.some.injEq, whole] at decoded
    rw [decoded]
  · next escape escaped =>
    have starts : (str.write.dropWhile (· != escChar)).head? = some escChar := by
      cases rest : str.write.dropWhile (· != escChar) with
      | nil => exact absurd rest escaped
      | cons ch rest' =>
        have := List.head?_dropWhile_not (· != escChar) str.write
        rw [rest] at this
        simpa using this
    obtain ⟨tail, unescaped, same⟩ := Option.map_eq_some_iff.1 decoded
    split_ifs with short
    · rw [unescapeToken_short starts short] at unescaped
      cases unescaped
    · rw [unescaped]
      simp only [same]

end Tokens

section Elements

variable {separator : UInt8}

theorem intercalate_line (text : Bytes) (texts : List Bytes) :
    ∃ next : Option Bytes, next.getD [] = [comma].intercalate texts ∧
      [comma].intercalate (text :: texts) = line comma text next := by
  cases texts with
  | nil => exact ⟨none, rfl, by simp [line, List.intercalate_singleton]⟩
  | cons second texts =>
    exact ⟨some ([comma].intercalate (second :: texts)), rfl, by
      rw [List.intercalate_cons_cons]
      simp [line]⟩

theorem elementRounds_write (values : List (StringIo .convertSpacesSeparators))
    (nonempty : ∀ value ∈ values, value.data ≠ [])
    (container : List (StringIo .convertSpacesSeparators)) :
    elementRounds.run (.on comma ([comma].intercalate (values.map StringIo.write)), container) =
      ({ FixedBufStream.on comma [] with eofbit := true }, container ++ values) := by
  induction values generalizing container with
  | nil =>
    rw [List.append_nil]
    exact Rounds.run_of_end rfl
  | cons value values ih =>
    obtain ⟨next, same, text⟩ := intercalate_line value.write (values.map StringIo.write)
    have value_nonempty := nonempty value List.mem_cons_self
    have front : FixedBufStream.Next value.write ([comma].intercalate (values.map StringIo.write))
        (.on comma (line comma value.write next)) :=
      .front (fun ch member => write_no_comma member) same
        (fun empty => value_nonempty (write_eq_nil.1 empty))
    have round : elementRounds.round
        (.on comma ([comma].intercalate ((value :: values).map StringIo.write)), container) =
        .inl (.on comma ([comma].intercalate (values.map StringIo.write)),
          container ++ [value]) := by
      rw [List.map_cons, text]
      simp only [elementRounds, LogField.read]
      rw [value.read_write value_nonempty front]
      rfl
    rw [Rounds.run_of_next round, ih fun v member => nonempty v (List.mem_cons_of_mem _ member)]
    simp

/-- Only the list of the single marker is written as an empty one is. -/
theorem writeList_marker {value : StringIo .convertSpacesSeparators}
    {values : List (StringIo .convertSpacesSeparators)}
    (nonempty : ∀ other ∈ value :: values, other.data ≠ [])
    (marked : value :: values ≠ [⟨[nullMarker]⟩]) :
    writeList (value :: values) ≠ [nullMarker] := by
  intro same
  have text : writeList (value :: values) =
      value.write ++ (values.map StringIo.write).flatMap (comma :: ·) :=
    intercalate_cons comma _ _
  rw [text] at same
  cases values with
  | nil =>
    rw [List.map_nil, List.flatMap_nil, List.append_nil] at same
    have single : value = ⟨[nullMarker]⟩ := congrArg StringIo.mk (write_marker same)
    exact marked (by rw [single])
  | cons second values =>
    have some_byte : 0 < value.write.length := List.length_pos_iff.2 fun empty =>
      nonempty value List.mem_cons_self (write_eq_nil.1 empty)
    have lengths := congrArg List.length same
    simp only [List.map_cons, List.flatMap_cons, List.length_append, List.length_cons,
      List.length_nil] at lengths
    omega

theorem readList_write (values : List (StringIo .convertSpacesSeparators))
    (nonempty : ∀ value ∈ values, value.data ≠ []) (marked : values ≠ [⟨[nullMarker]⟩])
    {behind : Bytes} {is : FixedBufStream separator} (next : is.Next (writeList values) behind)
    (old : List (StringIo .convertSpacesSeparators)) :
    readList is old = (.on separator behind, values) := by
  unfold readList
  rw [next.readToken]
  cases values with
  | nil => simp [writeList]
  | cons value values =>
    have unmarked := writeList_marker nonempty marked
    simp only [FixedBufStream.good_on, if_true, if_neg unmarked]
    have rounds := elementRounds_write (value :: values) nonempty []
    have text : writeList (value :: values) =
        [comma].intercalate ((value :: values).map StringIo.write) := rfl
    rw [text]
    simp only [FixedBufStream.on] at rounds ⊢
    rw [rounds]
    simp [FixedBufStream.good]

end Elements

/-! ## Fields -/

/-- The types of fields that hold strings. -/
inductive FieldType where
  | plain (convertor : Convertor)
  | emptyHolder (convertor : Convertor)
  | optionalValue (convertor : Convertor)
  | list
  | emptyHolderOfList

abbrev FieldType.Value : FieldType → Type
  | .plain convertor => StringIo convertor
  | .emptyHolder convertor => EmptyHolder (StringIo convertor)
  | .optionalValue convertor => OptionalValue (StringIo convertor)
  | .list => List (StringIo .convertSpacesSeparators)
  | .emptyHolderOfList => EmptyHolder (List (StringIo .convertSpacesSeparators))

instance : (type : FieldType) → LogField type.Value
  | .plain _ => inferInstance
  | .emptyHolder _ => inferInstance
  | .optionalValue _ => inferInstance
  | .list => inferInstance
  | .emptyHolderOfList => inferInstance

/-- Strings other than the marker, or none where the field has a text for that; lists of
nonempty strings other than the list of the single marker. -/
def FieldType.Holds : (type : FieldType) → type.Value → Prop
  | .plain _, str => str.data ≠ [] ∧ str.data ≠ [nullMarker]
  | .emptyHolder _, holder => holder.object.data ≠ [nullMarker]
  | .optionalValue _, ov => (∃ str, ov = .of str ∧ str.data ≠ [nullMarker]) ∨ ov.present = false
  | .list, values => (∀ value ∈ values, value.data ≠ []) ∧ values ≠ [⟨[nullMarker]⟩]
  | .emptyHolderOfList, holder =>
    (∀ value ∈ holder.object, value.data ≠ []) ∧ holder.object ≠ [⟨[nullMarker]⟩]

/-- Equal values: what an absent one keeps does not matter. -/
def FieldType.Same : (type : FieldType) → type.Value → type.Value → Prop
  | .optionalValue _, a, b => a.get? = b.get?
  | .plain _, a, b => a = b
  | .emptyHolder _, a, b => a = b
  | .list, a, b => a = b
  | .emptyHolderOfList, a, b => a = b

/-- A single string comes back from the standard stream, which stops before the tab. -/
def Extracts {T : Type} [LogField T] [Extracted T] (size : Nat) (same : T → T → Prop) (value : T) :
    Prop :=
  ∀ (maxSize : Nat) (next : Option Bytes) (old : T), size ≤ maxSize →
    let read := Extracted.extract maxSize ⟨line tab (LogField.write value) next, false, false, 0⟩ old
    same read.2 value ∧ read.1.failbit = false ∧ read.1.rest = line tab [] next

def FieldType.Extracts : (type : FieldType) → type.Value → Prop
  | .plain convertor, str =>
    LogProcessing.Extracts str.data.length (FieldType.plain convertor).Same str
  | .emptyHolder convertor, holder =>
    LogProcessing.Extracts holder.object.data.length (FieldType.emptyHolder convertor).Same holder
  | .optionalValue convertor, ov =>
    LogProcessing.Extracts ov.value.data.length (FieldType.optionalValue convertor).Same ov
  | .list, _ => True
  | .emptyHolderOfList, _ => True

/-- The field has no space in its text, and both readers give it back. -/
structure FieldType.RoundTrip (type : FieldType) (value : type.Value) : Prop where
  no_space : ∀ ch ∈ LogField.write value, isSpace ch = false
  read_back : ∀ (next : Option Bytes) (old : type.Value),
    let read := LogField.read (.on tab (line tab (LogField.write value) next)) old
    type.Same read.2 value ∧ read.1 = .on tab (next.getD [])
  extracted : type.Extracts value

/-- The value of an `EmptyHolder` starts with the marker. -/
def FieldType.Marked : (type : FieldType) → type.Value → Prop
  | .emptyHolder _, holder => holder.object.data.head? = some nullMarker
  | .emptyHolderOfList, holder =>
    ∃ first ∈ holder.object.head?, first.data.head? = some nullMarker
  | .plain _, _ => False
  | .optionalValue _, _ => False
  | .list, _ => False

section Fields

theorem isSpace_nullMarker : isSpace nullMarker = false := by decide

variable {values : List (StringIo .convertSpacesSeparators)} {maxSize : Nat}
  {str : StringIo convertor} {ov : OptionalValue (StringIo convertor)}

theorem writeList_text {ch : UInt8} (member : ch ∈ writeList values) : isSpace ch = false := by
  unfold writeList at member
  split_ifs at member
  · obtain rfl := List.mem_singleton.1 member
    exact isSpace_nullMarker
  · obtain rfl | ⟨piece, mem, inside⟩ := mem_intercalate member
    · decide
    · obtain ⟨value, -, rfl⟩ := List.mem_map.1 mem
      exact write_text inside

theorem write_no_space (type : FieldType) (value : type.Value) :
    ∀ ch ∈ LogField.write value, isSpace ch = false := by
  intro ch member
  cases type with
  | plain convertor => exact write_text member
  | emptyHolder convertor =>
    change ch ∈ EmptyHolder.write value at member
    unfold EmptyHolder.write at member
    split_ifs at member
    · obtain rfl := List.mem_singleton.1 member
      exact isSpace_nullMarker
    · exact write_text member
  | optionalValue convertor =>
    change ch ∈ write value at member
    unfold write at member
    split_ifs at member
    · obtain rfl | inside := List.mem_cons.1 member
      · decide
      · exact write_text inside
    · obtain rfl := List.mem_singleton.1 member
      exact isSpace_nullMarker
  | list => exact writeList_text member
  | emptyHolderOfList =>
    change ch ∈ EmptyHolder.write value at member
    unfold EmptyHolder.write at member
    split_ifs at member
    · obtain rfl := List.mem_singleton.1 member
      exact isSpace_nullMarker
    · exact writeList_text member

theorem write_no_tab (type : FieldType) (value : type.Value) :
    ∀ ch ∈ LogField.write value, ch ≠ tab := by
  rintro ch member rfl
  have text := write_no_space type value tab member
  rw [isSpace_tab] at text
  cases text

theorem writeList_ne_nil (nonempty : ∀ value ∈ values, value.data ≠ []) :
    writeList values ≠ [] := by
  cases values with
  | nil => simp [writeList]
  | cons value values =>
    intro empty
    have text : writeList (value :: values) =
        value.write ++ (values.map StringIo.write).flatMap (comma :: ·) :=
      intercalate_cons comma _ _
    rw [text, List.append_eq_nil_iff] at empty
    exact nonempty value List.mem_cons_self (write_eq_nil.1 empty.1)

theorem next_line (type : FieldType) (value : type.Value) (next : Option Bytes)
    (some_byte : LogField.write value ≠ []) :
    FixedBufStream.Next (LogField.write value) (next.getD [])
      (.on tab (line tab (LogField.write value) next)) :=
  .front (write_no_tab type value) rfl some_byte

section EmptyHolder

variable {Object : Type} [Clearable Object] {separator : UInt8} {text behind : Bytes}
  {is : FixedBufStream separator}

theorem EmptyHolder.read_next [LogField Object] (next : is.Next text behind)
    (old : EmptyHolder Object) : EmptyHolder.read is old =
      if text.head? = some nullMarker then
        (.on separator behind, ⟨Clearable.clear old.object⟩)
      else (LogField.read ((FixedBufStream.on separator behind).pushBack text) old.object).map
        id .mk := by
  unfold EmptyHolder.read
  rw [next.readToken]
  simp

variable {holder : EmptyHolder Object}

theorem EmptyHolder.read_back [LogField Object] (next : is.Next holder.write behind)
    (cleared : Clearable.empty holder.object = true → ∀ old, Clearable.clear old = holder.object)
    (object_back : Clearable.empty holder.object = false →
      (LogField.write holder.object).head? ≠ some nullMarker ∧ ∀ old, LogField.read
        ((FixedBufStream.on separator behind).pushBack (LogField.write holder.object)) old =
          (.on separator behind, holder.object))
    (old : EmptyHolder Object) : EmptyHolder.read is old = (.on separator behind, holder) := by
  rw [EmptyHolder.read_next next]
  cases empty : Clearable.empty holder.object with
  | true => simp [EmptyHolder.write, empty, cleared empty]
  | false =>
    obtain ⟨unmarked, reads⟩ := object_back empty
    simp [EmptyHolder.write, empty, unmarked, reads]

theorem EmptyHolder.read_marked [LogField Object] (next : is.Next holder.write behind)
    (marked : (LogField.write holder.object).head? = some nullMarker) (old : EmptyHolder Object) :
    (EmptyHolder.read is old).2 = ⟨Clearable.clear old.object⟩ := by
  rw [EmptyHolder.read_next next]
  cases empty : Clearable.empty holder.object <;> simp [EmptyHolder.write, empty, marked]

end EmptyHolder

theorem head_line {next : Option Bytes} : ∀ ch ∈ (line tab [] next).head?, ch = tab := by
  cases next <;> simp [line]

theorem line_eq (text : Bytes) (next : Option Bytes) :
    line tab text next = text ++ line tab [] next := by
  cases next <;> simp [line]

theorem StringIo.extract_write (str : StringIo convertor) (some_byte : str.data ≠ [])
    (fits : str.data.length ≤ maxSize) (next : Option Bytes) (old : StringIo convertor) :
    StringIo.extract maxSize ⟨line tab str.write next, false, false, 0⟩ old =
      (⟨line tab [] next, (line tab [] next).isEmpty, false, 0⟩, str) := by
  rw [line_eq]
  simp [StringIo.extract, IStream.good, extractBytes_write str fits head_line,
    List.isEmpty_eq_false_iff.2 some_byte]

theorem checkNull_null (next : Option Bytes) :
    (⟨line tab [nullMarker] next, false, false, 0⟩ : IStream).checkNull nullMarker =
      (true, ⟨line tab [] next, (line tab [] next).isEmpty, false, 0⟩) := by
  cases next with
  | none => rfl
  | some next =>
    simp [line, IStream.checkNull, IStream.peek, IStream.get, IStream.good, isSpace_tab]

theorem checkNull_text (some_byte : str.data ≠ []) (unmarked : str.data ≠ [nullMarker])
    (next : Option Bytes) :
    (⟨line tab str.write next, false, false, 0⟩ : IStream).checkNull nullMarker =
      (false, ⟨line tab str.write next, false, false, 0⟩) := by
  rw [line_eq]
  cases text : str.write with
  | nil => exact absurd (write_eq_nil.1 text) some_byte
  | cons ch behind =>
    by_cases marker : ch = nullMarker
    · subst marker
      cases behind with
      | nil => exact absurd (write_marker text) unmarked
      | cons second behind =>
        have no_space : isSpace second = false := write_text (by simp [text] : second ∈ str.write)
        simp [IStream.checkNull, IStream.peek, IStream.get, IStream.good, no_space]
    · simp [IStream.checkNull, IStream.peek, IStream.good, marker]

/-! The readers of each type. -/

theorem OptionalValue.write_of (some_byte : str.data ≠ []) :
    (of str).write = presentMarker :: str.write := by
  have present : Clearable.empty str = false := List.isEmpty_eq_false_iff.2 some_byte
  simp [write, of, present, LogField.write]

theorem OptionalValue.write_absent (absent : ov.present = false) : ov.write = [nullMarker] := by
  simp [write, absent]

theorem OptionalValue.of_absent (empty : str.data = []) :
    (of str).present = false := by
  simp [of, Clearable.empty, empty]

theorem OptionalValue.read_of (some_byte : str.data ≠ []) (next : Option Bytes)
    (old : OptionalValue (StringIo convertor)) :
    read (.on tab (line tab (of str).write next)) old =
      (.on tab (next.getD []), .of str) := by
  have front := next_line (.optionalValue convertor) (.of str) next
    (by
      change write _ ≠ []
      rw [write_of some_byte]
      exact List.cons_ne_nil _ _)
  have token := front.readToken
  change FixedBufStream.readToken (.on tab (line tab (of str).write next)) =
    ((of str).write, _) at token
  unfold read
  rw [token, write_of some_byte]
  have apart : presentMarker ≠ nullMarker := by decide
  have string := str.read_write some_byte
    (.pushed : ((FixedBufStream.on tab (next.getD [])).pushBack str.write).Next _ _) old.value
  change LogField.read (T := StringIo convertor) _ _ = _ at string
  simp only [FixedBufStream.good_on, if_true, apart, if_false, string]
  rfl

theorem OptionalValue.read_absent (absent : ov.present = false) (next : Option Bytes)
    (old : OptionalValue (StringIo convertor)) :
    read (.on tab (line tab ov.write next)) old =
      (.on tab (next.getD []), { old.clear with present := false }) := by
  have front := next_line (.optionalValue convertor) ov next
    (by
      change write _ ≠ []
      rw [write_absent absent]
      exact List.cons_ne_nil _ _)
  have token := front.readToken
  change FixedBufStream.readToken (.on tab (line tab ov.write next)) = (ov.write, _) at token
  unfold read
  rw [token, write_absent absent]
  simp

theorem OptionalValue.extract_of (some_byte : str.data ≠ []) (fits : str.data.length ≤ maxSize)
    (next : Option Bytes) (old : OptionalValue (StringIo convertor)) :
    extract maxSize ⟨line tab (of str).write next, false, false, 0⟩
      old = (⟨line tab [] next, (line tab [] next).isEmpty, false, 0⟩, .of str) := by
  have apart : presentMarker ≠ nullMarker := by decide
  have string := str.extract_write some_byte fits next old.value
  rw [line_eq] at string ⊢
  rw [write_of some_byte, List.cons_append]
  simp only [extract, IStream.peek, IStream.get, IStream.good, List.head?_cons,
    List.isEmpty_cons, Bool.not_false, Bool.and_self, if_true, Option.some.injEq, apart, if_false,
    List.tail_cons, Extracted.extract, string, Bool.false_eq_true]

theorem OptionalValue.extract_absent (absent : ov.present = false) (maxSize : Nat)
    (next : Option Bytes) (old : OptionalValue (StringIo convertor)) :
    extract maxSize ⟨line tab ov.write next, false, false, 0⟩ old =
      (⟨line tab [] next, false, false, 0⟩, { old.clear with present := false }) := by
  rw [line_eq, write_absent absent]
  simp [extract, IStream.peek, IStream.get, IStream.good]

theorem EmptyHolder.extract_write {holder : EmptyHolder (StringIo convertor)}
    (unmarked : holder.object.data ≠ [nullMarker]) (fits : holder.object.data.length ≤ maxSize)
    (next : Option Bytes) (old : EmptyHolder (StringIo convertor)) :
    EmptyHolder.extract maxSize ⟨line tab holder.write next, false, false, 0⟩ old =
      (⟨line tab [] next, (line tab [] next).isEmpty, false, 0⟩, holder) := by
  obtain ⟨⟨data⟩⟩ := holder
  cases data with
  | nil =>
    have text : (⟨⟨[]⟩⟩ : EmptyHolder (StringIo convertor)).write = [nullMarker] := rfl
    rw [text]
    simp [EmptyHolder.extract, IStream.good, checkNull_null, Clearable.clear]
  | cons ch data =>
    have text : (⟨⟨ch :: data⟩⟩ : EmptyHolder (StringIo convertor)).write =
        (⟨ch :: data⟩ : StringIo convertor).write := rfl
    rw [text]
    unfold EmptyHolder.extract
    rw [checkNull_text (List.cons_ne_nil _ _) unmarked]
    have string := StringIo.extract_write (⟨ch :: data⟩ : StringIo convertor)
      (List.cons_ne_nil _ _) fits next old.object
    simp [IStream.good, Extracted.extract, string]

theorem writeList_head (value : StringIo .convertSpacesSeparators)
    (values : List (StringIo .convertSpacesSeparators)) (some_byte : value.data ≠ []) :
    (writeList (value :: values)).head? = some nullMarker ↔
      value.data.head? = some nullMarker := by
  have text : writeList (value :: values) =
      value.write ++ (values.map StringIo.write).flatMap (comma :: ·) :=
    intercalate_cons comma _ _
  rw [text, List.head?_append_of_ne_nil _ fun empty => some_byte (write_eq_nil.1 empty),
    write_head]

theorem write_ne_nil {type : FieldType} {value : type.Value} (holds : type.Holds value) :
    LogField.write value ≠ [] := by
  cases type with
  | plain convertor => exact fun empty => holds.1 (write_eq_nil.1 empty)
  | emptyHolder convertor =>
    change EmptyHolder.write value ≠ []
    unfold EmptyHolder.write
    split_ifs with empty
    · exact List.cons_ne_nil _ _
    · exact fun none_written => empty (List.isEmpty_iff.2 (write_eq_nil.1 none_written))
  | optionalValue convertor =>
    change write value ≠ []
    unfold write
    split_ifs <;> exact List.cons_ne_nil _ _
  | list => exact writeList_ne_nil holds.1
  | emptyHolderOfList =>
    change EmptyHolder.write value ≠ []
    unfold EmptyHolder.write
    split_ifs
    · exact List.cons_ne_nil _ _
    · exact writeList_ne_nil holds.1

theorem read_back {type : FieldType} {value : type.Value} (holds : type.Holds value)
    (unmarked : ¬ type.Marked value) (next : Option Bytes) (old : type.Value) :
    let read := LogField.read (.on tab (line tab (LogField.write value) next)) old
    type.Same read.2 value ∧ read.1 = .on tab (next.getD []) := by
  have front := next_line type value next (write_ne_nil holds)
  cases type with
  | plain convertor =>
    have read := StringIo.read_write value holds.1 front old
    exact ⟨congrArg Prod.snd read, congrArg Prod.fst read⟩
  | emptyHolder convertor =>
    have read := EmptyHolder.read_back front
      (fun empty old => congrArg StringIo.mk (List.isEmpty_iff.1 empty).symm)
      (fun some_byte => ⟨fun marked => unmarked ((write_head _).1 marked), fun old =>
        StringIo.read_write _ (List.isEmpty_eq_false_iff.1 some_byte) .pushed old⟩) old
    exact ⟨congrArg Prod.snd read, congrArg Prod.fst read⟩
  | optionalValue convertor =>
    have of_absent (absent : value.present = false) :
        FieldType.Same (.optionalValue convertor)
          (LogField.read (.on tab (line tab (LogField.write value) next)) old).2 value ∧
        (LogField.read (.on tab (line tab (LogField.write value) next)) old).1 =
          .on tab (next.getD []) := by
      have read := read_absent absent next old
      refine ⟨?_, congrArg Prod.fst read⟩
      change (OptionalValue.read (.on tab (line tab value.write next)) old).2.get? = value.get?
      rw [read]
      simp [get?, absent]
    obtain ⟨str, rfl, -⟩ | absent := holds
    · by_cases empty : str.data = []
      · exact of_absent (OptionalValue.of_absent empty)
      · have read := read_of empty next old
        exact ⟨congrArg get? (congrArg Prod.snd read), congrArg Prod.fst read⟩
    · exact of_absent absent
  | list =>
    have read := readList_write value holds.1 holds.2 front old
    exact ⟨congrArg Prod.snd read, congrArg Prod.fst read⟩
  | emptyHolderOfList =>
    obtain ⟨values⟩ := value
    have read := EmptyHolder.read_back front
      (fun empty old => (List.isEmpty_iff.1 empty).symm)
      (fun some_value => ⟨fun marked => by
        cases values with
        | nil => cases some_value
        | cons first values =>
          exact unmarked ⟨first, rfl,
            (writeList_head first values (holds.1 first List.mem_cons_self)).1 marked⟩,
        fun old => readList_write values holds.1 holds.2 .pushed old⟩) old
    exact ⟨congrArg Prod.snd read, congrArg Prod.fst read⟩

theorem extracted {type : FieldType} {value : type.Value} (holds : type.Holds value) :
    type.Extracts value := by
  cases type with
  | plain convertor =>
    intro maxSize next old fits
    have read := value.extract_write holds.1 fits next old
    exact ⟨congrArg Prod.snd read, congrArg (fun read => IStream.failbit read.1) read,
      congrArg (fun read => IStream.rest read.1) read⟩
  | emptyHolder convertor =>
    intro maxSize next old fits
    have read := EmptyHolder.extract_write holds fits next old
    exact ⟨congrArg Prod.snd read, congrArg (fun read => IStream.failbit read.1) read,
      congrArg (fun read => IStream.rest read.1) read⟩
  | optionalValue convertor =>
    intro maxSize next old fits
    have of_absent (absent : value.present = false) :
        let read := extract maxSize
          ⟨line tab (LogField.write value) next, false, false, 0⟩ old
        FieldType.Same (.optionalValue convertor) read.2 value ∧ read.1.failbit = false ∧
          read.1.rest = line tab [] next := by
      have read := extract_absent absent maxSize next old
      refine ⟨?_, congrArg (fun read => IStream.failbit read.1) read,
        congrArg (fun read => IStream.rest read.1) read⟩
      refine (congrArg get? (congrArg Prod.snd read)).trans ?_
      simp [get?, absent]
    obtain ⟨str, rfl, -⟩ | absent := holds
    · by_cases empty : str.data = []
      · exact of_absent (OptionalValue.of_absent empty)
      · have read := extract_of empty fits next old
        exact ⟨congrArg get? (congrArg Prod.snd read),
          congrArg (fun read => IStream.failbit read.1) read,
          congrArg (fun read => IStream.rest read.1) read⟩
    · exact of_absent absent
  | list => trivial
  | emptyHolderOfList => trivial

end Fields

/-- Which fields come back: all but the values that an `EmptyHolder` takes for the marker. -/
theorem roundTrip_iff (type : FieldType) (value : type.Value) (holds : type.Holds value) :
    type.RoundTrip value ↔ ¬ type.Marked value := by
  refine ⟨fun round marked => ?_, fun unmarked =>
    ⟨write_no_space type value, read_back holds unmarked, extracted holds⟩⟩
  have front := next_line type value none (write_ne_nil holds)
  cases type with
  | emptyHolder convertor =>
    have lost := EmptyHolder.read_marked front ((write_head _).2 marked) value
    have same := (round.read_back none value).1
    have empty : value = ⟨⟨[]⟩⟩ := same.symm.trans lost
    subst empty
    cases marked
  | emptyHolderOfList =>
    obtain ⟨values⟩ := value
    obtain ⟨first, head, marked⟩ := marked
    cases values with
    | nil => cases head
    | cons other values =>
      cases head
      have lost := EmptyHolder.read_marked front ((writeList_head first values
        (holds.1 first List.mem_cons_self)).2 marked) ⟨first :: values⟩
      have same := (round.read_back none ⟨first :: values⟩).1
      have empty := congrArg EmptyHolder.object (same.symm.trans lost)
      exact List.cons_ne_nil _ _ empty
  | plain convertor => exact marked
  | optionalValue convertor => exact marked
  | list => exact marked

/-- A string with a hyphen inside comes back from an `EmptyHolder`. -/
theorem roundTrip_hyphen_inside :
    FieldType.RoundTrip (.emptyHolder .convertSpaces) ⟨⟨[0x61, 0x2D, 0x20]⟩⟩ :=
  (roundTrip_iff (.emptyHolder .convertSpaces) ⟨⟨[0x61, 0x2D, 0x20]⟩⟩
    (by
      change ([0x61, 0x2D, 0x20] : Bytes) ≠ [nullMarker]
      decide)).2 (by
      change ¬ ([0x61, 0x2D, 0x20] : Bytes).head? = some nullMarker
      decide)

/-- `-a` is not the marker, yet it is read as the empty string. -/
theorem not_roundTrip_hyphen_first :
    ¬ ∀ (type : FieldType) (value : type.Value), type.Holds value → type.RoundTrip value := by
  intro all
  have round := all (.emptyHolder .convertSpaces) ⟨⟨[0x2D, 0x61]⟩⟩ (by
    change ([0x2D, 0x61] : Bytes) ≠ [nullMarker]
    decide)
  have same := congrArg EmptyHolder.object (round.read_back none ⟨⟨[]⟩⟩).1
  exact absurd (congrArg StringIo.data same) (by decide)

end AdServer.LogProcessing
