import AdServer.Lib.BlockScan

/-!
# The escapes of a string

A string without escapes is a view of the text. One with escapes is copied to a
buffer that is as long as what is left of the text, and written through a
pointer, each escape expanded by itself.
-/

namespace AdServer.FastJson

open Lib.BlockScan

abbrev Text := List UInt8

def quote : UInt8 := 34
def slash : UInt8 := 47
def backslash : UInt8 := 92
def letterB : UInt8 := 98
def letterF : UInt8 := 102
def letterN : UInt8 := 110
def letterR : UInt8 := 114
def letterT : UInt8 := 116
def letterU : UInt8 := 117

/-! ## The next special byte -/

def isStringSpecial (c : UInt8) : Bool := c = quote || c = backslash

def findStringSpecialScalar (s : Text) : Text := s.dropWhile (! isStringSpecial ·)

def stringSpecialLanes (bytes : Text) : Lanes :=
  orLanes (cmpeq bytes quote) (cmpeq bytes backslash)

def findStringSpecialSse2 := scanBlocks 16 stringSpecialLanes findStringSpecialScalar
def findStringSpecialAvx2 := scanBlocks 32 stringSpecialLanes findStringSpecialSse2
def findStringSpecialAvx512bw := scanBlocks 64 stringSpecialLanes findStringSpecialAvx2

inductive Level where
  | scalar
  | sse2
  | avx2
  | avx512bw
  deriving DecidableEq

/-- The instruction sets a build has, `AD_FAST_JSON_PARSER_HAS_…`, and the level
its parser was made for. -/
structure Build where
  hasSse2 : Bool
  hasAvx2 : Bool
  hasAvx512bw : Bool
  useSimd : Bool
  level : Level

/-- `find_string_special_`. -/
def Build.findStringSpecial (build : Build) (s : Text) : Text :=
  if build.useSimd then
    if build.hasAvx512bw ∧ build.level = .avx512bw ∧ 64 ≤ s.length then
      findStringSpecialAvx512bw s
    else if build.hasAvx2 ∧ (build.level = .avx512bw ∨ build.level = .avx2) ∧ 32 ≤ s.length then
      findStringSpecialAvx2 s
    else if build.hasSse2 ∧ build.level ≠ .scalar ∧ 16 ≤ s.length then findStringSpecialSse2 s
    else findStringSpecialScalar s
  else findStringSpecialScalar s

theorem stringSpecialLanes_eq (bytes : Text) :
    stringSpecialLanes bytes = bytes.map isStringSpecial := by
  simp only [stringSpecialLanes, cmpeq, orLanes_map]
  rfl

theorem Build.findStringSpecial_eq (build : Build) (s : Text) :
    build.findStringSpecial s = s.dropWhile (! isStringSpecial ·) := by
  have sse2 := @scanBlocks_eq _ 16 _ _ _ _ stringSpecialLanes_eq fun s =>
    (rfl : findStringSpecialScalar s = _)
  have avx2 := @scanBlocks_eq _ 32 _ _ _ _ stringSpecialLanes_eq sse2
  have avx512bw := @scanBlocks_eq _ 64 _ _ _ _ stringSpecialLanes_eq avx2
  unfold Build.findStringSpecial
  split
  · split
    · exact avx512bw s
    · split
      · exact avx2 s
      · split
        · exact sse2 s
        · rfl
  · rfl

/-! ## Reading a string -/

/-- What goes wrong: the text is bad, with what is left of it, or a byte is
written behind the end of the buffer. -/
inductive StringError where
  | bad (rest : Text)
  | overrun
  deriving DecidableEq

/-- What is written of a buffer, and its size. -/
structure Out where
  written : Text
  size : Nat

def Out.put (out : Out) (bytes : Text) : Except StringError Out :=
  if out.written.length + bytes.length ≤ out.size then .ok ⟨out.written ++ bytes, out.size⟩
  else .error .overrun

def isDec (c : UInt8) : Bool := c - 48 ≤ 9

def isHex (c : UInt8) : Bool := isDec c || (c ||| 0x20) - 97 ≤ 5

def hexToInt (c : UInt8) : Nat :=
  if 97 ≤ c then (c - 97).toNat + 10
  else if 65 ≤ c then (c - 65).toNat + 10
  else (c - 48).toNat

/-- `parse_unicode_escape_`: the digits that are left, with the code so far. -/
def parseHexDigits : Nat → Nat → Text → Except StringError (Nat × Text)
  | 0, code, s => .ok (code, s)
  | _ + 1, _, [] => .error (.bad [])
  | n + 1, code, c :: rest =>
    if isHex c then parseHexDigits n (code * 16 + hexToInt c) rest else .error (.bad (c :: rest))

/-- The bytes that `append_unicode_escape_` writes for a code. -/
def unicodeBytes (code : Nat) : Text :=
  if code < 0x80 then [.ofNat code]
  else if code < 0x800 then [.ofNat (0xC0 ||| code >>> 6), .ofNat (0x80 ||| (code &&& 0x3F))]
  else [.ofNat (0xE0 ||| code >>> 12), .ofNat (0x80 ||| (code >>> 6 &&& 0x3F)),
    .ofNat (0x80 ||| (code &&& 0x3F))]

/-- What `append_escape_` writes, and what is left. -/
def escapeBytes (s : Text) : Except StringError (Text × Text) :=
  match s with
  | [] => .error (.bad [])
  | c :: rest =>
    if c = backslash ∨ c = quote ∨ c = slash then .ok ([c], rest)
    else if c = letterB then .ok ([8], rest)
    else if c = letterF then .ok ([12], rest)
    else if c = letterN then .ok ([10], rest)
    else if c = letterR then .ok ([13], rest)
    else if c = letterT then .ok ([9], rest)
    else if c = letterU then
      (parseHexDigits 4 0 rest).map fun parsed => (unicodeBytes parsed.1, parsed.2)
    else .error (.bad rest)

/-- `append_escape_`. -/
def appendEscape (out : Out) (s : Text) : Except StringError (Out × Text) :=
  match escapeBytes s with
  | .error e => .error e
  | .ok (bytes, rest) => (out.put bytes).map fun out => (out, rest)

variable {n : Nat} {s rest : Text} {out after : Out} {e : StringError}

theorem parseHexDigits_length {n code : Nat} {parsed : Nat × Text}
    (ok : parseHexDigits n code s = .ok parsed) : parsed.2.length + n = s.length := by
  induction n generalizing s code with
  | zero =>
    cases ok
    rfl
  | succ n ih =>
    cases s with
    | nil => cases ok
    | cons c rest =>
      rw [parseHexDigits] at ok
      split at ok
      · have := ih ok
        simp only [List.length_cons]
        omega
      · cases ok

theorem unicodeBytes_length (code : Nat) : (unicodeBytes code).length ≤ 3 := by
  unfold unicodeBytes
  split
  · simp
  · split <;> simp

theorem escapeBytes_length {s bytes rest : Text} (ok : escapeBytes s = .ok (bytes, rest)) :
    rest.length < s.length ∧ bytes.length + rest.length ≤ s.length := by
  cases s with
  | nil => cases ok
  | cons c later =>
    rw [escapeBytes] at ok
    by_cases code : c = letterU
    · subst code
      change (parseHexDigits 4 0 later).map _ = _ at ok
      cases parsed : parseHexDigits 4 0 later with
      | error e =>
        rw [parsed] at ok
        cases ok
      | ok digits =>
        rw [parsed] at ok
        cases ok
        have taken := parseHexDigits_length parsed
        have written := unicodeBytes_length digits.1
        simp only [List.length_cons]
        omega
    · rw [if_neg code] at ok
      have one {b : UInt8} (eq : (Except.ok ([b], later) : Except StringError _) =
          .ok (bytes, rest)) :
          rest.length < (c :: later).length ∧ bytes.length + rest.length ≤ (c :: later).length := by
        cases eq
        simp only [List.length_cons, List.length_nil]
        omega
      split_ifs at ok <;> exact one ok

theorem appendEscape_length (ok : appendEscape out s = .ok (after, rest)) :
    rest.length < s.length := by
  unfold appendEscape at ok
  cases escape : escapeBytes s with
  | error e => simp [escape] at ok
  | ok escaped =>
    obtain ⟨bytes, later⟩ := escaped
    rw [escape] at ok
    cases put : out.put bytes with
    | error e => simp [put, Except.map] at ok
    | ok out =>
      simp only [put, Except.map, Except.ok.injEq, Prod.mk.injEq] at ok
      exact ok.2 ▸ (escapeBytes_length escape).1

/-- The loop of `parse_string_tail_`. -/
def readTail (out : Out) (s : Text) : Except StringError (Out × Text) :=
  match s with
  | [] => .error (.bad [])
  | c :: rest =>
    if c = quote then .ok (out, rest)
    else if c = backslash then
      match _escape : appendEscape out rest with
      | .error e => .error e
      | .ok (out, later) => readTail out later
    else
      match out.put [c] with
      | .error e => .error e
      | .ok out => readTail out rest
termination_by s.length
decreasing_by
  · have := appendEscape_length _escape
    simp only [List.length_cons]
    omega
  · exact Nat.lt_succ_self _

/-- What `value` views: a part of the text, or the `unescaped` of its own token. The
latter dangles once the token is moved with a text so short that it lies within. -/
inductive View where
  | source (bytes : Text)
  | unescaped
  deriving DecidableEq

structure StringToken where
  value : View
  unescaped : Option Text
  escaped : Bool
  deriving DecidableEq

/-- The string that is processed: `*unescaped` of a token with escapes, and the part
of the text that another one views. -/
def StringToken.string (token : StringToken) : Option Text :=
  if token.escaped then token.unescaped
  else
    match token.value with
    | .source bytes => some bytes
    | .unescaped => none

/-- `parse_string`, after the quotation mark: the token and what is left. -/
def Build.parseString (build : Build) (s : Text) : Except StringError (StringToken × Text) :=
  match build.findStringSpecial s with
  | [] => .error (.bad [])
  | special :: rest =>
    let before := s.take (s.length - (rest.length + 1))
    if special = quote then .ok (⟨.source before, none, false⟩, rest)
    else
      match appendEscape ⟨before, before.length + rest.length⟩ rest with
      | .error e => .error e
      | .ok (out, rest) =>
        (readTail out rest).map fun read => (⟨.unescaped, some read.1.written, true⟩, read.2)

/-! ## The buffer is long enough -/

/-- What a string stands for up to its quotation mark, and what is left. -/
def decode (s : Text) : Except StringError (Text × Text) :=
  match s with
  | [] => .error (.bad [])
  | c :: rest =>
    if c = quote then .ok ([], rest)
    else if c = backslash then
      match _escape : escapeBytes rest with
      | .error e => .error e
      | .ok (bytes, later) => (decode later).map fun read => (bytes ++ read.1, read.2)
    else (decode rest).map fun read => (c :: read.1, read.2)
termination_by s.length
decreasing_by
  · have := escapeBytes_length _escape
    simp only [List.length_cons]
    omega
  · exact Nat.lt_succ_self _

theorem decode_quote (s : Text) : decode (quote :: s) = .ok ([], s) := by
  rw [decode, if_pos rfl]

theorem decode_plain {c : UInt8} (plain : isStringSpecial c = false) (s : Text) :
    decode (c :: s) = (decode s).map fun read => (c :: read.1, read.2) := by
  simp only [isStringSpecial, Bool.or_eq_false_iff, decide_eq_false_iff_not] at plain
  rw [decode, if_neg plain.1, if_neg plain.2]

theorem decode_bad (bad : escapeBytes s = .error (.bad rest)) :
    decode (backslash :: s) = .error (.bad rest) := by
  rw [decode, if_neg (by decide), if_pos rfl]
  split
  · next failed => exact failed.symm.trans bad
  · next taken => cases bad.symm.trans taken

theorem decode_escape {s bytes rest : Text} (escape : escapeBytes s = .ok (bytes, rest)) :
    decode (backslash :: s) = (decode rest).map fun read => (bytes ++ read.1, read.2) := by
  rw [decode, if_neg (by decide), if_pos rfl]
  split
  · next failed => cases escape.symm.trans failed
  · next taken =>
    cases escape.symm.trans taken
    rfl

theorem Out.put_eq {bytes : Text} (room : out.written.length + bytes.length ≤ out.size) :
    out.put bytes = .ok ⟨out.written ++ bytes, out.size⟩ := if_pos room

theorem readTail_plain {c : UInt8} (plain : isStringSpecial c = false)
    (room : out.written.length + 1 ≤ out.size) :
    readTail out (c :: rest) = readTail ⟨out.written ++ [c], out.size⟩ rest := by
  simp only [isStringSpecial, Bool.or_eq_false_iff, decide_eq_false_iff_not] at plain
  rw [readTail, if_neg plain.1, if_neg plain.2, Out.put_eq room]

theorem readTail_append (append : appendEscape out s = .ok (after, rest)) :
    readTail out (backslash :: s) = readTail after rest := by
  rw [readTail, if_neg (by decide), if_pos rfl]
  split
  · next failed => cases append.symm.trans failed
  · next taken =>
    cases append.symm.trans taken
    rfl

theorem readTail_bad (bad : appendEscape out s = .error e) :
    readTail out (backslash :: s) = .error e := by
  rw [readTail, if_neg (by decide), if_pos rfl]
  split
  · next failed => exact failed.symm.trans bad
  · next taken => cases bad.symm.trans taken

theorem appendEscape_eq {s bytes rest : Text} (escape : escapeBytes s = .ok (bytes, rest))
    (room : out.written.length + s.length ≤ out.size) :
    appendEscape out s = .ok (⟨out.written ++ bytes, out.size⟩, rest) := by
  have lengths := escapeBytes_length escape
  simp only [appendEscape, escape, Out.put_eq (by omega : out.written.length + bytes.length ≤ _)]
  rfl

theorem appendEscape_bad (escape : escapeBytes s = .error e) : appendEscape out s = .error e := by
  rw [appendEscape, escape]

theorem escapeBytes_error (escape : escapeBytes s = .error e) : ∃ rest, e = .bad rest := by
  have digits {n code : Nat} {s : Text} (failed : parseHexDigits n code s = .error e) :
      ∃ rest, e = .bad rest := by
    induction n generalizing s code with
    | zero => cases failed
    | succ n ih =>
      cases s with
      | nil =>
        cases failed
        exact ⟨_, rfl⟩
      | cons c rest =>
        rw [parseHexDigits] at failed
        split at failed
        · exact ih failed
        · cases failed
          exact ⟨_, rfl⟩
  cases s with
  | nil =>
    cases escape
    exact ⟨_, rfl⟩
  | cons c rest =>
    rw [escapeBytes] at escape
    split_ifs at escape
    · cases parsed : parseHexDigits 4 0 rest with
      | error e' =>
        rw [parsed] at escape
        cases escape
        exact digits parsed
      | ok read =>
        rw [parsed] at escape
        cases escape
    · cases escape
      exact ⟨_, rfl⟩

theorem readTail_eq (room : out.written.length + s.length ≤ out.size) :
    readTail out s = (decode s).map fun read => (⟨out.written ++ read.1, out.size⟩, read.2) := by
  induction n : s.length using Nat.strongRecOn generalizing s out with
  | ind n ih =>
    cases s with
    | nil =>
      rw [readTail, decode]
      rfl
    | cons c rest =>
      rw [List.length_cons] at room n
      by_cases at_quote : c = quote
      · rw [at_quote, decode_quote, readTail, if_pos rfl]
        simp [Except.map]
      by_cases escaped : c = backslash
      · subst escaped
        cases escape : escapeBytes rest with
        | error e =>
          obtain ⟨left, rfl⟩ := escapeBytes_error escape
          rw [decode_bad escape, readTail_bad (appendEscape_bad escape)]
          rfl
        | ok taken =>
          obtain ⟨bytes, later⟩ := taken
          have lengths := escapeBytes_length escape
          rw [decode_escape escape, readTail_append (appendEscape_eq escape (by omega)),
            ih later.length (by omega) (by simp only [List.length_append]; omega) rfl]
          cases decode later <;> simp [Except.map]
      · have plain : isStringSpecial c = false := by simp [isStringSpecial, at_quote, escaped]
        rw [decode_plain plain, readTail_plain plain (by omega),
          ih rest.length (by omega)
            (by simp only [List.length_append, List.length_singleton]; omega) rfl]
        cases decode rest <;> simp [Except.map]

theorem decode_append {plain : Text} (all : ∀ c ∈ plain, isStringSpecial c = false) (s : Text) :
    decode (plain ++ s) = (decode s).map fun read => (plain ++ read.1, read.2) := by
  induction plain with
  | nil =>
    rw [List.nil_append]
    cases decode s <;> rfl
  | cons c plain ih =>
    rw [List.cons_append, decode_plain (all c (by simp)), ih fun b mem => all b (by simp [mem])]
    cases decode s <;> rfl

/-- A string is read as if there were no buffer. -/
theorem parseString_eq (build : Build) (s : Text) :
    (build.parseString s).map (fun read => (read.1.string, read.2)) =
      (decode s).map fun read => (some read.1, read.2) := by
  have split := List.takeWhile_append_dropWhile (p := fun c => !isStringSpecial c) (l := s)
  have plain : ∀ c ∈ s.takeWhile (fun c => !isStringSpecial c), isStringSpecial c = false :=
    fun c mem => by simpa using List.mem_takeWhile_imp mem
  rw [Build.parseString, Build.findStringSpecial_eq]
  generalize s.takeWhile (fun c => !isStringSpecial c) = before at split plain
  cases found : s.dropWhile (fun c => !isStringSpecial c) with
  | nil =>
    rw [found] at split
    rw [← split, decode_append plain, decode]
    rfl
  | cons special rest =>
    rw [found] at split
    subst split
    have taken : (before ++ special :: rest).take
        ((before ++ special :: rest).length - (rest.length + 1)) = before := by
      rw [List.length_append, List.length_cons, Nat.add_sub_cancel, List.take_left]
    have is_special : isStringSpecial special = true := by
      have head := List.head?_dropWhile_not (fun c => !isStringSpecial c)
        (before ++ special :: rest)
      rw [found] at head
      simpa using head
    rw [decode_append plain]
    simp only [taken]
    split
    · next at_quote =>
      rw [at_quote, decode_quote]
      simp [Except.map, StringToken.string]
    · next not_quote =>
      have escaped : special = backslash := by
        simpa [isStringSpecial, not_quote] using is_special
      subst escaped
      cases escape : escapeBytes rest with
      | error e =>
        obtain ⟨left, rfl⟩ := escapeBytes_error escape
        rw [decode_bad escape, appendEscape_bad escape]
        rfl
      | ok taken =>
        obtain ⟨bytes, later⟩ := taken
        have lengths := escapeBytes_length escape
        rw [decode_escape escape, appendEscape_eq escape le_rfl]
        simp only
        rw [readTail_eq (by simp only [List.length_append]; omega)]
        cases decode later <;> simp [Except.map, StringToken.string]

/-- Only a token without escapes views the text. -/
theorem parseString_view {build : Build} {token : StringToken}
    (read : build.parseString s = .ok (token, rest)) :
    token.escaped = token.unescaped.isSome ∧
      (token.escaped = true ↔ token.value = .unescaped) := by
  rw [Build.parseString] at read
  split at read
  · cases read
  · dsimp only at read
    split at read
    · cases read
      exact ⟨rfl, by simp⟩
    · split at read
      · cases read
      · next out later _ =>
        cases tail : readTail out later with
        | error e => simp [tail, Except.map] at read
        | ok tail' =>
          rw [tail] at read
          cases read
          exact ⟨rfl, by simp⟩

theorem decode_ne_overrun (s : Text) : decode s ≠ .error .overrun := by
  induction size : s.length using Nat.strongRecOn generalizing s with
  | ind n ih =>
    have later {α : Type} {rest : Text} {f : Text × Text → α} (shorter : rest.length < n) :
        (decode rest).map f ≠ .error .overrun := by
      have step := ih rest.length shorter rest rfl
      cases read : decode rest with
      | error e => simpa [Except.map, read] using step
      | ok read => simp [Except.map]
    cases s with
    | nil =>
      rw [decode]
      simp
    | cons c rest =>
      rw [List.length_cons] at size
      by_cases at_quote : c = quote
      · rw [at_quote, decode_quote]
        simp
      by_cases escaped : c = backslash
      · subst escaped
        cases escape : escapeBytes rest with
        | error e =>
          obtain ⟨left, rfl⟩ := escapeBytes_error escape
          rw [decode_bad escape]
          simp
        | ok taken =>
          rw [decode_escape escape]
          have lengths := escapeBytes_length escape
          exact later (by omega)
      · rw [decode_plain (by simp [isStringSpecial, at_quote, escaped])]
        exact later (by omega)

/-! ## Literals -/

/-- `HEXDIG`. -/
abbrev HexDigit :=
  { c : UInt8 // 48 ≤ c ∧ c ≤ 57 ∨ 97 ≤ c ∧ c ≤ 102 ∨ 65 ≤ c ∧ c ≤ 70 }

def HexDigit.value (digit : HexDigit) : Nat :=
  if digit.val ≤ 57 then digit.val.toNat - 48
  else if digit.val ≤ 70 then digit.val.toNat - 65 + 10
  else digit.val.toNat - 97 + 10

/-- What may stand behind a backslash, but for a code. -/
inductive Escape where
  | quotationMark
  | reverseSolidus
  | solidus
  | backspace
  | formFeed
  | lineFeed
  | carriageReturn
  | tab
  deriving DecidableEq

def Escape.letter : Escape → UInt8
  | .quotationMark => quote
  | .reverseSolidus => backslash
  | .solidus => slash
  | .backspace => letterB
  | .formFeed => letterF
  | .lineFeed => letterN
  | .carriageReturn => letterR
  | .tab => letterT

def Escape.value : Escape → Nat
  | .quotationMark => 34
  | .reverseSolidus => 92
  | .solidus => 47
  | .backspace => 8
  | .formFeed => 12
  | .lineFeed => 10
  | .carriageReturn => 13
  | .tab => 9

/-- Four hexadecimal digits. -/
structure Code where
  first : HexDigit
  second : HexDigit
  third : HexDigit
  fourth : HexDigit

def Code.value (code : Code) : Nat :=
  ((code.first.value * 16 + code.second.value) * 16 + code.third.value) * 16 + code.fourth.value

def Code.print (code : Code) : Text :=
  [backslash, letterU, code.first.val, code.second.val, code.third.val, code.fourth.val]

/-- A scalar value as it is spelled in a literal. -/
inductive Spelled where
  | raw (c : Char) (plain : c.toNat ≠ 34 ∧ c.toNat ≠ 92)
  | short (escape : Escape)
  | unicode (code : Code) (scalar : code.value < 0xD800 ∨ 0xDFFF < code.value)
  | pair (high low : Code) (isHigh : 0xD800 ≤ high.value ∧ high.value < 0xDC00)
    (isLow : 0xDC00 ≤ low.value ∧ low.value < 0xE000)

namespace Spelled

def char : Spelled → Char
  | raw c _ => c
  | short escape => .ofNat escape.value
  | unicode code _ => .ofNat code.value
  | pair high low _ _ => .ofNat (0x10000 + (high.value - 0xD800) * 0x400 + (low.value - 0xDC00))

def print : Spelled → Text
  | raw c _ => String.utf8EncodeChar c
  | short escape => [backslash, escape.letter]
  | unicode code _ => code.print
  | pair high low _ _ => high.print ++ low.print

def isPair : Spelled → Bool
  | pair .. => true
  | _ => false

/-- What the parser makes of it: a code is encoded by itself, also half of a pair. -/
def bytes : Spelled → Text
  | raw c _ => String.utf8EncodeChar c
  | short escape => [.ofNat escape.value]
  | unicode code _ => unicodeBytes code.value
  | pair high low _ _ => unicodeBytes high.value ++ unicodeBytes low.value

end Spelled

abbrev Literal := List Spelled

/-- A literal without its quotation marks, and the encoding of what it denotes. -/
def Literal.print (literal : Literal) : Text := literal.flatMap Spelled.print

def Literal.utf8 (literal : Literal) : Text :=
  (literal.map Spelled.char).flatMap String.utf8EncodeChar

/-- What stands behind a backslash is cut off, or is the letter of a code without
four digits behind it. -/
def BadEscape (s : Text) : Prop :=
  s = [] ∨ ∃ rest, s = letterU :: rest ∧ ∀ (code : Code) (later : Text),
    backslash :: letterU :: rest ≠ code.print ++ later

theorem forall_byte {p : UInt8 → Prop} (all : ∀ n : Fin 256, p (.ofFin n)) (c : UInt8) : p c :=
  all c.toFin

theorem isHex_iff (c : UInt8) :
    isHex c = true ↔ 48 ≤ c ∧ c ≤ 57 ∨ 97 ≤ c ∧ c ≤ 102 ∨ 65 ≤ c ∧ c ≤ 70 := by
  revert c
  apply forall_byte
  decide +kernel

theorem HexDigit.isHex (digit : HexDigit) : FastJson.isHex digit.val = true :=
  (isHex_iff _).2 digit.property

theorem HexDigit.hexToInt (digit : HexDigit) :
    FastJson.hexToInt digit.val = digit.value ∧ digit.value < 16 := by
  have all : ∀ c : UInt8, FastJson.isHex c = true →
      FastJson.hexToInt c = (if c ≤ 57 then c.toNat - 48
        else if c ≤ 70 then c.toNat - 65 + 10 else c.toNat - 97 + 10) ∧
      FastJson.hexToInt c < 16 := by
    apply forall_byte
    decide +kernel
  obtain ⟨eq, lt⟩ := all _ digit.isHex
  exact ⟨eq, lt_of_eq_of_lt eq.symm lt⟩

theorem parseHexDigits_cons {n code : Nat} (digit : HexDigit) (s : Text) :
    parseHexDigits (n + 1) code (digit.val :: s) =
      parseHexDigits n (code * 16 + digit.value) s := by
  rw [parseHexDigits, if_pos digit.isHex, digit.hexToInt.1]

theorem Code.value_lt (code : Code) : code.value < 0x10000 := by
  have first := code.first.hexToInt.2
  have second := code.second.hexToInt.2
  have third := code.third.hexToInt.2
  have fourth := code.fourth.hexToInt.2
  unfold Code.value
  omega

theorem escapeBytes_code (code : Code) (s : Text) :
    escapeBytes (letterU :: code.first.val :: code.second.val :: code.third.val ::
      code.fourth.val :: s) = .ok (unicodeBytes code.value, s) := by
  change (parseHexDigits 4 0 _).map _ = _
  rw [parseHexDigits_cons, parseHexDigits_cons, parseHexDigits_cons, parseHexDigits_cons,
    Nat.zero_mul, Nat.zero_add]
  rfl

theorem escapeBytes_bad (bad : BadEscape s) : ∃ rest, escapeBytes s = .error (.bad rest) := by
  obtain rfl | ⟨rest, rfl, no_code⟩ := bad
  · exact ⟨[], rfl⟩
  · cases escape : escapeBytes (letterU :: rest) with
    | error e =>
      obtain ⟨left, rfl⟩ := escapeBytes_error escape
      exact ⟨left, rfl⟩
    | ok taken =>
      exfalso
      have digit {n code : Nat} {s : Text} {read : Nat × Text}
          (ok : parseHexDigits (n + 1) code s = .ok read) :
          ∃ (digit : HexDigit) (code' : Nat) (later : Text), s = digit.val :: later ∧
            parseHexDigits n code' later = .ok read := by
        cases s with
        | nil => cases ok
        | cons c later =>
          rw [parseHexDigits] at ok
          split at ok
          · next hex => exact ⟨⟨c, (isHex_iff c).1 hex⟩, _, later, rfl, ok⟩
          · cases ok
      change (parseHexDigits 4 0 rest).map _ = _ at escape
      cases parsed : parseHexDigits 4 0 rest with
      | error e =>
        rw [parsed] at escape
        cases escape
      | ok read =>
        obtain ⟨a, _, _, rfl, three⟩ := digit parsed
        obtain ⟨b, _, _, rfl, two⟩ := digit three
        obtain ⟨c, _, _, rfl, one⟩ := digit two
        obtain ⟨d, _, later, rfl, -⟩ := digit one
        exact no_code ⟨a, b, c, d⟩ later rfl

theorem unicodeBytes_eq (small : n < 0x10000) :
    unicodeBytes n = if n ≤ 0x7F then [.ofNat n]
      else if n ≤ 0x7FF then [.ofNat (n / 64 % 32 + 0xC0), .ofNat (n % 64 + 0x80)]
      else [.ofNat (n / 4096 % 16 + 0xE0), .ofNat (n / 64 % 64 + 0x80),
        .ofNat (n % 64 + 0x80)] := by
  have low (m : Nat) : 0x80 ||| (m &&& 0x3F) = m % 64 + 0x80 := by
    rw [Nat.and_two_pow_sub_one_eq_mod m 6]
    have bound : m % 2 ^ 6 < 2 ^ 6 := Nat.mod_lt _ (by decide)
    refine (Nat.two_pow_add_eq_or_of_lt bound 2).symm.trans ?_
    omega
  unfold unicodeBytes
  by_cases one : n < 0x80
  · rw [if_pos one, if_pos (by omega)]
  rw [if_neg one, if_neg (by omega : ¬ n ≤ 0x7F)]
  by_cases two : n < 0x800
  · have high : 0xC0 ||| n >>> 6 = n / 64 % 32 + 0xC0 := by
      rw [Nat.shiftRight_eq_div_pow]
      have bound : n / 2 ^ 6 < 2 ^ 6 := by omega
      refine (Nat.two_pow_add_eq_or_of_lt bound 3).symm.trans ?_
      omega
    rw [if_pos two, if_pos (by omega), low, high]
  · have high : 0xE0 ||| n >>> 12 = n / 4096 % 16 + 0xE0 := by
      rw [Nat.shiftRight_eq_div_pow]
      have bound : n / 2 ^ 12 < 2 ^ 5 := by omega
      refine (Nat.two_pow_add_eq_or_of_lt bound 7).symm.trans ?_
      omega
    rw [if_neg two, if_neg (by omega), low, low, high, Nat.shiftRight_eq_div_pow]

theorem val_ofNat (valid : n.isValidChar) : (Char.ofNat n).val.toNat = n := by
  rw [Char.ofNat, dif_pos valid]
  rfl

theorem utf8_unicode (small : n < 0x10000) (scalar : n < 0xD800 ∨ 0xDFFF < n) :
    unicodeBytes n = String.utf8EncodeChar (.ofNat n) := by
  have valid : n.isValidChar := scalar.imp_right fun high => ⟨high, by omega⟩
  rw [unicodeBytes_eq small]
  simp only [String.utf8EncodeChar, val_ofNat valid]
  rw [if_pos (by omega : n ≤ 0xFFFF)]

/-- No byte of a longer encoding is a quotation mark or a backslash. -/
theorem utf8_plain {c : Char} (plain : c.toNat ≠ 34 ∧ c.toNat ≠ 92) :
    ∀ b ∈ String.utf8EncodeChar c, isStringSpecial b = false := by
  have ordinary {n : Nat} (small : n < 256) (other : n ≠ 34 ∧ n ≠ 92) :
      isStringSpecial (.ofNat n) = false := by
    have value : (UInt8.ofNat n).toNat = n := UInt8.toNat_ofNat_of_lt' small
    simp only [isStringSpecial, Bool.or_eq_false_iff, decide_eq_false_iff_not, ← UInt8.toNat_inj,
      value]
    exact other
  have same : c.val.toNat = c.toNat := rfl
  simp only [String.utf8EncodeChar, same]
  split
  · simp only [List.mem_singleton, forall_eq]
    exact ordinary (by omega) plain
  · split
    · simp only [List.mem_cons, List.not_mem_nil, or_false, forall_eq_or_imp, forall_eq]
      exact ⟨ordinary (by omega) (by omega), ordinary (by omega) (by omega)⟩
    · split
      · simp only [List.mem_cons, List.not_mem_nil, or_false, forall_eq_or_imp, forall_eq]
        exact ⟨ordinary (by omega) (by omega), ordinary (by omega) (by omega),
          ordinary (by omega) (by omega)⟩
      · simp only [List.mem_cons, List.not_mem_nil, or_false, forall_eq_or_imp, forall_eq]
        exact ⟨ordinary (by omega) (by omega), ordinary (by omega) (by omega),
          ordinary (by omega) (by omega), ordinary (by omega) (by omega)⟩

theorem bytes_of_single {spelled : Spelled} (single : spelled.isPair = false) :
    spelled.bytes = String.utf8EncodeChar spelled.char := by
  cases spelled with
  | raw c plain => rfl
  | short escape => cases escape <;> rfl
  | unicode code scalar => exact utf8_unicode code.value_lt scalar
  | pair high low isHigh isLow => cases single

/-- A pair is written as two codes of three bytes, where its value has four. -/
theorem length_bytes (spelled : Spelled) :
    spelled.bytes.length = (String.utf8EncodeChar spelled.char).length +
      if spelled.isPair then 2 else 0 := by
  cases spelled with
  | pair high low isHigh isLow =>
    have three {n : Nat} (surrogate : 0xD800 ≤ n) : (unicodeBytes n).length = 3 := by
      rw [unicodeBytes, if_neg (by omega), if_neg (by omega)]
      rfl
    have value := @val_ofNat (0x10000 + (high.value - 0xD800) * 0x400 + (low.value - 0xDC00))
      (.inr (by omega))
    simp only [Spelled.bytes, Spelled.isPair, Spelled.char, List.length_append,
      three isHigh.1, three (by omega : 0xD800 ≤ low.value), String.utf8EncodeChar, value]
    rw [if_neg (by omega), if_neg (by omega), if_neg (by omega)]
    rfl
  | _ => rw [bytes_of_single rfl]; rfl

theorem bytes_eq_utf8_iff (literal : Literal) :
    literal.flatMap Spelled.bytes = literal.utf8 ↔ ∀ spelled ∈ literal, spelled.isPair = false := by
  have length_le : ∀ literal : Literal,
      literal.utf8.length ≤ (literal.flatMap Spelled.bytes).length := by
    intro literal
    induction literal with
    | nil => exact le_rfl
    | cons spelled rest ih =>
      have own := length_bytes spelled
      simp only [Literal.utf8, List.map_cons, List.flatMap_cons, List.length_append] at ih ⊢
      omega
  constructor
  · intro same
    induction literal with
    | nil => simp
    | cons spelled rest ih =>
      have own := length_bytes spelled
      have others := length_le rest
      have lengths := congrArg List.length same
      simp only [Literal.utf8, List.map_cons, List.flatMap_cons, List.length_append]
        at lengths others
      have single : spelled.isPair = false := by
        by_contra pair
        rw [if_pos (by simpa using pair)] at own
        omega
      rw [Literal.utf8, List.flatMap_cons, List.map_cons, List.flatMap_cons,
        bytes_of_single single] at same
      exact List.forall_mem_cons.2 ⟨single, ih (List.append_cancel_left same)⟩
  · intro single
    rw [Literal.utf8, List.flatMap_map]
    exact List.flatMap_congr fun spelled mem => bytes_of_single (single spelled mem)

theorem decode_spelled (spelled : Spelled) (rest : Text) :
    decode (spelled.print ++ rest) =
      (decode rest).map fun read => (spelled.bytes ++ read.1, read.2) := by
  cases spelled with
  | raw c plain => exact decode_append (utf8_plain plain) rest
  | short escape =>
    have taken : escapeBytes (escape.letter :: rest) = .ok ([.ofNat escape.value], rest) := by
      cases escape <;> rfl
    exact decode_escape taken
  | unicode code scalar => exact decode_escape (escapeBytes_code code rest)
  | pair high low isHigh isLow =>
    have second := decode_escape (escapeBytes_code low rest)
    refine (decode_escape (escapeBytes_code high (low.print ++ rest))).trans ?_
    rw [Code.print, List.cons_append, List.cons_append]
    refine (congrArg _ second).trans ?_
    cases decode rest <;> simp [Except.map, Spelled.bytes]

theorem decode_literal (literal : Literal) (rest : Text) :
    decode (literal.print ++ rest) =
      (decode rest).map fun read => (literal.flatMap Spelled.bytes ++ read.1, read.2) := by
  induction literal with
  | nil => cases decoded : decode rest <;> simp [Literal.print, decoded, Except.map]
  | cons spelled literal ih =>
    rw [Literal.print, List.flatMap_cons, List.append_assoc, decode_spelled, ← Literal.print, ih]
    cases decode rest <;> simp [Except.map]

theorem map_parseString_literal (build : Build) (literal : Literal) (rest : Text) :
    (build.parseString (literal.print ++ quote :: rest)).map
      (fun read => (read.1.string, read.2)) = .ok (some (literal.flatMap Spelled.bytes), rest) := by
  rw [parseString_eq, decode_literal, decode_quote]
  simp [Except.map]

theorem map_error_iff {A B : Type} {f : A → B} {read : Except StringError A} :
    read.map f = .error e ↔ read = .error e := by
  cases read <;> simp [Except.map]

theorem parseString_error {build : Build} : build.parseString s = .error e ↔ decode s = .error e := by
  rw [← map_error_iff, parseString_eq, map_error_iff]

/-- A literal is read as the encoding of its scalar values if no value is spelled
as a pair of codes. Nothing is written behind the buffer whatever the text, and
bad escapes are rejected. -/
theorem parseString_spelled (build : Build) :
    (∀ (literal : Literal) (rest : Text),
      (build.parseString (literal.print ++ quote :: rest)).map
        (fun read => (read.1.string, read.2)) = .ok (some literal.utf8, rest) ↔
      ∀ spelled ∈ literal, spelled.isPair = false) ∧
    (∀ s : Text, build.parseString s ≠ .error .overrun) ∧
    ∀ (literal : Literal) (s : Text), BadEscape s →
      ∃ rest, build.parseString (literal.print ++ backslash :: s) = .error (.bad rest) := by
  refine ⟨fun literal rest => ?_, fun s failed => ?_, fun literal s bad => ?_⟩
  · rw [map_parseString_literal, ← bytes_eq_utf8_iff]
    simp
  · exact decode_ne_overrun s (parseString_error.1 failed)
  · obtain ⟨rest, escape⟩ := escapeBytes_bad bad
    have decoded := decode_literal literal (backslash :: s)
    rw [decode_bad escape] at decoded
    exact ⟨rest, parseString_error.2 decoded⟩

/-- A parser without the vector instructions. -/
def scalarBuild : Build := ⟨false, false, false, false, .scalar⟩

/-- U+1F600, spelled by its surrogates. -/
def grinning : Spelled :=
  .pair ⟨⟨100, by decide⟩, ⟨56, by decide⟩, ⟨51, by decide⟩, ⟨100, by decide⟩⟩
    ⟨⟨100, by decide⟩, ⟨101, by decide⟩, ⟨48, by decide⟩, ⟨48, by decide⟩⟩ (by decide) (by decide)

/-- It comes out as six bytes. -/
theorem pair_not_joined :
    ¬ ∀ (build : Build) (literal : Literal) (rest : Text),
      (build.parseString (literal.print ++ quote :: rest)).map
        (fun read => (read.1.string, read.2)) = .ok (some literal.utf8, rest) := by
  intro all_exact
  have exact_bytes := all_exact scalarBuild [grinning] []
  rw [map_parseString_literal, Except.ok.injEq] at exact_bytes
  exact absurd exact_bytes (by decide)

end AdServer.FastJson
