import AdServer.Lib.Nesting
import Mathlib.Algebra.Order.BigOperators.Group.List

/-!
# Parsing channel expressions

Brackets that open at the beginning and close at the end are counted from both ends,
and as many of them as stay open to the end are cut off. The rest is split by its
loosest operator.
-/

namespace AdServer.CampaignServer

open AdServer.Lib

/-- What the parser takes from outside: `String::StringManip::trim`, and the extraction of
a channel id by `Stream::Parser`, with whether the text ended there. -/
structure Streams where
  trim : List Char → List Char
  extract : List Char → Option (Nat × Bool)

/-- The spaces of `std::isspace`. -/
def isSpace (c : Char) : Bool := [' ', '\t', '\n', '\x0b', '\x0c', '\r'].contains c

structure Streams.Lawful (lib : Streams) : Prop where
  trim : ∀ text, lib.trim text = (text.dropWhile isSpace).rdropWhile isSpace
  extract : ∀ channelId < 2 ^ 64,
    lib.extract (Nat.toDigits 10 channelId) = some (channelId, true)

/-- How a parse ends without a tree: by an exception, or in what the language leaves
undefined, a read outside of the string or an overflow of an `int`. -/
inductive Failure
  | thrown
  | outside
  deriving DecidableEq

def intLimit : Int := 2 ^ 31

def bracket (c : Char) : Int := if c = '(' then 1 else if c = ')' then -1 else 0

/-- Search of the count of brackets that opened at begin and closed at end, over the
characters from `border_it` to `rev_border_it`. -/
def pairBrackets (window : List Char) (count : Int) : Except Failure (List Char × Int) :=
  match window with
  | [] => .ok ([], count)
  | c :: rest =>
    if rest = [] then .ok ([c], count)
    else if isSpace c then pairBrackets rest count
    else if c = '(' then
      if rest.rdropWhile isSpace = [] then .error .thrown
      else if (rest.rdropWhile isSpace).getLast? = some ')' then
        if count + 1 = intLimit then .error .outside
        else if (rest.rdropWhile isSpace).dropLast = [] then .ok ([c], count + 1)
        else pairBrackets (rest.rdropWhile isSpace).dropLast (count + 1)
      else .ok (c :: rest.rdropWhile isSpace, count)
    else .ok (c :: rest, count)
termination_by window.length
decreasing_by
  · exact Nat.lt_succ_self _
  · have := (List.rdropWhile_prefix isSpace rest).length_le
    simp only [List.length_dropLast, List.length_cons]
    omega

/-- The least bracket count, the last character left out. A count below zero stays there,
so that its underflow is not looked at. -/
def bracketCountMin : List Char → Int → Int → Except Failure Int
  | [], _, least => .ok least
  | c :: rest, count, least =>
    if rest = [] then .ok least
    else if c = '(' then
      if count + 1 = intLimit then .error .outside
      else bracketCountMin rest (count + 1) least
    else if c = ')' then bracketCountMin rest (count - 1) (min least (count - 1))
    else bracketCountMin rest count least

/-- Clears excess brackets at end, and then at begin. -/
def clearExcess (expression : List Char) (count : Int) : Option (List Char) := do
  let left ← skip ')' expression.reverse count
  skip '(' left.reverse count

def removeBorderParenthesis (expression : List Char) : Except Failure (List Char) :=
  if expression = [] then .ok expression
  else do
    let (window, count) ← pairBrackets expression 0
    let least ← bracketCountMin window count count
    if least = 0 then return expression
    match clearExcess expression least with
    | some left => return left
    | none => throw .outside

inductive Operation
  | or
  | and
  | andNot
  deriving DecidableEq

def Operation.sign : Operation → Char
  | .or => '|'
  | .and => '&'
  | .andNot => '^'

/-- `NonLinkedExpressionChannel::Expression` -/
inductive NonLinkedExpression
  | nop (channelId : Nat)
  | node (op : Operation) (subChannels : List NonLinkedExpression)

/-- The parts of a text at a sign outside of brackets, by an unsigned count. -/
def splitTop (sign : Char) : List Char → Int → List (List Char)
  | [], _ => [[]]
  | c :: rest, count =>
    if c = sign ∧ count % 2 ^ 32 = 0 then [] :: splitTop sign rest count
    else (splitTop sign rest (count + bracket c)).modifyHead (c :: ·)

/-- `parse_op_` up to its operands: their texts, or none for false. -/
def parseOp (expression : List Char) (op : Operation) :
    Except Failure (Option (List (List Char))) :=
  if expression = [] then .error .thrown
  else if expression.head? = some op.sign then .error .thrown
  else
    match splitTop op.sign expression 0 with
    | [_] => .ok none
    | operands => .ok (some operands)

/-- The first operation of which `parse_op_` is true. -/
def parseOps (expression : List Char) :
    List Operation → Except Failure (Option (Operation × List (List Char)))
  | [] => .ok none
  | op :: ops => do
    match ← parseOp expression op with
    | some operands => return some (op, operands)
    | none => parseOps expression ops

def operations : List Operation := [.or, .and, .andNot]

/-- `fuel` stays above the length. -/
def parseExpr (lib : Streams) : Nat → List Char → Except Failure NonLinkedExpression
  | 0, _ => .error .outside
  | fuel + 1, expression => do
    let expression := lib.trim (← removeBorderParenthesis expression)
    match ← parseOps expression operations with
    | some (op, operands) => return .node op (← operands.mapM (parseExpr lib fuel))
    | none =>
      match lib.extract expression with
      | some (channelId, true) => return .nop channelId
      | _ => throw .thrown

def parse (lib : Streams) (expression : List Char) : Except Failure NonLinkedExpression :=
  parseExpr lib (expression.length + 1) expression

/-- What `pairBrackets` leaves of a string. An opening bracket that it pairs with no
character in between is still in its window. -/
structure Paired (expression : List Char) (start : Int) (window : List Char) (count : Int)
    (front inner back : List Char) : Prop where
  split : expression = front ++ inner ++ back
  inner : inner ≠ [] → window = inner
  opening : ∀ c ∈ front, isSpace c ∨ c = '('
  closing : ∀ c ∈ back, isSpace c ∨ c = ')'
  opened : (front.count '(' : Int) = count - start
  closed : (back.count ')' : Int) = count - start
  bounded : start < intLimit → count < intLimit

theorem space_ne {c : Char} (space : isSpace c) : c ≠ '(' ∧ c ≠ ')' := by
  constructor <;> (rintro rfl; exact absurd space (by decide))

variable {spaces text window left : List Char} {start count least : Int} {lib : Streams}

theorem count_spaces (all : ∀ c ∈ spaces, isSpace c) : spaces.count ')' = 0 :=
  List.count_eq_zero.2 fun mem => (space_ne (all _ mem)).2 rfl

theorem rdropWhile_spaces (text : List Char) :
    ∃ spaces, (∀ c ∈ spaces, isSpace c) ∧ text = text.rdropWhile isSpace ++ spaces :=
  ⟨text.rtakeWhile isSpace, fun _ => List.mem_rtakeWhile_imp,
    (List.rdropWhile_append_rtakeWhile (p := isSpace)).symm⟩

theorem closed_end (last : (text.rdropWhile isSpace).getLast? = some ')') :
    ∃ spaces, (∀ c ∈ spaces, isSpace c) ∧
      text = (text.rdropWhile isSpace).dropLast ++ ')' :: spaces := by
  obtain ⟨spaces, all, eq⟩ := rdropWhile_spaces text
  refine ⟨spaces, all, eq.trans ?_⟩
  obtain ⟨some, last⟩ := List.getLast?_eq_some_iff.1 last
  rw [last, List.dropLast_concat, List.append_assoc, List.singleton_append]

theorem Paired.pair {text window front inner back spaces : List Char}
    (paired : Paired text (start + 1) window count front inner back) (all : ∀ c ∈ spaces, isSpace c)
    (limit : start + 1 ≠ intLimit) :
    Paired ('(' :: (text ++ ')' :: spaces)) start window count
      ('(' :: front) inner (back ++ ')' :: spaces) where
  split := by rw [paired.split]; simp
  inner := paired.inner
  opening := List.forall_mem_cons.2 ⟨.inr rfl, paired.opening⟩
  closing := List.forall_mem_append.2
    ⟨paired.closing, List.forall_mem_cons.2 ⟨.inr rfl, fun c mem => .inl (all c mem)⟩⟩
  opened := by
    have opened := paired.opened
    rw [List.count_cons_self]
    omega
  closed := by
    have closed := paired.closed
    rw [List.count_append, List.count_cons_self, count_spaces all]
    omega
  bounded := fun low => paired.bounded (by omega)

theorem pairBrackets_ok {expression window : List Char}
    (eq : pairBrackets expression start = .ok (window, count)) :
    ∃ front inner back, Paired expression start window count front inner back := by
  fun_induction pairBrackets expression start with
  | case1 n =>
    cases eq
    exact ⟨[], [], [], by constructor <;> simp⟩
  | case2 n c =>
    cases eq
    exact ⟨[], [c], [], by constructor <;> simp⟩
  | case3 n c rest some space ih =>
    obtain ⟨front, inner, back, paired⟩ := ih eq
    refine ⟨c :: front, inner, back, { paired with split := ?_, opening := ?_, opened := ?_ }⟩
    · rw [paired.split, List.cons_append, List.cons_append]
    · exact List.forall_mem_cons.2 ⟨.inl space, paired.opening⟩
    · rw [List.count_cons_of_ne (space_ne space).1, paired.opened]
  | case4 | case5 => cases eq
  | case6 n rest _ _ last limit nil =>
    cases eq
    obtain ⟨spaces, all, rest_eq⟩ := closed_end last
    have empty : Paired [] (n + 1) ['('] (n + 1) [] [] [] := by constructor <;> simp
    rw [rest_eq, nil]
    exact ⟨_, _, _, empty.pair all limit⟩
  | case7 n rest _ _ last limit _ _ ih =>
    obtain ⟨front, inner, back, paired⟩ := ih eq
    obtain ⟨spaces, all, rest_eq⟩ := closed_end last
    rw [rest_eq]
    exact ⟨_, _, _, paired.pair all limit⟩
  | case8 n rest =>
    cases eq
    obtain ⟨spaces, all, rest_eq⟩ := rdropWhile_spaces rest
    refine ⟨[], '(' :: rest.rdropWhile isSpace, spaces, ?_, fun _ => rfl, ?_, ?_, ?_, ?_, id⟩
    · rw [List.nil_append, List.cons_append, ← rest_eq]
    · simp
    · exact fun c mem => .inl (all c mem)
    · simp
    · rw [count_spaces all]; simp
  | case9 n c rest _ _ _ =>
    cases eq
    exact ⟨[], c :: rest, [], by constructor <;> simp⟩

theorem pairBrackets_thrown {expression : List Char}
    (eq : pairBrackets expression start = .error .thrown) :
    ∀ c ∈ expression, isSpace c ∨ c = '(' ∨ c = ')' := by
  fun_induction pairBrackets expression start with
  | case1 | case2 | case5 | case6 | case8 | case9 => cases eq
  | case3 n c rest some space ih =>
    exact List.forall_mem_cons.2 ⟨.inl space, ih eq⟩
  | case4 n rest _ nil =>
    have spaces := List.rdropWhile_eq_nil_iff.1 nil
    exact List.forall_mem_cons.2 ⟨.inr (.inl rfl), fun c mem => .inl (spaces c mem)⟩
  | case7 n rest _ _ last limit _ _ ih =>
    obtain ⟨spaces, all, rest_eq⟩ := closed_end last
    rw [rest_eq]
    intro c mem
    simp only [List.mem_cons, List.mem_append] at mem
    rcases mem with rfl | mem | rfl | mem
    · exact .inr (.inl rfl)
    · exact ih eq c mem
    · exact .inr (.inr rfl)
    · exact .inl (all c mem)

/-- What comes of `bracketCountMin`: the least depth before a character, or an overflow. -/
def IsCountMin (window : List Char) (count least : Int) : Except Failure Int → Prop
  | .ok result =>
    Along bracket (fun d _ => result ≤ d ∧ d < intLimit) count window ∧ result ≤ least ∧
      ∀ k ≤ least, Along bracket (fun d _ => k ≤ d) count window → k ≤ result
  | .error e => e = .outside ∧ ¬ Along bracket (fun d _ => d < intLimit) count window

theorem IsCountMin.cons {c : Char} {rest : List Char} {result : Except Failure Int}
    (some : rest ≠ []) (low : least ≤ count) (bounded : count < intLimit)
    (spec : IsCountMin rest (count + bracket c) (min least (count + bracket c)) result) :
    IsCountMin (c :: rest) count least result := by
  cases result with
  | error e => exact ⟨spec.1, fun along => spec.2 along.2⟩
  | ok result =>
    obtain ⟨along, le, greatest⟩ := spec
    have := le_min_iff.1 le
    refine ⟨⟨⟨by omega, bounded⟩, along⟩, this.1, ?_⟩
    intro k lower along
    obtain ⟨next, rest, rfl⟩ := List.exists_cons_of_ne_nil some
    exact greatest k (le_min lower along.2.1) along.2

theorem bracketCountMin_spec (low : least ≤ count) (bounded : count < intLimit) :
    IsCountMin window count least (bracketCountMin window count least) := by
  fun_induction bracketCountMin window count least with
  | case1 => exact ⟨trivial, le_rfl, fun _ le _ => le⟩
  | case2 => exact ⟨⟨⟨low, bounded⟩, trivial⟩, le_rfl, fun _ le _ => le⟩
  | case3 rest count least some limit =>
    refine ⟨rfl, fun along => ?_⟩
    obtain ⟨next, rest, rfl⟩ := List.exists_cons_of_ne_nil some
    exact absurd along.2.1 (by simp [bracket, limit])
  | case4 rest count least some _ ih =>
    apply IsCountMin.cons some low bounded
    rw [show bracket '(' = 1 from rfl, min_eq_left (by omega)]
    exact ih (by omega) (by omega)
  | case5 rest count least some _ ih =>
    apply IsCountMin.cons some low bounded
    exact ih (min_le_right _ _) (by omega)
  | case6 c rest count least some opening closing ih =>
    apply IsCountMin.cons some low bounded
    rw [bracket, if_neg opening, if_neg closing, add_zero, min_eq_left low]
    exact ih low bounded

theorem clearExcess_of_count {front back : List Char} (inner : List Char) (pos : 0 < count)
    (opened : count ≤ front.count '(') (closed : count ≤ back.count ')') :
    ∃ opening closing, opening <:+ front ∧ closing <+: back ∧
      (opening.count '(' : Int) = front.count '(' - count ∧
      (closing.count ')' : Int) = back.count ')' - count ∧
      clearExcess (front ++ inner ++ back) count = some (opening ++ inner ++ closing) := by
  obtain ⟨left, suffix, left_count, skipped⟩ :=
    skip_append (front ++ inner).reverse pos
      (by rwa [List.count_reverse] : count ≤ back.reverse.count ')')
  obtain ⟨opening, suffix', opening_count, skipped'⟩ :=
    skip_append (inner ++ left.reverse) pos opened
  refine ⟨opening, left.reverse, suffix', ?_, opening_count, ?_, ?_⟩
  · rwa [← List.reverse_suffix, List.reverse_reverse]
  · rw [List.count_reverse, left_count, List.count_reverse]
  · rw [clearExcess, List.reverse_append, skipped]
    simp [skipped']

/-- The string is left: by as many brackets as overflow the count, or by a character
behind more closing than opening ones. -/
def OverrunsBorder (expression : List Char) : Prop :=
  match pairBrackets expression 0 with
  | .ok (window, count) => ¬ Along bracket (fun d _ => 0 ≤ d ∧ d < intLimit) count window
  | .error e => e = .outside

theorem removeBorderParenthesis_spec (expression : List Char) :
    match removeBorderParenthesis expression with
    | .ok left => ¬ OverrunsBorder expression ∧ left.length ≤ expression.length
    | .error e => e = .outside ↔ OverrunsBorder expression := by
  by_cases nil : expression = []
  · subst nil
    simp [removeBorderParenthesis, OverrunsBorder, pairBrackets]
  rw [removeBorderParenthesis, if_neg nil, OverrunsBorder]
  cases paired : pairBrackets expression 0 with
  | error e => exact Iff.rfl
  | ok pair =>
    obtain ⟨window, count⟩ := pair
    obtain ⟨front, inner, back, paired⟩ := pairBrackets_ok paired
    have counted := paired.opened
    have bounded := paired.bounded (by decide)
    have spec : IsCountMin window count count (bracketCountMin window count count) :=
      bracketCountMin_spec le_rfl bounded
    cases counting : bracketCountMin window count count with
    | error e =>
      rw [counting] at spec
      simp only [counting, bind, Except.bind, spec.1, true_iff]
      exact fun along => spec.2 (along.imp fun _ _ _ h => h.2)
    | ok least =>
      rw [counting] at spec
      obtain ⟨along, le, greatest⟩ := spec
      have overruns :
          Along bracket (fun d _ => 0 ≤ d ∧ d < intLimit) count window ↔ 0 ≤ least := by
        constructor
        · intro along
          exact greatest 0 (by omega) (along.imp fun _ _ _ h => h.1)
        · exact fun pos => along.imp fun _ _ _ h => ⟨by omega, h.2⟩
      simp only [counting, bind, Except.bind, overruns, not_le]
      by_cases zero : least = 0
      · simp [zero, pure, Except.pure]
      rw [if_neg zero]
      by_cases neg : least < 0
      · simp [clearExcess, skip_nonpos neg.le, neg, throw, throwThe, MonadExceptOf.throw]
      · have closed := paired.closed
        obtain ⟨opening, closing, suffix, initial, -, -, cleared⟩ :=
          clearExcess_of_count inner (by omega : 0 < least)
            (by omega : least ≤ front.count '(') (by omega : least ≤ back.count ')')
        rw [paired.split, cleared]
        refine ⟨neg, ?_⟩
        have := suffix.length_le
        have := initial.length_le
        simp only [List.length_append]
        omega

theorem splitTop_length (sign : Char) (text : List Char) (count : Int) :
    ((splitTop sign text count).map fun part => part.length + 1).sum = text.length + 1 := by
  induction text generalizing count with
  | nil => rfl
  | cons c rest ih =>
    rw [splitTop]
    split
    · rw [List.map_cons, List.sum_cons, ih, List.length_nil, List.length_cons]
      omega
    · have next := ih (count + bracket c)
      cases parts : splitTop sign rest (count + bracket c) with
      | nil => rw [parts] at next; simp at next
      | cons part parts' =>
        rw [parts] at next
        simp only [List.map_cons, List.sum_cons, List.modifyHead_cons, List.length_cons] at next ⊢
        omega

theorem parseOp_spec (text : List Char) (op : Operation) :
    match parseOp text op with
    | .error e => e = .thrown
    | .ok none => True
    | .ok (some operands) => ∀ operand ∈ operands, operand.length < text.length := by
  rw [parseOp]
  split_ifs
  · rfl
  · rfl
  cases parts : splitTop op.sign text 0 with
  | nil => simp
  | cons first parts' =>
    cases parts' with
    | nil => trivial
    | cons second rest =>
      intro operand mem
      have total := splitTop_length op.sign text 0
      rw [parts, List.map_cons, List.sum_cons] at total
      rcases List.mem_cons.1 mem with rfl | mem
      · rw [List.map_cons, List.sum_cons] at total
        omega
      · have := List.single_le_sum (fun _ _ => Nat.zero_le _) _
          (List.mem_map_of_mem (f := fun part => part.length + 1) mem)
        omega

theorem parseOps_cons {op : Operation} {ops : List Operation} (none : parseOp text op = .ok none) :
    parseOps text (op :: ops) = parseOps text ops := by
  rw [parseOps, none]
  rfl

theorem parseOps_spec (text : List Char) (ops : List Operation) :
    match parseOps text ops with
    | .error e => e = .thrown
    | .ok none => True
    | .ok (some (_, operands)) => ∀ operand ∈ operands, operand.length < text.length := by
  induction ops with
  | nil => trivial
  | cons op ops ih =>
    have spec := parseOp_spec text op
    cases parsed : parseOp text op with
    | error =>
      rw [parsed] at spec
      rw [parseOps, parsed]
      exact spec
    | ok found =>
      cases found with
      | none => rwa [parseOps_cons parsed]
      | some operands =>
        rw [parsed] at spec
        rw [parseOps, parsed]
        exact spec

/-- Elements that are passed, up to one that is bad. -/
inductive Reaches {A : Type} (passed bad : A → Prop) : List A → Prop
  | here {x xs} (head : bad x) : Reaches passed bad (x :: xs)
  | later {x xs} (head : passed x) (tail : Reaches passed bad xs) : Reaches passed bad (x :: xs)

section

variable {A B E : Type} {f : A → Except E B} {xs : List A}

theorem reaches_cons {passed bad : A → Prop} {x : A} :
    Reaches passed bad (x :: xs) ↔ bad x ∨ passed x ∧ Reaches passed bad xs := by
  constructor
  · rintro (head | ⟨head, tail⟩)
    · exact .inl head
    · exact .inr ⟨head, tail⟩
  · rintro (head | ⟨head, tail⟩)
    · exact .here head
    · exact .later head tail

theorem reaches_congr {passed passed' bad bad' : A → Prop}
    (each : ∀ x ∈ xs, (passed x ↔ passed' x) ∧ (bad x ↔ bad' x)) :
    Reaches passed bad xs ↔ Reaches passed' bad' xs := by
  induction xs with
  | nil => exact iff_of_false nofun nofun
  | cons x xs ih =>
    obtain ⟨head, tail⟩ := List.forall_mem_cons.1 each
    rw [reaches_cons, reaches_cons, head.1, head.2, ih tail]

theorem mapM_ok_iff : (∃ ys, xs.mapM f = .ok ys) ↔ ∀ x ∈ xs, ∃ y, f x = .ok y := by
  induction xs with
  | nil => simp [pure, Except.pure]
  | cons x xs ih =>
    rw [List.mapM_cons, List.forall_mem_cons, ← ih]
    cases f x with
    | error => simp [bind, Except.bind]
    | ok y => cases xs.mapM f <;> simp [bind, Except.bind, pure, Except.pure]

theorem mapM_error_iff {e : E} :
    xs.mapM f = .error e ↔ Reaches (fun x => ∃ y, f x = .ok y) (fun x => f x = .error e) xs := by
  induction xs with
  | nil => exact iff_of_false nofun nofun
  | cons x xs ih =>
    rw [List.mapM_cons, reaches_cons, ← ih]
    cases f x with
    | error => simp [bind, Except.bind]
    | ok y => cases xs.mapM f <;> simp [bind, Except.bind, pure, Except.pure]

end

/-- Texts that `parse_expr_` makes a tree of. -/
inductive Accepted (lib : Streams) : List Char → Prop
  | nop {expression left channelId} (removed : removeBorderParenthesis expression = .ok left)
      (plain : parseOps (lib.trim left) operations = .ok none)
      (extracted : lib.extract (lib.trim left) = some (channelId, true)) : Accepted lib expression
  | node {expression left op operands} (removed : removeBorderParenthesis expression = .ok left)
      (split : parseOps (lib.trim left) operations = .ok (some (op, operands)))
      (each : ∀ operand ∈ operands, Accepted lib operand) : Accepted lib expression

/-- Texts that overrun at the border, or have an operand that does behind none but
accepted ones. -/
inductive Overruns (lib : Streams) : List Char → Prop
  | border {expression} (overruns : OverrunsBorder expression) : Overruns lib expression
  | operand {expression left op operands}
      (removed : removeBorderParenthesis expression = .ok left)
      (split : parseOps (lib.trim left) operations = .ok (some (op, operands)))
      (reached : Reaches (Accepted lib) (Overruns lib) operands) : Overruns lib expression

theorem trim_length (lawful : lib.Lawful) (text : List Char) :
    (lib.trim text).length ≤ text.length := by
  rw [lawful.trim]
  exact (List.rdropWhile_prefix isSpace _).length_le.trans (List.dropWhile_suffix isSpace).length_le

section
variable (removed : removeBorderParenthesis text = .ok left)
include removed

theorem parseExpr_succ {fuel : Nat} :
    parseExpr lib (fuel + 1) text =
      match parseOps (lib.trim left) operations with
      | .error e => .error e
      | .ok (some (op, operands)) => (operands.mapM (parseExpr lib fuel)).map (.node op)
      | .ok none =>
        match lib.extract (lib.trim left) with
        | some (channelId, true) => .ok (.nop channelId)
        | _ => .error .thrown := by
  rw [parseExpr, removed]
  cases split : parseOps (lib.trim left) operations with
  | error => simp [split, bind, Except.bind]
  | ok found =>
    cases found with
    | none =>
      simp [split, bind, Except.bind, throw, throwThe, MonadExceptOf.throw, pure, Except.pure]
    | some found =>
      simp only [split, bind, Except.bind]
      cases found.2.mapM (parseExpr lib fuel) <;> rfl

theorem accepted_iff :
    Accepted lib text ↔
      match parseOps (lib.trim left) operations with
      | .error _ => False
      | .ok (some (_, operands)) => ∀ operand ∈ operands, Accepted lib operand
      | .ok none => ∃ channelId, lib.extract (lib.trim left) = some (channelId, true) := by
  constructor
  · rintro (⟨removed', plain, extracted⟩ | ⟨removed', split, each⟩)
    · cases removed.symm.trans removed'
      rw [plain]
      exact ⟨_, extracted⟩
    · cases removed.symm.trans removed'
      rw [split]
      exact each
  · intro h
    split at h
    · exact h.elim
    · next split => exact .node removed split h
    · next plain =>
      obtain ⟨channelId, extracted⟩ := h
      exact .nop removed plain extracted

theorem overruns_iff (inside : ¬ OverrunsBorder text) :
    Overruns lib text ↔
      match parseOps (lib.trim left) operations with
      | .ok (some (_, operands)) => Reaches (Accepted lib) (Overruns lib) operands
      | _ => False := by
  constructor
  · rintro (overruns | ⟨removed', split, reached⟩)
    · exact absurd overruns inside
    · cases removed.symm.trans removed'
      rw [split]
      exact reached
  · intro h
    split at h
    · next split => exact .operand removed split h
    · exact h.elim

end

/-- Enough fuel ends in a tree just for the accepted texts, and outside just for those that
overrun. -/
theorem parseExpr_iff (lawful : lib.Lawful) {fuel : Nat} (enough : text.length < fuel) :
    ((∃ tree, parseExpr lib fuel text = .ok tree) ↔ Accepted lib text) ∧
      (parseExpr lib fuel text = .error .outside ↔ Overruns lib text) := by
  induction fuel generalizing text with
  | zero => omega
  | succ fuel ih =>
    have border := removeBorderParenthesis_spec text
    cases removed : removeBorderParenthesis text with
    | error e =>
      rw [removed] at border
      have border : e = .outside ↔ OverrunsBorder text := border
      have failed : parseExpr lib (fuel + 1) text = .error e := by rw [parseExpr, removed]; rfl
      rw [failed]
      constructor
      · apply iff_of_false (by rintro ⟨_, eq⟩; cases eq)
        rintro (⟨removed', -, -⟩ | ⟨removed', -, -⟩) <;> cases removed.symm.trans removed'
      · rw [Except.error.injEq, border]
        constructor
        · exact .border
        · rintro (overruns | ⟨removed', -, -⟩)
          · exact overruns
          · cases removed.symm.trans removed'
    | ok left =>
      rw [removed] at border
      rw [parseExpr_succ removed, accepted_iff removed, overruns_iff removed border.1]
      have spec := parseOps_spec (lib.trim left) operations
      cases split : parseOps (lib.trim left) operations with
      | error e =>
        rw [split] at spec
        obtain rfl : e = .thrown := spec
        simp
      | ok found =>
        cases found with
        | none =>
          constructor
          · rcases lib.extract (lib.trim left) with _ | ⟨channelId, _ | _⟩ <;> simp
          · rcases lib.extract (lib.trim left) with _ | ⟨channelId, _ | _⟩ <;> simp
        | some found =>
          obtain ⟨op, operands⟩ := found
          rw [split] at spec
          have each : ∀ operand ∈ operands, operand.length < fuel := by
            intro operand mem
            have := spec operand mem
            have := trim_length lawful left
            omega
          have ih := fun operand mem => ih (each operand mem)
          have map_ok :
              (∃ tree, (operands.mapM (parseExpr lib fuel)).map (NonLinkedExpression.node op) =
                .ok tree) ↔
              ∃ trees, operands.mapM (parseExpr lib fuel) = .ok trees := by
            cases operands.mapM (parseExpr lib fuel) <;> simp [Except.map]
          have map_error :
              (operands.mapM (parseExpr lib fuel)).map (NonLinkedExpression.node op) =
                .error .outside ↔
              operands.mapM (parseExpr lib fuel) = .error .outside := by
            cases operands.mapM (parseExpr lib fuel) <;> simp [Except.map]
          constructor
          · apply map_ok.trans
            exact mapM_ok_iff.trans (forall₂_congr fun operand mem => (ih operand mem).1)
          · apply map_error.trans
            exact mapM_error_iff.trans (reaches_congr ih)

end AdServer.CampaignServer
