import AdServer.CampaignServer.ExpressionChannelParser

/-!
# Renderings of channel expressions

Texts of an expression, with brackets around each operand that binds no tighter than its
operator and around any other one, and spaces at every token.
-/

namespace AdServer.CampaignServer

open AdServer.Lib

mutual

/-- The spaces at the ends are those of the brackets around it, or of the whole text. -/
inductive Rendering
  | nop (channelId : Nat)
  | brackets (before : List Char) (inner : Rendering) (after : List Char)
  | node (op : Operation) (first : Rendering) (rest : Operands)

/-- The operands behind the first one, with the spaces before and after the sign. -/
inductive Operands
  | nil
  | cons (before after : List Char) (operand : Rendering) (rest : Operands)

end

def Operation.level : Operation → Nat
  | .or => 0
  | .and => 1
  | .andNot => 2

def Rendering.level : Rendering → Nat
  | .node op _ _ => op.level
  | _ => 3

def Spaces (text : List Char) : Prop := ∀ c ∈ text, isSpace c

theorem spaces_nil : Spaces [] := fun _ mem => absurd mem List.not_mem_nil

mutual

def Rendering.text : Rendering → List Char
  | .nop channelId => Nat.toDigits 10 channelId
  | .brackets before inner after => '(' :: (before ++ inner.text ++ after ++ [')'])
  | .node op first rest => first.text ++ rest.text op

def Operands.text (op : Operation) : Operands → List Char
  | .nil => []
  | .cons before after operand rest =>
    before ++ op.sign :: (after ++ operand.text ++ rest.text op)

end

mutual

def Rendering.tree : Rendering → NonLinkedExpression
  | .nop channelId => .nop channelId
  | .brackets _ inner _ => inner.tree
  | .node op first rest => .node op (first.tree :: rest.trees)

def Operands.trees : Operands → List NonLinkedExpression
  | .nil => []
  | .cons _ _ operand rest => operand.tree :: rest.trees

end

mutual

def Rendering.Valid : Rendering → Prop
  | .nop channelId => channelId < 2 ^ 64
  | .brackets before inner after => Spaces before ∧ inner.Valid ∧ Spaces after
  | .node op first rest => first.Valid ∧ op.level < first.level ∧ rest ≠ .nil ∧ rest.Valid op

def Operands.Valid (op : Operation) : Operands → Prop
  | .nil => True
  | .cons before after operand rest =>
    Spaces before ∧ Spaces after ∧ operand.Valid ∧ op.level < operand.level ∧ rest.Valid op

end

/-! ## Characters -/

/-- Neither a space nor a bracket. -/
def Plain (c : Char) : Prop := ¬ isSpace c ∧ c ≠ '(' ∧ c ≠ ')'

theorem plain_sign (op : Operation) : Plain op.sign := by
  cases op <;> exact ⟨by decide, by decide, by decide⟩

variable {c : Char} {text spaces before core : List Char} {level : Nat} {n count : Int}
  {op : Operation} {lib : Streams}

theorem isDigit {channelId : Nat} (mem : c ∈ Nat.toDigits 10 channelId) : c.isDigit :=
  Nat.isDigit_of_mem_toDigits (by decide) (by decide) mem

theorem digits_cons (channelId : Nat) :
    ∃ c rest, Nat.toDigits 10 channelId = c :: rest ∧ c.isDigit := by
  obtain ⟨c, rest, eq⟩ := List.exists_cons_of_ne_nil (Nat.toDigits_ne_nil (n := channelId))
  exact ⟨c, rest, eq, isDigit (eq ▸ List.mem_cons_self)⟩

theorem plain_digit (digit : c.isDigit) : Plain c := by
  refine ⟨fun space => ?_, ?_, ?_⟩
  · simp only [isSpace, List.contains_eq_mem, decide_eq_true_eq, List.mem_cons,
      List.not_mem_nil, or_false] at space
    rcases space with rfl | rfl | rfl | rfl | rfl | rfl <;> exact absurd digit (by decide)
  all_goals (rintro rfl; exact absurd digit (by decide))

theorem digit_ne_sign (digit : c.isDigit) (op : Operation) : c ≠ op.sign := by
  rintro rfl
  cases op <;> exact absurd digit (by decide)

theorem plain_bracket (plain : Plain c) : bracket c = 0 := by
  rw [bracket, if_neg plain.2.1, if_neg plain.2.2]

theorem space_bracket (space : isSpace c) : bracket c = 0 := by
  rw [bracket, if_neg (space_ne space).1, if_neg (space_ne space).2]

theorem space_ne_sign (space : isSpace c) (op : Operation) : c ≠ op.sign := by
  rintro rfl
  exact (plain_sign op).1 space

theorem depth_opening (opening : ∀ c ∈ text, isSpace c ∨ c = '(') :
    depth bracket text = text.count '(' := by
  induction text with
  | nil => rfl
  | cons c text ih =>
    obtain ⟨head, tail⟩ := List.forall_mem_cons.1 opening
    rw [depth_cons, ih tail]
    rcases head with space | rfl
    · rw [space_bracket space, List.count_cons_of_ne (space_ne space).1, zero_add]
    · rw [List.count_cons_self, show bracket '(' = 1 from rfl]
      omega

/-! ## Formed texts -/

/-- A text with no space at its ends, closed, and with the signs looser than its level in
brackets. -/
structure Formed (level : Nat) (text : List Char) : Prop where
  first : ∃ c rest, text = c :: rest ∧ ¬ isSpace c ∧ ∀ op : Operation, c ≠ op.sign
  last : ∃ rest c, text = rest ++ [c] ∧ ¬ isSpace c
  closed : depth bracket text = 0
  nested : ∀ n, Along bracket
    (fun d c => n ≤ d ∧ ∀ op : Operation, c = op.sign → op.level < level → n < d) n text

theorem Formed.mono {level level' : Nat} (formed : Formed level text) (le : level' ≤ level) :
    Formed level' text where
  first := formed.first
  last := formed.last
  closed := formed.closed
  nested n := (formed.nested n).imp fun _ _ _ h =>
    ⟨h.1, fun op sign looser => h.2 op sign (looser.trans_le le)⟩

theorem Formed.ne_nil (formed : Formed level text) : text ≠ [] := by
  obtain ⟨c, rest, rfl, -⟩ := formed.first
  exact List.cons_ne_nil c rest

theorem formed_digits (channelId : Nat) : Formed 3 (Nat.toDigits 10 channelId) := by
  have flat : ∀ c ∈ Nat.toDigits 10 channelId, bracket c = 0 := fun c mem =>
    plain_bracket (plain_digit (isDigit mem))
  refine ⟨?_, ?_, depth_flat flat, fun n => (along_flat flat).2 ?_⟩
  · obtain ⟨c, rest, eq, digit⟩ := digits_cons channelId
    exact ⟨c, rest, eq, (plain_digit digit).1, digit_ne_sign digit⟩
  · obtain ⟨rest, c, eq⟩ := (List.eq_nil_or_concat' _).resolve_left Nat.toDigits_ne_nil
    exact ⟨rest, c, eq, (plain_digit (isDigit (eq ▸ List.mem_concat_self))).1⟩
  · exact fun c mem => ⟨le_rfl, fun op sign => absurd sign (digit_ne_sign (isDigit mem) op)⟩

theorem Spaces.depth (all : Spaces spaces) : depth bracket spaces = 0 :=
  depth_flat fun c mem => space_bracket (all c mem)

theorem Spaces.along (all : Spaces spaces) {P : Int → Char → Prop} (h : ∀ c, isSpace c → P n c) :
    Along bracket P n spaces :=
  (along_flat fun c mem => space_bracket (all c mem)).2 fun c mem => h c (all c mem)

theorem formed_brackets {before text after : List Char} (left : Spaces before)
    (formed : Formed level text) (right : Spaces after) :
    Formed 3 ('(' :: (before ++ text ++ after ++ [')'])) where
  first := ⟨_, _, rfl, by decide, fun op => by cases op <;> decide⟩
  last := ⟨'(' :: (before ++ text ++ after), ')', rfl, by decide⟩
  closed := by simp [left.depth, formed.closed, right.depth, bracket]
  nested n := by
    have inside : Along bracket (fun d _ => n + 1 ≤ d) (n + 1)
        (before ++ text ++ after ++ [')']) := by
      simp only [along_append, depth_append, left.depth, formed.closed, right.depth, add_zero]
      refine ⟨⟨⟨left.along fun _ _ => le_rfl, ?_⟩, right.along fun _ _ => le_rfl⟩, le_rfl, trivial⟩
      exact (formed.nested (n + 1)).imp fun _ _ _ h => h.1
    refine ⟨⟨le_rfl, fun op => by cases op <;> simp [Operation.sign]⟩, ?_⟩
    exact inside.imp fun d _ _ h => ⟨by omega, fun _ _ _ => h⟩

theorem Formed.join {text before after operand : List Char} (formed : Formed op.level text)
    (left : Spaces before) (right : Spaces after) (formed' : Formed op.level operand) :
    Formed op.level (text ++ (before ++ op.sign :: (after ++ operand))) where
  first := by
    obtain ⟨c, rest, rfl, head⟩ := formed.first
    exact ⟨c, _, rfl, head⟩
  last := by
    obtain ⟨rest, c, rfl, last⟩ := formed'.last
    exact ⟨text ++ (before ++ op.sign :: (after ++ rest)), c, by simp, last⟩
  closed := by
    simp [formed.closed, formed'.closed, left.depth, right.depth, plain_bracket (plain_sign op)]
  nested n := by
    have spaces : ∀ c, isSpace c → n ≤ n ∧
        ∀ op' : Operation, c = op'.sign → op'.level < op.level → n < n :=
      fun c space => ⟨le_rfl, fun op' sign => absurd sign (space_ne_sign space op')⟩
    simp only [along_append, along_cons, formed.closed, left.depth, right.depth,
      plain_bracket (plain_sign op), add_zero]
    refine ⟨formed.nested n, left.along spaces, ⟨le_rfl, ?_⟩, right.along spaces, formed'.nested n⟩
    intro op' sign looser
    cases op <;> cases op' <;> simp_all [Operation.sign, Operation.level]

mutual

theorem Rendering.formed : ∀ r : Rendering, r.Valid → Formed r.level r.text
  | .nop channelId, _ => formed_digits channelId
  | .brackets _ inner _, ⟨left, valid, right⟩ => formed_brackets left (inner.formed valid) right
  | .node _ first rest, ⟨valid, tighter, _, valid'⟩ =>
    rest.formed valid' ((first.formed valid).mono tighter.le)

theorem Operands.formed {op : Operation} : ∀ rest : Operands, rest.Valid op →
    ∀ {text}, Formed op.level text → Formed op.level (text ++ rest.text op)
  | .nil, _, text, formed => by rwa [Operands.text, List.append_nil]
  | .cons before after operand rest, ⟨left, right, valid, tighter, valid'⟩, text, formed => by
    have joined := formed.join left right ((operand.formed valid).mono tighter.le)
    have := rest.formed valid' joined
    simpa [Operands.text] using this

end

/-! ## Splitting -/

/-- No sign of a text from some count on is a place to split it at. -/
def Unsplit (sign : Char) : Int → List Char → Prop :=
  Along bracket fun d c => c = sign → d % 2 ^ 32 ≠ 0

theorem splitTop_append {sign : Char} (nested : Unsplit sign n text) (rest : List Char) :
    splitTop sign (text ++ rest) n =
      (splitTop sign rest (n + depth bracket text)).modifyHead (text ++ ·) := by
  induction text generalizing n with
  | nil =>
    rw [depth_nil, add_zero]
    exact (congrFun List.modifyHead_id (splitTop sign rest n)).symm
  | cons c text ih =>
    have inside : ¬ (c = sign ∧ n % 2 ^ 32 = 0) := fun h => nested.1 h.1 h.2
    rw [List.cons_append, splitTop, if_neg inside, ih nested.2, depth_cons, add_assoc,
      List.modifyHead_modifyHead]
    rfl

/-- The signs in a text are within the range of the count. -/
def Bounded (text : List Char) : Prop :=
  Along bracket (fun d c => Plain c → d < intLimit) 0 text

theorem Formed.inside (formed : Formed level text) (bounded : Bounded text)
    (looser : op.level < level) : Unsplit op.sign 0 text := by
  apply ((formed.nested 0).and bounded).imp
  intro d c _ h sign
  have := h.1.2 op sign looser
  have := h.2 (sign ▸ plain_sign op)
  simp only [intLimit] at this
  omega

theorem Spaces.unsplit (all : Spaces spaces) : Unsplit op.sign n spaces :=
  all.along fun _ space sign => absurd sign (space_ne_sign space op)

theorem Formed.parseOp_eq (formed : Formed level text) (op : Operation) :
    parseOp text op = match splitTop op.sign text 0 with
      | [_] => .ok none
      | operands => .ok (some operands) := by
  obtain ⟨c, rest, rfl, -, head⟩ := formed.first
  have differs : ¬ (c :: rest).head? = some op.sign := by simpa using head op
  exact (if_neg (List.cons_ne_nil c rest)).trans (if_neg differs)

theorem Formed.parseOp_none (formed : Formed level text) (bounded : Bounded text)
    (looser : op.level < level) : parseOp text op = .ok none := by
  have single := splitTop_append (formed.inside bounded looser) []
  rw [List.append_nil] at single
  rw [formed.parseOp_eq, single]
  rfl

/-- The texts of operands, the first of them begun by `text`. -/
def Operands.parts (text : List Char) : Operands → List (List Char)
  | .nil => [text]
  | .cons before after operand rest => (text ++ before) :: rest.parts (after ++ operand.text)

theorem Operands.splitTop_eq : ∀ {rest : Operands} {text : List Char},
    rest.Valid op → Unsplit op.sign 0 text → depth bracket text = 0 → Bounded (rest.text op) →
    splitTop op.sign (text ++ rest.text op) 0 = rest.parts text
  | .nil, text, _, nested, _, _ => by
    rw [Operands.text, splitTop_append nested]
    simp [splitTop, parts]
  | .cons before after operand rest, text, ⟨left, right, valid, tighter, valid'⟩, nested, closed,
      bounded => by
    have formed := operand.formed valid
    simp only [Bounded, Operands.text, along_append, along_cons, left.depth, right.depth,
      plain_bracket (plain_sign op), formed.closed, depth_append, add_zero] at bounded
    have pending : Unsplit op.sign 0 (after ++ operand.text) := by
      rw [Unsplit, along_append, right.depth]
      exact ⟨right.unsplit, formed.inside bounded.2.2.1.2 tighter⟩
    have next := rest.splitTop_eq valid' pending (by simp [right.depth, formed.closed])
      bounded.2.2.2
    rw [Operands.text, splitTop_append nested, closed, add_zero, splitTop_append left.unsplit,
      left.depth, add_zero, splitTop, if_pos ⟨rfl, rfl⟩, next]
    simp [parts]

/-! ## Borders -/

/-- A text in brackets and spaces, by the number of pairs. -/
inductive Wraps (core : List Char) : Int → List Char → Prop
  | core {before after} (left : Spaces before) (right : Spaces after) :
    Wraps core 0 (before ++ core ++ after)
  | brackets {before after text count} (left : Spaces before) (inner : Wraps core count text)
    (right : Spaces after) : Wraps core (count + 1) (before ++ '(' :: (text ++ ')' :: after))

def Rendering.Bare : Rendering → Prop
  | .brackets _ _ _ => False
  | _ => True

theorem Rendering.wraps : ∀ {r : Rendering} {before after : List Char}, r.Valid →
    Spaces before → Spaces after → ∃ core : Rendering, core.Valid ∧ core.tree = r.tree ∧
      core.Bare ∧ ∃ count, Wraps core.text count (before ++ r.text ++ after)
  | .nop channelId, _, _, valid, left, right => ⟨_, valid, rfl, trivial, 0, .core left right⟩
  | .node _ _ _, _, _, valid, left, right => ⟨_, valid, rfl, trivial, 0, .core left right⟩
  | .brackets _ inner _, _, _, ⟨left', valid, right'⟩, left, right => by
    obtain ⟨core, valid, tree, bare, count, wraps⟩ := inner.wraps valid left' right'
    refine ⟨core, valid, tree, bare, count + 1, ?_⟩
    simpa [Rendering.text] using Wraps.brackets left wraps right

theorem pairBrackets_spaces (left : Spaces before) (some : text ≠ []) :
    pairBrackets (before ++ text) n = pairBrackets text n := by
  induction before with
  | nil => rfl
  | cons c before ih =>
    obtain ⟨space, left⟩ := List.forall_mem_cons.1 left
    rw [List.cons_append, pairBrackets, if_neg (by simp [some]), if_pos space, ih left]

theorem rdropWhile_after {text after : List Char} (right : Spaces after) (last : ¬ isSpace c) :
    (text ++ c :: after).rdropWhile isSpace = text ++ [c] := by
  simp only [List.rdropWhile, List.reverse_append, List.reverse_cons, List.append_assoc]
  rw [List.dropWhile_append_of_pos fun c mem => right c (List.mem_reverse.1 mem)]
  simp [last]

theorem Wraps.ne_nil (wraps : Wraps core count text) (some : core ≠ []) : text ≠ [] := by
  cases wraps <;> simp [some]

theorem Wraps.pairBrackets_eq (wraps : Wraps core count text) (some : core ≠ []) :
    pairBrackets text n = .error .outside ∨ ∃ after, Spaces after ∧
      pairBrackets text n =
        pairBrackets (core ++ after) (n + count) := by
  induction wraps generalizing n with
  | @core before after left right =>
    refine .inr ⟨after, right, ?_⟩
    rw [List.append_assoc, pairBrackets_spaces left (by simp [some]), add_zero]
  | @brackets before after text count left wraps right ih =>
    rw [pairBrackets_spaces left (List.cons_ne_nil _ _), pairBrackets,
      if_neg (by simp), if_neg (by decide), if_pos rfl, rdropWhile_after right (by decide),
      if_neg (by simp), if_pos (by simp), List.dropLast_concat, if_neg (wraps.ne_nil some)]
    split_ifs
    · exact .inl rfl
    · rw [add_comm count, ← add_assoc]
      exact ih

theorem Wraps.split (wraps : Wraps core count text) :
    ∃ front back, text = front ++ core ++ back ∧ (∀ c ∈ front, isSpace c ∨ c = '(') ∧
      (∀ c ∈ back, isSpace c ∨ c = ')') ∧ front.count '(' = count ∧ back.count ')' = count := by
  induction wraps with
  | @core before after left right =>
    refine ⟨before, after, rfl, fun c mem => .inl (left c mem), fun c mem => .inl (right c mem),
      ?_, ?_⟩
    · exact_mod_cast List.count_eq_zero.2 fun mem => (space_ne (left _ mem)).1 rfl
    · exact_mod_cast count_spaces right
  | @brackets before after text count left wraps right ih =>
    obtain ⟨front, back, rfl, opening, closing, opened, closed⟩ := ih
    have none : before.count '(' = 0 :=
      List.count_eq_zero.2 fun mem => (space_ne (left _ mem)).1 rfl
    refine ⟨before ++ '(' :: front, back ++ ')' :: after, by simp, ?_, ?_, ?_, ?_⟩
    · exact List.forall_mem_append.2
        ⟨fun c mem => .inl (left c mem), List.forall_mem_cons.2 ⟨.inr rfl, opening⟩⟩
    · exact List.forall_mem_append.2
        ⟨closing, List.forall_mem_cons.2 ⟨.inr rfl, fun c mem => .inl (right c mem)⟩⟩
    · rw [List.count_append, none, List.count_cons_self, ← opened]; omega
    · rw [List.count_append, List.count_cons_self, count_spaces right, ← closed]; omega

theorem spaces_of_count {mark : Char} (all : ∀ c ∈ text, isSpace c ∨ c = mark)
    (none : text.count mark = 0) : Spaces text := by
  intro c mem
  refine (all c mem).resolve_right ?_
  rintro rfl
  exact List.count_eq_zero.1 none mem

/-- The brackets around a text are cut off, and none of its own: at a character of it that
is outside of them the count is at its least. -/
theorem Wraps.removed {core text left right : List Char} (wraps : Wraps core count text)
    (formed : Formed level core) (split : core = left ++ c :: right)
    (closed : depth bracket left = 0) (plain : Plain c) :
    removeBorderParenthesis text = .error .outside ∨
      (Bounded core ∧ ∃ before after, Spaces before ∧ Spaces after ∧
        removeBorderParenthesis text = .ok (before ++ core ++ after)) := by
  have some := wraps.ne_nil formed.ne_nil
  rw [removeBorderParenthesis, if_neg some]
  rcases wraps.pairBrackets_eq formed.ne_nil with outside | ⟨after, spaces, same⟩
  · rw [outside]
    exact .inl rfl
  rw [zero_add] at same
  cases pairing : pairBrackets (core ++ after) count with
  | error e =>
    rw [same, pairing]
    cases e with
    | outside => exact .inl rfl
    | thrown =>
      have := pairBrackets_thrown pairing c (by simp [split])
      exact absurd this (by simp [plain.1, plain.2.1, plain.2.2])
  | ok pair =>
    obtain ⟨window, total⟩ := pair
    obtain ⟨_, _, _, whole⟩ := pairBrackets_ok (same.trans pairing)
    obtain ⟨front, inner, back, paired⟩ := pairBrackets_ok pairing
    have in_front : ∀ c ∈ front, ¬ Plain c := fun c mem plain =>
      (paired.opening c mem).elim plain.1 plain.2.1
    have in_back : ∀ c ∈ back, ¬ Plain c := fun c mem plain =>
      (paired.closing c mem).elim plain.1 plain.2.2
    have nonempty : inner ≠ [] := by
      rintro rfl
      have mem : c ∈ front ++ [] ++ back := by rw [← paired.split, split]; simp
      rw [List.append_nil, List.mem_append] at mem
      exact mem.elim (in_front c · plain) (in_back c · plain)
    obtain rfl := paired.inner nonempty
    have opened := paired.opened
    have depth_front : count + depth bracket front = total := by
      rw [depth_opening paired.opening]
      omega
    have spec : IsCountMin window total total (bracketCountMin window total total) :=
      bracketCountMin_spec le_rfl (whole.bounded (by decide))
    rw [same, pairing]
    simp only [bind, Except.bind]
    cases counting : bracketCountMin window total total with
    | error e =>
      rw [counting] at spec
      exact .inl (by rw [spec.1])
    | ok least =>
      rw [counting] at spec
      obtain ⟨along, -, greatest⟩ := spec
      have visible : Along bracket (fun d c => Plain c → least ≤ d ∧ d < intLimit) count
          (core ++ after) := by
        rw [paired.split, along_append, along_append, depth_front]
        refine ⟨⟨along_of_forall ?_, along.imp fun _ _ _ h _ => h⟩, along_of_forall ?_⟩
        · exact fun _ c mem plain => absurd plain (in_front c mem)
        · exact fun _ c mem plain => absurd plain (in_back c mem)
      have deep : Along bracket (fun d _ => count ≤ d) count (core ++ after) := by
        rw [along_append, formed.closed, add_zero]
        exact ⟨(formed.nested count).imp fun _ _ _ h => h.1, spaces.along fun _ _ => le_rfl⟩
      rw [paired.split, along_append, along_append, depth_front] at deep
      have ge := greatest count (by omega) deep.1.2
      rw [along_append] at visible
      have le : least ≤ count := by
        have := visible.1
        rw [split, along_append, along_cons, closed, add_zero] at this
        exact (this.2.1 plain).1
      obtain rfl := le_antisymm le ge
      obtain ⟨front', back', rfl, opening, closing, opened', closed'⟩ := wraps.split
      refine .inr ⟨?_, ?_⟩
      · rw [← zero_add least, along_shift] at visible
        exact visible.1.imp fun d _ _ h plain => by have := (h plain).2; omega
      by_cases zero : least = 0
      · refine ⟨front', back', spaces_of_count opening (by omega),
          spaces_of_count closing (by omega), ?_⟩
        simp [zero, pure, Except.pure]
      · obtain ⟨before, after, suffix, initial, before_count, after_count, cleared⟩ :=
          clearExcess_of_count core (by omega : 0 < least) opened'.ge closed'.ge
        refine ⟨before, after,
          spaces_of_count (fun c mem => opening c (suffix.mem mem)) (by omega),
          spaces_of_count (fun c mem => closing c (initial.mem mem)) (by omega), ?_⟩
        simp only [if_neg zero, cleared]
        rfl

/-! ## Texts with few brackets -/

theorem along_le_count (n : Int) (text : List Char) :
    Along bracket (fun d _ => d ≤ n + text.count '(') n text := by
  induction text generalizing n with
  | nil => trivial
  | cons c text ih =>
    have opened : bracket c + text.count '(' ≤ ((c :: text).count '(' : Nat) := by
      simp only [bracket, List.count_cons, beq_iff_eq]
      split_ifs <;> omega
    refine ⟨by omega, (ih _).imp fun d _ _ le => ?_⟩
    omega

theorem pairBrackets_outside (limit : n < intLimit)
    (outside : pairBrackets text n = .error .outside) : intLimit ≤ n + text.count '(' := by
  fun_induction pairBrackets text n with
  | case1 | case2 | case4 | case6 | case8 | case9 => cases outside
  | case3 n c rest _ _ ih =>
    have := ih limit outside
    have := (List.sublist_cons_self c rest).count_le '('
    omega
  | case5 n rest =>
    rw [List.count_cons_self]
    omega
  | case7 n rest _ _ _ _ _ _ ih =>
    have := ih (by omega) outside
    have := ((List.dropLast_prefix _).sublist.trans
      (List.rdropWhile_prefix isSpace rest).sublist).count_le '('
    rw [List.count_cons_self]
    omega

/-- A text that closes no bracket too many overruns only by as many as overflow the count. -/
theorem count_of_overrunsBorder (mem : c ∈ text) (plain : Plain c)
    (nested : Along bracket (fun d _ => 0 ≤ d) 0 text) (overruns : OverrunsBorder text) :
    intLimit ≤ text.count '(' := by
  rw [OverrunsBorder] at overruns
  cases pairing : pairBrackets text 0 with
  | error e =>
    rw [pairing] at overruns
    obtain rfl : e = .outside := overruns
    rw [← zero_add (text.count '(' : Int)]
    exact pairBrackets_outside (by decide) pairing
  | ok pair =>
    obtain ⟨window, count⟩ := pair
    obtain ⟨front, inner, back, paired⟩ := pairBrackets_ok pairing
    rw [pairing] at overruns
    have nonempty : inner ≠ [] := by
      rintro rfl
      rw [paired.split, List.append_nil, List.mem_append] at mem
      rcases mem with mem | mem
      · exact (paired.opening c mem).elim plain.1 plain.2.1
      · exact (paired.closing c mem).elim plain.1 plain.2.2
    obtain rfl := paired.inner nonempty
    by_contra few
    apply overruns
    have opened := paired.opened
    have within := nested.and (along_le_count 0 text)
    rw [zero_add, paired.split, along_append, along_append, ← paired.split,
      depth_opening paired.opening, opened, sub_zero, zero_add] at within
    apply within.1.2.imp
    intro d _ _ le
    exact ⟨le.1, by omega⟩

theorem splitTop_sublist {sign : Char} {part : List Char} (mem : part ∈ splitTop sign text n) :
    part.Sublist text := by
  induction text generalizing n part with
  | nil =>
    rw [splitTop, List.mem_singleton] at mem
    exact mem ▸ .slnil
  | cons c text ih =>
    rw [splitTop] at mem
    split at mem
    · rcases List.mem_cons.1 mem with rfl | mem
      · exact List.nil_sublist _
      · exact (ih mem).cons c
    · cases parts : splitTop sign text (n + bracket c) with
      | nil => simp [parts] at mem
      | cons first rest =>
        rw [parts, List.modifyHead_cons] at mem
        rcases List.mem_cons.1 mem with rfl | mem
        · exact (ih (parts ▸ List.mem_cons_self)).cons_cons c
        · exact (ih (parts ▸ List.mem_cons_of_mem _ mem)).cons c

/-! ## Parsing a rendering -/

theorem Rendering.Bare.split {core : Rendering} (bare : core.Bare) (valid : core.Valid) :
    ∃ left c right, core.text = left ++ c :: right ∧ depth bracket left = 0 ∧ Plain c := by
  cases core with
  | brackets => exact bare.elim
  | nop channelId =>
    obtain ⟨c, rest, eq, digit⟩ := digits_cons channelId
    exact ⟨[], c, rest, eq, rfl, plain_digit digit⟩
  | node op first rest =>
    obtain ⟨valid, -, some, valid'⟩ := valid
    cases rest with
    | nil => exact absurd rfl some
    | cons before after operand rest =>
      refine ⟨first.text ++ before, op.sign, _, (List.append_assoc _ _ _).symm, ?_, plain_sign op⟩
      rw [depth_append, (first.formed valid).closed, valid'.1.depth]
      rfl

theorem Rendering.nested {r : Rendering} {before after : List Char} (valid : r.Valid)
    (left : Spaces before) (right : Spaces after) :
    Along bracket (fun d _ => 0 ≤ d) 0 (before ++ r.text ++ after) := by
  have formed := r.formed valid
  rw [along_append, along_append, depth_append, left.depth, formed.closed]
  exact ⟨⟨left.along fun _ _ => le_rfl, (formed.nested 0).imp fun _ _ _ h => h.1⟩,
    right.along fun _ _ => le_rfl⟩

theorem trim_formed (lawful : lib.Lawful) {before text after : List Char} (left : Spaces before)
    (formed : Formed level text) (right : Spaces after) :
    lib.trim (before ++ text ++ after) = text := by
  obtain ⟨c, rest, eq, first, -⟩ := formed.first
  obtain ⟨rest', c', eq', last⟩ := formed.last
  rw [lawful.trim, List.append_assoc, List.dropWhile_append_of_pos left]
  have started : (text ++ after).dropWhile isSpace = text ++ after := by simp [eq, first]
  rw [started, eq', List.append_assoc, List.singleton_append, rdropWhile_after right last]

theorem mapM_forall₂ {A B E : Type} {f : A → Except E B} {e : E} {P : A → Prop} {xs : List A}
    {ys : List B} (each : List.Forall₂ (fun x y => f x = .ok y ∨ f x = .error e ∧ P x) xs ys) :
    xs.mapM f = .ok ys ∨ xs.mapM f = .error e ∧ ∃ x ∈ xs, P x := by
  induction each with
  | nil => exact .inl rfl
  | cons head _ ih =>
    rw [List.mapM_cons]
    rcases head with head | ⟨head, bad⟩
    · rcases ih with tail | ⟨tail, x, mem, bad⟩
      · simp [head, tail, bind, Except.bind, pure, Except.pure]
      · exact .inr ⟨by simp [head, tail, bind, Except.bind], x, List.mem_cons_of_mem _ mem, bad⟩
    · exact .inr ⟨by rw [head]; rfl, _, List.mem_cons_self, bad⟩

theorem Operands.forall₂_parts {P : List Char → NonLinkedExpression → Prop}
    (each : ∀ {r : Rendering} {before after}, r.Valid → Spaces before → Spaces after →
      P (before ++ r.text ++ after) r.tree) :
    ∀ {rest : Operands} {before : List Char} {first : Rendering}, rest.Valid op →
      Spaces before → first.Valid →
        List.Forall₂ P (rest.parts (before ++ first.text)) (first.tree :: rest.trees)
  | .nil, before, first, _, left, valid => by
    refine .cons ?_ .nil
    simpa using each valid left spaces_nil
  | .cons _ _ _ rest, before, first, ⟨left', right', valid', _, rest_valid⟩, left, valid =>
    .cons (each valid left left') (rest.forall₂_parts each rest_valid right' valid')

theorem splitTop_node {first : Rendering} {rest : Operands}
    (valid : (Rendering.node op first rest).Valid)
    (bounded : Bounded (Rendering.node op first rest).text) :
    splitTop op.sign (Rendering.node op first rest).text 0 = rest.parts first.text := by
  have formed := first.formed valid.1
  have parts := along_append.1 bounded
  rw [formed.closed, add_zero] at parts
  exact rest.splitTop_eq valid.2.2.2 (formed.inside parts.1 valid.2.1) formed.closed parts.2

theorem parseOps_node {first : Rendering} {rest : Operands}
    (valid : (Rendering.node op first rest).Valid)
    (bounded : Bounded (Rendering.node op first rest).text) :
    parseOps (Rendering.node op first rest).text operations =
      .ok (some (op, rest.parts first.text)) := by
  have formed := (Rendering.node op first rest).formed valid
  have found : parseOp (Rendering.node op first rest).text op =
      .ok (.some (rest.parts first.text)) := by
    rw [formed.parseOp_eq, splitTop_node valid bounded]
    cases rest with
    | nil => exact absurd rfl valid.2.2.1
    | cons _ _ _ rest => cases rest <;> rfl
  have looser : ∀ op' : Operation, op'.level < op.level →
      parseOp (Rendering.node op first rest).text op' = .ok none := fun op' =>
    formed.parseOp_none bounded
  have founds : ∀ ops, parseOps (Rendering.node op first rest).text (op :: ops) =
      .ok (.some (op, rest.parts first.text)) := by
    intro ops
    rw [parseOps, found]
    rfl
  cases op with
  | or => exact founds _
  | and => exact (parseOps_cons (looser .or (by decide))).trans (founds _)
  | andNot =>
    rw [operations, parseOps_cons (looser .or (by decide)), parseOps_cons (looser .and (by decide))]
    exact founds _

/-- The parser makes its tree of a text, or runs out of it, and that with enough fuel only
over as many brackets as overflow the count. -/
def Reads (lib : Streams) (fuel : Nat) (text : List Char) (tree : NonLinkedExpression) : Prop :=
  parseExpr lib fuel text = .ok tree ∨
    parseExpr lib fuel text = .error .outside ∧
      (text.length < fuel → intLimit ≤ text.count '(')

theorem parseExpr_rendering (lawful : lib.Lawful) (fuel : Nat) :
    ∀ {r : Rendering} {before after}, r.Valid → Spaces before → Spaces after →
      Reads lib fuel (before ++ r.text ++ after) r.tree := by
  induction fuel with
  | zero => exact fun _ _ _ => .inr ⟨rfl, nofun⟩
  | succ fuel ih =>
    intro r before after valid left right
    obtain ⟨core, core_valid, tree, bare, count, wraps⟩ := r.wraps valid left right
    have formed := core.formed core_valid
    obtain ⟨_, c, _, split, closed, plain⟩ := bare.split core_valid
    obtain ⟨front, back, whole, -⟩ := wraps.split
    have core_sub : core.text.Sublist (before ++ r.text ++ after) := by
      rw [whole]
      exact (List.sublist_append_right _ _).trans (List.sublist_append_left _ _)
    rcases wraps.removed formed split closed plain with
      outside | ⟨bounded, before', after', left', right', removed⟩
    · refine .inr ⟨by rw [parseExpr, outside]; rfl, fun _ => ?_⟩
      have overruns := removeBorderParenthesis_spec (before ++ r.text ++ after)
      rw [outside] at overruns
      exact count_of_overrunsBorder (core_sub.subset (by simp [split])) plain
        (r.nested valid left right) (overruns.1 rfl)
    rw [Reads, parseExpr_succ removed, trim_formed lawful left' formed right', ← tree]
    cases core with
    | brackets => exact bare.elim
    | nop channelId =>
      have single : ∀ op, parseOp (Rendering.nop channelId).text op = .ok none := fun op =>
        formed.parseOp_none bounded (by cases op <;> simp [Operation.level, Rendering.level])
      have plain : parseOps (Rendering.nop channelId).text operations = .ok none := by
        rw [operations, parseOps_cons (single _), parseOps_cons (single _),
          parseOps_cons (single _), parseOps]
      rw [plain, Rendering.text, lawful.extract channelId core_valid]
      exact .inl rfl
    | node op first rest =>
      rw [parseOps_node core_valid bounded]
      have each := rest.forall₂_parts ih core_valid.2.2.2 spaces_nil core_valid.1
      rw [List.nil_append] at each
      rcases mapM_forall₂ each with parsed | ⟨outside, operand, mem, many⟩
      · exact .inl (by simp only [parsed]; rfl)
      · refine .inr ⟨by simp only [outside]; rfl, fun enough => ?_⟩
        have shorter := parseOps_spec (Rendering.node op first rest).text operations
        rw [parseOps_node core_valid bounded] at shorter
        have := shorter operand mem
        have := core_sub.length_le
        have := many (by omega)
        rw [← splitTop_node core_valid bounded] at mem
        have := ((splitTop_sublist mem).trans core_sub).count_le '('
        omega

/-- A rendering with fewer than 2^31 opening brackets does not overrun. -/
theorem parse_rendering {lib : Streams} (lawful : lib.Lawful) {r : Rendering}
    {before after : List Char} (valid : r.Valid) (left : Spaces before) (right : Spaces after)
    (few : (before ++ r.text ++ after).count '(' < 2 ^ 31) :
    parse lib (before ++ r.text ++ after) = .ok r.tree ∧
      ¬ Overruns lib (before ++ r.text ++ after) := by
  have enough := Nat.lt_succ_self (before ++ r.text ++ after).length
  have parsed : parse lib (before ++ r.text ++ after) = .ok r.tree := by
    refine (parseExpr_rendering lawful _ valid left right).resolve_right ?_
    rintro ⟨-, many⟩
    have := many enough
    rw [intLimit] at this
    omega
  refine ⟨parsed, fun overruns => ?_⟩
  rw [← (parseExpr_iff lawful enough).2, ← parse, parsed] at overruns
  cases overruns

/-- For every text: the parser stays inside of it and makes the tree of each rendering it
is, just where it does not overrun. -/
theorem parse_correct_iff {lib : Streams} (lawful : lib.Lawful) (text : List Char) :
    (parse lib text ≠ .error .outside ∧
      ∀ (r : Rendering) (before after : List Char), r.Valid → Spaces before → Spaces after →
        before ++ r.text ++ after = text → parse lib text = .ok r.tree) ↔
      ¬ Overruns lib text := by
  have outside := (parseExpr_iff lawful (Nat.lt_succ_self text.length)).2
  rw [← outside]
  refine ⟨And.left, fun inside => ⟨inside, ?_⟩⟩
  rintro r before after valid left right rfl
  exact (parseExpr_rendering lawful _ valid left right).resolve_right fun out => inside out.1

/-- Decimal digits and nothing else. -/
def decimals : Streams where
  trim text := (text.dropWhile isSpace).rdropWhile isSpace
  extract text :=
    if text ≠ [] ∧ text.all Char.isDigit then some (Nat.ofDigitChars 10 text 0, true) else none

theorem decimals_lawful : decimals.Lawful where
  trim _ := rfl
  extract channelId _ := by
    apply (if_pos ⟨Nat.toDigits_ne_nil, List.all_eq_true.2 fun _ => isDigit⟩).trans
    rw [Nat.ofDigitChars_toDigits (by decide) (by decide)]

/-- A bracket that closes none: 1)2 -/
theorem parse_outside : parse decimals ['1', ')', '2'] = .error .outside := by
  have removed : removeBorderParenthesis ['1', ')', '2'] = .error .outside := by
    simp [removeBorderParenthesis, pairBrackets, isSpace, bracketCountMin, clearExcess, skip,
      bind, Except.bind, throw, throwThe, MonadExceptOf.throw]
  rw [parse, List.length_cons, parseExpr, removed]
  rfl

/-- ( 12 | 3 &(45)) -/
def eitherBoth : Rendering :=
  .brackets [' '] (.node .or (.nop 12) (.cons [' '] [' '] (.node .and (.nop 3)
    (.cons [' '] [] (.brackets [] (.nop 45) []) .nil)) .nil)) []

theorem eitherBoth_valid : eitherBoth.Valid := by
  have space : Spaces [' '] := by simp [Spaces, isSpace]
  have id {channelId : Nat} (small : channelId < 2 ^ 64) : (Rendering.nop channelId).Valid := small
  refine ⟨space, ⟨id (by decide), by decide, nofun, space, space, ?_, by decide, trivial⟩,
    spaces_nil⟩
  exact ⟨id (by decide), by decide, nofun, space, spaces_nil,
    ⟨spaces_nil, id (by decide), spaces_nil⟩, by decide, trivial⟩

theorem parse_correct_iff_eitherBoth :
    parse decimals
        [' ', '(', ' ', '1', '2', ' ', '|', ' ', '3', ' ', '&', '(', '4', '5', ')', ')'] =
      .ok (.node .or [.nop 12, .node .and [.nop 3, .nop 45]]) := by
  have space : Spaces [' '] := by simp [Spaces, isSpace]
  have few := (parse_rendering decimals_lawful eitherBoth_valid space spaces_nil (by decide)).2
  exact ((parse_correct_iff decimals_lawful _).2 few).2 eitherBoth [' '] [] eitherBoth_valid space
    spaces_nil rfl

end AdServer.CampaignServer
