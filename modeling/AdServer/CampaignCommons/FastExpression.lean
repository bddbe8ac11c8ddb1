import Mathlib.Data.Finset.Card
import Mathlib.Data.List.Sort
import AdServer.CampaignCommons.Expression

/-!
# Fast expressions

`FastExpressionChannel`: an expression compiled to cells that keep their simple
operands apart, with the operands reordered so that those that look at few
channels are evaluated first.
-/

namespace AdServer.CampaignCommons

/-- A `ChannelIdSet` that the sets of a list have been inserted into. -/
def unite (sets : List (Finset Nat)) : Finset Nat := sets.foldr (· ∪ ·) ∅

/-- `FastExpressionChannel::Expression` -/
inductive Cell
  | always
  | nop (channelId : Nat)
  | node (op : Operation) (simple : Finset Nat) (subChannels : List Cell)

namespace Cell

@[induction_eliminator]
theorem induction {P : Cell → Prop} (always : P .always) (nop : ∀ channelId, P (.nop channelId))
    (node : ∀ op simple subs, (∀ sub ∈ subs, P sub) → P (.node op simple subs)) (cell : Cell) :
    P cell := by
  apply Cell.rec (motive_1 := P) (motive_2 := fun subs => ∀ sub ∈ subs, P sub)
  · exact always
  · exact nop
  · exact node
  · simp
  · intro sub rest this tail
    simpa using ⟨this, tail⟩

def simple : Cell → Finset Nat
  | .node _ simple _ => simple
  | _ => ∅

section Match

variable (channels : Finset Nat)

/-- The value of an operation over its simple operands and the values of the others. -/
def cellValue : Operation → Finset Nat → List Bool → Bool
  | .and, simple, values => decide (∀ channelId ∈ simple, channelId ∈ channels) && values.all id
  | .or, simple, values => decide (∃ channelId ∈ simple, channelId ∈ channels) || values.any id
  | .andNot, _, values => Operation.andNot.eval values

mutual

/-- `match_cell_` -/
def matchCell : Cell → Bool
  | .always => true
  | .nop channelId => channelId != 0 && decide (channelId ∈ channels)
  | .node op simple subs => cellValue channels op simple (matchEach subs)

def matchEach : List Cell → List Bool
  | [] => []
  | sub :: rest => matchCell sub :: matchEach rest

end

theorem matchEach_eq (subs : List Cell) :
    matchEach channels subs = subs.map (matchCell channels) := by
  induction subs with
  | nil => rfl
  | cons sub rest ih => simp [matchEach, ih]

@[simp] theorem matchCell_node (op : Operation) (simple : Finset Nat) (subs : List Cell) :
    matchCell channels (.node op simple subs) =
      cellValue channels op simple (subs.map (matchCell channels)) := by
  rw [matchCell, matchEach_eq]

end Match

/-- Whether a sub cell of AND or OR is dissolved into the cell around it. -/
def absorbed (op sub : Operation) (simple : Finset Nat) (subs : List Cell) : Bool :=
  sub == op || (sub != .andNot && simple.card + subs.length == 1)

/-- What a sub cell adds to the simple operands. -/
def simplePart (op : Operation) : Cell → Finset Nat
  | .always => ∅
  | .nop channelId => if channelId = 0 then ∅ else {channelId}
  | .node sub simple subs => if absorbed op sub simple subs then simple else ∅

/-- What a sub cell adds to the other operands. -/
def subPart (op : Operation) : Cell → List Cell
  | .always => [.always]
  | .nop _ => []
  | .node sub simple subs => if absorbed op sub simple subs then subs else [.node sub simple subs]

/-- `make_cell_` for an operation, from the cells of its operands. -/
def makeNode : Operation → List Cell → Cell
  | .andNot, cells => .node .andNot ∅ cells
  | _, [only] => only
  | op, cells => .node op (unite (cells.map (simplePart op))) (cells.flatMap (subPart op))

mutual

/-- The cell of what `simple_channel` and `expression_channel` find through holders,
the id 0 where they find nothing. -/
def channelCell : Channel → Cell
  | .simple channelId => .nop channelId
  | .expression expr => makeCell expr
  | .emptyHolder => .nop 0
  | .holder channel => channelCell channel

/-- `make_cell_` -/
def makeCell : Expression → Cell
  | .always => .always
  | .unresolved => .nop 0
  | .nop channel => channelCell channel
  | .node op subs => makeNode op (makeEach subs)

def makeEach : List Expression → List Cell
  | [] => []
  | sub :: rest => makeCell sub :: makeEach rest

end

theorem makeEach_eq (subs : List Expression) : makeEach subs = subs.map makeCell := by
  induction subs with
  | nil => rfl
  | cons sub rest ih => simp [makeEach, ih]

/-- The position of the operands after sorting by the size of their basis; those of
equal size stay in order. -/
def byComplexity (done : List (Cell × Finset Nat)) : List (Cell × Finset Nat) :=
  done.insertionSort fun left right => left.2.card ≤ right.2.card

/-- The operand an AND_NOT subtracts from stays first. -/
def ordered : Operation → List (Cell × Finset Nat) → List Cell
  | .andNot, [] => []
  | .andNot, first :: rest => first.1 :: (byComplexity rest).map Prod.fst
  | _, done => (byComplexity done).map Prod.fst

/-- The basis of OR is all that its operands look at, that of the others the smallest
of their operands'. -/
def basisOf : Operation → Finset Nat → List (Finset Nat) → Finset Nat
  | .or, basis, bases => bases.foldl (· ∪ ·) basis
  | _, basis, [] => basis
  | _, _, first :: rest =>
    rest.foldl (fun least sub => if sub.card < least.card then sub else least) first

mutual

/-- `reordering_` -/
def reordering : Cell → Finset Nat → Cell × Finset Nat
  | .always, basis => (.always, basis)
  | .nop channelId, basis => (.nop channelId, insert channelId basis)
  | .node op simple subs, basis =>
    let done := reorderEach op subs
    (.node op simple (ordered op done), basisOf op basis (done.map Prod.snd))

def reorderEach (op : Operation) : List Cell → List (Cell × Finset Nat)
  | [] => []
  | sub :: rest =>
    reordering sub (if op = .or then ∅ else sub.simple) :: reorderEach op rest

end

end Cell

/-- The constructor of `FastExpressionChannel`. -/
def fastExpressionChannel (channel : Channel) : Cell :=
  (Cell.reordering (Cell.channelCell channel) ∅).1

/-- Through its holders a pointer leads to a channel, and to none of id 0. -/
def Channel.named : Channel → Bool
  | .simple channelId => channelId != 0
  | .expression _ => true
  | .emptyHolder => false
  | .holder channel => channel.named

/-- What the fast channel takes: every leaf names a channel, and operations have operands. -/
def Compilable : Expression → Prop
  | .always => True
  | .unresolved => False
  | .nop channel => channel.named
  | .node _ subs => subs ≠ []

namespace Cell

variable {channels : Finset Nat}

variable {op : Operation} {cells : List Cell}

theorem cellValue_single (plain : op ≠ .andNot) (value : Bool) :
    cellValue channels op ∅ [value] = value := by
  cases op with
  | and => simp [cellValue]
  | or => simp [cellValue]
  | andNot => exact absurd rfl plain

theorem cellValue_singleton (plain : op ≠ .andNot) (channelId : Nat) :
    cellValue channels op {channelId} [] = decide (channelId ∈ channels) := by
  cases op with
  | and => simp [cellValue]
  | or => simp [cellValue]
  | andNot => exact absurd rfl plain

/-- A dissolved cell has its value under the operation around it. -/
theorem cellValue_absorbed {op sub : Operation} (plain : op ≠ .andNot) {simple : Finset Nat}
    {subs : List Cell} (h : absorbed op sub simple subs = true) :
    cellValue channels op simple (subs.map (matchCell channels)) =
      matchCell channels (.node sub simple subs) := by
  simp only [absorbed, Bool.or_eq_true, Bool.and_eq_true, beq_iff_eq, bne_iff_ne] at h
  cases h with
  | inl same => simp [same]
  | inr alone =>
    obtain ⟨subPlain, one⟩ := alone
    cases subs with
    | nil =>
      obtain ⟨channelId, rfl⟩ := Finset.card_eq_one.1 (by simpa using one)
      simp [cellValue_singleton plain, cellValue_singleton subPlain]
    | cons inner rest =>
      have none : simple = ∅ := by
        apply Finset.card_eq_zero.1
        rw [List.length_cons] at one
        omega
      have last : rest = [] := by
        apply List.length_eq_zero_iff.1
        rw [List.length_cons] at one
        omega
      simp [none, last, cellValue_single plain, cellValue_single subPlain]

theorem cellValue_part (plain : op ≠ .andNot) {cell : Cell} (named : cell ≠ .nop 0) :
    cellValue channels op (simplePart op cell) ((subPart op cell).map (matchCell channels)) =
      matchCell channels cell := by
  cases cell with
  | always => exact cellValue_single plain true
  | nop channelId =>
    have nonzero : channelId ≠ 0 := fun zero => named (zero ▸ rfl)
    simp [simplePart, subPart, nonzero, cellValue_singleton plain, matchCell]
  | node sub simple subs =>
    simp only [simplePart, subPart]
    split
    · next dissolved => exact cellValue_absorbed plain dissolved
    · exact cellValue_single plain _

theorem cellValue_append (plain : op ≠ .andNot) (first second : Finset Nat)
    (left right : List Bool) :
    cellValue channels op (first ∪ second) (left ++ right) =
      op.eval [cellValue channels op first left, cellValue channels op second right] := by
  cases op with
  | and =>
    have both : decide (∀ channelId ∈ first ∪ second, channelId ∈ channels) =
        (decide (∀ channelId ∈ first, channelId ∈ channels) &&
          decide (∀ channelId ∈ second, channelId ∈ channels)) := by
      rw [← Bool.decide_and]
      apply decide_eq_decide.2
      constructor
      · intro all
        exact ⟨fun id mem => all id (Finset.mem_union_left _ mem),
          fun id mem => all id (Finset.mem_union_right _ mem)⟩
      · rintro ⟨inFirst, inSecond⟩ id mem
        exact (Finset.mem_union.1 mem).elim (inFirst id) (inSecond id)
    simp only [cellValue, both, List.all_append, Operation.eval, List.all_cons, List.all_nil, id]
    grind
  | or =>
    have either : decide (∃ channelId ∈ first ∪ second, channelId ∈ channels) =
        (decide (∃ channelId ∈ first, channelId ∈ channels) ||
          decide (∃ channelId ∈ second, channelId ∈ channels)) := by
      rw [← Bool.decide_or]
      apply decide_eq_decide.2
      constructor
      · rintro ⟨id, mem, found⟩
        exact (Finset.mem_union.1 mem).imp (fun m => ⟨id, m, found⟩) (fun m => ⟨id, m, found⟩)
      · rintro (⟨id, mem, found⟩ | ⟨id, mem, found⟩)
        · exact ⟨id, Finset.mem_union_left _ mem, found⟩
        · exact ⟨id, Finset.mem_union_right _ mem, found⟩
    simp only [cellValue, either, List.any_append, Operation.eval, List.any_cons, List.any_nil, id]
    grind
  | andNot => exact absurd rfl plain

theorem eval_cons (plain : op ≠ .andNot) (value : Bool) (values : List Bool) :
    op.eval (value :: values) = op.eval [value, op.eval values] := by
  cases op with
  | and => simp [Operation.eval]
  | or => simp [Operation.eval]
  | andNot => exact absurd rfl plain

theorem cellValue_parts (plain : op ≠ .andNot) (named : ∀ cell ∈ cells, cell ≠ .nop 0) :
    cellValue channels op (unite (cells.map (simplePart op)))
        ((cells.flatMap (subPart op)).map (matchCell channels)) =
      op.eval (cells.map (matchCell channels)) := by
  induction cells with
  | nil => cases op <;> simp_all [cellValue, Operation.eval, unite]
  | cons cell rest ih =>
    have head : cellValue channels op (simplePart op cell)
        ((subPart op cell).map (matchCell channels)) = matchCell channels cell :=
      cellValue_part plain (named cell (by simp))
    have tail := ih fun cell mem => named cell (List.mem_cons_of_mem _ mem)
    rw [unite, List.map_cons, List.foldr_cons, List.flatMap_cons, List.map_append,
      cellValue_append plain, head, ← unite, tail, List.map_cons, ← eval_cons plain]

theorem makeNode_value (op : Operation) (named : ∀ cell ∈ cells, cell ≠ .nop 0) :
    matchCell channels (makeNode op cells) = op.eval (cells.map (matchCell channels)) := by
  unfold makeNode
  split
  · simp [cellValue]
  · next only plain =>
    rw [List.map_singleton]
    cases op with
    | and => simp [Operation.eval]
    | or => simp [Operation.eval]
    | andNot => exact absurd rfl plain
  · next plain _ =>
    rw [matchCell_node, cellValue_parts plain named]

theorem makeCell_named :
    (∀ channel : Channel, channel.named → channel.Every Compilable →
      channelCell channel ≠ .nop 0) ∧
    ∀ expr : Expression, expr.Every Compilable → makeCell expr ≠ .nop 0 := by
  apply Channel.induction
  · intro channelId named _
    simpa [Channel.named, channelCell] using named
  · intro expr ih _ every
    exact ih every
  · intro named
    cases named
  · intro channel ih named every
    exact ih named every
  · simp [makeCell]
  · intro every
    exact every.elim
  · intro channel ih every
    exact ih every.1 every.2
  · intro op subs ih every
    rw [every_node] at every
    rw [makeCell, makeEach_eq]
    unfold makeNode
    split
    · simp
    · next only _ single =>
      obtain ⟨sub, rfl, rfl⟩ := List.map_eq_singleton_iff.1 single
      exact ih sub (by simp) (every.2 sub (by simp))
    · simp

/-- A compiled expression has the value of the expression. -/
theorem matchCell_makeCell (channels : Finset Nat) :
    (∀ channel : Channel, channel.named → channel.Every Compilable →
      matchCell channels (channelCell channel) = channel.triggered channels) ∧
    ∀ expr : Expression, expr.Every Compilable →
      matchCell channels (makeCell expr) = expr.triggered channels := by
  apply Channel.induction
  · intro channelId named _
    simp_all [Channel.named, channelCell, matchCell, Channel.triggered]
  · intro expr ih _ every
    exact ih every
  · intro named
    cases named
  · intro channel ih named every
    exact ih named every
  · intro _
    rfl
  · intro every
    exact every.elim
  · intro channel ih every
    exact ih every.1 every.2
  · intro op subs ih every
    rw [every_node] at every
    have named : ∀ cell ∈ subs.map makeCell, cell ≠ .nop 0 := by
      intro cell mem
      obtain ⟨sub, subMem, rfl⟩ := List.mem_map.1 mem
      exact makeCell_named.2 sub (every.2 sub subMem)
    rw [makeCell, makeEach_eq, makeNode_value op named, triggered_node, List.map_map]
    congr 1
    apply List.map_congr_left
    intro sub mem
    exact ih sub mem (every.2 sub mem)

theorem reorderEach_eq (op : Operation) (subs : List Cell) :
    reorderEach op subs =
      subs.map fun sub => reordering sub (if op = .or then ∅ else sub.simple) := by
  induction subs with
  | nil => rfl
  | cons sub rest ih => simp [reorderEach, ih]

theorem cellValue_ordered (op : Operation) (simple : Finset Nat)
    (done : List (Cell × Finset Nat)) :
    cellValue channels op simple ((ordered op done).map (matchCell channels)) =
      cellValue channels op simple (done.map fun sub => matchCell channels sub.1) := by
  have values : ∀ subs : List (Cell × Finset Nat),
      (((byComplexity subs).map Prod.fst).map (matchCell channels)).Perm
        (subs.map fun sub => matchCell channels sub.1) := by
    intro subs
    rw [List.map_map]
    exact (List.perm_insertionSort _ subs).map _
  cases op with
  | and => simp only [ordered, cellValue, (values done).all_eq]
  | or => simp only [ordered, cellValue, (values done).any_eq]
  | andNot =>
    cases done with
    | nil => rfl
    | cons first rest =>
      simp only [ordered, cellValue, Operation.eval, List.map_cons, (values rest).any_eq]

theorem matchCell_reordering (cell : Cell) (basis : Finset Nat) :
    matchCell channels (reordering cell basis).1 = matchCell channels cell := by
  induction cell generalizing basis with
  | always => rfl
  | nop => rfl
  | node op simple subs ih =>
    rw [reordering, matchCell_node, reorderEach_eq, cellValue_ordered, matchCell_node,
      List.map_map]
    congr 1
    apply List.map_congr_left
    intro sub mem
    exact ih sub mem _

theorem makeCell_andNot (first : Expression) (rest : List Expression) :
    makeCell (.node .andNot (first :: rest)) =
      .node .andNot ∅ (makeCell first :: rest.map makeCell) := by
  rw [makeCell, makeEach_eq]
  rfl

theorem reordering_andNot (simple basis : Finset Nat) (first : Cell) (rest : List Cell) :
    ∃ others : List Cell,
      (reordering (.node .andNot simple (first :: rest)) basis).1 =
        .node .andNot simple ((reordering first first.simple).1 :: others) ∧
      others.Perm (rest.map fun sub => (reordering sub sub.simple).1) := by
  let done := rest.map fun sub => reordering sub sub.simple
  have sorted : ((byComplexity done).map Prod.fst).Perm (done.map Prod.fst) :=
    (List.perm_insertionSort _ done).map _
  refine ⟨(byComplexity done).map Prod.fst, ?_, ?_⟩
  · rw [reordering, reorderEach_eq]
    rfl
  · rwa [List.map_map] at sorted

end Cell

/-- The fast channel is triggered when the channel is: neither the compiling nor the
reordering changes the value, and neither moves the positive operand of AND_NOT. -/
theorem fastExpressionChannel_triggered {channel : Channel} (named : channel.named)
    (every : channel.Every Compilable) (S : Finset Nat) :
    Cell.matchCell S (fastExpressionChannel channel) = channel.triggered S ∧
    Cell.matchCell S (Cell.channelCell channel) = channel.triggered S ∧
    (∀ cell basis, Cell.matchCell S (Cell.reordering cell basis).1 = Cell.matchCell S cell) ∧
    (∀ first rest, Cell.makeCell (.node .andNot (first :: rest)) =
      .node .andNot ∅ (Cell.makeCell first :: rest.map Cell.makeCell)) ∧
    ∀ simple basis first rest, ∃ others : List Cell,
      (Cell.reordering (.node .andNot simple (first :: rest)) basis).1 =
        .node .andNot simple ((Cell.reordering first first.simple).1 :: others) ∧
      others.Perm (rest.map fun sub => (Cell.reordering sub sub.simple).1) := by
  have compiled := (Cell.matchCell_makeCell S).1 channel named every
  have reordered : Cell.matchCell S (fastExpressionChannel channel) =
      Cell.matchCell S (Cell.channelCell channel) := Cell.matchCell_reordering _ _
  exact ⟨reordered.trans compiled, compiled, fun cell basis => Cell.matchCell_reordering cell basis,
    Cell.makeCell_andNot, Cell.reordering_andNot⟩

/-- 1 ^ (2 | 3), with 2 behind a holder -/
theorem fastExpressionChannel_triggered_one :
    Cell.matchCell {1} (fastExpressionChannel (.expression (.node .andNot
      [.nop (.simple 1), .node .or [.nop (.holder (.simple 2)), .nop (.simple 3)]]))) = true :=
  (fastExpressionChannel_triggered rfl
    (by simp [Channel.Every, Expression.Every, EveryEach, Compilable, Channel.named]) {1}).1

end AdServer.CampaignCommons
