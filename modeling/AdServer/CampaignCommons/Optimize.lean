import AdServer.CampaignCommons.Expression

/-!
# Optimizing an expression

`optimize`: operands that name no channel are dropped, an expression that cannot
be triggered is dropped as a whole, and an operation is merged into the one
around it where both are the same or one of them has a single operand. The pass
works in place: a channel that several leaves point at is passed over once for each
of them, and `optimize_reduced` says that only the first time changes it.
-/

namespace AdServer.CampaignCommons

namespace Expression

/-- Whether the operands of an operand are put in its place. -/
def merges (op : Operation) (single : Bool) : Expression → Bool
  | .node sub subs => sub == op || (sub != .andNot && (subs.length == 1 || single))
  | _ => false

def operands : Expression → List Expression
  | .node _ subs => subs
  | _ => []

/-- The operation after the pass over the operands: a single operand that is merged
gives its own. -/
def mergedOp (op : Operation) : List Expression → Operation
  | [.node sub subs] => if merges op true (.node sub subs) then sub else op
  | _ => op

/-- The end of `optimize_expr_` for AND and OR. -/
def merge (op : Operation) (subs : List Expression) : Expression :=
  .node (mergedOp op subs) (subs.flatMap fun sub =>
    if sub.merges op (subs.length == 1) then sub.operands else [sub])

/-- `optimize_expr_` for AND once the operands are optimized. -/
def optimizeAnd (subs : List (Option Expression)) : Option Expression :=
  if subs.any Option.isNone || subs.reduceOption.isEmpty then none
  else some (merge .and subs.reduceOption)

/-- `optimize_expr_` for OR once the operands are optimized. -/
def optimizeOr (subs : List (Option Expression)) : Option Expression :=
  if subs.reduceOption.isEmpty then none else some (merge .or subs.reduceOption)

/-- `optimize_expr_` for AND_NOT once the operands are optimized: with all that is
subtracted dropped, an AND of the first operand is left. -/
def optimizeAndNot : List (Option Expression) → Option Expression
  | some first :: rest =>
    if rest.reduceOption.isEmpty then some (merge .and [first])
    else some (.node .andNot (first :: rest.reduceOption))
  | _ => none

def optimizeNode : Operation → List (Option Expression) → Option Expression
  | .and => optimizeAnd
  | .or => optimizeOr
  | .andNot => optimizeAndNot

end Expression

open Expression

mutual

/-- `optimize`, with none where it returns null. A holder gives what its channel has
become. -/
def Channel.optimize : Channel → Option Channel
  | .simple channelId => some (.simple channelId)
  | .expression expr => expr.optimize.map .expression
  | .emptyHolder => none
  | .holder channel => channel.optimize

/-- `optimize_expr_`, with none where it returns false. -/
def Expression.optimize : Expression → Option Expression
  | .always => none
  | .unresolved => none
  | .nop channel => channel.optimize.map .nop
  | .node op subs => optimizeNode op (optimizeEach subs)

def optimizeEach : List Expression → List (Option Expression)
  | [] => []
  | sub :: rest => sub.optimize :: optimizeEach rest

end

/-- A simple or an expression channel, and not a holder. -/
def Channel.direct : Channel → Bool
  | .simple _ => true
  | .expression _ => true
  | _ => false

namespace Expression

theorem optimizeEach_eq (subs : List Expression) : optimizeEach subs = subs.map optimize := by
  induction subs with
  | nil => rfl
  | cons sub rest ih => simp [optimizeEach, ih]

theorem optimize_node (op : Operation) (subs : List Expression) :
    (node op subs).optimize = optimizeNode op (subs.map optimize) := by
  rw [optimize, optimizeEach_eq]

section Dropped

variable (dropped : Bool) (S : Finset Nat)

/-- The value of an operand of which nothing may be left. -/
def valueOf (expr : Option Expression) : Bool := expr.elim dropped (triggered S)

@[simp] theorem valueOf_none : valueOf dropped S none = dropped := rfl

@[simp] theorem valueOf_some (expr : Expression) :
    valueOf dropped S (some expr) = expr.triggered S := rfl

theorem map_reduceOption {subs : List (Option Expression)}
    (all : subs.any Option.isNone = false) :
    subs.reduceOption.map (triggered S) = subs.map (valueOf dropped S) := by
  induction subs with
  | nil => rfl
  | cons sub rest ih =>
    cases sub with
    | none => simp at all
    | some sub => simpa [List.reduceOption_cons_of_some] using ih (by simpa using all)

theorem or_reduceOption (subs : List (Option Expression)) :
    Operation.or.eval (subs.reduceOption.map (triggered S)) =
      Operation.or.eval (subs.map (valueOf false S)) := by
  induction subs with
  | nil => rfl
  | cons sub rest ih =>
    simp only [Operation.eval] at ih
    cases sub <;> simp [Operation.eval, List.reduceOption_cons_of_none,
      List.reduceOption_cons_of_some, -List.any_map, ih]

end Dropped

section Value

variable (S : Finset Nat)

variable {op : Operation} {expr : Expression} {subs : List (Option Expression)}

theorem merges_iff {single : Bool} :
    expr.merges op single = true ↔
      ∃ sub subs, expr = .node sub subs ∧
        (sub = op ∨ sub ≠ .andNot ∧ (subs.length = 1 ∨ single = true)) := by
  cases expr <;> simp [merges]

/-- An operand that is merged has the value its operands have under the operation
around it. -/
theorem eval_operands (plain : op ≠ .andNot) (merged : expr.merges op false = true) :
    op.eval (expr.operands.map (triggered S)) = expr.triggered S := by
  obtain ⟨sub, subs, rfl, same | ⟨subPlain, one⟩⟩ := merges_iff.1 merged
  · simp [operands, same]
  · obtain ⟨inner, rfl⟩ := List.length_eq_one_iff.1 (one.resolve_right Bool.false_ne_true)
    simp [operands, Operation.eval_single plain, Operation.eval_single subPlain]

theorem eval_flatMap (plain : op ≠ .andNot) {subs : List Expression}
    {parts : Expression → List Expression}
    (same : ∀ sub ∈ subs, op.eval ((parts sub).map (triggered S)) = sub.triggered S) :
    op.eval ((subs.flatMap parts).map (triggered S)) = op.eval (subs.map (triggered S)) := by
  cases op with
  | andNot => exact absurd rfl plain
  | and =>
    induction subs with
    | nil => rfl
    | cons sub rest ih =>
      have head := same sub (by simp)
      have tail := ih fun s mem => same s (by simp [mem])
      simp only [Operation.eval, List.flatMap_cons, List.map_append, List.all_append,
        List.map_cons, List.all_cons, id] at head tail ⊢
      rw [head, tail]
  | or =>
    induction subs with
    | nil => rfl
    | cons sub rest ih =>
      have head := same sub (by simp)
      have tail := ih fun s mem => same s (by simp [mem])
      simp only [Operation.eval, List.flatMap_cons, List.map_append, List.any_append,
        List.map_cons, List.any_cons, id] at head tail ⊢
      rw [head, tail]

theorem merge_triggered (plain : op ≠ .andNot) (subs : List Expression) :
    (merge op subs).triggered S = op.eval (subs.map (triggered S)) := by
  by_cases one : ∃ sub inner, subs = [.node sub inner] ∧ merges op true (.node sub inner) = true
  · obtain ⟨sub, inner, rfl, merged⟩ := one
    have value := Operation.eval_single plain ((node sub inner).triggered S)
    simp only [merge, mergedOp, merged, List.length_singleton, beq_self_eq_true, if_true,
      List.flatMap_singleton, operands, List.map_singleton, value]
  · have kept : mergedOp op subs = op := by
      unfold mergedOp
      split
      · next sub inner =>
        exact if_neg fun merged => one ⟨sub, inner, rfl, merged⟩
      · rfl
    rw [merge, triggered_node, kept]
    apply eval_flatMap S plain
    intro sub mem
    split
    · next merged =>
      by_cases single : subs.length = 1
      · obtain ⟨only, rfl⟩ := List.length_eq_one_iff.1 single
        cases List.mem_singleton.1 mem
        obtain ⟨op', inner, rfl, _⟩ := merges_iff.1 merged
        exact absurd ⟨op', inner, rfl, by simpa using merged⟩ one
      · rw [beq_eq_false_iff_ne.2 single] at merged
        exact eval_operands S plain merged
    · exact Operation.eval_single plain _

theorem optimizeAnd_value (nonempty : subs ≠ []) :
    valueOf false S (optimizeAnd subs) = Operation.and.eval (subs.map (valueOf false S)) := by
  unfold optimizeAnd
  cases dropped : subs.any Option.isNone with
  | true =>
    obtain ⟨sub, mem, isNone⟩ := List.any_eq_true.1 dropped
    cases Option.isNone_iff_eq_none.1 isNone
    have absent : (subs.map (valueOf false S)).all id = false :=
      List.all_eq_false.2 ⟨false, List.mem_map.2 ⟨none, mem, rfl⟩, by simp⟩
    simp [Operation.eval, absent]
  | false =>
    have values := map_reduceOption false S dropped
    have kept : subs.reduceOption.isEmpty = false := by
      apply List.isEmpty_eq_false_iff.2
      intro empty
      rw [empty] at values
      exact nonempty (List.map_eq_nil_iff.1 values.symm)
    rw [kept, Bool.or_false, if_neg Bool.false_ne_true, valueOf_some,
      merge_triggered S (by decide), values]

theorem optimizeOr_value (subs : List (Option Expression)) :
    valueOf false S (optimizeOr subs) = Operation.or.eval (subs.map (valueOf false S)) := by
  have values := or_reduceOption S subs
  unfold optimizeOr
  split
  · next empty =>
    rw [List.isEmpty_iff.1 empty] at values
    exact values
  · rw [valueOf_some, merge_triggered S (by decide)]
    exact values

theorem optimizeAndNot_value (subs : List (Option Expression)) :
    valueOf false S (optimizeAndNot subs) = Operation.andNot.eval (subs.map (valueOf false S)) := by
  cases subs with
  | nil => rfl
  | cons first rest =>
    cases first with
    | none => simp [optimizeAndNot, Operation.eval]
    | some first =>
      have values := or_reduceOption S rest
      simp only [Operation.eval] at values
      simp only [optimizeAndNot]
      split
      · next empty =>
        rw [List.isEmpty_iff.1 empty] at values
        rw [valueOf_some, merge_triggered S (by decide), List.map_singleton,
          Operation.eval_single (by decide), List.map_cons, Operation.eval, ← values]
        simp
      · rw [valueOf_some, triggered_node, List.map_cons, List.map_cons, Operation.eval,
          Operation.eval, values, valueOf_some]

theorem optimizeNode_value (op : Operation) (nonempty : subs ≠ []) :
    valueOf false S (optimizeNode op subs) = op.eval (subs.map (valueOf false S)) := by
  cases op with
  | and => exact optimizeAnd_value S nonempty
  | or => exact optimizeOr_value S subs
  | andNot => exact optimizeAndNot_value S subs

end Value

/-- What the pass takes: no TRUE, and operations have operands. -/
def HasOperands : Expression → Prop
  | .always => False
  | .node _ subs => subs ≠ []
  | _ => True

/-- Dropping what cannot be triggered keeps the value. -/
theorem optimize_triggered (S : Finset Nat) :
    (∀ channel : Channel, channel.Every HasOperands →
      channel.optimize.elim false (Channel.triggered S) = channel.triggered S) ∧
    ∀ expr : Expression, expr.Every HasOperands →
      valueOf false S expr.optimize = expr.triggered S := by
  apply Channel.induction
  · intro channelId _
    rfl
  · intro expr ih every
    rw [Channel.triggered, ← ih every, Channel.optimize]
    cases expr.optimize <;> rfl
  · intro _
    rfl
  · intro channel ih every
    exact ih every
  · intro every
    exact every.elim
  · intro _
    rfl
  · intro channel ih every
    rw [triggered_nop, ← ih every.2, Expression.optimize]
    cases channel.optimize <;> rfl
  · intro op subs ih every
    rw [every_node] at every
    have nonempty : subs.map optimize ≠ [] := by
      intro none
      exact every.1 (List.map_eq_nil_iff.1 none)
    rw [optimize_node, optimizeNode_value S op nonempty, triggered_node, List.map_map]
    congr 1
    apply List.map_congr_left
    intro sub mem
    exact ih sub mem (every.2 sub mem)

/-- Nothing to drop and nothing to merge. -/
def Reduced : Expression → Prop
  | .always => False
  | .unresolved => False
  | .nop channel => channel.direct
  | .node op subs => subs ≠ [] ∧ (op = .andNot → 2 ≤ subs.length) ∧
      (op ≠ .andNot → ∀ sub ∈ subs, sub.merges op (subs.length == 1) = false)

variable {op : Operation} {single : Bool} {expr : Expression} {subs : List Expression}

theorem merges_weaken (h : expr.merges op single = false) : expr.merges op false = false := by
  by_contra merged
  obtain ⟨sub, subs, rfl, either⟩ := merges_iff.1 (Bool.not_eq_false _ ▸ merged)
  apply Bool.false_ne_true
  rw [← h]
  apply merges_iff.2
  exact ⟨sub, subs, rfl, either.imp_right fun other => ⟨other.1, .inl (by simpa using other.2)⟩⟩

theorem merges_other {op other : Operation} (plain : op ≠ .andNot)
    (h : expr.merges other true = false) : expr.merges op single = false := by
  by_contra merged
  obtain ⟨sub, subs, rfl, either⟩ := merges_iff.1 (Bool.not_eq_false _ ▸ merged)
  have subPlain : sub ≠ .andNot := either.elim (fun same => same ▸ plain) And.left
  apply Bool.false_ne_true
  rw [← h]
  exact merges_iff.2 ⟨sub, subs, rfl, .inr ⟨subPlain, .inr rfl⟩⟩

theorem length_le_flatMap {parts : Expression → List Expression}
    (some : ∀ sub ∈ subs, parts sub ≠ []) : subs.length ≤ (subs.flatMap parts).length := by
  induction subs with
  | nil => exact Nat.zero_le _
  | cons sub rest ih =>
    have head := List.length_pos_iff.2 (some sub (by simp))
    have tail := ih fun s mem => some s (List.mem_cons_of_mem _ mem)
    rw [List.flatMap_cons, List.length_append, List.length_cons]
    omega

/-- An operand of several, or what is put in its place, does not merge again. -/
theorem part_settled (plain : op ≠ .andNot) {sub expr : Expression} (reduced : sub.Every Reduced)
    (part : expr ∈ if sub.merges op false then sub.operands else [sub]) :
    expr.Every Reduced ∧ expr.merges op false = false := by
  split at part
  · next merged =>
    obtain ⟨inner, inside, rfl, either⟩ := merges_iff.1 merged
    rw [every_node] at reduced
    obtain ⟨⟨_, _, settled⟩, all⟩ := reduced
    refine ⟨all expr part, ?_⟩
    cases either with
    | inl same => exact merges_weaken (same ▸ settled (same ▸ plain) expr part)
    | inr other =>
      have one : (inside.length == 1) = true := by simpa using other.2
      exact merges_other plain (one ▸ settled other.1 expr part)
  · next kept =>
    rw [List.mem_singleton.1 part]
    exact ⟨reduced, Bool.not_eq_true _ ▸ kept⟩

theorem merge_reduced (plain : op ≠ .andNot) (nonempty : subs ≠ [])
    (all : ∀ sub ∈ subs, sub.Every Reduced) : (merge op subs).Every Reduced := by
  by_cases one : subs.length = 1
  · obtain ⟨only, rfl⟩ := List.length_eq_one_iff.1 one
    have reduced := all only (by simp)
    cases merged : only.merges op true with
    | true =>
      obtain ⟨sub, inner, rfl, _⟩ := merges_iff.1 merged
      simpa [merge, mergedOp, merged, operands] using reduced
    | false =>
      have kept : mergedOp op [only] = op := by
        unfold mergedOp
        split
        · next same =>
          cases same
          exact if_neg (by simp [merged])
        · rfl
      rw [merge, kept, every_node]
      simp [merged, reduced, Reduced, plain]
  · have several : (subs.length == 1) = false := beq_eq_false_iff_ne.2 one
    have kept : mergedOp op subs = op := by
      unfold mergedOp
      split
      · exact absurd rfl one
      · rfl
    have parts : ∀ sub ∈ subs, (if sub.merges op false then sub.operands else [sub]) ≠ [] := by
      intro sub mem
      split
      · next merged =>
        obtain ⟨inner, inside, rfl, _⟩ := merges_iff.1 merged
        exact (all _ mem).here.1
      · simp
    have longer := length_le_flatMap parts
    have positive := List.length_pos_iff.2 nonempty
    have each : ∀ expr ∈ subs.flatMap fun sub =>
        if sub.merges op false then sub.operands else [sub],
        expr.Every Reduced ∧ expr.merges op false = false := by
      intro expr mem
      obtain ⟨sub, subMem, part⟩ := List.mem_flatMap.1 mem
      exact part_settled plain (all sub subMem) part
    rw [merge, kept, several, every_node]
    refine ⟨⟨List.ne_nil_of_length_pos (by omega), fun andNot => absurd andNot plain, ?_⟩,
      fun expr mem => (each expr mem).1⟩
    intro _ expr mem
    rw [beq_eq_false_iff_ne.2 (by omega)]
    exact (each expr mem).2

/-- Everything `optimize_expr_` can leave of an operation. -/
theorem optimizeNode_cases {subs : List (Option Expression)} {left : Expression}
    (h : optimizeNode op subs = some left) :
    (∃ plain kept, plain ≠ .andNot ∧ kept ≠ [] ∧ left = merge plain kept ∧
      ∀ sub ∈ kept, some sub ∈ subs) ∨
    (∃ kept, 2 ≤ kept.length ∧ left = .node .andNot kept ∧ ∀ sub ∈ kept, some sub ∈ subs) := by
  have back : ∀ sub ∈ subs.reduceOption, some sub ∈ subs := fun sub mem =>
    List.reduceOption_mem_iff.1 mem
  cases op with
  | and =>
    simp only [optimizeNode, optimizeAnd] at h
    split at h
    · cases h
    · next kept =>
      cases h
      rw [Bool.or_eq_true, not_or] at kept
      have nonempty : subs.reduceOption ≠ [] := by simpa using kept.2
      exact .inl ⟨.and, subs.reduceOption, by decide, nonempty, rfl, back⟩
  | or =>
    simp only [optimizeNode, optimizeOr] at h
    split at h
    · cases h
    · next kept =>
      cases h
      have nonempty : subs.reduceOption ≠ [] := by simpa using kept
      exact .inl ⟨.or, subs.reduceOption, by decide, nonempty, rfl, back⟩
  | andNot =>
    match subs, h, back with
    | some first :: rest, h, back =>
      rw [List.reduceOption_cons_of_some] at back
      simp only [optimizeNode, optimizeAndNot] at h
      split at h
      · cases h
        exact .inl ⟨.and, [first], by decide, by simp, rfl, by simp⟩
      · next kept =>
        cases h
        have nonempty : rest.reduceOption.length ≠ 0 := by simpa using kept
        refine .inr ⟨first :: rest.reduceOption, ?_, rfl, back⟩
        rw [List.length_cons]
        omega

theorem optimize_every_reduced :
    (∀ channel left : Channel, channel.optimize = some left →
      left.direct ∧ left.Every Reduced) ∧
    ∀ expr left : Expression, expr.optimize = some left → left.Every Reduced := by
  apply Channel.induction
  · intro channelId left h
    cases h
    exact ⟨rfl, trivial⟩
  · intro expr ih left h
    obtain ⟨inner, same, rfl⟩ := Option.map_eq_some_iff.1 h
    exact ⟨rfl, ih inner same⟩
  · intro left h
    cases h
  · intro channel ih left h
    exact ih left h
  · intro left h
    cases h
  · intro left h
    cases h
  · intro channel ih left h
    obtain ⟨inner, same, rfl⟩ := Option.map_eq_some_iff.1 h
    exact ih inner same
  · intro op subs ih left h
    rw [optimize_node] at h
    have all : ∀ sub, some sub ∈ subs.map optimize → sub.Every Reduced := by
      intro sub mem
      obtain ⟨source, sourceMem, same⟩ := List.mem_map.1 mem
      exact ih source sourceMem sub same
    obtain ⟨plain, kept, isPlain, nonempty, rfl, mem⟩ | ⟨kept, two, rfl, mem⟩ :=
      optimizeNode_cases h
    · exact merge_reduced isPlain nonempty fun sub subMem => all sub (mem sub subMem)
    · rw [every_node]
      refine ⟨⟨?_, fun _ => two, fun plain => absurd rfl plain⟩, fun sub subMem =>
        all sub (mem sub subMem)⟩
      exact List.ne_nil_of_length_pos (by omega)

theorem merge_settled (settled : ∀ sub ∈ subs, sub.merges op (subs.length == 1) = false) :
    merge op subs = .node op subs := by
  have kept : mergedOp op subs = op := by
    unfold mergedOp
    split
    · exact if_neg (by simpa using settled _ (List.mem_singleton_self _))
    · rfl
  have parts : ∀ sub ∈ subs,
      (if sub.merges op (subs.length == 1) then sub.operands else [sub]) = [sub] := by
    intro sub mem
    rw [settled sub mem]
    rfl
  rw [merge, kept, List.flatMap_congr parts, List.flatMap_singleton']

theorem optimizeNode_settled (reduced : Reduced (.node op subs)) :
    optimizeNode op (subs.map some) = some (.node op subs) := by
  obtain ⟨nonempty, two, settled⟩ := reduced
  have all : ∀ subs : List Expression, (subs.map some).reduceOption = subs := by
    intro subs
    induction subs with
    | nil => rfl
    | cons sub rest ih => rw [List.map_cons, List.reduceOption_cons_of_some, ih]
  have present : (subs.map some).any Option.isNone = false := by simp
  have some : subs.isEmpty = false := by simpa using nonempty
  cases op with
  | and =>
    rw [optimizeNode, optimizeAnd, present, all, some, merge_settled (settled (by decide))]
    rfl
  | or =>
    rw [optimizeNode, optimizeOr, all, some, merge_settled (settled (by decide))]
    rfl
  | andNot =>
    match subs, two rfl with
    | first :: second :: rest, _ =>
      rw [List.map_cons, optimizeNode, optimizeAndNot, all]
      rfl

/-- A pass over what a pass has left changes nothing. -/
theorem optimize_reduced :
    (∀ channel : Channel, channel.direct → channel.Every Reduced →
      channel.optimize = some channel) ∧
    ∀ expr : Expression, expr.Every Reduced → expr.optimize = some expr := by
  apply Channel.induction
  · intro channelId _ _
    rfl
  · intro expr ih _ every
    rw [Channel.optimize, ih every, Option.map_some]
  · intro direct
    cases direct
  · intro channel _ direct
    cases direct
  · intro every
    exact every.elim
  · intro every
    exact every.elim
  · intro channel ih every
    rw [Expression.optimize, ih every.1 every.2, Option.map_some]
  · intro op subs ih every
    rw [every_node] at every
    have each : subs.map optimize = subs.map some := by
      apply List.map_congr_left
      intro sub mem
      exact ih sub mem (every.2 sub mem)
    rw [optimize_node, each, optimizeNode_settled every.1]

/-- No unresolved leaf, and no AND or OR under a node of the same operation. -/
def Flat : Expression → Prop
  | .always => True
  | .unresolved => False
  | .nop channel => channel.direct
  | .node op subs => op ≠ .andNot → ∀ inner, .node op inner ∉ subs

theorem Reduced.flat (reduced : Reduced expr) : Flat expr := by
  cases expr with
  | always => trivial
  | unresolved => exact reduced
  | nop channel => exact reduced
  | node op subs =>
    intro plain inner mem
    have kept := reduced.2.2 plain _ mem
    simp [merges] at kept

/-- What `optimize` returns has the value of the channel, with null for one that is
never triggered, and is flat; optimizing it again changes nothing. -/
theorem optimize_correct {channel : Channel} (every : channel.Every HasOperands) :
    (∀ left, channel.optimize = some left →
      (∀ S, left.triggered S = channel.triggered S) ∧
      left.direct ∧ left.Every Flat ∧ left.optimize = some left) ∧
    (channel.optimize = none → ∀ S, channel.triggered S = false) := by
  constructor
  · intro left h
    obtain ⟨direct, reduced⟩ := optimize_every_reduced.1 channel left h
    refine ⟨?_, direct, (every_mono fun _ => Reduced.flat).1 left reduced,
      optimize_reduced.1 left direct reduced⟩
    intro S
    have value := (optimize_triggered S).1 channel every
    rwa [h] at value
  · intro none S
    have value := (optimize_triggered S).1 channel every
    rw [none] at value
    exact value.symm

/-- (1 ^ null) & (2 & 3), with 3 behind a holder -/
theorem optimize_correct_nested :
    Channel.triggered {2, 3} (.expression (.node .and
        [.nop (.simple 1), .nop (.simple 2), .nop (.simple 3)])) =
      Channel.triggered {2, 3} (.expression (.node .and [
        .node .andNot [.nop (.simple 1), .unresolved],
        .node .and [.nop (.simple 2), .nop (.holder (.simple 3))]])) :=
  ((optimize_correct
    (by simp [Channel.Every, Expression.Every, EveryEach, HasOperands])).1 _ rfl).1 {2, 3}

end Expression

end AdServer.CampaignCommons
