import AdServer.CampaignCommons.FastExpression
import AdServer.CampaignCommons.Optimize
import AdServer.CampaignServer.ExpressionRendering
import AdServer.Lib.FixedWidth

/-!
# From the text of a channel to a match

The tree of a text is packed, unpacked over the channels that a config holds, and then
optimized or compiled.
-/

namespace AdServer.CampaignServer

open AdServer.CampaignCommons
open AdServer.Lib (uint uint_natCast)

/-- `ExpressionInfo`, with no operation for NOP. -/
inductive ExpressionInfo
  | mk (operation : Option Operation) (channelId : Nat) (subChannels : List ExpressionInfo)

/-- The cast from one enumeration to the other. -/
def Operation.cast : Operation → CampaignCommons.Operation
  | .or => .or
  | .and => .and
  | .andNot => .andNot

mutual

/-- `pack_non_linked_expression`; the id of a channel is sent in 32 bits. -/
def NonLinkedExpression.pack : NonLinkedExpression → ExpressionInfo
  | .nop channelId => .mk none (uint channelId) []
  | .node op subs => .mk (some op) 0 (packEach subs)

def packEach : List NonLinkedExpression → List ExpressionInfo
  | [] => []
  | sub :: rest => sub.pack :: packEach rest

end

section

variable (channels : Nat → Channel)

mutual

/-- `unpack_expression` over the holders as the load leaves them: an id that no channel comes
for has an empty one. -/
def ExpressionInfo.unpack : ExpressionInfo → Expression
  | .mk none channelId _ => if channelId = 0 then .unresolved else .nop (channels channelId)
  | .mk (some op) _ subs => .node op.cast (unpackEach subs)

def unpackEach : List ExpressionInfo → List Expression
  | [] => []
  | sub :: rest => sub.unpack :: unpackEach rest

end

end

mutual

/-- What a text says of a request, by what each channel says of it. -/
def Rendering.holds (value : Nat → Bool) : Rendering → Bool
  | .nop channelId => channelId != 0 && value channelId
  | .brackets _ inner _ => inner.holds value
  | .node op first rest => op.cast.eval (first.holds value :: rest.hold value)

def Operands.hold (value : Nat → Bool) : Operands → List Bool
  | .nil => []
  | .cons _ _ operand rest => operand.holds value :: rest.hold value

end

mutual

/-- A condition on the channels that a text names. -/
def Rendering.All (P : Nat → Prop) : Rendering → Prop
  | .nop channelId => P channelId
  | .brackets _ inner _ => inner.All P
  | .node _ first rest => first.All P ∧ rest.All P

def Operands.All (P : Nat → Prop) : Operands → Prop
  | .nil => True
  | .cons _ _ operand rest => operand.All P ∧ rest.All P

end

variable {channels : Nat → Channel}

section

variable (S : Finset Nat)

mutual

theorem Rendering.unpack_triggered : ∀ r : Rendering, r.All (· < 2 ^ 32) →
    (r.tree.pack.unpack channels).triggered S = r.holds fun k => (channels k).triggered S
  | .nop channelId, sent => by
    have cut : uint channelId = channelId := uint_natCast sent
    rw [Rendering.tree, NonLinkedExpression.pack, cut]
    by_cases zero : channelId = 0 <;>
      simp [ExpressionInfo.unpack, Rendering.holds, zero, Expression.triggered]
  | .brackets _ inner _, sent => inner.unpack_triggered sent
  | .node op first rest, sent => by
    rw [Rendering.tree, NonLinkedExpression.pack, ExpressionInfo.unpack, triggered_node,
      Rendering.holds, packEach, unpackEach, List.map_cons, first.unpack_triggered sent.1,
      rest.unpack_triggered sent.2]

theorem Operands.unpack_triggered : ∀ rest : Operands, rest.All (· < 2 ^ 32) →
    (unpackEach channels (packEach rest.trees)).map (Expression.triggered S) =
      rest.hold fun k => (channels k).triggered S
  | .nil, _ => rfl
  | .cons _ _ operand rest, sent => by
    rw [Operands.trees, packEach, unpackEach, List.map_cons, operand.unpack_triggered sent.1,
      rest.unpack_triggered sent.2, Operands.hold]

end

end

variable {P : Expression → Prop}

mutual

theorem Rendering.unpack_every (node : ∀ op sub rest, P (.node op (sub :: rest))) :
    ∀ r : Rendering, r.All (· < 2 ^ 32) →
      (r.All fun k => ((ExpressionInfo.mk none k []).unpack channels).Every P) →
      (r.tree.pack.unpack channels).Every P
  | .nop channelId, sent, all => by
    have cut : uint channelId = channelId := uint_natCast sent
    rw [Rendering.tree, NonLinkedExpression.pack, cut]
    exact all
  | .brackets _ inner _, sent, all => inner.unpack_every node sent all
  | .node op first rest, sent, all => by
    rw [Rendering.tree, NonLinkedExpression.pack, ExpressionInfo.unpack, every_node]
    refine ⟨node _ _ _, ?_⟩
    rw [← everyEach_iff]
    exact ⟨first.unpack_every node sent.1 all.1, rest.unpack_every node sent.2 all.2⟩

theorem Operands.unpack_every (node : ∀ op sub rest, P (.node op (sub :: rest))) :
    ∀ rest : Operands, rest.All (· < 2 ^ 32) →
      (rest.All fun k => ((ExpressionInfo.mk none k []).unpack channels).Every P) →
      EveryEach P (unpackEach channels (packEach rest.trees))
  | .nil, _, _ => trivial
  | .cons _ _ operand rest, sent, all =>
    ⟨operand.unpack_every node sent.1 all.1, rest.unpack_every node sent.2 all.2⟩

end

/-- A text with fewer than 2^31 opening brackets and ids of 32 bits: whatever the config
holds for the channels it names, the optimized expression, and the fast channel where each
of them is there, are triggered just when the text says so. -/
theorem rendering_matched {lib : Streams} (lawful : lib.Lawful) {r : Rendering}
    {before after : List Char} (valid : r.Valid) (left : Spaces before) (right : Spaces after)
    (few : (before ++ r.text ++ after).count '(' < 2 ^ 31) (sent : r.All (· < 2 ^ 32)) :
    ∃ tree, parse lib (before ++ r.text ++ after) = .ok tree ∧ ∀ S : Finset Nat,
      ((r.All fun k => ((ExpressionInfo.mk none k []).unpack channels).Every Expression.HasOperands) →
        (tree.pack.unpack channels).optimize.elim false (Expression.triggered S) =
          r.holds fun k => (channels k).triggered S) ∧
      ((r.All fun k => ((ExpressionInfo.mk none k []).unpack channels).Every Compilable) →
        Cell.matchCell S (fastExpressionChannel (.expression (tree.pack.unpack channels))) =
          r.holds fun k => (channels k).triggered S) := by
  refine ⟨r.tree, (parse_rendering lawful valid left right few).1, ?_⟩
  intro S
  rw [← r.unpack_triggered S sent]
  constructor
  · intro all
    exact (Expression.optimize_triggered S).2 _ (r.unpack_every (fun _ _ _ => by
      simp [Expression.HasOperands]) sent all)
  · intro all
    have every : (r.tree.pack.unpack channels).Every Compilable :=
      r.unpack_every (fun _ _ _ => by simp [Compilable]) sent all
    exact (Cell.matchCell_reordering _ _).trans
      ((Cell.matchCell_makeCell S).1 (.expression _) rfl every)

theorem eitherBoth_all {P : Nat → Prop} (all : P 12 ∧ P 3 ∧ P 45) : eitherBoth.All P :=
  ⟨all.1, ⟨all.2.1, all.2.2, trivial⟩, trivial⟩

/-- The text ( 12 | 3 &(45)), for a request with the channels 3 and 45, and one with 3 alone. -/
theorem rendering_matched_eitherBoth :
    ∃ tree, parse decimals eitherBoth.text = .ok tree ∧
      (tree.pack.unpack fun k => .holder (.simple k)).optimize.elim false
        (Expression.triggered {3, 45}) = true ∧
      Cell.matchCell {3} (fastExpressionChannel
        (.expression (tree.pack.unpack fun k => .holder (.simple k)))) = false := by
  obtain ⟨tree, parsed, matched⟩ := rendering_matched decimals_lawful eitherBoth_valid spaces_nil
    spaces_nil (by decide) (eitherBoth_all (by decide))
  rw [List.nil_append, List.append_nil] at parsed
  exact ⟨tree, parsed,
    (matched {3, 45}).1 (eitherBoth_all ⟨⟨trivial, trivial⟩, ⟨trivial, trivial⟩, ⟨trivial, trivial⟩⟩),
    (matched {3}).2 (eitherBoth_all ⟨⟨rfl, trivial⟩, ⟨rfl, trivial⟩, ⟨rfl, trivial⟩⟩)⟩

end AdServer.CampaignServer
