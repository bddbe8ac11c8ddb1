import Mathlib.Data.Finset.Basic
import Mathlib.Data.List.ReduceOption

/-!
# Expression channels

Boolean expressions over channels. An expression points at channels, and these at
further expressions; the pointers are unfolded here, which the absence of cycles allows.
-/

namespace AdServer.CampaignCommons

/-- `ExpressionChannel::Operation`, less NOP and TRUE. -/
inductive Operation
  | and
  | or
  | andNot
  deriving DecidableEq, Repr

/-- What an operation makes of the values of its operands. -/
def Operation.eval : Operation → List Bool → Bool
  | .and, values => values.all id
  | .or, values => values.any id
  | .andNot, [] => false
  | .andNot, first :: rest => first && !rest.any id

theorem Operation.eval_single {op : Operation} (plain : op ≠ .andNot) (value : Bool) :
    op.eval [value] = value := by
  cases op with
  | and => simp [Operation.eval]
  | or => simp [Operation.eval]
  | andNot => exact absurd rfl plain

mutual

/-- `SimpleChannel`, `ExpressionChannel` and an `ExpressionChannelHolder` without and
with a channel. -/
inductive Channel
  | simple (channelId : Nat)
  | expression (expr : Expression)
  | emptyHolder
  | holder (channel : Channel)

/-- `ExpressionChannel::Expression`: `always` is TRUE, `unresolved` a NOP without a
channel. -/
inductive Expression
  | always
  | unresolved
  | nop (channel : Channel)
  | node (op : Operation) (subChannels : List Expression)

end

theorem Channel.induction {C : Channel → Prop} {P : Expression → Prop}
    (simple : ∀ channelId, C (.simple channelId))
    (expression : ∀ expr, P expr → C (.expression expr))
    (emptyHolder : C .emptyHolder)
    (holder : ∀ channel, C channel → C (.holder channel))
    (always : P .always)
    (unresolved : P .unresolved)
    (nop : ∀ channel, C channel → P (.nop channel))
    (node : ∀ op subs, (∀ sub ∈ subs, P sub) → P (.node op subs)) :
    (∀ channel, C channel) ∧ ∀ expr, P expr := by
  have nil : ∀ sub ∈ ([] : List Expression), P sub := by simp
  have cons : ∀ sub rest, P sub → (∀ sub ∈ rest, P sub) → ∀ s ∈ sub :: rest, P s := by
    intro sub rest head tail
    simpa using ⟨head, tail⟩
  constructor
  · intro channel
    apply Channel.rec (motive_1 := C) (motive_2 := P)
      (motive_3 := fun subs => ∀ sub ∈ subs, P sub) <;> assumption
  · intro expr
    apply Expression.rec (motive_1 := C) (motive_2 := P)
      (motive_3 := fun subs => ∀ sub ∈ subs, P sub) <;> assumption

section Triggered

variable (triggeredChannels : Finset Nat)

mutual

/-- `triggered`, with no status set and nothing to collect. -/
def Channel.triggered : Channel → Bool
  | .simple channelId => decide (channelId ∈ triggeredChannels)
  | .expression expr => expr.triggered
  | .emptyHolder => false
  | .holder channel => channel.triggered

/-- `triggered_expr_` -/
def Expression.triggered : Expression → Bool
  | .always => true
  | .unresolved => false
  | .nop channel => channel.triggered
  | .node op subs => op.eval (triggeredEach subs)

def triggeredEach : List Expression → List Bool
  | [] => []
  | sub :: rest => sub.triggered :: triggeredEach rest

end

theorem triggeredEach_eq (subs : List Expression) :
    triggeredEach triggeredChannels subs =
      subs.map (Expression.triggered triggeredChannels) := by
  induction subs with
  | nil => rfl
  | cons sub rest ih => simp [triggeredEach, ih]

@[simp] theorem triggered_nop (channel : Channel) :
    (Expression.nop channel).triggered triggeredChannels =
      channel.triggered triggeredChannels := rfl

@[simp] theorem triggered_node (op : Operation) (subs : List Expression) :
    (Expression.node op subs).triggered triggeredChannels =
      op.eval (subs.map (Expression.triggered triggeredChannels)) := by
  rw [Expression.triggered, triggeredEach_eq]

end Triggered

section Every

variable (P : Expression → Prop)

mutual

def Channel.Every : Channel → Prop
  | .simple _ => True
  | .expression expr => expr.Every
  | .emptyHolder => True
  | .holder channel => channel.Every

/-- The condition holds here and inside. -/
def Expression.Every : Expression → Prop
  | .always => P .always
  | .unresolved => P .unresolved
  | .nop channel => P (.nop channel) ∧ channel.Every
  | .node op subs => P (.node op subs) ∧ EveryEach subs

def EveryEach : List Expression → Prop
  | [] => True
  | sub :: rest => sub.Every ∧ EveryEach rest

end

variable {P}

theorem everyEach_iff {subs : List Expression} :
    EveryEach P subs ↔ ∀ sub ∈ subs, sub.Every P := by
  induction subs with
  | nil => simp [EveryEach]
  | cons sub rest ih => simp [EveryEach, ih]

theorem every_node {op : Operation} {subs : List Expression} :
    (Expression.node op subs).Every P ↔ P (.node op subs) ∧ ∀ sub ∈ subs, sub.Every P := by
  rw [Expression.Every, everyEach_iff]

theorem Expression.Every.here {expr : Expression} (h : expr.Every P) : P expr := by
  cases expr with
  | always => exact h
  | unresolved => exact h
  | nop channel => exact h.1
  | node op subs => exact h.1

theorem every_mono {Q : Expression → Prop} (implies : ∀ expr, P expr → Q expr) :
    (∀ channel : Channel, channel.Every P → channel.Every Q) ∧
      ∀ expr : Expression, expr.Every P → expr.Every Q := by
  apply Channel.induction
  · intro channelId h
    exact h
  · intro expr ih h
    exact ih h
  · intro h
    exact h
  · intro channel ih h
    exact ih h
  · exact implies _
  · exact implies _
  · intro channel ih h
    exact ⟨implies _ h.1, ih h.2⟩
  · intro op subs ih h
    rw [every_node] at h ⊢
    exact ⟨implies _ h.1, fun sub mem => ih sub mem (h.2 sub mem)⟩

end Every

end AdServer.CampaignCommons
