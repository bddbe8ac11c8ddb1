import AdServer.RequestInfo.FraudRollback
import Mathlib.Tactic.Ring

/-!
# The balance of a request's amounts

The frontend confirms the original revenue for each impression. What goes to the
pool is to leave the campaign with the revenue that was evaluated, or with nothing
when the request is fraud.
-/

namespace AdServer.RequestInfo

/-- Whether a rollback finds the profile. -/
def rolledBack (events : List Event) : Bool :=
  (events.dropWhile Event.isRollback).any Event.isRollback

/-- The original revenue, confirmed for each impression; that of an untracked request is confirmed
with the request. -/
def confirmedAmount (events : List Event) (profile : RequestProfile) : Int :=
  (impressionCount events + if ((tallyOf events).getD {}).auto then 1 else 0 : Nat) *
    (profile.advRevenue + profile.deltaAdvRevenue).impression

/-- The confirmed amounts and those of the pool make up what the campaign owes. -/
def Balanced (A : RevenueArithmetic) (moveEnabled : Bool) (events : List Event) : Prop :=
  ∀ profile ∈ (processEvents A moveEnabled none events).1,
    confirmedAmount events profile +
        (totalsOf (processEvents A moveEnabled none events).2).campaignAmount =
      if rolledBack events then 0 else profile.advRevenue.impression

namespace Tally

/-- The publisher's amount with the commission of the agency. -/
def amountByPublisher (A : RevenueArithmetic) (t : Tally) : Int :=
  (t.costed.publisherAmount A).impression +
    A.mulFloor (t.costed.publisherAmount A).impression t.costed.advCommission

/-- The amounts that a rollback leaves cancel. -/
def Cancels (A : RevenueArithmetic) (t : Tally) (before : Bool) : Prop :=
  if agencyProfitByPubAmount t.costed.atFlags then
    t.amountByPublisher A = if before then t.full else 0
  else before ∨ t.full = 0

instance decidableCancels (A : RevenueArithmetic) (t : Tally) (before : Bool) :
    Decidable (t.Cancels A before) :=
  inferInstanceAs (Decidable (ite _ _ _))

variable {A : RevenueArithmetic} {t : Tally}

theorem billed_eq : t.billed A =
    if agencyProfitByPubAmount t.costed.atFlags then t.amountByPublisher A else t.full := by
  cases flag : agencyProfitByPubAmount t.costed.atFlags <;>
    simp [billed, RequestProfile.billing, calculateAdvBillingAmounts, flag, amountByPublisher, full]

theorem cancels_iff (before : Bool) :
    t.Cancels A before ↔ t.billed A = if before then t.full else 0 := by
  rw [billed_eq, Cancels]
  cases agencyProfitByPubAmount t.costed.atFlags <;> cases before <;> simp

theorem confirmed_add_campaignAmount (verified : t.verified = true) :
    ((t.impressions + if t.auto then 1 else 0 : Nat) : Int) * t.full + (t.totals A).campaignAmount =
      t.billed A - if t.fraudImpression then t.full else 0 := by
  have came : t.impressions + (if t.auto then 1 else 0) = t.duplicates + 1 := by
    have := some_came verified
    simp only [duplicates]
    omega
  rw [came]
  simp only [totals, verified, if_true]
  push_cast
  ring

end Tally

variable {A : RevenueArithmetic} {moveEnabled : Bool} {userId : UserId} {events : List Event}

theorem tallyOf_dropWhile (events : List Event) :
    tallyOf (events.dropWhile Event.isRollback) = tallyOf events := by
  rw [← @tallyOf_rollbacks (events.takeWhile Event.isRollback)
    (fun event => List.mem_takeWhile_imp), List.takeWhile_append_dropWhile]

theorem exists_rolledBack (h : rolledBack events = true) :
    ∃ before time after, events = before ++ .fraudRollback time :: after ∧ tallyOf before ≠ none := by
  obtain ⟨event, member, kind⟩ := List.any_eq_true.1 h
  obtain ⟨time, rfl⟩ : ∃ time, event = .fraudRollback time := by
    cases event with
    | fraudRollback time => exact ⟨time, rfl⟩
    | _ => cases kind
  obtain ⟨start, rest, cut⟩ := List.append_of_mem member
  refine ⟨events.takeWhile Event.isRollback ++ start, time, rest, ?_, ?_⟩
  · rw [List.append_assoc, ← cut, List.takeWhile_append_dropWhile]
  · cases start with
    | nil =>
      have first := List.head?_dropWhile_not Event.isRollback events
      simp [cut, Event.isRollback] at first
    | cons first start =>
      have first_kind := List.head?_dropWhile_not Event.isRollback events
      rw [cut] at first_kind
      rw [ne_eq, tallyOf_eq_none_iff]
      intro all
      have := all first (by simp)
      simp [this] at first_kind

theorem tallyOf_marks (of : ∀ event ∈ events, event.Of userId) :
    ((tallyOf events).getD {}).fraudImpression =
      (rolledBack events && shown (beforeRollback events)) := by
  cases rolled : rolledBack events with
  | true =>
    obtain ⟨before, time, after, rfl, found⟩ := exists_rolledBack rolled
    exact (tallyOf_rolledBack time after found).2.2
  | false =>
    have clean : ∀ time, Event.fraudRollback time ∉ events.dropWhile Event.isRollback := by
      intro time member
      have := List.any_eq_false.1 rolled _ member
      simp [Event.isRollback] at this
    have unmarked := tallyOf_unmarked clean
    rw [tallyOf_dropWhile] at unmarked
    exact ((tallyOf_settled of).unmarked unmarked).2

/-- The amounts of a request whose impression is delivered balance unless it is rolled back. After
a rollback they do only when the impression's amount was not corrected, or when the impression that
the rollback missed is billed with nothing. -/
theorem balanced_iff (of : ∀ event ∈ events, event.Of userId) (delivered : shown events = true) :
    Balanced A moveEnabled events ↔
      rolledBack events = false ∨
        ((tallyOf events).getD {}).Cancels A (shown (beforeRollback events)) := by
  have counts := tallyOf_counts events
  have marks := tallyOf_marks of
  have stored := (@processEvents_stored A moveEnabled _ _ _ .none _ of).1
  have total := @totalsOf_tallyOf A moveEnabled _ _ of
  change Option.Rel _ (tallyOf events) _ at stored
  unfold Balanced confirmedAmount
  rw [total]
  generalize (processEvents A moveEnabled none events).1 = profile at stored
  rw [← counts.verified_eq] at delivered
  generalize tallyOf events = tally at *
  cases stored with
  | none => simp [Tally.verified, Tally.noticed] at delivered
  | @some t profile stored =>
    have verified : t.verified = true := delivered
    have revenue := stored.revenue verified
    have original : (profile.advRevenue + profile.deltaAdvRevenue).impression = t.full := by
      rw [Revenue.add_impression, revenue, stored.delta verified]
      ring
    have amounts := Tally.confirmed_add_campaignAmount (A := A) verified
    simp only [Option.mem_def, Option.some.injEq, forall_eq', Option.getD_some] at counts marks ⊢
    rw [← counts.impressions, original, amounts, revenue, marks, Tally.cancels_iff]
    cases rolledBack events <;> simp [sub_eq_zero]

/-- The arithmetic of eight digits after the point. -/
def revenueDecimal : RevenueArithmetic where
  one := 10 ^ 8
  mulFloor amount factor := (amount * factor).fdiv (10 ^ 8)
  mulCeil amount factor := -(-(amount * factor)).fdiv (10 ^ 8)
  div amount divider := (amount * 10 ^ 8).tdiv divider
  divFloor amount divider := (amount * 10 ^ 8).fdiv divider
  divCeil amount divider := -(-(amount * 10 ^ 8)).fdiv divider

/-- The impressions of a request that is billed by its own price, and a rollback. -/
def rolledBackImpressions : List Event :=
  [.request { advRevenue := { impression := 5000000 }, pubRevenue := { impression := 3000000 } },
    .notice {}, .impression {}, .impression {}, .fraudRollback 1000000, .impression {}]

theorem rolledBackImpressions_balanced : Balanced revenueDecimal true rolledBackImpressions :=
  (@balanced_iff revenueDecimal true none _ (by simp [rolledBackImpressions, Event.Of]) (by decide)).2
    (.inr (by decide +kernel))

/-- The rollback of an impression that is billed by the publisher's amount takes the original
revenue back and leaves the correction. -/
theorem corrected_not_balanced :
    ¬∀ (A : RevenueArithmetic) (moveEnabled : Bool) (userId : UserId) (events : List Event),
      (∀ event ∈ events, event.Of userId) → shown events = true → Balanced A moveEnabled events := by
  intro always
  have balanced := always revenueDecimal true none
    [.request { atFlags := 2 ^ 15, advRevenue := { impression := 5000000 }
                pubRevenue := { impression := 3000000 }, advCommission := 10000000 },
      .notice {}, .impression {}, .fraudRollback 1000000] (by simp [Event.Of]) (by decide)
  have amounts := balanced _ rfl
  revert amounts
  decide +kernel

end AdServer.RequestInfo
