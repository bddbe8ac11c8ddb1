import AdServer.RequestInfo.EventOrder

/-!
# A fraud rollback

The rollback cancels what is done by then. A click that comes later cancels
itself; a request and an impression that come later do not.
-/

namespace AdServer.RequestInfo

def Event.isRollback : Event → Bool
  | .fraudRollback _ => true
  | _ => false

/-- The events before the first rollback that finds a profile. -/
def beforeRollback (events : List Event) : List Event :=
  (events.dropWhile Event.isRollback).takeWhile fun event => !event.isRollback

/-- Whether an impression of the request gets verified. -/
def shown (events : List Event) : Bool :=
  (firstRequest events).any fun info =>
    (decide (0 < noticeCount events) || !info.enabledNotice) &&
      (decide (0 < impressionCount events) || !info.enabledImpressionTracking)

/-- What was delivered as normal was delivered as fraud too. -/
def NetsToZero (delivered : List Delivery) : Prop :=
  ((totalsOf delivered).requests.count .normal : Int) -
      (totalsOf delivered).requests.count .fraud = 0 ∧
    ((totalsOf delivered).impressions.count .normal : Int) -
      (totalsOf delivered).impressions.count .fraud = 0 ∧
    ((totalsOf delivered).clicks.count .normal : Int) -
      (totalsOf delivered).clicks.count .fraud = 0

instance decidableNetsToZero (delivered : List Delivery) : Decidable (NetsToZero delivered) :=
  inferInstanceAs (Decidable (_ ∧ _ ∧ _))

namespace Tally

variable {t : Tally} {events : List Event}

theorem Of.verified_eq (h : Of events t) : t.verified = shown events := by
  cases found : firstRequest events with
  | none => simp [verified, noticed, shown, h.request, found]
  | some info =>
    have noticed_eq : t.noticed = (decide (0 < noticeCount events) || !info.enabledNotice) := by
      simp [noticed, h.request, found, h.notice]
    have untracked_eq : t.untracked = !info.enabledImpressionTracking := by
      simp [untracked, h.request, found]
    have own := h.own
    have auto := h.auto
    rw [untracked_eq] at own auto
    simp only [shown, found, Option.any_some, verified, ← noticed_eq, ← h.impressions]
    cases noticed : t.noticed with
    | false => rfl
    | true =>
      cases tracking : info.enabledImpressionTracking with
      | true => 
        have notAuto : t.auto = false := by
          apply Bool.eq_false_iff.2
          intro given
          simp [tracking] at auto
          simp [auto] at given
        simp [notAuto]
      | false =>
        rcases own noticed (by simp [tracking]) with some_came | own
        · simp [some_came]
        · simp [own]

/-- What the rollback has found stays. -/
theorem add_marked (marked : t.fraud = true) (event : Event) :
    (t.add event).fraud = true ∧ (t.add event).fraudRequest = t.fraudRequest ∧
      (t.add event).fraudImpression = t.fraudImpression := by
  have received (next : Tally) : (t.receive next).fraud = next.fraud ∧
      (t.receive next).fraudRequest = next.fraudRequest ∧
      (t.receive next).fraudImpression = next.fraudImpression := by
    unfold receive
    split <;> exact ⟨rfl, rfl, rfl⟩
  cases event with
  | request info =>
    simp only [add]
    split
    · exact ⟨marked, rfl, rfl⟩
    · obtain ⟨fraud, request, impression⟩ := received (t.withRequest info)
      exact ⟨fraud.trans marked, request, impression⟩
  | notice info =>
    simp only [add]
    split
    · exact ⟨marked, rfl, rfl⟩
    · obtain ⟨fraud, request, impression⟩ := received (t.withNotice info)
      exact ⟨fraud.trans marked, request, impression⟩
  | fraudRollback time => simp [add, marked]
  | _ => exact ⟨marked, rfl, rfl⟩

theorem foldl_marked (marked : t.fraud = true) :
    ∃ after, events.foldl next (some t) = some after ∧ after.fraud = true ∧
      after.fraudRequest = t.fraudRequest ∧ after.fraudImpression = t.fraudImpression := by
  induction events generalizing t with
  | nil => exact ⟨t, rfl, marked, rfl, rfl⟩
  | cons event rest ih =>
    obtain ⟨still, request, impression⟩ := add_marked marked event
    obtain ⟨after, found, fraud, request', impression'⟩ := ih still
    exact ⟨after, found, fraud, request'.trans request, impression'.trans impression⟩

end Tally

variable {A : RevenueArithmetic} {moveEnabled : Bool} {userId : UserId} {events : List Event}

theorem tallyOf_rollbacks {rollbacks : List Event} (all : ∀ event ∈ rollbacks, event.isRollback)
    (events : List Event) : tallyOf (rollbacks ++ events) = tallyOf events := by
  induction rollbacks with
  | nil => rfl
  | cons event rest ih =>
    have first := all event List.mem_cons_self
    cases event with
    | fraudRollback time => exact ih fun event h => all event (List.mem_cons_of_mem _ h)
    | _ => cases first

theorem tallyOf_append (before : List Event) (event : Event) :
    tallyOf (before ++ [event]) = Tally.next (tallyOf before) event := by
  rw [tallyOf, List.foldl_append]
  rfl

theorem tallyOf_eq_none_iff : tallyOf events = none ↔ ∀ event ∈ events, event.isRollback := by
  induction events using List.reverseRecOn with
  | nil => simp [tallyOf]
  | append_singleton before event ih =>
    have last : Tally.next (tallyOf before) event = none ↔
        tallyOf before = none ∧ event.isRollback = true := by
      cases tallyOf before <;> cases event <;> simp [Tally.next, Event.isRollback]
    rw [tallyOf_append, last, ih]
    simp [or_imp, forall_and]

theorem exists_rollback (time : Time) (events after : List Event) :
    ∃ before time' rest, events ++ .fraudRollback time :: after =
        before ++ .fraudRollback time' :: rest ∧
      ∀ event ∈ before, event.isRollback = false := by
  induction events with
  | nil => exact ⟨[], time, after, rfl, by simp⟩
  | cons event events ih =>
    obtain ⟨before, time', rest, same, clean⟩ := ih
    cases kind : event.isRollback with
    | true =>
      cases event with
      | fraudRollback time => exact ⟨[], time, _, rfl, by simp⟩
      | _ => cases kind
    | false =>
      refine ⟨event :: before, time', rest, by rw [List.cons_append, same]; rfl, ?_⟩
      simpa [kind] using clean

theorem exists_beforeRollback {before : List Event} (time : Time) (after : List Event)
    (found : tallyOf before ≠ none) :
    ∃ rollbacks time' rest,
      before ++ .fraudRollback time :: after = rollbacks ++ (beforeRollback
        (before ++ .fraudRollback time :: after) ++ .fraudRollback time' :: rest) ∧
      (∀ event ∈ rollbacks, event.isRollback) ∧
      tallyOf (beforeRollback (before ++ .fraudRollback time :: after)) ≠ none ∧
      ∀ event ∈ beforeRollback (before ++ .fraudRollback time :: after),
        event.isRollback = false := by
  induction before with
  | nil => exact absurd rfl found
  | cons event before ih =>
    cases kind : event.isRollback with
    | true =>
      have later : tallyOf before ≠ none := by
        rwa [← @tallyOf_rollbacks [event] (by simpa using kind) before]
      obtain ⟨rollbacks, time', rest, same, all, kept, clean⟩ := ih later
      have skipped : beforeRollback (event :: before ++ .fraudRollback time :: after) =
          beforeRollback (before ++ .fraudRollback time :: after) := by
        simp [beforeRollback, kind]
      rw [skipped]
      exact ⟨event :: rollbacks, time', rest, congrArg (event :: ·) same,
        by simpa [kind] using all, kept, clean⟩
    | false =>
      obtain ⟨start, time', rest, same, clean⟩ := exists_rollback time before after
      have cut : beforeRollback (event :: before ++ .fraudRollback time :: after) =
          event :: start := by
        rw [List.cons_append, same]
        have taken : start.takeWhile (fun event => !event.isRollback) = start :=
          List.takeWhile_eq_self_iff.2 (by simpa using clean)
        rw [beforeRollback, List.dropWhile_cons_of_neg (by simp [kind]),
          List.takeWhile_cons_of_pos (by simp [kind]), List.takeWhile_append, taken, if_pos rfl,
          List.takeWhile_cons_of_neg (by simp [Event.isRollback]), List.append_nil]
      have clean : ∀ event' ∈ event :: start, event'.isRollback = false := by
        simpa [kind] using clean
      rw [cut]
      refine ⟨[], time', rest, by rw [List.cons_append, same]; rfl, by simp, ?_, clean⟩
      rw [ne_eq, tallyOf_eq_none_iff]
      intro all
      simp [all event List.mem_cons_self] at kind

theorem tallyOf_rolledBack {before : List Event} (time : Time) (after : List Event)
    (found : tallyOf before ≠ none) :
    let events := before ++ .fraudRollback time :: after
    ((tallyOf events).getD {}).fraud = true ∧
    ((tallyOf events).getD {}).fraudRequest = (firstRequest (beforeRollback events)).isSome ∧
    ((tallyOf events).getD {}).fraudImpression = shown (beforeRollback events) := by
  intro events
  obtain ⟨rollbacks, time', rest, same, all, kept, clean⟩ := exists_beforeRollback time after found
  change events = rollbacks ++ (beforeRollback events ++ _) at same
  change tallyOf (beforeRollback events) ≠ none at kept
  change ∀ event ∈ beforeRollback events, _ at clean
  generalize beforeRollback events = done at *
  have counts := tallyOf_counts done
  have unmarked : ((tallyOf done).getD {}).fraud = false :=
    tallyOf_unmarked fun time member => by simpa [Event.isRollback] using clean _ member
  obtain ⟨t, tally⟩ := Option.ne_none_iff_exists'.1 kept
  rw [tally] at counts unmarked
  have marked : (t.add (.fraudRollback time')).fraud = true ∧
      (t.add (.fraudRollback time')).fraudRequest = t.request.isSome ∧
      (t.add (.fraudRollback time')).fraudImpression = t.verified := by
    simp [Tally.add, show t.fraud = false from unmarked]
  obtain ⟨last, run, fraud, request, impression⟩ := @Tally.foldl_marked _ rest marked.1
  have ends : tallyOf events = some last := by
    rw [same, tallyOf_rollbacks all, tallyOf, List.foldl_append, ← tallyOf, tally]
    exact run
  rw [ends]
  refine ⟨fraud, ?_, ?_⟩
  · rw [← counts.request]
    exact request.trans marked.2.1
  · rw [← counts.verified_eq]
    exact impression.trans marked.2.2

/-- What was delivered as normal, less what was delivered as fraud. -/
theorem netsToZero_iff {t : Tally} {delivered : List Delivery} (settled : t.Settled)
    (same : totalsOf delivered = t.totals A) (requested : t.request.isSome) (marked : t.fraud) :
    NetsToZero delivered ↔ t.fraudRequest = true ∧ (t.verified = true → t.fraudImpression = true) := by
  have rolled := settled.rolledBack
  have requests : (t.totals A).requests.count .normal = 1 ∧
      (t.totals A).requests.count .fraud = if t.fraudRequest then 1 else 0 := by
    cases fraud : t.fraudRequest <;> simp [Tally.totals, requested, fraud]
  have impressions : (t.totals A).impressions.count .normal = (if t.verified then 1 else 0) ∧
      (t.totals A).impressions.count .fraud = if t.fraudImpression then 1 else 0 := by
    cases verified : t.verified <;> cases fraud : t.fraudImpression <;>
      simp [Tally.totals, verified, fraud, Multiset.count_replicate]
  have clicks : (t.totals A).clicks.count .normal = (t.totals A).clicks.count .fraud := by
    cases clicked : t.clicked <;> simp [Tally.totals, clicked, marked, Multiset.count_replicate]
  rw [NetsToZero, same, requests.1, requests.2, impressions.1, impressions.2, clicks]
  cases request : t.fraudRequest <;> cases verified : t.verified <;>
    cases impression : t.fraudImpression <;> simp_all

/-- A rolled back request nets to zero exactly when the request was there at the rollback, and its
impression too unless it is never verified. -/
theorem fraud_nets_to_zero_iff (of : ∀ event ∈ events, event.Of userId)
    (requested : ∃ info, .request info ∈ events)
    (rolledBack : ∃ before time after, events = before ++ .fraudRollback time :: after ∧
      (processEvents A moveEnabled none before).1 ≠ none) :
    NetsToZero (processEvents A moveEnabled none events).2 ↔
      (∃ info, .request info ∈ beforeRollback events) ∧
        (shown events = true → shown (beforeRollback events) = true) := by
  obtain ⟨before, time, after, rfl, stored⟩ := rolledBack
  obtain ⟨info, member⟩ := requested
  have found : tallyOf before ≠ none := by
    have rel := (@processEvents_stored A moveEnabled _ _ _ .none _
      fun event h => of event (List.mem_append_left _ h)).1
    intro none
    change Option.Rel _ (tallyOf before) _ at rel
    rw [none] at rel
    cases profile : (processEvents A moveEnabled Option.none before).1 with
    | none => exact stored profile
    | some p =>
      rw [profile] at rel
      cases rel
  obtain ⟨marked, request, impression⟩ := tallyOf_rolledBack time after found
  have counts := tallyOf_counts (before ++ .fraudRollback time :: after)
  have hasRequest := firstRequest_isSome member
  rw [← counts.request] at hasRequest
  rw [netsToZero_iff (tallyOf_settled of) (totalsOf_tallyOf of) hasRequest marked,
    counts.verified_eq, request, impression]
  refine and_congr_left fun _ => Iff.intro (fun some_request => ?_) fun ⟨info, member⟩ => ?_
  · obtain ⟨info, first⟩ := Option.isSome_iff_exists.1 some_request
    exact ⟨info, firstRequest_mem first⟩
  · exact firstRequest_isSome member

/-- The click after the rollback is cancelled with it. -/
theorem shownRequest_netsToZero :
    NetsToZero (processEvents default true none [.fraudRollback 1000000, .request {}, .notice {},
      .impression {}, .fraudRollback 2000000, .click 3000000, .click 4000000]).2 :=
  (@fraud_nets_to_zero_iff default true none _
    (by simp [Event.Of]) ⟨{}, by simp⟩ ⟨[.fraudRollback 1000000, .request {}, .notice {},
      .impression {}], 2000000, _, rfl, by decide +kernel⟩).2
    ⟨⟨{}, by decide⟩, by decide⟩

/-- The request that comes after the rollback of its notice is not cancelled. -/
theorem lateFraud_not_cancelled :
    ¬∀ (A : RevenueArithmetic) (moveEnabled : Bool) (userId : UserId) (events : List Event),
      (∀ event ∈ events, event.Of userId) → (∃ info, .request info ∈ events) →
      (∃ before time after, events = before ++ .fraudRollback time :: after ∧
        (processEvents A moveEnabled none before).1 ≠ none) →
      NetsToZero (processEvents A moveEnabled none events).2 := by
  intro always
  have netted := always default true none [.notice {}, .fraudRollback 1000000, .request {}]
    (by simp [Event.Of]) ⟨{}, by simp⟩ ⟨[.notice {}], 1000000, _, rfl, by decide +kernel⟩
  revert netted
  decide +kernel

end AdServer.RequestInfo
