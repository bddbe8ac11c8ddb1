import AdServer.RequestInfo.EventRuns

/-!
# The order of a request's events

The tally of a run is a matter of counting: the first request of the run gives
the terms, and the other events count wherever they stand.
-/

namespace AdServer.RequestInfo

def firstRequest (events : List Event) : Option RequestInfo :=
  events.findSome? fun
    | .request info => some info
    | _ => none

def noticeCount (events : List Event) : Nat :=
  events.countP fun
    | .notice _ => true
    | _ => false

def impressionCount (events : List Event) : Nat :=
  events.countP fun
    | .impression _ => true
    | _ => false

def clickCount (events : List Event) : Nat :=
  events.countP fun
    | .click _ => true
    | _ => false

def actionCount (events : List Event) : Nat :=
  events.countP fun
    | .action _ => true
    | _ => false

/-- The distinct names of the post-impression actions. -/
def actionNames (events : List Event) : Finset String :=
  (events.filterMap fun
    | .postAction info => some info.actionName
    | _ => none).toFinset

namespace Tally

variable {t next : Tally} {events : List Event}

theorem receive_same (t next : Tally) :
    (t.receive next).request = next.request ∧ (t.receive next).notice = next.notice ∧
    (t.receive next).impressions = next.impressions ∧ (t.receive next).clicks = next.clicks ∧
    (t.receive next).actions = next.actions ∧ (t.receive next).names = next.names := by
  unfold receive
  split <;> exact ⟨rfl, rfl, rfl, rfl, rfl, rfl⟩

/-- What a tally has counted. -/
structure Of (events : List Event) (t : Tally) : Prop where
  request : t.request = firstRequest events
  notice : t.notice = decide (0 < noticeCount events)
  impressions : t.impressions = impressionCount events
  clicks : t.clicks = clickCount events
  actions : t.actions = actionCount events
  names : t.names = actionNames events
  auto : t.auto = true → t.noticed = true ∧ t.untracked = true
  own : t.noticed = true → t.untracked = true → 0 < t.impressions ∨ t.auto = true

theorem receive_own (before : t.noticed = false) (notYet : next.auto = false) :
    ((t.receive next).auto = true →
      (t.receive next).noticed = true ∧ (t.receive next).untracked = true) ∧
    ((t.receive next).noticed = true → (t.receive next).untracked = true →
      0 < (t.receive next).impressions ∨ (t.receive next).auto = true) := by
  cases noticed : next.noticed with
  | false =>
    rw [receive_unnoticed noticed]
    simp [notYet, noticed]
  | true =>
    rw [receive_noticed before noticed]
    unfold withAuto
    split
    · rename_i follows
      simp only [Bool.and_eq_true] at follows
      exact ⟨fun _ => ⟨noticed, follows.1⟩, fun _ _ => .inr rfl⟩
    · rename_i follows
      refine ⟨by simp [notYet], fun _ untracked => .inl ?_⟩
      simp only [untracked, Bool.true_and, decide_eq_true_eq] at follows
      omega

theorem Of.notAuto (h : Of events t) (unnoticed : t.noticed = false) : t.auto = false := by
  apply Bool.eq_false_iff.2
  intro auto
  simp [(h.auto auto).1] at unnoticed

theorem Of.lost (h : Of events t) (time : Time) : Of (events ++ [.fraudRollback time]) t where
  request := by simp [h.request, firstRequest]
  notice := by simp [h.notice, noticeCount]
  impressions := by simp [h.impressions, impressionCount]
  clicks := by simp [h.clicks, clickCount]
  actions := by simp [h.actions, actionCount]
  names := by simp [h.names, actionNames]
  auto := h.auto
  own := h.own

theorem Of.counts (h : Of events t) (event : Event) :
    (t.add event).request = firstRequest (events ++ [event]) ∧
    (t.add event).notice = decide (0 < noticeCount (events ++ [event])) ∧
    (t.add event).impressions = impressionCount (events ++ [event]) ∧
    (t.add event).clicks = clickCount (events ++ [event]) ∧
    (t.add event).actions = actionCount (events ++ [event]) ∧
    (t.add event).names = actionNames (events ++ [event]) := by
  obtain ⟨request, notice, impressions, clicks, actions, names, -, -⟩ := h
  simp only [firstRequest, noticeCount, impressionCount, clickCount, actionCount, actionNames] at *
  cases event with
  | request info =>
    cases requested : t.request with
    | some first =>
      rw [requested] at request
      simp [add, requested, ← request, notice, impressions, clicks, actions, names]
    | none =>
      rw [requested] at request
      simp [add, requested, receive_same, withRequest, ← request, notice, impressions, clicks,
        actions, names]
  | notice info =>
    cases noticed : t.noticed <;>
      simp [add, receive_same, withNotice, *]
  | fraudRollback time => cases fraud : t.fraud <;> simp [add, *]
  | postAction info =>
    refine ⟨?_, ?_, ?_, ?_, ?_, Finset.ext fun name => ?_⟩ <;> simp [add, *]
  | _ => simp [add, *]

theorem Of.add (h : Of events t) (event : Event) : Of (events ++ [event]) (t.add event) := by
  obtain ⟨request, notice, impressions, clicks, actions, names⟩ := h.counts event
  suffices owned : ((t.add event).auto = true →
        (t.add event).noticed = true ∧ (t.add event).untracked = true) ∧
      ((t.add event).noticed = true → (t.add event).untracked = true →
        0 < (t.add event).impressions ∨ (t.add event).auto = true) from
    ⟨request, notice, impressions, clicks, actions, names, owned.1, owned.2⟩
  cases event with
  | request info =>
    cases requested : t.request with
    | some first =>
      have same : t.add (.request info) = t := by simp [Tally.add, requested]
      rw [same]
      exact ⟨h.auto, h.own⟩
    | none =>
      have unnoticed : t.noticed = false := by simp [noticed, requested]
      have added : t.add (.request info) = t.receive (t.withRequest info) := by
        simp [Tally.add, requested]
      rw [added]
      exact receive_own unnoticed (h.notAuto unnoticed)
  | notice info =>
    cases noticed : t.noticed with
    | true =>
      have same : t.add (.notice info) = { t with notice := true } := by simp [Tally.add, noticed]
      have still : ({ t with notice := true } : Tally).noticed = true := by
        obtain ⟨request, found⟩ := Option.isSome_iff_exists.1 (requested_of_noticed noticed)
        simp [Tally.noticed, found]
      rw [same]
      exact ⟨fun auto => ⟨still, (h.auto auto).2⟩, fun _ => h.own noticed⟩
    | false =>
      have added : t.add (.notice info) = t.receive (t.withNotice info) := by
        simp [Tally.add, noticed]
      rw [added]
      exact receive_own noticed (h.notAuto noticed)
  | impression info => exact ⟨h.auto, fun _ _ => .inl (Nat.succ_pos _)⟩
  | click | action | postAction => exact ⟨h.auto, h.own⟩
  | fraudRollback time =>
    cases fraud : t.fraud <;> simp only [Tally.add, fraud, if_true, if_false, Bool.false_eq_true]
    · exact ⟨h.auto, h.own⟩
    · exact ⟨h.auto, h.own⟩

theorem Of.empty : Of [] {} where
  request := rfl
  notice := rfl
  impressions := rfl
  clicks := rfl
  actions := rfl
  names := rfl
  auto := by simp
  own := by simp [noticed]

end Tally

theorem tallyOf_counts (events : List Event) : Tally.Of events ((tallyOf events).getD {}) := by
  induction events using List.reverseRecOn with
  | nil => exact .empty
  | append_singleton events event ih =>
    rw [tallyOf, List.foldl_append, ← tallyOf]
    cases found : tallyOf events with
    | none =>
      rw [found] at ih
      cases event with
      | fraudRollback time => exact ih.lost time
      | _ => exact ih.add _
    | some t =>
      rw [found] at ih
      exact ih.add event

variable {A : RevenueArithmetic} {moveEnabled : Bool} {userId : UserId} {events : List Event}

theorem totalsOf_tallyOf (of : ∀ event ∈ events, event.Of userId) :
    totalsOf (processEvents A moveEnabled none events).2 =
      ((tallyOf events).getD {}).totals A := by
  rw [totalsOf_processEvents of]
  cases tallyOf events with
  | none => exact Tally.totals_empty.symm
  | some t => rfl

/-- A counter counts events of its run. -/
theorem counters_le (of : ∀ event ∈ events, event.Of userId) {profile : RequestProfile}
    (saved : (processEvents A moveEnabled none events).1 = some profile) :
    ∀ count ∈ profile.counts, count ≤ events.length := by
  have stored := (@processEvents_stored A moveEnabled _ _ _ .none _ of).1
  have counted := tallyOf_counts events
  have some_event : 0 < events.length := by
    apply List.length_pos_iff.2
    rintro rfl
    cases saved
  rw [saved] at stored
  change Option.Rel _ (tallyOf events) _ at stored
  generalize tallyOf events = tally at stored counted
  obtain ⟨t, rfl, kept⟩ : ∃ t, tally = some t ∧ Stored A userId t profile := by
    cases stored with
    | some stored => exact ⟨_, rfl, stored⟩
  have impressions : t.impressions ≤ events.length := counted.impressions ▸ List.countP_le_length
  have clicks : t.clicks ≤ events.length := counted.clicks ▸ List.countP_le_length
  have actions : t.actions ≤ events.length := counted.actions ▸ List.countP_le_length
  have tracked : t.tracked t.actions ≤ t.actions := by
    unfold Tally.tracked RequestTerms.tracked
    cases t.request with
    | none => exact Nat.zero_le _
    | some info =>
      dsimp only [Option.map_some, Option.getD_some]
      split <;> omega
  intro count member
  rw [Counters.counts, kept.counters, Tally.counters] at member
  simp only [List.mem_cons, List.not_mem_nil, or_false] at member
  rcases member with rfl | rfl | rfl | rfl | rfl | rfl | rfl | rfl | rfl <;> split_ifs <;> omega

theorem tallyOf_settled (of : ∀ event ∈ events, event.Of userId) :
    ((tallyOf events).getD {}).Settled := by
  have stored := (@processEvents_stored default false _ _ _ .none _ of).1
  change Option.Rel _ (tallyOf events) _ at stored
  generalize (processEvents default false none events).1 = profile at stored
  generalize tallyOf events = tally at stored ⊢
  cases stored with
  | some h => exact h.settled
  | none => exact ⟨by simp, by simp, by simp, by simp, by simp⟩

theorem Tally.add_fraud (t : Tally) {event : Event}
    (notRollback : ∀ time, event ≠ .fraudRollback time) : (t.add event).fraud = t.fraud := by
  have received (next : Tally) : (t.receive next).fraud = next.fraud := by
    unfold receive
    split <;> rfl
  cases event with
  | request info =>
    simp only [add]
    split
    · rfl
    · exact received _
  | notice info =>
    simp only [add]
    split
    · rfl
    · exact received _
  | fraudRollback time => exact absurd rfl (notRollback time)
  | _ => rfl

theorem tallyOf_unmarked (notRolledBack : ∀ time, Event.fraudRollback time ∉ events) :
    ((tallyOf events).getD {}).fraud = false := by
  induction events using List.reverseRecOn with
  | nil => rfl
  | append_singleton events event ih =>
    have before := ih fun time h => notRolledBack time (List.mem_append_left _ h)
    have notRollback : ∀ time, event ≠ .fraudRollback time := by
      rintro time rfl
      exact notRolledBack time (by simp)
    have next : (Tally.next (tallyOf events) event).getD {} =
        ((tallyOf events).getD {}).add event := by
      cases tallyOf events with
      | some t => rfl
      | none =>
        cases event with
        | fraudRollback time => exact absurd rfl (notRollback time)
        | _ => rfl
    rw [tallyOf, List.foldl_append, ← tallyOf]
    simp only [List.foldl_cons, List.foldl_nil]
    rw [next, Tally.add_fraud _ notRollback, before]

variable {info : RequestInfo} {other : List Event}

theorem firstRequest_mem (h : firstRequest events = some info) : Event.request info ∈ events := by
  obtain ⟨event, member, found⟩ := List.exists_of_findSome?_eq_some h
  cases event <;> simp_all

theorem firstRequest_isSome (h : Event.request info ∈ events) : (firstRequest events).isSome := by
  rw [firstRequest, List.findSome?_isSome_iff]
  exact ⟨_, h, rfl⟩

/-- The totals without the amounts, which depend on the costs that came first. -/
def Totals.counts (totals : Totals) : Totals := { totals with campaignAmount := 0 }

/-- The events of one request and one user as the log has them: the impressions are tracked, and
nothing is rolled back. -/
structure OneRequest (userId : UserId) (enabledNotice enabledActionTracking : Bool)
    (events : List Event) : Prop where
  request : ∀ info, .request info ∈ events → info.userId = userId ∧ info.fraud = .normal ∧
    info.enabledNotice = enabledNotice ∧ info.enabledImpressionTracking = true ∧
    info.enabledActionTracking = enabledActionTracking
  impression : ∀ info, .impression info ∈ events → info.userId = none ∨ info.userId = userId
  requested : ∃ info, .request info ∈ events
  notRolledBack : ∀ time, .fraudRollback time ∉ events

variable {enabledNotice enabledActionTracking : Bool}

theorem OneRequest.of (h : OneRequest userId enabledNotice enabledActionTracking events) :
    ∀ event ∈ events, event.Of userId := by
  intro event member
  cases event with
  | request info => exact ⟨(h.request info member).1, (h.request info member).2.1⟩
  | impression info => exact h.impression info member
  | _ => trivial

theorem OneRequest.perm (perm : other.Perm events)
    (h : OneRequest userId enabledNotice enabledActionTracking events) :
    OneRequest userId enabledNotice enabledActionTracking other where
  request := fun info member => h.request info (perm.mem_iff.1 member)
  impression := fun info member => h.impression info (perm.mem_iff.1 member)
  requested := h.requested.imp fun _ member => perm.mem_iff.2 member
  notRolledBack := fun time member => h.notRolledBack time (perm.mem_iff.1 member)

end AdServer.RequestInfo
