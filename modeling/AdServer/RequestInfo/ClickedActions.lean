import AdServer.RequestInfo.CustomActionRuns
import Mathlib.Data.List.MinMax
import Mathlib.Data.Prod.Lex

/-!
# Advertiser actions and clicks

A click leaves a marker of its creative in the user's profile, and takes the actions of
its group that wait. An action is delegated to a marker of its group or waits.

A marker keeps the time of its first click, whichever request it is linked to:
`tiesActions_iff`.
-/

namespace AdServer.RequestInfo.ClickedActions

open Lib.KeyOrder
open Lib (uint uint_of_lt uint_natCast)
open CustomActions (unsignedLong timeSyncPrecision unsignedLong_of_nonneg)

def waitActionExpireTime : Int := 60 * 60

/-- A clicked request. Times are in whole seconds. -/
structure ClickInfo where
  requestId : Nat
  ccgId : Nat
  ccId : Nat
  time : Int
  enabledActionTracking : Bool
  deriving DecidableEq

structure AdvActionInfo where
  ccgId : Nat
  time : Int
  deriving DecidableEq

inductive Event
  | click (info : ClickInfo)
  | advAction (info : AdvActionInfo)
  deriving DecidableEq

structure ActionMarker where
  ccgId : Nat
  ccId : Nat
  time : Nat
  requestId : Nat
  deriving DecidableEq

structure WaitAction where
  ccgId : Nat
  time : Nat
  count : Nat
  deriving DecidableEq

/-- The lists of the profile that clicks use. -/
structure UserActionProfile where
  actionMarkers : List ActionMarker
  waitActions : List WaitAction
  deriving DecidableEq

def UserActionProfile.new : UserActionProfile := ⟨[], []⟩

/-! ## Clicks -/

def ActionMarker.key (marker : ActionMarker) : Nat ×ₗ Nat := toLex (marker.ccgId, marker.ccId)

def ClickInfo.key (info : ClickInfo) : Nat ×ₗ Nat := toLex (info.ccgId, info.ccId)

def newMarker (info : ClickInfo) : ActionMarker :=
  ⟨uint info.ccgId, uint info.ccId, uint info.time, info.requestId⟩

/-- The place is found in the stored copy of the markers. -/
def updateActionMarker (actionMarkers : List ActionMarker) (info : ClickInfo)
    (readActionMarkers : Option (List ActionMarker)) : List ActionMarker :=
  let pos := match readActionMarkers with
    | some markers => (markers.takeWhile fun marker => decide (marker.key < info.key)).length
    | none => 0
  actionMarkers.take pos ++
    match actionMarkers.drop pos with
    | marker :: rest =>
      if marker.ccgId = info.ccgId ∧ marker.ccId = info.ccId then
        (if info.time > marker.time then { marker with requestId := info.requestId }
          else marker) :: rest
      else newMarker info :: marker :: rest
    | [] => [newMarker info]

/-- The waiting actions that are left, and how many are delegated. -/
def takeWaitActions (waitActions : List WaitAction) (info : ClickInfo) :
    List WaitAction × Nat :=
  let before := waitActions.takeWhile (·.ccgId < info.ccgId)
  let rest := waitActions.dropWhile (·.ccgId < info.ccgId)
  let group := rest.takeWhile (·.ccgId = info.ccgId)
  let taken := fun wait : WaitAction => decide ((wait.time : Int) ≥ info.time - timeSyncPrecision)
  (before ++ group.filter (fun wait => !taken wait) ++ rest.dropWhile (·.ccgId = info.ccgId),
    unsignedLong (((group.filter taken).map (·.count)).sum : Nat))

def processClickForAt1 (writer : UserActionProfile) (info : ClickInfo)
    (reader : Option UserActionProfile) : UserActionProfile × Nat :=
  let markers := updateActionMarker writer.actionMarkers info (reader.map (·.actionMarkers))
  let (waiting, delegated) := takeWaitActions writer.waitActions info
  (⟨markers, waiting⟩, delegated)

/-- `process_click_trans_`, for a request without custom actions. -/
def processClick (profile : Option UserActionProfile) (info : ClickInfo) :
    UserActionProfile × Nat :=
  let writer := profile.getD .new
  if info.enabledActionTracking then processClickForAt1 writer info profile else (writer, 0)

/-! ## Advertiser actions -/

/-- The marker of the group with the greatest time, the first of them. -/
def findMarker (actionMarkers : List ActionMarker) (ccgId : Nat) : Option ActionMarker :=
  ((actionMarkers.dropWhile (·.ccgId < ccgId)).takeWhile (·.ccgId = ccgId)).argmax (·.time)

/-- The entry of the group whose time is less. -/
def isEarlier (ccgId : Nat) (time : Int) (wait : WaitAction) : Bool :=
  wait.ccgId = ccgId && decide ((wait.time : Int) < time)

def newWaitAction (info : AdvActionInfo) : WaitAction := ⟨uint info.ccgId, uint info.time, 1⟩

/-- The action is counted at the first of the entries or put before it. -/
def countWaitAction (waitActions : List WaitAction) (info : AdvActionInfo) :
    List WaitAction :=
  match waitActions with
  | wait :: later =>
    if wait.ccgId = info.ccgId ∧ (wait.time : Int) = info.time then
      { wait with count := uint (wait.count + 1) } :: later
    else newWaitAction info :: wait :: later
  | [] => [newWaitAction info]

/-- The entries of the group that have expired are erased first. -/
def addWaitAction (waitActions : List WaitAction) (info : AdvActionInfo) : List WaitAction :=
  let before := waitActions.takeWhile (·.ccgId < info.ccgId)
  let rest := (waitActions.dropWhile (·.ccgId < info.ccgId)).dropWhile
    (isEarlier info.ccgId (info.time - waitActionExpireTime))
  before ++ rest.takeWhile (isEarlier info.ccgId info.time) ++
    countWaitAction (rest.dropWhile (isEarlier info.ccgId info.time)) info

/-- `process_adv_action_trans_`: the profile afterwards and the requests to which the
action is delegated. -/
def processAdvAction (profile : Option UserActionProfile) (info : AdvActionInfo) :
    Option UserActionProfile × List Nat :=
  match profile.bind fun stored => findMarker stored.actionMarkers info.ccgId with
  | some marker => (profile, [marker.requestId])
  | none =>
    let writer := profile.getD .new
    (some { writer with waitActions := addWaitAction writer.waitActions info }, [])

/-! ## Runs -/

/-- The profile afterwards and the requests to which actions are delegated. -/
def processEvent (profile : Option UserActionProfile) :
    Event → Option UserActionProfile × List Nat
  | .click info =>
    let (stored, delegated) := processClick profile info
    (some stored, List.replicate delegated info.requestId)
  | .advAction info => processAdvAction profile info

def profileAfter (events : List Event) : Option UserActionProfile :=
  events.foldl (fun profile event => (processEvent profile event).1) none

def markersAfter (events : List Event) : List ActionMarker :=
  ((profileAfter events).getD .new).actionMarkers

/-- The requests to which the event's actions are delegated. -/
def delegated (before : List Event) (event : Event) : List Nat :=
  (processEvent (profileAfter before) event).2

/-! ## What is expected -/

def clicks (events : List Event) : List ClickInfo :=
  events.filterMap fun
    | .click info => some info
    | .advAction _ => none

def advActions (events : List Event) : List AdvActionInfo :=
  events.filterMap fun
    | .click _ => none
    | .advAction info => some info

def Clicked (events : List Event) (ccgId : Nat) : Prop :=
  ∃ info ∈ clicks events, info.ccgId = ccgId

instance (events : List Event) (ccgId : Nat) : Decidable (Clicked events ccgId) :=
  inferInstanceAs (Decidable (∃ info ∈ clicks events, info.ccgId = ccgId))

/-- A member of the group with its greatest time. -/
def Freshest (group : List ClickInfo) (info : ClickInfo) : Prop :=
  info ∈ group ∧ ∀ other ∈ group, other.time ≤ info.time

/-- One marker for each pair that was clicked, in the order of the pairs, with a
freshest click of its pair. -/
structure TiedMarkers (events : List Event) (markers : List ActionMarker) : Prop where
  sorted : (markers.map (·.key)).Pairwise (· < ·)
  clicked : ∀ key, key ∈ markers.map (·.key) ↔ key ∈ (clicks events).map (·.key)
  freshest : ∀ marker ∈ markers, ∃ info,
    Freshest ((clicks events).filter (·.key = marker.key)) info ∧
      marker.requestId = info.requestId ∧ (marker.time : Int) = info.time

/-- The click takes the action if it waits. -/
def Takes (info : ClickInfo) (action : AdvActionInfo) : Prop :=
  action.ccgId = info.ccgId ∧ info.time ≤ action.time + timeSyncPrecision

instance (info : ClickInfo) (action : AdvActionInfo) : Decidable (Takes info action) :=
  inferInstanceAs (Decidable (_ ∧ _))

/-- The later action is of the group and more than an hour later. -/
def Expires (later action : AdvActionInfo) : Prop :=
  action.ccgId = later.ccgId ∧ action.time + waitActionExpireTime < later.time

instance (later action : AdvActionInfo) : Decidable (Expires later action) :=
  inferInstanceAs (Decidable (_ ∧ _))

/-- The events before the first click of the group. -/
def unclicked (ccgId : Nat) (events : List Event) : List Event :=
  events.takeWhile fun event => decide ¬ Clicked [event] ccgId

/-- No click of those after the action takes it. No action expires it that waits itself:
one that comes after a click of the group does not. -/
def StillWaits (action : AdvActionInfo) (after : List Event) : Prop :=
  (∀ info ∈ clicks after, ¬ Takes info action) ∧
    ∀ later ∈ advActions (unclicked action.ccgId after), ¬ Expires later action

instance (action : AdvActionInfo) (after : List Event) : Decidable (StillWaits action after) :=
  inferInstanceAs (Decidable (_ ∧ _))

/-- The actions among `after` whose group had not been clicked before them and that
still wait. -/
def waitingOf (before : List Event) : List Event → List AdvActionInfo
  | [] => []
  | .click info :: after => waitingOf (before ++ [.click info]) after
  | .advAction action :: after =>
    (if ¬ Clicked before action.ccgId ∧ StillWaits action after then [action] else []) ++
      waitingOf (before ++ [.advAction action]) after

def waiting (events : List Event) : List AdvActionInfo := waitingOf [] events

/-- A click is delegated the actions that wait for it. An action of a group that was
clicked is delegated to a freshest click of the group, and any other one waits. -/
def Ties (before : List Event) (delegated : List Nat) : Event → Prop
  | .click info => delegated =
      List.replicate ((waiting before).countP fun action => Takes info action) info.requestId
  | .advAction action =>
    (Clicked before action.ccgId → ∃ info,
      Freshest ((clicks before).filter (·.ccgId = action.ccgId)) info ∧
        delegated = [info.requestId]) ∧
    (¬ Clicked before action.ccgId → delegated = [])

structure TiesActions (events : List Event) : Prop where
  markers : ∀ before after, events = before ++ after → TiedMarkers before (markersAfter before)
  ties : ∀ before event after, events = before ++ event :: after →
    Ties before (delegated before event) event

/-- The first click of the pair. -/
def firstClick (events : List Event) (key : Nat ×ₗ Nat) : Option ClickInfo :=
  (clicks events).find? (·.key = key)

/-- No click is later than the first one of its pair. -/
def FirstFreshest (events : List Event) : Prop :=
  ∀ info ∈ clicks events, ∀ first ∈ firstClick events info.key, info.time ≤ first.time

instance (events : List Event) : Decidable (FirstFreshest events) :=
  inferInstanceAs (Decidable (∀ info ∈ clicks events, ∀ first ∈ firstClick events info.key, _))

def Event.ccgId : Event → Nat
  | .click info => info.ccgId
  | .advAction action => action.ccgId

def Event.time : Event → Int
  | .click info => info.time
  | .advAction action => action.time

/-- Clicks with action tracking, and numbers that fit into those of the profile. -/
structure Fits (events : List Event) : Prop where
  tracked : ∀ info ∈ clicks events, info.enabledActionTracking = true
  groups : ∀ event ∈ events, event.ccgId < 2 ^ 32
  creatives : ∀ info ∈ clicks events, info.ccId < 2 ^ 32
  times : ∀ event ∈ events, 0 ≤ event.time ∧ event.time < 2 ^ 32
  length : events.length < 2 ^ 32

section History

variable {before after events : List Event} {event : Event} {info : ClickInfo}
  {action later : AdvActionInfo} {ccgId : Nat}

@[simp] theorem clicks_append : clicks (before ++ after) = clicks before ++ clicks after :=
  List.filterMap_append

@[simp] theorem clicks_click : clicks [.click info] = [info] := rfl

@[simp] theorem clicks_advAction : clicks [.advAction action] = [] := rfl

@[simp] theorem advActions_append :
    advActions (before ++ after) = advActions before ++ advActions after :=
  List.filterMap_append

@[simp] theorem advActions_advAction : advActions [.advAction action] = [action] := rfl

@[simp] theorem clicked_append :
    Clicked (before ++ after) ccgId ↔ Clicked before ccgId ∨ Clicked after ccgId := by
  simp [Clicked, or_and_right, exists_or]

@[simp] theorem not_clicked_advAction : ¬ Clicked [.advAction action] ccgId := by
  simp [Clicked]

theorem unclicked_of_not_clicked (h : ¬ Clicked events ccgId) :
    unclicked ccgId events = events := by
  apply List.takeWhile_eq_self_iff.2
  intro event member
  obtain ⟨front, back, rfl⟩ := List.append_of_mem member
  rw [← List.singleton_append, clicked_append, clicked_append] at h
  simp only [decide_eq_true_eq]
  intro clicked
  exact h (.inr (.inl clicked))

theorem unclicked_append_of_clicked (h : Clicked before ccgId) :
    unclicked ccgId (before ++ after) = unclicked ccgId before := by
  induction before with
  | nil => simp [Clicked, clicks] at h
  | cons event before ih =>
    rw [← List.singleton_append, clicked_append] at h
    unfold unclicked at ih ⊢
    rw [List.cons_append, List.takeWhile_cons, List.takeWhile_cons]
    by_cases first : Clicked [event] ccgId
    · simp [first]
    · simp only [first, not_false_eq_true, decide_true, if_true]
      rw [ih (h.resolve_left first)]

theorem advActions_unclicked_click :
    advActions (unclicked ccgId (events ++ [.click info])) = advActions (unclicked ccgId events) := by
  by_cases clicked : Clicked events ccgId
  · rw [unclicked_append_of_clicked clicked]
  · rw [unclicked_of_not_clicked clicked]
    unfold unclicked
    rw [List.takeWhile_append_of_pos]
    · rw [advActions_append]
      rw [List.takeWhile_cons]
      split <;> simp [advActions]
    · exact List.takeWhile_eq_self_iff.1 (unclicked_of_not_clicked clicked)

theorem stillWaits_click :
    StillWaits action (after ++ [.click info]) ↔ StillWaits action after ∧ ¬ Takes info action := by
  unfold StillWaits
  rw [advActions_unclicked_click, clicks_append, clicks_click, List.forall_mem_append,
    List.forall_mem_singleton]
  exact and_right_comm

theorem stillWaits_advAction_iff :
    StillWaits action (after ++ [.advAction later]) ↔
      StillWaits action after ∧ (¬ Clicked after action.ccgId → ¬ Expires later action) := by
  unfold StillWaits
  rw [clicks_append, clicks_advAction, List.append_nil, and_assoc]
  apply and_congr_right
  intro _
  by_cases clicked : Clicked after action.ccgId
  · rw [unclicked_append_of_clicked clicked]
    exact (and_iff_left fun unclicked => absurd clicked unclicked).symm
  · have none : ¬ Clicked (after ++ [.advAction later]) action.ccgId := by simpa using clicked
    rw [unclicked_of_not_clicked none, unclicked_of_not_clicked clicked, advActions_append,
      advActions_advAction, List.forall_mem_append, List.forall_mem_singleton,
      forall_prop_of_true clicked]

theorem stillWaits_advAction_of_clicked (h : Clicked after later.ccgId) :
    StillWaits action (after ++ [.advAction later]) ↔ StillWaits action after := by
  rw [stillWaits_advAction_iff]
  exact and_iff_left fun unclicked expires => unclicked (expires.1 ▸ h)

theorem stillWaits_advAction_of_not_clicked (h : ¬ Clicked after later.ccgId) :
    StillWaits action (after ++ [.advAction later]) ↔
      StillWaits action after ∧ ¬ Expires later action := by
  rw [stillWaits_advAction_iff]
  apply and_congr_right
  intro _
  exact ⟨fun still expires => still (expires.1 ▸ h) expires, fun apart _ => apart⟩

theorem stillWaits_advAction (unclicked : ¬ Clicked before action.ccgId)
    (clicked : Clicked (before ++ .advAction action :: after) later.ccgId) :
    StillWaits action (after ++ [.advAction later]) ↔ StillWaits action after := by
  by_cases h : Clicked after later.ccgId
  · exact stillWaits_advAction_of_clicked h
  · rw [stillWaits_advAction_of_not_clicked h]
    apply and_iff_left
    intro expires
    rw [← List.singleton_append, clicked_append, clicked_append, ← expires.1] at clicked
    rw [← expires.1] at h
    simp [unclicked, h] at clicked

theorem waitingOf_click :
    waitingOf before (after ++ [.click info]) =
      (waitingOf before after).filter fun action => !decide (Takes info action) := by
  induction after generalizing before with
  | nil => rfl
  | cons event after ih =>
    cases event with
    | click _ => exact ih
    | advAction action =>
      rw [List.cons_append, waitingOf, waitingOf, ih, List.filter_append]
      simp only [stillWaits_click, ← and_assoc]
      congr 1
      by_cases waits : ¬ Clicked before action.ccgId ∧ StillWaits action after
      · by_cases takes : Takes info action <;> simp [waits, takes]
      · simp [waits]

theorem waitingOf_advAction_of_clicked (clicked : Clicked (before ++ after) later.ccgId) :
    waitingOf before (after ++ [.advAction later]) = waitingOf before after := by
  induction after generalizing before with
  | nil =>
    rw [List.append_nil] at clicked
    simp [waitingOf, clicked]
  | cons event after ih =>
    have rest := @ih (before ++ [event]) (by rwa [List.append_assoc])
    cases event with
    | click _ => exact rest
    | advAction action =>
      rw [List.cons_append, waitingOf, waitingOf, rest]
      by_cases unclicked : Clicked before action.ccgId
      · simp [unclicked]
      · simp only [stillWaits_advAction unclicked clicked]

theorem waitingOf_advAction_of_not_clicked (clicked : ¬ Clicked (before ++ after) later.ccgId) :
    waitingOf before (after ++ [.advAction later]) =
      ((waitingOf before after).filter fun action => !decide (Expires later action)) ++
        [later] := by
  induction after generalizing before with
  | nil =>
    rw [List.append_nil] at clicked
    simp [waitingOf, clicked, StillWaits, clicks, unclicked, advActions]
  | cons event after ih =>
    have rest := @ih (before ++ [event]) (by rwa [List.append_assoc])
    cases event with
    | click _ => exact rest
    | advAction action =>
      have none : ¬ Clicked after later.ccgId := by
        rw [← List.singleton_append, clicked_append, clicked_append] at clicked
        exact fun h => clicked (.inr (.inr h))
      rw [List.cons_append, waitingOf, waitingOf, rest, List.filter_append, List.append_assoc]
      simp only [stillWaits_advAction_of_not_clicked none, ← and_assoc]
      congr 1
      by_cases waits : ¬ Clicked before action.ccgId ∧ StillWaits action after
      · by_cases expires : Expires later action <;> simp [waits, expires]
      · simp [waits]

theorem waitingOf_length_le : (waitingOf before after).length ≤ after.length := by
  induction after generalizing before with
  | nil => exact le_rfl
  | cons event after ih =>
    cases event with
    | click _ => exact ih.trans (Nat.le_succ _)
    | advAction action =>
      rw [waitingOf, List.length_append, List.length_cons, Nat.add_comm]
      apply Nat.add_le_add ih
      split <;> simp

end History

/-! ## The actions that wait -/

def WaitAction.key (wait : WaitAction) : Nat ×ₗ Nat := toLex (wait.ccgId, wait.time)

def WaitAction.info (wait : WaitAction) : AdvActionInfo := ⟨wait.ccgId, wait.time⟩

/-- Each action as often as it is counted. -/
def expand (waits : List WaitAction) : List AdvActionInfo :=
  waits.flatMap fun wait => List.replicate wait.count wait.info

section Waits

variable {waits front back : List WaitAction} {wait : WaitAction} {info : ClickInfo}
  {action : AdvActionInfo} {p : AdvActionInfo → Bool}

@[simp] theorem expand_cons :
    expand (wait :: waits) = List.replicate wait.count wait.info ++ expand waits := rfl

@[simp] theorem expand_append : expand (front ++ back) = expand front ++ expand back :=
  List.flatMap_append

theorem expand_filter :
    (expand waits).filter p = expand (waits.filter fun wait => p wait.info) := by
  induction waits with
  | nil => rfl
  | cons wait waits ih =>
    rw [expand_cons, List.filter_append, ih]
    by_cases h : p wait.info = true <;> simp [h]

theorem length_expand : (expand waits).length = (waits.map (·.count)).sum := by
  simp [expand]

theorem count_le_length (member : wait ∈ waits) : wait.count ≤ (expand waits).length := by
  obtain ⟨front, back, rfl⟩ := List.append_of_mem member
  rw [expand_append, expand_cons, List.length_append, List.length_append, List.length_replicate]
  omega

theorem WaitAction.key_lt_iff {a b : WaitAction} :
    a.key < b.key ↔ a.ccgId < b.ccgId ∨ a.ccgId = b.ccgId ∧ a.time < b.time :=
  Prod.Lex.toLex_lt_toLex

def Ordered (waits : List WaitAction) : Prop := waits.Pairwise fun a b => a.key < b.key

theorem Ordered.ccgId_le (ordered : Ordered waits) :
    waits.Pairwise fun a b => a.ccgId ≤ b.ccgId := by
  apply ordered.imp
  intro a b less
  rcases WaitAction.key_lt_iff.1 less with less | same
  · exact less.le
  · exact same.1.le

variable {ccgId : Nat} {q : WaitAction → Bool} {time : Int}

/-- The walk over the part that is not below the group, for a predicate of the group that
holds first. -/
theorem first_in_group (ordered : Ordered waits) (own : ∀ wait, q wait = true → wait.ccgId = ccgId)
    (first : ∀ a b : WaitAction, a.time < b.time → a.ccgId = ccgId → q b = true → q a = true) :
    (waits.dropWhile (·.ccgId < ccgId)).Pairwise fun a b => q b = true → q a = true := by
  have sorted := List.Pairwise.sublist (List.dropWhile_sublist (·.ccgId < ccgId)) ordered
  apply List.Pairwise.imp_of_mem _ sorted
  intro a b ha _ less hb
  have notBelow := le_of_mem_dropWhile ordered.ccgId_le ha
  have group := own b hb
  rcases WaitAction.key_lt_iff.1 less with less | ⟨same, less⟩
  · omega
  · exact first a b less (same.trans group) hb

theorem split_group (ccgId : Nat) :
    waits = waits.takeWhile (·.ccgId < ccgId) ++
      ((waits.dropWhile (·.ccgId < ccgId)).takeWhile (·.ccgId = ccgId) ++
        (waits.dropWhile (·.ccgId < ccgId)).dropWhile (·.ccgId = ccgId)) := by
  rw [List.takeWhile_append_dropWhile, List.takeWhile_append_dropWhile]

theorem ccgId_of_mem_before (member : wait ∈ waits.takeWhile (·.ccgId < ccgId)) :
    wait.ccgId ≠ ccgId :=
  (lt_of_mem_takeWhile member).ne

theorem filter_others (ordered : Ordered waits)
    (others : ∀ wait, wait.ccgId ≠ ccgId → q wait = true) :
    waits.filter q = waits.takeWhile (·.ccgId < ccgId) ++
      ((waits.dropWhile (·.ccgId < ccgId)).takeWhile (·.ccgId = ccgId)).filter q ++
        (waits.dropWhile (·.ccgId < ccgId)).dropWhile (·.ccgId = ccgId) := by
  conv_lhs => rw [@split_group waits ccgId]
  rw [List.filter_append, List.filter_append, List.append_assoc]
  congr 1
  · apply List.filter_eq_self.2
    intro wait member
    exact others wait (ccgId_of_mem_before member)
  · congr 1
    apply List.filter_eq_self.2
    intro wait member
    exact others wait (ne_of_mem_dropWhile ordered.ccgId_le member)

theorem filter_own (ordered : Ordered waits) (own : ∀ wait, q wait = true → wait.ccgId = ccgId) :
    waits.filter q =
      ((waits.dropWhile (·.ccgId < ccgId)).takeWhile (·.ccgId = ccgId)).filter q := by
  rw [group_eq_filter ordered.ccgId_le, List.filter_filter]
  apply List.filter_congr
  intro wait _
  rw [Bool.eq_iff_iff, Bool.and_eq_true, decide_eq_true_iff]
  exact (and_iff_left_of_imp (own wait)).symm

theorem takes_info (group : wait.ccgId = info.ccgId) :
    Takes info wait.info ↔ (wait.time : Int) ≥ info.time - timeSyncPrecision := by
  unfold Takes WaitAction.info
  rw [and_iff_right group, ge_iff_le, sub_le_iff_le_add]

theorem takeWaitActions_eq (ordered : Ordered waits) :
    takeWaitActions waits info =
      (waits.filter fun wait => !decide (Takes info wait.info),
        unsignedLong ((expand waits).countP fun action => Takes info action : Nat)) := by
  have own : ∀ wait : WaitAction, decide (Takes info wait.info) = true →
      wait.ccgId = info.ccgId := by
    intro wait taken
    exact (of_decide_eq_true taken).1
  have inGroup : ∀ wait ∈ (waits.dropWhile (·.ccgId < info.ccgId)).takeWhile
      (·.ccgId = info.ccgId), decide ((wait.time : Int) ≥ info.time - timeSyncPrecision) =
        decide (Takes info wait.info) := by
    intro wait member
    have group : wait.ccgId = info.ccgId := by simpa using List.mem_takeWhile_imp member
    exact decide_eq_decide.2 (takes_info group).symm
  have left := @filter_others waits info.ccgId (fun wait => !decide (Takes info wait.info)) ordered
  have taken := @filter_own waits info.ccgId (fun wait => decide (Takes info wait.info)) ordered own
  rw [List.countP_eq_length_filter, expand_filter, length_expand, taken, left]
  · unfold takeWaitActions
    simp only [Prod.mk.injEq]
    refine ⟨?_, ?_⟩
    · rw [List.filter_congr]
      intro wait member
      rw [inGroup wait member]
    · rw [List.filter_congr inGroup]
  · intro wait other
    simp only [Bool.not_eq_true', decide_eq_false_iff_not]
    exact fun takes => other takes.1

theorem isEarlier_iff :
    isEarlier ccgId time wait = true ↔ wait.ccgId = ccgId ∧ (wait.time : Int) < time := by
  simp [isEarlier]

theorem isEarlier_first (ordered : Ordered waits) :
    (waits.dropWhile (·.ccgId < ccgId)).Pairwise fun a b =>
      isEarlier ccgId time b = true → isEarlier ccgId time a = true := by
  apply first_in_group ordered
  · intro wait earlier
    exact (isEarlier_iff.1 earlier).1
  · intro a b less group earlier
    rw [isEarlier_iff] at earlier ⊢
    refine ⟨group, ?_⟩
    omega

/-- The entries that are left when those that the action expires are erased. -/
theorem erase_expired (ordered : Ordered waits) :
    waits.takeWhile (·.ccgId < action.ccgId) ++ (waits.dropWhile (·.ccgId < action.ccgId)).dropWhile
        (isEarlier action.ccgId (action.time - waitActionExpireTime)) =
      waits.filter fun wait => !decide (Expires action wait.info) := by
  rw [dropWhile_eq_filter (isEarlier_first ordered)]
  conv_rhs => rw [← @List.takeWhile_append_dropWhile _ (·.ccgId < action.ccgId) waits]
  rw [List.filter_append]
  congr 1
  · symm
    apply List.filter_eq_self.2
    intro wait member
    have other := ccgId_of_mem_before member
    simp only [Bool.not_eq_true', decide_eq_false_iff_not]
    exact fun expires => other expires.1
  · apply List.filter_congr
    intro wait _
    congr 1
    rw [Bool.eq_iff_iff, isEarlier_iff, decide_eq_true_iff, lt_sub_iff_add_lt]
    exact Iff.rfl

section Fits

variable (group : action.ccgId < 2 ^ 32) (past : 0 ≤ action.time) (below : action.time < 2 ^ 32)

include group past below

theorem newWaitAction_info : (newWaitAction action).info = action := by
  unfold newWaitAction WaitAction.info
  rw [uint_of_lt past below, uint_natCast group]

theorem key_lt_newWaitAction :
    wait.key < (newWaitAction action).key ↔
      wait.ccgId < action.ccgId ∨ isEarlier action.ccgId action.time wait = true := by
  have time := uint_of_lt past below
  rw [WaitAction.key_lt_iff, isEarlier_iff]
  change wait.ccgId < uint action.ccgId ∨ wait.ccgId = uint action.ccgId ∧
    wait.time < uint action.time ↔ _
  rw [uint_natCast group]
  omega

theorem key_eq_newWaitAction :
    wait.key = (newWaitAction action).key ↔
      wait.ccgId = action.ccgId ∧ (wait.time : Int) = action.time := by
  have time := uint_of_lt past below
  unfold WaitAction.key
  rw [toLex_inj, Prod.mk.injEq]
  change wait.ccgId = uint action.ccgId ∧ wait.time = uint action.time ↔ _
  rw [uint_natCast group]
  omega

theorem countWaitAction_cases (ordered : Ordered back)
    (notBelow : ∀ wait ∈ back, ¬ wait.key < (newWaitAction action).key) :
    (∃ wait later, back = wait :: later ∧ wait.key = (newWaitAction action).key ∧
      countWaitAction back action = { wait with count := uint (wait.count + 1) } :: later) ∨
    (∀ wait ∈ back, (newWaitAction action).key < wait.key) ∧
      countWaitAction back action = newWaitAction action :: back := by
  cases back with
  | nil => exact .inr ⟨by simp, rfl⟩
  | cons wait later =>
    by_cases same : wait.key = (newWaitAction action).key
    · refine .inl ⟨wait, later, rfl, same, ?_⟩
      exact if_pos ((key_eq_newWaitAction group past below).1 same)
    · refine .inr ⟨?_, if_neg fun h => same ((key_eq_newWaitAction group past below).2 h)⟩
      have above := lt_of_le_of_ne (not_lt.1 (notBelow wait (List.mem_cons_self ..))) (Ne.symm same)
      rintro other (_ | ⟨_, member⟩)
      · exact above
      · exact above.trans ((List.pairwise_cons.1 ordered).1 other member)

theorem countWaitAction_spec (ordered : Ordered (front ++ back))
    (lower : ∀ wait ∈ front, wait.key < (newWaitAction action).key)
    (notBelow : ∀ wait ∈ back, ¬ wait.key < (newWaitAction action).key)
    (bound : (expand (front ++ back)).length + 1 < 2 ^ 32) :
    Ordered (front ++ countWaitAction back action) ∧
      (expand (front ++ countWaitAction back action)).Perm
        (action :: expand (front ++ back)) := by
  have apart := List.pairwise_append.1 ordered
  rcases countWaitAction_cases group past below apart.2.1 notBelow with
    ⟨wait, later, rfl, same, counted⟩ | ⟨above, inserted⟩
  · have fits : wait.count + 1 < 2 ^ 32 := by
      have counted : wait.count ≤ (expand (front ++ wait :: later)).length :=
        count_le_length (by simp)
      omega
    have info : wait.info = action := by
      obtain ⟨ccgId, time⟩ := (key_eq_newWaitAction group past below).1 same
      unfold WaitAction.info
      rw [ccgId, time]
    have count : uint ((wait.count : Int) + 1) = wait.count + 1 := by
      exact_mod_cast uint_natCast fits
    rw [counted, count]
    refine ⟨?_, ?_⟩
    · unfold Ordered at ordered ⊢
      rw [List.pairwise_append, List.pairwise_cons] at ordered ⊢
      refine ⟨ordered.1, ordered.2.1, ?_⟩
      rintro a ha b (_ | ⟨_, hb⟩)
      · exact ordered.2.2 a ha wait (List.mem_cons_self ..)
      · exact ordered.2.2 a ha b (List.mem_cons_of_mem _ hb)
    · rw [expand_append, expand_append, expand_cons, expand_cons, List.replicate_succ]
      change (expand front ++ (wait.info :: List.replicate wait.count wait.info ++ _)).Perm _
      rw [info]
      exact List.perm_middle
  · rw [inserted]
    refine ⟨pairwise_insert ordered lower above, ?_⟩
    rw [expand_append, expand_cons, newWaitAction_info group past below, expand_append]
    exact List.perm_middle

theorem addWaitAction_spec (ordered : Ordered waits)
    (bound : (expand waits).length + 1 < 2 ^ 32) :
    Ordered (addWaitAction waits action) ∧ (expand (addWaitAction waits action)).Perm
      (action :: (expand waits).filter fun action' => !decide (Expires action action')) := by
  have first : ∀ l : List WaitAction, l.Sublist (waits.dropWhile (·.ccgId < action.ccgId)) →
      l.Pairwise fun a b => isEarlier action.ccgId action.time b = true →
        isEarlier action.ccgId action.time a = true :=
    fun l sub => (isEarlier_first ordered).sublist sub
  have erased := @erase_expired waits action ordered
  have left := @expand_filter waits fun action' => !decide (Expires action action')
  unfold addWaitAction
  set before := waits.takeWhile (·.ccgId < action.ccgId)
  set rest := (waits.dropWhile (·.ccgId < action.ccgId)).dropWhile
    (isEarlier action.ccgId (action.time - waitActionExpireTime))
  have sub : rest.Sublist (waits.dropWhile (·.ccgId < action.ccgId)) := List.dropWhile_sublist _
  have whole : before ++ rest.takeWhile (isEarlier action.ccgId action.time) ++
      rest.dropWhile (isEarlier action.ccgId action.time) = waits.filter fun wait =>
        !decide (Expires action wait.info) := by
    rw [List.append_assoc, List.takeWhile_append_dropWhile, erased]
  have kept : Ordered (waits.filter fun wait => !decide (Expires action wait.info)) :=
    List.Pairwise.filter _ ordered
  rw [left, ← whole]
  rw [← whole] at kept
  apply countWaitAction_spec group past below kept
  · intro wait member
    rw [key_lt_newWaitAction group past below]
    rcases List.mem_append.1 member with member | member
    · exact .inl (lt_of_mem_takeWhile member)
    · exact .inr (List.mem_takeWhile_imp member)
  · intro wait member
    rw [key_lt_newWaitAction group past below, not_or]
    refine ⟨?_, ?_⟩
    · exact not_lt.2 (le_of_mem_dropWhile ordered.ccgId_le
        (sub.subset ((List.dropWhile_sublist _).subset member)))
    · rw [dropWhile_eq_filter (first rest sub)] at member
      simpa using (List.mem_filter.1 member).2
  · rw [whole, ← left]
    have := @List.length_filter_le _ (fun action' => !decide (Expires action action')) (expand waits)
    omega

end Fits

end Waits

section Markers

variable {events : List Event} {markers : List ActionMarker} {marker : ActionMarker}
  {info first : ClickInfo} {key : Nat ×ₗ Nat}

theorem ActionMarker.key_lt_iff {a b : ActionMarker} :
    a.key < b.key ↔ a.ccgId < b.ccgId ∨ a.ccgId = b.ccgId ∧ a.ccId < b.ccId :=
  Prod.Lex.toLex_lt_toLex

theorem key_eq_iff :
    marker.key = info.key ↔ marker.ccgId = info.ccgId ∧ marker.ccId = info.ccId := by
  unfold ActionMarker.key ClickInfo.key
  rw [toLex_inj, Prod.mk.injEq]

/-- The marker is linked to the click if that one is later than the marker's time. -/
def relink (info : ClickInfo) (marker : ActionMarker) : ActionMarker :=
  if info.time > marker.time then { marker with requestId := info.requestId } else marker

@[simp] theorem relink_key : (relink info marker).key = marker.key := by
  unfold relink
  split <;> rfl

@[simp] theorem relink_time : (relink info marker).time = marker.time := by
  unfold relink
  split <;> rfl

theorem relink_of_le (le : info.time ≤ marker.time) : relink info marker = marker :=
  if_neg (not_lt.2 le)

variable {reader : Option (List ActionMarker)} {ccgId : Nat}

section
variable (sorted : markers.Pairwise fun a b => a.key < b.key)
include sorted

theorem updateActionMarker_cases (same : reader.getD [] = markers) :
    (∃ front marker back, markers = front ++ marker :: back ∧ marker.key = info.key ∧
      updateActionMarker markers info reader = front ++ relink info marker :: back) ∨
    ∃ front back, markers = front ++ back ∧ (∀ marker ∈ front, marker.key < info.key) ∧
      (∀ marker ∈ back, info.key < marker.key) ∧
      updateActionMarker markers info reader = front ++ newMarker info :: back := by
  have notBelow : ∀ marker ∈ markers.dropWhile fun marker => decide (marker.key < info.key),
      info.key ≤ marker.key := by
    intro marker member
    exact le_of_mem_dropWhile (sorted.imp fun less => less.le) member
  have split := @List.takeWhile_append_dropWhile _
    (fun marker : ActionMarker => decide (marker.key < info.key)) markers
  have place : updateActionMarker markers info reader =
      updateActionMarker markers info (some markers) := by
    cases reader with
    | none =>
      obtain rfl : [] = markers := same
      rfl
    | some stored => rw [← same]; rfl
  rw [place]
  unfold updateActionMarker
  simp only [take_length_takeWhile, drop_length_takeWhile]
  cases later : markers.dropWhile fun marker => decide (marker.key < info.key) with
  | nil =>
    refine .inr ⟨markers.takeWhile fun marker => decide (marker.key < info.key), [], ?_, ?_, ?_, rfl⟩
    · rw [← later, split]
    · exact fun marker member => lt_of_mem_takeWhile member
    · simp
  | cons found back =>
    rw [later] at notBelow split
    by_cases hit : found.key = info.key
    · refine .inl ⟨_, found, back, split.symm, hit, ?_⟩
      exact congrArg _ (if_pos (key_eq_iff.1 hit))
    · refine .inr ⟨_, found :: back, split.symm, ?_, ?_, ?_⟩
      · exact fun marker member => lt_of_mem_takeWhile member
      · have above : info.key < found.key :=
          lt_of_le_of_ne (notBelow found (List.mem_cons_self ..)) (Ne.symm hit)
        rw [← split, List.pairwise_append, List.pairwise_cons] at sorted
        rintro marker (_ | ⟨_, member⟩)
        · exact above
        · exact above.trans (sorted.2.1.1 marker member)
      · exact congrArg _ (if_neg fun same => hit (key_eq_iff.2 same))

theorem ccgId_le : markers.Pairwise fun a b => a.ccgId ≤ b.ccgId := by
  apply sorted.imp
  intro a b less
  rcases ActionMarker.key_lt_iff.1 less with less | same
  · exact less.le
  · exact same.1.le

theorem mem_findMarker (found : findMarker markers ccgId = some marker) :
    marker ∈ markers ∧ marker.ccgId = ccgId ∧
      ∀ other ∈ markers, other.ccgId = ccgId → other.time ≤ marker.time := by
  unfold findMarker at found
  rw [group_eq_filter (ccgId_le sorted)] at found
  obtain ⟨member, group⟩ := List.mem_filter.1 (List.argmax_mem found)
  refine ⟨member, of_decide_eq_true group, ?_⟩
  intro other member' group'
  apply List.le_of_mem_argmax _ found
  exact List.mem_filter.2 ⟨member', decide_eq_true group'⟩

theorem findMarker_eq_none :
    findMarker markers ccgId = none ↔ ∀ marker ∈ markers, marker.ccgId ≠ ccgId := by
  unfold findMarker
  rw [group_eq_filter (ccgId_le sorted), List.argmax_eq_none, List.filter_eq_nil_iff]
  simp only [decide_eq_true_eq, ne_eq]

end

/-- A marker keeps the time of the first click of its pair, and its request if no click of
a pair is later than the first one. -/
structure Marked (events : List Event) (markers : List ActionMarker) : Prop where
  sorted : (markers.map (·.key)).Pairwise (· < ·)
  clicked : ∀ key, key ∈ markers.map (·.key) ↔ key ∈ (clicks events).map (·.key)
  first : ∀ marker ∈ markers, ∃ first ∈ firstClick events marker.key,
    (marker.time : Int) = first.time ∧ (FirstFreshest events → marker.requestId = first.requestId)

theorem Marked.pairwise (marked : Marked events markers) :
    markers.Pairwise fun a b => a.key < b.key :=
  List.pairwise_map.1 marked.sorted

theorem firstClick_append (h : first ∈ firstClick events key) (after : List Event) :
    first ∈ firstClick (events ++ after) key := by
  unfold firstClick at h ⊢
  rw [clicks_append, List.find?_append, h]
  rfl

theorem firstClick_click (h : info.key ∉ (clicks events).map (·.key)) :
    info ∈ firstClick (events ++ [.click info]) info.key := by
  have none : (clicks events).find? (·.key = info.key) = none := by
    apply List.find?_eq_none.2
    intro other member same
    exact h (List.mem_map.2 ⟨other, member, of_decide_eq_true same⟩)
  unfold firstClick
  rw [clicks_append, List.find?_append, none]
  simp

theorem FirstFreshest.of_append {before after : List Event}
    (h : FirstFreshest (before ++ after)) : FirstFreshest before := by
  intro info member first found
  apply h info _ first (firstClick_append found after)
  rw [clicks_append]
  exact List.mem_append_left _ member

theorem Marked.nil : Marked [] [] := ⟨.nil, fun _ => Iff.rfl, by simp⟩

theorem Marked.advAction {action : AdvActionInfo} (marked : Marked events markers) :
    Marked (events ++ [.advAction action]) markers where
  sorted := marked.sorted
  clicked := by
    rw [clicks_append, clicks_advAction, List.append_nil]
    exact marked.clicked
  first := by
    intro marker member
    obtain ⟨first, found, time, requestId⟩ := marked.first marker member
    exact ⟨first, firstClick_append found _, time, fun h => requestId h.of_append⟩

theorem Marked.click (marked : Marked events markers) (same : reader.getD [] = markers)
    (group : info.ccgId < 2 ^ 32) (creative : info.ccId < 2 ^ 32) (past : 0 ≤ info.time)
    (below : info.time < 2 ^ 32) :
    Marked (events ++ [.click info]) (updateActionMarker markers info reader) := by
  have kept : ∀ marker ∈ markers, ∃ first ∈ firstClick (events ++ [.click info]) marker.key,
      (marker.time : Int) = first.time ∧
        (FirstFreshest (events ++ [.click info]) → marker.requestId = first.requestId) := by
    intro marker member
    obtain ⟨first, found, time, requestId⟩ := marked.first marker member
    exact ⟨first, firstClick_append found _, time, fun h => requestId h.of_append⟩
  rcases @updateActionMarker_cases markers info reader marked.pairwise same with
    ⟨front, marker, back, rfl, hit, updated⟩ | ⟨front, back, rfl, lower, above, updated⟩
  · rw [updated]
    have keys : (front ++ relink info marker :: back).map (·.key) =
        (front ++ marker :: back).map (·.key) := by simp
    refine ⟨?_, ?_, ?_⟩
    · rw [keys]
      exact marked.sorted
    · intro key
      rw [keys, marked.clicked, clicks_append, clicks_click, List.map_append, List.mem_append]
      symm
      apply or_iff_left_of_imp
      intro same
      obtain rfl : key = info.key := by simpa using same
      rw [← marked.clicked, ← hit]
      simp
    · intro other member
      rcases List.mem_append.1 member with member | member
      · exact kept other (List.mem_append_left _ member)
      · rcases List.mem_cons.1 member with rfl | member
        · obtain ⟨first, found, time, requestId⟩ := kept marker (by simp)
          rw [relink_key, relink_time]
          refine ⟨first, found, time, fun h => ?_⟩
          have le : info.time ≤ first.time := by
            apply h info (by simp) first
            rw [← hit]
            exact found
          rw [relink_of_le (le.trans time.ge), requestId h]
        · exact kept other (List.mem_append_right _ (List.mem_cons_of_mem _ member))
  · rw [updated]
    have newKey : (newMarker info).key = info.key := by
      change toLex (uint info.ccgId, uint info.ccId) = _
      rw [uint_natCast group, uint_natCast creative]
      rfl
    have unclicked : info.key ∉ (clicks events).map (·.key) := by
      rw [← marked.clicked]
      intro member
      obtain ⟨marker, member, same⟩ := List.mem_map.1 member
      rcases List.mem_append.1 member with member | member
      · exact (lower marker member).ne same
      · exact (above marker member).ne' same
    refine ⟨?_, ?_, ?_⟩
    · apply List.pairwise_map.2
      apply pairwise_insert marked.pairwise
      · rw [newKey]
        exact lower
      · rw [newKey]
        exact above
    · intro key
      have old := marked.clicked key
      simp only [List.map_append, List.mem_append, List.map_cons, List.mem_cons, newKey,
        clicks_append, clicks_click, List.map_nil, List.not_mem_nil, or_false] at old ⊢
      rw [← old, or_left_comm, or_comm]
    · intro other member
      rcases List.mem_append.1 member with member | member
      · exact kept other (List.mem_append_left _ member)
      · rcases List.mem_cons.1 member with rfl | member
        · rw [newKey]
          exact ⟨info, firstClick_click unclicked, uint_of_lt past below, fun _ => rfl⟩
        · exact kept other (List.mem_append_right _ member)

theorem mem_of_firstClick (found : first ∈ firstClick events key) :
    first ∈ clicks events ∧ first.key = key :=
  ⟨List.mem_of_find?_eq_some found, by simpa using List.find?_some found⟩

section
variable (marked : Marked events markers)
include marked

theorem Marked.freshest (h : FirstFreshest events) (member : marker ∈ markers) :
    ∃ info ∈ clicks events, info.key = marker.key ∧
      (∀ other ∈ clicks events, other.key = marker.key → other.time ≤ info.time) ∧
      marker.requestId = info.requestId ∧ (marker.time : Int) = info.time := by
  obtain ⟨first, found, time, requestId⟩ := marked.first marker member
  obtain ⟨clicked, key⟩ := mem_of_firstClick found
  refine ⟨first, clicked, key, ?_, requestId h, time⟩
  intro other member' same
  exact h other member' first (same ▸ found)

theorem Marked.tied (h : FirstFreshest events) :
    TiedMarkers events markers where
  sorted := marked.sorted
  clicked := marked.clicked
  freshest := by
    intro marker member
    obtain ⟨info, clicked, key, freshest, requestId, time⟩ := marked.freshest h member
    refine ⟨info, ⟨List.mem_filter.2 ⟨clicked, decide_eq_true key⟩, ?_⟩, requestId, time⟩
    intro other member'
    obtain ⟨clicked', key'⟩ := List.mem_filter.1 member'
    exact freshest other clicked' (of_decide_eq_true key')

theorem Marked.firstFreshest (tied : TiedMarkers events markers) : FirstFreshest events := by
  intro info clicked first found
  obtain ⟨marker, member, key⟩ :=
    List.mem_map.1 ((marked.clicked info.key).2 (List.mem_map_of_mem clicked))
  obtain ⟨first', found', time, _⟩ := marked.first marker member
  obtain rfl : first' = first := by
    rw [key] at found'
    exact Option.some.inj (found'.symm.trans found)
  obtain ⟨fresh, ⟨_, freshest⟩, _, time'⟩ := tied.freshest marker member
  have le := freshest info (List.mem_filter.2 ⟨clicked, decide_eq_true key.symm⟩)
  rw [← time, time']
  exact le

theorem Marked.clicked_iff : Clicked events ccgId ↔ ∃ marker ∈ markers, marker.ccgId = ccgId := by
  constructor
  · rintro ⟨info, clicked, rfl⟩
    obtain ⟨marker, member, key⟩ :=
      List.mem_map.1 ((marked.clicked info.key).2 (List.mem_map_of_mem clicked))
    exact ⟨marker, member, (key_eq_iff.1 key).1⟩
  · rintro ⟨marker, member, rfl⟩
    obtain ⟨info, clicked, key⟩ :=
      List.mem_map.1 ((marked.clicked marker.key).1 (List.mem_map_of_mem member))
    exact ⟨info, clicked, (key_eq_iff.1 key.symm).1.symm⟩

theorem Marked.findMarker_freshest (h : FirstFreshest events)
    (found : findMarker markers ccgId = some marker) :
    ∃ info, Freshest ((clicks events).filter (·.ccgId = ccgId)) info ∧
      marker.requestId = info.requestId := by
  obtain ⟨member, group, greatest⟩ := mem_findMarker marked.pairwise found
  obtain ⟨info, clicked, key, _, requestId, time⟩ := marked.freshest h member
  have own : info.ccgId = ccgId := (key_eq_iff.1 key.symm).1.symm.trans group
  refine ⟨info, ⟨List.mem_filter.2 ⟨clicked, decide_eq_true own⟩, ?_⟩, requestId⟩
  intro other member'
  obtain ⟨clicked', group'⟩ := List.mem_filter.1 member'
  -- The marker of the other click's pair has at least its time and no more than the greatest.
  obtain ⟨marker', inMarkers, key'⟩ :=
    List.mem_map.1 ((marked.clicked other.key).2 (List.mem_map_of_mem clicked'))
  obtain ⟨first, _, _, freshest, _, time'⟩ := marked.freshest h inMarkers
  calc
    other.time ≤ first.time := freshest other clicked' key'.symm
    _ = marker'.time := time'.symm
    _ ≤ marker.time := by
      exact_mod_cast greatest marker' inMarkers
        ((key_eq_iff.1 key').1.trans (of_decide_eq_true group'))
    _ = info.time := time

end

end Markers

section Runs

variable {before after events : List Event} {event : Event} {profile : Option UserActionProfile}

structure Stored (events : List Event) (profile : UserActionProfile) : Prop where
  marked : Marked events profile.actionMarkers
  ordered : Ordered profile.waitActions
  perm : (expand profile.waitActions).Perm (waiting events)

variable {stored : UserActionProfile} {info : ClickInfo} {marker : ActionMarker} {ccgId : Nat}

theorem Stored.length_le (h : Stored events stored) :
    (expand stored.waitActions).length ≤ events.length := by
  rw [h.perm.length_eq]
  exact waitingOf_length_le

theorem Fits.of_append (fits : Fits (before ++ after)) : Fits before where
  tracked info member := fits.tracked info (by simp [member])
  groups event member := fits.groups event (by simp [member])
  creatives info member := fits.creatives info (by simp [member])
  times event member := fits.times event (by simp [member])
  length := by
    have := fits.length
    rw [List.length_append] at this
    omega

theorem processClick_eq (h : Stored events stored) (bound : events.length < 2 ^ 32)
    (same : profile.getD .new = stored) (tracked : info.enabledActionTracking = true) :
    processClick profile info =
      (⟨updateActionMarker stored.actionMarkers info (profile.map (·.actionMarkers)),
        stored.waitActions.filter fun wait => !decide (Takes info wait.info)⟩,
        (waiting events).countP fun action => Takes info action) := by
  have count : ((expand stored.waitActions).countP fun action => decide (Takes info action)) <
      2 ^ 63 := by
    have le := @List.countP_le_length _ (fun action => decide (Takes info action))
      (expand stored.waitActions)
    have := h.length_le
    omega
  have long : unsignedLong ((expand stored.waitActions).countP fun action =>
      decide (Takes info action) : Nat) =
        (expand stored.waitActions).countP fun action => decide (Takes info action) := by
    exact_mod_cast unsignedLong_of_nonneg (Int.natCast_nonneg _) (by exact_mod_cast count)
  unfold processClick processClickForAt1
  rw [same, if_pos tracked, takeWaitActions_eq h.ordered, long, h.perm.countP_eq]

theorem processAdvAction_of_found {info : AdvActionInfo}
    (found : findMarker (profile.getD .new).actionMarkers info.ccgId = some marker) :
    processAdvAction profile info = (profile, [marker.requestId]) := by
  unfold processAdvAction
  cases profile with
  | none => cases found
  | some stored =>
    rw [Option.getD_some] at found
    rw [Option.bind_some, found]

theorem processAdvAction_of_not_found {info : AdvActionInfo}
    (found : findMarker (profile.getD .new).actionMarkers info.ccgId = none) :
    processAdvAction profile info =
      (some ⟨(profile.getD .new).actionMarkers,
        addWaitAction (profile.getD .new).waitActions info⟩, []) := by
  unfold processAdvAction
  cases profile with
  | none => rfl
  | some stored =>
    rw [Option.getD_some] at found
    rw [Option.bind_some, found]

theorem clicked_of_found (h : Stored events stored)
    (found : findMarker stored.actionMarkers ccgId = some marker) : Clicked events ccgId := by
  obtain ⟨member, group, _⟩ := mem_findMarker h.marked.pairwise found
  exact h.marked.clicked_iff.2 ⟨marker, member, group⟩

theorem not_clicked_of_not_found (h : Stored events stored)
    (found : findMarker stored.actionMarkers ccgId = none) : ¬ Clicked events ccgId := by
  rw [h.marked.clicked_iff]
  rintro ⟨marker, member, group⟩
  exact (findMarker_eq_none h.marked.pairwise).1 found marker member group

section
variable (h : Stored events (profile.getD .new))
include h

theorem stored_click (fits : Fits (events ++ [.click info])) :
    Stored (events ++ [.click info]) (processClick profile info).1 := by
  have tracked := fits.tracked info (by simp)
  have times := fits.times (.click info) (by simp)
  rw [processClick_eq h fits.of_append.length rfl tracked]
  refine ⟨?_, ?_, ?_⟩
  · apply h.marked.click _ (fits.groups (.click info) (by simp)) (fits.creatives info (by simp))
      times.1 times.2
    cases profile <;> rfl
  · exact h.ordered.filter _
  · have left := @expand_filter (profile.getD .new).waitActions
      fun action => !decide (Takes info action)
    rw [← left, waiting, waitingOf_click]
    exact h.perm.filter _

theorem stored_advAction {action : AdvActionInfo} (fits : Fits (events ++ [.advAction action])) :
    Stored (events ++ [.advAction action]) ((processAdvAction profile action).1.getD .new) := by
  cases found : findMarker (profile.getD .new).actionMarkers action.ccgId with
  | some marker =>
    rw [processAdvAction_of_found found]
    refine ⟨h.marked.advAction, h.ordered, ?_⟩
    rw [waiting, @waitingOf_advAction_of_clicked [] events action (clicked_of_found h found)]
    exact h.perm
  | none =>
    have times := fits.times (.advAction action) (by simp)
    have bound : (expand (profile.getD .new).waitActions).length + 1 < 2 ^ 32 := by
      have le := h.length_le
      have fewer := fits.length
      rw [List.length_append, List.length_singleton] at fewer
      omega
    obtain ⟨ordered, perm⟩ := addWaitAction_spec (fits.groups (.advAction action) (by simp))
      times.1 times.2 h.ordered bound
    rw [processAdvAction_of_not_found found]
    refine ⟨h.marked.advAction, ordered, perm.trans ?_⟩
    rw [waiting,
      @waitingOf_advAction_of_not_clicked [] events action (not_clicked_of_not_found h found)]
    exact ((h.perm.filter _).cons action).trans (List.perm_append_singleton _ _).symm

theorem ties_of_stored (fits : Fits (events ++ [event])) (fresh : FirstFreshest events) :
    Ties events (processEvent profile event).2 event := by
  cases event with
  | click info =>
    change List.replicate (processClick profile info).2 info.requestId = _
    rw [processClick_eq h fits.of_append.length rfl (fits.tracked info (by simp))]
  | advAction action =>
    change (_ → ∃ info, _ ∧ (processAdvAction profile action).2 = _) ∧
      (_ → (processAdvAction profile action).2 = _)
    cases found : findMarker (profile.getD .new).actionMarkers action.ccgId with
    | some marker =>
      rw [processAdvAction_of_found found]
      refine ⟨fun _ => ?_, fun unclicked => absurd (clicked_of_found h found) unclicked⟩
      obtain ⟨info, freshest, requestId⟩ := h.marked.findMarker_freshest fresh found
      exact ⟨info, freshest, by rw [requestId]⟩
    | none =>
      rw [processAdvAction_of_not_found found]
      exact ⟨fun clicked => absurd clicked (not_clicked_of_not_found h found), fun _ => rfl⟩

end

theorem profileAfter_append :
    profileAfter (events ++ [event]) = (processEvent (profileAfter events) event).1 :=
  List.foldl_append

/-- Along any run the markers keep the times of the first clicks, and what waits is what
is expected to. -/
theorem stored_profileAfter (fits : Fits events) :
    Stored events ((profileAfter events).getD .new) := by
  induction events using List.reverseRecOn with
  | nil => exact ⟨Marked.nil, .nil, .nil⟩
  | append_singleton events event ih =>
    have stored := ih fits.of_append
    rw [profileAfter_append]
    cases event with
    | click info => exact stored_click stored fits
    | advAction action => exact stored_advAction stored fits

/-- The actions are tied to the freshest clicks if and only if no click is later than the
first one of its pair. -/
theorem tiesActions_iff (fits : Fits events) : TiesActions events ↔ FirstFreshest events := by
  constructor
  · intro h
    exact (stored_profileAfter fits).marked.firstFreshest (h.markers events [] (by simp))
  · intro fresh
    refine ⟨?_, ?_⟩
    · rintro before after rfl
      exact (stored_profileAfter fits.of_append).marked.tied fresh.of_append
    · rintro before event after rfl
      rw [List.append_cons] at fits fresh
      exact ties_of_stored (stored_profileAfter fits.of_append.of_append) fits.of_append
        fresh.of_append.of_append

/-- Two requests of a pair, with an action that waits for the first one. -/
theorem tiesActions_iff_waiting :
    TiesActions [.advAction ⟨5, 50⟩, .click ⟨7, 5, 1, 52, true⟩, .click ⟨8, 5, 1, 40, true⟩,
      .advAction ⟨5, 100⟩] := by
  apply (tiesActions_iff _).2 (by decide)
  constructor <;> decide

/-- The marker is linked to the second click and then to the third one, later than the
first and not than the second. -/
theorem thirdClick_not_tiesActions :
    ¬ TiesActions [.click ⟨1, 5, 1, 10, true⟩, .click ⟨2, 5, 1, 20, true⟩,
      .click ⟨3, 5, 1, 15, true⟩, .advAction ⟨5, 30⟩] := by
  intro h
  have ties := h.ties [.click ⟨1, 5, 1, 10, true⟩, .click ⟨2, 5, 1, 20, true⟩,
    .click ⟨3, 5, 1, 15, true⟩] (.advAction ⟨5, 30⟩) [] rfl
  obtain ⟨info, ⟨member, freshest⟩, delegated⟩ := ties.1 (by decide)
  have third : info.requestId = 3 := (List.cons.inj delegated).1.symm
  have le : (20 : Int) ≤ info.time := freshest ⟨2, 5, 1, 20, true⟩ (by decide)
  have clicked : info ∈ [_, _, _] := (List.mem_filter.1 member).1
  simp only [List.mem_cons, List.not_mem_nil, or_false] at clicked
  rcases clicked with rfl | rfl | rfl
  · cases third
  · cases third
  · exact absurd le (by decide)

end Runs

end AdServer.RequestInfo.ClickedActions
