import AdServer.Lib.KeyOrder
import AdServer.RequestInfo.CustomActions
import Mathlib.Data.List.Perm.Subperm

/-!
# Every pair of an action and an impression

The times of expiry are differences of unsigned numbers. Below thirty days after
the epoch an event erases all the impressions, and below seven days all the action
markers; a pair is delegated if nothing like that happens between its halves.
-/

namespace AdServer.RequestInfo.CustomActions

open Lib.KeyOrder
open Lib (uint uint_of_lt uint_natCast)

def impressions : List Event → List ImpressionInfo
  | [] => []
  | .impression info :: events => info :: impressions events
  | .action _ :: events => impressions events

def actions : List Event → List AdvExActionInfo
  | [] => []
  | .impression _ :: events => actions events
  | .action info :: events => info :: actions events

/-- The impression is of one of the action's groups and no later. -/
def Matches (imp : ImpressionInfo) (act : AdvExActionInfo) : Bool :=
  imp.ccgId ∈ act.ccgIds && imp.impTime ≤ act.time + timeSyncPrecision

/-- All the pairs, each once. -/
def pairs (events : List Event) : List Delegated :=
  (impressions events).flatMap fun imp =>
    ((actions events).filter fun act => Matches imp act).map fun act =>
      (imp.requestId, act.info)

/-- What is expected of the events of a user: distinct requests, no more of them
than are kept, actions that are no duplicates, all within a week. -/
structure Usual (actionIgnoreTime : Int) (events : List Event) : Prop where
  requestIds : ((impressions events).map (·.requestId)).Nodup
  ccgIds : ∀ act ∈ actions events, act.ccgIds.Pairwise (· < ·)
  groups : ∀ ccgId, ((impressions events).filter (·.ccgId = ccgId)).length ≤
    maxDoneImpressions
  markers : ∀ actionId, ((actions events).filter (·.actionId = actionId)).length ≤
    maxKeepCustomActionMarkers
  apart : (actions events).Pairwise fun a b => a.actionId = b.actionId →
    actionIgnoreTime ≤ (a.time - b.time).natAbs
  week : ∀ a ∈ events, ∀ b ∈ events, a.time - b.time < 7 * day

/-- The numbers fit into those of the profile. -/
structure Fits (actionIgnoreTime : Int) (events : List Event) : Prop where
  ignore : 0 ≤ actionIgnoreTime ∧ actionIgnoreTime < 2 ^ 63
  times : ∀ event ∈ events, 0 ≤ event.time ∧ event.time < 2 ^ 32
  groups : ∀ imp ∈ impressions events, imp.ccgId < 2 ^ 32
  actions : ∀ act ∈ actions events, act.actionId < 2 ^ 32 ∧ ∀ ccgId ∈ act.ccgIds, ccgId < 2 ^ 32

def recent (bound : Int) (history : List Event) : List Event :=
  history.takeWhile fun event => bound ≤ event.time

def erased (bound : Int) (history : List Event) : List Event :=
  history.dropWhile fun event => bound ≤ event.time

/-- The event's pairs with those before it come after the last event that erases
the other halves. -/
def Undisturbed (history : List Event) : Event → Prop
  | .impression imp =>
    (∀ act ∈ actions history, Matches imp act → timeSyncPrecision ≤ imp.impTime) ∧
    ∀ act ∈ actions (erased customActionMarkerExpireTime history), ¬ Matches imp act
  | .action act =>
    ∀ imp ∈ impressions (erased doneImpressionsExpireTime history), ¬ Matches imp act

def AllUndisturbed : List Event → Prop
  | [] => True
  | event :: history => Undisturbed history event ∧ AllUndisturbed history

/-! ## The pairs of one event -/

def newPairs (history : List Event) : Event → List Delegated
  | .impression imp => ((actions history).filter fun act => Matches imp act).map fun act =>
      (imp.requestId, act.info)
  | .action act => ((impressions history).filter fun imp => Matches imp act).map fun imp =>
      (imp.requestId, act.info)

theorem pairs_cons (event : Event) (history : List Event) :
    (pairs (event :: history)).Perm (newPairs history event ++ pairs history) := by
  cases event with
  | impression imp => exact .refl _
  | action act =>
    simp only [pairs, impressions, actions, newPairs]
    have split : ∀ imp : ImpressionInfo,
        (((act :: actions history).filter fun act => Matches imp act).map fun act =>
          (imp.requestId, act.info)) =
        (if Matches imp act then [(imp.requestId, act.info)] else []) ++
        (((actions history).filter fun act => Matches imp act).map fun act =>
          (imp.requestId, act.info)) := by
      intro imp
      by_cases h : Matches imp act = true <;> simp [h]
    simp only [split]
    refine (List.flatMap_append_perm _ _ _).symm.trans (List.Perm.append_right _ ?_)
    apply List.Perm.of_eq
    induction impressions history with
    | nil => rfl
    | cons imp imps ih =>
      rw [List.flatMap_cons, ih]
      by_cases h : Matches imp act = true <;> simp [h]

theorem impressions_append (a b : List Event) :
    impressions (a ++ b) = impressions a ++ impressions b := by
  induction a with
  | nil => rfl
  | cons event a ih => cases event <;> simp [impressions, ih]

theorem actions_append (a b : List Event) : actions (a ++ b) = actions a ++ actions b := by
  induction a with
  | nil => rfl
  | cons event a ih => cases event <;> simp [actions, ih]

theorem recent_append_erased (bound : Int) (history : List Event) :
    recent bound history ++ erased bound history = history :=
  List.takeWhile_append_dropWhile

/-! ## What is stored -/

def storedImpression (imp : ImpressionInfo) : DoneImpression :=
  ⟨uint imp.ccgId, uint imp.impTime, imp.requestId⟩

def storedMarker (act : AdvExActionInfo) : CustomActionMarker where
  time := uint act.time
  actionId := uint act.actionId
  actionRequestId := act.actionRequestId
  ccgIds := act.ccgIds.map fun ccgId : Nat => uint ccgId
  referer := act.referer
  orderId := act.orderId
  actionValue := act.actionValue

def storedAction (act : AdvExActionInfo) : DoneAction := ⟨uint act.actionId, uint act.time⟩

/-- The order of the impressions stored. -/
def InGroups (a b : DoneImpression) : Prop :=
  a.ccgId < b.ccgId ∨ (a.ccgId = b.ccgId ∧ a.time ≤ b.time)

/-- The lists of the profile after a history. -/
structure Kept (profile : UserActionProfile) (history : List Event) : Prop where
  impressions : profile.doneImpressions.Perm
    ((impressions (recent doneImpressionsExpireTime history)).map storedImpression)
  inGroups : profile.doneImpressions.Pairwise InGroups
  markers : profile.customActionMarkers.Perm
    ((actions (recent customActionMarkerExpireTime history)).map storedMarker)
  inOrder : profile.customActionMarkers.Pairwise fun a b => a.time ≤ b.time
  actions : profile.customDoneActions.Perm ((actions history).map storedAction)

variable {value now bound : Int} {info imp : ImpressionInfo} {imps : List DoneImpression}
  {markers : List CustomActionMarker} {act : AdvExActionInfo} {event : Event}
  {profile : UserActionProfile}

theorem unsignedLong_of_nonneg (h : 0 ≤ value) (h' : value < 2 ^ 63) :
    (unsignedLong value : Int) = value := by
  unfold unsignedLong
  omega

/-- A difference below zero is larger than every time. -/
theorem lt_unsignedLong (h : value < 0) (h' : -2 ^ 32 < value) {time : Nat} (fits : time < 2 ^ 32) :
    time < unsignedLong value := by
  unfold unsignedLong
  omega

/-! ## The duplicate filter -/

theorem checkActionTimeBounds_eq_false {doneActions : List DoneAction} {info : AdvExActionInfo}
    {actionIgnoreTime : Int}
    (apart : ∀ action ∈ doneActions, isNear info (unsignedLong actionIgnoreTime) action = false) :
    checkActionTimeBounds doneActions info actionIgnoreTime = false := by
  unfold checkActionTimeBounds
  dsimp only
  generalize (fun action => doneActionLess action info.actionId (unsignedLong info.time)) = less
  rw [Bool.or_eq_false_iff]
  constructor
  · cases atHead : (doneActions.dropWhile less).head? with
    | none => rfl
    | some action =>
      rw [Option.any_some]
      exact apart action ((List.dropWhile_sublist _).subset (List.mem_of_head? atHead))
  · cases atLast : (doneActions.takeWhile less).getLast? with
    | none => rfl
    | some action =>
      rw [Option.any_some]
      exact apart action ((List.takeWhile_sublist _).subset (List.mem_of_getLast? atLast))

/-! ## The lists -/

theorem insertDoneAction_perm (doneActions : List DoneAction) (act : AdvExActionInfo) :
    (insertDoneAction doneActions act).Perm (storedAction act :: doneActions) :=
  perm_insertFirst _ _ _

/-- The parts of the impressions around the place of a new one. -/
theorem insertImpression_parts (imps : List DoneImpression) (info : ImpressionInfo)
    (few : (imps.filter (·.ccgId = info.ccgId)).length < maxDoneImpressions) :
    insertImpression imps info =
      imps.takeWhile (·.ccgId < info.ccgId) ++
        ((imps.dropWhile (·.ccgId < info.ccgId)).takeWhile fun imp =>
          imp.ccgId = info.ccgId && imp.time < info.impTime) ++
        storedImpression info ::
        ((imps.dropWhile (·.ccgId < info.ccgId)).dropWhile fun imp =>
          imp.ccgId = info.ccgId && imp.time < info.impTime) := by
  unfold insertImpression
  dsimp only
  rw [if_neg]
  · rfl
  · have rest : ((imps.dropWhile (·.ccgId < info.ccgId)).filter
        (·.ccgId = info.ccgId)).length < maxDoneImpressions :=
      Nat.lt_of_le_of_lt ((List.dropWhile_sublist _).filter _).length_le few
    generalize imps.dropWhile (·.ccgId < info.ccgId) = others at rest ⊢
    have split := @List.takeWhile_append_dropWhile _
      (fun imp : DoneImpression => decide (imp.ccgId = info.ccgId) &&
        decide ((imp.time : Int) < info.impTime)) others
    rw [← split, List.filter_append, List.length_append] at rest
    generalize others.dropWhile (fun imp => decide (imp.ccgId = info.ccgId) &&
      decide ((imp.time : Int) < info.impTime)) = later at rest ⊢
    have front : (others.takeWhile fun imp => decide (imp.ccgId = info.ccgId) &&
        decide ((imp.time : Int) < info.impTime)).filter (·.ccgId = info.ccgId) =
        others.takeWhile fun imp => decide (imp.ccgId = info.ccgId) &&
          decide ((imp.time : Int) < info.impTime) := by
      apply List.filter_eq_self.mpr
      intro imp himp
      have := List.mem_takeWhile_imp himp
      simp only [Bool.and_eq_true] at this
      exact this.1
    have back : (later.takeWhile (·.ccgId = info.ccgId)).length ≤
        (later.filter (·.ccgId = info.ccgId)).length := by
      have all : (later.takeWhile (·.ccgId = info.ccgId)).filter (·.ccgId = info.ccgId) =
          later.takeWhile (·.ccgId = info.ccgId) := by
        apply List.filter_eq_self.mpr
        intro imp himp
        have := List.mem_takeWhile_imp himp
        exact this
      rw [← all]
      exact ((List.takeWhile_sublist _).filter _).length_le
    rw [front] at rest
    omega

section
variable (few : (imps.filter (·.ccgId = info.ccgId)).length < maxDoneImpressions)
include few

theorem insertImpression_perm :
    (insertImpression imps info).Perm (storedImpression info :: imps) := by
  rw [insertImpression_parts imps info few]
  apply List.perm_middle.trans
  rw [List.append_assoc, List.takeWhile_append_dropWhile, List.takeWhile_append_dropWhile]

theorem insertImpression_inGroups (inGroups : imps.Pairwise InGroups) (group : info.ccgId < 2 ^ 32)
    (past : 0 ≤ info.impTime) (fits : info.impTime < 2 ^ 32) :
    (insertImpression imps info).Pairwise InGroups := by
  have time := uint_of_lt past fits
  have group := uint_natCast group
  have byGroup : imps.Pairwise fun a b => a.ccgId ≤ b.ccgId := by
    apply inGroups.imp
    intro a b hab
    unfold InGroups at hab
    omega
  rw [insertImpression_parts imps info few]
  have rest : ∀ imp ∈ imps.dropWhile (·.ccgId < info.ccgId), info.ccgId ≤ imp.ccgId :=
    fun imp himp => le_of_mem_dropWhile byGroup himp
  have restSorted : (imps.dropWhile (·.ccgId < info.ccgId)).Pairwise InGroups :=
    inGroups.sublist (List.dropWhile_sublist _)
  apply pairwise_insert
  · rw [List.append_assoc, List.takeWhile_append_dropWhile, List.takeWhile_append_dropWhile]
    exact inGroups
  · intro imp himp
    unfold InGroups storedImpression
    dsimp only
    rcases List.mem_append.mp himp with himp | himp
    · have := lt_of_mem_takeWhile himp
      omega
    · have := List.mem_takeWhile_imp himp
      simp only [Bool.and_eq_true, decide_eq_true_eq] at this
      omega
  · generalize imps.dropWhile (·.ccgId < info.ccgId) = others at rest restSorted ⊢
    have first : others.Pairwise fun a b =>
        (decide (b.ccgId = info.ccgId) && decide ((b.time : Int) < info.impTime)) = true →
        (decide (a.ccgId = info.ccgId) && decide ((a.time : Int) < info.impTime)) = true := by
      apply restSorted.imp_of_mem
      intro a b ha _ hab
      have := rest a ha
      simp only [Bool.and_eq_true, decide_eq_true_eq]
      unfold InGroups at hab
      omega
    rw [dropWhile_eq_filter first]
    intro imp himp
    obtain ⟨himp, stops⟩ := List.mem_filter.mp himp
    have := rest imp himp
    simp only [Bool.not_eq_true', Bool.and_eq_false_iff, decide_eq_false_iff_not] at stops
    unfold InGroups storedImpression
    dsimp only
    omega

end

theorem insertMarker_perm (markers : List CustomActionMarker) (act : AdvExActionInfo) :
    (insertMarker markers act).Perm (storedMarker act :: markers) := by
  unfold insertMarker
  dsimp only
  apply List.perm_middle.trans
  rw [List.append_assoc, List.takeWhile_append_dropWhile, List.takeWhile_append_dropWhile]
  exact .refl _

theorem insertMarker_inOrder (inOrder : markers.Pairwise fun a b => a.time ≤ b.time)
    (past : 0 ≤ act.time) (fits : act.time < 2 ^ 32) :
    (insertMarker markers act).Pairwise fun a b => a.time ≤ b.time := by
  have time := uint_of_lt past fits
  have rest : ∀ marker ∈ markers.dropWhile (fun marker => (marker.time : Int) < act.time),
      act.time ≤ marker.time := by
    intro marker hmarker
    apply @le_of_mem_dropWhile CustomActionMarker Int _ (fun marker => (marker.time : Int)) _ _ _
      _ hmarker
    apply inOrder.imp
    intro a b hab
    omega
  unfold insertMarker
  dsimp only
  apply pairwise_insert
  · rw [List.append_assoc, List.takeWhile_append_dropWhile, List.takeWhile_append_dropWhile]
    exact inOrder
  · intro marker hmarker
    dsimp only
    rcases List.mem_append.mp hmarker with hmarker | hmarker
    · have := List.mem_takeWhile_imp hmarker
      simp only [decide_eq_true_eq] at this
      omega
    · have := List.mem_takeWhile_imp hmarker
      simp only [Bool.and_eq_true, decide_eq_true_eq] at this
      omega
  · intro marker hmarker
    dsimp only
    have := rest marker ((List.dropWhile_sublist _).subset hmarker)
    omega

theorem clearExcessMarkers_eq {actionId amCount : Nat}
    (few : amCount + (markers.filter (·.actionId = actionId)).length ≤ maxKeepCustomActionMarkers) :
    clearExcessMarkers actionId amCount markers = markers := by
  induction markers generalizing amCount with
  | nil => rfl
  | cons marker markers ih =>
    unfold clearExcessMarkers
    by_cases same : marker.actionId = actionId
    · rw [List.filter_cons_of_pos (by simpa using same), List.length_cons] at few
      rw [if_pos same, if_neg (by omega), ih (by omega)]
    · rw [List.filter_cons_of_neg (by simpa using same)] at few
      rw [if_neg same, ih few]

/-- Within a week of now the impressions expire only by a time below zero. -/
theorem clear_impressions (past : 0 ≤ now) (fits : now < 2 ^ 32)
    (week : ∀ imp ∈ imps, now - imp.time < 7 * day ∧ imp.time < 2 ^ 32) :
    imps.filter (fun imp => unsignedLong (now - doneImpressionsExpireTime) ≤ imp.time) =
      if doneImpressionsExpireTime ≤ now then imps else [] := by
  unfold doneImpressionsExpireTime day at *
  split
  · have bound := @unsignedLong_of_nonneg (now - 30 * (24 * 60 * 60)) (by omega) (by omega)
    apply List.filter_eq_self.mpr
    intro imp himp
    have := week imp himp
    simp only [decide_eq_true_eq]
    omega
  · apply List.filter_eq_nil_iff.mpr
    intro imp himp
    have := @lt_unsignedLong (now - 30 * (24 * 60 * 60)) (by omega) (by omega) _
      (week imp himp).2
    simp only [decide_eq_true_eq]
    omega

theorem clear_markers (past : 0 ≤ now) (fits : now < 2 ^ 32)
    (week : ∀ marker ∈ markers, now - marker.time < 7 * day ∧ marker.time < 2 ^ 32) :
    markers.dropWhile (fun marker =>
        marker.time < unsignedLong (now - customActionMarkerExpireTime)) =
      if customActionMarkerExpireTime ≤ now then markers else [] := by
  unfold customActionMarkerExpireTime day at *
  split
  · have bound := @unsignedLong_of_nonneg (now - 7 * (24 * 60 * 60)) (by omega) (by omega)
    cases markers with
    | nil => rfl
    | cons marker markers =>
      have := week marker List.mem_cons_self
      apply List.dropWhile_cons_of_neg
      simp only [decide_eq_true_eq]
      omega
  · apply List.dropWhile_eq_nil_iff.mpr
    intro marker hmarker
    have := @lt_unsignedLong (now - 7 * (24 * 60 * 60)) (by omega) (by omega) _
      (week marker hmarker).2
    simpa using this

/-! ## One event -/

variable {actionIgnoreTime : Int} {event : Event} {history : List Event}

theorem Usual.tail (h : Usual actionIgnoreTime (event :: history)) :
    Usual actionIgnoreTime history := by
  have imps : (impressions history).Sublist (impressions (event :: history)) := by
    cases event
    · exact List.sublist_cons_self _ _
    · exact .refl _
  have acts : (actions history).Sublist (actions (event :: history)) := by
    cases event
    · exact .refl _
    · exact List.sublist_cons_self _ _
  exact ⟨h.requestIds.sublist (imps.map _), fun act hact => h.ccgIds act (acts.subset hact),
    fun ccgId => (imps.filter _).length_le.trans (h.groups ccgId),
    fun actionId => (acts.filter _).length_le.trans (h.markers actionId),
    h.apart.sublist acts, fun a ha b hb => h.week a (List.mem_cons_of_mem _ ha) b
      (List.mem_cons_of_mem _ hb)⟩

theorem Fits.tail (h : Fits actionIgnoreTime (event :: history)) :
    Fits actionIgnoreTime history := by
  refine ⟨h.ignore, fun e he => h.times e (List.mem_cons_of_mem _ he), ?_, ?_⟩
  · intro imp himp
    apply h.groups
    cases event
    · exact List.mem_cons_of_mem _ himp
    · exact himp
  · intro act hact
    apply h.actions
    cases event
    · exact hact
    · exact List.mem_cons_of_mem _ hact

theorem mem_impressions : imp ∈ impressions history ↔ .impression imp ∈ history := by
  induction history with
  | nil => simp [impressions]
  | cons event history ih => cases event <;> simp [impressions, ih]

theorem mem_actions : act ∈ actions history ↔ .action act ∈ history := by
  induction history with
  | nil => simp [actions]
  | cons event history ih => cases event <;> simp [actions, ih]

theorem recent_cons (h : bound ≤ event.time) (history : List Event) :
    recent bound (event :: history) = event :: recent bound history :=
  List.takeWhile_cons_of_pos (decide_eq_true h)

theorem recent_erased (h : ¬ bound ≤ event.time) (history : List Event) :
    recent bound (event :: history) = [] :=
  List.takeWhile_cons_of_neg (by simpa using h)

theorem mem_of_mem_recent {e : Event} (h : e ∈ recent bound history) : e ∈ history :=
  (List.takeWhile_sublist _).subset h

section
variable (usual : Usual actionIgnoreTime (event :: history))
include usual

section
variable (fits : Fits actionIgnoreTime (event :: history))
include fits

theorem week_impressions (imps : List DoneImpression)
    (stored : ∀ imp ∈ imps, ∃ info, .impression info ∈ event :: history ∧
      storedImpression info = imp) :
    ∀ imp ∈ imps, event.time - imp.time < 7 * day ∧ imp.time < 2 ^ 32 := by
  intro imp himp
  obtain ⟨info, hinfo, rfl⟩ := stored imp himp
  obtain ⟨past, below⟩ := fits.times _ hinfo
  have week := usual.week event List.mem_cons_self _ hinfo
  have time := uint_of_lt past below
  unfold storedImpression
  simp only [Event.time] at *
  omega

theorem week_markers (markers : List CustomActionMarker)
    (stored : ∀ marker ∈ markers, ∃ act, .action act ∈ event :: history ∧
      storedMarker act = marker) :
    ∀ marker ∈ markers, event.time - marker.time < 7 * day ∧ marker.time < 2 ^ 32 := by
  intro marker hmarker
  obtain ⟨act, hact, rfl⟩ := stored marker hmarker
  obtain ⟨past, below⟩ := fits.times _ hact
  have week := usual.week event List.mem_cons_self _ hact
  have time := uint_of_lt past below
  unfold storedMarker
  simp only [Event.time] at *
  omega

/-- Clearing at the time of an event leaves what is recent after it. -/
theorem kept_cleared
    (imps : profile.doneImpressions.Perm
      ((impressions (event :: recent doneImpressionsExpireTime history)).map storedImpression))
    (inGroups : profile.doneImpressions.Pairwise InGroups)
    (markers : profile.customActionMarkers.Perm
      ((actions (event :: recent customActionMarkerExpireTime history)).map storedMarker))
    (inOrder : profile.customActionMarkers.Pairwise fun a b => a.time ≤ b.time)
    (done : profile.customDoneActions.Perm ((actions (event :: history)).map storedAction)) :
    Kept (clearExpiredAt2 profile event.time) (event :: history) := by
  obtain ⟨past, below⟩ := fits.times _ List.mem_cons_self
  have older : ∀ bound, event :: recent bound history ⊆ event :: history := fun _ =>
    List.cons_subset_cons _ (List.takeWhile_sublist _).subset
  have weekImps := week_impressions usual fits profile.doneImpressions (by
    intro stored hstored
    obtain ⟨info, hinfo, rfl⟩ := List.mem_map.mp (imps.mem_iff.mp hstored)
    exact ⟨info, older _ (mem_impressions.mp hinfo), rfl⟩)
  have weekMarkers := week_markers usual fits profile.customActionMarkers (by
    intro stored hstored
    obtain ⟨act, hact, rfl⟩ := List.mem_map.mp (markers.mem_iff.mp hstored)
    exact ⟨act, older _ (mem_actions.mp hact), rfl⟩)
  have clearedImps := clear_impressions past below weekImps
  have clearedMarkers := clear_markers past below weekMarkers
  refine ⟨?_, ?_, ?_, ?_, done⟩
  · by_cases late : doneImpressionsExpireTime ≤ event.time
    · simp only [clearExpiredAt2, clearedImps, if_pos late]
      rw [recent_cons late]
      exact imps
    · simp only [clearExpiredAt2, clearedImps, if_neg late]
      rw [recent_erased late]
      exact .nil
  · simp only [clearExpiredAt2, clearedImps]
    split
    · exact inGroups
    · exact .nil
  · by_cases late : customActionMarkerExpireTime ≤ event.time
    · simp only [clearExpiredAt2, clearedMarkers, if_pos late]
      rw [recent_cons late]
      exact markers
    · simp only [clearExpiredAt2, clearedMarkers, if_neg late]
      rw [recent_erased late]
      exact .nil
  · simp only [clearExpiredAt2, clearedMarkers]
    split
    · exact inOrder
    · exact .nil

end

end

theorem flatMap_groups {α : Type} (key : α → Nat) (p : α → Bool) (l : List α) {keys : List Nat}
    (distinct : keys.Pairwise (· < ·)) :
    (keys.flatMap fun k => l.filter fun a => key a = k && p a).Perm
      (l.filter fun a => key a ∈ keys && p a) := by
  induction keys with
  | nil => simp
  | cons k keys ih =>
    rw [List.pairwise_cons] at distinct
    rw [List.flatMap_cons]
    refine ((ih distinct.2).append_left _).trans ?_
    have apart : ∀ a, key a = k → key a ∉ keys := by
      intro a same known
      have := distinct.1 _ known
      omega
    clear ih distinct
    induction l with
    | nil => simp
    | cons a l ih =>
      by_cases holds : p a = true
      · by_cases same : key a = k
        · have other := apart a same
          rw [List.filter_cons_of_pos (by simp [same, holds]),
            List.filter_cons_of_neg (by simp [other]),
            List.filter_cons_of_pos (by simp [same, holds])]
          exact ih.cons a
        · by_cases known : key a ∈ keys
          · rw [List.filter_cons_of_neg (by simp [same]),
              List.filter_cons_of_pos (by simp [known, holds]),
              List.filter_cons_of_pos (by simp [known, holds])]
            exact List.perm_middle.trans (ih.cons a)
          · rw [List.filter_cons_of_neg (by simp [same]),
              List.filter_cons_of_neg (by simp [known]),
              List.filter_cons_of_neg (by simp [same, known])]
            exact ih
      · rw [List.filter_cons_of_neg (by simp [holds]), List.filter_cons_of_neg (by simp [holds]),
          List.filter_cons_of_neg (by simp [holds])]
        exact ih

theorem impressionsForGroup_eq (inGroups : imps.Pairwise InGroups) (act : AdvExActionInfo)
    (ccgId : Nat) :
    impressionsForGroup imps act ccgId = imps.filter fun imp =>
      imp.ccgId = ccgId && imp.time ≤ act.time + timeSyncPrecision := by
  have byGroup : imps.Pairwise fun a b => a.ccgId ≤ b.ccgId := by
    apply inGroups.imp
    intro a b hab
    unfold InGroups at hab
    omega
  unfold impressionsForGroup
  have rest : ∀ imp ∈ imps.dropWhile (·.ccgId < ccgId), ccgId ≤ imp.ccgId :=
    fun imp himp => le_of_mem_dropWhile byGroup himp
  have first : (imps.dropWhile (·.ccgId < ccgId)).Pairwise fun a b =>
      (decide (b.ccgId = ccgId) && decide ((b.time : Int) ≤ act.time + timeSyncPrecision)) = true →
      (decide (a.ccgId = ccgId) && decide ((a.time : Int) ≤ act.time + timeSyncPrecision)) =
        true := by
    apply (inGroups.sublist (List.dropWhile_sublist _)).imp_of_mem
    intro a b ha _ hab
    have := rest a ha
    simp only [Bool.and_eq_true, decide_eq_true_eq]
    unfold InGroups at hab
    omega
  rw [takeWhile_eq_filter first, dropWhile_lt_eq_filter byGroup, List.filter_filter]
  apply List.filter_congr
  intro imp _
  by_cases same : imp.ccgId = ccgId
  · simp [same]
  · simp [same]

theorem binarySearch_eq {values : List Nat} (sorted : values.Pairwise (· < ·)) (value : Nat) :
    binarySearch values value = decide (value ∈ values) := by
  have ordered : values.Pairwise fun a b => id a ≤ id b := sorted.imp Nat.le_of_lt
  have found : value ∈ values ↔ value ∈ values.dropWhile fun a => decide (id a < value) := by
    rw [dropWhile_lt_eq_filter ordered]
    simp
  have rest := sorted.sublist (List.dropWhile_sublist fun a => decide (id a < value))
  have above : ∀ a ∈ values.dropWhile fun a => decide (id a < value), value ≤ a :=
    fun a ha => le_of_mem_dropWhile ordered ha
  have same : (values.dropWhile fun a => decide (id a < value)) = values.dropWhile (· < value) :=
    rfl
  rw [same] at found rest above
  apply Bool.eq_iff_iff.mpr
  rw [decide_eq_true_iff, found, binarySearch]
  clear found same
  generalize values.dropWhile (· < value) = others at rest above ⊢
  cases others with
  | nil => simp
  | cons a others =>
    have low := above a List.mem_cons_self
    have later := (List.pairwise_cons.mp rest).1
    have : value ∈ a :: others ↔ ¬ value < a := by
      rw [List.mem_cons]
      constructor
      · rintro (rfl | member)
        · omega
        · have := later value member
          omega
      · intro notLess
        left
        omega
    simp [this]

/-- The pairs that an event finds. -/
def foundPairs (history : List Event) : Event → List Delegated
  | .impression imp =>
    if timeSyncPrecision ≤ imp.impTime then
      newPairs (recent customActionMarkerExpireTime history) (.impression imp)
    else []
  | .action act => newPairs (recent doneImpressionsExpireTime history) (.action act)

section
variable (kept : Kept profile history)
include kept

theorem impressionsForAction_perm (usual : Usual actionIgnoreTime (.action act :: history))
    (fits : Fits actionIgnoreTime (.action act :: history)) :
    (impressionsForAction profile act).Perm (foundPairs history (.action act)) := by
  have ccgIds := usual.ccgIds act (by simp [actions])
  have groups := funext (impressionsForGroup_eq kept.inGroups act)
  simp only [impressionsForAction, foundPairs, newPairs, groups]
  refine ((flatMap_groups (fun imp : DoneImpression => imp.ccgId) _ _ ccgIds).map _).trans ?_
  refine ((kept.impressions.filter _).map _).trans ?_
  rw [List.filter_map, List.map_map]
  apply List.Perm.of_eq
  have same : ∀ imp ∈ impressions (recent doneImpressionsExpireTime history),
      ((fun imp : DoneImpression => decide (imp.ccgId ∈ act.ccgIds) &&
        decide ((imp.time : Int) ≤ act.time + timeSyncPrecision)) ∘ storedImpression) imp =
      Matches imp act := by
    intro imp himp
    have member := mem_of_mem_recent (mem_impressions.mp himp)
    have group := uint_natCast (fits.groups imp
      (mem_impressions.mpr (List.mem_cons_of_mem _ member)))
    obtain ⟨past, below⟩ := fits.times _ (List.mem_cons_of_mem _ member)
    have time := uint_of_lt past below
    simp only [Event.time] at time
    simp only [Function.comp_apply, storedImpression, group, time, Matches]
  rw [List.filter_congr same]
  rfl

section
variable (usual : Usual actionIgnoreTime (.impression imp :: history))
include usual

section
variable (fits : Fits actionIgnoreTime (.impression imp :: history))
include fits

theorem actionsForImpression_perm :
    ((actionsForImpression profile imp).map fun action => (imp.requestId, action)).Perm
      (foundPairs history (.impression imp)) := by
  obtain ⟨past, below⟩ := fits.times _ List.mem_cons_self
  simp only [Event.time] at past below
  have stored : ∀ marker ∈ profile.customActionMarkers, ∃ act, .action act ∈ history ∧
      storedMarker act = marker := by
    intro marker hmarker
    obtain ⟨act, hact, rfl⟩ := List.mem_map.mp (kept.markers.mem_iff.mp hmarker)
    exact ⟨act, mem_of_mem_recent (mem_actions.mp hact), rfl⟩
  have asTime : ∀ act, .action act ∈ history → (uint act.time : Int) = act.time := by
    intro act hact
    obtain ⟨past, below⟩ := fits.times _ (List.mem_cons_of_mem _ hact)
    exact uint_of_lt past below
  simp only [actionsForImpression, foundPairs]
  by_cases late : timeSyncPrecision ≤ imp.impTime
  · rw [if_pos late]
    unfold timeSyncPrecision at late
    have bound := @unsignedLong_of_nonneg (imp.impTime - timeSyncPrecision)
      (by unfold timeSyncPrecision; omega) (by unfold timeSyncPrecision; omega)
    have less : ∀ marker : CustomActionMarker, customActionMarkerLess marker
        (unsignedLong (imp.impTime - timeSyncPrecision)) 0 =
        decide (marker.time < unsignedLong (imp.impTime - timeSyncPrecision)) := by
      intro marker
      simp [customActionMarkerLess]
    simp only [less]
    rw [@dropWhile_lt_eq_filter CustomActionMarker Nat _ (·.time) _ _ kept.inOrder,
      List.filter_filter, List.map_map]
    refine ((kept.markers.filter _).map _).trans ?_
    rw [List.filter_map, List.map_map]
    apply List.Perm.of_eq
    unfold newPairs
    have same : ∀ act ∈ actions (recent customActionMarkerExpireTime history),
        ((fun marker : CustomActionMarker => binarySearch marker.ccgIds imp.ccgId &&
          decide (unsignedLong (imp.impTime - timeSyncPrecision) ≤ marker.time)) ∘
            storedMarker) act = Matches imp act := by
      intro act hact
      have member := mem_of_mem_recent (mem_actions.mp hact)
      have isAction := mem_actions.mpr (List.mem_cons_of_mem (.impression imp) member)
      have ccgIds : act.ccgIds.map (fun ccgId : Nat => uint ccgId) = act.ccgIds := by
        conv_rhs => rw [← List.map_id act.ccgIds]
        apply List.map_congr_left
        intro ccgId hccgId
        exact uint_natCast ((fits.actions act isAction).2 ccgId hccgId)
      have time := asTime act member
      simp only [Function.comp_apply, storedMarker, Matches, ccgIds,
        binarySearch_eq (usual.ccgIds act isAction)]
      congr 1
      apply decide_eq_decide.mpr
      unfold timeSyncPrecision at *
      omega
    rw [List.filter_congr same]
    apply List.map_congr_left
    intro act hact
    have member := mem_of_mem_recent (mem_actions.mp (List.mem_of_mem_filter hact))
    have isAction := mem_actions.mpr (List.mem_cons_of_mem (.impression imp) member)
    have actionId := uint_natCast (fits.actions act isAction).1
    simp only [Function.comp_apply, CustomActionMarker.info, storedMarker,
      AdvExActionInfo.info, asTime act member, actionId]
  · rw [if_neg late]
    have none : (profile.customActionMarkers.dropWhile fun marker =>
        customActionMarkerLess marker (unsignedLong (imp.impTime - timeSyncPrecision)) 0) = [] := by
      apply List.dropWhile_eq_nil_iff.mpr
      intro marker hmarker
      obtain ⟨act, hact, rfl⟩ := stored marker hmarker
      have below := (fits.times _ (List.mem_cons_of_mem _ hact)).2
      have time := asTime act hact
      simp only [Event.time] at below
      unfold timeSyncPrecision at late
      have := @lt_unsignedLong (imp.impTime - timeSyncPrecision)
        (by unfold timeSyncPrecision; omega) (by unfold timeSyncPrecision; omega)
        (uint act.time) (by omega)
      simp [customActionMarkerLess, storedMarker, this]
    rw [none]
    exact .refl _

theorem kept_impression :
    Kept (clearExpiredAt2
      { profile with doneImpressions := insertImpression profile.doneImpressions imp }
      imp.impTime) (.impression imp :: history) := by
  obtain ⟨past, below⟩ := fits.times _ List.mem_cons_self
  simp only [Event.time] at past below
  have group := fits.groups imp (by simp [impressions])
  have few : (profile.doneImpressions.filter (·.ccgId = imp.ccgId)).length <
      maxDoneImpressions := by
    have all := usual.groups imp.ccgId
    simp only [impressions, List.filter_cons, decide_true, if_true, List.length_cons] at all
    rw [(kept.impressions.filter _).length_eq, List.filter_map, List.length_map]
    have same : ∀ other ∈ impressions (recent doneImpressionsExpireTime history),
        ((fun stored : DoneImpression => decide (stored.ccgId = imp.ccgId)) ∘
          storedImpression) other = decide (other.ccgId = imp.ccgId) := by
      intro other hother
      have member := mem_of_mem_recent (mem_impressions.mp hother)
      have stored := uint_natCast (fits.groups other
        (mem_impressions.mpr (List.mem_cons_of_mem _ member)))
      simp only [Function.comp_apply, storedImpression, stored]
    rw [List.filter_congr same]
    have sub : (impressions (recent doneImpressionsExpireTime history)).Sublist
        (impressions history) := by
      conv_rhs => rw [← recent_append_erased doneImpressionsExpireTime history,
        impressions_append]
      exact List.sublist_append_left _ _
    have := (sub.filter fun other => decide (other.ccgId = imp.ccgId)).length_le
    omega
  have perm := insertImpression_perm few
  have sorted := insertImpression_inGroups few kept.inGroups group past below
  exact kept_cleared usual fits (perm.trans (kept.impressions.cons _)) sorted kept.markers
    kept.inOrder kept.actions

end

end

section
variable (usual : Usual actionIgnoreTime (.action act :: history))
include usual

theorem kept_action (fits : Fits actionIgnoreTime (.action act :: history)) :
    Kept (clearExpiredAt2
      { profile with
        customActionMarkers :=
          (clearExcessMarkers act.actionId 0
            (insertMarker profile.customActionMarkers act).reverse).reverse
        customDoneActions := insertDoneAction profile.customDoneActions act }
      act.time) (.action act :: history) := by
  obtain ⟨past, below⟩ := fits.times _ List.mem_cons_self
  simp only [Event.time] at past below
  have perm := insertMarker_perm profile.customActionMarkers act
  have sorted := insertMarker_inOrder kept.inOrder past below
  have few : 0 + ((insertMarker profile.customActionMarkers act).reverse.filter
      (·.actionId = act.actionId)).length ≤ maxKeepCustomActionMarkers := by
    have all := usual.markers act.actionId
    have stored := ((List.reverse_perm _).trans (perm.trans (kept.markers.cons _))).filter
      (fun marker => decide (marker.actionId = act.actionId))
    rw [stored.length_eq, Nat.zero_add, ← List.map_cons, List.filter_map, List.length_map]
    have same : ∀ other ∈ act :: actions (recent customActionMarkerExpireTime history),
        ((fun marker : CustomActionMarker => decide (marker.actionId = act.actionId)) ∘
          storedMarker) other = decide (other.actionId = act.actionId) := by
      intro other hother
      have member : .action other ∈ Event.action act :: history := by
        rcases List.mem_cons.mp hother with rfl | hother
        · exact List.mem_cons_self
        · exact List.mem_cons_of_mem _ (mem_of_mem_recent (mem_actions.mp hother))
      have stored := uint_natCast (fits.actions other (mem_actions.mpr member)).1
      simp only [Function.comp_apply, storedMarker, stored]
    rw [List.filter_congr same]
    have sub : (actions (recent customActionMarkerExpireTime history)).Sublist
        (actions history) := by
      conv_rhs => rw [← recent_append_erased customActionMarkerExpireTime history,
        actions_append]
      exact List.sublist_append_left _ _
    exact ((sub.cons_cons act).filter _).length_le.trans all
  have kept_all := clearExcessMarkers_eq few
  rw [kept_all, List.reverse_reverse]
  exact kept_cleared usual fits kept.impressions kept.inGroups
    (perm.trans (kept.markers.cons _)) sorted
    ((insertDoneAction_perm _ act).trans (kept.actions.cons _))

/-- No action is taken for a duplicate. -/
theorem not_ignored (fits : Fits actionIgnoreTime (.action act :: history)) :
    checkActionTimeBounds profile.customDoneActions act actionIgnoreTime = false := by
  apply checkActionTimeBounds_eq_false
  intro done hdone
  obtain ⟨other, hother, rfl⟩ := List.mem_map.mp (kept.actions.mem_iff.mp hdone)
  have apart := (List.pairwise_cons.mp usual.apart).1 other hother
  have member : Event.action other ∈ Event.action act :: history :=
    List.mem_cons_of_mem _ (mem_actions.mp hother)
  obtain ⟨past, below⟩ := fits.times _ member
  have time := uint_of_lt past below
  have actionId := uint_natCast (fits.actions other (mem_actions.mpr member)).1
  have ignore := unsignedLong_of_nonneg fits.ignore.1 fits.ignore.2
  unfold isNear storedAction
  simp only [Event.time] at time
  simp only [actionId, time, Bool.and_eq_false_iff, decide_eq_false_iff_not]
  by_cases same : other.actionId = act.actionId
  · have := apart same.symm
    omega
  · exact .inl same

end

end

/-! ## Runs -/

theorem history_kept (usual : Usual actionIgnoreTime history)
    (fits : Fits actionIgnoreTime history) :
    Kept ((profileAfter actionIgnoreTime history).getD .new) history := by
  induction history with
  | nil => exact ⟨.nil, .nil, .nil, .nil, .nil⟩
  | cons event history ih =>
    have kept := ih usual.tail fits.tail
    cases event with
    | impression imp => exact kept_impression kept usual fits
    | action act =>
      have accepted := not_ignored kept usual fits
      have next := kept_action kept usual fits
      simp only [profileAfter, process, processCustomAction]
      cases stored : profileAfter actionIgnoreTime history with
      | none =>
        rw [stored] at next
        exact next
      | some profile =>
        rw [stored] at next accepted
        simp only [Option.getD_some] at next accepted
        simp only [accepted]
        exact next

theorem process_perm (usual : Usual actionIgnoreTime (event :: history))
    (fits : Fits actionIgnoreTime (event :: history)) :
    (process actionIgnoreTime (profileAfter actionIgnoreTime history) event).2.Perm
      (foundPairs history event) := by
  have kept := history_kept usual.tail fits.tail
  cases event with
  | impression imp =>
    have perm := actionsForImpression_perm kept usual fits
    simp only [process, processImpression]
    cases stored : profileAfter actionIgnoreTime history with
    | none =>
      rw [stored] at perm
      exact perm
    | some profile =>
      rw [stored] at perm
      exact perm
  | action act =>
    have accepted := not_ignored kept usual fits
    have perm := impressionsForAction_perm kept usual fits
    simp only [process, processCustomAction]
    cases stored : profileAfter actionIgnoreTime history with
    | none =>
      rw [stored] at perm
      have none : impressionsForAction .new act = [] := by
        have group : ∀ ccgId, impressionsForGroup [] act ccgId = [] := fun _ => rfl
        simp [impressionsForAction, UserActionProfile.new, group]
      rw [Option.getD_none, none] at perm
      exact perm
    | some profile =>
      rw [stored] at accepted perm
      simp only [Option.getD_some] at accepted perm
      simp only [accepted]
      exact perm

theorem newPairs_append (a b : List Event) (event : Event) :
    newPairs (a ++ b) event = newPairs a event ++ newPairs b event := by
  cases event <;> simp [newPairs, impressions_append, actions_append]

theorem newPairs_eq_nil_impression :
    newPairs history (.impression imp) = [] ↔ ∀ act ∈ actions history, ¬ Matches imp act := by
  simp [newPairs, List.filter_eq_nil_iff]

theorem newPairs_eq_nil_action :
    newPairs history (.action act) = [] ↔ ∀ imp ∈ impressions history, ¬ Matches imp act := by
  simp [newPairs, List.filter_eq_nil_iff]

/-- An event finds no pair that there is not, and all of them if undisturbed. -/
theorem foundPairs_spec (history : List Event) (event : Event) :
    (foundPairs history event).Sublist (newPairs history event) ∧
    ((foundPairs history event).length = (newPairs history event).length ↔
      Undisturbed history event) := by
  cases event with
  | impression imp =>
    have split := newPairs_append (recent customActionMarkerExpireTime history)
      (erased customActionMarkerExpireTime history) (.impression imp)
    rw [recent_append_erased] at split
    simp only [foundPairs, Undisturbed]
    rw [← newPairs_eq_nil_impression]
    by_cases late : timeSyncPrecision ≤ imp.impTime
    · rw [if_pos late, split]
      refine ⟨List.sublist_append_left _ _, ?_⟩
      rw [List.length_append, Nat.left_eq_add, List.length_eq_zero_iff]
      exact ⟨fun none => ⟨fun _ _ _ => late, none⟩, fun h => h.2⟩
    · rw [if_neg late]
      refine ⟨List.nil_sublist _, ?_⟩
      rw [List.length_nil, eq_comm, List.length_eq_zero_iff]
      constructor
      · intro none
        have all := newPairs_eq_nil_impression.mp none
        rw [none, eq_comm, List.append_eq_nil_iff] at split
        exact ⟨fun act hact holds => absurd holds (all act hact), split.2⟩
      · rintro ⟨all, -⟩
        apply newPairs_eq_nil_impression.mpr
        intro act hact holds
        exact late (all act hact holds)
  | action act =>
    have split := newPairs_append (recent doneImpressionsExpireTime history)
      (erased doneImpressionsExpireTime history) (.action act)
    rw [recent_append_erased] at split
    simp only [foundPairs, Undisturbed]
    rw [← newPairs_eq_nil_action, split]
    refine ⟨List.sublist_append_left _ _, ?_⟩
    rw [List.length_append, Nat.left_eq_add, List.length_eq_zero_iff]

theorem delegated_spec (usual : Usual actionIgnoreTime history)
    (fits : Fits actionIgnoreTime history) :
    (delegatedBy actionIgnoreTime history).Subperm (pairs history) ∧
    ((delegatedBy actionIgnoreTime history).length = (pairs history).length ↔
      AllUndisturbed history) := by
  induction history with
  | nil => exact ⟨List.nil_subperm, by simp [delegatedBy, pairs, impressions, AllUndisturbed]⟩
  | cons event history ih =>
    obtain ⟨sub, all⟩ := ih usual.tail fits.tail
    obtain ⟨found, undisturbed⟩ := foundPairs_spec history event
    have perm := process_perm usual fits
    have cons := pairs_cons event history
    have now : (process actionIgnoreTime (profileAfter actionIgnoreTime history) event).2.Subperm
        (newPairs history event) := perm.subperm.trans found.subperm
    constructor
    · exact (now.append sub).trans cons.symm.subperm
    · rw [delegatedBy, cons.length_eq, List.length_append, List.length_append]
      have le := now.length_le
      have le' := sub.length_le
      rw [AllUndisturbed, ← undisturbed, ← all, ← perm.length_eq]
      omega

/-- Every pair is delegated once and no other is, exactly if no event that erases
the stored halves comes between the halves of a pair. -/
theorem delegated_perm_iff (actionIgnoreTime : Int) (history : List Event)
    (usual : Usual actionIgnoreTime history) (fits : Fits actionIgnoreTime history) :
    (delegatedBy actionIgnoreTime history).Perm (pairs history) ↔ AllUndisturbed history := by
  obtain ⟨sub, all⟩ := delegated_spec usual fits
  rw [← all]
  exact ⟨fun perm => perm.length_eq, fun same => sub.perm_of_length_le same.ge⟩

/-- An impression that is processed after an action one second before it, both some
seconds after a time. -/
def lateImpression (time : Int) : List Event :=
  [.impression ⟨time + 5, 7, 1⟩, .action ⟨time + 4, 3, [7, 8], 2, "site", "order", 50⟩]

theorem lateImpression_usual (time : Int) : Usual 60 (lateImpression time) := by
  refine ⟨?_, ?_, ?_, ?_, ?_, ?_⟩
  · simp [lateImpression, impressions]
  · simp [lateImpression, actions]
  · intro ccgId
    exact (List.length_filter_le _ _).trans (by simp [lateImpression, impressions,
      maxDoneImpressions])
  · intro actionId
    exact (List.length_filter_le _ _).trans (by simp [lateImpression, actions,
      maxKeepCustomActionMarkers])
  · simp [lateImpression, actions]
  · simp only [lateImpression, List.mem_cons, List.not_mem_nil, or_false, day]
    rintro a (rfl | rfl) b (rfl | rfl) <;> simp only [Event.time] <;> omega

theorem lateImpression_fits {time : Int} (past : 0 ≤ time) (below : time < 2 ^ 31) :
    Fits 60 (lateImpression time) := by
  refine ⟨by decide, ?_, ?_, ?_⟩
  · simp only [lateImpression, List.mem_cons, List.not_mem_nil, or_false]
    rintro event (rfl | rfl) <;> simp only [Event.time] <;> omega
  · simp [lateImpression, impressions]
  · simp [lateImpression, actions]

theorem lateImpression_delegated :
    (delegatedBy 60 (lateImpression (40 * day))).Perm (pairs (lateImpression (40 * day))) := by
  apply (delegated_perm_iff 60 (lateImpression (40 * day)) (lateImpression_usual _)
    (lateImpression_fits (by decide) (by decide))).mpr
  refine ⟨⟨fun _ _ _ => by decide, ?_⟩, ?_, trivial⟩
  · decide +kernel
  · intro imp himp
    cases himp

/-- In the first week of the epoch the action's own marker expires at once. -/
theorem earlyImpression_not_delegated :
    Usual 60 (lateImpression 100) ∧ Fits 60 (lateImpression 100) ∧
    ¬ (delegatedBy 60 (lateImpression 100)).Perm (pairs (lateImpression 100)) :=
  ⟨lateImpression_usual 100, lateImpression_fits (by decide) (by decide), by decide +kernel⟩

end AdServer.RequestInfo.CustomActions
