import Mathlib.Data.List.Basic

/-!
# The intervals of a channel

A channel matches by the visits of a user in its intervals. Long intervals count
whole days, the ones that begin today also the visits of this day.

Times are in seconds.
-/

namespace AdServer.UserInfo

def secInDay : Nat := 86400

structure ChannelInterval where
  timeFrom : Nat
  timeTo : Nat
  minVisits : Nat
  weight : Nat
  deriving DecidableEq

/-- What an interval begins with where the user has no candidate yet. -/
structure ChannelHTCandidateTemplate where
  minVisits : Nat
  reqVisits : Nat
  weight : Nat
  deriving DecidableEq

/-- Intervals by their begin, with the latest end of them. -/
structure ChannelIntervalList where
  intervals : List ChannelInterval := []
  maxTimeTo : Nat := 0
  bounded : ∀ interval ∈ intervals, interval.timeTo ≤ maxTimeTo := by simp
  empty : intervals = [] → maxTimeTo = 0 := by simp

/-- The interval goes before the first that does not begin before it. -/
def insertInterval (interval : ChannelInterval) (intervals : List ChannelInterval) :
    List ChannelInterval :=
  intervals.takeWhile (fun it => decide (it.timeFrom < interval.timeFrom)) ++ interval ::
    intervals.dropWhile (fun it => decide (it.timeFrom < interval.timeFrom))

theorem insertInterval_perm (interval : ChannelInterval) (intervals : List ChannelInterval) :
    (insertInterval interval intervals).Perm (interval :: intervals) := by
  have parts := List.takeWhile_append_dropWhile
    (p := fun it : ChannelInterval => decide (it.timeFrom < interval.timeFrom)) (l := intervals)
  refine List.perm_middle.trans ?_
  rw [parts]

def ChannelIntervalList.insert (list : ChannelIntervalList) (interval : ChannelInterval) :
    ChannelIntervalList where
  intervals := insertInterval interval list.intervals
  maxTimeTo := max list.maxTimeTo interval.timeTo
  bounded := by
    intro other mem
    obtain rfl | stored := List.mem_cons.1 ((insertInterval_perm _ _).mem_iff.1 mem)
    · exact Nat.le_max_right _ _
    · exact Nat.le_trans (list.bounded other stored) (Nat.le_max_left _ _)
  empty := by simp [insertInterval]

structure ChannelIntervalsPack where
  contextual : Bool := false
  zeroChannel : Bool := false
  weight : Nat := 0
  shortIntervals : ChannelIntervalList := {}
  todayLongIntervals : ChannelIntervalList := {}
  longIntervals : ChannelIntervalList := {}
  htCandidateTemplates : List ChannelHTCandidateTemplate := []

/-- `push_channel_interval_`. -/
def pushChannelInterval (cip : ChannelIntervalsPack) (ci : ChannelInterval) :
    ChannelIntervalsPack :=
  if ci.timeTo < secInDay then { cip with shortIntervals := cip.shortIntervals.insert ci }
  else if ci.timeFrom = 0 then
    { cip with todayLongIntervals := cip.todayLongIntervals.insert ci }
  else if ci.timeFrom < ci.timeTo ∧ secInDay ≤ ci.timeFrom then
    { cip with longIntervals := cip.longIntervals.insert ci }
  else cip

def htCandidateTemplate (interval : ChannelInterval) : ChannelHTCandidateTemplate :=
  let reqVisits := interval.minVisits - 1
  ⟨interval.minVisits, reqVisits, if reqVisits = 0 then interval.weight else 0⟩

/-- `init_ht_candidate_templates_`. -/
def initHtCandidateTemplates (cip : ChannelIntervalsPack) : ChannelIntervalsPack :=
  { cip with htCandidateTemplates := cip.todayLongIntervals.intervals.map htCandidateTemplate }

/-- A pack made of its behavioural parameters: intervals, and the weight of those
that match at once. -/
def buildPack (contextual zeroChannel : Bool) (weight : Nat) (intervals : List ChannelInterval) :
    ChannelIntervalsPack :=
  initHtCandidateTemplates (intervals.foldl pushChannelInterval
    { contextual := contextual, zeroChannel := zeroChannel, weight := weight })

theorem mem_todayLongIntervals {contextual zeroChannel : Bool} {weight : Nat}
    {intervals : List ChannelInterval} {interval : ChannelInterval}
    (mem : interval ∈ (buildPack contextual zeroChannel weight intervals).todayLongIntervals.intervals) :
    interval ∈ intervals := by
  have general (intervals : List ChannelInterval) (cip : ChannelIntervalsPack)
      (mem : interval ∈ (intervals.foldl pushChannelInterval cip).todayLongIntervals.intervals) :
      interval ∈ cip.todayLongIntervals.intervals ∨ interval ∈ intervals := by
    induction intervals generalizing cip with
    | nil => exact Or.inl mem
    | cons first rest ih =>
      obtain stored | later := ih (pushChannelInterval cip first) mem
      · unfold pushChannelInterval at stored
        split at stored
        · exact Or.inl stored
        · split at stored
          · obtain rfl | old := List.mem_cons.1 ((insertInterval_perm _ _).mem_iff.1 stored)
            · exact Or.inr (by simp)
            · exact Or.inl old
          · split at stored <;> exact Or.inl stored
      · exact Or.inr (by simp [later])
  obtain stored | pushed := general intervals _ mem
  · cases stored
  · exact pushed

/-- The sections of a profile, by what a channel is matched with. -/
inductive TriggerType where
  | page
  | search
  | url
  | urlKeyword
  deriving DecidableEq

abbrev ChannelsHashMap := Nat → Option ChannelIntervalsPack

abbrev ChannelDictionary := TriggerType → ChannelsHashMap

end AdServer.UserInfo
