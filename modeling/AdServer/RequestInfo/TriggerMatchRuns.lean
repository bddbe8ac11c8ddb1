import AdServer.RequestInfo.TriggerCounters
import Mathlib.Data.List.Sort

/-!
# Delegated trigger matches

Requests, impressions and clicks of one user. A request checks the recent impressions again:
what their request profiles hold is delegated with the other sign, then what is collected now
is delegated and stored.
-/

namespace AdServer.RequestInfo.UserTriggerMatch

open AdServer.Lib

/-- `ImpressionMarkerWriter`. -/
structure ImpressionMarker where
  time : Nat
  requestId : Nat

/-- `UserTriggerMatchWriter`. -/
structure UserProfile where
  stored : ByType (List ChannelMatch)
  impressions : List ImpressionMarker

def UserProfile.new : UserProfile := ⟨⟨[], [], [], []⟩, []⟩

/-- The counters of a request profile, in the order they were written. -/
abbrev MatchCounters := List (MatchCounterKey × ℚ)

/-- `RequestTriggerMatchWriter`. -/
structure RequestProfile where
  time : Nat
  channels : List Nat
  counters : ByType MatchCounters
  clickDone : Bool
  impressionDone : Bool

def RequestProfile.new : RequestProfile := ⟨0, [], ⟨[], [], [], []⟩, false, false⟩

/-- `TriggersMatchInfo`. -/
structure TriggersMatchInfo where
  time : Nat
  counts : ByType MatchCountMap

def TriggersMatchInfo.new (time : Nat) : TriggersMatchInfo :=
  ⟨time, ⟨.empty, .empty, .empty, .empty⟩⟩

def ByType.map {A B : Type} (f : A → B) (all : ByType A) : ByType B :=
  ⟨f all.page, f all.search, f all.url, f all.urlKeyword⟩

/-- `fill_match_counters`, after what is there. -/
def fillMatchCounters (res : ByType MatchCounters) (counts : ByType MatchCountMap) :
    ByType MatchCounters where
  page := res.page ++ counts.page.entries
  search := res.search ++ counts.search.entries
  url := res.url ++ counts.url.entries
  urlKeyword := res.urlKeyword ++ counts.urlKeyword.entries

/-- `convert_match_counters`. -/
def convertMatchCounters (counters : ByType MatchCounters) : ByType MatchCountMap :=
  counters.map fun counters => SortedMap.empty.addAll counters

def impressionExpireTime : Nat := oneDay

def maxImpressionsKeep : Nat := 10

/-- `clear_expired_impressions`: from the back, the recent ones, and not too many. -/
def clearExpiredImpressions (impressions : List ImpressionMarker) (lastRequestTime : Nat) :
    List ImpressionMarker :=
  ((impressions.reverse.takeWhile fun marker =>
    decide (lastRequestTime < impressionExpireTime + marker.time)).take maxImpressionsKeep).reverse

/-- `min_time_matches`, zero where there is no match. -/
def minTimeMatches (stored : ByType (List ChannelMatch)) : Nat :=
  let least (time : Nat) (list : List ChannelMatch) :=
    list.foldl (fun time one => if time = 0 then one.time else min time one.time) time
  least (least (least (least 0 stored.page) stored.search) stored.url) stored.urlKeyword

/-- `UserTriggerMatchContainer::RequestInfo`. -/
structure MatchRequestInfo where
  time : Nat
  new : ByType MatchMap
  mergeUserIdNull : Bool

structure ImpressionInfo where
  requestId : Nat
  time : Nat
  channels : List Nat

/-- The settings of the container. -/
structure Container where
  groups : Groups
  maxTriggerVisits : Nat

/-- The profiles of the user and of its requests, and what has been delegated for each request. -/
structure World where
  user : Option UserProfile
  requests : Nat → Option RequestProfile
  imps : List (Nat × TriggersMatchInfo)
  clicks : List (Nat × TriggersMatchInfo)

def World.new : World := ⟨none, fun _ => none, [], []⟩

def World.setRequest (w : World) (requestId : Nat) (profile : RequestProfile) : World :=
  { w with requests := Function.update w.requests requestId (some profile) }

def World.delegateImps (w : World) (requestId : Nat) (infos : List TriggersMatchInfo) : World :=
  { w with imps := w.imps ++ infos.map (requestId, ·) }

def World.delegateClicks (w : World) (requestId : Nat) (infos : List TriggersMatchInfo) : World :=
  { w with clicks := w.clicks ++ infos.map (requestId, ·) }

/-- `ChannelIdSet` of the stored channels. -/
def channelIdSet (channels : List Nat) : List Nat := channels.dedup.insertionSort (· ≤ ·)

/-- One impression is checked again. -/
def recheck (channels : ChannelInfoMap) (stored : ByType (List ChannelMatch)) (w : World)
    (marker : ImpressionMarker) : Option World :=
  match w.requests marker.requestId with
  | none => some w
  | some profile => do
    let revert : TriggersMatchInfo :=
      ⟨profile.time, (convertMatchCounters profile.counters).map SortedMap.negate⟩
    let counts ← collectMatches channels (channelIdSet profile.channels) stored
    let replace : TriggersMatchInfo := ⟨profile.time, counts⟩
    let reverts := if profile.impressionDone then [revert] else []
    let clickReverts := if profile.impressionDone && profile.clickDone then [revert] else []
    let clickReplaces := if profile.clickDone then [replace] else []
    some (((w.delegateImps marker.requestId (reverts ++ [replace])).delegateClicks
      marker.requestId (clickReverts ++ clickReplaces)).setRequest marker.requestId
        { profile with counters := fillMatchCounters ⟨[], [], [], []⟩ counts })

/-- `co_process_request`; the profile that is merged is the one of `merge_user_id`, if any. -/
def processRequest (container : Container) (channels : ChannelInfoMap) (info : MatchRequestInfo)
    (merged : Option UserProfile) (draws : Draws) (w : World) : Option World :=
  if info.new.page.isEmpty && info.new.search.isEmpty && info.new.url.isEmpty &&
      info.new.urlKeyword.isEmpty && info.mergeUserIdNull then some w
  else do
    let user := w.user.getD .new
    let merged := if info.mergeUserIdNull then none else merged
    let stored := match merged with
      | none => user.stored
      | some profile => mergeAllMatches user.stored profile.stored
    let mergedMatchMinTime := match merged with
      | none => 0
      | some profile => minTimeMatches profile.stored
    let stored := clearAllExcessMatches info.time channels container.maxTriggerVisits
      (addAllMatches container.groups info.time channels info.new stored draws).1
    let impressions := clearExpiredImpressions user.impressions info.time
    let minTimeForRecheck :=
      if mergedMatchMinTime = 0 then info.time else min info.time mergedMatchMinTime
    let w ← (impressions.dropWhile fun marker => decide (marker.time < minTimeForRecheck)).foldlM
      (recheck channels stored) w
    some { w with user := some ⟨stored, impressions⟩ }

/-- `lower_bound` by time, and `insert`. -/
def insertMarker (marker : ImpressionMarker) (impressions : List ImpressionMarker) :
    List ImpressionMarker :=
  (impressions.takeWhile fun other => decide (other.time < marker.time)) ++ marker ::
    impressions.dropWhile fun other => decide (other.time < marker.time)

/-- What the impression counts: nothing without a profile of the user. -/
def impressionCounts (channels : ChannelInfoMap) (info : ImpressionInfo) :
    Option UserProfile → Option (ByType MatchCountMap)
  | none => some (TriggersMatchInfo.new 0).counts
  | some user => collectMatches channels info.channels user.stored

/-- `co_process_impression`. -/
def processImpression (container : Container) (channels : ChannelInfoMap) (info : ImpressionInfo)
    (w : World) : Option World :=
  let before := w.requests info.requestId
  if before.any (·.impressionDone) then some w
  else
    let cleared := w.user.map fun user => { user with
      stored := clearAllExcessMatches info.time channels container.maxTriggerVisits user.stored }
    let user := cleared.getD .new
    let profile := before.getD .new
    let impressions := insertMarker ⟨info.time, info.requestId⟩
      (clearExpiredImpressions user.impressions info.time)
    (impressionCounts channels info cleared).map fun counts =>
      let matchesInfo : TriggersMatchInfo := ⟨if w.user.isSome then info.time else 0, counts⟩
      let imps := if w.user.isSome then [matchesInfo] else []
      let clicks := if profile.clickDone then [matchesInfo] else []
      { ((w.delegateImps info.requestId imps).delegateClicks info.requestId clicks).setRequest
          info.requestId { profile with
            impressionDone := true
            time := info.time
            channels := profile.channels ++ info.channels
            counters := fillMatchCounters profile.counters counts } with
        user := some { user with impressions := impressions } }

/-- `co_process_click`. -/
def processClick (requestId : Nat) (w : World) : World :=
  match w.requests requestId with
  | none => w.setRequest requestId { RequestProfile.new with clickDone := true }
  | some profile =>
    if profile.clickDone then w
    else
      (w.delegateClicks requestId [⟨profile.time, convertMatchCounters profile.counters⟩]).setRequest
        requestId { profile with clickDone := true }

inductive Event where
  | request (channels : ChannelInfoMap) (info : MatchRequestInfo) (merged : Option UserProfile)
      (draws : Draws)
  | impression (channels : ChannelInfoMap) (info : ImpressionInfo)
  | click (requestId : Nat)

def World.step (container : Container) (w : World) : Event → Option World
  | .request channels info merged draws => processRequest container channels info merged draws w
  | .impression channels info => processImpression container channels info w
  | .click requestId => some (processClick requestId w)

def World.run (container : Container) (w : World) : List Event → Option World
  | [] => some w
  | event :: events => (w.step container event).bind (·.run container events)

inductive MatchType where
  | page
  | search
  | url
  | urlKeyword

def ByType.get {A : Type} (all : ByType A) : MatchType → A
  | .page => all.page
  | .search => all.search
  | .url => all.url
  | .urlKeyword => all.urlKeyword

/-- What the profile of a request holds. -/
def RequestProfile.amount (profile : RequestProfile) (type : MatchType) (key : MatchCounterKey) :
    ℚ :=
  SortedMap.amountAt key (profile.counters.get type)

/-- The infos that were delegated for a request. -/
def delegatedFor (requestId : Nat) (delegated : List (Nat × TriggersMatchInfo)) :
    List TriggersMatchInfo :=
  (delegated.filter fun entry => entry.1 == requestId).map Prod.snd

def delegatedAmount (type : MatchType) (key : MatchCounterKey) (infos : List TriggersMatchInfo) :
    ℚ :=
  (infos.map fun info => (info.counts.get type).value key).sum

structure Balanced (w : World) (requestId : Nat) : Prop where
  imps : ∀ profile, w.requests requestId = some profile → profile.impressionDone = true →
    ∀ type key, delegatedAmount type key (delegatedFor requestId w.imps) = profile.amount type key
  no_imps : (∀ profile, w.requests requestId = some profile → profile.impressionDone = false) →
    delegatedFor requestId w.imps = []
  clicks : ∀ profile, w.requests requestId = some profile → profile.impressionDone = true →
    profile.clickDone = true →
    ∀ type key, delegatedAmount type key (delegatedFor requestId w.clicks) = profile.amount type key
  no_clicks : (∀ profile, w.requests requestId = some profile →
      ¬ (profile.impressionDone = true ∧ profile.clickDone = true)) →
    ∀ type key, delegatedAmount type key (delegatedFor requestId w.clicks) = 0

section Sums

variable {requestId other : Nat} {type : MatchType} {key : MatchCounterKey}

theorem delegatedFor_append (delegated more : List (Nat × TriggersMatchInfo)) :
    delegatedFor requestId (delegated ++ more) =
      delegatedFor requestId delegated ++ delegatedFor requestId more := by
  simp [delegatedFor]

theorem delegatedFor_own (infos : List TriggersMatchInfo) :
    delegatedFor requestId (infos.map (requestId, ·)) = infos := by
  simp [delegatedFor, List.filter_map, Function.comp_def]

theorem delegatedFor_other (apart : other ≠ requestId) (infos : List TriggersMatchInfo) :
    delegatedFor other (infos.map (requestId, ·)) = [] := by
  simp [delegatedFor, List.filter_map, Function.comp_def, Ne.symm apart]

theorem delegatedAmount_append (infos more : List TriggersMatchInfo) :
    delegatedAmount type key (infos ++ more) =
      delegatedAmount type key infos + delegatedAmount type key more := by
  simp [delegatedAmount]

theorem ByType.get_map {A B : Type} (f : A → B) (all : ByType A) (type : MatchType) :
    (all.map f).get type = f (all.get type) := by
  cases type <;> rfl

theorem convert_value (counters : ByType MatchCounters) :
    ((convertMatchCounters counters).get type).value key =
      SortedMap.amountAt key (counters.get type) := by
  unfold convertMatchCounters
  rw [ByType.get_map, SortedMap.value_addAll, SortedMap.value_empty, zero_add]

theorem fill_amount (counts : ByType MatchCountMap) :
    SortedMap.amountAt key ((fillMatchCounters ⟨[], [], [], []⟩ counts).get type) =
      (counts.get type).value key := by
  cases type <;> exact SortedMap.amountAt_entries _ key

theorem empty_amount :
    SortedMap.amountAt key ((⟨[], [], [], []⟩ : ByType MatchCounters).get type) = 0 := by
  cases type <;> rfl

end Sums

structure Ledger (w : World) : Prop where
  marked : ∀ user, w.user = some user → ∀ marker ∈ user.impressions,
    ∃ profile, w.requests marker.requestId = some profile ∧ profile.impressionDone = true
  /-- A profile without an impression holds nothing. -/
  blank : ∀ requestId profile, w.requests requestId = some profile →
    profile.impressionDone = false → profile.counters = ⟨[], [], [], []⟩
  balanced : ∀ requestId, Balanced w requestId

section Ledger

variable {w w' : World} {requestId : Nat}

theorem new_ledger : Ledger .new where
  marked := nofun
  blank := nofun
  balanced _ := ⟨nofun, fun _ => rfl, nofun, fun _ _ _ => rfl⟩

theorem Balanced.congr (balanced : Balanced w requestId)
    (requests : w'.requests requestId = w.requests requestId)
    (imps : delegatedFor requestId w'.imps = delegatedFor requestId w.imps)
    (clicks : delegatedFor requestId w'.clicks = delegatedFor requestId w.clicks) :
    Balanced w' requestId := by
  obtain ⟨imps_eq, no_imps, clicks_eq, no_clicks⟩ := balanced
  rw [← requests, ← imps] at imps_eq no_imps
  rw [← requests, ← clicks] at clicks_eq no_clicks
  exact ⟨imps_eq, no_imps, clicks_eq, no_clicks⟩

section
variable (ledger : Ledger w)
include ledger

/-- One request settles what is delegated for it; the others do not notice. -/
theorem Ledger.settle (requestId : Nat) (profile : RequestProfile)
    (imps clicks : List TriggersMatchInfo)
    (kept : ∀ before, w.requests requestId = some before → before.impressionDone = true →
      profile.impressionDone = true)
    (blank : profile.impressionDone = false → profile.counters = ⟨[], [], [], []⟩)
    (imps_amount : profile.impressionDone = true → ∀ type key,
      delegatedAmount type key (delegatedFor requestId w.imps) + delegatedAmount type key imps =
        profile.amount type key)
    (no_imps : profile.impressionDone = false → imps = [])
    (clicks_amount : ∀ type key,
      delegatedAmount type key (delegatedFor requestId w.clicks) + delegatedAmount type key clicks =
        if profile.impressionDone && profile.clickDone then profile.amount type key else 0) :
    Ledger (((w.delegateImps requestId imps).delegateClicks requestId clicks).setRequest requestId
      profile) where
  marked user there marker inside := by
    obtain ⟨before, found, done⟩ := ledger.marked user there marker inside
    by_cases same : marker.requestId = requestId
    · refine ⟨profile, ?_, kept before (same ▸ found) done⟩
      rw [same]
      exact Function.update_self ..
    · exact ⟨before, (Function.update_of_ne same ..).trans found, done⟩
  blank other profile' found undone := by
    by_cases same : other = requestId
    · subst same
      cases (Function.update_self ..).symm.trans found
      exact blank undone
    · exact ledger.blank other profile' ((Function.update_of_ne same ..).symm.trans found) undone
  balanced other := by
    by_cases same : other = requestId
    · subst same
      have all_imps : delegatedFor other (w.imps ++ imps.map (other, ·)) =
          delegatedFor other w.imps ++ imps := by
        rw [delegatedFor_append, delegatedFor_own]
      have all_clicks : delegatedFor other (w.clicks ++ clicks.map (other, ·)) =
          delegatedFor other w.clicks ++ clicks := by
        rw [delegatedFor_append, delegatedFor_own]
      have own : ∀ profile', (Function.update w.requests other (some profile)) other =
          some profile' → profile' = profile := by
        intro profile' found
        rw [Function.update_self] at found
        exact (Option.some.inj found).symm
      refine ⟨fun profile' found done type key => ?_, fun undone => ?_,
        fun profile' found done clicked type key => ?_, fun unfinished type key => ?_⟩
      · obtain rfl := own profile' found
        exact (congrArg _ all_imps).trans
          ((delegatedAmount_append _ _).trans (imps_amount done type key))
      · have undone := undone profile (Function.update_self ..)
        have before : delegatedFor other w.imps = [] :=
          (ledger.balanced other).no_imps fun before found => by
            by_contra done
            rw [kept before found (by simpa using done)] at undone
            cases undone
        exact all_imps.trans (by rw [before, no_imps undone, List.append_nil])
      · obtain rfl := own profile' found
        have amount := clicks_amount type key
        rw [done, clicked] at amount
        exact (congrArg _ all_clicks).trans ((delegatedAmount_append _ _).trans amount)
      · have unfinished := unfinished profile (Function.update_self ..)
        have amount := clicks_amount type key
        rw [if_neg (by simpa using unfinished)] at amount
        exact (congrArg _ all_clicks).trans ((delegatedAmount_append _ _).trans amount)
    · have unnoticed : ∀ delegated (infos : List TriggersMatchInfo),
          delegatedFor other (delegated ++ infos.map (requestId, ·)) =
            delegatedFor other delegated := fun delegated infos => by
        rw [delegatedFor_append, delegatedFor_other same, List.append_nil]
      exact (ledger.balanced other).congr (Function.update_of_ne same ..)
        (unnoticed w.imps imps) (unnoticed w.clicks clicks)

theorem Ledger.clicked {profile : RequestProfile} (found : w.requests requestId = some profile)
    (type : MatchType) (key : MatchCounterKey) :
    delegatedAmount type key (delegatedFor requestId w.clicks) =
      if profile.impressionDone && profile.clickDone then profile.amount type key else 0 := by
  split_ifs with done
  · rw [Bool.and_eq_true] at done
    exact (ledger.balanced requestId).clicks profile found done.1 done.2 type key
  · refine (ledger.balanced requestId).no_clicks (fun profile' found' => ?_) type key
    rw [found] at found'
    cases found'
    simpa using done

theorem Ledger.not_clicked (absent : w.requests requestId = none) (type : MatchType)
    (key : MatchCounterKey) : delegatedAmount type key (delegatedFor requestId w.clicks) = 0 :=
  (ledger.balanced requestId).no_clicks (by simp [absent]) type key

end

variable {channels : ChannelInfoMap} {marker : ImpressionMarker} {container : Container}

/-- What was stored is taken back, and what is collected now is put in its place. -/
theorem recheck_balanced (ledger : Ledger w) {stored : ByType (List ChannelMatch)}
    (marked : ∃ profile, w.requests marker.requestId = some profile ∧ profile.impressionDone = true)
    (step : recheck channels stored w marker = some w') : Ledger w' := by
  obtain ⟨profile, found, done⟩ := marked
  simp only [recheck, found, done, if_true, Bool.true_and, Option.bind_eq_bind] at step
  obtain ⟨counts, collected, step⟩ := Option.bind_eq_some_iff.1 step
  cases step
  have reverted (type : MatchType) (key : MatchCounterKey) :
      (((convertMatchCounters profile.counters).map SortedMap.negate).get type).value key =
        -profile.amount type key := by
    rw [ByType.get_map, SortedMap.value_negate, convert_value]
    rfl
  refine ledger.settle _ _ _ _ (fun _ _ _ => rfl) nofun (fun _ type key => ?_) nofun
    fun type key => ?_
  · rw [(ledger.balanced _).imps profile found done]
    simp only [delegatedAmount, List.cons_append, List.nil_append, List.map_cons, List.map_nil,
      List.sum_cons, List.sum_nil, reverted]
    refine Eq.trans ?_ (fill_amount counts).symm
    ring
  · rw [ledger.clicked found, done]
    cases clicked : profile.clickDone with
    | false => simp [delegatedAmount]
    | true =>
      simp only [Bool.true_and, if_true, delegatedAmount, List.cons_append, List.nil_append,
        List.map_cons, List.map_nil, List.sum_cons, List.sum_nil, reverted]
      refine Eq.trans ?_ (fill_amount counts).symm
      ring

/-- A profile that has an impression keeps it, and the profile of the user is not touched. -/
theorem recheck_kept {stored : ByType (List ChannelMatch)}
    (step : recheck channels stored w marker = some w') :
    w'.user = w.user ∧ ∀ id profile, w.requests id = some profile →
      ∃ profile', w'.requests id = some profile' ∧
        (profile.impressionDone = true → profile'.impressionDone = true) := by
  simp only [recheck] at step
  split at step
  · cases step
    exact ⟨rfl, fun id profile found => ⟨profile, found, fun done => done⟩⟩
  · next before there =>
    obtain ⟨counts, collected, step⟩ := Option.bind_eq_some_iff.1 step
    cases step
    refine ⟨rfl, fun id profile found => ?_⟩
    by_cases same : id = marker.requestId
    · subst same
      rw [there] at found
      cases found
      exact ⟨_, Function.update_self .., fun done => done⟩
    · exact ⟨profile, (Function.update_of_ne same ..).trans found, fun done => done⟩

theorem rechecks_balanced {stored : ByType (List ChannelMatch)} {markers : List ImpressionMarker}
    (ledger : Ledger w)
    (marked : ∀ marker ∈ markers, ∃ profile, w.requests marker.requestId = some profile ∧
      profile.impressionDone = true)
    (steps : markers.foldlM (recheck channels stored) w = some w') :
    Ledger w' ∧ w'.user = w.user ∧ ∀ id profile, w.requests id = some profile →
      ∃ profile', w'.requests id = some profile' ∧
        (profile.impressionDone = true → profile'.impressionDone = true) := by
  induction markers generalizing w with
  | nil =>
    cases steps
    exact ⟨ledger, rfl, fun id profile found => ⟨profile, found, fun done => done⟩⟩
  | cons marker markers ih =>
    rw [List.foldlM_cons] at steps
    obtain ⟨w₁, step, steps⟩ := Option.bind_eq_some_iff.1 steps
    obtain ⟨user, kept⟩ := recheck_kept step
    have still : ∀ marker ∈ markers, ∃ profile, w₁.requests marker.requestId = some profile ∧
        profile.impressionDone = true := by
      intro other inside
      obtain ⟨profile, found, done⟩ := marked other (.tail _ inside)
      obtain ⟨profile', found', kept⟩ := kept _ profile found
      exact ⟨profile', found', kept done⟩
    obtain ⟨ledger', user', kept'⟩ :=
      ih (recheck_balanced ledger (marked marker List.mem_cons_self) step) still steps
    refine ⟨ledger', user'.trans user, fun id profile found => ?_⟩
    obtain ⟨profile₁, found₁, kept₁⟩ := kept id profile found
    obtain ⟨profile', found', kept'⟩ := kept' id profile₁ found₁
    exact ⟨profile', found', fun done => kept' (kept₁ done)⟩

theorem clearExpiredImpressions_subset (impressions : List ImpressionMarker) (time : Nat) :
    ∀ marker ∈ clearExpiredImpressions impressions time, marker ∈ impressions := by
  intro marker there
  have there := List.mem_of_mem_take (List.mem_reverse.1 there)
  exact List.mem_reverse.1 ((List.takeWhile_sublist _).subset there)

theorem mem_insertMarker {marker other : ImpressionMarker} {impressions : List ImpressionMarker}
    (there : other ∈ insertMarker marker impressions) : other = marker ∨ other ∈ impressions := by
  obtain front | there := List.mem_append.1 there
  · exact .inr ((List.takeWhile_sublist _).subset front)
  · obtain same | back := List.mem_cons.1 there
    · exact .inl same
    · exact .inr ((List.dropWhile_sublist _).subset back)

section
variable (ledger : Ledger w)
include ledger

/-- The user profile changes, with markers of impressions that are done. -/
theorem Ledger.setUser (user : UserProfile)
    (marked : ∀ marker ∈ user.impressions, ∃ profile,
      w.requests marker.requestId = some profile ∧ profile.impressionDone = true) :
    Ledger { w with user := some user } where
  marked := by
    rintro _ ⟨⟩
    exact marked
  blank := ledger.blank
  balanced requestId := (ledger.balanced requestId).congr rfl rfl rfl

theorem Ledger.markers (time : Nat) :
    ∀ marker ∈ clearExpiredImpressions (w.user.getD .new).impressions time,
      ∃ profile, w.requests marker.requestId = some profile ∧ profile.impressionDone = true := by
  intro marker there
  have there := clearExpiredImpressions_subset _ time marker there
  cases user : w.user with
  | none =>
    rw [user] at there
    cases there
  | some profile =>
    rw [user] at there
    exact ledger.marked profile user marker there

theorem processRequest_balanced {info : MatchRequestInfo} {merged : Option UserProfile}
    {draws : Draws} (step : processRequest container channels info merged draws w = some w') :
    Ledger w' := by
  simp only [processRequest] at step
  split at step
  · cases step
    exact ledger
  · obtain ⟨w₁, steps, step⟩ := Option.bind_eq_some_iff.1 step
    cases step
    have marked := ledger.markers info.time
    obtain ⟨ledger', -, kept⟩ := rechecks_balanced ledger
      (fun marker there => marked marker ((List.dropWhile_sublist _).subset there)) steps
    refine ledger'.setUser _ fun marker there => ?_
    obtain ⟨profile, found, done⟩ := marked marker there
    obtain ⟨profile', found', kept⟩ := kept _ profile found
    exact ⟨profile', found', kept done⟩

theorem processClick_balanced (requestId : Nat) : Ledger (processClick requestId w) := by
  unfold processClick
  split
  · next absent =>
    have settled := ledger.settle requestId { RequestProfile.new with clickDone := true } [] []
      (by simp [absent]) (fun _ => rfl) nofun (fun _ => rfl) (fun type key => by
        rw [ledger.not_clicked absent]
        simp [delegatedAmount, RequestProfile.new])
    simpa [World.delegateImps, World.delegateClicks] using settled
  · next profile found =>
    split_ifs with clicked
    · exact ledger
    · have settled := ledger.settle requestId { profile with clickDone := true } []
        [⟨profile.time, convertMatchCounters profile.counters⟩] ?_ ?_ ?_ (fun _ => rfl) ?_
      · simpa [World.delegateImps] using settled
      · intro before there done
        rw [found] at there
        cases there
        exact done
      · exact ledger.blank requestId profile found
      · intro done type key
        exact (add_zero _).trans ((ledger.balanced requestId).imps profile found done type key)
      · intro type key
        rw [ledger.clicked found, if_neg (by simp [clicked]), zero_add]
        simp only [delegatedAmount, List.map_cons, List.map_nil, List.sum_cons, List.sum_nil,
          add_zero, convert_value, Bool.and_true]
        cases done : profile.impressionDone with
        | true => rfl
        | false =>
          rw [ledger.blank requestId profile found done, empty_amount]
          rfl

/-- The first impression of a request: what is collected is what is stored. -/
theorem processImpression_balanced {info : ImpressionInfo}
    (step : processImpression container channels info w = some w') : Ledger w' := by
  simp only [processImpression] at step
  split at step
  · cases step
    exact ledger
  · next first =>
    obtain ⟨counts, collected, rfl⟩ := Option.map_eq_some_iff.1 step
    have undone : ∀ before, w.requests info.requestId = some before →
        before.impressionDone = false := by
      intro before found
      simpa [found] using first
    have blank : ((w.requests info.requestId).getD .new).counters = ⟨[], [], [], []⟩ := by
      cases found : w.requests info.requestId with
      | none => rfl
      | some before => exact ledger.blank _ before found (undone before found)
    have no_imps : delegatedFor info.requestId w.imps = [] :=
      (ledger.balanced info.requestId).no_imps undone
    have no_clicks (type : MatchType) (key : MatchCounterKey) :
        delegatedAmount type key (delegatedFor info.requestId w.clicks) = 0 :=
      (ledger.balanced info.requestId).no_clicks
        (fun before found => by simp [undone before found]) type key
    have nothing (absent : w.user = none) (type : MatchType) (key : MatchCounterKey) :
        (counts.get type).value key = 0 := by
      rw [absent] at collected
      cases collected
      cases type <;> rfl
    have amount (type : MatchType) (key : MatchCounterKey) : SortedMap.amountAt key
        ((fillMatchCounters ((w.requests info.requestId).getD .new).counters counts).get type) =
          (counts.get type).value key := by
      rw [blank]
      exact fill_amount counts
    have settled := ledger.settle info.requestId
      { (w.requests info.requestId).getD .new with
        impressionDone := true
        time := info.time
        channels := ((w.requests info.requestId).getD .new).channels ++ info.channels
        counters := fillMatchCounters ((w.requests info.requestId).getD .new).counters counts }
      (if w.user.isSome then [⟨if w.user.isSome then info.time else 0, counts⟩] else [])
      (if ((w.requests info.requestId).getD .new).clickDone then
        [⟨if w.user.isSome then info.time else 0, counts⟩] else [])
      (fun _ _ _ => rfl) nofun (fun _ type key => ?_) nofun fun type key => ?_
    · refine settled.setUser _ fun marker there => ?_
      have same_impressions : ((w.user.map fun user => UserProfile.mk (clearAllExcessMatches
          info.time channels container.maxTriggerVisits user.stored) user.impressions).getD
            .new).impressions = (w.user.getD .new).impressions := by
        cases w.user <;> rfl
      rw [same_impressions] at there
      by_cases own : marker.requestId = info.requestId
      · exact ⟨_, (congrArg _ own).trans (Function.update_self ..), rfl⟩
      · obtain there | there := mem_insertMarker there
        · exact absurd (congrArg ImpressionMarker.requestId there) own
        · obtain ⟨profile, found, done⟩ := ledger.markers info.time marker there
          exact ⟨profile, (Function.update_of_ne own ..).trans found, done⟩
    · rw [no_imps, RequestProfile.amount, amount]
      cases user : w.user with
      | none => simp [delegatedAmount, nothing user]
      | some user => simp [delegatedAmount]
    · rw [no_clicks, RequestProfile.amount, amount]
      cases ((w.requests info.requestId).getD .new).clickDone with
      | false => simp [delegatedAmount]
      | true => simp [delegatedAmount]

theorem step_ledger {event : Event} (step : w.step container event = some w') : Ledger w' := by
  cases event with
  | request channels info merged draws => exact processRequest_balanced ledger step
  | impression channels info => exact processImpression_balanced ledger step
  | click requestId =>
    cases step
    exact processClick_balanced ledger requestId

theorem run_ledger {events : List Event} (run : w.run container events = some w') : Ledger w' := by
  induction events generalizing w with
  | nil =>
    cases run
    exact ledger
  | cons event events ih =>
    obtain ⟨w₁, step, rest⟩ := Option.bind_eq_some_iff.1 run
    exact ih (step_ledger ledger step) rest

end

end Ledger

theorem run_balanced (container : Container) (events : List Event) (w : World)
    (run : World.new.run container events = some w) (requestId : Nat) : Balanced w requestId :=
  (run_ledger new_ledger run).balanced requestId

/-- A click before its impression; then a request at the same time, which checks it again. -/
def clickFirst : List Event :=
  [.request threeTriggers ⟨100, twoTriggers, true⟩ none fun i => i, .click 1,
    .impression threeTriggers ⟨1, 100, [7]⟩,
    .request threeTriggers ⟨100, twoTriggers, true⟩ none fun i => i + 1]

theorem run_balanced_clickFirst : ∃ w : World,
    World.new.run ⟨⟨2, 3⟩, 0⟩ clickFirst = some w ∧ Balanced w 1 := by
  have runs : (World.new.run ⟨⟨2, 3⟩, 0⟩ clickFirst).isSome = true := by decide +kernel
  obtain ⟨w, run⟩ := Option.isSome_iff_exists.1 runs
  exact ⟨w, run, run_balanced ⟨⟨2, 3⟩, 0⟩ clickFirst w run 1⟩

end AdServer.RequestInfo.UserTriggerMatch
