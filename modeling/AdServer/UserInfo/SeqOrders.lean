import AdServer.UserInfo.FreqCapOperations

/-!
# Sequence orders

The counter of a campaign group belongs to the set of creatives it was recorded
for. What the counters of a profile tell of the requests that it was built from,
by `consider` and by merging the profiles of two users.
-/

namespace AdServer.UserInfo

open AdServer.Lib SeqOrder

/-- How a profile was built from empty ones. -/
inductive History
  | empty
  | consider (cfg : FreqCapConfig) (history : History) (impressions : Impressions)
  | merge (cfg : FreqCapConfig) (now : Time) (history other : History)

namespace History

def profile : History → Option UserFreqCapProfile
  | empty => none
  | consider cfg history impressions => some (UserInfo.consider cfg history.profile impressions)
  | merge cfg now history other => UserInfo.merge cfg history.profile other.profile now

/-- The counters stored. -/
def seqOrders (history : History) : List SeqOrder :=
  (history.profile.getD {}).seqOrders

/-- What all the `consider` calls of the history recorded. -/
def considered : History → List SeqOrder
  | empty => []
  | consider _ history impressions => history.considered ++ impressions.seqOrders
  | merge _ _ history other => history.considered ++ other.considered

end History

/-- The imps of a group, of one set or of all. -/
def setImps (orders : List SeqOrder) (ccgId setId : Nat) : Nat :=
  ((orders.filter fun order => order.ccgId = ccgId ∧ order.setId = setId).map SeqOrder.imps).sum

def ccgImps (orders : List SeqOrder) (ccgId : Nat) : Nat :=
  ((orders.filter fun order => order.ccgId = ccgId).map SeqOrder.imps).sum

/-- All the orders of the group are of the set. -/
def OfSet (orders : List SeqOrder) (ccgId setId : Nat) : Prop :=
  ∀ order ∈ orders, order.ccgId = ccgId → order.setId = setId

/-- A counter is at most what was recorded for its set, and all that was recorded
if there was one set. -/
def SetsApart (stored considered : List SeqOrder) : Prop :=
  ∀ order ∈ stored, order.imps ≤ setImps considered order.ccgId order.setId ∧
    ∀ setId, OfSet considered order.ccgId setId → order.imps = ccgImps considered order.ccgId

def Fits (order : SeqOrder) : Prop :=
  order.ccgId < 4294967296 ∧ order.setId < 4294967296 ∧ order.imps < 4294967296

/-- The groups of a request come in order, and no sum leaves the 32 bits. -/
structure Considerable (stored new : List SeqOrder) : Prop where
  ascending : new.Pairwise fun order order' => order.ccgId < order'.ccgId
  fits : ∀ order ∈ new, Fits order
  sums : ∀ order ∈ stored, ∀ order' ∈ new, order.ccgId = order'.ccgId →
    order.setId = order'.setId → order.imps + order'.imps < 4294967296

/-- A group that both profiles have is of one set, and its sum fits. -/
structure Mergeable (left right : List SeqOrder) : Prop where
  sets : ∀ order ∈ left, ∀ order' ∈ right, order.ccgId = order'.ccgId →
    order.setId = order'.setId
  sums : ∀ order ∈ left, ∀ order' ∈ right, order.ccgId = order'.ccgId →
    order.imps + order'.imps < 4294967296

def History.Proper : History → Prop
  | empty => True
  | consider _ history impressions =>
    history.Proper ∧ Considerable history.seqOrders impressions.seqOrders
  | merge _ _ history other =>
    history.Proper ∧ other.Proper ∧ Mergeable history.seqOrders other.seqOrders

@[simp] theorem cleanUpIfTimedOut_seqOrders (cfg : FreqCapConfig) (now : Time)
    (profile : UserFreqCapProfile) :
    (cleanUpIfTimedOut cfg now profile).seqOrders = profile.seqOrders := by
  unfold cleanUpIfTimedOut
  split <;> rfl

theorem consider_seqOrders (cfg : FreqCapConfig) (history : History) (impressions : Impressions) :
    (History.consider cfg history impressions).seqOrders =
      addSeqOrders history.seqOrders impressions.seqOrders := by
  change (UserInfo.consider cfg history.profile impressions).seqOrders = _
  unfold UserInfo.consider
  rw [cleanUpIfTimedOut_seqOrders]
  have kept (profile : UserFreqCapProfile) :
      (addRequest impressions profile).seqOrders = profile.seqOrders := by
    unfold addRequest
    split
    · rfl
    · split <;> rfl
  change addSeqOrders (addRequest impressions _).seqOrders impressions.seqOrders = _
  rw [kept]
  rfl

theorem merge_seqOrders (cfg : FreqCapConfig) (now : Time) (history other : History) :
    (History.merge cfg now history other).seqOrders =
      mergeUnique ccgId ccgId id id mergeStoredSeqOrder
        history.seqOrders other.seqOrders := by
  unfold History.seqOrders
  rw [History.profile]
  cases other.profile with
  | none =>
    cases history.profile with
    | none => rfl
    | some profile => exact (mergeUnique_nil_right _).trans (List.map_id _) |>.symm
  | some other =>
    cases history.profile with
    | none => exact (List.map_id _).symm
    | some profile => exact cleanUpIfTimedOut_seqOrders _ _ _

theorem setImps_append (orders orders' : List SeqOrder) (ccgId setId : Nat) :
    setImps (orders ++ orders') ccgId setId =
      setImps orders ccgId setId + setImps orders' ccgId setId := by
  simp [setImps]

variable {orders stored considered left right : List SeqOrder} {ccgId : Nat} {order : SeqOrder}

theorem setImps_unknown (unknown : ∀ order ∈ orders, order.ccgId ≠ ccgId) (setId : Nat) :
    setImps orders ccgId setId = 0 := by
  have none_left : orders.filter (fun order => order.ccgId = ccgId ∧ order.setId = setId) = [] := by
    rw [List.filter_eq_nil_iff]
    intro order mem
    simp [unknown order mem]
  rw [setImps, none_left]
  rfl

theorem setImps_ofSet {ccgId setId : Nat} (ofSet : OfSet orders ccgId setId) :
    setImps orders ccgId setId = ccgImps orders ccgId := by
  unfold setImps ccgImps
  congr 2
  apply List.filter_congr
  intro order mem
  have own := ofSet order mem
  simpa using own

theorem setImps_ascending
    (ascending : orders.Pairwise fun order order' => order.ccgId < order'.ccgId)
    (mem : order ∈ orders) : setImps orders order.ccgId order.setId = order.imps := by
  induction orders with
  | nil => simp at mem
  | cons first rest ih =>
    obtain ⟨below, ascending⟩ := List.pairwise_cons.1 ascending
    rw [← List.singleton_append, setImps_append]
    obtain rfl | mem := List.mem_cons.1 mem
    · rw [setImps_unknown fun order' mem => (below order' mem).ne']
      simp [setImps]
    · rw [ih ascending mem, setImps_unknown (by simpa using (below order mem).ne), Nat.zero_add]

structure Tells (stored considered : List SeqOrder) : Prop where
  ascending : stored.Pairwise fun order order' => order.ccgId < order'.ccgId
  known : ∀ order ∈ considered, ∃ order' ∈ stored, order'.ccgId = order.ccgId
  recorded : ∀ order ∈ stored, ∃ order' ∈ considered, order'.ccgId = order.ccgId ∧
    order'.setId = order.setId
  atMost : ∀ order ∈ stored, order.imps ≤ setImps considered order.ccgId order.setId
  all : ∀ order ∈ stored, OfSet considered order.ccgId order.setId →
    order.imps = setImps considered order.ccgId order.setId

theorem Tells.unknown (tells : Tells stored considered)
    (none_stored : ∀ order ∈ stored, ccgId ≠ order.ccgId) (setId : Nat) :
    setImps considered ccgId setId = 0 := by
  apply setImps_unknown
  rintro order mem rfl
  obtain ⟨order', stored', same⟩ := tells.known order mem
  exact none_stored order' stored' same.symm

theorem Tells.setsApart (tells : Tells stored considered) : SetsApart stored considered := by
  intro order mem
  refine ⟨tells.atMost order mem, fun setId ofSet => ?_⟩
  obtain ⟨order', mem', same, same_set⟩ := tells.recorded order mem
  have set_eq : order.setId = setId := same_set.symm.trans (ofSet order' mem' same)
  rw [tells.all order mem (set_eq ▸ ofSet), setImps_ofSet (set_eq ▸ ofSet)]

theorem tells_ascending
    (ascending : orders.Pairwise fun order order' => order.ccgId < order'.ccgId) :
    Tells orders orders where
  ascending := ascending
  known _ mem := ⟨_, mem, rfl⟩
  recorded _ mem := ⟨_, mem, rfl, rfl⟩
  atMost _ mem := (setImps_ascending ascending mem).ge
  all _ mem _ := (setImps_ascending ascending mem).symm

/-- Two orders of a group put together: the later set starts anew. -/
def joined (order order' : SeqOrder) : SeqOrder :=
  ⟨order'.ccgId, order'.setId,
    if order.setId = order'.setId then order.imps + order'.imps else order'.imps⟩

theorem Tells.merge {left right considered considered' : List SeqOrder}
    (tells : Tells left considered) (tells' : Tells right considered') :
    Tells (mergeUnique SeqOrder.ccgId SeqOrder.ccgId id id joined left right)
      (considered ++ considered') := by
  have apart {order : SeqOrder} (mem : order ∈ mergeUnique ccgId ccgId id id
      joined left right) := mem_mergeUnique tells.ascending tells'.ascending mem
  have keys {ccgId : Nat} := @mem_keys_mergeUnique _ _ _ _ _ SeqOrder.ccgId SeqOrder.ccgId id id
    joined SeqOrder.ccgId (fun _ => rfl) (fun _ => rfl) (fun _ _ _ => rfl) left right ccgId
  constructor
  · exact @pairwise_mergeUnique _ _ _ _ _ ccgId ccgId id id joined ccgId
      (fun _ => rfl) (fun _ => rfl) (fun _ _ _ => rfl) _ _ tells.ascending tells'.ascending
  · intro order mem
    rw [← List.mem_map, keys]
    obtain mem | mem := List.mem_append.1 mem
    · exact Or.inl (List.mem_map.2 (tells.known order mem))
    · exact Or.inr (List.mem_map.2 (tells'.known order mem))
  · intro order mem
    obtain ⟨a, inA, rfl, -⟩ | ⟨b, inB, rfl, -⟩ | ⟨a, -, b, inB, -, rfl⟩ := apart mem
    · obtain ⟨order', mem', same⟩ := tells.recorded order inA
      exact ⟨order', List.mem_append_left _ mem', same⟩
    · obtain ⟨order', mem', same⟩ := tells'.recorded order inB
      exact ⟨order', List.mem_append_right _ mem', same⟩
    · obtain ⟨order', mem', same⟩ := tells'.recorded b inB
      exact ⟨order', List.mem_append_right _ mem', same⟩
  · intro order mem
    rw [setImps_append]
    obtain ⟨a, inA, rfl, -⟩ | ⟨b, inB, rfl, -⟩ | ⟨a, inA, b, inB, same, rfl⟩ := apart mem
    · exact (tells.atMost order inA).trans (Nat.le_add_right _ _)
    · exact (tells'.atMost order inB).trans (Nat.le_add_left _ _)
    · have left_most := tells.atMost a inA
      have right_most := tells'.atMost b inB
      by_cases same_set : a.setId = b.setId
      · rw [same, same_set] at left_most
        simp only [joined, same_set, if_true]
        omega
      · simp only [joined, same_set, if_false]
        omega
  · intro order mem ofSet
    rw [setImps_append]
    obtain ⟨a, inA, rfl, alone⟩ | ⟨b, inB, rfl, alone⟩ | ⟨a, inA, b, inB, same, rfl⟩ :=
      apart mem
    · rw [tells'.unknown alone]
      exact tells.all order inA fun order' mem' => ofSet order' (List.mem_append_left _ mem')
    · rw [tells.unknown fun order' mem' => (alone order' mem').symm, Nat.zero_add]
      exact tells'.all order inB fun order' mem' => ofSet order' (List.mem_append_right _ mem')
    · have right_all := tells'.all b inB fun order' mem' =>
        ofSet order' (List.mem_append_right _ mem')
      obtain ⟨order', mem', own, own_set⟩ := tells.recorded a inA
      have same_set : a.setId = b.setId :=
        own_set.symm.trans (ofSet order' (List.mem_append_left _ mem') (own.trans same))
      have left_all := tells.all a inA
      rw [same, same_set] at left_all
      have left_sum := left_all fun order' mem' => ofSet order' (List.mem_append_left _ mem')
      simp only [joined, same_set, if_true]
      rw [left_sum, right_all]

theorem toUint_of_lt {value : Nat} (fits : value < 4294967296) : toUint value = value :=
  Nat.mod_eq_of_lt fits

theorem adaptSeqOrder_fits (fits : Fits order) : adaptSeqOrder order = order := by
  obtain ⟨ccg, set, imps⟩ := fits
  simp only [adaptSeqOrder, toUint_of_lt ccg, toUint_of_lt set, toUint_of_lt imps]

theorem addSeqOrders_eq {stored new : List SeqOrder} (considerable : Considerable stored new) :
    addSeqOrders stored new =
      mergeUnique SeqOrder.ccgId SeqOrder.ccgId id id joined stored new := by
  apply mergeUnique_congr (fun _ _ => rfl)
  · exact fun order mem => adaptSeqOrder_fits (considerable.fits order mem)
  · intro order mem order' mem' same
    have fits := considerable.fits order' mem'
    unfold mergeSeqOrder
    rw [adaptSeqOrder_fits]
    · rfl
    · refine ⟨fits.1, fits.2.1, ?_⟩
      by_cases same_set : order.setId = order'.setId
      · simpa [same_set] using considerable.sums order mem order' mem' same same_set
      · simpa [same_set] using fits.2.2

theorem mergeStored_eq (mergeable : Mergeable left right) :
    mergeUnique SeqOrder.ccgId SeqOrder.ccgId id id mergeStoredSeqOrder left right =
      mergeUnique SeqOrder.ccgId SeqOrder.ccgId id id joined left right := by
  apply mergeUnique_congr (fun _ _ => rfl) (fun _ _ => rfl)
  intro order mem order' mem' same
  have same_set := mergeable.sets order mem order' mem' same
  have sum := mergeable.sums order mem order' mem' same
  simp only [mergeStoredSeqOrder, joined, same, same_set, if_true, toUint_of_lt sum]

theorem tells_of_proper (history : History) (proper : history.Proper) :
    Tells history.seqOrders history.considered := by
  induction history with
  | empty => exact tells_ascending List.Pairwise.nil
  | consider cfg history impressions ih =>
    obtain ⟨proper, considerable⟩ := proper
    rw [consider_seqOrders, addSeqOrders_eq considerable]
    exact (ih proper).merge (tells_ascending considerable.ascending)
  | merge cfg now history other ih ih' =>
    obtain ⟨proper, proper', mergeable⟩ := proper
    rw [merge_seqOrders, mergeStored_eq mergeable]
    exact (ih proper).merge (ih' proper')

/-- Counters do not mix sets in a history all of whose merges meet groups of one
set. -/
theorem setsApart_of_proper (history : History) (proper : history.Proper) :
    SetsApart history.seqOrders history.considered :=
  (tells_of_proper history proper).setsApart

def noFreqCaps : FreqCapConfig := ⟨0, SortedMap.empty, []⟩

/-- A request with one impression count of a group. -/
def oneGroup (ccgId setId imps : Nat) : Impressions :=
  { requestId := none, now := 0, cFcs := [], ucFcs := [], seqOrders := [⟨ccgId, setId, imps⟩] }

def builtOf (impressions : Impressions) : History :=
  .consider noFreqCaps .empty impressions

def bothMerged (impressions impressions' : Impressions) : History :=
  .merge noFreqCaps 0 (builtOf impressions) (builtOf impressions')

theorem builtOf_seqOrders (impressions : Impressions) :
    (builtOf impressions).seqOrders = addSeqOrders [] impressions.seqOrders :=
  consider_seqOrders _ _ _

theorem bothMerged_seqOrders (impressions impressions' : Impressions) :
    (bothMerged impressions impressions').seqOrders =
      mergeUnique SeqOrder.ccgId SeqOrder.ccgId id id mergeStoredSeqOrder
        (addSeqOrders [] impressions.seqOrders) (addSeqOrders [] impressions'.seqOrders) := by
  rw [bothMerged, merge_seqOrders, builtOf_seqOrders, builtOf_seqOrders]

/-- Two users saw one set of a group. -/
theorem setsApart_one_set :
    SetsApart (bothMerged (oneGroup 1 2 3) (oneGroup 1 2 4)).seqOrders [⟨1, 2, 3⟩, ⟨1, 2, 4⟩] := by
  refine setsApart_of_proper (bothMerged (oneGroup 1 2 3) (oneGroup 1 2 4)) ⟨⟨trivial, ?_⟩,
    ⟨trivial, ?_⟩, ?_⟩
  · constructor <;> simp [oneGroup, Fits, History.seqOrders, History.profile]
  · constructor <;> simp [oneGroup, Fits, History.seqOrders, History.profile]
  · rw [builtOf_seqOrders, builtOf_seqOrders]
    constructor <;> decide

/-- Two users saw different sets of a group: the merged counter keeps the first
one's set with the second one's imps. -/
theorem sets_mixed :
    ¬ ∀ history : History, SetsApart history.seqOrders history.considered := by
  intro all_apart
  have mixed := all_apart (bothMerged (oneGroup 1 1 1) (oneGroup 1 2 5))
  rw [bothMerged_seqOrders] at mixed
  exact absurd (mixed ⟨1, 1, 5⟩ (by decide)).1 (by decide)

end AdServer.UserInfo
