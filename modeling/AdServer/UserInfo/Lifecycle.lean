import AdServer.UserInfo.Balance
import Mathlib.Data.List.Flatten
import Mathlib.Data.List.Nodup

/-!
# The lifecycle of unconfirmed impressions

An impression that waits for a confirmation is recorded in the total of its freq
cap, among the stamps and with its request. It is confirmed or times out later.
-/

namespace AdServer.UserInfo

open AdServer.Lib Impressions

variable {imps call : Impressions} {request requestId : String} {stored : Option UserFreqCapProfile}
  {uc : UcFreqCap}

/-- The freq caps are in step with the requests that wait. -/
structure UserFreqCapProfile.InStep (cfg : FreqCapConfig) (p : UserFreqCapProfile)
    (settled : List (Nat × Nat)) : Prop where
  kept : p.Kept
  balanced : Balanced cfg p.freqCaps settled (unconfirmedImps p.ucFreqCaps)
  single : ∀ uc ∈ p.ucFreqCaps, ∀ fcId, cfg.stamped fcId = true → uc.freqCapIds.count fcId ≤ 1

section InStep

variable {cfg : FreqCapConfig} {p : UserFreqCapProfile} {settled : List (Nat × Nat)}

section
variable (h : p.InStep cfg settled)
include h

theorem UserFreqCapProfile.InStep.perm {settled' : List (Nat × Nat)}
    (perm : settled.Perm settled') : p.InStep cfg settled' :=
  ⟨h.kept, h.balanced.perm perm (.refl _), h.single⟩

theorem cleanUpCampaignFreqs_inStep : (cleanUpCampaignFreqs cfg p).InStep cfg settled :=
  ⟨cleanUpCampaignFreqs_kept h.kept, h.balanced, h.single⟩

theorem cleanUp_inStep (lowBound : Time) : (cleanUp p lowBound).InStep cfg settled := by
  have sub := List.takeWhile_sublist (l := p.ucFreqCaps) (isExpired lowBound)
  have rest := List.dropWhile_sublist (l := p.ucFreqCaps) (isExpired lowBound)
  have balanced := h.balanced
  have parts : unconfirmedImps p.ucFreqCaps =
      unconfirmedImps (p.ucFreqCaps.takeWhile (isExpired lowBound)) ++
        unconfirmedImps (p.ucFreqCaps.dropWhile (isExpired lowBound)) := by
    rw [unconfirmedImps, unconfirmedImps, unconfirmedImps, ← List.flatMap_append,
      List.takeWhile_append_dropWhile]
  rw [parts] at balanced
  exact ⟨cleanUp_kept h.kept lowBound, balanced_applyDecreases h.kept sub balanced,
    fun uc mem => h.single uc (rest.mem mem)⟩

theorem cleanUpIfTimedOut_inStep (now : Time) :
    (cleanUpIfTimedOut cfg now p).InStep cfg settled := by
  unfold cleanUpIfTimedOut
  split
  · exact cleanUp_inStep h _
  · exact h

end

theorem unconfirmedImps_perm {ucs ucs' : List UcFreqCap} (perm : ucs.Perm ucs') :
    (unconfirmedImps ucs).Perm (unconfirmedImps ucs') :=
  perm.flatMap_right _

theorem unconfirmedImps_addRequest (is_request : imps.requestId = some request)
    (fits : Fits31 (tvSec imps.now)) :
    (unconfirmedImps (addRequest imps p).ucFreqCaps).Perm
      (unconfirmedImps p.ucFreqCaps ++ impsAt imps.ucFcs (tvSec imps.now)) := by
  simp only [addRequest, is_request]
  split
  · next nothing =>
    rw [Bool.and_eq_true, List.isEmpty_iff] at nothing
    rw [nothing.1, impsAt, List.map_nil, List.append_nil]
  · refine (unconfirmedImps_perm (insertUc_perm _ _ _)).trans ?_
    simp only [unconfirmedImps, List.flatMap_cons, toUint_eq fits]
    exact List.perm_append_comm

theorem consider_eq (cfg : FreqCapConfig) (stored : Option UserFreqCapProfile)
    (imps : Impressions) : ∃ profile : UserFreqCapProfile,
      consider cfg stored imps = cleanUpIfTimedOut cfg imps.now profile ∧
      profile.freqCaps = addCounters cfg imps.now (stored.getD {}).freqCaps
        (packBoth imps.cFcs imps.ucFcs) ∧
      profile.ucFreqCaps = (addRequest imps (stored.getD {})).ucFreqCaps ∧
      ((stored.getD {}).Kept → imps.Sorted → imps.Fit cfg (stored.getD {}) → profile.Kept) := by
  refine ⟨_, rfl, ?_, ?_, fun kept imps_sorted fit => ?_⟩
  · simp only [updateCampaignFreq, cleanUpCampaignFreqs, addRequest]
    split
    · rfl
    · split <;> rfl
  · simp only [updateCampaignFreq, cleanUpCampaignFreqs, addRequest]
    split
    · rfl
    · split <;> rfl
  · have counted := addCounters_kept kept imps_sorted fit
    have requested := addRequest_kept counted imps_sorted fit.time
    have cleaned : (cleanUpCampaignFreqs cfg _).Kept :=
      cleanUpCampaignFreqs_kept (updateCampaignFreq_kept requested imps.campaignIds)
    exact ⟨{ cleaned.ordered with }, cleaned.fits32, cleaned.virtualFits, cleaned.requests⟩

theorem consider_inStep (h : (stored.getD {}).InStep cfg settled)
    (is_request : imps.requestId = some request) (imps_sorted : imps.Sorted)
    (fit : imps.Fit cfg (stored.getD {})) :
    (consider cfg stored imps).InStep cfg (settled ++ impsAt imps.cFcs (tvSec imps.now)) := by
  obtain ⟨profile, consider_eq, freqCaps_eq, ucFreqCaps_eq, kept⟩ := consider_eq cfg stored imps
  rw [consider_eq]
  apply cleanUpIfTimedOut_inStep
  refine ⟨kept h.kept imps_sorted fit, ?_, fun uc mem => ?_⟩
  · have balanced := balanced_addCounters h.balanced h.kept.ordered.freqCaps imps_sorted fit
    rw [freqCaps_eq, ucFreqCaps_eq]
    exact balanced.perm (.refl _) (unconfirmedImps_addRequest is_request fit.time).symm
  · rw [ucFreqCaps_eq] at mem
    intro fcId is_stamped
    obtain old | new : uc ∈ (stored.getD {}).ucFreqCaps ∨ uc.freqCapIds = imps.ucFcs := by
      simp only [addRequest, is_request] at mem
      split at mem
      · exact Or.inl mem
      · obtain rfl | old := List.mem_cons.1 ((insertUc_perm _ _ _).mem_iff.1 mem)
        · exact Or.inr rfl
        · exact Or.inl old
    · exact h.single uc old fcId is_stamped
    · rw [new]
      by_cases listed : fcId ∈ imps.ucFcs
      · exact (fit.unconfirmed fcId listed is_stamped).1.le
      · rw [List.count_eq_zero.2 listed]
        exact Nat.zero_le 1

theorem perm_eraseP {A : Type} {q : A → Bool} {l : List A} {a : A} (found : l.find? q = some a) :
    l.Perm (a :: l.eraseP q) := by
  induction l with
  | nil => cases found
  | cons b rest ih =>
    by_cases first : q b = true
    · rw [List.find?_cons_of_pos first] at found
      obtain rfl := Option.some.inj found
      rw [List.eraseP_cons_of_pos first]
    · rw [List.find?_cons_of_neg first] at found
      rw [List.eraseP_cons_of_neg first]
      exact ((ih found).cons b).trans (List.Perm.swap a b _)

theorem confirmPending_inStep (h : p.InStep cfg settled) (now : Time)
    (found : p.ucFreqCaps.find? (fun uc => requestId = uc.requestId) = some uc) :
    ∃ confirmed, confirmPending cfg now requestId p = some confirmed ∧
      confirmed.ucFreqCaps = p.ucFreqCaps.eraseP (fun uc => requestId = uc.requestId) ∧
      confirmed.InStep cfg (settled ++ impsAt uc.freqCapIds uc.time) := by
  have pending := List.mem_of_find?_eq_some found
  have found_eq : confirmPending cfg now requestId p = some (updateCampaignFreq uc.imps { p with
      freqCaps := confirmFreqCaps cfg now uc.time uc.freqCapIds p.freqCaps
      ucFreqCaps := p.ucFreqCaps.eraseP (fun uc => requestId = uc.requestId) }) := by
    rw [confirmPending, found]
    rfl
  refine ⟨_, found_eq, rfl, confirmPending_kept h.kept found_eq, ?_, fun other mem => ?_⟩
  · exact balanced_confirmFreqCaps h.kept pending (h.single uc pending)
      (h.balanced.perm (.refl _) (unconfirmedImps_perm (perm_eraseP found)))
  · exact h.single other (List.eraseP_sublist.mem mem)

end InStep

/-- The ids of the requests that wait. -/
def UserFreqCapProfile.waiting (p : UserFreqCapProfile) : List String :=
  p.ucFreqCaps.map UcFreqCap.requestId

/-- The call is one of the requests. -/
def Impressions.isAmong (requestIds : List String) (call : Impressions) : Bool :=
  requestIds.any fun requestId => decide (call.requestId = some requestId)

theorem isAmong_iff {requestIds : List String} :
    call.isAmong requestIds = true ↔ ∃ requestId ∈ requestIds, call.requestId = some requestId := by
  simp [isAmong]

/-- The impressions the calls confirm at once. -/
def countedImps (calls : List Impressions) : List (Nat × Nat) :=
  calls.flatMap fun call => impsAt call.cFcs (tvSec call.now)

/-- The impressions the calls leave unconfirmed. -/
def ucImps (calls : List Impressions) : List (Nat × Nat) :=
  calls.flatMap fun call => impsAt call.ucFcs (tvSec call.now)

theorem ucImps_perm {calls calls' : List Impressions} (perm : calls.Perm calls') :
    (ucImps calls).Perm (ucImps calls') := perm.flatMap_right _

/-- The impressions settled after the calls, with the requests confirmed. -/
def settledImps (calls : List Impressions) (confirmed : List String) : List (Nat × Nat) :=
  countedImps calls ++ ucImps (calls.filter (Impressions.isAmong confirmed))

/-- The requests that wait are those of calls, and wait once. -/
structure Tracked (p : UserFreqCapProfile) (calls : List Impressions) (confirmed : List String) :
    Prop where
  distinct : (calls.map Impressions.requestId).Nodup
  stored : ∀ uc ∈ p.ucFreqCaps, ∃ call ∈ calls, call.requestId = some uc.requestId ∧
    uc.time = tvSec call.now ∧ uc.freqCapIds = call.ucFcs
  once : p.waiting.Nodup
  known : ∀ requestId ∈ confirmed, some requestId ∈ calls.map Impressions.requestId
  gone : ∀ requestId ∈ confirmed, requestId ∉ p.waiting

section Tracked

variable {p : UserFreqCapProfile} {calls : List Impressions} {confirmed : List String}

theorem Tracked.call_eq (h : Tracked p calls confirmed) {call call' : Impressions}
    (mem : call ∈ calls) (mem' : call' ∈ calls) (same : call.requestId = call'.requestId) :
    call = call' :=
  List.inj_on_of_nodup_map h.distinct mem mem' same

variable {p' : UserFreqCapProfile} {imps : Impressions}

theorem Tracked.sublist (h : Tracked p calls confirmed) (sub : p'.ucFreqCaps.Sublist p.ucFreqCaps) :
    Tracked p' calls confirmed where
  distinct := h.distinct
  stored := fun uc mem => h.stored uc (sub.mem mem)
  once := h.once.sublist (sub.map _)
  known := h.known
  gone := fun requestId mem waits => h.gone requestId mem ((sub.map _).mem waits)

/-- The impressions that wait are those of the calls whose requests do. -/
theorem Tracked.pending (h : Tracked p calls confirmed) :
    (unconfirmedImps p.ucFreqCaps).Perm (ucImps (calls.filter (isAmong p.waiting))) := by
  have requests : (p.ucFreqCaps.map fun uc => (some uc.requestId, impsAt uc.freqCapIds uc.time)).Perm
      ((calls.filter (isAmong p.waiting)).map
        fun call => (call.requestId, impsAt call.ucFcs (tvSec call.now))) := by
    rw [List.perm_ext_iff_of_nodup]
    · intro request
      constructor
      · intro mem
        obtain ⟨uc, inUcs, rfl⟩ := List.mem_map.1 mem
        obtain ⟨call, inCalls, id_eq, time_eq, ids_eq⟩ := h.stored uc inUcs
        refine List.mem_map.2 ⟨call, List.mem_filter.2 ⟨inCalls, ?_⟩, ?_⟩
        · exact isAmong_iff.2 ⟨uc.requestId, List.mem_map_of_mem inUcs, id_eq⟩
        · rw [id_eq, time_eq, ids_eq]
      · intro mem
        obtain ⟨call, filtered, rfl⟩ := List.mem_map.1 mem
        obtain ⟨inCalls, waits⟩ := List.mem_filter.1 filtered
        obtain ⟨requestId, inWaiting, id_eq⟩ := isAmong_iff.1 waits
        obtain ⟨uc, inUcs, rfl⟩ := List.mem_map.1 inWaiting
        obtain ⟨call', inCalls', id_eq', time_eq, ids_eq⟩ := h.stored uc inUcs
        obtain rfl := h.call_eq inCalls inCalls' (id_eq.trans id_eq'.symm)
        exact List.mem_map.2 ⟨uc, inUcs, by rw [id_eq, time_eq, ids_eq]⟩
    · apply List.Nodup.of_map Prod.fst
      rw [List.map_map]
      exact (List.map_map (f := UcFreqCap.requestId) (g := some) ▸
        h.once.map fun _ _ => Option.some.inj)
    · apply List.Nodup.of_map Prod.fst
      rw [List.map_map]
      exact h.distinct.sublist (List.filter_sublist.map _)
  have flattened := requests.flatMap_right Prod.snd
  rwa [List.flatMap_map, List.flatMap_map] at flattened

theorem consider_sublist (cfg : FreqCapConfig) (stored : Option UserFreqCapProfile)
    (imps : Impressions) : (consider cfg stored imps).ucFreqCaps.Sublist
      (addRequest imps (stored.getD {})).ucFreqCaps := by
  obtain ⟨profile, consider_eq, -, ucFreqCaps_eq, -⟩ := consider_eq cfg stored imps
  rw [consider_eq, ← ucFreqCaps_eq]
  unfold cleanUpIfTimedOut
  split
  · exact List.dropWhile_sublist _
  · exact List.Sublist.refl _

theorem Tracked.consider {cfg : FreqCapConfig} (h : Tracked (stored.getD {}) calls confirmed)
    (is_request : imps.requestId = some request)
    (fresh : imps.requestId ∉ calls.map Impressions.requestId) (fits : Fits31 (tvSec imps.now)) :
    Tracked (consider cfg stored imps) (imps :: calls) confirmed := by
  have new_id : request ∉ (stored.getD {}).waiting := by
    intro waits
    obtain ⟨uc, inUcs, id_eq⟩ := List.mem_map.1 waits
    obtain ⟨call, inCalls, call_id, -⟩ := h.stored uc inUcs
    exact fresh (is_request.trans (id_eq ▸ call_id).symm ▸ List.mem_map_of_mem inCalls)
  have added : Tracked (addRequest imps (stored.getD {})) (imps :: calls) confirmed := by
    have kept : Tracked (stored.getD {}) (imps :: calls) confirmed := by
      refine ⟨List.nodup_cons.2 ⟨fresh, h.distinct⟩, fun uc mem => ?_, h.once, fun id mem => ?_,
        h.gone⟩
      · obtain ⟨call, inCalls, same⟩ := h.stored uc mem
        exact ⟨call, List.mem_cons_of_mem _ inCalls, same⟩
      · exact List.mem_cons_of_mem _ (h.known id mem)
    simp only [addRequest, is_request]
    split
    · exact kept
    · have inserted := insertUc_perm (stored.getD {}).ucFreqCaps imps.now
        ⟨request, toUint (tvSec imps.now), imps.ucFcs, imps.ucCampaignIds⟩
      have ids := inserted.map UcFreqCap.requestId
      refine ⟨kept.distinct, fun uc mem => ?_, ?_, kept.known, fun id mem waits => ?_⟩
      · obtain rfl | old := List.mem_cons.1 (inserted.mem_iff.1 mem)
        · exact ⟨imps, List.mem_cons_self, is_request, toUint_eq fits, rfl⟩
        · exact kept.stored uc old
      · exact ids.nodup_iff.2 (List.nodup_cons.2 ⟨new_id, h.once⟩)
      · obtain rfl | old := List.mem_cons.1 (ids.mem_iff.1 waits)
        · exact fresh (is_request ▸ h.known _ mem)
        · exact h.gone id mem old
  exact added.sublist (consider_sublist cfg stored imps)

theorem Tracked.settled_cons (h : Tracked p calls confirmed)
    (fresh : imps.requestId ∉ calls.map Impressions.requestId) :
    (settledImps calls confirmed ++ impsAt imps.cFcs (tvSec imps.now)).Perm
      (settledImps (imps :: calls) confirmed) := by
  have not_confirmed : ¬ imps.isAmong confirmed = true := by
    intro among
    obtain ⟨id, mem, id_eq⟩ := isAmong_iff.1 among
    exact fresh (id_eq ▸ h.known id mem)
  rw [settledImps, settledImps, List.filter_cons_of_neg not_confirmed, countedImps, countedImps,
    List.flatMap_cons]
  exact List.perm_append_comm.trans (List.append_assoc _ _ _ ▸ .refl _)

theorem Tracked.confirm (h : Tracked p calls confirmed)
    (found : p.ucFreqCaps.find? (fun uc => requestId = uc.requestId) = some uc)
    (erased : p'.ucFreqCaps = p.ucFreqCaps.eraseP (fun uc => requestId = uc.requestId)) :
    Tracked p' calls (requestId :: confirmed) ∧
      (settledImps calls confirmed ++ impsAt uc.freqCapIds uc.time).Perm
        (settledImps calls (requestId :: confirmed)) := by
  have inUcs := List.mem_of_find?_eq_some found
  have id_eq : requestId = uc.requestId := by simpa using List.find?_some found
  obtain ⟨call, inCalls, call_id, time_eq, ids_eq⟩ := h.stored uc inUcs
  have sub : p'.ucFreqCaps.Sublist p.ucFreqCaps := erased ▸ List.eraseP_sublist
  have waiting_perm := (perm_eraseP found).map UcFreqCap.requestId
  have rest := h.sublist sub
  have no_more : requestId ∉ p'.waiting := by
    have nodup := waiting_perm.nodup_iff.1 h.once
    rw [UserFreqCapProfile.waiting, erased, id_eq]
    rw [List.map_cons, id_eq] at nodup
    exact (List.nodup_cons.1 nodup).1
  have waits : requestId ∈ p.waiting := id_eq ▸ List.mem_map_of_mem inUcs
  refine ⟨⟨h.distinct, rest.stored, rest.once, fun id mem => ?_, fun id mem => ?_⟩, ?_⟩
  · obtain rfl | old := List.mem_cons.1 mem
    · exact id_eq ▸ call_id ▸ List.mem_map_of_mem inCalls
    · exact h.known id old
  · obtain rfl | old := List.mem_cons.1 mem
    · exact no_more
    · exact rest.gone id old
  · have calls_nodup := List.Nodup.of_map _ h.distinct
    have confirmed_calls : (call :: calls.filter (isAmong confirmed)).Perm
        (calls.filter (isAmong (requestId :: confirmed))) := by
      have not_before : call ∉ calls.filter (isAmong confirmed) := by
        intro mem
        obtain ⟨id, inConfirmed, same⟩ := isAmong_iff.1 (List.mem_filter.1 mem).2
        rw [call_id, ← id_eq] at same
        obtain rfl := Option.some.inj same
        exact h.gone requestId inConfirmed waits
      rw [List.perm_ext_iff_of_nodup (List.nodup_cons.2 ⟨not_before, calls_nodup.filter _⟩)
        (calls_nodup.filter _)]
      intro other
      rw [List.mem_cons, List.mem_filter, List.mem_filter, isAmong_iff, isAmong_iff]
      constructor
      · rintro (rfl | ⟨inOther, id, mem, same⟩)
        · exact ⟨inCalls, requestId, List.mem_cons_self, id_eq ▸ call_id⟩
        · exact ⟨inOther, id, List.mem_cons_of_mem _ mem, same⟩
      · rintro ⟨inOther, id, mem, same⟩
        obtain rfl | old := List.mem_cons.1 mem
        · exact Or.inl (h.call_eq inOther inCalls (same.trans (id_eq ▸ call_id.symm)))
        · exact Or.inr ⟨inOther, id, old, same⟩
    have settled := ucImps_perm confirmed_calls
    rw [ucImps, List.flatMap_cons, ← ids_eq, ← time_eq] at settled
    rw [settledImps, settledImps, List.append_assoc]
    exact (List.perm_append_comm.trans settled).append_left _

end Tracked

/-- The total the profile has for a freq cap. -/
def UserFreqCapProfile.totalOf (p : UserFreqCapProfile) (fcId : Nat) : Nat :=
  ((p.freqCaps.find? (fun fc => fc.fcId = fcId)).map FreqCap.totalImpressions).getD 0

/-- The totals count the confirmed impressions of the calls, and the unconfirmed
ones of the requests that were confirmed or wait; a stamp is an impression of
its second, one marked unconfirmed that of a request that waits. -/
structure UserFreqCapProfile.Accounted (p : UserFreqCapProfile) (calls : List Impressions)
    (confirmed : List String) : Prop where
  totals : ∀ fcId ≠ 0, p.totalOf fcId = countFc fcId (countedImps calls) +
    countFc fcId (ucImps (calls.filter fun call =>
      call.isAmong confirmed || call.isAmong p.waiting))
  ucStamps : ∀ fcId stamp, isUcTimestamp stamp = true → (p.stampsOf fcId).count stamp ≤
    (ucImps (calls.filter (Impressions.isAmong p.waiting))).count
      (fcId, normalizeImpressionTimestamp stamp)
  stamps : ∀ fcId stamp, isUcTimestamp stamp = false → (p.stampsOf fcId).count stamp ≤
    (countedImps calls ++ ucImps (calls.filter (Impressions.isAmong confirmed))).count
      (fcId, normalizeImpressionTimestamp stamp)

/-- The runs of a profile: what is stored, the time of the last call, the calls
with impressions and the requests confirmed while they waited. -/
inductive Lived (cfg : FreqCapConfig) (ok : UserFreqCapProfile → Impressions → Prop) :
    Option UserFreqCapProfile → Time → List Impressions → List String → Prop
  | empty : Lived cfg ok none 0 [] []
  | consider {stored : Option UserFreqCapProfile} {last : Time} {calls : List Impressions}
      {confirmed : List String} {imps : Impressions} (lived : Lived cfg ok stored last calls confirmed)
      (later : last ≤ imps.now) (not_null : imps.requestId.isSome)
      (fresh : imps.requestId ∉ calls.map Impressions.requestId) (sorted : imps.Sorted)
      (fine : ok (stored.getD {}) imps) :
      Lived cfg ok (some (consider cfg stored imps)) imps.now (imps :: calls) confirmed
  | confirmRequest {stored : Option UserFreqCapProfile} {last : Time} {calls : List Impressions}
      {confirmed : List String} (requestId : String) {now : Time}
      (lived : Lived cfg ok stored last calls confirmed) (later : last ≤ now) :
      Lived cfg ok (confirmRequest cfg stored requestId now).1 now calls
        (if requestId ∈ (stored.getD {}).waiting then requestId :: confirmed else confirmed)
  | full {stored : Option UserFreqCapProfile} {last : Time} {calls : List Impressions}
      {confirmed : List String} {now : Time} (lived : Lived cfg ok stored last calls confirmed)
      (later : last ≤ now) : Lived cfg ok (full cfg stored now).1 now calls confirmed

section Lived

variable {cfg : FreqCapConfig} {stored : Option UserFreqCapProfile} {calls : List Impressions}
  {confirmed : List String}

theorem cleanUpIfTimedOut_sublist (cfg : FreqCapConfig) (now : Time) (p : UserFreqCapProfile) :
    (cleanUpIfTimedOut cfg now p).ucFreqCaps.Sublist p.ucFreqCaps := by
  unfold cleanUpIfTimedOut
  split
  · exact List.dropWhile_sublist _
  · exact List.Sublist.refl _

section
variable (h : (stored.getD {}).InStep cfg (settledImps calls confirmed))
include h

theorem confirmRequest_inStep (tracked : Tracked (stored.getD {}) calls confirmed)
    (requestId : String) (now : Time) :
    (((confirmRequest cfg stored requestId now).1.getD {}).InStep cfg (settledImps calls
        (if requestId ∈ (stored.getD {}).waiting then requestId :: confirmed else confirmed))) ∧
      Tracked ((confirmRequest cfg stored requestId now).1.getD {}) calls
        (if requestId ∈ (stored.getD {}).waiting then requestId :: confirmed else confirmed) := by
  cases stored with
  | none =>
    have nobody : requestId ∉ ((none : Option UserFreqCapProfile).getD {}).waiting := by
      simp [UserFreqCapProfile.waiting]
    rw [if_neg nobody]
    exact ⟨h, tracked⟩
  | some p =>
    simp only [Option.getD_some] at h tracked ⊢
    have cleaned {q : UserFreqCapProfile} {confirmed : List String}
        (in_step : q.InStep cfg (settledImps calls confirmed)) (tracked : Tracked q calls confirmed) :
        (cleanUpCampaignFreqs cfg (cleanUpIfTimedOut cfg now q)).InStep cfg
          (settledImps calls confirmed) ∧
        Tracked (cleanUpCampaignFreqs cfg (cleanUpIfTimedOut cfg now q)) calls confirmed :=
      ⟨cleanUpCampaignFreqs_inStep (cleanUpIfTimedOut_inStep in_step now),
        tracked.sublist (cleanUpIfTimedOut_sublist cfg now q)⟩
    cases found : p.ucFreqCaps.find? (fun uc => requestId = uc.requestId) with
    | none =>
      have nobody : requestId ∉ p.waiting := by
        intro waits
        obtain ⟨uc, inUcs, id_eq⟩ := List.mem_map.1 waits
        have differs := List.find?_eq_none.1 found uc inUcs
        simp [id_eq] at differs
      have nothing : confirmPending cfg now requestId p = none := by
        rw [confirmPending, found]
        rfl
      rw [if_neg nobody, confirmRequest, nothing]
      simp only [Option.getD_none, Option.isSome_none, Bool.false_or]
      split
      · exact cleaned h tracked
      · exact ⟨h, tracked⟩
    | some uc =>
      have waits : requestId ∈ p.waiting := by
        have id_eq : requestId = uc.requestId := by simpa using List.find?_some found
        exact id_eq ▸ List.mem_map_of_mem (List.mem_of_find?_eq_some found)
      obtain ⟨q, confirmed_eq, erased, in_step⟩ := confirmPending_inStep h now found
      obtain ⟨q_tracked, settled⟩ := tracked.confirm found erased
      rw [if_pos waits, confirmRequest, confirmed_eq]
      simp only [Option.getD_some, Option.isSome_some, Bool.true_or, if_true]
      exact cleaned (in_step.perm settled) q_tracked

theorem full_inStep (tracked : Tracked (stored.getD {}) calls confirmed) (now : Time) :
    ((full cfg stored now).1.getD {}).InStep cfg (settledImps calls confirmed) ∧
      Tracked ((full cfg stored now).1.getD {}) calls confirmed := by
  cases stored with
  | none => exact ⟨h, tracked⟩
  | some p =>
    simp only [full, Option.getD_some] at h tracked ⊢
    split
    · exact ⟨cleanUpCampaignFreqs_inStep (cleanUp_inStep h _),
        tracked.sublist (List.dropWhile_sublist _)⟩
    · exact ⟨h, tracked⟩

end

theorem Lived.inStep {last : Time}
    (lived : Lived cfg (fun p imps => imps.Fit cfg p) stored last calls confirmed) :
    (stored.getD {}).InStep cfg (settledImps calls confirmed) ∧
      Tracked (stored.getD {}) calls confirmed := by
  induction lived with
  | empty =>
    refine ⟨⟨kept_empty, balanced_nil cfg, by simp⟩, ?_⟩
    constructor <;> simp [UserFreqCapProfile.waiting]
  | consider _ _ not_null fresh sorted fit ih =>
    obtain ⟨request, is_request⟩ := Option.isSome_iff_exists.1 not_null
    obtain ⟨in_step, tracked⟩ := ih
    exact ⟨(consider_inStep in_step is_request sorted fit).perm (tracked.settled_cons fresh),
      tracked.consider is_request fresh fit.time⟩
  | confirmRequest requestId _ _ ih => exact confirmRequest_inStep ih.1 ih.2 requestId _
  | full _ _ ih => exact full_inStep ih.1 ih.2 _

theorem accounted_of_inStep {p : UserFreqCapProfile}
    (h : p.InStep cfg (settledImps calls confirmed)) (tracked : Tracked p calls confirmed) :
    p.Accounted calls confirmed := by
  have balanced := h.balanced.perm (.refl _) tracked.pending
  have sorted := h.kept.ordered.freqCaps
  -- the stamps the profile has for an id are those of its freq cap, if there is one
  have stamps_le (fcId stamp : Nat) : (p.stampsOf fcId).count stamp ≤
      (if isUcTimestamp stamp then ucImps (calls.filter (isAmong p.waiting))
        else settledImps calls confirmed).count (fcId, normalizeImpressionTimestamp stamp) := by
    rw [UserFreqCapProfile.stampsOf]
    cases found : p.freqCaps.find? (fun fc => fc.fcId = fcId) with
    | none => exact Nat.zero_le _
    | some fc =>
      obtain rfl : fc.fcId = fcId := by simpa using List.find?_some found
      exact balanced.stamps fc (List.mem_of_find?_eq_some found) stamp
  refine ⟨fun fcId nonzero => ?_, fun fcId stamp uc => ?_, fun fcId stamp not_uc => ?_⟩
  · have calls_nodup := List.Nodup.of_map _ tracked.distinct
    have both : (calls.filter fun call => call.isAmong confirmed || call.isAmong p.waiting).Perm
        (calls.filter (isAmong confirmed) ++
          calls.filter (isAmong p.waiting)) := by
      have apart : (calls.filter (isAmong confirmed)).Disjoint
          (calls.filter (isAmong p.waiting)) := by
        intro call mem mem'
        obtain ⟨id, inConfirmed, same⟩ := isAmong_iff.1 (List.mem_filter.1 mem).2
        obtain ⟨id', inWaiting, same'⟩ := isAmong_iff.1 (List.mem_filter.1 mem').2
        obtain rfl := Option.some.inj (same.symm.trans same')
        exact tracked.gone id inConfirmed inWaiting
      rw [List.perm_ext_iff_of_nodup (calls_nodup.filter _)
        ((calls_nodup.filter _).append (calls_nodup.filter _) apart)]
      intro call
      simp only [List.mem_filter, List.mem_append, Bool.or_eq_true]
      tauto
    have split_count : countFc fcId (ucImps (calls.filter fun call =>
        call.isAmong confirmed || call.isAmong p.waiting)) =
        countFc fcId (ucImps (calls.filter (isAmong confirmed))) +
          countFc fcId (ucImps (calls.filter (isAmong p.waiting))) := by
      rw [← countFc_append, ucImps, ucImps, ucImps, ← List.flatMap_append]
      exact (ucImps_perm both).countP_eq _
    rw [split_count, UserFreqCapProfile.totalOf]
    cases found : p.freqCaps.find? (fun fc => fc.fcId = fcId) with
    | none =>
      have absent (imps : List (Nat × Nat)) (sub : ∀ imp ∈ imps, imp ∈
          settledImps calls confirmed ++ ucImps (calls.filter (isAmong p.waiting))) :
          countFc fcId imps = 0 := by
        rw [countFc, List.countP_eq_zero]
        intro imp mem same
        simp only [decide_eq_true_eq] at same
        obtain ⟨fc, inFcs, id_eq⟩ := List.mem_map.1 (balanced.present imp (sub imp mem)
          (same ▸ nonzero))
        have other := List.find?_eq_none.1 found fc inFcs
        simp [id_eq, same] at other
      have settled := absent (settledImps calls confirmed) fun imp => List.mem_append_left _
      rw [settledImps, countFc_append] at settled
      rw [absent _ fun imp => List.mem_append_right _]
      simp only [Option.map_none, Option.getD_none]
      omega
    | some fc =>
      obtain rfl : fc.fcId = fcId := by simpa using List.find?_some found
      have total := balanced.totals fc (List.mem_of_find?_eq_some found)
      rw [settledImps, countFc_append] at total
      simp only [Option.map_some, Option.getD_some]
      omega
  · have le := stamps_le fcId stamp
    rwa [if_pos uc] at le
  · have le := stamps_le fcId stamp
    rwa [if_neg (by simp [not_uc])] at le

end Lived

theorem totalOf_le {cfg : FreqCapConfig} {stored : Option UserFreqCapProfile} {last : Time}
    {calls : List Impressions} {confirmed : List String}
    (lived : Lived cfg (fun p imps => imps.Fit cfg p) stored last calls confirmed) :
    ∀ fcId ≠ 0, (stored.getD {}).totalOf fcId ≤
      countFc fcId (countedImps calls) + countFc fcId (ucImps calls) := by
  intro fcId nonzero
  rw [(accounted_of_inStep lived.inStep.1 lived.inStep.2).totals fcId nonzero]
  exact Nat.add_le_add_left (List.filter_sublist.flatMap _).countP_le _

/-- After a run of impressions that find their place, every impression of the
calls is accounted for, and nothing else is. -/
theorem lived_accounted {cfg : FreqCapConfig} {stored : Option UserFreqCapProfile} {last : Time}
    {calls : List Impressions} {confirmed : List String}
    (lived : Lived cfg (fun p imps => imps.Fit cfg p) stored last calls confirmed) :
    (stored.getD {}).Accounted calls confirmed :=
  accounted_of_inStep lived.inStep.1 lived.inStep.2

/-- One request waits and is confirmed, another one follows. -/
theorem confirmedThenConsidered_accounted :
    (consider noCapsConfigured
      (confirmRequest noCapsConfigured (some (consider noCapsConfigured none waitingImps))
        "first" (110 * second)).1 laterImps).Accounted [laterImps, waitingImps] ["first"] :=
  lived_accounted (.consider (.confirmRequest "first"
    (.consider .empty (by decide) rfl (by decide) (by decide) (by decide +kernel)) (by decide))
    (by decide) rfl (by decide) (by decide) (by decide +kernel))

/-- One request that leaves two impressions of a freq cap unconfirmed. -/
def repeatedImps : Impressions :=
  { requestId := some "first", now := 100 * second, cFcs := [], ucFcs := [5, 5] }

/-- The second of them is stamped as if it were confirmed. -/
theorem repeatedUnconfirmed_unaccounted :
    ¬ ∀ (cfg : FreqCapConfig) (stored : Option UserFreqCapProfile) (last : Time)
      (calls : List Impressions) (confirmed : List String),
      Lived cfg (fun _ _ => True) stored last calls confirmed →
        (stored.getD {}).Accounted calls confirmed := by
  intro always
  have accounted := always noCapsConfigured _ _ _ _
    (.consider .empty (by decide : 0 ≤ repeatedImps.now) rfl (by decide) (by decide) trivial)
  have bound := accounted.stamps 5 100 (by decide)
  revert bound
  decide +kernel

end AdServer.UserInfo
