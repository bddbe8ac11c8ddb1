import AdServer.ChannelServer.Trigger
import AdServer.Lib.ExcludingMerge
import Mathlib.Data.List.TakeWhile

/-!
# The update of a chunk's uids

Uids get channels, and the channels that have been updated are taken off their
lists. The predicate that takes them off keeps its place among the updated
channels from one channel to the next.
-/

namespace AdServer.ChannelServer

open AdServer.Lib

/-- A `std::set` of channels, in its order. -/
structure IdSet where
  ids : List Nat
  ascending : ids.Pairwise (· < ·)

/-- `RemoveSortedPred`: whether it has not been called yet, and the updated channels from its
iterator on. -/
structure RemoveSortedPred where
  first : Bool
  lastIt : List Nat

def RemoveSortedPred.init : RemoveSortedPred := ⟨true, []⟩

/-- A call for the next channel. There is none when the iterator is at the end and is read. -/
def RemoveSortedPred.call (removed : IdSet) (pred : RemoveSortedPred) (id : Nat) :
    Option (Bool × RemoveSortedPred) :=
  if pred.first then
    let lastIt := removed.ids.dropWhile (· < id)
    some (lastIt.head?.all (id < ·), ⟨false, lastIt⟩)
  else
    match pred.lastIt with
    | [] => none
    | last :: rest =>
      let lastIt := (last :: rest).dropWhile (· < id)
      some (lastIt.head?.all (id < ·), ⟨false, lastIt⟩)

abbrev UidMap := Uuid → Option (List Nat)

/-- A list with channels added, without the updated ones. -/
def mergeChannels (removedUidChannels channels : IdSet) (oldChannels : List Nat) :
    Option (List Nat) :=
  if removedUidChannels.ids.isEmpty then
    some (oldChannels.merge channels.ids fun a b => decide (a ≤ b))
  else
    mergeIfNotExclude (RemoveSortedPred.call removedUidChannels) channels.ids .init oldChannels

/-- The list of a uid that channels are added for. -/
def addChannels (removedUidChannels channels : IdSet) : Option (List Nat) → Option (Option (List Nat))
  | none => some (some channels.ids)
  | some oldChannels =>
    (mergeChannels removedUidChannels channels oldChannels).map fun uidAtom =>
      if uidAtom.isEmpty then none else some uidAtom

/-- `apply_uid_map_update_`. -/
def applyUidMapUpdate (removedUidChannels : IdSet) : List (Uuid × IdSet) → UidMap → Option UidMap
  | [], res => some res
  | (uid, channels) :: added, res =>
    match addChannels removedUidChannels channels (res uid) with
    | none => none
    | some atom => applyUidMapUpdate removedUidChannels added (Function.update res uid atom)

/-- The list of a uid after channels have been added for it. -/
def IsUpdated (removed channels : IdSet) (before after : Option (List Nat)) : Prop :=
  ∃ merged : List Nat, merged.Pairwise (· ≤ ·) ∧
    merged.Perm ((before.getD []).filter (· ∉ removed.ids) ++ channels.ids) ∧
    after = if merged = [] ∧ before.isSome then none else some merged

/-- All the updated channels come before the channel. -/
def IdSet.Passed (removed : IdSet) (id : Nat) : Prop := ∀ other ∈ removed.ids, other < id

instance (removed : IdSet) (id : Nat) : Decidable (removed.Passed id) :=
  inferInstanceAs (Decidable (∀ other ∈ removed.ids, other < id))

/-- Of a list only the last channel comes after all the updated ones. -/
def Meets (removed : IdSet) (oldChannels : List Nat) : Prop :=
  removed.ids = [] ∨ ∀ id ∈ oldChannels.dropLast, ¬removed.Passed id

namespace RemoveSortedPred

variable {removed : IdSet} {pred : RemoveSortedPred} {id : Nat} {ids : List Nat}

/-- The iterator is at the place of a channel not after those to come. -/
def At (removed : IdSet) (pred : RemoveSortedPred) (ids : List Nat) : Prop :=
  pred.first = true ∨ ∃ last, (∀ id ∈ ids, last ≤ id) ∧
    pred.lastIt = removed.ids.dropWhile (· < last)

theorem dropWhile_eq_nil_iff : removed.ids.dropWhile (· < id) = [] ↔ removed.Passed id := by
  simp [IdSet.Passed]

theorem dropWhile_dropWhile {last : Nat} (le : last ≤ id) (ids : List Nat) :
    (ids.dropWhile (· < last)).dropWhile (· < id) = ids.dropWhile (· < id) := by
  induction ids with
  | nil => rfl
  | cons a rest ih =>
    by_cases before : a < last
    · rw [List.dropWhile_cons_of_pos (by simpa using before), ih,
        List.dropWhile_cons_of_pos (by simpa using before.trans_le le)]
    · rw [List.dropWhile_cons_of_neg (by simpa using before)]

theorem head_all_iff {ids : List Nat} (ascending : ids.Pairwise (· < ·)) :
    ((ids.dropWhile (· < id)).head?.all (id < ·)) = decide (id ∉ ids) := by
  induction ids with
  | nil => rfl
  | cons a rest ih =>
    obtain ⟨above, ordered⟩ := List.pairwise_cons.1 ascending
    by_cases before : a < id
    · rw [List.dropWhile_cons_of_pos (by simpa using before), ih ordered]
      simp [Nat.ne_of_gt before]
    · rw [List.dropWhile_cons_of_neg (by simpa using before), List.head?_cons, Option.all_some]
      rw [decide_eq_decide, List.mem_cons, not_or]
      constructor
      · intro below
        exact ⟨by omega, fun member => by have := above id member; omega⟩
      · rintro ⟨different, -⟩
        omega

/-- A call tells whether the channel stays, if there is something to be read. -/
theorem call_eq (state : At removed pred (id :: ids)) :
    pred.call removed id =
      if pred.first = false ∧ pred.lastIt = [] then none
      else some (decide (id ∉ removed.ids), ⟨false, removed.ids.dropWhile (· < id)⟩) := by
  rw [call]
  cases unused : pred.first with
  | true => simp [head_all_iff removed.ascending]
  | false =>
    obtain started | ⟨last, le, place⟩ := state
    · rw [unused] at started
      cases started
    rw [place]
    have moved := dropWhile_dropWhile (le id List.mem_cons_self) removed.ids
    cases left : removed.ids.dropWhile (· < last) with
    | nil => simp
    | cons a rest =>
      rw [left] at moved
      simp only [Bool.false_eq_true, if_false, moved, head_all_iff removed.ascending,
        List.cons_ne_nil, and_false]

theorem at_next (ordered : (id :: ids).Pairwise (· ≤ ·)) :
    At removed ⟨false, removed.ids.dropWhile (· < id)⟩ ids :=
  .inr ⟨id, (List.pairwise_cons.1 ordered).1, rfl⟩

/-- What is kept of a list in order, as long as the iterator is not read at its end. -/
theorem copyIf_eq (state : At removed pred ids) (ordered : ids.Pairwise (· ≤ ·)) :
    copyIf (RemoveSortedPred.call removed) pred ids =
      if (pred.first = false ∧ pred.lastIt = [] ∧ ids ≠ []) ∨
          ∃ id ∈ ids.dropLast, removed.Passed id then none
      else some (ids.filter (· ∉ removed.ids)) := by
  induction ids generalizing pred with
  | nil => simp [copyIf]
  | cons id ids ih =>
    rw [copyIf, call_eq state]
    by_cases ended : pred.first = false ∧ pred.lastIt = []
    · simp [ended]
    · have later := ih (at_next ordered) (List.pairwise_cons.1 ordered).2
      rw [if_neg ended]
      simp only [later, dropWhile_eq_nil_iff, true_and]
      cases ids with
      | nil =>
        simp only [List.dropLast_nil, List.dropLast_singleton, List.not_mem_nil, false_and,
          exists_false, or_false, ne_eq, not_true_eq_false, and_false, if_false, Option.map_some,
          List.filter_nil, List.cons_ne_nil, not_false_eq_true, and_true, if_neg ended]
        by_cases stays : id ∈ removed.ids <;> simp [stays]
      | cons next rest =>
        have bad : (pred.first = false ∧ pred.lastIt = [] ∧ id :: next :: rest ≠ []) ∨
            (∃ other ∈ (id :: next :: rest).dropLast, removed.Passed other) ↔
          removed.Passed id ∧ next :: rest ≠ [] ∨
            ∃ other ∈ (next :: rest).dropLast, removed.Passed other := by
          simp [ended]
        simp only [bad]
        by_cases fails : removed.Passed id ∧ next :: rest ≠ [] ∨
            ∃ other ∈ (next :: rest).dropLast, removed.Passed other
        · rw [if_pos fails, if_pos fails]
          rfl
        · rw [if_neg fails, if_neg fails]
          by_cases stays : id ∈ removed.ids <;> simp [stays]

end RemoveSortedPred

section Uid
variable {removed channels : IdSet} {oldChannels : List Nat}

theorem copyIf_init (ordered : oldChannels.Pairwise (· ≤ ·)) :
    copyIf (RemoveSortedPred.call removed) .init oldChannels =
      if ∃ id ∈ oldChannels.dropLast, removed.Passed id then none
      else some (oldChannels.filter (· ∉ removed.ids)) := by
  rw [RemoveSortedPred.copyIf_eq (.inl rfl) ordered]
  simp [RemoveSortedPred.init]

theorem IdSet.ordered (set : IdSet) : set.ids.Pairwise (· ≤ ·) := set.ascending.imp Nat.le_of_lt

theorem pairwise_merge {first second : List Nat} (h : first.Pairwise (· ≤ ·))
    (h' : second.Pairwise (· ≤ ·)) :
    (first.merge second fun a b => decide (a ≤ b)).Pairwise (· ≤ ·) := by
  have ordered := @List.pairwise_merge Nat (fun a b => decide (a ≤ b))
    (fun a b c ab bc => by simp only [decide_eq_true_eq] at *; omega)
    (fun a b => by simp only [Bool.or_eq_true, decide_eq_true_eq]; omega) first second
    (h.imp fun le => by simpa using le) (h'.imp fun le => by simpa using le)
  exact ordered.imp fun le => by simpa using le

theorem mergeChannels_some (ordered : oldChannels.Pairwise (· ≤ ·))
    (meets : Meets removed oldChannels) :
    ∃ merged : List Nat, mergeChannels removed channels oldChannels = some merged ∧
      merged.Pairwise (· ≤ ·) ∧
      merged.Perm (oldChannels.filter (· ∉ removed.ids) ++ channels.ids) := by
  rw [mergeChannels]
  by_cases none_removed : removed.ids = []
  · rw [if_pos (by simp [none_removed])]
    refine ⟨_, rfl, pairwise_merge ordered channels.ordered, ?_⟩
    simpa [none_removed] using @List.merge_perm_append Nat (fun a b => decide (a ≤ b)) _ _
  · have reached : ¬∃ id ∈ oldChannels.dropLast, removed.Passed id := by
      rintro ⟨id, inside, passed⟩
      exact (meets.resolve_left none_removed) id inside passed
    rw [if_neg (by simpa using none_removed), mergeIfNotExclude_eq _ _ ordered,
      copyIf_init ordered, if_neg reached]
    refine ⟨_, rfl, pairwise_merge channels.ordered (ordered.filter _), ?_⟩
    exact (@List.merge_perm_append Nat (fun a b => decide (a ≤ b)) _ _).trans
      List.perm_append_comm

theorem mergeChannels_none (ordered : oldChannels.Pairwise (· ≤ ·))
    (fails : ¬Meets removed oldChannels) : mergeChannels removed channels oldChannels = none := by
  rw [Meets, not_or] at fails
  have passed : ∃ id ∈ oldChannels.dropLast, removed.Passed id := by
    simpa using fails.2
  rw [mergeChannels, if_neg (by simpa using fails.1), mergeIfNotExclude_eq _ _ ordered,
    copyIf_init ordered, if_pos passed]
  rfl

/-- A uid is updated if its old list, when it has one, meets the updated channels. -/
theorem addChannels_some {before : Option (List Nat)}
    (ordered : ∀ old, before = some old → old.Pairwise (· ≤ ·))
    (meets : ∀ old, before = some old → Meets removed old) :
    ∃ after, addChannels removed channels before = some after ∧
      IsUpdated removed channels before after := by
  cases before with
  | none => exact ⟨_, rfl, channels.ids, channels.ordered, List.Perm.refl _, by simp⟩
  | some old =>
    obtain ⟨merged, same, inOrder, perm⟩ :=
      @mergeChannels_some removed channels old (ordered old rfl) (meets old rfl)
    refine ⟨_, congrArg (Option.map _) same, merged, inOrder, perm, ?_⟩
    simp [List.isEmpty_iff]

theorem addChannels_none {old : List Nat} (ordered : old.Pairwise (· ≤ ·))
    (fails : ¬Meets removed old) : addChannels removed channels (some old) = none := by
  rw [addChannels, mergeChannels_none ordered fails]
  rfl

end Uid

/-- The added channels are there, and the updated ones that are not added again are gone. -/
structure Updates (removed : IdSet) (added : List (Uuid × IdSet)) (before after : UidMap) :
    Prop where
  named : ∀ uid channels, (uid, channels) ∈ added →
    IsUpdated removed channels (before uid) (after uid)
  others : ∀ uid, uid ∉ added.map Prod.fst → after uid = before uid

section Uids
variable {removed : IdSet} {added : List (Uuid × IdSet)} {res : UidMap}

theorem update_later {uid : Uuid} (fresh : uid ∉ added.map Prod.fst) (atom : Option (List Nat))
    {other : Uuid} (known : other ∈ added.map Prod.fst) :
    Function.update res uid atom other = res other := by
  have apart : other ≠ uid := by
    rintro rfl
    exact fresh known
  exact Function.update_of_ne apart atom res

theorem meets_of_applied {after : UidMap} (distinct : (added.map Prod.fst).Nodup)
    (ordered : ∀ uid ∈ added.map Prod.fst, ∀ old, res uid = some old → old.Pairwise (· ≤ ·))
    (done : applyUidMapUpdate removed added res = some after) {uid : Uuid} {channels : IdSet}
    (member : (uid, channels) ∈ added) {old : List Nat} (found : res uid = some old) :
    Meets removed old := by
  induction added generalizing res with
  | nil => cases member
  | cons entry added ih =>
    obtain ⟨first, channels'⟩ := entry
    obtain ⟨fresh, distinct⟩ := List.nodup_cons.1 distinct
    rw [applyUidMapUpdate] at done
    rcases List.mem_cons.1 member with this | later
    · obtain ⟨rfl, rfl⟩ := Prod.mk.inj this
      by_contra fails
      rw [found, addChannels_none (ordered uid List.mem_cons_self old found) fails] at done
      cases done
    · have known : uid ∈ added.map Prod.fst := List.mem_map_of_mem later
      split at done
      · cases done
      · next atom _ =>
        apply ih distinct _ done later
        · rw [update_later fresh atom known, found]
        · intro other known old found
          rw [update_later fresh atom known] at found
          exact ordered other (List.mem_cons_of_mem _ known) old found

theorem applied_of_meets (distinct : (added.map Prod.fst).Nodup)
    (ordered : ∀ uid ∈ added.map Prod.fst, ∀ old, res uid = some old → old.Pairwise (· ≤ ·))
    (meets : ∀ uid channels, (uid, channels) ∈ added → ∀ old, res uid = some old →
      Meets removed old) :
    ∃ after, applyUidMapUpdate removed added res = some after ∧
      Updates removed added res after := by
  induction added generalizing res with
  | nil => exact ⟨res, rfl, fun _ _ member => absurd member List.not_mem_nil, fun _ _ => rfl⟩
  | cons entry added ih =>
    obtain ⟨uid, channels⟩ := entry
    obtain ⟨fresh, distinct⟩ := List.nodup_cons.1 distinct
    obtain ⟨atom, here, updated⟩ := @addChannels_some removed channels (res uid)
      (ordered uid List.mem_cons_self) (meets uid channels List.mem_cons_self)
    have same {other : Uuid} := @update_later added res uid fresh atom other
    obtain ⟨after, done, updates⟩ := @ih (Function.update res uid atom) distinct
      (fun other known old found =>
        ordered other (List.mem_cons_of_mem _ known) old (same known ▸ found))
      (fun other channels member old found =>
        meets other channels (List.mem_cons_of_mem _ member) old
          (same (List.mem_map_of_mem member) ▸ found))
    refine ⟨after, by rw [applyUidMapUpdate, here]; exact done, ?_, ?_⟩
    · intro other channels' member
      rcases List.mem_cons.1 member with this | later
      · obtain ⟨rfl, rfl⟩ := Prod.mk.inj this
        rw [updates.others other fresh, Function.update_self]
        exact updated
      · rw [← same (List.mem_map_of_mem later)]
        exact updates.named other channels' later
    · intro other unknown
      rw [List.map_cons, List.mem_cons, not_or] at unknown
      rw [updates.others other unknown.2, Function.update_of_ne unknown.1]

end Uids

/-- The uids of a map with their channels are updated, and nothing is read past the end of the
updated channels, exactly if all the old lists meet these. -/
theorem applyUidMapUpdate_iff (removed : IdSet) {added : List (Uuid × IdSet)} {res : UidMap}
    (distinct : (added.map Prod.fst).Nodup)
    (ordered : ∀ uid old, res uid = some old → old.Pairwise (· ≤ ·)) :
    (∃ after, applyUidMapUpdate removed added res = some after ∧
        Updates removed added res after) ↔
      ∀ uid channels, (uid, channels) ∈ added → ∀ old, res uid = some old → Meets removed old := by
  constructor
  · rintro ⟨after, done, -⟩ uid channels member old found
    exact meets_of_applied distinct (fun uid _ => ordered uid) done member found
  · exact applied_of_meets distinct fun uid _ => ordered uid

/-- Channel 3 is taken off a list and channel 5 put on it; a list that ends after the updated
channels is no harm. -/
theorem applyUidMapUpdate_moved :
    ∃ after, applyUidMapUpdate ⟨[3], by decide⟩ [(1, ⟨[5], by decide⟩)]
        (fun uid => if uid = 1 then some [2, 3, 4] else none) = some after ∧
      Updates ⟨[3], by decide⟩ [(1, ⟨[5], by decide⟩)]
        (fun uid => if uid = 1 then some [2, 3, 4] else none) after := by
  apply (applyUidMapUpdate_iff ⟨[3], by decide⟩ (by decide) ?_).2
  · intro uid channels member old found
    split_ifs at found
    cases found
    exact .inr (by decide)
  · intro uid old found
    split_ifs at found
    cases found
    decide

/-- Two channels after the only updated one: the second is compared with what is behind it. -/
theorem not_applied_past_end :
    ¬∃ after, applyUidMapUpdate ⟨[1], by decide⟩ [(1, ⟨[5], by decide⟩)]
        (fun uid => if uid = 1 then some [2, 3] else none) = some after ∧
      Updates ⟨[1], by decide⟩ [(1, ⟨[5], by decide⟩)]
        (fun uid => if uid = 1 then some [2, 3] else none) after := by
  rintro ⟨after, done, -⟩
  cases done

end AdServer.ChannelServer
