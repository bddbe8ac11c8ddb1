import AdServer.CampaignManager.Config
import AdServer.Lib.Buckets
import AdServer.Lib.WeightedDraw
import Mathlib.Tactic.Ring

/-!
# Candidates of an auction

What competes for an ad slot, the groups of which at most one may be shown, and
the expected revenue of a draw among several.
-/

namespace AdServer.CampaignManager

open AdServer.Lib

/-- How a selection may fail instead of returning. -/
inductive Fault where
  | assertFailed
  | endDereferenced
  deriving DecidableEq

/-- `assert`. -/
def check (condition : Bool) : Except Fault Unit :=
  if condition then .ok () else .error .assertFailed

/-- `*it` for an iterator that may be at the end. -/
def deref {α : Type} : Option α → Except Fault α
  | some x => .ok x
  | none => .error .endDereferenced

@[simp] theorem ok_bind {α β : Type} (x : α) (f : α → Except Fault β) :
    (Except.ok x >>= f) = f x := rfl

@[simp] theorem check_true : check true = .ok () := rfl

@[simp] theorem deref_some {α : Type} (x : α) : deref (some x) = .ok x := rfl

/-- `RANDOM_PARAM_MAX`. -/
def randomParamMax : Nat := 10000000

structure WeightedCampaign where
  tagPricing : TagPricing
  tagSize : TagSize
  campaign : Campaign
  creative : Creative
  availableCreatives : List Creative
  ecpm : Int
  ctr : Int
  convRate : Int

structure CampaignKeyword where
  maxCpc : Int
  ctr : Int
  clickUrl : String
  campaign : Campaign
  deriving Inhabited

/-- A text candidate; a keyword belongs to the campaign it competes for. -/
structure WeightedCampaignKeyword where
  campaignKeyword : Option CampaignKeyword
  campaign : Campaign
  creative : Option Creative
  actualEcpm : Int
  actualCpc : Int
  ecpm : Int
  ctr : Int
  convRate : Int
  own : ∀ kw ∈ campaignKeyword, kw.campaign = campaign

instance : Inhabited WeightedCampaignKeyword :=
  ⟨⟨none, default, none, 0, 0, 0, 0, 0, by simp⟩⟩

/-- What at most one ad of may be shown: a CCG, an advertiser or an account. -/
def WeightedCampaignKeyword.group (c : WeightedCampaignKeyword) : TextAdserving × Nat :=
  match c.campaign.account.getTextAdserving with
  | .all => (.all, c.campaign.campaignId)
  | .advertiserOne => (.advertiserOne, c.campaign.advertiser.accountId)
  | .one => (.one, c.campaign.account.accountId)

/-- `CampaignSelector::ExpectedEcpm`, in wide decimals. -/
structure ExpectedEcpm where
  quadSum : Int
  sum : Int

namespace ExpectedEcpm

variable (R : RevenueArith)

def zero : ExpectedEcpm := ⟨0, 0⟩

/-- `operator+=`. -/
def add (e : ExpectedEcpm) (ecpm : Int) : ExpectedEcpm where
  quadSum := e.quadSum + R.ext.mul (R.widen ecpm) (R.widen ecpm)
  sum := e.sum + R.widen ecpm

def value (e : ExpectedEcpm) : Except Fault Int :=
  if e.sum = 0 then .ok 0
  else
    let expEcpm := R.narrow (R.ext.div e.quadSum e.sum)
    do
      check (decide (0 < expEcpm))
      return expEcpm

/-- The value of several bids, without the assertion. -/
def mean (ecpms : List Int) : Int :=
  let e := ecpms.foldl (add R) zero
  if e.sum = 0 then 0 else R.narrow (R.ext.div e.quadSum e.sum)

variable {R}

theorem mul_widen {x : Int} (hx : 0 ≤ x) : R.ext.mul (R.widen x) (R.widen x) = x * x := by
  have wide : 0 ≤ R.widen x := Int.mul_nonneg hx R.one_pos.le
  obtain ⟨low, high⟩ := R.ext.mul_floor wide wide
  have square : R.widen x * R.widen x = x * x * R.ext.one := by
    simp only [RevenueArith.widen, R.ext_one]
    ring
  rw [square] at low high
  apply le_antisymm
  · exact le_of_mul_le_mul_right low R.ext.one_pos
  · exact FixedPoint.le_of_mul_lt R.ext.one_pos high

theorem foldl_add (ecpms : List Int) (nonneg : ∀ x ∈ ecpms, 0 ≤ x) (e : ExpectedEcpm) :
    ecpms.foldl (add R) e =
      ⟨e.quadSum + (ecpms.map (fun x => x * x)).sum, e.sum + R.widen ecpms.sum⟩ := by
  induction ecpms generalizing e with
  | nil => simp [RevenueArith.widen]
  | cons x rest ih =>
    have others : ∀ y ∈ rest, 0 ≤ y := fun y mem => nonneg y (List.mem_cons_of_mem _ mem)
    rw [List.foldl_cons, ih others, add, mul_widen (nonneg x List.mem_cons_self)]
    simp only [List.map_cons, List.sum_cons, RevenueArith.widen]
    congr 1 <;> ring

theorem sum_le_sum_squares (ecpms : List Int) (nonneg : ∀ x ∈ ecpms, 0 ≤ x) :
    ecpms.sum ≤ (ecpms.map (fun x => x * x)).sum := by
  induction ecpms with
  | nil => simp
  | cons x rest ih =>
    have others := ih (fun y mem => nonneg y (List.mem_cons_of_mem _ mem))
    have first : x ≤ x * x := by
      have := nonneg x List.mem_cons_self
      nlinarith
    simp only [List.map_cons, List.sum_cons]
    omega

variable {ecpms : List Int}

section
variable (nonneg : ∀ x ∈ ecpms, 0 ≤ x)
include nonneg

theorem sum_eq_zero_iff : ecpms.sum = 0 ↔ ∀ x ∈ ecpms, x = 0 := by
  have all : totalWeight id ecpms = 0 ↔ ∀ x ∈ ecpms, x = 0 := totalWeight_eq_zero_iff nonneg
  rwa [totalWeight, List.map_id] at all

theorem mean_pos (some : ecpms.sum ≠ 0) : 0 < mean R ecpms := by
  have total : 0 < ecpms.sum := lt_of_le_of_ne (List.sum_nonneg nonneg) some.symm
  have wide : 0 < R.widen ecpms.sum := Int.mul_pos total R.one_pos
  have squares := sum_le_sum_squares ecpms nonneg
  simp only [mean, foldl_add ecpms nonneg, zero, zero_add]
  rw [if_neg wide.ne']
  -- the quotient is at least one unit of the narrow decimal
  have quotient : R.one ≤ R.ext.div (ecpms.map (fun x => x * x)).sum (R.widen ecpms.sum) := by
    have bound := (R.ext.div_floor (total.le.trans squares) wide).2
    apply FixedPoint.le_of_mul_lt wide
    apply lt_of_le_of_lt _ bound
    rw [R.ext_one, RevenueArith.widen]
    have : ecpms.sum * (R.one * R.one) ≤ (ecpms.map (fun x => x * x)).sum * (R.one * R.one) :=
      Int.mul_le_mul_of_nonneg_right squares (Int.mul_nonneg R.one_pos.le R.one_pos.le)
    linarith
  have whole : 1 * R.one ≤ R.ext.div (ecpms.map (fun x => x * x)).sum (R.widen ecpms.sum) := by
    rwa [one_mul]
  exact Int.lt_of_lt_of_le one_pos ((Int.le_ediv_iff_mul_le R.one_pos).2 whole)

theorem foldl_sum_eq_zero_iff : (ecpms.foldl (add R) zero).sum = 0 ↔ ecpms.sum = 0 := by
  rw [foldl_add ecpms nonneg]
  change 0 + ecpms.sum * R.one = 0 ↔ _
  rw [zero_add, Int.mul_eq_zero]
  exact or_iff_left R.one_pos.ne'

/-- The assertion of `value` never fails. -/
theorem value_eq : (ecpms.foldl (add R) zero).value R = .ok (mean R ecpms) := by
  by_cases none : ecpms.sum = 0
  · simp [value, mean, (foldl_sum_eq_zero_iff nonneg).2 none]
  · have pos := mean_pos (R := R) nonneg none
    have some : (ecpms.foldl (add R) zero).sum ≠ 0 := fun h =>
      none ((foldl_sum_eq_zero_iff nonneg).1 h)
    simp only [mean, some, if_false] at pos
    simp [value, mean, some, check, pos]

theorem mean_eq_zero_iff : mean R ecpms = 0 ↔ ∀ x ∈ ecpms, x = 0 := by
  rw [← sum_eq_zero_iff nonneg]
  constructor
  · intro h
    by_contra some
    exact (mean_pos (R := R) nonneg some).ne' h
  · intro none
    simp [mean, (foldl_sum_eq_zero_iff nonneg).2 none]

theorem mean_nonneg : 0 ≤ mean R ecpms := by
  by_cases none : ecpms.sum = 0
  · exact ((mean_eq_zero_iff nonneg).2 ((sum_eq_zero_iff nonneg).1 none)).ge
  · exact (mean_pos nonneg none).le

end

end ExpectedEcpm

section Groups

variable {α : Type}

/-- `IdWeightedCampaignKeywordMaps`. -/
structure IdMaps (α : Type) where
  accountCampaigns : SortedMap Nat (List α)
  advertiserCampaigns : SortedMap Nat (List α)
  ccgCampaigns : SortedMap Nat (List α)

namespace IdMaps

def empty : IdMaps α := ⟨SortedMap.empty, SortedMap.empty, SortedMap.empty⟩

/-- The map that holds the groups of one kind. -/
def selectedMap (maps : IdMaps α) : TextAdserving → SortedMap Nat (List α)
  | .all => maps.ccgCampaigns
  | .advertiserOne => maps.advertiserCampaigns
  | .one => maps.accountCampaigns

def push (maps : IdMaps α) (group : TextAdserving × Nat) (x : α) : IdMaps α :=
  match group.1 with
  | .all => { maps with ccgCampaigns := maps.ccgCampaigns.pushMapped group.2 x }
  | .advertiserOne =>
    { maps with advertiserCampaigns := maps.advertiserCampaigns.pushMapped group.2 x }
  | .one => { maps with accountCampaigns := maps.accountCampaigns.pushMapped group.2 x }

/-- `fill_id_weighted_campaigns_keyword_maps`. -/
def fill (group : α → TextAdserving × Nat) (xs : List α) : IdMaps α :=
  xs.foldl (fun maps x => maps.push (group x) x) empty

/-- `get_campaigns_group`. -/
def campaignsGroup (maps : IdMaps α) (group : TextAdserving × Nat) : Option (List α) :=
  (maps.selectedMap group.1).find? group.2

/-- The groups in the order in which `group_text_campaigns_` takes them. -/
def groups (maps : IdMaps α) : List (Nat × List α) :=
  maps.ccgCampaigns.entries ++ maps.advertiserCampaigns.entries ++ maps.accountCampaigns.entries

theorem campaignsGroup_push (maps : IdMaps α) (group group' : TextAdserving × Nat) (x : α) :
    (maps.push group x).campaignsGroup group' =
      if group' = group then some ((maps.campaignsGroup group).getD [] ++ [x])
      else maps.campaignsGroup group' := by
  obtain ⟨kind, id⟩ := group
  obtain ⟨kind', id'⟩ := group'
  cases kind <;> cases kind' <;>
    simp [push, campaignsGroup, selectedMap, SortedMap.pushMapped, SortedMap.bucket,
      SortedMap.find?_put]

/-- The members of a group in a list. -/
def members (group : α → TextAdserving × Nat) (xs : List α) (g : TextAdserving × Nat) : List α :=
  xs.filter (fun x => decide (group x = g))

theorem campaignsGroup_foldl (group : α → TextAdserving × Nat) (xs : List α) (maps : IdMaps α)
    (g : TextAdserving × Nat) :
    (xs.foldl (fun maps x => maps.push (group x) x) maps).campaignsGroup g =
      if members group xs g = [] then maps.campaignsGroup g
      else some ((maps.campaignsGroup g).getD [] ++ members group xs g) := by
  induction xs generalizing maps with
  | nil => simp [members]
  | cons x rest ih =>
    rw [List.foldl_cons, ih, campaignsGroup_push]
    by_cases here : group x = g
    · have first : members group (x :: rest) g = x :: members group rest g := by
        simp [members, here]
      rw [first, here]
      by_cases last : members group rest g = [] <;> simp [last]
    · have later : members group (x :: rest) g = members group rest g := by
        simp [members, here]
      rw [later, if_neg (Ne.symm here)]

theorem campaignsGroup_fill (group : α → TextAdserving × Nat) (xs : List α)
    (g : TextAdserving × Nat) :
    (fill group xs).campaignsGroup g =
      if members group xs g = [] then none else some (members group xs g) := by
  have start : (empty : IdMaps α).campaignsGroup g = none := by
    obtain ⟨kind, id⟩ := g
    cases kind <;> rfl
  rw [fill, campaignsGroup_foldl, start]
  simp

variable {l xs : List α} {group : α → TextAdserving × Nat}

theorem mem_groups {maps : IdMaps α} :
    (∃ id, (id, l) ∈ maps.groups) ↔ ∃ g, maps.campaignsGroup g = some l := by
  simp only [groups, List.mem_append, campaignsGroup, SortedMap.find?_eq_some]
  constructor
  · rintro ⟨id, (h | h) | h⟩
    · exact ⟨(.all, id), h⟩
    · exact ⟨(.advertiserOne, id), h⟩
    · exact ⟨(.one, id), h⟩
  · rintro ⟨⟨kind, id⟩, h⟩
    cases kind with
    | all => exact ⟨id, .inl (.inl h)⟩
    | advertiserOne => exact ⟨id, .inl (.inr h)⟩
    | one => exact ⟨id, .inr h⟩

theorem of_mem_groups_fill {id : Nat} (h : (id, l) ∈ (fill group xs).groups) :
    l ≠ [] ∧ ∀ x ∈ l, x ∈ xs := by
  obtain ⟨g, found⟩ := mem_groups.1 ⟨id, h⟩
  rw [campaignsGroup_fill] at found
  split at found
  · simp at found
  · next some =>
    cases found
    exact ⟨some, fun x mem => List.mem_of_mem_filter mem⟩

theorem exists_group_of_mem {x : α} (h : x ∈ xs) :
    ∃ id, (id, members group xs (group x)) ∈ (fill group xs).groups := by
  have mem : x ∈ members group xs (group x) := by simp [members, h]
  have some : members group xs (group x) ≠ [] := List.ne_nil_of_mem mem
  apply mem_groups.2
  exact ⟨group x, by rw [campaignsGroup_fill, if_neg some]⟩

end IdMaps

/-- `std::multimap::insert`: behind the elements whose key is not greater. -/
def insertMulti {β : Type} (e : Int × β) : List (Int × β) → List (Int × β)
  | [] => [e]
  | x :: rest => if e.1 < x.1 then e :: x :: rest else x :: insertMulti e rest

theorem insertMulti_perm {β : Type} (e : Int × β) (m : List (Int × β)) :
    (insertMulti e m).Perm (e :: m) := by
  induction m with
  | nil => exact List.Perm.refl _
  | cons x rest ih =>
    rw [insertMulti]
    split
    · exact List.Perm.refl _
    · exact (ih.cons x).trans (List.Perm.swap e x rest)

/-- The expected value of a group: the bid itself when it has one member. -/
def groupEcpm (R : RevenueArith) (ecpm : α → Int) (group : List α) : Except Fault Int :=
  match group with
  | [x] => .ok (ecpm x)
  | xs => (xs.foldl (fun e x => e.add R (ecpm x)) ExpectedEcpm.zero).value R

def groupValue (R : RevenueArith) (ecpm : α → Int) (group : List α) : Int :=
  match group with
  | [x] => ecpm x
  | xs => ExpectedEcpm.mean R (xs.map ecpm)

/-- `group_id_map_`: every group inserted under its expected value, which is
also added to what the caller collects. -/
def groupIdMap_ {Out : Type} (R : RevenueArith) (ecpm : α → Int) (add : Out → Int → Out) :
    List (Nat × List α) → List (Int × List α) × Out → Except Fault (List (Int × List α) × Out)
  | [], state => .ok state
  | (_, group) :: rest, (textCampaignMap, out) => do
    let expEcpm ← groupEcpm R ecpm group
    groupIdMap_ R ecpm add rest (insertMulti (expEcpm, group) textCampaignMap, add out expEcpm)

/-- `group_text_campaigns_`. -/
def groupTextCampaigns_ {Out : Type} (R : RevenueArith) (ecpm : α → Int)
    (group : α → TextAdserving × Nat) (add : Out → Int → Out) (start : Out) (xs : List α) :
    Except Fault (List (Int × List α) × Out) :=
  groupIdMap_ R ecpm add (IdMaps.fill group xs).groups ([], start)

variable {R : RevenueArith} {ecpm : α → Int} {group : α → TextAdserving × Nat}

theorem groupEcpm_eq {xs : List α} (nonneg : ∀ x ∈ xs, 0 ≤ ecpm x) :
    groupEcpm R ecpm xs = .ok (groupValue R ecpm xs) := by
  have bids : ∀ e ∈ xs.map ecpm, 0 ≤ e := by
    intro e mem
    obtain ⟨x, hx, rfl⟩ := List.mem_map.1 mem
    exact nonneg x hx
  have all := ExpectedEcpm.value_eq (R := R) bids
  rw [List.foldl_map] at all
  unfold groupEcpm groupValue
  split
  · rfl
  · exact all

theorem groupValue_nonneg {xs : List α} (nonneg : ∀ x ∈ xs, 0 ≤ ecpm x) :
    0 ≤ groupValue R ecpm xs := by
  unfold groupValue
  split
  · exact nonneg _ (by simp)
  · apply ExpectedEcpm.mean_nonneg
    intro e mem
    obtain ⟨x, hx, rfl⟩ := List.mem_map.1 mem
    exact nonneg x hx

/-- The groups in the multimap, without the assertions. -/
def groupedMap (R : RevenueArith) (ecpm : α → Int) (groups : List (Nat × List α))
    (m : List (Int × List α)) : List (Int × List α) :=
  groups.foldl (fun m g => insertMulti (groupValue R ecpm g.2, g.2) m) m

theorem groupIdMap_eq {Out : Type} {add : Out → Int → Out} {groups : List (Nat × List α)}
    (nonneg : ∀ g ∈ groups, ∀ x ∈ g.2, 0 ≤ ecpm x) (m : List (Int × List α)) (out : Out) :
    groupIdMap_ R ecpm add groups (m, out) =
      .ok (groupedMap R ecpm groups m,
        (groups.map (fun g => groupValue R ecpm g.2)).foldl add out) := by
  induction groups generalizing m out with
  | nil => rfl
  | cons g rest ih =>
    obtain ⟨id, members⟩ := g
    have here := groupEcpm_eq (R := R) (nonneg _ List.mem_cons_self)
    simp only [groupIdMap_]
    rw [here]
    exact ih (fun g mem => nonneg g (List.mem_cons_of_mem _ mem)) _ _

theorem groupedMap_perm (groups : List (Nat × List α)) (m : List (Int × List α)) :
    (groupedMap R ecpm groups m).Perm
      (groups.map (fun g => (groupValue R ecpm g.2, g.2)) ++ m) := by
  induction groups generalizing m with
  | nil => exact List.Perm.refl _
  | cons g rest ih =>
    apply (ih _).trans
    apply ((insertMulti_perm _ m).append_left _).trans
    exact List.perm_middle

end Groups

end AdServer.CampaignManager
