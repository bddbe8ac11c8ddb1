import Mathlib.Tactic.Linarith

/-!
# Fixed-point arithmetic rounded down

Amounts are counted in units, `one` of which make the number one. Products and
quotients are known only through the bounds that rounding down gives them on
nonnegative arguments.
-/

namespace AdServer.Lib

structure FixedPoint where
  one : Int
  mul : Int → Int → Int
  div : Int → Int → Int
  one_pos : 0 < one
  mul_floor : ∀ {a b : Int}, 0 ≤ a → 0 ≤ b →
    mul a b * one ≤ a * b ∧ a * b < (mul a b + 1) * one
  div_floor : ∀ {a b : Int}, 0 ≤ a → 0 < b →
    div a b * b ≤ a * one ∧ a * one < (div a b + 1) * b

namespace FixedPoint

/-- The arithmetic that rounds down every product and quotient. -/
def floored (one : Int) (one_pos : 0 < one) : FixedPoint where
  one := one
  mul a b := a * b / one
  div a b := a * one / b
  one_pos := one_pos
  mul_floor := fun _ _ =>
    ⟨Int.ediv_mul_le _ one_pos.ne', Int.lt_ediv_add_one_mul_self _ one_pos⟩
  div_floor := fun _ hb =>
    ⟨Int.ediv_mul_le _ hb.ne', Int.lt_ediv_add_one_mul_self _ hb⟩

variable (F : FixedPoint) {a b s w : Int}

theorem le_of_mul_lt {x y c : Int} (hc : 0 < c) (h : x * c < (y + 1) * c) : x ≤ y :=
  Int.lt_add_one_iff.1 (lt_of_mul_lt_mul_right h hc.le)

theorem mul_nonneg (ha : 0 ≤ a) (hb : 0 ≤ b) : 0 ≤ F.mul a b := by
  refine le_of_mul_lt F.one_pos ?_
  rw [zero_mul]
  exact lt_of_le_of_lt (Int.mul_nonneg ha hb) (F.mul_floor ha hb).2

theorem div_nonneg (ha : 0 ≤ a) (hb : 0 < b) : 0 ≤ F.div a b := by
  refine le_of_mul_lt hb ?_
  rw [zero_mul]
  exact lt_of_le_of_lt (Int.mul_nonneg ha F.one_pos.le) (F.div_floor ha hb).2

theorem mul_zero_left (hb : 0 ≤ b) : F.mul 0 b = 0 := by
  refine le_antisymm ?_ (F.mul_nonneg le_rfl hb)
  have bound := (F.mul_floor le_rfl hb).1
  rw [zero_mul] at bound
  exact nonpos_of_mul_nonpos_left bound F.one_pos

theorem mul_zero_right (ha : 0 ≤ a) : F.mul a 0 = 0 := by
  refine le_antisymm ?_ (F.mul_nonneg ha le_rfl)
  have bound := (F.mul_floor ha le_rfl).1
  rw [mul_zero] at bound
  exact nonpos_of_mul_nonpos_left bound F.one_pos

theorem zero_div (hb : 0 < b) : F.div 0 b = 0 := by
  refine le_antisymm ?_ (F.div_nonneg le_rfl hb)
  have bound := (F.div_floor le_rfl hb).1
  rw [zero_mul] at bound
  exact nonpos_of_mul_nonpos_left bound hb

theorem mul_le_right (hs : 0 ≤ s) (hw : 0 ≤ w) (h : s ≤ F.one) : F.mul s w ≤ w := by
  have bound := (F.mul_floor hs hw).1
  have : s * w ≤ w * F.one := by
    rw [mul_comm w]
    exact Int.mul_le_mul_of_nonneg_right h hw
  exact le_of_mul_le_mul_right (bound.trans this) F.one_pos

theorem mul_share_le (hs : 0 ≤ s) (ha : 0 ≤ a) (hw : 0 < w) (h : s ≤ F.div a w) :
    F.mul s w ≤ a := by
  have bound := (F.mul_floor hs hw.le).1
  have share : s * w ≤ a * F.one :=
    (Int.mul_le_mul_of_nonneg_right h hw.le).trans (F.div_floor ha hw).1
  exact le_of_mul_le_mul_right (bound.trans share) F.one_pos

theorem one_le_div_iff (ha : 0 ≤ a) (hw : 0 < w) : F.one ≤ F.div a w ↔ w ≤ a := by
  obtain ⟨low, high⟩ := F.div_floor ha hw
  constructor
  · intro h
    have : F.one * w ≤ a * F.one := (Int.mul_le_mul_of_nonneg_right h hw.le).trans low
    rw [mul_comm] at this
    exact le_of_mul_le_mul_right this F.one_pos
  · intro h
    refine le_of_mul_lt hw ?_
    have : F.one * w ≤ a * F.one := by
      rw [mul_comm]
      exact Int.mul_le_mul_of_nonneg_right h F.one_pos.le
    exact lt_of_le_of_lt this high

theorem mul_one_left (hw : 0 ≤ w) : F.mul F.one w = w := by
  refine le_antisymm (F.mul_le_right F.one_pos.le hw le_rfl) ?_
  refine le_of_mul_lt F.one_pos ?_
  rw [mul_comm w]
  exact (F.mul_floor F.one_pos.le hw).2

/-- A share changes nothing only when it is whole or there is nothing to share. -/
theorem mul_eq_right_iff (hs : 0 ≤ s) (hw : 0 ≤ w) (h : s ≤ F.one) :
    F.mul s w = w ↔ s = F.one ∨ w = 0 := by
  constructor
  · intro hm
    rcases hw.eq_or_lt with hw0 | hw0
    · exact .inr hw0.symm
    · have bound := (F.mul_floor hs hw).1
      rw [hm, mul_comm] at bound
      exact .inl (le_antisymm h (le_of_mul_le_mul_right bound hw0))
  · rintro (rfl | rfl)
    · exact F.mul_one_left hw
    · exact F.mul_zero_right hs

/-- Rounding down leaves one possible product. -/
theorem mul_comm_of_nonneg (ha : 0 ≤ a) (hb : 0 ≤ b) : F.mul a b = F.mul b a := by
  obtain ⟨low, high⟩ := F.mul_floor ha hb
  obtain ⟨low', high'⟩ := F.mul_floor hb ha
  rw [mul_comm b a] at low' high'
  apply le_antisymm
  · exact le_of_mul_lt F.one_pos (lt_of_le_of_lt low high')
  · exact le_of_mul_lt F.one_pos (lt_of_le_of_lt low' high)

theorem div_lt_one (ha : 0 ≤ a) (h : a < b) : F.div a b < F.one := by
  have hb : 0 < b := lt_of_le_of_lt ha h
  have bound := (F.div_floor ha hb).1
  have below : a * F.one < F.one * b := by
    rw [mul_comm F.one]
    exact Int.mul_lt_mul_of_pos_right h F.one_pos
  exact lt_of_mul_lt_mul_right (lt_of_le_of_lt bound below) hb.le

theorem mul_lt_right (hs : 0 ≤ s) (hw : 0 < w) (h : s < F.one) : F.mul s w < w := by
  have bound := (F.mul_floor hs hw.le).1
  have below : s * w < w * F.one := by
    rw [mul_comm w]
    exact Int.mul_lt_mul_of_pos_right h hw
  exact lt_of_mul_lt_mul_right (lt_of_le_of_lt bound below) F.one_pos.le

theorem mul_lt_left (hs : 0 ≤ s) (hw : 0 < w) (h : s < F.one) : F.mul w s < w := by
  rw [F.mul_comm_of_nonneg hw.le hs]
  exact F.mul_lt_right hs hw h

theorem div_one (ha : 0 ≤ a) : F.div a F.one = a := by
  obtain ⟨low, high⟩ := F.div_floor ha F.one_pos
  apply le_antisymm
  · exact le_of_mul_le_mul_right low F.one_pos
  · exact le_of_mul_lt F.one_pos high

theorem div_self (hw : 0 < w) : F.div w w = F.one := by
  obtain ⟨low, high⟩ := F.div_floor hw.le hw
  rw [mul_comm w F.one] at low high
  apply le_antisymm
  · exact le_of_mul_le_mul_right low hw
  · exact le_of_mul_lt hw high

/-- The greatest amount whose product with `b` is at most `c`. -/
def mulBound (b c : Int) : Int := ((c + 1) * F.one - 1) / b

/-- The greatest amount whose quotient by `b` is at most `c`. -/
def divBound (b c : Int) : Int := ((c + 1) * b - 1) / F.one

theorem floor_le_iff {x y n c : Int} (hc : 0 < c) (low : x * c ≤ n) (high : n < (x + 1) * c) :
    x ≤ y ↔ n < (y + 1) * c :=
  ⟨fun h => lt_of_lt_of_le high (Int.mul_le_mul_of_nonneg_right (by omega) hc.le),
    fun h => le_of_mul_lt hc (lt_of_le_of_lt low h)⟩

theorem mul_le_iff (ha : 0 ≤ a) (hb : 0 < b) {c : Int} :
    F.mul a b ≤ c ↔ a ≤ F.mulBound b c := by
  obtain ⟨low, high⟩ := F.mul_floor ha hb.le
  rw [floor_le_iff F.one_pos low high, mulBound, Int.le_ediv_iff_mul_le hb, Int.le_sub_one_iff]

theorem div_le_iff (ha : 0 ≤ a) (hb : 0 < b) {c : Int} :
    F.div a b ≤ c ↔ a ≤ F.divBound b c := by
  obtain ⟨low, high⟩ := F.div_floor ha hb
  rw [floor_le_iff hb low high, divBound, Int.le_ediv_iff_mul_le F.one_pos, Int.le_sub_one_iff]

end FixedPoint

end AdServer.Lib
