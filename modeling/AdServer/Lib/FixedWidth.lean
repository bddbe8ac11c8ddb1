import Mathlib.Algebra.Order.Ring.Int

/-!
# Numbers of fixed width

Numbers cut to 32 bits, and the bytes of a number, the lowest first, as they
stand in memory.
-/

namespace AdServer.Lib

/-- What a field of 32 bits keeps of a number. -/
def uint (value : Int) : Nat := (value % 2 ^ 32).toNat

theorem uint_lt (value : Int) : uint value < 2 ^ 32 := by
  unfold uint
  omega

theorem uint_of_lt {value : Int} (h : 0 ≤ value) (h' : value < 2 ^ 32) :
    (uint value : Int) = value := by
  unfold uint
  omega

theorem uint_eq_iff {value : Nat} : uint value = value ↔ value < 2 ^ 32 := by
  unfold uint
  omega

theorem uint_natCast {value : Nat} (h : value < 2 ^ 32) : uint value = value := uint_eq_iff.2 h

def numberBytes : Nat → Nat → List UInt8
  | 0, _ => []
  | count + 1, n => UInt8.ofNat n :: numberBytes count (n / 256)

def readNumber : List UInt8 → Nat
  | [] => 0
  | byte :: rest => byte.toNat + 256 * readNumber rest

@[simp] theorem numberBytes_length (count n : Nat) : (numberBytes count n).length = count := by
  induction count generalizing n with
  | zero => rfl
  | succ count ih => simp [numberBytes, ih]

theorem readNumber_numberBytes (count : Nat) {n : Nat} (fits : n < 256 ^ count) :
    readNumber (numberBytes count n) = n := by
  induction count generalizing n with
  | zero =>
    rw [Nat.pow_zero] at fits
    exact (Nat.lt_one_iff.1 fits).symm
  | succ count ih =>
    rw [Nat.pow_succ] at fits
    rw [numberBytes, readNumber, ih (Nat.div_lt_of_lt_mul (by omega)), UInt8.toNat_ofNat']
    omega

end AdServer.Lib
