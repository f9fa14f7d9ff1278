import Mathlib.Data.Nat.Basic
import Mathlib.Data.Nat.Bitwise
import Mathlib.Tactic.Ring

/-!
# Long division by a small number, limb by limb

A number written `h * B + l` is divided by `d` from the top: divide `h`, carry its
remainder in front of `l`, divide that.  `div_limbs` and `mod_limbs` say that the two
quotients put end to end are the quotient and that the last remainder is the
remainder; `carry_div_lt` says that the second quotient is one limb, so nothing is
lost when the two are put end to end.
-/

namespace ZuCpp.Lib

theorem limbs_split (B d h l : Nat) : h * B + l = d * (h / d * B) + (h % d * B + l) := by
  have : h * B = (d * (h / d) + h % d) * B := by rw [Nat.div_add_mod]
  rw [this, Nat.add_mul, Nat.add_assoc, Nat.mul_assoc]

/-- The quotient of two limbs is the quotient of the first, then the quotient of the
second with the carry in front of it. -/
theorem div_limbs {d : Nat} (hd : 0 < d) (B h l : Nat) :
    (h * B + l) / d = h / d * B + (h % d * B + l) / d := by
  conv_lhs => rw [limbs_split B d h l]
  rw [Nat.mul_add_div hd]

/-- The remainder of two limbs is the remainder of the second with the carry in front
of it. -/
theorem mod_limbs (d B h l : Nat) : (h * B + l) % d = (h % d * B + l) % d := by
  conv_lhs => rw [limbs_split B d h l]
  rw [Nat.mul_add_mod]

/-- A limb with a carry below `d` in front of it has a quotient of one limb. -/
theorem carry_div_lt {d B r l : Nat} (hr : r < d) (hl : l < B) : (r * B + l) / d < B := by
  rw [Nat.div_lt_iff_lt_mul (by omega)]
  have : (r + 1) * B ≤ d * B := Nat.mul_le_mul_right B hr
  rw [Nat.add_mul] at this
  rw [Nat.mul_comm B d]
  omega

/-- `(a << k) | b` puts `b` below `a`, when `b` fits under the shift. -/
theorem shiftLeft_or_eq {a b k : Nat} (hb : b < 2 ^ k) : a <<< k ||| b = a * 2 ^ k + b := by
  rw [← Nat.shiftLeft_add_eq_or_of_lt hb, Nat.shiftLeft_eq]

/-- What fits under the shift has no bit in common with what was shifted. -/
theorem shiftLeft_and_eq_zero {a b k : Nat} (hb : b < 2 ^ k) : a <<< k &&& b = 0 := by
  apply Nat.zero_of_testBit_eq_false
  intro i
  rw [Nat.testBit_and, Nat.testBit_shiftLeft]
  by_cases hi : k ≤ i
  · have hlt : b < 2 ^ i := Nat.lt_of_lt_of_le hb (Nat.pow_le_pow_right (by decide) hi)
    rw [Nat.testBit_lt_two_pow hlt, Bool.and_false]
  · rw [decide_eq_false hi, Bool.false_and, Bool.false_and]

end ZuCpp.Lib
