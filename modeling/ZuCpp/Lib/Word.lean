import Mathlib

/-!
# Machine words of 64 bits

The casts between a signed and an unsigned word, and the three operations on signed words
whose overflow a language leaves undefined: `checkedAdd`, `checkedSub` and `checkedNeg` are
`none` exactly there.
-/

namespace ZuCpp.Lib

theorem toNat_toUInt64 (x : Int64) :
    (x.toUInt64.toNat : Int) = if x.toInt < 0 then x.toInt + 2 ^ 64 else x.toInt := by
  have hcond : x.toInt = if 2 * x.toUInt64.toNat < 2 ^ 64 then (x.toUInt64.toNat : Int)
      else x.toUInt64.toNat - (2 ^ 64 : Nat) := BitVec.toInt_eq_toNat_cond x.toBitVec
  have hbound := x.toUInt64.toNat_lt
  split at hcond <;> split <;> omega

/-- The cast of an unsigned word below `2 ^ 63` to a signed one. -/
theorem toInt_toInt64 {x : UInt64} (h : x.toNat < 2 ^ 63) : x.toInt64.toInt = x.toNat := by
  have hx := toNat_toUInt64 x.toInt64
  rw [UInt64.toUInt64_toInt64] at hx
  have hge := Int64.le_toInt x.toInt64
  split at hx <;> omega

/-- The word of `n`, when there is one. -/
def checked64 (n : Int) : Option Int64 :=
  if -2 ^ 63 ≤ n ∧ n < 2 ^ 63 then some (Int64.ofInt n) else none

def checkedAdd (a b : Int64) : Option Int64 := checked64 (a.toInt + b.toInt)

def checkedSub (a b : Int64) : Option Int64 := checked64 (a.toInt - b.toInt)

def checkedNeg (a : Int64) : Option Int64 := checked64 (-a.toInt)

theorem exists_checked64 {n : Int} (hge : -2 ^ 63 ≤ n) (hlt : n < 2 ^ 63) :
    ∃ a, checked64 n = some a ∧ a.toInt = n := by
  refine ⟨Int64.ofInt n, if_pos ⟨hge, hlt⟩, ?_⟩
  exact Int64.toInt_ofInt_of_le hge hlt

end ZuCpp.Lib
