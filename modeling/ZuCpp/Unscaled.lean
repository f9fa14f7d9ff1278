import ZuCpp.Decimal

/-!
# The unscaled integer of a `Decimal`

A `Decimal` is built from an `std::int64_t` (`of`) or from an `__int128` (`wide`), and is
read back as one or the other (`unscaled64`, `unscaled`).  An `__int128` is its 128 bits,
which `BitVec.toInt` reads as a signed number, and a cast between it and
`unsigned __int128` changes no bit.

`unscaled_toInt` says that reading the two halves back gives `val`, and `wide_unscaled` and
`unscaled_wide` that the halves and the 128 bits are the same thing.  Everything about
`of` and `unscaled64` follows from a comparison of numbers.
-/

namespace ZuCpp

open Lib

namespace Decimal

def of (unscaled : Int64) (scale : Int32) : Decimal :=
  ⟨if unscaled < 0 then -1 else 0, unscaled.toUInt64, scale⟩

def wide (unscaled : BitVec 128) (scale : Int32) : Decimal :=
  ⟨Int64.ofBitVec ((unscaled >>> 64).setWidth 64), UInt64.ofBitVec (unscaled.setWidth 64), scale⟩

def unscaled (d : Decimal) : BitVec 128 :=
  d.hi.toUInt64.toBitVec.setWidth 128 <<< 64 ||| d.lo.toBitVec.setWidth 128

def unscaled64 (d : Decimal) : Option Int64 :=
  let narrow := d.lo.toInt64
  if (if narrow < 0 then -1 else 0) ≠ d.hi then none else some narrow

/-! ### The 128 bits -/

theorem unscaled_toNat (d : Decimal) : d.unscaled.toNat = halves d.hi.toUInt64 d.lo := by
  have hhi := d.hi.toUInt64.toNat_lt
  have hlo := d.lo.toNat_lt
  have hwide : (d.hi.toUInt64.toBitVec.setWidth 128 <<< 64).toNat = d.hi.toUInt64.toNat <<< 64 := by
    rw [BitVec.toNat_shiftLeft, BitVec.toNat_setWidth, UInt64.toNat_toBitVec,
      Nat.mod_eq_of_lt (show d.hi.toUInt64.toNat < 2 ^ 128 by omega),
      Nat.mod_eq_of_lt (by rw [Nat.shiftLeft_eq]; omega)]
  have hnarrow : (d.lo.toBitVec.setWidth 128).toNat = d.lo.toNat := by
    rw [BitVec.toNat_setWidth, UInt64.toNat_toBitVec, Nat.mod_eq_of_lt (by omega)]
  rw [unscaled, BitVec.toNat_or, hwide, hnarrow, shiftLeft_or_eq hlo, halves]

/-- **The 128 bits are the two halves**, read as one two's complement number. -/
theorem unscaled_toInt (d : Decimal) : d.unscaled.toInt = d.val := by
  have hhi := toNat_toUInt64 d.hi
  have hlo := d.lo.toNat_lt
  have hlt := Int64.toInt_lt d.hi
  have hge := Int64.le_toInt d.hi
  rw [BitVec.toInt_eq_toNat_cond, unscaled_toNat, val, halves, signedHalves]
  split at hhi <;> split <;> omega

theorem wide_lo (x : BitVec 128) (s : Int32) : (wide x s).lo.toNat = x.toNat % 2 ^ 64 :=
  BitVec.toNat_setWidth 64 x

theorem wide_hi (x : BitVec 128) (s : Int32) :
    (wide x s).hi.toUInt64.toNat = x.toNat / 2 ^ 64 := by
  have hx := x.isLt
  show ((x >>> 64).setWidth 64).toNat = _
  rw [BitVec.toNat_setWidth, BitVec.toNat_ushiftRight, Nat.shiftRight_eq_div_pow,
    Nat.mod_eq_of_lt (by omega)]

theorem unscaled_wide (x : BitVec 128) (s : Int32) : (wide x s).unscaled = x := by
  have hdiv := Nat.div_add_mod x.toNat (2 ^ 64)
  apply BitVec.eq_of_toNat_eq
  rw [unscaled_toNat, halves, wide_hi, wide_lo]
  omega

theorem wide_unscaled (d : Decimal) : wide d.unscaled d.scale = d := by
  have hhi := wide_hi d.unscaled d.scale
  have hlo := wide_lo d.unscaled d.scale
  have hlt := d.lo.toNat_lt
  rw [unscaled_toNat, halves] at hhi hlo
  have hhi' : (wide d.unscaled d.scale).hi.toUInt64 = d.hi.toUInt64 := by
    apply UInt64.toNat_inj.mp
    omega
  have hlo' : (wide d.unscaled d.scale).lo = d.lo := by
    apply UInt64.toNat_inj.mp
    omega
  have hhi'' : (wide d.unscaled d.scale).hi = d.hi := by
    apply Int64.toBitVec_inj.mp
    exact congrArg UInt64.toBitVec hhi'
  cases d
  rw [Decimal.mk.injEq]
  exact ⟨hhi'', hlo', rfl⟩

/-! ### The `std::int64_t` -/

theorem of_val (n : Int64) (s : Int32) : (of n s).val = n.toInt := by
  have hn := toNat_toUInt64 n
  have hlt := Int64.toInt_lt n
  have hge := Int64.le_toInt n
  have hneg : n < 0 ↔ n.toInt < 0 := Int64.lt_iff_toInt_lt
  rw [val, signedHalves]
  show (if n < 0 then (-1 : Int64) else 0).toInt * 2 ^ 64 + (n.toUInt64.toNat : Int) = _
  split at hn
  · rename_i h
    rw [if_pos (hneg.mpr h), hn]
    show (-1 : Int) * 2 ^ 64 + (n.toInt + 2 ^ 64) = n.toInt
    omega
  · rename_i h
    rw [if_neg (mt hneg.mp h), hn]
    show (0 : Int) * 2 ^ 64 + n.toInt = n.toInt
    omega

/-- `unscaled64` answers the low half, and it answers when the high half is its sign. -/
theorem unscaled64_eq_some (d : Decimal) (n : Int64) :
    d.unscaled64 = some n ↔ of n d.scale = d := by
  have hlo : d.lo.toInt64 = n ↔ n.toUInt64 = d.lo := by
    constructor
    · rintro rfl
      exact UInt64.toUInt64_toInt64 d.lo
    · rintro h
      rw [← h]
      exact Int64.toInt64_toUInt64 n
  have heq : of n d.scale = d ↔ (if n < 0 then -1 else 0) = d.hi ∧ n.toUInt64 = d.lo := by
    cases d
    rw [of, Decimal.mk.injEq]
    exact ⟨fun h => ⟨h.1, h.2.1⟩, fun h => ⟨h.1, h.2, rfl⟩⟩
  rw [heq, ← hlo, unscaled64]
  simp only [ne_eq, ite_not]
  by_cases h : (if d.lo.toInt64 < 0 then -1 else 0) = d.hi
  · rw [if_pos h, Option.some.injEq]
    constructor
    · rintro rfl
      exact ⟨h, rfl⟩
    · exact fun hn => hn.2
  · rw [if_neg h]
    constructor
    · nofun
    · rintro ⟨hhi, rfl⟩
      exact absurd hhi h

theorem val_injective {d d' : Decimal} (hv : d.val = d'.val) (hs : d.scale = d'.scale) :
    d = d' := by
  have hu : d.unscaled = d'.unscaled := by
    apply BitVec.eq_of_toInt_eq
    rw [unscaled_toInt, unscaled_toInt, hv]
  rw [← wide_unscaled d, ← wide_unscaled d', hu, hs]

/-- **`unscaled64` answers the integer, when it is an `std::int64_t`.** -/
theorem unscaled64_spec (d : Decimal) (n : Int64) : d.unscaled64 = some n ↔ n.toInt = d.val := by
  rw [unscaled64_eq_some]
  constructor
  · intro h
    rw [← of_val n d.scale, h]
  · intro h
    exact val_injective ((of_val n d.scale).trans h) rfl

theorem of_eq_wide (n : Int64) (s : Int32) : of n s = wide (n.toBitVec.signExtend 128) s := by
  apply val_injective
  · rw [of_val, ← unscaled_toInt, unscaled_wide, BitVec.toInt_signExtend_of_le (by omega)]
    rfl
  · rfl

/-- **The 128 bit integer of a decimal survives every conversion.**  `unscaled64` answers
exactly for the integers an `std::int64_t` holds, and then the integer; what `of` builds
has the integer it was given, and is what `wide` builds of it; `unscaled` is the integer;
and `wide` and `unscaled` are inverse to each other. -/
theorem unscaled_survives :
    (∀ d : Decimal, ((∃ n, d.unscaled64 = some n) ↔ -2 ^ 63 ≤ d.val ∧ d.val < 2 ^ 63) ∧
      ∀ n, d.unscaled64 = some n → n.toInt = d.val) ∧
    (∀ (n : Int64) (s : Int32), (of n s).val = n.toInt ∧ (of n s).unscaled64 = some n ∧
      of n s = wide (n.toBitVec.signExtend 128) s) ∧
    (∀ d : Decimal, d.unscaled.toInt = d.val) ∧
    (∀ d : Decimal, wide d.unscaled d.scale = d) ∧
    ∀ (x : BitVec 128) (s : Int32), (wide x s).unscaled = x := by
  refine ⟨?_, ?_, unscaled_toInt, wide_unscaled, unscaled_wide⟩
  · intro d
    refine ⟨?_, fun n => (unscaled64_spec d n).mp⟩
    constructor
    · rintro ⟨n, hn⟩
      rw [← (unscaled64_spec d n).mp hn]
      exact ⟨Int64.le_toInt n, Int64.toInt_lt n⟩
    · rintro ⟨hge, hlt⟩
      refine ⟨Int64.ofInt d.val, (unscaled64_spec d _).mpr ?_⟩
      exact Int64.toInt_ofInt_of_le hge hlt
  · intro n s
    exact ⟨of_val n s, (unscaled64_spec _ n).mpr (of_val n s).symm, of_eq_wide n s⟩

end Decimal

end ZuCpp
