import ZuCpp.Lib.LongDivision
import ZuCpp.Lib.Numeral
import ZuCpp.Lib.Word
import ZuCpp.Text

/-!
# `Decimal` and its text

`zu::Decimal` keeps an exact number as a 128 bit two's complement integer in two
halves and a count of places.  This file has the functions that take it to text,
`magnitude128`, `digits128` and `to_string`, on the machine integers the header
computes with, and connects each to the number it stands for:

* `magnitude128_spec`: the sign comes off, at the most negative value too.
* `digitRound_spec`: one turn of the digit loop is one division by ten.
* `digits128_eq`: the digits are the numeral of the number.
* `toString_eq_fixed`: the text is the fixed-point text of the number.

`toString_lossless` is what follows: the text reads back as the decimal it was
written from.
-/

namespace ZuCpp

open Lib

structure Magnitude where
  hi : UInt64 := 0
  lo : UInt64 := 0
  negative : Bool := false
  deriving DecidableEq, Repr

def magnitude128 (hi : Int64) (lo : UInt64) : Magnitude :=
  let out : Magnitude := ⟨hi.toUInt64, lo, hi < 0⟩
  if out.negative then
    let out := { out with hi := ~~~out.hi }
    let out := { out with lo := ~~~out.lo }
    let out := { out with lo := out.lo + 1 }
    if out.lo = 0 then { out with hi := out.hi + 1 } else out
  else out

/-- One turn of the `while` of `digits128`: `high` and `low` after it, and the carry
that becomes the digit. -/
def digitRound (high low : UInt64) : UInt64 × UInt64 × UInt64 :=
  let carry := high % 10
  let high := high / 10
  let top := carry <<< 32 ||| low >>> 32
  let qTop := top / 10
  let carry := top % 10
  let bottom := carry <<< 32 ||| low &&& 0xffffffff
  let qBottom := bottom / 10
  let carry := bottom % 10
  let low := qTop <<< 32 ||| qBottom
  (high, low, carry)

def digitChar (carry : UInt64) : UInt8 := '0'.toUInt8 + carry.toUInt8

/-- The unsigned number in two halves. -/
def halves (high low : UInt64) : Nat := high.toNat * 2 ^ 64 + low.toNat

def signedHalves (hi : Int64) (lo : UInt64) : Int := hi.toInt * 2 ^ 64 + lo.toNat

/-! ### The sign -/

theorem magnitude128_of_nonneg {hi : Int64} (h : ¬ hi.toInt < 0) (lo : UInt64) :
    magnitude128 hi lo = ⟨hi.toUInt64, lo, false⟩ := by
  have hneg : ¬ hi < 0 := fun hc => h (Int64.lt_iff_toInt_lt.mp hc)
  rw [magnitude128]
  simp only [hneg, decide_false]
  rfl

theorem magnitude128_of_neg {hi : Int64} (h : hi.toInt < 0) (lo : UInt64) :
    magnitude128 hi lo =
      if ~~~lo + 1 = 0 then ⟨~~~hi.toUInt64 + 1, ~~~lo + 1, true⟩
      else ⟨~~~hi.toUInt64, ~~~lo + 1, true⟩ := by
  have hneg : hi < 0 := Int64.lt_iff_toInt_lt.mpr h
  rw [magnitude128]
  simp only [hneg, decide_true, if_true]

/-- **The sign comes off.**  The magnitude is the absolute value of the two's
complement number, the most negative one included. -/
theorem magnitude128_spec (hi : Int64) (lo : UInt64) :
    halves (magnitude128 hi lo).hi (magnitude128 hi lo).lo = (signedHalves hi lo).natAbs ∧
      ((magnitude128 hi lo).negative = true ↔ signedHalves hi lo < 0) := by
  have hu := toNat_toUInt64 hi
  have hlo := lo.toNat_lt
  have hhi := hi.toUInt64.toNat_lt
  have hge := Int64.le_toInt hi
  by_cases hneg : hi.toInt < 0
  · rw [if_pos hneg] at hu
    have hnot : (~~~lo).toNat = 2 ^ 64 - 1 - lo.toNat := UInt64.toNat_not lo
    have hnoth : (~~~hi.toUInt64).toNat = 2 ^ 64 - 1 - hi.toUInt64.toNat :=
      UInt64.toNat_not hi.toUInt64
    have hinc : (~~~lo + 1).toNat = ((~~~lo).toNat + 1) % 2 ^ 64 := UInt64.toNat_add _ _
    rw [magnitude128_of_neg hneg]
    by_cases hz : ~~~lo + 1 = 0
    · -- the low half was zero, so the carry reaches the high half
      have hzero : (~~~lo + 1).toNat = 0 := by rw [hz]; rfl
      have hinch : (~~~hi.toUInt64 + 1).toNat = ((~~~hi.toUInt64).toNat + 1) % 2 ^ 64 :=
        UInt64.toNat_add _ _
      rw [if_pos hz]
      simp only [halves, signedHalves, true_iff]
      omega
    · have hne : (~~~lo + 1).toNat ≠ 0 := fun hc => hz (UInt64.toNat_inj.mp hc)
      rw [if_neg hz]
      simp only [halves, signedHalves, true_iff]
      omega
  · rw [if_neg hneg] at hu
    rw [magnitude128_of_nonneg hneg]
    simp only [halves, signedHalves, Bool.false_eq_true, false_iff]
    omega

/-! ### The digits -/

theorem toNat_shift {a : UInt64} (ha : a.toNat < 2 ^ 32) : (a <<< 32).toNat = a.toNat <<< 32 := by
  rw [UInt64.toNat_shiftLeft, show (32 : UInt64).toNat % 64 = 32 from rfl,
    Nat.mod_eq_of_lt (by rw [Nat.shiftLeft_eq]; omega)]

theorem toNat_join {a b : UInt64} (ha : a.toNat < 2 ^ 32) (hb : b.toNat < 2 ^ 32) :
    (a <<< 32 ||| b).toNat = a.toNat * 2 ^ 32 + b.toNat := by
  rw [UInt64.toNat_or, toNat_shift ha, shiftLeft_or_eq hb]

theorem toNat_low_half (a : UInt64) : (a &&& 0xffffffff).toNat = a.toNat % 2 ^ 32 := by
  rw [UInt64.toNat_and, show (0xffffffff : UInt64).toNat = 2 ^ 32 - 1 from rfl,
    Nat.and_two_pow_sub_one_eq_mod]

theorem toNat_high_half (a : UInt64) : (a >>> 32).toNat = a.toNat / 2 ^ 32 := by
  rw [UInt64.toNat_shiftRight, show (32 : UInt64).toNat % 64 = 32 from rfl,
    Nat.shiftRight_eq_div_pow]

/-- One step of the long division in `digitRound`: a 32 bit limb with a carry below ten
in front of it has a 32 bit quotient, and the carry out is below ten again. -/
theorem limb_step (carry limb : UInt64) (hc : carry.toNat < 10) (hl : limb.toNat < 2 ^ 32) :
    ((carry <<< 32 ||| limb) / 10).toNat = (carry.toNat * 2 ^ 32 + limb.toNat) / 10 ∧
      ((carry <<< 32 ||| limb) / 10).toNat < 2 ^ 32 ∧
      ((carry <<< 32 ||| limb) % 10).toNat = (carry.toNat * 2 ^ 32 + limb.toNat) % 10 := by
  have hj : (carry <<< 32 ||| limb).toNat = carry.toNat * 2 ^ 32 + limb.toNat :=
    toNat_join (by omega) hl
  have hq := carry_div_lt hc hl
  rw [UInt64.toNat_div, UInt64.toNat_mod, hj]
  exact ⟨rfl, hq, rfl⟩

/-- **One turn of the loop is one division by ten** of the number in the two halves,
and the carry is the remainder. -/
theorem digitRound_spec (high low : UInt64) :
    halves (digitRound high low).1 (digitRound high low).2.1 = halves high low / 10 ∧
      (digitRound high low).2.2.toNat = halves high low % 10 := by
  have hlow := low.toNat_lt
  -- the high half, then the two halves of the low one
  have hc₀ : (high % 10).toNat = high.toNat % 10 := UInt64.toNat_mod high 10
  have hq₀ : (high / 10).toNat = high.toNat / 10 := UInt64.toNat_div high 10
  have hlt₀ : (high % 10).toNat < 10 := by omega
  obtain ⟨hq₁, hlt₁, hc₁⟩ := limb_step (high % 10) (low >>> 32) hlt₀
    (by rw [toNat_high_half]; omega)
  have hlt₁' : (((high % 10) <<< 32 ||| low >>> 32) % 10).toNat < 10 := by rw [hc₁]; omega
  obtain ⟨hq₂, hlt₂, hc₂⟩ := limb_step _ (low &&& 0xffffffff) hlt₁'
    (by rw [toNat_low_half]; omega)
  have hjoin := toNat_join hlt₁ hlt₂
  have hsplit : halves high low
      = (high.toNat * 2 ^ 32 + low.toNat / 2 ^ 32) * 2 ^ 32 + low.toNat % 2 ^ 32 := by
    rw [halves]; omega
  have hdiv₁ := div_limbs (d := 10) (by decide) (2 ^ 32) (high.toNat * 2 ^ 32 + low.toNat / 2 ^ 32)
    (low.toNat % 2 ^ 32)
  have hdiv₀ := div_limbs (d := 10) (by decide) (2 ^ 32) high.toNat (low.toNat / 2 ^ 32)
  have hmod₁ := mod_limbs 10 (2 ^ 32) (high.toNat * 2 ^ 32 + low.toNat / 2 ^ 32)
    (low.toNat % 2 ^ 32)
  have hmod₀ := mod_limbs 10 (2 ^ 32) high.toNat (low.toNat / 2 ^ 32)
  rw [toNat_high_half, hc₀] at hq₁ hc₁
  rw [toNat_low_half, hc₁] at hq₂ hc₂
  rw [hsplit]
  refine ⟨?_, ?_⟩
  · show (high / 10).toNat * 2 ^ 64 + (((_ : UInt64) / 10) <<< 32 ||| (_ : UInt64) / 10).toNat = _
    rw [hjoin, hq₀, hq₁, hq₂, hdiv₁, hdiv₀, ← hmod₀]
    ring
  · show (_ % 10 : UInt64).toNat = _
    rw [hc₂, hmod₁, hmod₀]

/-- The `while` of `digits128`, from the halves `high` and `low` and the digits so
far. -/
def digitLoop (high low : UInt64) (digits : Str) : Str :=
  if _h : high ≠ 0 ∨ low ≠ 0 then
    digitLoop (digitRound high low).1 (digitRound high low).2.1
      (digits ++ [digitChar (digitRound high low).2.2])
  else digits
termination_by halves high low
decreasing_by
  rw [(digitRound_spec high low).1]
  refine Nat.div_lt_self ?_ (by decide)
  rcases _h with h | h
  · have : high.toNat ≠ 0 := fun hc => h (UInt64.toNat_inj.mp hc)
    rw [halves]; omega
  · have : low.toNat ≠ 0 := fun hc => h (UInt64.toNat_inj.mp hc)
    rw [halves]; omega

def digits128 (hi : Int64) (lo : UInt64) : Str :=
  let m := magnitude128 hi lo
  let negative := m.negative
  let digits := digitLoop m.hi m.lo []
  if digits.isEmpty then ascii "0"
  else
    let digits := if negative then digits ++ ascii "-" else digits
    digits.reverse

def decimalCode : FixedCode 10 UInt8 where
  one_lt := by decide
  enc d := '0'.toUInt8 + UInt8.ofNat d
  dec c := if '0'.toUInt8 ≤ c ∧ c ≤ '9'.toUInt8 then some (c - '0'.toUInt8).toNat else none
  minus := '-'.toUInt8
  point := '.'.toUInt8
  dec_enc := by decide
  dec_minus := by decide
  dec_point := by decide

theorem halves_eq_zero {high low : UInt64} : halves high low = 0 ↔ high = 0 ∧ low = 0 := by
  rw [← UInt64.toNat_inj, ← UInt64.toNat_inj, halves]
  show high.toNat * 2 ^ 64 + low.toNat = 0 ↔ high.toNat = 0 ∧ low.toNat = 0
  omega

theorem digitChar_eq {carry : UInt64} {n : Nat} (h : carry.toNat = n) :
    digitChar carry = decimalCode.enc n := by
  subst h
  rfl

/-- The loop appends the digits of the number, least significant first. -/
theorem digitLoop_eq (high low : UInt64) (digits : Str) :
    digitLoop high low digits
      = digits ++ (Nat.digits 10 (halves high low)).map decimalCode.enc := by
  induction high, low, digits using digitLoop.induct with
  | case1 high low digits h ih =>
    rw [digitLoop, dif_pos h, ih]
    obtain ⟨hdiv, hmod⟩ := digitRound_spec high low
    have hne : halves high low ≠ 0 := fun hz => by
      obtain ⟨h₁, h₂⟩ := halves_eq_zero.mp hz
      exact h.elim (· h₁) (· h₂)
    rw [hdiv, digitChar_eq hmod, Nat.digits_eq_cons_digits_div (by decide) hne, List.map_cons,
      List.append_assoc, List.singleton_append]
  | case2 high low digits h =>
    rw [digitLoop, dif_neg h]
    have hz : halves high low = 0 := halves_eq_zero.mpr (by
      rw [not_or, not_not, not_not] at h
      exact h)
    rw [hz, Nat.digits_zero, List.map_nil, List.append_nil]

/-- **The digits are the numeral of the number**, with a minus in front exactly when
it is negative. -/
theorem digits128_eq (hi : Int64) (lo : UInt64) :
    digits128 hi lo = (if signedHalves hi lo < 0 then [decimalCode.minus] else [])
      ++ decimalCode.numeral (signedHalves hi lo).natAbs := by
  obtain ⟨hmag, hneg⟩ := magnitude128_spec hi lo
  have hloop := digitLoop_eq (magnitude128 hi lo).hi (magnitude128 hi lo).lo []
  rw [hmag, List.nil_append] at hloop
  rw [digits128]
  simp only [hloop]
  by_cases hz : (signedHalves hi lo).natAbs = 0
  · have hpos : ¬ signedHalves hi lo < 0 := by omega
    rw [hz, if_neg hpos, Nat.digits_zero, FixedCode.numeral, if_pos rfl]
    rfl
  · have hne : Nat.digits 10 (signedHalves hi lo).natAbs ≠ [] :=
      Nat.digits_ne_nil_iff_ne_zero.mpr hz
    rw [FixedCode.numeral, if_neg hz,
      if_neg (by rw [List.isEmpty_map, List.isEmpty_iff]; exact hne)]
    by_cases hlt : signedHalves hi lo < 0
    · rw [if_pos (hneg.mpr hlt), if_pos hlt, List.reverse_append, List.map_reverse]
      rfl
    · rw [if_neg fun h => hlt (hneg.mp h), if_neg hlt, List.map_reverse]
      rfl

/-! ### The text -/

structure Decimal where
  hi : Int64 := 0
  lo : UInt64 := 0
  scale : Int32 := 0
  deriving DecidableEq, Repr

namespace Decimal

def toString (d : Decimal) : Str :=
  let out := digits128 d.hi d.lo
  let negative := !out.isEmpty && out.head? = some '-'.toUInt8
  let digits := if negative then out.drop 1 else out
  if d.scale ≤ 0 then out
  else
    let places := d.scale.toInt.toNat
    let front := ascii (if negative then "-" else "")
    if places ≥ digits.length then
      front ++ ascii "0." ++ List.replicate (places - digits.length) '0'.toUInt8 ++ digits
    else
      let cut := digits.length - places
      front ++ digits.take cut ++ ascii "." ++ digits.drop cut

/-- The unscaled integer: the two halves as one two's complement number. -/
def val (d : Decimal) : Int := signedHalves d.hi d.lo

def places (d : Decimal) : Nat := d.scale.toInt.toNat

/-- The decimal of `n` units with `k` places: the halves of the integer, and the
scale. -/
def ofUnits (n : Int) (k : Nat) : Decimal :=
  ⟨Int64.ofInt (n / 2 ^ 64), UInt64.ofNat (n % 2 ^ 64).toNat, Int32.ofInt k⟩

theorem ofUnits_val {d : Decimal} (h : 0 ≤ d.scale) : ofUnits d.val d.places = d := by
  have hlo := d.lo.toNat_lt
  have hscale : (0 : Int) ≤ d.scale.toInt := Int32.le_iff_toInt_le.mp h
  have hdiv : d.val / 2 ^ 64 = d.hi.toInt := by rw [val, signedHalves]; omega
  have hmod : (d.val % 2 ^ 64).toNat = d.lo.toNat := by rw [val, signedHalves]; omega
  have hplaces : ((d.places : Nat) : Int) = d.scale.toInt := by rw [places]; omega
  rw [ofUnits, hdiv, hmod, hplaces, Int64.ofInt_toInt, UInt64.ofNat_toNat, Int32.ofInt_toInt]

/-- The minus that `to_string` looks for in front of the digits is there exactly when
the number is negative, and without it they are the numeral. -/
theorem digits128_front (hi : Int64) (lo : UInt64) :
    ((!(digits128 hi lo).isEmpty && (digits128 hi lo).head? = some '-'.toUInt8) = true
        ↔ signedHalves hi lo < 0) ∧
      (if signedHalves hi lo < 0 then (digits128 hi lo).drop 1 else digits128 hi lo)
        = decimalCode.numeral (signedHalves hi lo).natAbs := by
  rw [digits128_eq]
  by_cases hneg : signedHalves hi lo < 0
  · rw [if_pos hneg, if_pos hneg, iff_true_right hneg]
    exact ⟨rfl, rfl⟩
  · rw [if_neg hneg, if_neg hneg, iff_false_right hneg, List.nil_append]
    refine ⟨?_, rfl⟩
    cases hds : decimalCode.numeral (signedHalves hi lo).natAbs with
    | nil => exact absurd hds (decimalCode.numeral_ne_nil _)
    | cons c cs =>
      have hc : decimalCode.IsDigit c :=
        decimalCode.numeral_isDigit (signedHalves hi lo).natAbs c (by rw [hds]; exact .head _)
      have hne : c ≠ '-'.toUInt8 := hc.ne_minus
      simpa using hne

/-- **`to_string` writes the fixed-point text** of the unscaled integer with `scale`
digits after the point. -/
theorem toString_eq_fixed {d : Decimal} (h : 0 ≤ d.scale) :
    d.toString = decimalCode.fixed d.val d.places := by
  have hscale : (0 : Int) ≤ d.scale.toInt := Int32.le_iff_toInt_le.mp h
  have hle : d.scale ≤ 0 ↔ d.places = 0 := by
    rw [Int32.le_iff_toInt_le, places]
    show d.scale.toInt ≤ 0 ↔ _
    omega
  obtain ⟨hfront, hdigits⟩ := digits128_front d.hi d.lo
  have hneg : (!(digits128 d.hi d.lo).isEmpty
      && (digits128 d.hi d.lo).head? = some '-'.toUInt8) = decide (d.val < 0) := by
    rw [Bool.eq_iff_iff, hfront, decide_eq_true_iff, val]
  have hsign : ascii (if d.val < 0 then "-" else "")
      = if d.val < 0 then [decimalCode.minus] else [] := by split <;> rfl
  rw [toString]
  simp only [hneg, decide_eq_true_eq]
  rw [show (if d.val < 0 then (digits128 d.hi d.lo).drop 1 else digits128 d.hi d.lo)
    = decimalCode.numeral d.val.natAbs from hdigits, FixedCode.fixed, hsign]
  by_cases hk : d.places = 0
  · rw [if_pos (hle.mpr hk), if_pos hk, digits128_eq]
    rfl
  · rw [if_neg (mt hle.mp hk), if_neg hk, FixedCode.split, ← places]
    by_cases hlen : (decimalCode.numeral d.val.natAbs).length ≤ d.places
    · -- all fraction: `0.`, and zeros in front of the digits
      rw [if_pos hlen, if_pos hlen, List.append_assoc, List.append_assoc]
      rfl
    · rw [if_neg hlen, if_neg hlen, List.splitAt_eq, List.append_assoc, List.append_assoc]
      rfl

/-- The text of a fixed-point number, spelled out: an optional minus, an integer part
with at least one digit and no superfluous zero in front, and a point with exactly
`k` digits behind it unless `k` is zero. -/
theorem fixed_form (n : Int) (k : Nat) : ∃ int frac : Str,
    decimalCode.fixed n k = (if n < 0 then [decimalCode.minus] else []) ++ int
        ++ (if k = 0 then [] else decimalCode.point :: frac) ∧
      frac.length = k ∧ int ≠ [] ∧ (∀ cs, int = decimalCode.enc 0 :: cs → cs = []) ∧
      ∀ c ∈ int ++ frac, decimalCode.IsDigit c := by
  by_cases hk : k = 0
  · refine ⟨decimalCode.numeral n.natAbs, [], ?_, hk.symm, decimalCode.numeral_ne_nil _,
      fun cs h => decimalCode.numeral_head_zero h, ?_⟩
    · rw [FixedCode.fixed, if_pos hk, if_pos hk, List.append_nil]
    · rw [List.append_nil]
      exact decimalCode.numeral_isDigit _
  · obtain ⟨hint, hfrac⟩ := decimalCode.split_isDigit (decimalCode.numeral_isDigit n.natAbs) k
    refine ⟨(decimalCode.split (decimalCode.numeral n.natAbs) k).1,
      (decimalCode.split (decimalCode.numeral n.natAbs) k).2, ?_,
      decimalCode.split_snd_length _ _, decimalCode.split_fst_ne_nil _ _,
      fun cs h => decimalCode.split_numeral_head_zero h, fun c hc => ?_⟩
    · rw [FixedCode.fixed, if_neg hk, if_neg hk, List.append_assoc]
    · exact (List.mem_append.mp hc).elim (hint c) (hfrac c)

/-- **Printing a decimal loses nothing.**  The text has the form `[-]digits` or
`[-]digits.fraction`, with a minus exactly when the unscaled integer is negative and
exactly `scale` digits in the fraction; it reads back as the units and the places of
the decimal, which are the decimal; and no other decimal has it. -/
theorem toString_lossless (d : Decimal) (h : 0 ≤ d.scale) :
    (∃ int frac : Str,
      d.toString = (if d.val < 0 then [decimalCode.minus] else []) ++ int
          ++ (if d.places = 0 then [] else decimalCode.point :: frac) ∧
        frac.length = d.places ∧ int ≠ [] ∧ (∀ cs, int = decimalCode.enc 0 :: cs → cs = []) ∧
        ∀ c ∈ int ++ frac, decimalCode.IsDigit c) ∧
      decimalCode.readFixed d.toString = some (d.val, d.places) ∧
      ofUnits d.val d.places = d ∧
      ∀ d' : Decimal, 0 ≤ d'.scale → d'.toString = d.toString → d' = d := by
  rw [toString_eq_fixed h]
  refine ⟨fixed_form _ _, decimalCode.readFixed_fixed _ _, ofUnits_val h, ?_⟩
  intro d' h' heq
  rw [toString_eq_fixed h'] at heq
  obtain ⟨hval, hplaces⟩ := decimalCode.fixed_injective heq
  rw [← ofUnits_val h', hval, hplaces, ofUnits_val h]

theorem toString_lossless_lowest :
    decimalCode.readFixed (toString ⟨Int64.minValue, 0, 3⟩) = some (-2 ^ 127, 3) := by
  have h := (toString_lossless ⟨Int64.minValue, 0, 3⟩ (by decide)).2.1
  rwa [show val ⟨Int64.minValue, 0, 3⟩ = -2 ^ 127 by decide,
    show places ⟨Int64.minValue, 0, 3⟩ = 3 by decide] at h

end Decimal

end ZuCpp
