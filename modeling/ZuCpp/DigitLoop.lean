import ZuCpp.Decimal
import ZuCpp.Lib.Run

/-!
# The digit loop of `digits128`

One turn of the loop divides a number of 128 bits by ten with words of 64 bits.  `turn` has
the words it computes on the way, and `Turn.Fits` says that none of them is too wide: the
two quotients of the low half are limbs of 32 bits, and a carry is below ten, so shifted up
it has 36 bits and nothing below the thirty-third.

`digit_loop_exact` is the loop: each turn takes the last digit off the number, and the
loop ends after as many turns as the number has digits, which is never more than 39.
-/

namespace ZuCpp

open Lib

/-- The words of one turn of the loop, in the order in which it computes them. -/
structure Turn where
  carryHigh : UInt64
  top : UInt64
  qTop : UInt64
  carryTop : UInt64
  bottom : UInt64
  qBottom : UInt64
  carry : UInt64
  deriving DecidableEq, Repr

def turn (high low : UInt64) : Turn :=
  let carryHigh := high % 10
  let top := carryHigh <<< 32 ||| low >>> 32
  let carryTop := top % 10
  let bottom := carryTop <<< 32 ||| low &&& 0xffffffff
  { carryHigh, top, qTop := top / 10, carryTop, bottom, qBottom := bottom / 10,
    carry := bottom % 10 }

theorem digitRound_eq (high low : UInt64) : digitRound high low
    = (high / 10, (turn high low).qTop <<< 32 ||| (turn high low).qBottom,
      (turn high low).carry) := rfl

/-! ### No bit is lost -/

/-- `(a << 32) | b` loses no bit of `a`, and the two have none in common. -/
structure Glued (a b : UInt64) : Prop where
  shift : (a <<< 32).toNat = a.toNat * 2 ^ 32
  apart : a <<< 32 &&& b = 0
  join : (a <<< 32 ||| b).toNat = a.toNat * 2 ^ 32 + b.toNat

theorem glued {a b : UInt64} (ha : a.toNat < 2 ^ 32) (hb : b.toNat < 2 ^ 32) : Glued a b := by
  refine ⟨(toNat_shift ha).trans (Nat.shiftLeft_eq _ _), ?_, toNat_join ha hb⟩
  rw [← UInt64.toNat_inj, UInt64.toNat_and, toNat_shift ha, shiftLeft_and_eq_zero hb]
  rfl

/-- None of the words of the turn is too wide, and its shifts and ors lose nothing. -/
structure Turn.Fits (t : Turn) (low : UInt64) : Prop where
  /-- the partial quotients -/
  qTop : t.qTop.toNat < 2 ^ 32
  qBottom : t.qBottom.toNat < 2 ^ 32
  /-- the shifted carries -/
  carryHigh : (t.carryHigh <<< 32).toNat < 2 ^ 36
  carryTop : (t.carryTop <<< 32).toNat < 2 ^ 36
  /-- the three places where a word is shifted up and another is put below it -/
  top : Glued t.carryHigh (low >>> 32)
  bottom : Glued t.carryTop (low &&& 0xffffffff)
  low : Glued t.qTop t.qBottom

theorem toNat_mod_ten_lt (a : UInt64) : (a % 10).toNat < 10 := by
  have h : (a % 10).toNat = a.toNat % 10 := UInt64.toNat_mod a 10
  omega

theorem shifted_carry_lt {carry : UInt64} (h : carry.toNat < 10) :
    (carry <<< 32).toNat < 2 ^ 36 := by
  rw [toNat_shift (by omega), Nat.shiftLeft_eq]
  omega

theorem turn_fits (high low : UInt64) : (turn high low).Fits low := by
  have hlow := low.toNat_lt
  have hupper : (low >>> 32).toNat < 2 ^ 32 := by rw [toNat_high_half]; omega
  have hlower : (low &&& 0xffffffff).toNat < 2 ^ 32 := by rw [toNat_low_half]; omega
  have hcarryHigh : (turn high low).carryHigh.toNat < 10 := toNat_mod_ten_lt _
  have hcarryTop : (turn high low).carryTop.toNat < 10 := toNat_mod_ten_lt _
  have hqTop : (turn high low).qTop.toNat < 2 ^ 32 := (limb_step _ _ hcarryHigh hupper).2.1
  have hqBottom : (turn high low).qBottom.toNat < 2 ^ 32 := (limb_step _ _ hcarryTop hlower).2.1
  exact ⟨hqTop, hqBottom, shifted_carry_lt hcarryHigh, shifted_carry_lt hcarryTop,
    glued (by omega) hupper, glued (by omega) hlower, glued hqTop hqBottom⟩

/-! ### The turns of the loop -/

structure LoopState where
  high : UInt64
  low : UInt64
  digits : Str
  deriving DecidableEq, Repr

/-- `while (high != 0 || low != 0)`: one turn, when there is one more. -/
def loopStep (s : LoopState) (_ : Unit) : Option LoopState :=
  if s.high ≠ 0 ∨ s.low ≠ 0 then
    let round := digitRound s.high s.low
    some ⟨round.1, round.2.1, s.digits ++ [digitChar round.2.2]⟩
  else none

def LoopState.left (s : LoopState) : Nat := halves s.high s.low

theorem left_ne_zero {s : LoopState} : s.left ≠ 0 ↔ s.high ≠ 0 ∨ s.low ≠ 0 := by
  rw [LoopState.left, ne_eq, halves_eq_zero, not_and_or]

/-- **A turn takes the last digit off the number**, and there is one as long as a digit is
left. -/
theorem loopStep_spec (s : LoopState) :
    if s.left = 0 then loopStep s () = none
    else ∃ t, loopStep s () = some t ∧ t.left = s.left / 10 ∧
      t.digits = s.digits ++ [decimalCode.enc (s.left % 10)] := by
  obtain ⟨hdiv, hmod⟩ := digitRound_spec s.high s.low
  split
  · rename_i h
    exact if_neg (mt left_ne_zero.mpr (not_not.mpr h))
  · rename_i h
    refine ⟨⟨_, _, s.digits ++ [digitChar (digitRound s.high s.low).2.2]⟩,
      if_pos (left_ne_zero.mp h), hdiv, ?_⟩
    dsimp only
    rw [digitChar_eq hmod, LoopState.left]

theorem exec_loopStep (high low : UInt64) (digits : Str) :
    exec loopStep ⟨high, low, digits⟩
        (List.replicate (Nat.digits 10 (halves high low)).length ())
      = some ⟨0, 0, digitLoop high low digits⟩ := by
  induction high, low, digits using digitLoop.induct with
  | case1 high low digits h ih =>
    have hne : halves high low ≠ 0 := left_ne_zero (s := ⟨high, low, digits⟩).mpr h
    rw [Nat.digits_eq_cons_digits_div (by decide) hne, List.length_cons, List.replicate_succ,
      exec_cons, loopStep, if_pos h, Option.bind_some, digitLoop, dif_pos h]
    rw [(digitRound_spec high low).1] at ih
    exact ih
  | case2 high low digits h =>
    rw [not_or, not_not, not_not] at h
    obtain ⟨rfl, rfl⟩ := h
    have hzero : halves 0 0 = 0 := halves_eq_zero.mpr ⟨rfl, rfl⟩
    rw [digitLoop, dif_neg (by decide), hzero, Nat.digits_zero, List.length_nil,
      List.replicate_zero, exec_nil]

theorem digits_length_le (high low : UInt64) : (Nat.digits 10 (halves high low)).length ≤ 39 := by
  have hhigh := high.toNat_lt
  have hlow := low.toNat_lt
  rw [Nat.digits_length_le_iff (by decide), halves]
  omega

/-- **The digit loop is an exact division by ten, again and again.**  On every number of 128
bits a turn leaves the quotient and writes the digit of the remainder, with nothing lost on
the way; and after 39 turns at most there is none left to make. -/
theorem digit_loop_exact (s : LoopState) :
    (halves (digitRound s.high s.low).1 (digitRound s.high s.low).2.1 = s.left / 10 ∧
      digitChar (digitRound s.high s.low).2.2 = decimalCode.enc (s.left % 10)) ∧
    (digitRound s.high s.low = (s.high / 10,
        (turn s.high s.low).qTop <<< 32 ||| (turn s.high s.low).qBottom,
        (turn s.high s.low).carry) ∧
      (turn s.high s.low).Fits s.low) ∧
    (if s.left = 0 then loopStep s () = none
      else ∃ t, loopStep s () = some t ∧ t.left = s.left / 10 ∧
        t.digits = s.digits ++ [decimalCode.enc (s.left % 10)]) ∧
    ∃ n ≤ 39, ∃ t, exec loopStep s (List.replicate n ()) = some t ∧ loopStep t () = none ∧
      t.digits = digitLoop s.high s.low s.digits := by
  obtain ⟨hdiv, hmod⟩ := digitRound_spec s.high s.low
  refine ⟨⟨hdiv, digitChar_eq hmod⟩, ⟨digitRound_eq _ _, turn_fits _ _⟩, loopStep_spec s, ?_⟩
  have hend : ¬ ((0 : UInt64) ≠ 0 ∨ (0 : UInt64) ≠ 0) := by decide
  exact ⟨_, digits_length_le s.high s.low, _, exec_loopStep _ _ s.digits, if_neg hend, rfl⟩

end ZuCpp
