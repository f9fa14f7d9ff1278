import Mathlib.Data.Nat.Digits.Lemmas
import Mathlib.Data.List.TakeWhile

/-!
# Numerals in a base, and fixed-point texts

A `FixedCode b κ` says how the digits below `b`, a minus and a point are written as
characters of the type `κ`.  Over it:

* `numeral n` is the numeral of `n` with no superfluous zero in front, and `read`
  takes a string of digits back to its number.
* `fixed n k` is the text of `n` units of which the last `k` digits stand after a
  point, and `readFixed` takes such a text back to `n` and `k`.

`readFixed_fixed` is the round trip: the text keeps the units and the number of
places, so `fixed` is injective (`fixed_injective`).
-/

namespace ZuCpp.Lib

/-- The characters of a positional notation in base `b`. -/
structure FixedCode (b : Nat) (κ : Type*) where
  one_lt : 1 < b
  enc : Nat → κ
  dec : κ → Option Nat
  minus : κ
  point : κ
  dec_enc : ∀ d, d < b → dec (enc d) = some d
  dec_minus : dec minus = none
  dec_point : dec point = none

namespace FixedCode

variable {b : Nat} {κ : Type*} (C : FixedCode b κ)

/-! ### Strings of digits -/

def readFrom : Nat → List κ → Option Nat
  | n, [] => some n
  | n, c :: cs => (C.dec c).bind fun d => readFrom (n * b + d) cs

def read (cs : List κ) : Option Nat := C.readFrom 0 cs

def IsDigit (c : κ) : Prop := ∃ d, d < b ∧ c = C.enc d

theorem enc_zero_isDigit : C.IsDigit (C.enc 0) :=
  ⟨0, Nat.lt_trans Nat.zero_lt_one C.one_lt, rfl⟩

theorem IsDigit.dec_ne_none {C : FixedCode b κ} {c : κ} (h : C.IsDigit c) : C.dec c ≠ none := by
  obtain ⟨d, hd, rfl⟩ := h
  rw [C.dec_enc d hd]
  exact Option.some_ne_none d

theorem IsDigit.ne_minus {C : FixedCode b κ} {c : κ} (h : C.IsDigit c) : c ≠ C.minus :=
  fun he => h.dec_ne_none (he ▸ C.dec_minus)

theorem IsDigit.ne_point {C : FixedCode b κ} {c : κ} (h : C.IsDigit c) : c ≠ C.point :=
  fun he => h.dec_ne_none (he ▸ C.dec_point)

theorem readFrom_append (xs ys : List κ) : ∀ n : Nat,
    C.readFrom n (xs ++ ys) = (C.readFrom n xs).bind fun m => C.readFrom m ys := by
  induction xs with
  | nil => intro n; rfl
  | cons x xs ih =>
    intro n
    rw [List.cons_append, readFrom, readFrom]
    cases C.dec x with
    | none => rfl
    | some d => exact ih _

/-- Digits read onto `n` shift it up by their number of places. -/
theorem readFrom_reverse_map (ds : List Nat) (hds : ∀ d ∈ ds, d < b) (n : Nat) :
    C.readFrom n (ds.reverse.map C.enc) = some (n * b ^ ds.length + Nat.ofDigits b ds) := by
  induction ds with
  | nil => simp [readFrom]
  | cons d ds ih =>
    have hd := hds d List.mem_cons_self
    rw [List.reverse_cons, List.map_append, readFrom_append,
      ih fun e he => hds e (List.mem_cons_of_mem d he), Option.bind_some, List.map_singleton,
      readFrom, C.dec_enc d hd, Option.bind_some, readFrom, Nat.ofDigits_cons, List.length_cons,
      pow_succ]
    congr 1
    ring

/-! ### The numeral of a number -/

/-- The digits of `n`, most significant first; a single zero for zero. -/
def numeral (n : Nat) : List κ :=
  if n = 0 then [C.enc 0] else (Nat.digits b n).reverse.map C.enc

theorem numeral_ne_nil (n : Nat) : C.numeral n ≠ [] := by
  rw [numeral]
  split
  · exact List.cons_ne_nil _ _
  · rename_i h
    rw [ne_eq, List.map_eq_nil_iff, List.reverse_eq_nil_iff]
    exact Nat.digits_ne_nil_iff_ne_zero.mpr h

theorem numeral_isDigit (n : Nat) : ∀ c ∈ C.numeral n, C.IsDigit c := by
  intro c hc
  rw [numeral] at hc
  split at hc
  · rw [List.mem_singleton] at hc
    exact hc ▸ C.enc_zero_isDigit
  · obtain ⟨d, hd, rfl⟩ := List.mem_map.mp hc
    exact ⟨d, Nat.digits_lt_base C.one_lt (List.mem_reverse.mp hd), rfl⟩

theorem readFrom_numeral (n : Nat) : C.readFrom 0 (C.numeral n) = some n := by
  rw [numeral]
  split
  · rename_i h
    subst h
    rw [readFrom, C.dec_enc 0 (Nat.lt_trans Nat.zero_lt_one C.one_lt), Option.bind_some,
      Nat.zero_mul]
    rfl
  · rw [readFrom_reverse_map C _ fun d hd => Nat.digits_lt_base C.one_lt hd, Nat.zero_mul,
      Nat.zero_add, Nat.ofDigits_digits]

/-- **No superfluous zero in front**: a numeral that starts with the digit zero is
that digit alone. -/
theorem numeral_head_zero {n : Nat} {cs : List κ} (h : C.numeral n = C.enc 0 :: cs) : cs = [] := by
  rw [numeral] at h
  split at h
  · exact (List.cons.inj h).2.symm
  · rename_i hn
    have hne : Nat.digits b n ≠ [] := Nat.digits_ne_nil_iff_ne_zero.mpr hn
    obtain ⟨ds, hds⟩ : ∃ ds, (Nat.digits b n).reverse = (Nat.digits b n).getLast hne :: ds := by
      refine ⟨(Nat.digits b n).dropLast.reverse, ?_⟩
      conv_lhs => rw [← List.dropLast_append_getLast hne, List.reverse_append]
      rfl
    rw [hds, List.map_cons] at h
    have hlt := Nat.digits_lt_base C.one_lt (List.getLast_mem hne)
    have hzero : (Nat.digits b n).getLast hne = 0 := by
      have := C.dec_enc _ hlt
      rw [(List.cons.inj h).1, C.dec_enc 0 (Nat.lt_trans Nat.zero_lt_one C.one_lt)] at this
      exact (Option.some.inj this).symm
    exact absurd hzero (Nat.getLast_digit_ne_zero b hn)

/-! ### The point -/

/-- The digits `ds` with the last `k` of them after the point: what stands before it
and what stands after it, with zeros in front when there are too few digits. -/
def split (ds : List κ) (k : Nat) : List κ × List κ :=
  if ds.length ≤ k then ([C.enc 0], List.replicate (k - ds.length) (C.enc 0) ++ ds)
  else ds.splitAt (ds.length - k)

theorem split_snd_length (ds : List κ) (k : Nat) : (C.split ds k).2.length = k := by
  rw [split]
  split
  · simp; omega
  · simp; omega

theorem split_fst_ne_nil (ds : List κ) (k : Nat) : (C.split ds k).1 ≠ [] := by
  rw [split]
  split
  · exact List.cons_ne_nil _ _
  · rw [List.splitAt_eq]
    intro h
    have := congrArg List.length h
    simp at this
    omega

theorem split_isDigit {ds : List κ} (h : ∀ c ∈ ds, C.IsDigit c) (k : Nat) :
    (∀ c ∈ (C.split ds k).1, C.IsDigit c) ∧ ∀ c ∈ (C.split ds k).2, C.IsDigit c := by
  rw [split]
  split
  · refine ⟨?_, ?_⟩
    · intro c hc
      rw [List.mem_singleton] at hc
      exact hc ▸ C.enc_zero_isDigit
    · intro c hc
      rcases List.mem_append.mp hc with hz | hd
      · exact List.eq_of_mem_replicate hz ▸ C.enc_zero_isDigit
      · exact h c hd
  · rw [List.splitAt_eq]
    exact ⟨fun c hc => h c (List.mem_of_mem_take hc), fun c hc => h c (List.mem_of_mem_drop hc)⟩

theorem readFrom_replicate_zero (k : Nat) (cs : List κ) :
    C.readFrom 0 (List.replicate k (C.enc 0) ++ cs) = C.readFrom 0 cs := by
  induction k with
  | zero => rfl
  | succ k ih =>
    rw [List.replicate_succ, List.cons_append, readFrom,
      C.dec_enc 0 (Nat.lt_trans Nat.zero_lt_one C.one_lt), Option.bind_some, Nat.zero_mul]
    exact ih

theorem readFrom_split (ds : List κ) (k : Nat) :
    C.readFrom 0 ((C.split ds k).1 ++ (C.split ds k).2) = C.readFrom 0 ds := by
  rw [split]
  split
  · rw [show [C.enc 0] ++ (List.replicate (k - ds.length) (C.enc 0) ++ ds)
      = List.replicate (k - ds.length + 1) (C.enc 0) ++ ds by
        rw [List.replicate_succ, List.cons_append]; rfl]
    exact C.readFrom_replicate_zero _ _
  · rw [List.splitAt_eq, List.take_append_drop]

/-- What stands before the point has no superfluous zero in front. -/
theorem split_numeral_head_zero {n k : Nat} {cs : List κ}
    (h : (C.split (C.numeral n) k).1 = C.enc 0 :: cs) : cs = [] := by
  rw [split] at h
  split at h
  · exact (List.cons.inj h).2.symm
  · rename_i hlen
    rw [List.splitAt_eq] at h
    cases hds : C.numeral n with
    | nil => exact absurd hds (C.numeral_ne_nil n)
    | cons d ds =>
      rw [hds] at h hlen
      rw [List.length_cons] at h hlen
      obtain ⟨j, hj⟩ : ∃ j, ds.length + 1 - k = j + 1 := ⟨ds.length - k, by omega⟩
      rw [hj, List.take_succ_cons] at h
      obtain ⟨hd, hcs⟩ := List.cons.inj h
      rw [hd] at hds
      rw [C.numeral_head_zero hds, List.take_nil] at hcs
      exact hcs.symm

/-! ### The text of a fixed-point number -/

def fixed (n : Int) (k : Nat) : List κ :=
  (if n < 0 then [C.minus] else []) ++
    if k = 0 then C.numeral n.natAbs
    else (C.split (C.numeral n.natAbs) k).1 ++ C.point :: (C.split (C.numeral n.natAbs) k).2

theorem fixed_unsigned_head (n k : Nat) : ∃ c cs, C.IsDigit c ∧
    (if k = 0 then C.numeral n
      else (C.split (C.numeral n) k).1 ++ C.point :: (C.split (C.numeral n) k).2) = c :: cs := by
  by_cases hk : k = 0
  · rw [if_pos hk]
    cases hds : C.numeral n with
    | nil => exact absurd hds (C.numeral_ne_nil n)
    | cons c cs => exact ⟨c, cs, C.numeral_isDigit n c (by rw [hds]; exact List.mem_cons_self), rfl⟩
  · rw [if_neg hk]
    cases hds : (C.split (C.numeral n) k).1 with
    | nil => exact absurd hds (C.split_fst_ne_nil _ k)
    | cons c cs =>
      exact ⟨c, _, (C.split_isDigit (C.numeral_isDigit n) k).1 c
        (by rw [hds]; exact List.mem_cons_self), rfl⟩

variable [DecidableEq κ]

/-- Reads a text without a sign: digits, and after a point, if there is one, more
digits.  Answers the units and how many digits stood after the point. -/
def readUnsigned (cs : List κ) : Option (Nat × Nat) :=
  let int := cs.takeWhile (· ≠ C.point)
  let frac := (cs.dropWhile (· ≠ C.point)).tail
  (C.read (int ++ frac)).map fun n => (n, frac.length)

/-- Reads a fixed-point text: the units, exactly, and the number of places. -/
def readFixed : List κ → Option (Int × Nat)
  | [] => none
  | c :: cs =>
    if c = C.minus then (C.readUnsigned cs).map fun r => (-(r.1 : Int), r.2)
    else (C.readUnsigned (c :: cs)).map fun r => ((r.1 : Int), r.2)

theorem takeWhile_ne_point {cs : List κ} (h : ∀ c ∈ cs, C.IsDigit c) (tail : List κ) :
    (cs ++ C.point :: tail).takeWhile (· ≠ C.point) = cs ∧
      (cs ++ C.point :: tail).dropWhile (· ≠ C.point) = C.point :: tail := by
  induction cs with
  | nil => simp
  | cons c cs ih =>
    have hc := (h c List.mem_cons_self).ne_point
    have := ih fun d hd => h d (List.mem_cons_of_mem c hd)
    simp only [List.cons_append, List.takeWhile_cons, List.dropWhile_cons, hc, ne_eq,
      not_false_eq_true, decide_true, if_true]
    exact ⟨congrArg (c :: ·) this.1, this.2⟩

theorem readUnsigned_digits {cs : List κ} (h : ∀ c ∈ cs, C.IsDigit c) :
    C.readUnsigned cs = (C.read cs).map fun n => (n, 0) := by
  have hall : ∀ c ∈ cs, decide (c ≠ C.point) = true := fun c hc => by
    simpa using (h c hc).ne_point
  have ht : cs.takeWhile (· ≠ C.point) = cs := List.takeWhile_eq_self_iff.mpr hall
  have hd : cs.dropWhile (· ≠ C.point) = [] := List.dropWhile_eq_nil_iff.mpr hall
  rw [readUnsigned, ht, hd, List.tail_nil, List.append_nil, List.length_nil]

theorem readUnsigned_point {int frac : List κ} (h : ∀ c ∈ int, C.IsDigit c) :
    C.readUnsigned (int ++ C.point :: frac)
      = (C.read (int ++ frac)).map fun n => (n, frac.length) := by
  obtain ⟨ht, hd⟩ := C.takeWhile_ne_point h frac
  rw [readUnsigned, ht, hd, List.tail_cons]

/-- The text without its sign reads as the magnitude and the number of places. -/
theorem readUnsigned_fixed (n k : Nat) :
    C.readUnsigned (if k = 0 then C.numeral n
      else (C.split (C.numeral n) k).1 ++ C.point :: (C.split (C.numeral n) k).2)
      = some (n, k) := by
  by_cases hk : k = 0
  · rw [if_pos hk, C.readUnsigned_digits (C.numeral_isDigit n), read, C.readFrom_numeral, hk]
    rfl
  · rw [if_neg hk, C.readUnsigned_point (C.split_isDigit (C.numeral_isDigit n) k).1, read,
      C.readFrom_split, C.readFrom_numeral, C.split_snd_length]
    rfl

/-- **The round trip.**  A fixed-point text reads back as the units and the number of
places it was written from. -/
theorem readFixed_fixed (n : Int) (k : Nat) : C.readFixed (C.fixed n k) = some (n, k) := by
  have hread := C.readUnsigned_fixed n.natAbs k
  obtain ⟨c, cs, hc, hcs⟩ := C.fixed_unsigned_head n.natAbs k
  rw [hcs] at hread
  rw [fixed, hcs]
  by_cases hn : n < 0
  · rw [if_pos hn, List.singleton_append, readFixed, if_pos rfl, hread, Option.map_some]
    congr 2
    omega
  · rw [if_neg hn, List.nil_append, readFixed, if_neg hc.ne_minus, hread, Option.map_some]
    congr 2
    omega

theorem fixed_injective {n m : Int} {k j : Nat} (h : C.fixed n k = C.fixed m j) :
    n = m ∧ k = j := by
  have := C.readFixed_fixed n k
  rw [h, C.readFixed_fixed] at this
  exact ⟨(congrArg Prod.fst (Option.some.inj this)).symm,
    (congrArg Prod.snd (Option.some.inj this)).symm⟩

end FixedCode

end ZuCpp.Lib
