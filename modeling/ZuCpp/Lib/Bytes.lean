import Mathlib.Data.Nat.Bitwise
import Mathlib.Data.List.Basic

/-!
# Numbers, bits and texts in memory

A memory has a byte at each address.  What lies there is written as a list of bytes
(`Memory.Has`), and read again by an address and counts:

* words of `w` bytes in either order, signed or not (`ints_of_has`);
* bits, eight to a byte, the low one first (`bits_of_has`);
* texts end to end, told apart by offsets (`slices_of_has`).

Each of them reads back what was written.
-/

namespace ZuCpp.Lib

/-! ### Words -/

/-- The low `w` bytes of a number, the lowest first. -/
def littleBytes : Nat → Nat → List UInt8
  | 0, _ => []
  | w + 1, n => UInt8.ofNat n :: littleBytes w (n / 256)

def littleValue : List UInt8 → Nat
  | [] => 0
  | b :: bs => b.toNat + 256 * littleValue bs

@[simp] theorem length_littleBytes (w n : Nat) : (littleBytes w n).length = w := by
  induction w generalizing n with
  | zero => rfl
  | succ w ih => rw [littleBytes, List.length_cons, ih]

theorem littleValue_littleBytes (w n : Nat) : littleValue (littleBytes w n) = n % 256 ^ w := by
  induction w generalizing n with
  | zero => rw [Nat.pow_zero, Nat.mod_one]; rfl
  | succ w ih =>
    rw [littleBytes, littleValue, ih, Nat.pow_succ', Nat.mod_mul, UInt8.toNat_ofNat']

inductive ByteOrder
  | little | big
  deriving DecidableEq, Repr

namespace ByteOrder

variable (e : ByteOrder)

def bytes (w n : Nat) : List UInt8 :=
  match e with
  | little => littleBytes w n
  | big => (littleBytes w n).reverse

def value (bs : List UInt8) : Nat :=
  match e with
  | little => littleValue bs
  | big => littleValue bs.reverse

@[simp] theorem length_bytes (w n : Nat) : (e.bytes w n).length = w := by
  cases e with
  | little => exact length_littleBytes w n
  | big => rw [bytes, List.length_reverse, length_littleBytes]

theorem value_bytes (w n : Nat) : e.value (e.bytes w n) = n % 256 ^ w := by
  cases e with
  | little => exact littleValue_littleBytes w n
  | big =>
    show littleValue (littleBytes w n).reverse.reverse = n % 256 ^ w
    rw [List.reverse_reverse, littleValue_littleBytes]

end ByteOrder

def wordOf (w : Nat) (n : Int) : Nat := (n % (256 ^ w : Nat)).toNat

def intOf (signed : Bool) (w m : Nat) : Int := if signed then (m : Int).bmod (256 ^ w) else m

def IntRange (signed : Bool) (w : Nat) (n : Int) : Prop :=
  if signed then -(256 ^ w : Nat) ≤ n * 2 ∧ n * 2 < (256 ^ w : Nat) else 0 ≤ n ∧ n < (256 ^ w : Nat)

instance (signed : Bool) (w : Nat) (n : Int) : Decidable (IntRange signed w n) := by
  unfold IntRange
  infer_instance

theorem wordOf_lt (w : Nat) (n : Int) : wordOf w n < 256 ^ w := by
  have hpos : (0 : Int) < (256 ^ w : Nat) := by exact_mod_cast Nat.pow_pos (by decide)
  have hlt := Int.emod_lt_of_pos n hpos
  have hge := Int.emod_nonneg n (Int.ne_of_gt hpos)
  rw [wordOf]
  omega

theorem intOf_wordOf {signed : Bool} {w : Nat} {n : Int} (h : IntRange signed w n) :
    intOf signed w (wordOf w n) = n := by
  have hpos : (0 : Int) < (256 ^ w : Nat) := by exact_mod_cast Nat.pow_pos (by decide)
  have hcast : ((wordOf w n : Nat) : Int) = n % (256 ^ w : Nat) := by
    rw [wordOf, Int.toNat_of_nonneg (Int.emod_nonneg n (Int.ne_of_gt hpos))]
  cases signed with
  | true =>
    obtain ⟨hge, hlt⟩ := h
    show ((wordOf w n : Nat) : Int).bmod (256 ^ w) = n
    rw [hcast, Int.emod_bmod, Int.bmod_eq_of_le_mul_two hge hlt]
  | false =>
    obtain ⟨hge, hlt⟩ := h
    show ((wordOf w n : Nat) : Int) = n
    rw [hcast, Int.emod_eq_of_lt hge hlt]

/-! ### Bits and offsets -/

def bitsValue : List Bool → Nat
  | [] => 0
  | b :: bs => b.toNat + 2 * bitsValue bs

/-- The bits eight to a byte, the low bit of the first byte first. -/
def bitmapOf (bs : List Bool) : List UInt8 := littleBytes ((bs.length + 7) / 8) (bitsValue bs)

theorem testBit_bitsValue {bs : List Bool} {i : Nat} (h : i < bs.length) :
    (bitsValue bs).testBit i = bs[i] := by
  induction bs generalizing i with
  | nil => cases h
  | cons b bs ih =>
    cases i with
    | zero =>
      rw [Nat.testBit_zero, bitsValue]
      cases b <;> simp
    | succ i =>
      have hhalf : (b.toNat + 2 * bitsValue bs) / 2 = bitsValue bs := by
        cases b
        · simp
        · rw [Bool.toNat_true]
          omega
      rw [Nat.testBit_add_one, bitsValue, hhalf, List.getElem_cons_succ]
      exact ih (Nat.lt_of_succ_lt_succ h)

theorem getElem_littleBytes {w n k : Nat} (h : k < (littleBytes w n).length) :
    (littleBytes w n)[k] = UInt8.ofNat (n / 256 ^ k) := by
  induction w generalizing n k with
  | zero => cases h
  | succ w ih =>
    cases k with
    | zero =>
      rw [Nat.pow_zero, Nat.div_one]
      rfl
    | succ k =>
      rw [Nat.pow_succ', ← Nat.div_div_eq_div_mul]
      exact ih _

theorem testBit_byte {n k j : Nat} (h : j < 8) :
    (UInt8.ofNat (n / 256 ^ k)).toNat.testBit j = n.testBit (j + 8 * k) := by
  rw [UInt8.toNat_ofNat', Nat.testBit_mod_two_pow, decide_eq_true h, Bool.true_and,
    show (256 : Nat) = 2 ^ 8 from rfl, ← Nat.pow_mul, Nat.testBit_div_two_pow]

/-- Where texts end to end start, the first at `o`, and where the last ends. -/
def offsetsFrom : Nat → List (List UInt8) → List Nat
  | o, [] => [o]
  | o, t :: ts => o :: offsetsFrom (o + t.length) ts

theorem offsetsFrom_eq_cons (o : Nat) (ts : List (List UInt8)) :
    offsetsFrom o ts = o :: (offsetsFrom o ts).tail := by
  cases ts <;> rfl

theorem length_offsetsFrom (o : Nat) (ts : List (List UInt8)) :
    (offsetsFrom o ts).length = ts.length + 1 := by
  induction ts generalizing o with
  | nil => rfl
  | cons t ts ih => rw [offsetsFrom, List.length_cons, ih, List.length_cons]

/-! ### Memory -/

abbrev Memory := Nat → UInt8

namespace Memory

variable (mem : Memory)

def read : Nat → Nat → List UInt8
  | _, 0 => []
  | a, n + 1 => mem a :: read (a + 1) n

def Has (a : Nat) (bs : List UInt8) : Prop := mem.read a bs.length = bs

instance (a : Nat) (bs : List UInt8) : Decidable (mem.Has a bs) :=
  inferInstanceAs (Decidable (_ = _))

@[simp] theorem length_read (a n : Nat) : (mem.read a n).length = n := by
  induction n generalizing a with
  | zero => rfl
  | succ n ih => rw [read, List.length_cons, ih]

theorem read_add (a m n : Nat) : mem.read a (m + n) = mem.read a m ++ mem.read (a + m) n := by
  induction m generalizing a with
  | zero => rw [Nat.zero_add]; rfl
  | succ m ih => rw [Nat.succ_add, read, ih, read, List.cons_append, Nat.add_right_comm]; rfl

variable {mem} {a : Nat} {bs cs : List UInt8}

theorem has_append : mem.Has a (bs ++ cs) ↔ mem.Has a bs ∧ mem.Has (a + bs.length) cs := by
  rw [Has, List.length_append, read_add]
  constructor
  · intro h
    exact List.append_inj h (length_read mem a bs.length)
  · rintro ⟨hbs, hcs⟩
    rw [show mem.read a bs.length = bs from hbs,
      show mem.read (a + bs.length) cs.length = cs from hcs]

theorem getElem?_read {n k : Nat} (h : k < n) : (mem.read a n)[k]? = some (mem (a + k)) := by
  induction n generalizing a k with
  | zero => omega
  | succ n ih =>
    cases k with
    | zero => rfl
    | succ k =>
      rw [read, List.getElem?_cons_succ, ih (by omega), Nat.add_right_comm]
      rfl

theorem Has.get (h : mem.Has a bs) {k : Nat} (hk : k < bs.length) : mem (a + k) = bs[k] := by
  have hread : (mem.read a bs.length)[k]? = some (mem (a + k)) := getElem?_read hk
  rw [show mem.read a bs.length = bs from h, List.getElem?_eq_getElem hk,
    Option.some.injEq] at hread
  exact hread.symm

/-! ### Arrays -/

def every {α : Type} (w : Nat) (read : Nat → α) (a n : Nat) : List α :=
  (List.range n).map fun k => read (a + k * w)

theorem getElem?_every {α : Type} {w : Nat} {read : Nat → α} {n k : Nat} (h : k < n) :
    (every w read a n)[k]? = some (read (a + k * w)) := by
  rw [every, List.getElem?_map, List.getElem?_range h]
  rfl

theorem every_succ {α : Type} (w : Nat) (read : Nat → α) (a n : Nat) :
    every w read a (n + 1) = read a :: every w read (a + w) n := by
  rw [every, List.range_succ_eq_map, List.map_cons, Nat.zero_mul, List.map_map, every]
  refine congrArg (read a :: ·) (List.map_congr_left fun k _ => ?_)
  show read (a + (k + 1) * w) = read (a + w + k * w)
  rw [Nat.succ_mul, Nat.add_assoc, Nat.add_comm w]

/-- **What is written end to end, each in `w` bytes, is read back every `w` bytes**, if each of
them is. -/
theorem every_of_has {α β : Type} {w : Nat} {f : β → List UInt8} {g : β → α} {read : Nat → α}
    {xs : List β} (hf : ∀ x, (f x).length = w)
    (hread : ∀ x ∈ xs, ∀ a, mem.Has a (f x) → read a = g x) (h : mem.Has a (xs.flatMap f)) :
    every w read a xs.length = xs.map g := by
  induction xs generalizing a with
  | nil => rfl
  | cons x xs ih =>
    rw [List.flatMap_cons, has_append, hf] at h
    rw [List.length_cons, every_succ, hread x (.head _) a h.1,
      ih (fun y hy => hread y (.tail _ hy)) h.2, List.map_cons]

variable (mem) (e : ByteOrder)

def words (w a k : Nat) : List Nat := every w (fun a => e.value (mem.read a w)) a k

def ints (signed : Bool) (w a k : Nat) : List Int := (mem.words e w a k).map (intOf signed w)

variable {mem} {e}

theorem value_read {w n : Nat} (h : mem.Has a (e.bytes w n)) (hn : n < 256 ^ w) :
    e.value (mem.read a w) = n := by
  rw [Has, ByteOrder.length_bytes] at h
  rw [h, ByteOrder.value_bytes, Nat.mod_eq_of_lt hn]

theorem words_of_has {w : Nat} {ns : List Nat} (h : mem.Has a (ns.flatMap (e.bytes w)))
    (hlt : ∀ n ∈ ns, n < 256 ^ w) : mem.words e w a ns.length = ns := by
  have hread : ∀ n ∈ ns, ∀ a, mem.Has a (e.bytes w n) → e.value (mem.read a w) = id n :=
    fun n hn a ha => value_read ha (hlt n hn)
  rw [words, every_of_has (ByteOrder.length_bytes e w) hread h, List.map_id]

/-- **Integers are read back.** -/
theorem ints_of_has {signed : Bool} {w : Nat} {xs : List Int}
    (h : mem.Has a (xs.flatMap fun x => e.bytes w (wordOf w x)))
    (hxs : ∀ x ∈ xs, IntRange signed w x) : mem.ints e signed w a xs.length = xs := by
  have hread : ∀ x ∈ xs, ∀ a, mem.Has a (e.bytes w (wordOf w x)) →
      e.value (mem.read a w) = wordOf w x := fun x _ a ha => value_read ha (wordOf_lt w x)
  rw [ints, words, every_of_has (fun x => ByteOrder.length_bytes e w _) hread h, List.map_map]
  exact (List.map_congr_left fun x hx => intOf_wordOf (hxs x hx)).trans (List.map_id xs)

/-! ### Bits -/

variable (mem)

def bits (a n : Nat) : List Bool :=
  (List.range n).map fun i => (mem (a + i / 8)).toNat.testBit (i % 8)

variable {mem}

/-- **Bits are read back.** -/
theorem bits_of_has {bs : List Bool} (h : mem.Has a (bitmapOf bs)) :
    mem.bits a bs.length = bs := by
  apply List.ext_getElem
  · rw [bits, List.length_map, List.length_range]
  · intro i hi hlt
    have hk : i / 8 < (bitmapOf bs).length := by
      rw [bitmapOf, length_littleBytes]
      omega
    have hj : i % 8 < 8 := Nat.mod_lt i (by decide)
    have hi8 : i % 8 + 8 * (i / 8) = i := by omega
    simp only [bits, List.getElem_map, List.getElem_range]
    rw [h.get hk]
    simp only [bitmapOf]
    rw [getElem_littleBytes, testBit_byte hj, hi8, testBit_bitsValue hlt]

/-! ### Texts -/

variable (mem)

def slices (p : Nat) : List Nat → List (List UInt8)
  | o :: o' :: os => mem.read (p + o) (o' - o) :: slices p (o' :: os)
  | _ => []

variable {mem}

/-- **Texts are read back.** -/
theorem slices_of_has {p o : Nat} {ts : List (List UInt8)} (h : mem.Has (p + o) ts.flatten) :
    mem.slices p (offsetsFrom o ts) = ts := by
  induction ts generalizing o with
  | nil => rfl
  | cons t ts ih =>
    rw [List.flatten_cons, has_append, Nat.add_assoc] at h
    obtain ⟨ht, hts⟩ := h
    have hrest := ih hts
    rw [offsetsFrom_eq_cons] at hrest
    rw [offsetsFrom, offsetsFrom_eq_cons, slices, Nat.add_sub_cancel_left, hrest]
    exact congrArg (· :: ts) ht

end Memory

end ZuCpp.Lib
