import ZuCpp.Cell
import ZuCpp.Lib.Run
import ZuCpp.Lib.Word

/-!
# `Result::iterator` and `ValueRange::iterator`

Both iterators are a parent and a position, and their operators are the same arithmetic on
the position: it is an `std::uint64_t`, a difference is an `std::ptrdiff_t`, and every
operator casts between the two.  `IndexIterator` has the operators, and the two iterators
add what a dereference reads of the parent.

An operator whose signed arithmetic overflows is undefined, and `none` here.
`step_simulates` says that on a range whose size a `std::ptrdiff_t` holds none does, and that
the position moves as the integer does.  `RandomAccess` is the laws that the algorithms
rely on, and `iterators_random_access` is that both ranges keep them.
-/

namespace ZuCpp

open Lib

/-- An iterator: the parent it reads, null for an iterator of no range, and a position. -/
structure IndexIterator (P : Type) where
  parent : Option P := none
  i : UInt64 := 0
  deriving DecidableEq

namespace IndexIterator

variable {P E : Type}

def inc (self : IndexIterator P) : IndexIterator P := { self with i := self.i + 1 }

def postInc (self : IndexIterator P) : IndexIterator P × IndexIterator P :=
  ({ self with i := self.i + 1 }, self)

def dec (self : IndexIterator P) : IndexIterator P := { self with i := self.i - 1 }

def postDec (self : IndexIterator P) : IndexIterator P × IndexIterator P :=
  ({ self with i := self.i - 1 }, self)

/-- `static_cast<std::uint64_t>(static_cast<difference_type>(i_) + n)`. -/
def shifted (self : IndexIterator P) (n : Int64) : Option UInt64 :=
  (checkedAdd self.i.toInt64 n).map Int64.toUInt64

def addAssign (self : IndexIterator P) (n : Int64) : Option (IndexIterator P) :=
  (self.shifted n).map fun i => { self with i }

def subAssign (self : IndexIterator P) (n : Int64) : Option (IndexIterator P) :=
  (checkedNeg n).bind self.addAssign

def add (it : IndexIterator P) (n : Int64) : Option (IndexIterator P) := it.addAssign n

def addLeft (n : Int64) (it : IndexIterator P) : Option (IndexIterator P) := it.addAssign n

def sub (it : IndexIterator P) (n : Int64) : Option (IndexIterator P) := it.subAssign n

def difference (a b : IndexIterator P) : Option Int64 := checkedSub a.i.toInt64 b.i.toInt64

def eq (a b : IndexIterator P) : Bool := a.i == b.i

def cmp (a b : IndexIterator P) : Ordering := compare a.i b.i

def deref (read : Option P → UInt64 → E) (self : IndexIterator P) : E := read self.parent self.i

def subscript (read : Option P → UInt64 → E) (self : IndexIterator P) (n : Int64) : Option E :=
  (self.shifted n).map (read self.parent)

/-- `for (; it != last; ++it)`, with the elements it reads in order.  `none`: it has not
come to `last` in `fuel` turns. -/
def visit (read : Option P → UInt64 → E) (last : IndexIterator P) :
    Nat → IndexIterator P → Option (List E)
  | 0, it => if it.eq last then some [] else none
  | fuel + 1, it =>
    if it.eq last then some [] else (visit read last fuel it.inc).map (it.deref read :: ·)

end IndexIterator

/-! ### The two ranges -/

namespace Result

def readRow (result : Option Result) (row : UInt64) : Row := ⟨result, row⟩

def begin (self : Result) : IndexIterator Result := ⟨some self, 0⟩

def end' (C : Cells) (self : Result) : IndexIterator Result := ⟨some self, self.rows C⟩

end Result

/-- `ValueRange`.  The cell it points at stands for the pointer. -/
structure ValueRange where
  parent : Option Value := none
  deriving DecidableEq

def Value.elements (self : Value) : ValueRange := ⟨some self⟩

namespace ValueRange

/-- What `ValueRange::iterator` reads; on null it follows a null pointer. -/
def readElement (C : Cells) (parent : Option Value) (i : UInt64) :
    Option (MemM (Except Exception Value)) :=
  parent.map fun v => v.atCall C i

def begin (self : ValueRange) : IndexIterator Value := ⟨self.parent, 0⟩

def end' (C : Cells) (self : ValueRange) : IndexIterator Value :=
  ⟨self.parent, match self.parent with
    | none => 0
    | some v => v.size C⟩

end ValueRange

/-! ### A walk on positions -/

inductive Move
  | inc | postInc | dec | postDec
  | addAssign (n : Int64) | subAssign (n : Int64)
  | add (n : Int64) | addLeft (n : Int64) | sub (n : Int64)
  deriving DecidableEq, Repr

namespace Move

def delta : Move → Int
  | inc | postInc => 1
  | dec | postDec => -1
  | addAssign n | add n | addLeft n => n.toInt
  | subAssign n | sub n => -n.toInt

/-- The operator on an ideal position in a range of `N` elements; `none` outside it. -/
def ideal (N : Nat) (p : Nat) (m : Move) : Option Nat :=
  if 0 ≤ (p : Int) + m.delta ∧ (p : Int) + m.delta ≤ N then some ((p : Int) + m.delta).toNat
  else none

end Move

namespace IndexIterator

variable {P E : Type}

def step (it : IndexIterator P) : Move → Option (IndexIterator P)
  | .inc => some it.inc
  | .postInc => some it.postInc.1
  | .dec => some it.dec
  | .postDec => some it.postDec.1
  | .addAssign n => it.addAssign n
  | .subAssign n => it.subAssign n
  | .add n => it.add n
  | .addLeft n => addLeft n it
  | .sub n => it.sub n

/-- The iterator is one of the range, at the position `p`. -/
def At (parent : Option P) (N : Nat) (it : IndexIterator P) (p : Nat) : Prop :=
  it.parent = parent ∧ it.i.toNat = p ∧ p ≤ N

theorem shifted_eq (it : IndexIterator P) {n : Int64} {q : Nat} (hi : it.i.toNat < 2 ^ 63)
    (hq : q < 2 ^ 63) (h : (it.i.toNat : Int) + n.toInt = q) :
    ∃ i, it.shifted n = some i ∧ i.toNat = q := by
  have hcast := toInt_toInt64 hi
  obtain ⟨s, hs, hsval⟩ := exists_checked64 (show -2 ^ 63 ≤ it.i.toInt64.toInt + n.toInt by omega)
    (by omega)
  refine ⟨s.toUInt64, ?_, ?_⟩
  · rw [shifted, checkedAdd, hs]
    rfl
  · have hu := toNat_toUInt64 s
    rw [if_neg (by omega)] at hu
    omega

theorem addAssign_at {parent : Option P} {N p q : Nat} {it : IndexIterator P} {n : Int64}
    (hN : N < 2 ^ 63) (h : it.At parent N p) (hd : (p : Int) + n.toInt = q) (hq : q ≤ N) :
    ∃ it', it.addAssign n = some it' ∧ it'.At parent N q := by
  obtain ⟨hparent, hi, hp⟩ := h
  obtain ⟨i, hs, hival⟩ := shifted_eq it (n := n) (q := q) (by omega) (by omega) (by omega)
  refine ⟨{ it with i }, ?_, hparent, hival, hq⟩
  rw [addAssign, hs]
  rfl

/-- The negation does not overflow: the least difference leads out of every range. -/
theorem subAssign_at {parent : Option P} {N p q : Nat} {it : IndexIterator P} {n : Int64}
    (hN : N < 2 ^ 63) (h : it.At parent N p) (hd : (p : Int) - n.toInt = q) (hq : q ≤ N) :
    ∃ it', it.subAssign n = some it' ∧ it'.At parent N q := by
  have hlt := Int64.toInt_lt n
  obtain ⟨m, hm, hmval⟩ := exists_checked64 (show -2 ^ 63 ≤ -n.toInt by omega) (by omega)
  obtain ⟨it', hit', hat⟩ := addAssign_at (n := m) hN h (by omega) hq
  refine ⟨it', ?_, hat⟩
  rw [subAssign, checkedNeg, hm]
  exact hit'

theorem inc_at {parent : Option P} {N p q : Nat} {it : IndexIterator P} (hN : N < 2 ^ 63)
    (h : it.At parent N p) (hd : p + 1 = q) (hq : q ≤ N) : it.inc.At parent N q := by
  obtain ⟨hparent, hi, hp⟩ := h
  refine ⟨hparent, ?_, hq⟩
  show (it.i + 1).toNat = q
  rw [UInt64.toNat_add, show (1 : UInt64).toNat = 1 from rfl, Nat.mod_eq_of_lt (by omega)]
  omega

theorem dec_at {parent : Option P} {N p q : Nat} {it : IndexIterator P}
    (h : it.At parent N p) (hd : p = q + 1) (hq : q ≤ N) : it.dec.At parent N q := by
  obtain ⟨hparent, hi, hp⟩ := h
  refine ⟨hparent, ?_, hq⟩
  show (it.i - 1).toNat = q
  rw [UInt64.toNat_sub_of_le it.i 1 (UInt64.le_iff_toNat_le.mpr (by
    rw [show (1 : UInt64).toNat = 1 from rfl]; omega)), show (1 : UInt64).toNat = 1 from rfl]
  omega

/-- **The position moves as the integer does**, and nothing overflows, as long as the
integer stays in the range. -/
theorem step_simulates {parent : Option P} {N : Nat} (hN : N < 2 ^ 63) (it : IndexIterator P)
    (p : Nat) (m : Move) (q : Nat) (h : it.At parent N p) (hm : Move.ideal N p m = some q) :
    ∃ it', it.step m = some it' ∧ it'.At parent N q := by
  rw [Move.ideal] at hm
  split at hm
  · rename_i hrange
    rw [Option.some.injEq] at hm
    have hq : (p : Int) + m.delta = q := by omega
    have hqN : q ≤ N := by omega
    cases m with
    | inc => exact ⟨it.inc, rfl, inc_at hN h (by rw [Move.delta] at hq; omega) hqN⟩
    | postInc => exact ⟨it.inc, rfl, inc_at hN h (by rw [Move.delta] at hq; omega) hqN⟩
    | dec => exact ⟨it.dec, rfl, dec_at h (by rw [Move.delta] at hq; omega) hqN⟩
    | postDec => exact ⟨it.dec, rfl, dec_at h (by rw [Move.delta] at hq; omega) hqN⟩
    | addAssign n => exact addAssign_at hN h hq hqN
    | subAssign n => exact subAssign_at hN h (by rw [Move.delta] at hq; omega) hqN
    | add n => exact addAssign_at hN h hq hqN
    | addLeft n => exact addAssign_at hN h hq hqN
    | sub n => exact subAssign_at hN h (by rw [Move.delta] at hq; omega) hqN
  · cases hm

theorem difference_eq {parent : Option P} {N p q : Nat} {a b : IndexIterator P}
    (hN : N < 2 ^ 63) (ha : a.At parent N p) (hb : b.At parent N q) :
    ∃ d, difference a b = some d ∧ d.toInt = (p : Int) - q := by
  obtain ⟨-, hai, hap⟩ := ha
  obtain ⟨-, hbi, hbq⟩ := hb
  have hca := toInt_toInt64 (x := a.i) (by omega)
  have hcb := toInt_toInt64 (x := b.i) (by omega)
  obtain ⟨d, hd, hval⟩ := exists_checked64
    (show -2 ^ 63 ≤ a.i.toInt64.toInt - b.i.toInt64.toInt by omega) (by omega)
  exact ⟨d, hd, by omega⟩

theorem eq_iff {a b : IndexIterator P} : a.eq b = true ↔ a.i.toNat = b.i.toNat := by
  rw [eq, beq_iff_eq, UInt64.toNat_inj]

/-- The walk from the position `p` reads every position from there to `N`, in order. -/
theorem visit_eq {parent : Option P} {N : Nat} (hN : N < 2 ^ 63) (read : Option P → UInt64 → E)
    {last : IndexIterator P} (hlast : last.At parent N N) :
    ∀ (fuel p : Nat) (it : IndexIterator P), it.At parent N p → N - p ≤ fuel →
      visit read last fuel it
        = some ((List.range' p (N - p)).map fun k => read parent (UInt64.ofNat k)) := by
  intro fuel
  induction fuel with
  | zero =>
    intro p it h hfuel
    have hend : it.eq last = true := eq_iff.mpr (by rw [h.2.1, hlast.2.1]; have := h.2.2; omega)
    rw [visit, if_pos hend, show N - p = 0 by omega]
    rfl
  | succ fuel ih =>
    intro p it h hfuel
    by_cases hp : p = N
    · have hend : it.eq last = true := eq_iff.mpr (by rw [h.2.1, hlast.2.1, hp])
      rw [visit, if_pos hend, hp, Nat.sub_self]
      rfl
    · have hlt : p < N := Nat.lt_of_le_of_ne h.2.2 hp
      have hgo : ¬ it.eq last = true := fun he => hp (by
        rw [eq_iff, h.2.1, hlast.2.1] at he
        exact he)
      have hread : it.deref read = read parent (UInt64.ofNat p) := by
        rw [deref, h.1, ← h.2.1, UInt64.ofNat_toNat]
      rw [visit, if_neg hgo, ih (p + 1) it.inc (inc_at hN h rfl hlt) (by omega), hread,
        show N - p = N - (p + 1) + 1 by omega, List.range'_succ]
      rfl

end IndexIterator

/-! ### The laws -/

/-- **What the algorithms rely on**, for the range from `first` to `last`: it is of the `N`
elements that `element` gives, and `read` is what an iterator of it reads of its parent. -/
structure RandomAccess {P E : Type} (read : Option P → UInt64 → E) (first last : IndexIterator P)
    (element : Nat → E) (N : Nat) : Prop where
  /-- the position is the ideal one, and nothing overflows -/
  moves : ∀ (it : IndexIterator P) (p : Nat), it.At first.parent N p → ∀ (ms : List Move) (q : Nat),
    exec (Move.ideal N) p ms = some q →
      ∃ it', exec IndexIterator.step it ms = some it' ∧ it'.At first.parent N q
  /-- what the two suffixed operators return -/
  suffixed : ∀ it : IndexIterator P, it.postInc = (it.inc, it) ∧ it.postDec = (it.dec, it)
  /-- `*it` is the element at the position -/
  deref : ∀ (it : IndexIterator P) (p : Nat), it.At first.parent N p → p < N →
    it.deref read = element p
  /-- `it[n]` is `*(it + n)` -/
  subscript : ∀ (it : IndexIterator P) (p : Nat) (n : Int64), it.At first.parent N p →
    0 ≤ (p : Int) + n.toInt → (p : Int) + n.toInt ≤ N →
      ∃ it', it.add n = some it' ∧ it.subscript read n = some (it'.deref read)
  /-- `b - a` is the ideal difference, and it leads from `a` to `b` -/
  difference : ∀ (a b it : IndexIterator P) (p q r : Nat), a.At first.parent N p →
    b.At first.parent N q → it.At first.parent N r →
      ∃ d, IndexIterator.difference b a = some d ∧ d.toInt = (q : Int) - p ∧
        (it.eq a = true → ∃ it', it.add d = some it' ∧ it'.eq b = true)
  /-- `a <=> b` is the sign of `a - b` -/
  order : ∀ (a b : IndexIterator P) (p q : Nat), a.At first.parent N p → b.At first.parent N q →
    ∃ d, IndexIterator.difference a b = some d ∧ (a.cmp b = .lt ↔ d.toInt < 0) ∧
      (a.cmp b = .gt ↔ 0 < d.toInt) ∧ (a.cmp b = .eq ↔ d.toInt = 0) ∧
      (a.cmp b = .eq ↔ a.eq b = true)
  /-- from `first` to `last` every element is visited once, in order -/
  walk : ∀ fuel, N ≤ fuel →
    IndexIterator.visit read last fuel first = some ((List.range N).map element)

namespace IndexIterator

variable {P E : Type}

theorem cmp_eq {a b : IndexIterator P} :
    (a.cmp b = .lt ↔ a.i.toNat < b.i.toNat) ∧ (a.cmp b = .gt ↔ b.i.toNat < a.i.toNat) ∧
      (a.cmp b = .eq ↔ a.i.toNat = b.i.toNat) := by
  have h : a.cmp b = if a.i < b.i then .lt else if a.i = b.i then .eq else .gt := rfl
  simp only [UInt64.lt_iff_toNat_lt, ← UInt64.toNat_inj] at h
  rw [h]
  refine ⟨?_, ?_, ?_⟩
  all_goals split_ifs <;> simp <;> omega

theorem randomAccess (read : Option P → UInt64 → E) (parent : Option P) {n : UInt64}
    (hn : n.toNat < 2 ^ 63) :
    RandomAccess read ⟨parent, 0⟩ ⟨parent, n⟩ (fun k => read parent (UInt64.ofNat k)) n.toNat where
  moves it p hit ms q hq := exec_simulates (step_simulates hn) hit hq
  suffixed it := ⟨rfl, rfl⟩
  deref it p hit _ := by
    obtain ⟨hparent, hi, -⟩ := hit
    rw [IndexIterator.deref, hparent, ← hi, UInt64.ofNat_toNat]
  subscript it p d hit hge hle := by
    obtain ⟨hparent, hi, hp⟩ := hit
    obtain ⟨i, hs, hival⟩ := shifted_eq it (n := d) (q := ((p : Int) + d.toInt).toNat) (by omega)
      (by omega) (by omega)
    refine ⟨{ it with i }, ?_, ?_⟩
    · rw [add, addAssign, hs]
      rfl
    · rw [IndexIterator.subscript, hs]
      rfl
  difference a b it p q r ha hb hit := by
    obtain ⟨d, hd, hval⟩ := difference_eq hn hb ha
    refine ⟨d, hd, hval, ?_⟩
    intro heq
    rw [eq_iff, hit.2.1, ha.2.1] at heq
    obtain ⟨it', hadd, hat⟩ := addAssign_at hn hit (n := d) (q := q) (by omega) hb.2.2
    exact ⟨it', hadd, eq_iff.mpr (by rw [hat.2.1, hb.2.1])⟩
  order a b p q ha hb := by
    obtain ⟨d, hd, hval⟩ := difference_eq hn ha hb
    obtain ⟨hlt, hgt, heq⟩ := @cmp_eq P a b
    rw [ha.2.1, hb.2.1] at hlt hgt heq
    refine ⟨d, hd, ?_, ?_, ?_, ?_⟩
    · rw [hlt]
      omega
    · rw [hgt]
      omega
    · rw [heq]
      omega
    · rw [heq, eq_iff, ha.2.1, hb.2.1]
  walk fuel hfuel := by
    have hlast : At parent n.toNat ⟨parent, n⟩ n.toNat := ⟨rfl, rfl, Nat.le_refl _⟩
    have h := visit_eq hn read hlast fuel 0 ⟨parent, 0⟩ ⟨rfl, rfl, Nat.zero_le _⟩ (by omega)
    rw [h, Nat.sub_zero, List.range_eq_range']

end IndexIterator

/-- **Both iterators are random access iterators** over the whole of their range, whose size an
`std::ptrdiff_t` holds: the rows of a result, and the elements of a value.  The range of no value
is empty. -/
theorem iterators_random_access (C : Cells) :
    (∀ r : Result, (r.rows C).toNat < 2 ^ 63 →
      RandomAccess Result.readRow r.begin (r.end' C) (fun k => ⟨some r, UInt64.ofNat k⟩)
        (r.rows C).toNat) ∧
    (∀ v : Value, (v.size C).toNat < 2 ^ 63 →
      RandomAccess (ValueRange.readElement C) v.elements.begin (v.elements.end' C)
        (fun k => some (v.atCall C (UInt64.ofNat k))) (v.size C).toNat) ∧
    RandomAccess (ValueRange.readElement C) (ValueRange.begin {}) (ValueRange.end' C {})
      (fun _ => none) 0 := by
  refine ⟨?_, ?_, ?_⟩
  · intro r h
    exact IndexIterator.randomAccess Result.readRow (some r) h
  · intro v h
    exact IndexIterator.randomAccess (ValueRange.readElement C) (some v) h
  · exact IndexIterator.randomAccess (n := 0) (ValueRange.readElement C) none (by decide)

def rowAndPair : Cells where
  rows _ := 1
  cell _ _ _ := (.ok, some 0)
  i64 _ := (.misuse, 0)
  len _ := 2
  valueAt _ i := if i < 2 then (.ok, some (i.toNat + 1)) else (.misuse, none)

theorem iterators_random_access_rowAndPair :
    IndexIterator.visit Result.readRow (Result.end' rowAndPair {}) 5 (Result.begin {})
      = some [⟨some {}, 0⟩] ∧
    IndexIterator.visit (ValueRange.readElement rowAndPair)
        ((Value.mk (some 0)).elements.end' rowAndPair) 5 (Value.mk (some 0)).elements.begin
      = some [some ((Value.mk (some 0)).atCall rowAndPair 0),
          some ((Value.mk (some 0)).atCall rowAndPair 1)] :=
  ⟨((iterators_random_access rowAndPair).1 {} (by decide)).walk 5 (by decide),
    ((iterators_random_access rowAndPair).2.1 ⟨some 0⟩ (by decide)).walk 5 (by decide)⟩

end ZuCpp
