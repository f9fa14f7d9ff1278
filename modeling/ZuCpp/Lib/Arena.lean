import Mathlib

/-!
# Objects with a lifetime

An `Arena α` holds the objects of one type that a program has made, each under the
number it was made under.  A number is never used twice: `drop` leaves the place
empty.  This is the part of a heap that reasoning about owners needs, with no
addresses in it.

`tally f` adds up `f` over the objects alive.  With `f` counting the resources an
object owns it is how many owners a resource has, and the three equations
`tally_alloc`, `tally_put` and `tally_drop` reduce "no resource is lost and none is
duplicated" to arithmetic: `tally` moves by exactly what the changed object says.
-/

namespace ZuCpp.Lib

/-- The objects made so far, in the order they were made; `none` once destroyed. -/
structure Arena (α : Type*) where
  cells : List (Option α)
  deriving DecidableEq, Repr

namespace Arena

variable {α : Type*} (A : Arena α)

def empty : Arena α := ⟨[]⟩

def get (i : Nat) : Option α := (A.cells[i]?).join

def next : Nat := A.cells.length

/-- Makes an object, under the number `A.next`. -/
def alloc (a : α) : Arena α := ⟨A.cells ++ [some a]⟩

def put (i : Nat) (a : α) : Arena α := ⟨A.cells.set i (some a)⟩

def drop (i : Nat) : Arena α := ⟨A.cells.set i none⟩

variable {A}

@[simp] theorem get_empty (i : Nat) : (empty : Arena α).get i = none := by simp [get, empty]

theorem get_eq_some {i : Nat} {a : α} : A.get i = some a ↔ A.cells[i]? = some (some a) := by
  rw [get, Option.join_eq_some_iff]

theorem lt_of_get {i : Nat} {a : α} (h : A.get i = some a) : i < A.cells.length :=
  (List.getElem?_eq_some_iff.mp (get_eq_some.mp h)).1

theorem lt_next_of_get {i : Nat} {a : α} (h : A.get i = some a) : i < A.next := lt_of_get h

@[simp] theorem get_next : A.get A.next = none := by
  rw [get, next, List.getElem?_eq_none (Nat.le_refl _)]
  rfl

theorem get_alloc (a : α) (j : Nat) :
    (A.alloc a).get j = if j = A.next then some a else A.get j := by
  rw [get, get, alloc, next, List.getElem?_append]
  split
  · rw [if_neg (by omega)]
  · by_cases hj : j = A.cells.length
    · subst hj
      simp
    · rw [if_neg hj, List.getElem?_eq_none (by simp; omega),
        List.getElem?_eq_none (show A.cells.length ≤ j by omega)]

theorem get_put {i : Nat} {b : α} (h : A.get i = some b) (a : α) (j : Nat) :
    (A.put i a).get j = if j = i then some a else A.get j := by
  have hi := lt_of_get h
  rw [get, get, put, List.getElem?_set]
  by_cases hj : j = i
  · subst hj
    simp [hi]
  · rw [if_neg (by omega), if_neg hj]

theorem get_drop (i j : Nat) : (A.drop i).get j = if j = i then none else A.get j := by
  rw [get, get, drop, List.getElem?_set]
  by_cases hj : j = i
  · subst hj
    by_cases hi : j < A.cells.length <;> simp [hi]
  · rw [if_neg (by omega), if_neg hj]

/-- What holds of every object still does when one is made, replaced or destroyed. -/
theorem all_alloc {P : α → Prop} (h : ∀ i a, A.get i = some a → P a) {a : α} (ha : P a) :
    ∀ i b, (A.alloc a).get i = some b → P b := by
  intro i b hb
  rw [get_alloc] at hb
  split at hb
  · cases hb
    exact ha
  · exact h i b hb

@[simp] theorem put_put (i : Nat) (a b : α) : (A.put i a).put i b = A.put i b := by
  simp [put]

/-- An object that is replaced right after it was made was made so. -/
@[simp] theorem put_alloc (a b : α) : (A.alloc a).put A.next b = A.alloc b := by
  simp [put, alloc, next]

theorem all_put {P : α → Prop} (h : ∀ i a, A.get i = some a → P a) {i : Nat} {b : α}
    (hi : A.get i = some b) {a : α} (ha : P a) : ∀ j c, (A.put i a).get j = some c → P c := by
  intro j c hc
  rw [get_put hi] at hc
  split at hc
  · cases hc
    exact ha
  · exact h j c hc

theorem all_drop {P : α → Prop} (h : ∀ i a, A.get i = some a → P a) (i : Nat) :
    ∀ j b, (A.drop i).get j = some b → P b := by
  intro j b hb
  rw [get_drop] at hb
  split at hb
  · cases hb
  · exact h j b hb

@[simp] theorem next_put (i : Nat) (a : α) : (A.put i a).next = A.next := by
  simp [next, put]

@[simp] theorem next_drop (i : Nat) : (A.drop i).next = A.next := by
  simp [next, drop]

@[simp] theorem next_alloc (a : α) : (A.alloc a).next = A.next + 1 := by
  simp [next, alloc]

def dropAll (A : Arena α) (is : List Nat) : Arena α := is.foldl drop A

theorem get_dropAll (is : List Nat) (A : Arena α) (j : Nat) :
    (A.dropAll is).get j = if j ∈ is then none else A.get j := by
  induction is generalizing A with
  | nil => rw [if_neg List.not_mem_nil, dropAll, List.foldl_nil]
  | cons i is ih =>
    rw [dropAll, List.foldl_cons, ← dropAll, ih, get_drop]
    by_cases hj : j ∈ is
    · rw [if_pos hj, if_pos (List.mem_cons_of_mem i hj)]
    · rw [if_neg hj]
      exact if_congr (by simp [hj]) rfl rfl

@[simp] theorem next_dropAll (is : List Nat) (A : Arena α) : (A.dropAll is).next = A.next := by
  induction is generalizing A with
  | nil => rfl
  | cons i is ih =>
    rw [dropAll, List.foldl_cons, ← dropAll, ih, next_drop]

def live (A : Arena α) (i : Nat) : Nat := if (A.get i).isSome then 1 else 0

@[simp] theorem live_empty (i : Nat) : (empty : Arena α).live i = 0 := by
  rw [live, get_empty]
  rfl

theorem live_pos {i : Nat} : 0 < A.live i ↔ ∃ a, A.get i = some a := by
  rw [live, ← Option.isSome_iff_exists]
  split <;> simp_all

theorem live_alloc (a : α) (i : Nat) :
    (A.alloc a).live i = A.live i + if A.next = i then 1 else 0 := by
  rw [live, get_alloc]
  by_cases hi : i = A.next
  · rw [if_pos hi, if_pos hi.symm, live, hi, get_next]
    rfl
  · rw [if_neg hi, if_neg (Ne.symm hi), live, Nat.add_zero]

theorem live_put {i : Nat} {b : α} (h : A.get i = some b) (a : α) (j : Nat) :
    (A.put i a).live j = A.live j := by
  rw [live, live, get_put h]
  split
  · rename_i hj
    rw [hj, h]
    rfl
  · rfl

/-- Destroying the object that `p` points at takes one off it and off nothing else. -/
theorem live_dropAll_toList {p : Option Nat} (h : ∀ i ∈ p, 0 < A.live i) (j : Nat) :
    (A.dropAll p.toList).live j + p.toList.count j = A.live j := by
  cases p with
  | none => rfl
  | some i =>
    rw [live, get_dropAll, Option.toList_some, List.count_singleton]
    by_cases hj : j = i
    · subst hj
      have hpos := h j rfl
      have : A.live j ≤ 1 := by rw [live]; split <;> omega
      rw [if_pos (List.mem_singleton_self j), beq_self_eq_true, if_pos rfl]
      show 0 + 1 = A.live j
      omega
    · have hmem : j ∉ [i] := by simpa using hj
      have hbeq : (i == j) = false := by simpa using Ne.symm hj
      rw [if_neg hmem, hbeq, live]
      rfl

/-! ### Adding up over the objects alive -/

/-- `f` added up over the objects alive. -/
def tally (A : Arena α) (f : α → Nat) : Nat := (A.cells.map fun c => c.elim 0 f).sum

@[simp] theorem tally_alloc (a : α) (f : α → Nat) : (A.alloc a).tally f = A.tally f + f a := by
  simp [tally, alloc]

theorem sum_map_set {β : Type*} (g : β → Nat) : ∀ (l : List β) (i : Nat) (b c : β),
    l[i]? = some b → ((l.set i c).map g).sum + g b = (l.map g).sum + g c := by
  intro l
  induction l with
  | nil => intro i b c h; simp at h
  | cons x l ih =>
    intro i b c h
    cases i with
    | zero =>
      simp only [List.getElem?_cons_zero, Option.some.injEq] at h
      subst h
      simp only [List.set_cons_zero, List.map_cons, List.sum_cons]
      omega
    | succ i =>
      have := ih i b c (by simpa using h)
      simp only [List.set_cons_succ, List.map_cons, List.sum_cons]
      omega

theorem tally_put {i : Nat} {b : α} (h : A.get i = some b) (a : α) (f : α → Nat) :
    (A.put i a).tally f + f b = A.tally f + f a :=
  sum_map_set (fun c : Option α => c.elim 0 f) A.cells i (some b) (some a) (get_eq_some.mp h)

theorem tally_drop {i : Nat} {b : α} (h : A.get i = some b) (f : α → Nat) :
    (A.drop i).tally f + f b = A.tally f :=
  sum_map_set (fun c : Option α => c.elim 0 f) A.cells i (some b) none (get_eq_some.mp h)

theorem le_tally {i : Nat} {a : α} (h : A.get i = some a) (f : α → Nat) : f a ≤ A.tally f := by
  have := tally_drop h f
  omega

theorem add_le_tally {i j : Nat} {a b : α} (hij : i ≠ j) (hi : A.get i = some a)
    (hj : A.get j = some b) (f : α → Nat) : f a + f b ≤ A.tally f := by
  have h := tally_drop hi f
  have := le_tally (A := A.drop i) (i := j) (a := b) (by rw [get_drop, if_neg (Ne.symm hij), hj]) f
  omega

theorem exists_of_tally_pos {f : α → Nat} (h : 0 < A.tally f) :
    ∃ i a, A.get i = some a ∧ 0 < f a := by
  obtain ⟨cells⟩ := A
  by_contra hne
  have hzero : ∀ n ∈ cells.map (fun c => c.elim 0 f), n = 0 := by
    intro n hn
    obtain ⟨c, hc, rfl⟩ := List.mem_map.mp hn
    cases c with
    | none => rfl
    | some a =>
      obtain ⟨i, hi⟩ := List.mem_iff_getElem?.mp hc
      by_contra hpos
      exact hne ⟨i, a, get_eq_some.mpr hi, Nat.pos_of_ne_zero hpos⟩
  rw [tally, List.sum_eq_zero hzero] at h
  exact absurd h (Nat.lt_irrefl 0)

/-- **At most one owner.**  When the total is at most one, two objects that both
count are one object. -/
theorem eq_of_tally_le_one {f : α → Nat} (h : A.tally f ≤ 1) {i j : Nat} {a b : α}
    (hi : A.get i = some a) (hj : A.get j = some b) (ha : 0 < f a) (hb : 0 < f b) : i = j := by
  by_contra hij
  have := add_le_tally hij hi hj f
  omega

theorem eq_zero_of_tally_eq_zero {f : α → Nat} (h : A.tally f = 0) {i : Nat} {a : α}
    (hi : A.get i = some a) : f a = 0 := by
  have := le_tally hi f
  omega

end Arena

end ZuCpp.Lib
