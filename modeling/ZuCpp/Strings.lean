import ZuCpp.Error
import Mathlib.Data.List.Forall2

/-!
# The string columns of `Loader` and the strings they point at

`Loader::strings` reads its range once, into views, and the engine reads the strings
through those views afterwards.  A view of a stored string, of a C string or of another
view is still good then.  A range may instead make its strings on the fly: its reference
type is `std::string`, each one is a temporary of the round of the loop that reads it, and
the view that is kept of it dangles from the next round on.

So **the column arrives exactly when the range makes no strings, or has none**
(`strings_arrive_iff`).  The number of pairs is right in every case.
-/

namespace ZuCpp

open Lib

/-! ### Character arrays -/

abbrev Heap := Arena Str

/-- A `const char*` that is not null: an array, and how far into it. -/
structure Ptr where
  block : Nat
  offset : Nat
  deriving DecidableEq, Repr

structure View where
  data : Option Ptr
  size : Nat
  deriving DecidableEq, Repr

/-- A `std::string` that is stored somewhere: its array, and how many of the characters
there are its own. -/
structure StdString where
  block : Nat
  size : Nat
  deriving DecidableEq, Repr

namespace Heap

/-- The string that a pointer and a length denote, if every character of it is alive. -/
def shows (heap : Heap) (v : View) : Option Str :=
  match v.data with
  | none => if v.size = 0 then some [] else none
  | some p => do
    let chars ← heap.get p.block
    if p.offset + v.size ≤ chars.length then some ((chars.drop p.offset).take v.size) else none

def charsFrom (heap : Heap) (p : Ptr) : Str := ((heap.get p.block).getD []).drop p.offset

def strlen (heap : Heap) (p : Ptr) : Nat := ((heap.charsFrom p).takeWhile (· ≠ 0)).length

/-- The same arrays are alive, with the same characters. -/
def Same (heap heap' : Heap) : Prop := ∀ i, heap'.get i = heap.get i

theorem Same.shows {heap heap' : Heap} (h : heap.Same heap') (v : View) :
    heap'.shows v = heap.shows v := by
  have hget : ∀ i, heap'.get i = heap.get i := h
  simp only [Heap.shows, hget]

end Heap

/-! ### Ranges of strings -/

/-- What the iterator of a range gives when it is dereferenced. -/
inductive Element
  /-- a reference to a `std::string` that is stored -/
  | string (s : StdString)
  | view (v : View)
  /-- a `const char*` -/
  | cString (p : Ptr)
  /-- a `std::string` by value -/
  | made (s : Str)
  deriving DecidableEq, Repr

/-- A range that `detail::StringRange` takes, by its reference type. -/
inductive StringRange
  | strings (xs : List StdString)
  | views (xs : List View)
  | cStrings (xs : List Ptr)
  | made (xs : List Str)
  deriving DecidableEq, Repr

namespace Element

def value (heap : Heap) : Element → Option Str
  | string s => heap.shows ⟨some ⟨s.block, 0⟩, s.size⟩
  | view v => heap.shows v
  | cString p => do
    let chars ← heap.get p.block
    let rest := chars.drop p.offset
    if 0 ∈ rest then some (rest.takeWhile (· ≠ 0)) else none
  | made s => some s

/-- `std::string_view(s)` for the `s` of `auto&& s : r`: the view, the memory, and the
array of the temporary that `s` is, if it is one. -/
def deref (heap : Heap) : Element → View × Heap × Option Nat
  | string s => (⟨some ⟨s.block, 0⟩, s.size⟩, heap, none)
  | view v => (v, heap, none)
  | cString p => (⟨some p, heap.strlen p⟩, heap, none)
  | made s => (⟨some ⟨heap.next, 0⟩, s.length⟩, heap.alloc (s ++ [0]), some heap.next)

/-- The element is made when it is asked for. -/
def IsMade : Element → Prop
  | made _ => True
  | _ => False

instance : DecidablePred IsMade := fun e => by cases e <;> unfold IsMade <;> infer_instance

end Element

namespace StringRange

def elements : StringRange → List Element
  | strings xs => xs.map .string
  | views xs => xs.map .view
  | cStrings xs => xs.map .cString
  | made xs => xs.map .made

/-- The elements are the strings `ss`, all of them alive. -/
def Are (r : StringRange) (heap : Heap) (ss : List Str) : Prop :=
  List.Forall₂ (fun e s => e.value heap = some s) r.elements ss

/-- The reference type of the range is `std::string`. -/
def MakesStrings : StringRange → Prop
  | made _ => True
  | _ => False

end StringRange

/-! ### The calls of the header -/

/-- The loop of `detail::to_views`.  The temporary of a round ends with the round. -/
def toViewsLoop : List Element → Heap → List View → List View × Heap
  | [], heap, out => (out, heap)
  | e :: es, heap, out =>
    let (v, heap, temporary) := e.deref heap
    toViewsLoop es (heap.dropAll temporary.toList) (out ++ [v])

def toViews (r : StringRange) (heap : Heap) : List View × Heap := toViewsLoop r.elements heap []

/-- A call of `zu_loader_col_str`, with the memory it is made in. -/
structure ColStrCall where
  name : Str
  ptrs : List (Option Ptr)
  lens : List Nat
  count : Nat
  heap : Heap
  deriving DecidableEq

/-- `Loader::col_strs_impl`: the call it makes, and what comes of it when the engine does
`c`. -/
def colStrsImpl (order : EvalOrder) (name : Str) (values : List View) (heap : Heap)
    (c : EngineCall) : ColStrCall × MemM (Outcome Unit) :=
  let (ptrs, lens) := values.foldl (fun a v => (a.1 ++ [v.data], a.2 ++ [v.size])) ([], [])
  (⟨name, ptrs, lens, values.length, heap⟩, impl order c (ascii "zu_loader_col_str") ())

namespace Loader

variable (order : EvalOrder) (name : Str) (r : StringRange) (heap : Heap) (c : EngineCall)

def strings : ColStrCall × MemM (Except Exception Unit) :=
  let (views, heap) := toViews r heap
  let (call, outcome) := colStrsImpl order name views heap c
  (call, unwrap <$> outcome)

def tryStrings : ColStrCall × MemM (Except Error Unit) :=
  let (views, heap) := toViews r heap
  let (call, outcome) := colStrsImpl order name views heap c
  (call, toExpected <$> outcome)

end Loader

namespace ColStrCall

def pairs (k : ColStrCall) : List View := List.zipWith View.mk k.ptrs k.lens

def Counted (k : ColStrCall) (n : Nat) : Prop :=
  k.ptrs.length = n ∧ k.lens.length = n ∧ k.count = n

/-- **The pairs denote the strings `ss`**, each of them alive as the call is made. -/
def Arrives (k : ColStrCall) (ss : List Str) : Prop :=
  List.Forall₂ (fun v s => k.heap.shows v = some s) k.pairs ss

instance (k : ColStrCall) (ss : List Str) : Decidable (k.Arrives ss) :=
  inferInstanceAs (Decidable (List.Forall₂ _ _ _))

end ColStrCall

/-! ### One round of the loop -/

/-- A round leaves the memory as it was: what it made is gone again. -/
theorem same_round (e : Element) (heap : Heap) :
    heap.Same ((e.deref heap).2.1.dropAll (e.deref heap).2.2.toList) := by
  intro i
  cases e with
  | made s =>
    show ((heap.alloc (s ++ [0])).drop heap.next).get i = heap.get i
    rw [Arena.get_drop, Arena.get_alloc]
    split
    · rename_i hi
      rw [hi, Arena.get_next]
    · rfl
  | string s => rfl
  | view v => rfl
  | cString p => rfl

theorem Heap.Same.value {heap heap' : Heap} (h : heap.Same heap') (e : Element) :
    e.value heap' = e.value heap := by
  cases e with
  | string s => exact Same.shows h ⟨some ⟨s.block, 0⟩, s.size⟩
  | view v => exact Same.shows h v
  | cString p => rw [Element.value, Element.value, h p.block]
  | made s => rfl

theorem shows_cString {heap : Heap} {p : Ptr} {s : Str}
    (h : (Element.cString p).value heap = some s) :
    heap.shows ⟨some p, heap.strlen p⟩ = some s := by
  simp only [Element.value, Option.bind_eq_bind, Option.bind_eq_some_iff] at h
  obtain ⟨chars, hget, h⟩ := h
  split at h
  · cases h
    have hfrom : heap.charsFrom p = chars.drop p.offset := by
      rw [Heap.charsFrom, hget, Option.getD_some]
    have hstarts : (chars.drop p.offset).takeWhile (· ≠ 0) <+: chars.drop p.offset :=
      List.takeWhile_prefix _
    have hle : p.offset + heap.strlen p ≤ chars.length := by
      have h1 := hstarts.length_le
      rename_i hmem
      have h2 := List.length_pos_of_mem hmem
      rw [List.length_drop] at h1 h2
      rw [Heap.strlen, hfrom]
      omega
    simp only [Heap.shows, hget, Option.bind_eq_bind, Option.bind_some, if_pos hle]
    rw [Heap.strlen, hfrom, ← List.prefix_iff_eq_take.mp hstarts]
  · cases h

/-- **What is left of an element when its round is over**: all of it, unless it was made
for the round. -/
theorem shows_deref {heap : Heap} {e : Element} {s : Str} (h : e.value heap = some s) :
    heap.shows (e.deref heap).1 = if e.IsMade then none else some s := by
  cases e with
  | string x => exact h
  | view v => exact h
  | cString p => exact shows_cString h
  | made x =>
    show heap.shows ⟨some ⟨heap.next, 0⟩, x.length⟩ = none
    simp only [Heap.shows, Arena.get_next, Option.bind_eq_bind, Option.bind_none]

/-! ### The whole loop -/

/-- The loop leaves the memory as it was, and behind `out` a view of each element. -/
theorem toViewsLoop_spec : ∀ {es : List Element} {heap : Heap} {ss : List Str} (out : List View),
    List.Forall₂ (fun e s => e.value heap = some s) es ss →
    heap.Same (toViewsLoop es heap out).2 ∧
    ∃ vs, (toViewsLoop es heap out).1 = out ++ vs ∧ vs.length = es.length ∧
      (List.Forall₂ (fun v s => heap.shows v = some s) vs ss ↔ ∀ e ∈ es, ¬ e.IsMade) := by
  intro es
  induction es with
  | nil =>
    intro heap ss out h
    cases h
    exact ⟨fun _ => rfl, [], (List.append_nil out).symm, rfl, by simp⟩
  | cons e es ih =>
    intro heap ss out h
    obtain ⟨s, ss', he, hes, rfl⟩ := List.forall₂_cons_left_iff.mp h
    have hsame := same_round e heap
    obtain ⟨hrest, vs, hvs, hlen, hiff⟩ := ih (out ++ [(e.deref heap).1])
      (hes.imp fun e s hv => (hsame.value e).trans hv)
    refine ⟨fun i => (hrest i).trans (hsame i), (e.deref heap).1 :: vs, ?_, ?_, ?_⟩
    · rw [toViewsLoop, hvs, List.append_assoc, List.singleton_append]
    · rw [List.length_cons, List.length_cons, hlen]
    · simp only [hsame.shows] at hiff
      rw [List.forall₂_cons, hiff, shows_deref he, List.forall_mem_cons]
      apply and_congr_left'
      split <;> simp_all

theorem colStrs_foldl (values : List View) : ∀ ptrs lens,
    values.foldl (fun a v => (a.1 ++ [v.data], a.2 ++ [v.size])) (ptrs, lens)
      = (ptrs ++ values.map View.data, lens ++ values.map View.size) := by
  induction values with
  | nil =>
    intro ptrs lens
    rw [List.foldl_nil, List.map_nil, List.map_nil, List.append_nil, List.append_nil]
  | cons v values ih =>
    intro ptrs lens
    rw [List.foldl_cons, ih, List.map_cons, List.map_cons, List.append_assoc, List.append_assoc]
    rfl

theorem colStrsImpl_call (order : EvalOrder) (name : Str) (values : List View) (heap : Heap)
    (c : EngineCall) :
    (colStrsImpl order name values heap c).1
      = ⟨name, values.map View.data, values.map View.size, values.length, heap⟩ := by
  rw [colStrsImpl, colStrs_foldl, List.nil_append, List.nil_append]

theorem pairs_colStrsImpl (order : EvalOrder) (name : Str) (values : List View) (heap : Heap)
    (c : EngineCall) : (colStrsImpl order name values heap c).1.pairs = values := by
  rw [colStrsImpl_call]
  show List.zipWith View.mk (values.map View.data) (values.map View.size) = values
  rw [List.zipWith_map, List.zipWith_self, List.map_id']

/-- An element of a range is made exactly when the range makes strings. -/
theorem isMade_of_mem {r : StringRange} {e : Element} (h : e ∈ r.elements) :
    e.IsMade ↔ r.MakesStrings := by
  cases r with
  | strings xs =>
    obtain ⟨x, -, rfl⟩ := List.mem_map.mp h
    exact Iff.rfl
  | views xs =>
    obtain ⟨x, -, rfl⟩ := List.mem_map.mp h
    exact Iff.rfl
  | cStrings xs =>
    obtain ⟨x, -, rfl⟩ := List.mem_map.mp h
    exact Iff.rfl
  | made xs =>
    obtain ⟨x, -, rfl⟩ := List.mem_map.mp h
    exact Iff.rfl

theorem colStrs_arrive_iff (order : EvalOrder) (name : Str) (c : EngineCall) {r : StringRange}
    {heap : Heap} {ss : List Str} (h : r.Are heap ss) {k : ColStrCall}
    (hk : k = (colStrsImpl order name (toViews r heap).1 (toViews r heap).2 c).1) :
    k.Counted ss.length ∧ (k.Arrives ss ↔ ss = [] ∨ ¬ r.MakesStrings) := by
  obtain ⟨hsame, vs, hvs, hlen, hiff⟩ := toViewsLoop_spec [] h
  rw [List.nil_append] at hvs
  have hlength : vs.length = ss.length := hlen.trans h.length_eq
  rw [toViews, hvs] at hk
  refine ⟨?_, ?_⟩
  · rw [hk, colStrsImpl_call]
    refine ⟨?_, ?_, hlength⟩
    · rw [List.length_map, hlength]
    · rw [List.length_map, hlength]
  · have hpairs : k.pairs = vs := by rw [hk, pairs_colStrsImpl]
    have hheap : k.heap = (toViewsLoop r.elements heap []).2 := by rw [hk, colStrsImpl_call]
    rw [ColStrCall.Arrives, hpairs, hheap]
    simp only [hsame.shows]
    rw [hiff]
    constructor
    · intro hall
      cases hel : r.elements with
      | nil =>
        rw [StringRange.Are, hel] at h
        cases h
        exact Or.inl rfl
      | cons e es =>
        have hmem : e ∈ r.elements := by
          rw [hel]
          exact List.mem_cons_self
        exact Or.inr (mt (isMade_of_mem hmem).mpr (hall e hmem))
    · rintro (rfl | hno) e he
      · rw [List.forall₂_nil_right_iff.mp h] at he
        cases he
      · exact mt (isMade_of_mem he).mp hno

/-- **A string column arrives exactly when the range does not make its strings, or is
empty.**  Both spellings hand the engine a pair for each element, and every pair denotes
its element, alive, under that condition and no other. -/
theorem strings_arrive_iff (order : EvalOrder) (name : Str) (c : EngineCall) {r : StringRange}
    {heap : Heap} {ss : List Str} (h : r.Are heap ss) :
    let k := (Loader.strings order name r heap c).1
    let k' := (Loader.tryStrings order name r heap c).1
    (k.Counted ss.length ∧ k'.Counted ss.length) ∧
      (k.Arrives ss ∧ k'.Arrives ss ↔ ss = [] ∨ ¬ r.MakesStrings) := by
  intro k k'
  have hk := colStrs_arrive_iff order name c h (k := k) rfl
  have hk' := colStrs_arrive_iff order name c h (k := k') rfl
  refine ⟨⟨hk.1, hk'.1⟩, ?_⟩
  rw [hk.2, hk'.2, and_self]

def twoStored : Heap := ⟨[some [104, 0, 105, 0], some [106, 0]]⟩

theorem strings_arrive_twoStored :
    let r := StringRange.strings [⟨0, 3⟩, ⟨1, 1⟩]
    let k := (Loader.strings .callFirst (ascii "name") r twoStored (.structural .ok)).1
    let k' := (Loader.tryStrings .callFirst (ascii "name") r twoStored (.structural .ok)).1
    (k.Counted 2 ∧ k'.Counted 2) ∧
      (k.Arrives [[104, 0, 105], [106]] ∧ k'.Arrives [[104, 0, 105], [106]] ↔
        [[104, 0, 105], [106]] = ([] : List Str) ∨ ¬ r.MakesStrings) :=
  have h : (StringRange.strings [⟨0, 3⟩, ⟨1, 1⟩]).Are twoStored [[104, 0, 105], [106]] :=
    .cons (by decide) (.cons (by decide) .nil)
  strings_arrive_iff .callFirst (ascii "name") (.structural .ok) h

/-- A range that makes its strings as it is read, as a transform to `std::string` is. -/
theorem made_strings_dangle :
    let r := StringRange.made [ascii "one", ascii "two"]
    r.Are Arena.empty [ascii "one", ascii "two"] ∧
      ¬ (Loader.strings .callFirst (ascii "name") r Arena.empty (.structural .ok)).1.Arrives
        [ascii "one", ascii "two"] ∧
      ¬ (Loader.tryStrings .callFirst (ascii "name") r Arena.empty (.structural .ok)).1.Arrives
        [ascii "one", ascii "two"] :=
  ⟨.cons rfl (.cons rfl .nil), by decide, by decide⟩

end ZuCpp
