import ZuCpp.Lib.Run
import ZuCpp.Lib.Arena
import Mathlib.Data.List.Nodup

/-!
# `detail::Handle`: every engine handle is closed exactly once

Every class of the header keeps its engine pointer in a `detail::Handle<T, Free>`.
The first half of this file is that class, one definition a member function; a
member that calls `Free` answers the pointers it passed to it, in order.  The
second half is a program using any number of `Handle` objects (`Pool`, `Op`,
`step`), and the law every class rests on (`Pool.Custody`): a pointer adopted once is
owned, freed or given up, and never two of these.
-/

namespace ZuCpp

open Lib

variable {P : Type} [DecidableEq P]

/-- `detail::Handle<T, Free>`, over engine pointers of the type `P`; `none` is the
null pointer. -/
structure Handle (P : Type) where
  p : Option P := none
  deriving DecidableEq, Repr

namespace Handle

def ofPtr (p : P) : Handle P := ⟨some p⟩

def release (self : Handle P) : Handle P × Option P := (⟨none⟩, self.p)

/-- `reset(p)`: the object afterwards, and what was passed to `Free`. -/
def reset (self : Handle P) (p : Option P) : Handle P × List P := (⟨p⟩, self.p.toList)

def destroy (self : Handle P) : List P := self.p.toList

def moveConstruct (o : Handle P) : Handle P × Handle P :=
  let (o, p) := o.release
  (⟨p⟩, o)

/-- `operator=(Handle&& o)` past its `this != &o`: the object, `o`, and what was
passed to `Free`. -/
def moveAssign (self o : Handle P) : Handle P × Handle P × List P :=
  let (o, p) := o.release
  let (self, freed) := self.reset p
  (self, o, freed)

/-- `Result::arrow_impl` on the handle: `r = h_.release()`, and the engine takes `r`
and writes NULL back on every path, the failing ones included. -/
def arrowImpl (self : Handle P) : Handle P × Option P := self.release

def owns (p : P) (self : Handle P) : Nat := self.p.toList.count p

@[simp] theorem owns_none (p : P) : owns p ⟨none⟩ = 0 := rfl

theorem owns_some (p q : P) : owns p ⟨some q⟩ = if q = p then 1 else 0 := by
  simp [owns, List.count_cons]

theorem owns_pos {p : P} {h : Handle P} : 0 < owns p h ↔ h.p = some p := by
  obtain ⟨_ | q⟩ := h
  · simp
  · rw [owns_some]
    split <;> simp_all

/-! What each member function does with one pointer: nothing is lost and nothing is
owned twice. -/

theorem release_balance (p : P) (self : Handle P) :
    owns p self.release.1 + self.release.2.toList.count p = owns p self :=
  Nat.zero_add _

theorem arrowImpl_balance (p : P) (self : Handle P) :
    owns p self.arrowImpl.1 + self.arrowImpl.2.toList.count p = owns p self :=
  release_balance p self

theorem reset_balance (p : P) (self : Handle P) (q : Option P) :
    owns p (self.reset q).1 + (self.reset q).2.count p = owns p self + q.toList.count p :=
  Nat.add_comm _ _

theorem moveConstruct_balance (p : P) (o : Handle P) :
    owns p o.moveConstruct.1 + owns p o.moveConstruct.2 = owns p o :=
  Nat.add_zero _

theorem moveAssign_balance (p : P) (self o : Handle P) :
    owns p (self.moveAssign o).1 + owns p (self.moveAssign o).2.1
      + (self.moveAssign o).2.2.count p = owns p self + owns p o := by
  have hr := reset_balance p self o.p
  have ho : o.p.toList.count p = owns p o := rfl
  have hz : owns p (self.moveAssign o).2.1 = 0 := rfl
  have h1 : (self.moveAssign o).1 = (self.reset o.p).1 := rfl
  have h2 : (self.moveAssign o).2.2 = (self.reset o.p).2 := rfl
  rw [h1, h2, hz]
  omega

theorem destroy_balance (p : P) (self : Handle P) : self.destroy.count p = owns p self := rfl

end Handle

/-! ### A program over `Handle` objects -/

/-- The `Handle` objects of a program, and what became of the pointers they were
given: `freed` was passed to `Free`, `released` was given up through `release`.
`adopted` is every pointer a `Handle` was ever given. -/
structure Pool (P : Type) where
  handles : Arena (Handle P) := Arena.empty
  freed : List P := []
  released : List P := []
  adopted : List P := []

inductive Op (P : Type)
  /-- `Handle()` -/
  | default
  /-- `Handle(p)`, with `p` fresh from the engine -/
  | construct (p : P)
  /-- `Handle(std::move(o))` -/
  | moveConstruct (o : Nat)
  /-- `i = std::move(o)` -/
  | moveAssign (i o : Nat)
  /-- `i.reset()` -/
  | resetNull (i : Nat)
  /-- `i.reset(p)`, with `p` fresh from the engine -/
  | reset (i : Nat) (p : P)
  /-- `i.release()` -/
  | release (i : Nat)
  /-- `~Handle()` -/
  | destroy (i : Nat)
  /-- `std::move(r).to_arrow(..)` on the result whose `h_` is `i` -/
  | toArrow (i : Nat)
  deriving DecidableEq, Repr

namespace Pool

/-- One operation.  `none`: there is no such object, or the pointer is not fresh. -/
def step (w : Pool P) : Op P → Option (Pool P)
  | .default => some { w with handles := w.handles.alloc ⟨none⟩ }
  | .construct p =>
    if p ∈ w.adopted then none
    else some { w with handles := w.handles.alloc (.ofPtr p), adopted := p :: w.adopted }
  | .moveConstruct o => do
    let ho ← w.handles.get o
    let (new, ho) := ho.moveConstruct
    some { w with handles := (w.handles.put o ho).alloc new }
  | .moveAssign i o => do
    let hi ← w.handles.get i
    let ho ← w.handles.get o
    if i = o then some w
    else
      let r := hi.moveAssign ho
      some { w with handles := (w.handles.put o r.2.1).put i r.1, freed := r.2.2 ++ w.freed }
  | .resetNull i => do
    let hi ← w.handles.get i
    let (hi, freed) := hi.reset none
    some { w with handles := w.handles.put i hi, freed := freed ++ w.freed }
  | .reset i p => do
    let hi ← w.handles.get i
    if p ∈ w.adopted then none
    else
      let (hi, freed) := hi.reset (some p)
      some { w with
        handles := w.handles.put i hi, freed := freed ++ w.freed, adopted := p :: w.adopted }
  | .release i => do
    let hi ← w.handles.get i
    let (hi, p) := hi.release
    some { w with handles := w.handles.put i hi, released := p.toList ++ w.released }
  | .destroy i => do
    let hi ← w.handles.get i
    some { w with handles := w.handles.drop i, freed := hi.destroy ++ w.freed }
  | .toArrow i => do
    let hi ← w.handles.get i
    let (hi, p) := hi.arrowImpl
    some { w with handles := w.handles.put i hi, released := p.toList ++ w.released }

def owners (w : Pool P) (p : P) : Nat := w.handles.tally (Handle.owns p)

def Owns (w : Pool P) (i : Nat) (p : P) : Prop := ∃ h, w.handles.get i = some h ∧ h.p = some p

theorem owners_pos {w : Pool P} {p : P} : 0 < w.owners p ↔ ∃ i, w.Owns i p := by
  constructor
  · intro h
    obtain ⟨i, hi, hget, hpos⟩ := Arena.exists_of_tally_pos h
    exact ⟨i, hi, hget, Handle.owns_pos.mp hpos⟩
  · rintro ⟨i, h, hget, hp⟩
    exact Nat.lt_of_lt_of_le (Handle.owns_pos.mpr hp) (Arena.le_tally hget _)

/-- **Each pointer is in one place.**  A pointer never adopted is nowhere, and an
adopted one is once with an owner, once freed or once given up. -/
def Custody (w : Pool P) : Prop :=
  (∀ p, w.owners p + w.freed.count p + w.released.count p = w.adopted.count p) ∧
    w.adopted.Nodup

theorem custody_init : Custody ({} : Pool P) := ⟨fun _ => rfl, List.nodup_nil⟩

/-- One object gets another pointer or none, and the lists say where the old one went and
where the new one is from. -/
theorem Custody.put {w w' : Pool P} {i : Nat} {h h' : Handle P} (hw : Custody w)
    (hget : w.handles.get i = some h) (hput : w'.handles = w.handles.put i h')
    (hnd : w'.adopted.Nodup)
    (hb : ∀ q, h'.owns q + w'.freed.count q + w'.released.count q + w.adopted.count q
      = h.owns q + w.freed.count q + w.released.count q + w'.adopted.count q) : Custody w' := by
  refine ⟨?_, hnd⟩
  intro q
  have hsum := hw.1 q
  have ht := Arena.tally_put hget h' (Handle.owns q)
  have hq := hb q
  rw [owners] at hsum ⊢
  rw [hput]
  omega

theorem custody_step {w w' : Pool P} {op : Op P} (hw : Custody w) (h : w.step op = some w') :
    Custody w' := by
  have hsum := hw.1
  have hnd := hw.2
  cases op with
  | default =>
    cases h
    refine ⟨?_, hnd⟩
    intro p
    have := hsum p
    simp only [owners, Arena.tally_alloc, Handle.owns_none] at this ⊢
    omega
  | construct p =>
    simp only [step] at h
    split at h
    · cases h
    · rename_i hfresh
      cases h
      refine ⟨?_, List.nodup_cons.mpr ⟨hfresh, hnd⟩⟩
      intro q
      have := hsum q
      simp only [owners, Arena.tally_alloc, Handle.ofPtr, Handle.owns_some, List.count_cons,
        beq_iff_eq] at this ⊢
      omega
  | moveConstruct o =>
    simp only [step, Option.bind_eq_bind, Option.bind_eq_some_iff] at h
    obtain ⟨ho, hget, h⟩ := h
    cases h
    refine ⟨?_, hnd⟩
    intro q
    have := hsum q
    have ht := Arena.tally_put hget ho.moveConstruct.2 (Handle.owns q)
    have hb := Handle.moveConstruct_balance q ho
    simp only [owners, Arena.tally_alloc] at this ⊢
    omega
  | moveAssign i o =>
    simp only [step, Option.bind_eq_bind, Option.bind_eq_some_iff] at h
    obtain ⟨hi, hgeti, ho, hgeto, h⟩ := h
    split at h
    · -- `this == &o`: nothing happens
      cases h
      exact ⟨hsum, hnd⟩
    · rename_i hne
      cases h
      refine ⟨?_, hnd⟩
      intro q
      have := hsum q
      have hgeti' : (w.handles.put o (hi.moveAssign ho).2.1).get i = some hi := by
        rw [Arena.get_put hgeto, if_neg hne, hgeti]
      have ht := Arena.tally_put hgeto (hi.moveAssign ho).2.1 (Handle.owns q)
      have ht' := Arena.tally_put hgeti' (hi.moveAssign ho).1 (Handle.owns q)
      have hb := Handle.moveAssign_balance q hi ho
      simp only [owners, List.count_append] at this ⊢
      omega
  | resetNull i =>
    simp only [step, Option.bind_eq_bind, Option.bind_eq_some_iff] at h
    obtain ⟨hi, hget, h⟩ := h
    cases h
    refine hw.put hget rfl hnd ?_
    intro q
    have hb := Handle.reset_balance q hi none
    simp only [List.count_append, Option.toList_none, List.count_nil] at hb ⊢
    omega
  | reset i p =>
    simp only [step, Option.bind_eq_bind, Option.bind_eq_some_iff] at h
    obtain ⟨hi, hget, h⟩ := h
    split at h
    · cases h
    · rename_i hfresh
      cases h
      refine hw.put hget rfl (List.nodup_cons.mpr ⟨hfresh, hnd⟩) ?_
      intro q
      have hb := Handle.reset_balance q hi (some p)
      simp only [List.count_append, List.count_cons, Option.toList_some, List.count_nil] at hb ⊢
      omega
  | release i =>
    simp only [step, Option.bind_eq_bind, Option.bind_eq_some_iff] at h
    obtain ⟨hi, hget, h⟩ := h
    cases h
    refine hw.put hget rfl hnd ?_
    intro q
    have hb := Handle.release_balance q hi
    simp only [List.count_append]
    omega
  | destroy i =>
    simp only [step, Option.bind_eq_bind, Option.bind_eq_some_iff] at h
    obtain ⟨hi, hget, h⟩ := h
    cases h
    refine ⟨?_, hnd⟩
    intro q
    have := hsum q
    have ht := Arena.tally_drop hget (Handle.owns q)
    have hb := Handle.destroy_balance q hi
    simp only [owners, List.count_append] at this ⊢
    omega
  | toArrow i =>
    simp only [step, Option.bind_eq_bind, Option.bind_eq_some_iff] at h
    obtain ⟨hi, hget, h⟩ := h
    cases h
    refine hw.put hget rfl hnd ?_
    intro q
    have hb := Handle.arrowImpl_balance q hi
    simp only [List.count_append]
    omega

/-- **Any run keeps every pointer in one place.** -/
theorem custody_exec {ops : List (Op P)} {w : Pool P} (h : exec step {} ops = some w) :
    Custody w :=
  exec_invariant (fun _ _ _ => custody_step) custody_init h

/-- With `Custody`, an adopted pointer has one owner, or was freed once, or was given
up once, and the other two are not the case. -/
theorem Custody.place {w : Pool P} (hw : Custody w) {p : P} (hp : p ∈ w.adopted) :
    ((∃! i, w.Owns i p) ∧ w.freed.count p = 0 ∧ w.released.count p = 0) ∨
    ((¬ ∃ i, w.Owns i p) ∧ w.freed.count p = 1 ∧ w.released.count p = 0) ∨
    ((¬ ∃ i, w.Owns i p) ∧ w.freed.count p = 0 ∧ w.released.count p = 1) := by
  have hsum := hw.1 p
  rw [List.count_eq_one_of_mem hw.2 hp] at hsum
  by_cases hown : 0 < w.owners p
  · obtain ⟨i, hi⟩ := owners_pos.mp hown
    refine Or.inl ⟨⟨i, hi, ?_⟩, by omega, by omega⟩
    intro j hj
    obtain ⟨a, ha, hap⟩ := hi
    obtain ⟨b, hb, hbp⟩ := hj
    exact Arena.eq_of_tally_le_one (show w.owners p ≤ 1 by omega) hb ha
      (Handle.owns_pos.mpr hbp) (Handle.owns_pos.mpr hap)
  · have hno : ¬ ∃ i, w.Owns i p := fun h => hown (owners_pos.mpr h)
    by_cases hf : w.freed.count p = 1
    · exact Or.inr (Or.inl ⟨hno, hf, by omega⟩)
    · exact Or.inr (Or.inr ⟨hno, by omega, by omega⟩)

theorem Custody.adopted_of_owns {w : Pool P} (hw : Custody w) {i : Nat} {p : P}
    (h : w.Owns i p) : p ∈ w.adopted := by
  have hsum := hw.1 p
  have := owners_pos.mpr ⟨i, h⟩
  exact List.count_pos_iff.mp (by omega)

/-- **Every engine handle is closed exactly once.**  At every moment of every run an
adopted pointer has exactly one owner, or was passed to `Free` once, or was given up
once; no pointer is freed twice or both freed and given up; no two objects hold one
pointer; and when every object is gone every pointer was freed once or given up. -/
theorem handle_closed_exactly_once {ops : List (Op P)} {w : Pool P}
    (h : exec step {} ops = some w) :
    (∀ p ∈ w.adopted,
      ((∃! i, w.Owns i p) ∧ w.freed.count p = 0 ∧ w.released.count p = 0) ∨
      ((¬ ∃ i, w.Owns i p) ∧ w.freed.count p = 1 ∧ w.released.count p = 0) ∨
      ((¬ ∃ i, w.Owns i p) ∧ w.freed.count p = 0 ∧ w.released.count p = 1)) ∧
    (∀ p, w.freed.count p + w.released.count p ≤ 1) ∧
    (∀ i j p, w.Owns i p → w.Owns j p → i = j) ∧
    ((∀ i, w.handles.get i = none) →
      ∀ p ∈ w.adopted, w.freed.count p = 1 ∨ w.released.count p = 1) := by
  have hw := custody_exec h
  refine ⟨fun p hp => hw.place hp, ?_, ?_, ?_⟩
  · intro p
    have hsum := hw.1 p
    have := List.nodup_iff_count_le_one.mp hw.2 p
    omega
  · intro i j p hi hj
    rcases hw.place (hw.adopted_of_owns hi) with ⟨hone, -⟩ | ⟨hno, -⟩ | ⟨hno, -⟩
    · exact hone.unique hi hj
    · exact absurd ⟨i, hi⟩ hno
    · exact absurd ⟨i, hi⟩ hno
  · intro hgone p hp
    rcases hw.place hp with ⟨⟨i, ⟨a, ha, _⟩, _⟩, -⟩ | ⟨-, hf, -⟩ | ⟨-, -, hr⟩
    · rw [hgone i] at ha
      cases ha
    · exact Or.inl hf
    · exact Or.inr hr

theorem handle_closed_exactly_once_moves :
    ∃ w, exec step ({} : Pool Nat) [.construct 10, .construct 11, .moveAssign 0 1, .toArrow 0,
        .destroy 0, .destroy 1] = some w ∧
      ∀ p ∈ w.adopted, w.freed.count p = 1 ∨ w.released.count p = 1 := by
  have hrun : exec step ({} : Pool Nat) [.construct 10, .construct 11, .moveAssign 0 1,
      .toArrow 0, .destroy 0, .destroy 1]
      = some ⟨⟨[none, none]⟩, [10], [11], [11, 10]⟩ := rfl
  refine ⟨_, hrun, (handle_closed_exactly_once hrun).2.2.2 ?_⟩
  intro i
  match i with
  | 0 | 1 => rfl
  | i + 2 => rfl

end Pool

end ZuCpp
