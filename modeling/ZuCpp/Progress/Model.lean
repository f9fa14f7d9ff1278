import ZuCpp.Handle
import ZuCpp.Lib.Run

/-!
# The progress arrangement of a `Connection`

`on_progress` registers a callback with the engine, and with it the address of a `Watch`
that the `Connection` object keeps.  The handle and the watch have one owner each and move
between objects together, one after the other, while the engine holds the address of the
watch: `World` is the engine's connections, the `Connection` objects and the `Watch`
objects, `F` being the type of the callbacks.
-/

namespace ZuCpp.Progress

open Lib

variable {F : Type}

/-- An open `zu_conn`, as far as its progress arrangement goes.  `accepted` is history, which
no function reads or writes: the watcher of the last operation that was accepted. -/
structure EngineConn (F : Type) where
  callback : Bool := false
  userData : Option Nat := none
  every : UInt64 := 0
  accepted : Option F := none

/-- `Connection`: `h_`, and `watch_`, which is a `unique_ptr` and so a handle whose `Free`
is `delete`. -/
structure Connection where
  h : Handle Nat := {}
  watch : Handle Nat := {}
  deriving DecidableEq, Repr

structure World (F : Type) where
  engine : Arena (EngineConn F) := Arena.empty
  conns : Arena Connection := Arena.empty
  watches : Arena F := Arena.empty

namespace World

def makeWatch (watches : Arena F) : Option F → Arena F × Handle Nat
  | none => (watches, ⟨none⟩)
  | some f => (watches.alloc f, .ofPtr watches.next)

theorem makeWatch_get (watches : Arena F) (watcher : Option F) (j : Nat) :
    (makeWatch watches watcher).1.get j
      = if (makeWatch watches watcher).2.p = some j then watcher else watches.get j := by
  cases watcher with
  | none => rfl
  | some f =>
    show (watches.alloc f).get j = if some watches.next = some j then some f else watches.get j
    rw [Arena.get_alloc]
    exact if_congr (by rw [Option.some.injEq]; exact eq_comm) rfl rfl

theorem makeWatch_live (watches : Arena F) (watcher : Option F) (j : Nat) :
    (makeWatch watches watcher).1.live j
      = watches.live j + Handle.owns j (makeWatch watches watcher).2 := by
  cases watcher with
  | none => rfl
  | some f =>
    show (watches.alloc f).live j = watches.live j + Handle.owns j ⟨some watches.next⟩
    rw [Arena.live_alloc, Handle.owns_some]

theorem makeWatch_eq_next {watches : Arena F} {watcher : Option F} {j : Nat}
    (h : (makeWatch watches watcher).2.p = some j) : j = watches.next := by
  cases watcher with
  | none => cases h
  | some f =>
    cases h
    rfl

theorem makeWatch_fresh {watches : Arena F} {watcher : Option F} {j : Nat}
    (h : (makeWatch watches watcher).2.p = some j) : watches.get j = none := by
  rw [makeWatch_eq_next h]
  exact Arena.get_next

theorem makeWatch_ne {watches : Arena F} {watcher : Option F} {x : Nat} {f : F}
    (hf : watches.get x = some f) : (makeWatch watches watcher).2.p ≠ some x := by
  intro hm
  rw [makeWatch_fresh hm] at hf
  cases hf

theorem makeWatch_bind (watches : Arena F) (watcher : Option F) :
    (makeWatch watches watcher).2.p.bind (makeWatch watches watcher).1.get = watcher := by
  cases watcher with
  | none => rfl
  | some f => exact (Arena.get_alloc f _).trans (if_pos rfl)

theorem makeWatch_alive {watches : Arena F} {watcher : Option F} {j : Nat}
    (h : (makeWatch watches watcher).2.p = some j) :
    ∃ f, (makeWatch watches watcher).1.get j = some f := by
  cases watcher with
  | none => cases h
  | some f =>
    cases h
    exact ⟨f, (Arena.get_alloc f _).trans (if_pos rfl)⟩

theorem makeWatch_next (watches : Arena F) (watcher : Option F) :
    watches.next ≤ (makeWatch watches watcher).1.next := by
  cases watcher with
  | none => exact Nat.le_refl _
  | some f =>
    show watches.next ≤ (watches.alloc f).next
    rw [Arena.next_alloc]
    exact Nat.le_succ _

theorem makeWatch_destroy (watches : Arena F) (watcher : Option F) (x : Nat) :
    ((makeWatch watches watcher).1.dropAll (makeWatch watches watcher).2.destroy).get x
      = watches.get x := by
  show ((makeWatch watches watcher).1.dropAll (makeWatch watches watcher).2.p.toList).get x = _
  rw [Arena.get_dropAll, makeWatch_get]
  by_cases hx : (makeWatch watches watcher).2.p = some x
  · rw [if_pos (by rw [hx]; exact List.mem_singleton_self x), makeWatch_fresh hx]
  · rw [if_neg (fun hmem => hx (Option.mem_toList.mp hmem)), if_neg hx]

/-- `zu_conn_set_progress`, accepted or refused, on an open handle.  A null handle is
refused. -/
def zuConnSetProgress (engine : Arena (EngineConn F)) (h : Option Nat) (callback : Bool)
    (userData : Option Nat) (every : UInt64) (accepted : Bool) : Option (Arena (EngineConn F)) :=
  if accepted then do
    let h ← h
    let k ← engine.get h
    some (engine.put h { k with callback, userData, every })
  else some engine

/-- `Connection::set_progress_impl` on the object `c`, which is `self`. -/
def setProgressImpl (w : World F) (c : Nat) (self : Connection) (every : Int64)
    (watcher : Option F) (accepted : Bool) : Option (World F) :=
  let m := makeWatch w.watches watcher
  if accepted then do
    let e ← zuConnSetProgress w.engine self.h.p m.2.p.isSome m.2.p every.toUInt64 true
    -- `watch_ = std::move(next)` frees what was in place until the call returned
    let r := self.watch.moveAssign m.2
    some { w with
      engine := e, conns := w.conns.put c { self with watch := r.1 },
      watches := m.1.dropAll r.2.2 }
  else
    -- `next` goes away
    some { w with watches := m.1.dropAll m.2.destroy }

/-- The engine after `clear_progress_quietly` on `self`, which only calls it with a handle
and a watch. -/
def clearedEngine (engine : Arena (EngineConn F)) (self : Connection) (accepted : Bool) :
    Option (Arena (EngineConn F)) :=
  if self.h.p.isSome ∧ self.watch.p.isSome then
    zuConnSetProgress engine self.h.p false none 0 accepted
  else some engine

def clearProgressQuietly (w : World F) (self : Connection) (accepted : Bool) :
    Option (World F × Connection) := do
  let e ← clearedEngine w.engine self accepted
  let r := self.watch.reset none
  some ({ w with engine := e, watches := w.watches.dropAll r.2 }, { self with watch := r.1 })

end World

/-- One operation, with what the engine answers to the call it makes. -/
inductive Op (F : Type)
  /-- `Connection::open` and the like -/
  | connect
  /-- `Connection()` -/
  | noConnection
  /-- `on_progress` and `try_on_progress`; a `std::function` may be empty -/
  | onProgress (c : Nat) (every : Int64) (watcher : Option F) (accepted : Bool)
  /-- `clear_progress` -/
  | clearProgress (c : Nat) (accepted : Bool)
  /-- `Connection(std::move(c))` -/
  | moveConstruct (c : Nat)
  /-- `c = std::move(d)` -/
  | moveAssign (c d : Nat) (accepted : Bool)
  /-- `~Connection()` -/
  | destroy (c : Nat) (accepted : Bool)

namespace World

/-- The history of the handle `h`, once its engine accepted this watcher. -/
def note (w : World F) (h : Option Nat) (watcher : Option F) (accepted : Bool) : World F :=
  if accepted then
    match h with
    | none => w
    | some h =>
      match w.engine.get h with
      | none => w
      | some k => { w with engine := w.engine.put h { k with accepted := watcher } }
  else w

/-- One operation.  `none`: there is no such object, or the engine cannot answer so. -/
def step (w : World F) : Op F → Option (World F)
  | .connect => some { w with
      engine := w.engine.alloc {}, conns := w.conns.alloc ⟨.ofPtr w.engine.next, ⟨none⟩⟩ }
  | .noConnection => some { w with conns := w.conns.alloc {} }
  | .onProgress c every watcher accepted => do
    let self ← w.conns.get c
    let w ← w.setProgressImpl c self every watcher accepted
    some (w.note self.h.p watcher accepted)
  | .clearProgress c accepted => do
    let self ← w.conns.get c
    let w ← w.setProgressImpl c self 0 none accepted
    some (w.note self.h.p none accepted)
  | .moveConstruct c => do
    let o ← w.conns.get c
    let rh := o.h.moveConstruct
    let rw := o.watch.moveConstruct
    some { w with conns := (w.conns.put c ⟨rh.2, rw.2⟩).alloc ⟨rh.1, rw.1⟩ }
  | .moveAssign c d accepted => do
    let self ← w.conns.get c
    let o ← w.conns.get d
    if c = d then some w
    else do
      let r ← w.clearProgressQuietly self accepted
      let rh := r.2.h.moveAssign o.h
      let rw := r.2.watch.moveAssign o.watch
      some {
        engine := r.1.engine.dropAll rh.2.2
        conns := (w.conns.put d ⟨rh.2.1, rw.2.1⟩).put c ⟨rh.1, rw.1⟩
        watches := r.1.watches.dropAll rw.2.2 }
  | .destroy c accepted => do
    let self ← w.conns.get c
    let r ← w.clearProgressQuietly self accepted
    -- the members go in the reverse of the order they stand in
    some {
      engine := r.1.engine.dropAll r.2.h.destroy
      conns := w.conns.drop c
      watches := r.1.watches.dropAll r.2.watch.destroy }

end World

end ZuCpp.Progress
