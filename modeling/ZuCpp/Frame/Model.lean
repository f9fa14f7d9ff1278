import ZuCpp.Handle
import ZuCpp.Error

/-!
# `Frame`: what is passed along with a frame

A `Frame` reads buffers of the caller's, and `Frame::create` takes a `std::function` that says
when the engine is done with them, or a `shared_ptr` that keeps them alive until then.  What
the engine holds meanwhile is a `void*`: `create_impl` allocates the function, gives up its
`unique_ptr` when the frame was made, and `release_trampoline` runs the function and deletes it.

The first half of this file is these functions, on a heap of functions and control blocks.
The second half is a program with any number of `Frame` objects, and an engine that releases
a frame once the handle and every reader of it are gone.
-/

namespace ZuCpp.Frames

open Lib

inductive Callable
  /-- a callback of the caller's -/
  | call (k : Nat)
  /-- `[held = std::move(keepalive)]() mutable { held.reset(); }` -/
  | hold (held : Option Nat)
  deriving DecidableEq, Repr

/-- `std::function<void()>`; `none` is the empty one. -/
abbrev Function := Option Callable

/-- A frame of the engine's: the `owner` it was given, whether `zu_frame_free` is still to
come, and how many registrations and statements read it.  `given` is history, which no
function reads or writes: what `create` was given. -/
structure EngineFrame where
  owner : Option Nat
  handle : Bool
  readers : Nat
  given : Function := none
  deriving DecidableEq, Repr

/-- The `Frame` objects, the frames of the engine, the functions that `create_impl` allocated,
the control blocks with their use counts, and the `shared_ptr` objects of the caller's.
`ran` is the callbacks that ran, and `passed` those of the frames that were made. -/
structure World where
  frames : Arena (Handle Nat) := Arena.empty
  engine : Arena EngineFrame := Arena.empty
  functions : Arena Function := Arena.empty
  blocks : Arena Nat := Arena.empty
  pointers : Arena (Option Nat) := Arena.empty
  ran : List Nat := []
  passed : List Nat := []
  /-- something that is gone was used -/
  fault : Bool := false

namespace World

/-! ### What is on the heap -/

def unshare (w : World) (b : Nat) : World :=
  match w.blocks.get b with
  | none => { w with fault := true }
  | some n =>
    if n ≤ 1 then { w with blocks := w.blocks.drop b }
    else { w with blocks := w.blocks.put b (n - 1) }

def letGo (w : World) : Option Nat → World
  | none => w
  | some b => w.unshare b

def destroyFunction (w : World) : Function → World
  | some (.hold held) => w.letGo held
  | _ => w

def callFunction (w : World) (fn : Nat) : World :=
  match w.functions.get fn with
  | some (some (.call k)) => { w with ran := k :: w.ran }
  | some (some (.hold held)) =>
    ({ w with functions := w.functions.put fn (some (.hold none)) } : World).letGo held
  | _ => { w with fault := true }

def delete (w : World) (fn : Nat) : World :=
  match w.functions.get fn with
  | none => { w with fault := true }
  | some f => ({ w with functions := w.functions.drop fn } : World).destroyFunction f

def callIfFilled (w : World) (fn : Nat) : World :=
  match w.functions.get fn with
  | none => { w with fault := true }
  | some none => w
  | some (some _) => w.callFunction fn

def releaseTrampoline (w : World) : Option Nat → World
  | none => w
  | some fn => (w.callIfFilled fn).delete fn

/-! ### The engine -/

/-- When neither the handle nor a reader is left the frame goes, and the engine makes the
call back that it was given. -/
def settle (w : World) (f : Nat) : World :=
  match w.engine.get f with
  | none => w
  | some x =>
    if x.handle = false ∧ x.readers = 0 then
      ({ w with engine := w.engine.drop f } : World).releaseTrampoline x.owner
    else w

def zuFrameFree (w : World) (f : Nat) : World :=
  match w.engine.get f with
  | none => { w with fault := true }
  | some x =>
    if x.handle then
      ({ w with engine := w.engine.put f { x with handle := false } } : World).settle f
    else { w with fault := true }

def freeAll (w : World) (fs : List Nat) : World := fs.foldl zuFrameFree w

/-! ### `Frame::create_impl` -/

/-- `if (release) { owner = std::make_unique<..>(std::move(release)); }`, and `owner.get()`. -/
def makeOwner (w : World) (release : Function) : World × Option Nat :=
  match release with
  | none => (w, none)
  | some c =>
    ({ w with functions := w.functions.alloc (some c) }, some w.functions.next)

/-- `Frame::create_impl`, where `zu_frame_new` answers `st`: the `unique_ptr` gives up the
function when the frame was made, and deletes it otherwise. -/
def createImpl (w : World) (release : Function) (st : Status) : World :=
  let (w, owner) := w.makeOwner release
  if st = .ok ∨ st = .done then
    { w with
      engine := w.engine.alloc { owner, handle := true, readers := 0 }
      frames := w.frames.alloc (.ofPtr w.engine.next) }
  else
    match owner with
    | none => w
    | some fn => w.delete fn

/-! ### A program with frames -/

/-- One operation; an object is named by the number it was made under. -/
inductive Op
  /-- `std::make_shared<..>()` -/
  | share
  /-- `std::shared_ptr(p)` -/
  | copy (p : Nat)
  /-- `p.reset()` -/
  | reset (p : Nat)
  /-- `Frame::create(name, rows)` and `Frame::create(name, rows, release)` -/
  | create (release : Option Nat) (st : Status)
  /-- `Frame::create(name, rows, std::move(p))` -/
  | keep (p : Nat) (st : Status)
  /-- `Frame()` -/
  | default
  /-- `Frame(std::move(o))` -/
  | moveConstruct (o : Nat)
  /-- `i = std::move(o)` -/
  | moveAssign (i o : Nat)
  /-- `~Frame()` -/
  | destroy (i : Nat)
  /-- `conn.register_frame(i)` -/
  | register (i : Nat) (st : Status)
  /-- a statement starts to read a frame that is registered -/
  | read (f : Nat)
  /-- a frame is unregistered, or a statement that reads it ends -/
  | readDone (f : Nat)
  deriving DecidableEq, Repr

def callsOf : Function → List Nat
  | some (.call k) => [k]
  | _ => []

/-- The history of the frame `f`, once the engine made it. -/
def note (w : World) (f : Nat) (release : Function) (st : Status) : World :=
  if st = .ok ∨ st = .done then
    { w with
      engine :=
        match w.engine.get f with
        | none => w.engine
        | some x => w.engine.put f { x with given := release }
      passed := callsOf release ++ w.passed }
  else w

/-- One operation.  `none`: there is no such object, or no such reader. -/
def step (w : World) : Op → Option World
  | .share => some { w with
      blocks := w.blocks.alloc 1, pointers := w.pointers.alloc (some w.blocks.next) }
  | .copy p => do
    match ← w.pointers.get p with
    | none => some { w with pointers := w.pointers.alloc none }
    | some b =>
      match w.blocks.get b with
      | none => some { w with fault := true }
      | some n =>
        some { w with blocks := w.blocks.put b (n + 1), pointers := w.pointers.alloc (some b) }
  | .reset p => do
    let held ← w.pointers.get p
    some (({ w with pointers := w.pointers.put p none } : World).letGo held)
  | .create release st =>
    let release := release.map .call
    some ((w.createImpl release st).note w.engine.next release st)
  | .keep p st => do
    let held ← w.pointers.get p
    let release := some (.hold held)
    some ((({ w with pointers := w.pointers.put p none } : World).createImpl release st).note
      w.engine.next release st)
  | .default => some { w with frames := w.frames.alloc ⟨none⟩ }
  | .moveConstruct o => do
    let ho ← w.frames.get o
    let (new, ho) := ho.moveConstruct
    some { w with frames := (w.frames.put o ho).alloc new }
  | .moveAssign i o => do
    let hi ← w.frames.get i
    let ho ← w.frames.get o
    if i = o then some w
    else
      let r := hi.moveAssign ho
      some (({ w with frames := (w.frames.put o r.2.1).put i r.1 } : World).freeAll r.2.2)
  | .destroy i => do
    let hi ← w.frames.get i
    some (({ w with frames := w.frames.drop i } : World).freeAll hi.destroy)
  | .register i st => do
    let hi ← w.frames.get i
    match hi.p with
    | none => some w
    | some f =>
      match w.engine.get f with
      | none => some { w with fault := true }
      | some x =>
        if st = .ok ∨ st = .done then
          some { w with engine := w.engine.put f { x with readers := x.readers + 1 } }
        else some w
  | .read f => do
    let x ← w.engine.get f
    if x.readers = 0 then none
    else some { w with engine := w.engine.put f { x with readers := x.readers + 1 } }
  | .readDone f => do
    let x ← w.engine.get f
    if x.readers = 0 then none
    else
      some (({ w with
        engine := w.engine.put f { x with readers := x.readers - 1 } } : World).settle f)

end World

end ZuCpp.Frames
