import ZuCpp.Frame.Model

/-!
# Letting go of what a frame was passed

* **A callback runs once for each frame that was made with it, and not before the frame is
  gone** (`release_exactly_once`), and none is left over or run for a frame that was not made.
* **What a frame was to keep alive is alive as long as the frame** (`keepalive_outlives`).

Both are read off `Custody`: handles, functions, shares and callbacks are each counted where
they are, and what one operation takes from one place it brings to another.
-/

namespace ZuCpp.Frames

open Lib

namespace World

/-! ### What the functions of the header do -/

def keptBy : Function → Option Nat
  | some (.hold held) => held
  | _ => none

theorem destroyFunction_eq (w : World) (f : Function) :
    w.destroyFunction f = w.letGo (keptBy f) := by
  rcases f with _ | _ | _ <;> rfl

theorem letGo_functions (w : World) (F : Arena Function) (held : Option Nat) :
    ({ w with functions := F } : World).letGo held = { w.letGo held with functions := F } := by
  cases held with
  | none => rfl
  | some b =>
    rw [letGo, letGo, unshare, unshare]
    cases w.blocks.get b with
    | none => rfl
    | some n =>
      dsimp only
      split <;> rfl

/-- The trampoline runs the function and deletes it: the callback is made once, what the
function kept is let go once, and the function is gone. -/
theorem releaseTrampoline_some {w : World} {fn : Nat} {c : Callable}
    (h : w.functions.get fn = some (some c)) :
    w.releaseTrampoline (some fn) =
      ({ w with functions := w.functions.drop fn, ran := callsOf (some c) ++ w.ran } : World).letGo
        (keptBy (some c)) := by
  have hfilled : w.callIfFilled fn = w.callFunction fn := by
    rw [callIfFilled, h]
  rw [releaseTrampoline, hfilled, callFunction, h]
  cases c with
  | call k =>
    dsimp only
    rw [delete]
    dsimp only
    rw [h]
    rfl
  | hold held =>
    dsimp only
    have hput : (w.functions.put fn (some (.hold none))).get fn = some (some (.hold none)) := by
      rw [Arena.get_put h, if_pos rfl]
    have hdrop : (w.functions.put fn (some (.hold none))).drop fn = w.functions.drop fn := by
      simp only [Arena.drop, Arena.put, List.set_set]
    rw [letGo_functions, delete]
    dsimp only
    rw [hput, hdrop, ← letGo_functions]
    rfl

/-! ### Who owns what -/

end World

namespace EngineFrame

def handles (x : EngineFrame) : Nat := if x.handle then 1 else 0

def owns (o : Nat) (x : EngineFrame) : Nat := x.owner.toList.count o

def keeps (b : Nat) (x : EngineFrame) : Nat := (World.keptBy x.given).toList.count b

def calls (k : Nat) (x : EngineFrame) : Nat := (World.callsOf x.given).count k

end EngineFrame

namespace World

def open? (w : World) (f : Nat) : Nat := (w.engine.get f).elim 0 EngineFrame.handles

/-- How many `shared_ptr` objects share `b`. -/
def uses (w : World) (b : Nat) : Nat := (w.blocks.get b).getD 0

def Filled (w : World) (x : EngineFrame) : Prop :=
  x.owner.map w.functions.get = x.given.map fun c => some (some c)

/-- **Each thing has its owners.**  `hs` are the handles on their way to `zu_frame_free`, and
`bs` the shares on their way from one owner to another. -/
structure Custody (w : World) (hs bs : List Nat) : Prop where
  /-- nothing that is gone was used -/
  sound : w.fault = false
  /-- the handle of a frame is in one `Frame` object until it is freed -/
  handles : ∀ f, w.frames.tally (Handle.owns f) + hs.count f = w.open? f
  /-- a function is owned by one frame of the engine -/
  owned : ∀ o, w.engine.tally (EngineFrame.owns o) = w.functions.live o
  filled : ∀ f x, w.engine.get f = some x → w.Filled x
  /-- a use count counts -/
  shared : ∀ b, w.uses b = w.pointers.tally (fun p => p.toList.count b)
    + w.engine.tally (EngineFrame.keeps b) + bs.count b
  positive : ∀ b n, w.blocks.get b = some n → 0 < n
  /-- a callback that was passed is still to run, or ran -/
  ledger : ∀ k, w.ran.count k + w.engine.tally (EngineFrame.calls k) = w.passed.count k

/-- A frame that is there has its handle or a reader. -/
def Awake (w : World) : Prop :=
  ∀ f x, w.engine.get f = some x → x.handle = true ∨ 0 < x.readers

theorem custody_init : Custody {} [] [] where
  sound := rfl
  handles f := by
    change 0 + 0 = (Arena.empty.get f).elim 0 EngineFrame.handles
    rw [Arena.get_empty]
    rfl
  owned o := (Arena.live_empty o).symm
  filled f x h := by
    change Arena.empty.get f = some x at h
    rw [Arena.get_empty] at h
    cases h
  shared b := by
    change (Arena.empty.get b).getD 0 = 0 + 0 + 0
    rw [Arena.get_empty]
    rfl
  positive b n h := by
    change Arena.empty.get b = some n at h
    rw [Arena.get_empty] at h
    cases h
  ledger _ := rfl

variable {w : World} {hs bs : List Nat}

theorem unshare_eq {b n : Nat} (hget : w.blocks.get b = some n)
    (hpos : ∀ c m, w.blocks.get c = some m → 0 < m) :
    ∃ B, w.unshare b = { w with blocks := B } ∧
      (∀ c, (B.get c).getD 0 + [b].count c = w.uses c) ∧ ∀ c m, B.get c = some m → 0 < m := by
  have hn := hpos b n hget
  have hcount : ∀ c, [b].count c = if c = b then 1 else 0 := by
    intro c
    rw [List.count_singleton]
    exact if_congr (by rw [beq_iff_eq, eq_comm]) rfl rfl
  rw [unshare, hget]
  dsimp only
  by_cases hlast : n ≤ 1
  · rw [if_pos hlast]
    refine ⟨_, rfl, ?_, Arena.all_drop hpos b⟩
    intro c
    rw [Arena.get_drop, hcount, uses]
    split
    · rename_i hc
      rw [hc, hget, Option.getD_none, Option.getD_some]
      omega
    · rfl
  · rw [if_neg hlast]
    refine ⟨_, rfl, ?_, Arena.all_put hpos hget (by omega)⟩
    intro c
    rw [Arena.get_put hget, hcount, uses]
    split
    · rename_i hc
      rw [hc, hget, Option.getD_some, Option.getD_some]
      omega
    · rfl

theorem Custody.letGo {held : Option Nat} (hw : Custody w hs (held.toList ++ bs)) :
    Custody (w.letGo held) hs bs := by
  cases held with
  | none => exact hw
  | some b =>
    have hshared : ∀ c, w.uses c = w.pointers.tally (fun p => p.toList.count c)
        + w.engine.tally (EngineFrame.keeps c) + ([b].count c + bs.count c) := by
      intro c
      rw [hw.shared c, Option.toList_some, List.count_append]
    cases hget : w.blocks.get b with
    | none =>
      have hb := hshared b
      rw [uses, hget, Option.getD_none, List.count_singleton_self] at hb
      omega
    | some n =>
      obtain ⟨B, heq, hB, hpos⟩ := unshare_eq hget hw.positive
      rw [World.letGo, heq]
      refine { hw with shared := ?_, positive := hpos }
      intro c
      have hc := hshared c
      have hBc := hB c
      change (B.get c).getD 0 = _
      dsimp only
      omega

theorem Custody.take {p : Nat} {held : Option Nat} (hw : Custody w hs bs)
    (hp : w.pointers.get p = some held) :
    Custody { w with pointers := w.pointers.put p none } hs (held.toList ++ bs) := by
  refine { hw with shared := ?_ }
  intro b
  have hb := hw.shared b
  have ht := Arena.tally_put hp none fun p => p.toList.count b
  rw [Option.toList_none, List.count_nil] at ht
  change w.uses b = _
  dsimp only
  rw [List.count_append]
  omega

/-- A frame that goes passes on what it kept, and makes its call. -/
theorem Custody.gone {f : Nat} {x : EngineFrame} (hw : Custody w hs bs)
    (hget : w.engine.get f = some x) (hx : x.handle = false) :
    Custody { w with
      engine := w.engine.drop f, functions := w.functions.dropAll x.owner.toList
      ran := callsOf x.given ++ w.ran } hs ((keptBy x.given).toList ++ bs) := by
  have howner : ∀ o ∈ x.owner, 0 < w.functions.live o := by
    intro o ho
    rw [← hw.owned o]
    refine Nat.lt_of_lt_of_le ?_ (Arena.le_tally hget _)
    rw [EngineFrame.owns, Option.mem_def.mp ho, Option.toList_some, List.count_singleton_self]
    exact Nat.one_pos
  refine { hw with handles := ?_, owned := ?_, filled := ?_, shared := ?_, ledger := ?_ }
  · intro g
    have hg := hw.handles g
    rw [open?] at hg ⊢
    dsimp only
    rw [Arena.get_drop]
    split
    · rename_i hgf
      rw [hgf, hget, Option.elim_some, EngineFrame.handles, hx] at hg
      rw [hgf]
      exact hg
    · exact hg
  · intro o
    have ht := Arena.tally_drop hget (EngineFrame.owns o)
    have hl := Arena.live_dropAll_toList howner o
    have ho := hw.owned o
    rw [EngineFrame.owns] at ht
    dsimp only
    omega
  · intro g y hy
    rw [Arena.get_drop] at hy
    split at hy
    · cases hy
    · rename_i hgf
      have hfill := hw.filled g y hy
      rw [Filled] at hfill ⊢
      rw [← hfill]
      cases hyo : y.owner with
      | none => rfl
      | some o =>
        rw [Option.map_some, Option.map_some, Arena.get_dropAll, if_neg]
        intro ho
        -- two frames of the engine do not own one function
        have hone : w.engine.tally (EngineFrame.owns o) ≤ 1 := by
          rw [hw.owned o, Arena.live]
          split <;> omega
        refine hgf (Arena.eq_of_tally_le_one hone hy hget ?_ ?_)
        · rw [EngineFrame.owns, hyo, Option.toList_some, List.count_singleton_self]
          exact Nat.one_pos
        · rw [EngineFrame.owns]
          exact List.count_pos_iff.mpr ho
  · intro b
    have ht := Arena.tally_drop hget (EngineFrame.keeps b)
    have hb := hw.shared b
    rw [EngineFrame.keeps] at ht
    rw [List.count_append]
    change w.uses b = _
    dsimp only
    omega
  · intro k
    have ht := Arena.tally_drop hget (EngineFrame.calls k)
    have hk := hw.ledger k
    rw [EngineFrame.calls] at ht
    dsimp only
    rw [List.count_append]
    omega

/-- The engine is done with a frame: its call is made, and what it owned goes. -/
theorem Custody.released {f : Nat} {x : EngineFrame} (hw : Custody w hs bs)
    (hget : w.engine.get f = some x) (hx : x.handle = false) :
    Custody (({ w with engine := w.engine.drop f } : World).releaseTrampoline x.owner) hs bs := by
  have hgone := hw.gone hget hx
  have hfill := hw.filled f x hget
  rw [Filled] at hfill
  cases howner : x.owner with
  | none =>
    have hgiven : x.given = none := by
      rw [howner, Option.map_none] at hfill
      exact Option.map_eq_none_iff.mp hfill.symm
    rw [howner, hgiven] at hgone
    exact hgone
  | some fn =>
    cases hgiven : x.given with
    | none =>
      rw [howner, hgiven, Option.map_some, Option.map_none] at hfill
      cases hfill
    | some c =>
      rw [howner, hgiven, Option.map_some, Option.map_some, Option.some.injEq] at hfill
      have hrun : ({ w with engine := w.engine.drop f } : World).functions.get fn
          = some (some c) := hfill
      rw [releaseTrampoline_some hrun]
      rw [howner, hgiven] at hgone
      exact hgone.letGo

theorem unshare_engine (w : World) (b : Nat) : (w.unshare b).engine = w.engine := by
  rw [unshare]
  split
  · rfl
  · split <;> rfl

theorem letGo_engine (w : World) (held : Option Nat) : (w.letGo held).engine = w.engine := by
  cases held with
  | none => rfl
  | some b => exact w.unshare_engine b

theorem delete_engine (w : World) (fn : Nat) : (w.delete fn).engine = w.engine := by
  rw [delete]
  split
  · rfl
  · rw [destroyFunction_eq, letGo_engine]

theorem callIfFilled_engine (w : World) (fn : Nat) : (w.callIfFilled fn).engine = w.engine := by
  rw [callIfFilled]
  split
  · rfl
  · rfl
  · rw [callFunction]
    split
    · rfl
    · rw [letGo_engine]
    · rfl

theorem releaseTrampoline_engine (w : World) (owner : Option Nat) :
    (w.releaseTrampoline owner).engine = w.engine := by
  cases owner with
  | none => rfl
  | some fn => rw [releaseTrampoline, delete_engine, callIfFilled_engine]

/-- After `settle` the frame has its handle or a reader, or is gone. -/
theorem Custody.settle {f : Nat} (hw : Custody w hs bs)
    (hawake : ∀ g x, g ≠ f → w.engine.get g = some x → x.handle = true ∨ 0 < x.readers) :
    Custody (w.settle f) hs bs ∧ Awake (w.settle f) := by
  rw [World.settle]
  cases hget : w.engine.get f with
  | none =>
    refine ⟨hw, fun g x hx => hawake g x ?_ hx⟩
    rintro rfl
    rw [hget] at hx
    cases hx
  | some x =>
    dsimp only
    by_cases hdone : x.handle = false ∧ x.readers = 0
    · rw [if_pos hdone]
      refine ⟨hw.released hget hdone.1, ?_⟩
      intro g y hy
      rw [releaseTrampoline_engine] at hy
      dsimp only at hy
      rw [Arena.get_drop] at hy
      split at hy
      · cases hy
      · rename_i hg
        exact hawake g y hg hy
    · rw [if_neg hdone]
      refine ⟨hw, fun g y hy => ?_⟩
      by_cases hg : g = f
      · rw [hg, hget, Option.some.injEq] at hy
        subst hy
        by_contra hno
        rw [not_or, Bool.not_eq_true, Nat.not_lt, Nat.le_zero] at hno
        exact hdone hno
      · exact hawake g y hg hy

theorem Custody.put {hs' : List Nat} {f : Nat} {x x' : EngineFrame} (hw : Custody w hs bs)
    (hget : w.engine.get f = some x) (howner : x'.owner = x.owner) (hgiven : x'.given = x.given)
    (hhs : ∀ g, hs'.count g + (if g = f then x.handles else 0)
      = hs.count g + if g = f then x'.handles else 0) :
    Custody { w with engine := w.engine.put f x' } hs' bs := by
  refine { hw with handles := ?_, owned := ?_, filled := ?_, shared := ?_, ledger := ?_ }
  · intro g
    have hg := hw.handles g
    have hg' := hhs g
    rw [open?] at hg ⊢
    dsimp only
    rw [Arena.get_put hget]
    split at hg' <;> rename_i hgf
    · rw [hgf, hget, Option.elim_some] at hg
      rw [if_pos hgf, Option.elim_some, hgf]
      rw [hgf] at hg'
      omega
    · rw [if_neg hgf]
      omega
  · intro o
    have ht := Arena.tally_put hget x' (EngineFrame.owns o)
    have ho := hw.owned o
    have heq : EngineFrame.owns o x' = EngineFrame.owns o x := by
      rw [EngineFrame.owns, EngineFrame.owns, howner]
    dsimp only
    omega
  · refine Arena.all_put (P := w.Filled) hw.filled hget ?_
    have hx := hw.filled f x hget
    rw [Filled] at hx ⊢
    rw [howner, hgiven, hx]
  · intro b
    have ht := Arena.tally_put hget x' (EngineFrame.keeps b)
    have hb := hw.shared b
    have heq : EngineFrame.keeps b x' = EngineFrame.keeps b x := by
      rw [EngineFrame.keeps, EngineFrame.keeps, hgiven]
    change w.uses b = _
    dsimp only
    omega
  · intro k
    have ht := Arena.tally_put hget x' (EngineFrame.calls k)
    have hk := hw.ledger k
    have heq : EngineFrame.calls k x' = EngineFrame.calls k x := by
      rw [EngineFrame.calls, EngineFrame.calls, hgiven]
    dsimp only
    omega

theorem awake_put {f : Nat} {x x' : EngineFrame} (hget : w.engine.get f = some x)
    (hawake : Awake w) : ∀ g y, g ≠ f → (w.engine.put f x').get g = some y →
      y.handle = true ∨ 0 < y.readers := by
  intro g y hg hy
  rw [Arena.get_put hget, if_neg hg] at hy
  exact hawake g y hy

theorem Custody.zuFrameFree {f : Nat} (hw : Custody w (f :: hs) bs) (hawake : Awake w) :
    Custody (w.zuFrameFree f) hs bs ∧ Awake (w.zuFrameFree f) := by
  have hf := hw.handles f
  rw [List.count_cons_self, open?] at hf
  rw [World.zuFrameFree]
  cases hget : w.engine.get f with
  | none =>
    rw [hget, Option.elim_none] at hf
    omega
  | some x =>
    rw [hget, Option.elim_some, EngineFrame.handles] at hf
    dsimp only
    by_cases hx : x.handle = true
    · rw [if_pos hx]
      refine Custody.settle (hw.put hget rfl rfl ?_) (awake_put hget hawake)
      intro g
      rw [List.count_cons, EngineFrame.handles, EngineFrame.handles, if_pos hx]
      by_cases hg : g = f
      · rw [if_pos hg, if_pos hg, hg, if_pos (beq_self_eq_true f)]
        rfl
      · rw [if_neg hg, if_neg hg, if_neg (by rw [beq_iff_eq]; exact Ne.symm hg)]
    · rw [if_neg hx] at hf
      omega

theorem Custody.freeAll {fs : List Nat} : ∀ {w : World}, Custody w (fs ++ hs) bs → Awake w →
    Custody (w.freeAll fs) hs bs ∧ Awake (w.freeAll fs) := by
  induction fs with
  | nil => exact fun hw hawake => ⟨hw, hawake⟩
  | cons f fs ih =>
    intro w hw hawake
    rw [World.freeAll, List.foldl_cons, ← World.freeAll]
    obtain ⟨hw', hawake'⟩ := Custody.zuFrameFree hw hawake
    exact ih hw' hawake'

theorem filled_of_le {F : Arena Function}
    (hF : ∀ o fn, w.functions.get o = some fn → F.get o = some fn) {x : EngineFrame}
    (hx : w.Filled x) : ({ w with functions := F } : World).Filled x := by
  rw [Filled] at hx ⊢
  cases howner : x.owner with
  | none =>
    rw [howner] at hx
    exact hx
  | some o =>
    rw [howner] at hx
    cases hgiven : x.given with
    | none =>
      rw [hgiven] at hx
      cases hx
    | some c =>
      rw [hgiven, Option.map_some, Option.map_some, Option.some.injEq] at hx
      exact congrArg some (hF o _ hx)

/-- A frame that was made owns the function, and what the function keeps. -/
theorem Custody.made {F : Arena Function} {owner : Option Nat} {release : Function}
    (hw : Custody w hs ((keptBy release).toList ++ bs))
    (hlive : ∀ o, F.live o = w.functions.live o + owner.toList.count o)
    (hF : ∀ o fn, w.functions.get o = some fn → F.get o = some fn)
    (howner : owner.map F.get = release.map fun c => some (some c)) :
    Custody { w with
      functions := F, engine := w.engine.alloc ⟨owner, true, 0, release⟩
      frames := w.frames.alloc (.ofPtr w.engine.next)
      passed := callsOf release ++ w.passed } hs bs := by
  refine { hw with handles := ?_, owned := ?_, filled := ?_, shared := ?_, ledger := ?_ }
  · intro g
    have hg := hw.handles g
    rw [open?] at hg ⊢
    dsimp only
    rw [Arena.tally_alloc, Arena.get_alloc, Handle.ofPtr, Handle.owns_some]
    by_cases hgn : g = w.engine.next
    · rw [hgn, Arena.get_next, Option.elim_none] at hg
      rw [if_pos hgn, if_pos hgn.symm, Option.elim_some, EngineFrame.handles, if_pos rfl, hgn]
      omega
    · rw [if_neg hgn, if_neg (Ne.symm hgn)]
      exact hg
  · intro o
    have ho := hw.owned o
    have hl := hlive o
    dsimp only
    rw [Arena.tally_alloc, EngineFrame.owns]
    dsimp only
    omega
  · refine Arena.all_alloc (fun f x hx => filled_of_le hF (hw.filled f x hx)) ?_
    exact howner
  · intro b
    have hb := hw.shared b
    rw [List.count_append] at hb
    change w.uses b = _
    dsimp only
    rw [Arena.tally_alloc, EngineFrame.keeps]
    dsimp only
    omega
  · intro k
    have hk := hw.ledger k
    dsimp only
    rw [Arena.tally_alloc, List.count_append, EngineFrame.calls]
    dsimp only
    omega

theorem note_made {F : Arena Function} {owner : Option Nat} {release : Function} {st : Status}
    (hst : st = .ok ∨ st = .done) :
    ({ w with
        functions := F, engine := w.engine.alloc { owner, handle := true, readers := 0 }
        frames := w.frames.alloc (.ofPtr w.engine.next) } : World).note w.engine.next release st
      = { w with
        functions := F, engine := w.engine.alloc ⟨owner, true, 0, release⟩
        frames := w.frames.alloc (.ofPtr w.engine.next)
        passed := callsOf release ++ w.passed } := by
  have hget : (w.engine.alloc { owner, handle := true, readers := 0 }).get w.engine.next
      = some { owner, handle := true, readers := 0 } := by
    rw [Arena.get_alloc, if_pos rfl]
  rw [note, if_pos hst]
  dsimp only
  rw [hget]
  dsimp only
  rw [Arena.put_alloc]

/-- **`create_impl` loses nothing**, whether the frame is made or not. -/
theorem Custody.createImpl {release : Function} {st : Status}
    (hw : Custody w hs ((keptBy release).toList ++ bs)) (hawake : Awake w) :
    Custody ((w.createImpl release st).note w.engine.next release st) hs bs ∧
      Awake ((w.createImpl release st).note w.engine.next release st) := by
  have hnew : ∀ owner, ∀ f x, (w.engine.alloc ⟨owner, true, 0, release⟩).get f = some x →
      x.handle = true ∨ 0 < x.readers := fun owner =>
    Arena.all_alloc hawake (Or.inl rfl)
  rw [World.createImpl]
  cases release with
  | none =>
    rw [makeOwner]
    dsimp only
    split
    · rename_i hst
      rw [note_made hst]
      exact ⟨hw.made (fun _ => rfl) (fun _ _ h => h) rfl, hnew none⟩
    · rename_i hst
      rw [note, if_neg hst]
      exact ⟨hw, hawake⟩
  | some c =>
    rw [makeOwner]
    dsimp only
    have hget : (w.functions.alloc (some c)).get w.functions.next = some (some c) := by
      rw [Arena.get_alloc, if_pos rfl]
    split
    · rename_i hst
      rw [note_made hst]
      refine ⟨hw.made ?_ ?_ ?_, hnew _⟩
      · intro o
        rw [Arena.live_alloc, Option.toList_some, List.count_singleton]
        simp only [beq_iff_eq]
      · intro o fn ho
        rw [Arena.get_alloc, if_neg (Nat.ne_of_lt (Arena.lt_next_of_get ho)), ho]
      · rw [Option.map_some, Option.map_some, hget]
    · -- the function goes with its `unique_ptr`, and was never called
      rename_i hst
      rw [note, if_neg hst]
      have hsame : ∀ o, ((w.functions.alloc (some c)).drop w.functions.next).get o
          = w.functions.get o := by
        intro o
        rw [Arena.get_drop, Arena.get_alloc]
        split
        · rename_i ho
          rw [ho, Arena.get_next]
        · rfl
      rw [delete]
      dsimp only
      rw [hget]
      dsimp only
      rw [destroyFunction_eq]
      refine ⟨Custody.letGo { hw with owned := ?_, filled := ?_ }, ?_⟩
      · intro o
        dsimp only
        rw [hw.owned o, Arena.live, Arena.live, hsame]
      · exact fun f x hx => filled_of_le (fun o fn ho => (hsame o).trans ho) (hw.filled f x hx)
      · rw [Awake, letGo_engine]
        exact hawake

/-! ### Whole runs -/

theorem Custody.share (hw : Custody w hs bs) : Custody { w with
    blocks := w.blocks.alloc 1, pointers := w.pointers.alloc (some w.blocks.next) } hs bs := by
  refine { hw with shared := ?_, positive := Arena.all_alloc hw.positive Nat.one_pos }
  intro b
  have hb := hw.shared b
  rw [uses] at hb ⊢
  dsimp only
  rw [Arena.tally_alloc, Arena.get_alloc, Option.toList_some, List.count_singleton]
  by_cases hbn : b = w.blocks.next
  · rw [hbn, Arena.get_next, Option.getD_none] at hb
    rw [if_pos hbn, Option.getD_some, if_pos (by rw [beq_iff_eq, hbn]), hbn]
    omega
  · rw [if_neg hbn, if_neg (by rw [beq_iff_eq]; exact Ne.symm hbn)]
    omega

/-- A pointer that is copied is counted, so what it shares is there. -/
theorem Custody.block_of_pointer {p b : Nat} (hw : Custody w hs bs)
    (hp : w.pointers.get p = some (some b)) : ∃ n, w.blocks.get b = some n := by
  have hb := hw.shared b
  have hle := Arena.le_tally hp fun p => p.toList.count b
  rw [Option.toList_some, List.count_singleton_self] at hle
  cases hget : w.blocks.get b with
  | none =>
    rw [uses, hget, Option.getD_none] at hb
    omega
  | some n => exact ⟨n, rfl⟩

theorem Custody.copy {b n : Nat} (hw : Custody w hs bs) (hget : w.blocks.get b = some n) :
    Custody { w with
      blocks := w.blocks.put b (n + 1), pointers := w.pointers.alloc (some b) } hs bs := by
  refine { hw with shared := ?_, positive := Arena.all_put hw.positive hget (Nat.succ_pos n) }
  intro c
  have hc := hw.shared c
  rw [uses] at hc ⊢
  dsimp only
  rw [Arena.tally_alloc, Arena.get_put hget, Option.toList_some, List.count_singleton]
  by_cases hcb : c = b
  · rw [hcb, hget, Option.getD_some] at hc
    rw [if_pos hcb, Option.getD_some, if_pos (by rw [beq_iff_eq, hcb]), hcb]
    omega
  · rw [if_neg hcb, if_neg (by rw [beq_iff_eq]; exact Ne.symm hcb)]
    omega

/-- The handle that a `Frame` object has is one of a frame that is there. -/
theorem Custody.frame_of_handle {i f : Nat} {hi : Handle Nat} (hw : Custody w hs bs)
    (hget : w.frames.get i = some hi) (hp : hi.p = some f) : ∃ x, w.engine.get f = some x := by
  have hh := hw.handles f
  have hle := Arena.le_tally hget (Handle.owns f)
  have hpos := Handle.owns_pos.mpr hp
  cases hf : w.engine.get f with
  | none =>
    rw [open?, hf, Option.elim_none] at hh
    omega
  | some x => exact ⟨x, rfl⟩

theorem Custody.read {f : Nat} {x : EngineFrame} (hw : Custody w hs bs) (hawake : Awake w)
    (hf : w.engine.get f = some x) :
    Custody { w with engine := w.engine.put f { x with readers := x.readers + 1 } } hs bs ∧
      Awake { w with engine := w.engine.put f { x with readers := x.readers + 1 } } :=
  ⟨hw.put hf rfl rfl fun _ => rfl, Arena.all_put hawake hf (Or.inr (Nat.succ_pos x.readers))⟩

theorem custody_step {w' : World} {op : Op} (hw : Custody w [] []) (hawake : Awake w)
    (h : w.step op = some w') : Custody w' [] [] ∧ Awake w' := by
  cases op with
  | share =>
    cases h
    exact ⟨hw.share, hawake⟩
  | copy p =>
    simp only [step, Option.bind_eq_bind, Option.bind_eq_some_iff] at h
    obtain ⟨held, hp, h⟩ := h
    cases held with
    | none =>
      cases h
      refine ⟨{ hw with shared := ?_ }, hawake⟩
      intro b
      have hb := hw.shared b
      change w.uses b = _
      dsimp only
      rw [Arena.tally_alloc]
      exact hb
    | some b =>
      obtain ⟨n, hget⟩ := hw.block_of_pointer hp
      dsimp only at h
      rw [hget] at h
      cases h
      exact ⟨hw.copy hget, hawake⟩
  | reset p =>
    simp only [step, Option.bind_eq_bind, Option.bind_eq_some_iff] at h
    obtain ⟨held, hp, h⟩ := h
    cases h
    refine ⟨(hw.take hp).letGo, ?_⟩
    rw [Awake, letGo_engine]
    exact hawake
  | create release st =>
    cases h
    have hnone : keptBy (release.map .call) = none := by cases release <;> rfl
    refine Custody.createImpl ?_ hawake
    rw [hnone]
    exact hw
  | keep p st =>
    simp only [step, Option.bind_eq_bind, Option.bind_eq_some_iff] at h
    obtain ⟨held, hp, h⟩ := h
    cases h
    exact Custody.createImpl (hw.take hp) hawake
  | default =>
    cases h
    refine ⟨{ hw with handles := ?_ }, hawake⟩
    intro f
    dsimp only
    rw [Arena.tally_alloc, Handle.owns_none]
    exact hw.handles f
  | moveConstruct o =>
    simp only [step, Option.bind_eq_bind, Option.bind_eq_some_iff] at h
    obtain ⟨ho, hget, h⟩ := h
    cases h
    refine ⟨{ hw with handles := ?_ }, hawake⟩
    intro f
    have hf := hw.handles f
    have ht := Arena.tally_put hget ho.moveConstruct.2 (Handle.owns f)
    have hb := Handle.moveConstruct_balance f ho
    change _ = w.open? f
    dsimp only
    rw [Arena.tally_alloc]
    omega
  | moveAssign i o =>
    simp only [step, Option.bind_eq_bind, Option.bind_eq_some_iff] at h
    obtain ⟨hi, hgeti, ho, hgeto, h⟩ := h
    split at h
    · -- `this == &o`: nothing happens
      cases h
      exact ⟨hw, hawake⟩
    · rename_i hne
      cases h
      refine Custody.freeAll { hw with handles := ?_ } hawake
      intro f
      have hf := hw.handles f
      have hgeti' : (w.frames.put o (hi.moveAssign ho).2.1).get i = some hi := by
        rw [Arena.get_put hgeto, if_neg hne, hgeti]
      have ht := Arena.tally_put hgeto (hi.moveAssign ho).2.1 (Handle.owns f)
      have ht' := Arena.tally_put hgeti' (hi.moveAssign ho).1 (Handle.owns f)
      have hb := Handle.moveAssign_balance f hi ho
      rw [List.append_nil]
      change _ = w.open? f
      rw [List.count_nil] at hf
      dsimp only
      omega
  | destroy i =>
    simp only [step, Option.bind_eq_bind, Option.bind_eq_some_iff] at h
    obtain ⟨hi, hget, h⟩ := h
    cases h
    refine Custody.freeAll { hw with handles := ?_ } hawake
    intro f
    have hf := hw.handles f
    have ht := Arena.tally_drop hget (Handle.owns f)
    have hb := Handle.destroy_balance f hi
    rw [List.append_nil]
    change _ = w.open? f
    rw [List.count_nil] at hf
    dsimp only
    omega
  | register i st =>
    simp only [step, Option.bind_eq_bind, Option.bind_eq_some_iff] at h
    obtain ⟨hi, hget, h⟩ := h
    cases hp : hi.p with
    | none =>
      rw [hp] at h
      cases h
      exact ⟨hw, hawake⟩
    | some f =>
      obtain ⟨x, hf⟩ := hw.frame_of_handle hget hp
      rw [hp] at h
      dsimp only at h
      rw [hf] at h
      dsimp only at h
      split at h
      · cases h
        exact hw.read hawake hf
      · cases h
        exact ⟨hw, hawake⟩
  | read f =>
    simp only [step, Option.bind_eq_bind, Option.bind_eq_some_iff] at h
    obtain ⟨x, hf, h⟩ := h
    split at h
    · cases h
    · cases h
      exact hw.read hawake hf
  | readDone f =>
    simp only [step, Option.bind_eq_bind, Option.bind_eq_some_iff] at h
    obtain ⟨x, hf, h⟩ := h
    split at h
    · cases h
    · cases h
      exact Custody.settle (hw.put hf rfl rfl fun _ => rfl) (awake_put hf hawake)

theorem custody_exec {ops : List Op} (h : exec step {} ops = some w) :
    Custody w [] [] ∧ Awake w := by
  refine exec_invariant (I := fun w => Custody w [] [] ∧ Awake w)
    (fun _ _ _ hw => custody_step hw.1 hw.2) ⟨custody_init, ?_⟩ h
  intro f x hx
  change Arena.empty.get f = some x at hx
  rw [Arena.get_empty] at hx
  cases hx

/-- With no handle and no reader left, no frame of the engine is. -/
theorem engine_of_rest (hw : Custody w [] []) (hawake : Awake w)
    (hframes : ∀ i h, w.frames.get i = some h → h.p = none)
    (hreaders : ∀ f x, w.engine.get f = some x → x.readers = 0) (f : Nat) :
    w.engine.get f = none := by
  cases hget : w.engine.get f with
  | none => rfl
  | some x =>
    have hf := hw.handles f
    have hx := hreaders f x hget
    rcases hawake f x hget with hhandle | hread
    · rw [open?, hget, Option.elim_some, EngineFrame.handles, if_pos hhandle, List.count_nil,
        Nat.add_zero] at hf
      have hpos : 0 < w.frames.tally (Handle.owns f) := by omega
      obtain ⟨i, h, hi, howns⟩ := Arena.exists_of_tally_pos hpos
      rw [Handle.owns_pos, hframes i h hi] at howns
      cases howns
    · omega

theorem tally_eq_zero {α : Type*} {A : Arena α} (h : ∀ i, A.get i = none) (f : α → Nat) :
    A.tally f = 0 := by
  by_contra hne
  obtain ⟨i, a, hi, -⟩ := Arena.exists_of_tally_pos (Nat.pos_of_ne_zero hne)
  rw [h i] at hi
  cases hi

/-- **A callback runs once for each frame that was made with it, and not before the frame is
gone.**  In every state of every program, nothing that is gone was used, and each callback ran
as often as frames made with it are gone; a frame is there as long as its handle or a reader
is.  When neither is left for any, every callback that was passed ran, once for each frame,
and every function that was allocated is deleted. -/
theorem release_exactly_once {ops : List Op} (h : exec step {} ops = some w) :
    w.fault = false ∧
    (∀ k, w.ran.count k + w.engine.tally (EngineFrame.calls k) = w.passed.count k) ∧
    (∀ f x, w.engine.get f = some x → x.handle = true ∨ 0 < x.readers) ∧
    ((∀ i h, w.frames.get i = some h → h.p = none) →
      (∀ f x, w.engine.get f = some x → x.readers = 0) →
      (∀ k, w.ran.count k = w.passed.count k) ∧ ∀ fn, w.functions.get fn = none) := by
  obtain ⟨hw, hawake⟩ := custody_exec h
  refine ⟨hw.sound, hw.ledger, hawake, fun hframes hreaders => ?_⟩
  have hengine := engine_of_rest hw hawake hframes hreaders
  constructor
  · intro k
    have hk := hw.ledger k
    rw [tally_eq_zero hengine, Nat.add_zero] at hk
    exact hk
  · intro fn
    have hfn := hw.owned fn
    rw [tally_eq_zero hengine] at hfn
    cases hget : w.functions.get fn with
    | none => rfl
    | some f =>
      have hpos : 0 < w.functions.live fn := Arena.live_pos.mpr ⟨f, hget⟩
      omega

def handOver : List Op :=
  [.share, .copy 0, .keep 1 .ok, .register 0 .ok, .read 0, .readDone 0, .reset 0,
    .create (some 7) .error, .create (some 8) .ok, .moveAssign 0 1, .readDone 0, .destroy 0]

theorem release_exactly_once_handOver : ∃ w, exec step {} handOver = some w ∧
    w.ran = [8] ∧ w.fault = false := by
  have h : exec step {} handOver = some _ := rfl
  exact ⟨_, h, rfl, (release_exactly_once h).1⟩

/-- **What a frame was to keep alive is alive as long as the frame.**  In every state of every
program, what was shared is destroyed exactly when no `shared_ptr` of the caller's shares it
and no frame is there that was made to keep it. -/
theorem keepalive_outlives {ops : List Op} (h : exec step {} ops = some w) (b : Nat) :
    w.blocks.get b = none ↔
      (∀ p, w.pointers.get p ≠ some (some b)) ∧
        ∀ f x, w.engine.get f = some x → x.given ≠ some (.hold (some b)) := by
  obtain ⟨hw, -⟩ := custody_exec h
  have hb := hw.shared b
  rw [List.count_nil, Nat.add_zero, uses] at hb
  constructor
  · intro hnone
    rw [hnone, Option.getD_none] at hb
    constructor
    · intro p hp
      have hle := Arena.le_tally hp fun p => p.toList.count b
      rw [Option.toList_some, List.count_singleton_self] at hle
      omega
    · intro f x hx hgiven
      have hle := Arena.le_tally hx (EngineFrame.keeps b)
      rw [EngineFrame.keeps, hgiven, keptBy, Option.toList_some, List.count_singleton_self] at hle
      omega
  · rintro ⟨hpointers, hframes⟩
    cases hget : w.blocks.get b with
    | none => rfl
    | some n =>
      have hn := hw.positive b n hget
      rw [hget, Option.getD_some] at hb
      exfalso
      rcases Nat.eq_zero_or_pos (w.engine.tally (EngineFrame.keeps b)) with hzero | hpos
      · have hpos : 0 < w.pointers.tally fun p => p.toList.count b := by omega
        obtain ⟨p, held, hp, hcount⟩ := Arena.exists_of_tally_pos hpos
        rw [List.count_pos_iff, Option.mem_toList] at hcount
        exact hpointers p (by rw [hp, Option.mem_def.mp hcount])
      · obtain ⟨f, x, hx, hkeeps⟩ := Arena.exists_of_tally_pos hpos
        rw [EngineFrame.keeps, List.count_pos_iff, Option.mem_toList] at hkeeps
        refine hframes f x hx ?_
        rcases hgiven : x.given with _ | k | held
        · rw [hgiven] at hkeeps
          cases hkeeps
        · rw [hgiven] at hkeeps
          cases hkeeps
        · rw [hgiven] at hkeeps
          exact congrArg (fun b => some (Callable.hold b)) hkeeps

theorem keepalive_outlives_handOver : ∃ w, exec step {} handOver = some w ∧
    w.blocks.get 0 = none ∧ ∀ p, w.pointers.get p ≠ some (some 0) := by
  have h : exec step {} handOver = some _ := rfl
  exact ⟨_, h, rfl, ((keepalive_outlives h 0).mp rfl).1⟩

end World

end ZuCpp.Frames
