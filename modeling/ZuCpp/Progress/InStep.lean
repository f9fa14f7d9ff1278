import ZuCpp.Progress.Model

/-!
# The engine's arrangement and the wrapper's stay in step

`Linked` is the invariant: a handle and a watch have one owner each, and the engine holds
of a handle exactly the watch of the object that owns it.  `arrangements_in_step` is what
follows for every run.
-/

namespace ZuCpp.Progress

open Lib

variable {F : Type}

namespace World

def handleOwners (w : World F) (h : Nat) : Nat := w.conns.tally fun C => Handle.owns h C.h

def watchOwners (w : World F) (x : Nat) : Nat := w.conns.tally fun C => Handle.owns x C.watch

/-- The engine holds of a handle the watch of its owner `C`, and the watch is the one of
the last arrangement it accepted. -/
structure Agrees (watches : Arena F) (C : Connection) (k : EngineConn F) : Prop where
  userData : k.userData = C.watch.p
  callback : k.callback = C.watch.p.isSome
  accepted : k.accepted = C.watch.p.bind watches.get

/-- **The invariant.** -/
structure Linked (w : World F) : Prop where
  handles : ∀ h, w.handleOwners h = w.engine.live h
  watchers : ∀ x, w.watchOwners x = w.watches.live x
  agrees : ∀ c C h k, w.conns.get c = some C → C.h.p = some h → w.engine.get h = some k →
    Agrees w.watches C k

theorem live_le_one {α : Type} (A : Arena α) (i : Nat) : A.live i ≤ 1 := by
  rw [Arena.live]
  split <;> omega

theorem Linked.handle_alive {w : World F} (hw : Linked w) {c : Nat} {C : Connection}
    (hc : w.conns.get c = some C) : ∀ h ∈ C.h.p, 0 < w.engine.live h := by
  intro h hh
  rw [← hw.handles h]
  exact Nat.lt_of_lt_of_le (Handle.owns_pos.mpr hh)
    (Arena.le_tally hc fun C => Handle.owns h C.h)

theorem Linked.watch_alive {w : World F} (hw : Linked w) {c : Nat} {C : Connection}
    (hc : w.conns.get c = some C) : ∀ x ∈ C.watch.p, 0 < w.watches.live x := by
  intro x hx
  rw [← hw.watchers x]
  exact Nat.lt_of_lt_of_le (Handle.owns_pos.mpr hx)
    (Arena.le_tally hc fun C => Handle.owns x C.watch)

theorem Linked.handle_unique {w : World F} (hw : Linked w) {c c' h : Nat} {C C' : Connection}
    (hc : w.conns.get c = some C) (hc' : w.conns.get c' = some C') (hp : C.h.p = some h)
    (hp' : C'.h.p = some h) : c = c' := by
  have hle : w.conns.tally (fun C => Handle.owns h C.h) ≤ 1 :=
    Nat.le_trans (Nat.le_of_eq (hw.handles h)) (live_le_one _ _)
  exact Arena.eq_of_tally_le_one hle hc hc' (Handle.owns_pos.mpr hp) (Handle.owns_pos.mpr hp')

theorem Linked.watch_unique {w : World F} (hw : Linked w) {c c' x : Nat} {C C' : Connection}
    (hc : w.conns.get c = some C) (hc' : w.conns.get c' = some C') (hp : C.watch.p = some x)
    (hp' : C'.watch.p = some x) : c = c' := by
  have hle : w.conns.tally (fun C => Handle.owns x C.watch) ≤ 1 :=
    Nat.le_trans (Nat.le_of_eq (hw.watchers x)) (live_le_one _ _)
  exact Arena.eq_of_tally_le_one hle hc hc' (Handle.owns_pos.mpr hp) (Handle.owns_pos.mpr hp')

/-- An arrangement does not notice what happens to the watches of others. -/
theorem Agrees.congr {watches watches' : Arena F} {C : Connection} {k : EngineConn F}
    (ha : Agrees watches C k) (hget : ∀ x ∈ C.watch.p, watches'.get x = watches.get x) :
    Agrees watches' C k := by
  refine ⟨ha.userData, ha.callback, ?_⟩
  rw [ha.accepted]
  cases hx : C.watch.p with
  | none => rfl
  | some x => exact (hget x hx).symm

/-! ### The pieces -/

/-- `set_progress_impl`, refused: the new watch is gone, and nothing else was touched. -/
theorem setProgressImpl_refused {w w' : World F} {c : Nat} {self : Connection} {every : Int64}
    {watcher : Option F} (h : w.setProgressImpl c self every watcher false = some w') :
    w'.engine = w.engine ∧ w'.conns = w.conns ∧ ∀ x, w'.watches.get x = w.watches.get x := by
  cases h
  refine ⟨rfl, rfl, ?_⟩
  intro x
  exact makeWatch_destroy _ _ x

theorem linked_of_watches {w w' : World F} (hw : Linked w) (he : w'.engine = w.engine)
    (hc : w'.conns = w.conns) (hx : ∀ x, w'.watches.get x = w.watches.get x) : Linked w' := by
  refine ⟨?_, ?_, ?_⟩
  · intro h
    rw [handleOwners, hc, he]
    exact hw.handles h
  · intro x
    rw [watchOwners, hc, Arena.live, hx]
    exact hw.watchers x
  · intro c C h k hget hp hk
    exact (hw.agrees c C h k (hc ▸ hget) hp (he ▸ hk)).congr fun x _ => hx x

theorem linked_setProgress {w w' : World F} {c : Nat} {self : Connection} {every : Int64}
    {watcher : Option F} (hw : Linked w) (hc : w.conns.get c = some self)
    (h : w.setProgressImpl c self every watcher true = some w') :
    Linked (w'.note self.h.p watcher true) := by
  simp only [setProgressImpl, zuConnSetProgress, if_true, Option.bind_eq_bind,
    Option.bind_eq_some_iff] at h
  obtain ⟨e, ⟨h0, hh0, k0, hk0, he⟩, h⟩ := h
  cases he
  cases h
  simp only [note, if_true, hh0, Arena.get_put hk0, Arena.put_put]
  have hlive := hw.watch_alive hc
  have hnext := makeWatch_get w.watches watcher
  have hml := makeWatch_live w.watches watcher
  have hbind := makeWatch_bind w.watches watcher
  have hne : ∀ x, 0 < w.watches.live x → (makeWatch w.watches watcher).2.p ≠ some x := by
    intro x hx
    obtain ⟨f, hf⟩ := Arena.live_pos.mp hx
    exact makeWatch_ne hf
  -- from here on `m` is any watch that was just made
  generalize makeWatch w.watches watcher = m at hnext hml hbind hne ⊢
  have hold : ∀ x ∈ self.watch.p, 0 < m.1.live x := by
    intro x hx
    rw [hml]
    exact Nat.lt_of_lt_of_le (hlive x hx) (Nat.le_add_right _ _)
  refine ⟨?_, ?_, ?_⟩
  · intro h
    have ht := Arena.tally_put hc (⟨self.h, m.2⟩ : Connection) fun C => Handle.owns h C.h
    show (w.conns.put c ⟨self.h, m.2⟩).tally (fun C => Handle.owns h C.h)
      = (w.engine.put h0 _).live h
    rw [Arena.live_put hk0, ← hw.handles h, handleOwners]
    exact Nat.add_right_cancel ht
  · intro x
    have ht := Arena.tally_put hc (⟨self.h, m.2⟩ : Connection) fun C => Handle.owns x C.watch
    have hd := Arena.live_dropAll_toList hold x
    have hb := Handle.destroy_balance x self.watch
    show (w.conns.put c ⟨self.h, m.2⟩).tally (fun C => Handle.owns x C.watch)
      = (m.1.dropAll self.watch.destroy).live x
    have hx := hw.watchers x
    rw [watchOwners] at hx
    have hm := hml x
    change (m.1.dropAll self.watch.destroy).live x + self.watch.destroy.count x = m.1.live x at hd
    change (w.conns.put c ⟨self.h, m.2⟩).tally (fun C => Handle.owns x C.watch)
      + Handle.owns x self.watch = w.conns.tally (fun C => Handle.owns x C.watch)
      + Handle.owns x m.2 at ht
    omega
  · intro c' C' h' k' hget hp hk
    rw [Arena.get_put hc] at hget
    rw [Arena.get_put hk0] at hk
    show Agrees (m.1.dropAll self.watch.p.toList) C' k'
    split at hget
    · -- the object itself
      cases hget
      rw [hh0, Option.some.injEq] at hp
      subst hp
      rw [if_pos rfl, Option.some.injEq] at hk
      subst hk
      refine ⟨rfl, rfl, ?_⟩
      show watcher = m.2.p.bind (m.1.dropAll self.watch.p.toList).get
      rw [← hbind]
      cases hm : m.2.p with
      | none => rfl
      | some j =>
        have hj : j ∉ self.watch.p.toList := fun hmem =>
          hne j (hlive j (Option.mem_toList.mp hmem)) hm
        show m.1.get j = (m.1.dropAll self.watch.p.toList).get j
        rw [Arena.get_dropAll, if_neg hj]
    · rename_i hj
      have hh' : h' ≠ h0 := by
        rintro rfl
        exact hj (hw.handle_unique hget hc hp hh0)
      rw [if_neg hh'] at hk
      apply (hw.agrees c' C' h' k' hget hp hk).congr
      intro x hx
      have hx' : x ∉ self.watch.p.toList := fun hmem =>
        hj (hw.watch_unique hget hc hx (Option.mem_toList.mp hmem))
      rw [Arena.get_dropAll, if_neg hx', hnext, if_neg (hne x (hw.watch_alive hget x hx))]

theorem linked_setProgressImpl {w w' : World F} {c : Nat} {self : Connection} {every : Int64}
    {watcher : Option F} {accepted : Bool} (hw : Linked w) (hc : w.conns.get c = some self)
    (h : w.setProgressImpl c self every watcher accepted = some w') :
    Linked (w'.note self.h.p watcher accepted) := by
  cases accepted with
  | true => exact linked_setProgress hw hc h
  | false =>
    obtain ⟨he, hcs, hx⟩ := setProgressImpl_refused h
    exact linked_of_watches hw he hcs hx

/-- `clear_progress_quietly` touches no handle but the one of its object, and closes
none. -/
theorem clearedEngine_get {engine e : Arena (EngineConn F)} {self : Connection} {accepted : Bool}
    (h : clearedEngine engine self accepted = some e) :
    (∀ j, self.h.p ≠ some j → e.get j = engine.get j) ∧ ∀ j, e.live j = engine.live j := by
  rw [clearedEngine] at h
  split at h
  · cases accepted with
    | false =>
      cases h
      exact ⟨fun _ _ => rfl, fun _ => rfl⟩
    | true =>
      simp only [zuConnSetProgress, if_true, Option.bind_eq_bind, Option.bind_eq_some_iff] at h
      obtain ⟨h0, hh0, k0, hk0, h⟩ := h
      cases h
      refine ⟨?_, fun j => Arena.live_put hk0 _ j⟩
      intro j hj
      rw [Arena.get_put hk0, if_neg]
      rintro rfl
      exact hj hh0
  · cases h
    exact ⟨fun _ _ => rfl, fun _ => rfl⟩

/-- What is left when an object has cleared its arrangement, freed its watch and closed
its handle: everyone else's, as it was. -/
structure Without (w : World F) (C : Connection) (engine : Arena (EngineConn F))
    (watches : Arena F) : Prop where
  engine_live : ∀ h, engine.live h + Handle.owns h C.h = w.engine.live h
  watches_live : ∀ x, watches.live x + Handle.owns x C.watch = w.watches.live x
  engine_get : ∀ h, C.h.p ≠ some h → engine.get h = w.engine.get h
  watches_get : ∀ x, C.watch.p ≠ some x → watches.get x = w.watches.get x

theorem without_of_cleared {w : World F} {c : Nat} {self : Connection} {accepted : Bool}
    {r : World F × Connection} (hw : Linked w) (hc : w.conns.get c = some self)
    (hr : w.clearProgressQuietly self accepted = some r) :
    Without w self (r.1.engine.dropAll r.2.h.destroy) r.1.watches ∧ r.2 = ⟨self.h, ⟨none⟩⟩ := by
  simp only [clearProgressQuietly, Option.bind_eq_bind, Option.bind_eq_some_iff] at hr
  obtain ⟨e, he, hr⟩ := hr
  cases hr
  obtain ⟨hget, hlive⟩ := clearedEngine_get he
  have halive : ∀ h ∈ self.h.p, 0 < e.live h := by
    intro h hh
    rw [hlive]
    exact hw.handle_alive hc h hh
  refine ⟨⟨?_, ?_, ?_, ?_⟩, rfl⟩
  · intro h
    rw [← hlive h]
    exact Arena.live_dropAll_toList halive h
  · intro x
    exact Arena.live_dropAll_toList (hw.watch_alive hc) x
  · intro h hne
    rw [← hget h hne]
    exact (Arena.get_dropAll _ _ _).trans (if_neg fun hm => hne (Option.mem_toList.mp hm))
  · intro x hne
    exact (Arena.get_dropAll _ _ _).trans (if_neg fun hm => hne (Option.mem_toList.mp hm))

theorem Without.agrees {w : World F} {c j h : Nat} {self C : Connection} {k : EngineConn F}
    {engine : Arena (EngineConn F)} {watches : Arena F} (hx : Without w self engine watches)
    (hw : Linked w) (hc : w.conns.get c = some self) (hj : j ≠ c)
    (hget : w.conns.get j = some C) (hp : C.h.p = some h) (hk : engine.get h = some k) :
    Agrees watches C k := by
  have hh : self.h.p ≠ some h := fun he => hj (hw.handle_unique hget hc hp he)
  rw [hx.engine_get h hh] at hk
  apply (hw.agrees j C h k hget hp hk).congr
  intro x hxx
  exact hx.watches_get x fun he => hj (hw.watch_unique hget hc hxx he)

theorem linked_connect {w : World F} (hw : Linked w) :
    Linked { w with
      engine := w.engine.alloc {}
      conns := w.conns.alloc ⟨.ofPtr w.engine.next, ⟨none⟩⟩ } := by
  refine ⟨?_, ?_, ?_⟩
  · intro h
    have := hw.handles h
    simp only [handleOwners, Arena.tally_alloc, Arena.live_alloc, Handle.ofPtr,
      Handle.owns_some] at this ⊢
    omega
  · intro x
    have := hw.watchers x
    simp only [watchOwners, Arena.tally_alloc, Handle.owns_none] at this ⊢
    omega
  · intro c C h k hget hp hk
    rw [Arena.get_alloc] at hget
    split at hget
    · cases hget
      cases hp
      rw [Arena.get_alloc, if_pos rfl, Option.some.injEq] at hk
      subst hk
      exact ⟨rfl, rfl, rfl⟩
    · rw [Arena.get_alloc] at hk
      split at hk
      · rename_i hh
        obtain ⟨k', hk'⟩ := Arena.live_pos.mp (hw.handle_alive hget h hp)
        rw [hh, Arena.get_next] at hk'
        cases hk'
      · exact hw.agrees c C h k hget hp hk

theorem linked_noConnection {w : World F} (hw : Linked w) :
    Linked { w with conns := w.conns.alloc {} } := by
  refine ⟨?_, ?_, ?_⟩
  · intro h
    have := hw.handles h
    simp only [handleOwners, Arena.tally_alloc, Handle.owns_none] at this ⊢
    omega
  · intro x
    have := hw.watchers x
    simp only [watchOwners, Arena.tally_alloc, Handle.owns_none] at this ⊢
    omega
  · intro c C h k hget hp hk
    rw [Arena.get_alloc] at hget
    split at hget
    · cases hget
      cases hp
    · exact hw.agrees c C h k hget hp hk

theorem linked_moveConstruct {w : World F} {c : Nat} {o : Connection} (hw : Linked w)
    (hc : w.conns.get c = some o) :
    Linked { w with conns := (w.conns.put c ⟨⟨none⟩, ⟨none⟩⟩).alloc o } := by
  refine ⟨?_, ?_, ?_⟩
  · intro h
    have ht := Arena.tally_put hc (⟨⟨none⟩, ⟨none⟩⟩ : Connection) fun C => Handle.owns h C.h
    have := hw.handles h
    simp only [handleOwners, Arena.tally_alloc, Handle.owns_none] at this ht ⊢
    omega
  · intro x
    have ht := Arena.tally_put hc (⟨⟨none⟩, ⟨none⟩⟩ : Connection) fun C => Handle.owns x C.watch
    have := hw.watchers x
    simp only [watchOwners, Arena.tally_alloc, Handle.owns_none] at this ht ⊢
    omega
  · intro c' C h k hget hp hk
    rw [Arena.get_alloc] at hget
    split at hget
    · -- the new object stands where the one it was moved from stood
      cases hget
      exact hw.agrees c o h k hc hp hk
    · rw [Arena.get_put hc] at hget
      split at hget
      · cases hget
        cases hp
      · exact hw.agrees c' C h k hget hp hk

theorem linked_moveAssign {w : World F} {c d : Nat} {self o : Connection}
    {engine : Arena (EngineConn F)} {watches : Arena F} (hw : Linked w) (hne : c ≠ d)
    (hc : w.conns.get c = some self) (hd : w.conns.get d = some o)
    (hx : Without w self engine watches) :
    Linked { engine, conns := (w.conns.put d ⟨⟨none⟩, ⟨none⟩⟩).put c o, watches } := by
  have hc' : (w.conns.put d ⟨⟨none⟩, ⟨none⟩⟩).get c = some self := by
    rw [Arena.get_put hd, if_neg hne, hc]
  refine ⟨?_, ?_, ?_⟩
  · intro h
    have ht := Arena.tally_put hd (⟨⟨none⟩, ⟨none⟩⟩ : Connection) fun C => Handle.owns h C.h
    have ht' := Arena.tally_put hc' o fun C => Handle.owns h C.h
    have := hw.handles h
    have hl := hx.engine_live h
    simp only [handleOwners, Handle.owns_none] at this ht ht' ⊢
    omega
  · intro x
    have ht := Arena.tally_put hd (⟨⟨none⟩, ⟨none⟩⟩ : Connection) fun C => Handle.owns x C.watch
    have ht' := Arena.tally_put hc' o fun C => Handle.owns x C.watch
    have := hw.watchers x
    have hl := hx.watches_live x
    simp only [watchOwners, Handle.owns_none] at this ht ht' ⊢
    omega
  · intro j C h k hget hp hk
    rw [Arena.get_put hc'] at hget
    split at hget
    · cases hget
      exact hx.agrees hw hc (Ne.symm hne) hd hp hk
    · rename_i hj
      rw [Arena.get_put hd] at hget
      split at hget
      · cases hget
        cases hp
      · exact hx.agrees hw hc hj hget hp hk

theorem linked_destroy {w : World F} {c : Nat} {self : Connection}
    {engine : Arena (EngineConn F)} {watches : Arena F} (hw : Linked w)
    (hc : w.conns.get c = some self) (hx : Without w self engine watches) :
    Linked { engine, conns := w.conns.drop c, watches } := by
  refine ⟨?_, ?_, ?_⟩
  · intro h
    have ht := Arena.tally_drop hc fun C => Handle.owns h C.h
    have := hw.handles h
    have hl := hx.engine_live h
    simp only [handleOwners] at this ht ⊢
    omega
  · intro x
    have ht := Arena.tally_drop hc fun C => Handle.owns x C.watch
    have := hw.watchers x
    have hl := hx.watches_live x
    simp only [watchOwners] at this ht ⊢
    omega
  · intro j C h k hget hp hk
    rw [Arena.get_drop] at hget
    split at hget
    · cases hget
    · rename_i hj
      exact hx.agrees hw hc hj hget hp hk

theorem linked_init : Linked ({} : World F) := by
  refine ⟨?_, ?_, ?_⟩
  · intro h
    rw [Arena.live_empty]
    rfl
  · intro x
    rw [Arena.live_empty]
    rfl
  · intro c C h k hget
    rw [Arena.get_empty] at hget
    cases hget

/-- One operation keeps the two sides linked, whatever the engine answers. -/
theorem linked_step {w w' : World F} {op : Op F} (hw : Linked w) (h : w.step op = some w') :
    Linked w' := by
  cases op with
  | connect =>
    cases h
    exact linked_connect hw
  | noConnection =>
    cases h
    exact linked_noConnection hw
  | onProgress c every watcher accepted =>
    simp only [step, Option.bind_eq_bind, Option.bind_eq_some_iff] at h
    obtain ⟨self, hc, u, hu, h⟩ := h
    cases h
    exact linked_setProgressImpl hw hc hu
  | clearProgress c accepted =>
    simp only [step, Option.bind_eq_bind, Option.bind_eq_some_iff] at h
    obtain ⟨self, hc, u, hu, h⟩ := h
    cases h
    exact linked_setProgressImpl hw hc hu
  | moveConstruct c =>
    simp only [step, Option.bind_eq_bind, Option.bind_eq_some_iff] at h
    obtain ⟨o, hc, h⟩ := h
    cases h
    exact linked_moveConstruct hw hc
  | moveAssign c d accepted =>
    simp only [step, Option.bind_eq_bind, Option.bind_eq_some_iff] at h
    obtain ⟨self, hc, o, hd, h⟩ := h
    split at h
    · cases h
      exact hw
    · rename_i hne
      obtain ⟨r, hr, h⟩ := Option.bind_eq_some_iff.mp h
      obtain ⟨hx, hself⟩ := without_of_cleared hw hc hr
      cases h
      rw [hself] at hx ⊢
      exact linked_moveAssign hw hne hc hd hx
  | destroy c accepted =>
    simp only [step, Option.bind_eq_bind, Option.bind_eq_some_iff] at h
    obtain ⟨self, hc, r, hr, h⟩ := h
    obtain ⟨hx, hself⟩ := without_of_cleared hw hc hr
    cases h
    rw [hself] at hx ⊢
    exact linked_destroy hw hc hx

/-- For every open handle: one object owns it, the `user_data` the engine holds is that
object's watch (null when it has none), and the watch is there and has the watcher of the
last accepted arrangement in it. -/
def InStep (w : World F) : Prop :=
  ∀ h k, w.engine.get h = some k → ∃ c C, w.conns.get c = some C ∧ C.h.p = some h ∧
    (∀ c' C', w.conns.get c' = some C' → C'.h.p = some h → c' = c) ∧
    k.userData = C.watch.p ∧ k.callback = C.watch.p.isSome ∧
    (∀ x ∈ C.watch.p, ∃ f, w.watches.get x = some f) ∧ k.accepted = C.watch.p.bind w.watches.get

theorem Linked.inStep {w : World F} (hw : Linked w) : w.InStep := by
  intro h k hk
  have hpos : 0 < w.handleOwners h := by
    rw [hw.handles]
    exact Arena.live_pos.mpr ⟨k, hk⟩
  obtain ⟨c, C, hc, howns⟩ := Arena.exists_of_tally_pos hpos
  have hp := Handle.owns_pos.mp howns
  have ha := hw.agrees c C h k hc hp hk
  refine ⟨c, C, hc, hp, fun c' C' hc' hp' => hw.handle_unique hc' hc hp' hp, ha.userData,
    ha.callback, fun x hx => Arena.live_pos.mp (hw.watch_alive hc x hx), ha.accepted⟩

/-- **The two sides never drift apart.**  After any run of the operations, with each call
accepted or refused as the engine likes, the engine holds of every open handle the watch
of the one object that owns the handle, and it is the one of the last accepted
arrangement; and an `on_progress` or `clear_progress` that fails leaves both sides as they
were. -/
theorem arrangements_in_step {ops : List (Op F)} {w : World F} (h : exec step {} ops = some w) :
    w.InStep ∧ ∀ c every watcher w',
      (w.step (.onProgress c every watcher false) = some w' ∨
        w.step (.clearProgress c false) = some w') →
      w'.engine = w.engine ∧ w'.conns = w.conns ∧ ∀ x, w'.watches.get x = w.watches.get x := by
  refine ⟨(exec_invariant (fun _ _ _ => linked_step) linked_init h).inStep, ?_⟩
  rintro c every watcher w' (hs | hs)
  · simp only [step, Option.bind_eq_bind, Option.bind_eq_some_iff] at hs
    obtain ⟨self, -, u, hu, hs⟩ := hs
    cases hs
    exact setProgressImpl_refused hu
  · simp only [step, Option.bind_eq_bind, Option.bind_eq_some_iff] at hs
    obtain ⟨self, -, u, hu, hs⟩ := hs
    cases hs
    exact setProgressImpl_refused hu

def movedWatcher : List (Op String) :=
  [.connect, .onProgress 0 5 (some "first") true, .onProgress 0 5 (some "second") false,
    .onProgress 0 9 (some "third") true, .connect, .moveConstruct 0, .moveAssign 1 2 false,
    .clearProgress 1 true]

theorem arrangements_in_step_movedWatcher :
    ∃ w, exec step ({} : World String) movedWatcher = some w ∧ w.InStep :=
  ⟨_, rfl, (arrangements_in_step (rfl : exec step {} movedWatcher = _)).1⟩

end World

end ZuCpp.Progress
