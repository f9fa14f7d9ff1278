import ZuCpp.Transaction.Outlive

/-!
# A guard ends only its own transaction, when none goes stale

A guard remembers a `Connection` object and not a transaction, and what it ends is
whatever is open on the handle of that object when it asks.  `ends_only_its_own` says
when that is its own: no transaction comes up on an object that a guard of another
transaction points at.  `ends_anothers` is two ways it is not.
-/

namespace ZuCpp.Transactions

open Lib

/-- The call only asks, or acts on the transaction the guard had the right to, or finds
nothing open to act on. -/
def GuardCall.ActsOnOwn (k : GuardCall) : Prop :=
  k.call = .inTransaction ∨ k.target = none ∨ k.target = k.right

instance (k : GuardCall) : Decidable k.ActsOnOwn := inferInstanceAs (Decidable (_ ∨ _ ∨ _))

namespace World

/-- No guard is left pointing at a `Connection` object where a transaction comes up that
is not its own: none is begun on an object a guard points at, and no open one is assigned
into an object that other guards than its own point at. -/
def NoneStale (w : World) : Op → Prop
  | .transaction c .ok => w.pointers c = 0
  | .assignTransaction _ c .ok _ => w.pointers c = 0
  | .begin c .ok => w.pointers c = 0
  | .statement h .begins => ∀ c < w.conns.next, w.handleOf c = some h → w.pointers c = 0
  | .assignConn c d => c = d ∨ ∀ g < w.guards.next, ∀ t ∈ w.guards.get g, t.conn = some c →
      ∀ h ∈ w.handleOf d, ∀ x ∈ Engine.running w.engine h, t.right = some x
  | _ => True

instance (w : World) : (op : Op) → Decidable (w.NoneStale op)
  | .transaction _ .ok | .assignTransaction _ _ .ok _ | .begin _ .ok =>
    inferInstanceAs (Decidable (_ = 0))
  | .statement _ .begins => inferInstanceAs (Decidable (∀ c < w.conns.next, _ → _))
  | .assignConn _ _ => inferInstanceAs (Decidable (_ ∨ ∀ g < w.guards.next, _))
  | .transaction _ (.refused _) | .assignTransaction _ _ (.refused _) _ | .begin _ (.refused _)
  | .statement _ .plain | .statement _ .ends | .connect | .noConnection | .moveConn _
  | .destroyConn _ | .moveGuard _ | .assignGuard _ _ _ | .commit _ _ | .rollback _ _
  | .destroyGuard _ _ | .bareEnd _ _ => isTrue trivial

/-- **The invariant.**  An engine handle has at most one `Connection` object, and
whatever is open on the handle a guard points at is the transaction of that guard. -/
structure Safe (w : World) : Prop where
  owners : ∀ h, w.conns.tally (Handle.owns h) ≤ if h < w.engine.next then 1 else 0
  alive : ∀ g t c, w.guards.get g = some t → t.conn = some c → c < w.conns.next
  own : ∀ g t x, w.guards.get g = some t → w.target t = some x → t.right = some x
  calls : ∀ k ∈ w.calls, k.ActsOnOwn

theorem handleOf_eq_some {w : World} {c h : Nat} :
    w.handleOf c = some h ↔ ∃ hc, w.conns.get c = some hc ∧ hc.p = some h := by
  rw [handleOf, Option.bind_eq_some_iff]

theorem target_eq_some {w : World} {t : Transaction} {x : TxId} :
    w.target t = some x ↔ ∃ c h, t.conn = some c ∧ w.handleOf c = some h ∧
      Engine.running w.engine h = some x := by
  rw [target, Option.bind_eq_some_iff]
  constructor
  · rintro ⟨h, hh, hx⟩
    obtain ⟨c, hc, hh⟩ := Option.bind_eq_some_iff.mp hh
    exact ⟨c, h, hc, hh, hx⟩
  · rintro ⟨c, h, hc, hh, hx⟩
    exact ⟨h, Option.bind_eq_some_iff.mpr ⟨c, hc, hh⟩, hx⟩

theorem conn_ne_of_pointers {w : World} {c g : Nat} {t : Transaction} (h : w.pointers c = 0)
    (hg : w.guards.get g = some t) : t.conn ≠ some c := by
  intro hc
  have := Arena.eq_zero_of_tally_eq_zero h hg
  rw [if_pos hc] at this
  cases this

theorem Safe.conn_unique {w : World} (hw : Safe w) {c c' h : Nat} (hc : w.handleOf c = some h)
    (hc' : w.handleOf c' = some h) : c = c' := by
  obtain ⟨a, ha, hap⟩ := handleOf_eq_some.mp hc
  obtain ⟨b, hb, hbp⟩ := handleOf_eq_some.mp hc'
  refine Arena.eq_of_tally_le_one (Nat.le_trans (hw.owners h) ?_) ha hb (Handle.owns_pos.mpr hap)
    (Handle.owns_pos.mpr hbp)
  split <;> omega

/-- Transactions were only closed, and the guards and the objects are the same. -/
theorem Safe.fades {w w' : World} (hw : Safe w) (hc : w'.conns = w.conns)
    (hg : w'.guards = w.guards) (hf : Engine.Fades w.engine w'.engine)
    (hcalls : ∀ k ∈ w'.calls, k.ActsOnOwn) : Safe w' := by
  refine ⟨?_, ?_, ?_, hcalls⟩
  · intro h
    rw [hc, hf.next]
    exact hw.owners h
  · intro g t c hget
    rw [hc]
    exact hw.alive g t c (hg ▸ hget)
  · intro g t x hget hx
    obtain ⟨c, h, ht, hh, hx⟩ := target_eq_some.mp hx
    rw [handleOf, hc] at hh
    exact hw.own g t x (hg ▸ hget) (target_eq_some.mpr ⟨c, h, ht, hh, hf.running hx⟩)

/-- **The calls of a guard act on its own transaction.** -/
theorem Safe.ended {w w' : World} {g : Nat} {t : Transaction} {ends : Bool} (hw : Safe w)
    (hg : w.guards.get g = some t) (hs : EndSpec w t ends w') : Safe w' := by
  apply hw.fades hs.conns hs.guards hs.fades
  intro k hk
  rcases hs.calls k hk with hk | ⟨-, hright, hask | htarget⟩
  · exact hw.calls k hk
  · exact Or.inl hask
  · apply Or.inr
    cases hx : w.target t with
    | none => exact Or.inl (htarget.trans hx)
    | some x => exact Or.inr (by rw [htarget, hx, hright, hw.own g t x hg hx])

/-- A guard points where it may: at an object there has been, and what is open on its
handle is the transaction of the guard. -/
structure Aligned (w : World) (t : Transaction) : Prop where
  alive : ∀ c, t.conn = some c → c < w.conns.next
  own : ∀ x, w.target t = some x → t.right = some x

theorem Safe.aligned {w : World} (hw : Safe w) (g : Nat) (t : Transaction)
    (hg : w.guards.get g = some t) : Aligned w t :=
  ⟨fun c => hw.alive g t c hg, fun x => hw.own g t x hg⟩

theorem aligned_of_none {w : World} {t : Transaction} (h : t.conn = none) : Aligned w t := by
  refine ⟨?_, ?_⟩
  · intro c hc
    rw [h] at hc
    cases hc
  · intro x hx
    obtain ⟨c, -, hc, -⟩ := target_eq_some.mp hx
    rw [h] at hc
    cases hc

theorem Safe.withGuards {w : World} (hw : Safe w) {G : Arena Transaction}
    (h : ∀ g t, G.get g = some t → Aligned w t) : Safe { w with guards := G } :=
  ⟨hw.owners, fun g t c hg => (h g t hg).alive c, fun g t x hg => (h g t hg).own x, hw.calls⟩

theorem lt_next_of_handleOf {w : World} {c h : Nat} (hh : w.handleOf c = some h) :
    c < w.conns.next := by
  obtain ⟨hc, hget, -⟩ := handleOf_eq_some.mp hh
  exact Arena.lt_next_of_get hget

/-- When no guard points at the object of a handle, none points at any object of it. -/
theorem Safe.pointers_of_handle {w : World} (hw : Safe w) {c h : Nat}
    (hc : w.handleOf c = some h) (hnone : w.pointers c = 0) :
    ∀ c', w.handleOf c' = some h → w.pointers c' = 0 := by
  intro c' hc'
  rw [hw.conn_unique hc' hc]
  exact hnone

/-- A transaction is begun on a handle whose object no guard points at. -/
theorem Safe.begun {w : World} {e : Engine} {o : Origin} {r : Reply} {x : TxId} {h : Option Nat}
    (hw : Safe w) (hb : Engine.zuBegin w.engine h o r = some (e, some x))
    (hnone : ∀ c, w.handleOf c = some x.conn → w.pointers c = 0) :
    Safe { w with engine := e } := by
  obtain ⟨-, k, hk, hr, hser, rfl⟩ := Engine.zuBegin_some hb
  refine ⟨?_, hw.alive, ?_, hw.calls⟩
  · intro h
    rw [Arena.next_put]
    exact hw.owners h
  · intro g t y hg hy
    obtain ⟨c', h, ht, hh, hy⟩ := target_eq_some.mp hy
    have hne : h ≠ x.conn := by
      rintro rfl
      exact conn_ne_of_pointers (hnone c' hh) hg ht
    refine hw.own g t y hg (target_eq_some.mpr ⟨c', h, ht, hh, ?_⟩)
    rw [Engine.running, Arena.get_put hk, if_neg hne] at hy
    exact hy

theorem safe_connect {w : World} (hw : Safe w) :
    Safe { w with engine := w.engine.alloc {}, conns := w.conns.alloc (.ofPtr w.engine.next) } := by
  refine ⟨?_, ?_, ?_, hw.calls⟩
  · intro h
    have := hw.owners h
    simp only [Arena.tally_alloc, Arena.next_alloc, Handle.ofPtr, Handle.owns_some]
    split at this <;> split_ifs <;> omega
  · intro g t c hg hc
    rw [Arena.next_alloc]
    exact Nat.lt_succ_of_lt (hw.alive g t c hg hc)
  · intro g t x hg hx
    obtain ⟨c, h, ht, hh, hx⟩ := target_eq_some.mp hx
    have hlt := hw.alive g t c hg ht
    rw [handleOf, Arena.get_alloc, if_neg (Nat.ne_of_lt hlt)] at hh
    obtain ⟨k, hk, hr, rfl⟩ := Engine.running_eq_some.mp hx
    rw [Arena.get_alloc] at hk
    split at hk
    · cases hk
      exact absurd rfl hr
    · exact hw.own g t _ hg (target_eq_some.mpr
        ⟨c, h, ht, hh, Engine.running_eq_some.mpr ⟨k, hk, hr, rfl⟩⟩)

theorem safe_noConnection {w : World} (hw : Safe w) :
    Safe { w with conns := w.conns.alloc ⟨none⟩ } := by
  refine ⟨?_, ?_, ?_, hw.calls⟩
  · intro h
    rw [Arena.tally_alloc, Handle.owns_none]
    exact hw.owners h
  · intro g t c hg hc
    rw [Arena.next_alloc]
    exact Nat.lt_succ_of_lt (hw.alive g t c hg hc)
  · intro g t x hg hx
    obtain ⟨c, h, ht, hh, hx⟩ := target_eq_some.mp hx
    have hlt := hw.alive g t c hg ht
    rw [handleOf, Arena.get_alloc, if_neg (Nat.ne_of_lt hlt)] at hh
    exact hw.own g t x hg (target_eq_some.mpr ⟨c, h, ht, hh, hx⟩)

/-- The object that was moved from has no handle, and no guard points at the new one. -/
theorem safe_moveConn {w : World} {c : Nat} {hc : Handle Nat} (hw : Safe w)
    (hget : w.conns.get c = some hc) :
    Safe { w with conns := (w.conns.put c hc.moveConstruct.2).alloc hc.moveConstruct.1 } := by
  refine ⟨?_, ?_, ?_, hw.calls⟩
  · intro h
    have := hw.owners h
    have ht := Arena.tally_put hget hc.moveConstruct.2 (Handle.owns h)
    have hb := Handle.moveConstruct_balance h hc
    show _ ≤ if h < w.engine.next then 1 else 0
    rw [Arena.tally_alloc]
    omega
  · intro g t c' hg ht
    rw [Arena.next_alloc, Arena.next_put]
    exact Nat.lt_succ_of_lt (hw.alive g t c' hg ht)
  · intro g t x hg hx
    obtain ⟨c', h, ht, hh, hx⟩ := target_eq_some.mp hx
    have hlt := hw.alive g t c' hg ht
    rw [handleOf, Arena.get_alloc, if_neg (by rw [Arena.next_put]; omega),
      Arena.get_put hget] at hh
    split at hh
    · cases hh
    · exact hw.own g t x hg (target_eq_some.mpr ⟨c', h, ht, hh, hx⟩)

/-- Every guard that points at the object assigned over owns what is open on the handle it
is given. -/
theorem safe_assignConn {w : World} {c d : Nat} {hc hd : Handle Nat} (hw : Safe w) (hne : c ≠ d)
    (hgetc : w.conns.get c = some hc) (hgetd : w.conns.get d = some hd)
    (hstale : ∀ g t x h, w.guards.get g = some t → t.conn = some c → hd.p = some h →
      Engine.running w.engine h = some x → t.right = some x) :
    Safe { w with
      conns := (w.conns.put d (hc.moveAssign hd).2.1).put c (hc.moveAssign hd).1
      engine := w.engine.dropAll (hc.moveAssign hd).2.2 } := by
  have hgetc' : (w.conns.put d (hc.moveAssign hd).2.1).get c = some hc := by
    rw [Arena.get_put hgetd, if_neg hne, hgetc]
  have hf := Engine.fades_dropAll w.engine (hc.moveAssign hd).2.2
  refine ⟨?_, ?_, ?_, hw.calls⟩
  · intro h
    have := hw.owners h
    have ht := Arena.tally_put hgetd (hc.moveAssign hd).2.1 (Handle.owns h)
    have ht' := Arena.tally_put hgetc' (hc.moveAssign hd).1 (Handle.owns h)
    have hb := Handle.moveAssign_balance h hc hd
    rw [hf.next]
    show ((w.conns.put d (hc.moveAssign hd).2.1).put c (hc.moveAssign hd).1).tally _ ≤ _
    omega
  · intro g t c' hg ht
    rw [Arena.next_put, Arena.next_put]
    exact hw.alive g t c' hg ht
  · intro g t x hg hx
    obtain ⟨c', h, ht, hh, hx⟩ := target_eq_some.mp hx
    have hx' := hf.running hx
    rw [handleOf, Arena.get_put hgetc'] at hh
    split at hh
    · rename_i hcc
      exact hstale g t x h hg (hcc ▸ ht) hh hx'
    · rw [Arena.get_put hgetd] at hh
      split at hh
      · cases hh
      · exact hw.own g t x hg (target_eq_some.mpr ⟨c', h, ht, hh, hx'⟩)

theorem safe_destroyConn {w : World} {c : Nat} {hc : Handle Nat} (hw : Safe w)
    (hget : w.conns.get c = some hc) :
    Safe { w with conns := w.conns.drop c, engine := w.engine.dropAll hc.destroy } := by
  have hf := Engine.fades_dropAll w.engine hc.destroy
  refine ⟨?_, ?_, ?_, hw.calls⟩
  · intro h
    have := hw.owners h
    have ht := Arena.tally_drop hget (Handle.owns h)
    rw [hf.next]
    show (w.conns.drop c).tally _ ≤ _
    omega
  · intro g t c' hg ht
    rw [Arena.next_drop]
    exact hw.alive g t c' hg ht
  · intro g t x hg hx
    obtain ⟨c', h, ht, hh, hx⟩ := target_eq_some.mp hx
    rw [handleOf, Arena.get_drop] at hh
    split at hh
    · cases hh
    · exact hw.own g t x hg (target_eq_some.mpr ⟨c', h, ht, hh, hf.running hx⟩)

/-- What is open where a transaction was just begun is that transaction. -/
theorem target_ofConn {w : World} {c : Nat} {r : Reply} {e : Engine} {x y : TxId}
    (hb : Engine.zuBegin w.engine (w.handleOf c) .guard r = some (e, some x))
    (w' : World) (hconns : w'.conns = w.conns) (hf : Engine.Fades e w'.engine) {t : Transaction}
    (ht : t.conn = some c) (hy : w'.target t = some y) : y = x := by
  obtain ⟨c', h, hc', hh, hy⟩ := target_eq_some.mp hy
  rw [ht, Option.some.injEq] at hc'
  subst hc'
  have hhandle := (Engine.zuBegin_some hb).1
  rw [handleOf, ← hconns, ← handleOf, hh, Option.some.injEq] at hhandle
  subst hhandle
  have hx := Engine.running_begun hb
  rw [hf.running hy, Option.some.injEq] at hx
  exact hx

theorem aligned_ofConn {w w' : World} {c : Nat} {r : Reply} {e : Engine} {x : TxId}
    {held : List TxId} (hb : Engine.zuBegin w.engine (w.handleOf c) .guard r = some (e, some x))
    (hconns : w'.conns = w.conns) (hf : Engine.Fades e w'.engine) :
    Aligned w' ⟨some c, some x, held⟩ := by
  refine ⟨?_, ?_⟩
  · rintro _ ⟨⟩
    rw [hconns]
    exact lt_next_of_handleOf (Engine.zuBegin_some hb).1
  · intro y hy
    rw [target_ofConn hb w' hconns hf rfl hy]

theorem safe_transaction {w : World} {c : Nat} {r : Reply} {e : Engine} {x : TxId} (hw : Safe w)
    (hb : Engine.zuBegin w.engine (w.handleOf c) .guard r = some (e, some x))
    (hnone : w.pointers c = 0) :
    Safe { w with engine := e, guards := w.guards.alloc (.ofConn c x) } := by
  have hhandle := (Engine.zuBegin_some hb).1
  have hw1 : Safe { w with engine := e } := hw.begun hb (hw.pointers_of_handle hhandle hnone)
  have hnew : Aligned { w with engine := e } (.ofConn c x) :=
    aligned_ofConn hb rfl (Engine.Fades.refl e)
  exact hw1.withGuards (Arena.all_alloc hw1.aligned hnew)

/-- A begin accepted on an object that no guard points at leaves the old transaction of
the assigned guard, and everyone else's, as it was. -/
theorem safe_assignTransaction {w w' : World} {g c : Nat} {r : Reply} {u : UndoReply} {e : Engine}
    {x : TxId} {t : Transaction} (hw : Safe w) (hg : w.guards.get g = some t)
    (hb : Engine.zuBegin w.engine (w.handleOf c) .guard r = some (e, some x))
    (hs : EndSpec { w with engine := e } t u.ends w') (hnone : w.pointers c = 0) :
    Safe { w' with guards := w'.guards.put g (t.spent.take (.ofConn c x)).1 } := by
  have hhandle := (Engine.zuBegin_some hb).1
  have hw1 : Safe { w with engine := e } := hw.begun hb (hw.pointers_of_handle hhandle hnone)
  have hw' : Safe w' := hw1.ended hg hs
  have hg' : w'.guards.get g = some t := by rw [hs.guards]; exact hg
  have hnew : Aligned w' (t.spent.take (.ofConn c x)).1 := aligned_ofConn hb hs.conns hs.fades
  exact hw'.withGuards (Arena.all_put hw'.aligned hg' hnew)

theorem safe_moveGuard {w : World} {g : Nat} {t : Transaction} (hw : Safe w)
    (hg : w.guards.get g = some t) :
    Safe { w with guards := (w.guards.put g t.moveConstruct.2).alloc t.moveConstruct.1 } := by
  have hold : Aligned w t.moveConstruct.2 := aligned_of_none rfl
  have ht := hw.aligned g t hg
  have hnew : Aligned w t.moveConstruct.1 := ⟨ht.alive, ht.own⟩
  exact hw.withGuards (Arena.all_alloc (Arena.all_put hw.aligned hg hold) hnew)

theorem safe_assignGuard {w : World} {g o : Nat} {t s : Transaction} (hw : Safe w) (hne : g ≠ o)
    (hg : w.guards.get g = some t) (ho : w.guards.get o = some s) :
    Safe { w with guards := (w.guards.put o (t.spent.take s).2).put g (t.spent.take s).1 } := by
  have hg' : (w.guards.put o (t.spent.take s).2).get g = some t := by
    rw [Arena.get_put ho, if_neg hne, hg]
  have hold : Aligned w (t.spent.take s).2 := aligned_of_none rfl
  have hs := hw.aligned o s ho
  have hnew : Aligned w (t.spent.take s).1 := ⟨hs.alive, hs.own⟩
  exact hw.withGuards (Arena.all_put (Arena.all_put hw.aligned ho hold) hg' hnew)

theorem safe_spend {w : World} {g : Nat} {t : Transaction} (hw : Safe w)
    (hg : w.guards.get g = some t) : Safe { w with guards := w.guards.put g t.spent } :=
  hw.withGuards (Arena.all_put hw.aligned hg (aligned_of_none rfl))

theorem safe_destroyGuard {w : World} {g : Nat} (hw : Safe w) :
    Safe { w with guards := w.guards.drop g } :=
  hw.withGuards (Arena.all_drop hw.aligned g)

/-- One operation that leaves no guard pointing at another's transaction keeps the
invariant. -/
theorem safe_step {w w' : World} {op : Op} (hw : Safe w) (hcond : w.NoneStale op)
    (h : w.step op = some w') : Safe w' := by
  cases stepped_of_step h with
  | connect => exact safe_connect hw
  | noConnection => exact safe_noConnection hw
  | moveConn hget => exact safe_moveConn hw hget
  | @assignConn c d hc hd hne hgetc hgetd =>
    apply safe_assignConn hw hne hgetc hgetd
    intro g t x h hg ht hp hx
    rcases hcond with hcd | hall
    · exact absurd hcd hne
    · exact hall g (Arena.lt_next_of_get hg) t hg ht h (handleOf_eq_some.mpr ⟨hd, hgetd, hp⟩) x hx
  | destroyConn hget hno => exact safe_destroyConn hw hget
  | transaction hb => exact safe_transaction hw hb hcond
  | assignTransaction hg hb hs => exact safe_assignTransaction hw hg hb hs hcond
  | moveGuard hg => exact safe_moveGuard hw hg
  | assignGuard hne hg ho hs =>
    exact safe_assignGuard (hw.ended hg hs) hne (by rw [hs.guards, hg]) (by rw [hs.guards, ho])
  | commit hg hs => exact safe_spend (hw.ended hg hs) (by rw [hs.guards, hg])
  | rollback hg hs => exact safe_spend (hw.ended hg hs) (by rw [hs.guards, hg])
  | destroyGuard hg hs => exact safe_destroyGuard (hw.ended hg hs)
  | begin hb => exact hw.begun hb (hw.pointers_of_handle (Engine.zuBegin_some hb).1 hcond)
  | begins hb =>
    refine hw.begun hb fun c hc => hcond c (lt_next_of_handleOf hc) ?_
    rw [hc, (Engine.zuBegin_some hb).1]
  | fades hop hf => exact hw.fades rfl rfl hf hw.calls

theorem safe_init : Safe {} := by
  refine ⟨?_, ?_, ?_, ?_⟩
  · intro h
    exact Nat.zero_le _
  · intro g t c hg
    rw [Arena.get_empty] at hg
    cases hg
  · intro g t x hg
    rw [Arena.get_empty] at hg
    cases hg
  · intro k hk
    cases hk

/-- The guard `g` points at the object `c`, and has the right to a transaction that is
open on the handle of `c` and that is the next one after what was begun there in `w`. -/
def OwnsNext (w' w : World) (g c : Nat) : Prop :=
  ∃ t x, w'.guards.get g = some t ∧ t.conn = some c ∧ t.right = some x ∧
    w'.handleOf c = some x.conn ∧ w'.Open x ∧
    ∃ k, w.engine.get x.conn = some k ∧ x.serial = k.begun + 1

/-- When `g = c.transaction()` returns, the transaction it began is open and is `g`'s. -/
theorem owns_assignTransaction {w w' : World} {g c : Nat} {u : UndoReply} (hw : Safe w)
    (hcond : w.NoneStale (.assignTransaction g c .ok u))
    (h : w.step (.assignTransaction g c .ok u) = some w') : OwnsNext w' w g c := by
  cases stepped_of_step h with
  | fades hop hf =>
    -- the begin was accepted
    obtain ⟨f, hr⟩ := hop
    cases hr
  | @assignTransaction _ _ _ t e x w1 hg hb hs =>
    obtain ⟨hhandle, k, hk, hr, hser, rfl⟩ := Engine.zuBegin_some hb
    -- the old guard points at another object, and so at another handle
    have haim : ({ w with engine := w.engine.put x.conn ⟨x.serial, some .guard⟩ } : World).aim t
        ≠ some x.conn := by
      intro ha
      obtain ⟨c', hc', ha⟩ := Option.bind_eq_some_iff.mp ha
      rw [hw.conn_unique (show w.handleOf c' = some x.conn from ha) hhandle] at hc'
      exact conn_ne_of_pointers hcond hg hc'
    have hopen : w1.engine.get x.conn = some ⟨x.serial, some .guard⟩ := by
      rw [hs.frame _ haim]
      exact (Arena.get_put hk _ _).trans (if_pos rfl)
    have hg' : w1.guards.get g = some t := by rw [hs.guards]; exact hg
    refine ⟨_, x, (Arena.get_put hg' _ _).trans (if_pos rfl), rfl, rfl, ?_, ?_, k, hk, hser⟩
    · show (w1.conns.get c).bind (·.p) = some x.conn
      rw [hs.conns]
      exact hhandle
    · exact ⟨_, hopen, rfl, rfl⟩

/-- **A guard only ever ends its own transaction.**  In a run that leaves no guard
pointing at a transaction of another, every commit or rollback of a guard acts on the
transaction that produced the guard, if on any; and when `g = c.transaction()` returns,
the transaction it began is open and is `g`'s. -/
theorem ends_only_its_own {ops : List Op} {w : World} (h : exec step {} ops = some w)
    (hcond : Along step NoneStale {} ops) :
    (∀ k ∈ w.calls, k.ActsOnOwn) ∧
      ∀ g c u w', w.NoneStale (.assignTransaction g c .ok u) →
        w.step (.assignTransaction g c .ok u) = some w' → OwnsNext w' w g c := by
  have hw : Safe w := exec_invariant_along (fun _ _ _ => safe_step) safe_init hcond h
  exact ⟨hw.calls, fun g c u w' hn hs => owns_assignTransaction hw hn hs⟩

def ownRun : List Op :=
  [.connect, .connect, .transaction 0 .ok, .moveGuard 0, .commit 1 .ok, .begin 0 .ok,
    .bareEnd 0 .ok, .transaction 1 .ok]

theorem ends_only_its_own_ownRun : ∃ w w', exec step {} ownRun = some w ∧
    w.step (.assignTransaction 2 0 .ok ⟨true, .ok⟩) = some w' ∧
    (∀ k ∈ w.calls, k.ActsOnOwn) ∧ OwnsNext w' w 2 0 :=
  have h := ends_only_its_own (rfl : exec step {} ownRun = _) (by decide)
  ⟨_, _, rfl, rfl, h.1, h.2 2 0 ⟨true, .ok⟩ _ (by decide) rfl⟩

def endedBehind : List Op := [.connect, .transaction 0 .ok, .bareEnd 0 .ok]

/-- A connection with an open transaction is assigned into the object the guard points
at. -/
def assignedInto : List Op :=
  [.connect, .connect, .transaction 0 .ok, .begin 1 .ok, .assignConn 0 1,
    .destroyGuard 0 ⟨true, .ok⟩]

/-- **Two ways to end another's transaction.**  After its own was rolled back behind its
back, `tx = conn.transaction()` begins the next one and then has the old guard undo it;
and a guard rolls back what was begun on a connection that was assigned into its object. -/
theorem ends_anothers :
    (∃ w w', exec step {} endedBehind = some w ∧
      w.step (.assignTransaction 0 0 .ok ⟨true, .ok⟩) = some w' ∧
      (¬ ∀ k ∈ w'.calls, k.ActsOnOwn) ∧ ¬ OwnsNext w' w 0 0) ∧
    ∃ w, exec step {} assignedInto = some w ∧ ¬ ∀ k ∈ w.calls, k.ActsOnOwn := by
  refine ⟨⟨_, _, rfl, rfl, by decide, ?_⟩, ⟨_, rfl, by decide⟩⟩
  rintro ⟨t, x, hg, -, hx, -, hopen, -⟩
  cases hg
  cases hx
  revert hopen
  decide

end World

end ZuCpp.Transactions
