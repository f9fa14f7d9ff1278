import ZuCpp.Transaction.Model

/-!
# No transaction outlives its guards, when none is let go open

A guard gives up its pointer before it makes the call that ends the transaction, and the
call goes to whatever `Connection` object is at the address it kept.  `none_outlives`
says when that is enough: the object has the handle the transaction is open on, and the
engine does not leave it open.  `transaction_outlives` is the two ways it is not.
-/

namespace ZuCpp.Transactions

open Lib

namespace World

def Open (w : World) (x : TxId) : Prop :=
  ∃ k ∈ w.engine.get x.conn, k.running = some .guard ∧ k.begun = x.serial

instance (w : World) (x : TxId) : Decidable (w.Open x) :=
  inferInstanceAs (Decidable (∃ k ∈ w.engine.get x.conn, _))

/-- Once every guard that holds or has held a transaction is gone, the transaction is
not open. -/
def NoneOutlives (w : World) : Prop :=
  ∀ x, (∀ g t, w.guards.get g = some t → x ∉ t.held) → ¬ w.Open x

end World

/-- The guard whose pointer the operation gives up, and whether the engine's answers
leave nothing open on the handle.  Those to a destructor do by assumption. -/
def Op.letsGo : Op → Option (Nat × Bool)
  | .assignTransaction g _ .ok u => some (g, u.ends)
  | .assignGuard g o u => if g = o then none else some (g, u.ends)
  | .commit g r => some (g, r.ends)
  | .rollback g r => some (g, r.ends)
  | .destroyGuard g _ => some (g, true)
  | _ => none

/-- What is assumed of the engine: the calls that are made on an open handle while a
guard is destroyed succeed. -/
def Op.Answered : Op → Prop
  | .destroyGuard _ u => u.answered = true ∧ u.rollback = .ok
  | _ => True

instance : (op : Op) → Decidable op.Answered
  | .destroyGuard _ _ => inferInstanceAs (Decidable (_ ∧ _))
  | .connect | .noConnection | .moveConn _ | .assignConn _ _ | .destroyConn _ | .transaction _ _
  | .assignTransaction _ _ _ _ | .moveGuard _ | .assignGuard _ _ _ | .commit _ _ | .rollback _ _
  | .begin _ _ | .bareEnd _ _ | .statement _ _ => isTrue trivial

namespace World

/-- A guard that gives up its pointer while its transaction is open points at the
`Connection` object that has the handle, and the engine does not leave it open. -/
def LetsGoEnded (w : World) (op : Op) : Prop :=
  ∀ l ∈ op.letsGo, ∀ t ∈ w.guards.get l.1, ∀ x ∈ t.right,
    w.Open x → w.aim t = some x.conn ∧ l.2 = true

instance (w : World) (op : Op) : Decidable (w.LetsGoEnded op) :=
  inferInstanceAs (Decidable (∀ l ∈ op.letsGo, ∀ t ∈ w.guards.get l.1, ∀ x ∈ t.right, _))

/-- **The invariant.**  A transaction that is open and was begun through a guard is
still some guard's. -/
structure Kept (w : World) : Prop where
  owner : ∀ x, w.Open x → ∃ g t, w.guards.get g = some t ∧ t.right = some x
  held : ∀ g t x, w.guards.get g = some t → t.right = some x → x ∈ t.held

theorem Kept.noneOutlives {w : World} (hw : Kept w) : w.NoneOutlives := by
  intro x hgone hx
  obtain ⟨g, t, hg, ht⟩ := hw.owner x hx
  exact hgone g t hg (hw.held g t x hg ht)

def HasHeld (t : Transaction) : Prop := ∀ x, t.right = some x → x ∈ t.held

theorem Kept.hasHeld {w : World} (hw : Kept w) (g : Nat) (t : Transaction)
    (hg : w.guards.get g = some t) : HasHeld t := fun x => hw.held g t x hg

theorem kept_of_hasHeld {w : World}
    (howner : ∀ x, w.Open x → ∃ g t, w.guards.get g = some t ∧ t.right = some x)
    (h : ∀ g t, w.guards.get g = some t → HasHeld t) : Kept w :=
  ⟨howner, fun g t x hg => h g t hg x⟩

theorem hasHeld_of_subset {t : Transaction} (h : t.right.toList ⊆ t.held) : HasHeld t := by
  intro x hx
  apply h
  rw [hx]
  exact List.mem_singleton_self x

theorem hasHeld_spent (t : Transaction) : HasHeld t.spent := hasHeld_of_subset (List.nil_subset _)

theorem open_of_fades {w w' : World} (hf : Engine.Fades w.engine w'.engine) {x : TxId}
    (hx : w'.Open x) : w.Open x := by
  obtain ⟨k', hk', hr', hb'⟩ := hx
  obtain ⟨k, hk, hb, hr⟩ := hf.get _ _ hk'
  rcases hr with hr | hr
  · exact ⟨k, hk, hr ▸ hr', hb ▸ hb'⟩
  · rw [hr] at hr'
    cases hr'

theorem not_open_of_running {w : World} {x : TxId} (h : Engine.running w.engine x.conn = none) :
    ¬ w.Open x := by
  rintro ⟨k, hk, hr, -⟩
  have : Engine.running w.engine x.conn = some ⟨x.conn, k.begun⟩ :=
    Engine.running_eq_some.mpr ⟨k, hk, by rw [hr]; exact Option.some_ne_none _, rfl⟩
  rw [h] at this
  cases this

/-- The guards are the same, and transactions were only closed. -/
theorem Kept.fades {w w' : World} (hw : Kept w) (hg : w'.guards = w.guards)
    (hf : Engine.Fades w.engine w'.engine) : Kept w' :=
  ⟨fun x hx => hg ▸ hw.owner x (open_of_fades hf hx), fun g t x hget => hw.held g t x (hg ▸ hget)⟩

/-- Only a begin opens a transaction: any other that is open was open before. -/
theorem open_of_begin {w : World} {e : Engine} {h : Option Nat} {o : Origin} {r : Reply}
    {y : TxId} (hb : Engine.zuBegin w.engine h o r = some (e, some y)) {x : TxId}
    (hx : { w with engine := e }.Open x) : w.Open x ∨ x = y ∧ o = .guard := by
  obtain ⟨rfl, k, hk, hr, hser, rfl⟩ := Engine.zuBegin_some hb
  obtain ⟨k', hk', hr', hb'⟩ := hx
  rw [Option.mem_def, Arena.get_put hk] at hk'
  split at hk'
  · rename_i hxy
    cases hk'
    cases hr'
    refine Or.inr ⟨?_, rfl⟩
    obtain ⟨yc, ys⟩ := y
    obtain ⟨xc, xs⟩ := x
    cases hxy
    cases hb'
    rfl
  · exact Or.inl ⟨k', hk', hr', hb'⟩

/-- **A guard that is let go leaves nothing behind.**  What is open after it was ended
belongs to another guard. -/
theorem other_owner {w w' : World} {g : Nat} {t : Transaction} {ends : Bool} {x : TxId}
    (hs : EndSpec w t ends w')
    (hlet : t.right = some x → w.aim t = some x.conn ∧ ends = true) (hx : w'.Open x)
    (hown : ∃ j s, w.guards.get j = some s ∧ s.right = some x)
    (hg : w.guards.get g = some t) :
    ∃ j s, j ≠ g ∧ w.guards.get j = some s ∧ s.right = some x := by
  obtain ⟨j, s, hj, hright⟩ := hown
  refine ⟨j, s, ?_, hj, hright⟩
  rintro rfl
  rw [hg, Option.some.injEq] at hj
  subst hj
  obtain ⟨haim, hends⟩ := hlet hright
  exact not_open_of_running (hs.closed hends _ haim) hx

theorem kept_begin_bare {w : World} {e : Engine} {h : Option Nat} {r : Reply} {x : TxId}
    (hw : Kept w) (hb : Engine.zuBegin w.engine h .bare r = some (e, some x)) :
    Kept { w with engine := e } := by
  refine ⟨?_, hw.held⟩
  intro x hx
  rcases open_of_begin hb hx with hx | ⟨-, ho⟩
  · exact hw.owner x hx
  · cases ho

theorem kept_connect {w : World} (hw : Kept w) (conns : Arena (Handle Nat)) :
    Kept { w with engine := w.engine.alloc {}, conns := conns } := by
  refine ⟨?_, hw.held⟩
  intro x hx
  obtain ⟨k, hk, hr, hb⟩ := hx
  rw [Arena.get_alloc] at hk
  split at hk
  · cases hk
    cases hr
  · exact hw.owner x ⟨k, hk, hr, hb⟩

theorem kept_transaction {w : World} {c : Nat} {r : Reply} {e : Engine} {x : TxId}
    (hw : Kept w)
    (hb : Engine.zuBegin w.engine (w.handleOf c) .guard r = some (e, some x)) :
    Kept { w with engine := e, guards := w.guards.alloc (.ofConn c x) } := by
  have hnew : (w.guards.alloc (.ofConn c x)).get w.guards.next = some (.ofConn c x) := by
    rw [Arena.get_alloc, if_pos rfl]
  have hheld : HasHeld (.ofConn c x) := hasHeld_of_subset (List.Subset.refl _)
  refine kept_of_hasHeld ?_ (Arena.all_alloc hw.hasHeld hheld)
  intro y hy
  rcases open_of_begin hb (show { w with engine := e }.Open y from hy) with hy | ⟨hy, -⟩
  · obtain ⟨g, t, hg, ht⟩ := hw.owner y hy
    refine ⟨g, t, ?_, ht⟩
    rw [Arena.get_alloc, if_neg (Nat.ne_of_lt (Arena.lt_next_of_get hg))]
    exact hg
  · exact ⟨_, _, hnew, by rw [hy]; rfl⟩

theorem kept_assignTransaction {w w' : World} {g c : Nat} {r : Reply} {u : UndoReply} {e : Engine}
    {x : TxId} {t : Transaction} (hw : Kept w) (hg : w.guards.get g = some t)
    (hb : Engine.zuBegin w.engine (w.handleOf c) .guard r = some (e, some x))
    (hs : EndSpec { w with engine := e } t u.ends w')
    (hlet : ∀ y, t.right = some y → w.Open y → w.aim t = some y.conn ∧ u.ends = true) :
    Kept { w' with guards := w'.guards.put g (t.spent.take (.ofConn c x)).1 } := by
  have hguards : w'.guards = w.guards := hs.guards
  have hg' : w'.guards.get g = some t := by rw [hguards, hg]
  have hkept : ∀ j q, w'.guards.get j = some q → HasHeld q := hguards ▸ hw.hasHeld
  have hnew : HasHeld (t.spent.take (.ofConn c x)).1 :=
    hasHeld_of_subset (List.subset_append_left _ _)
  refine kept_of_hasHeld ?_ (Arena.all_put hkept hg' hnew)
  intro y hy
  have hy1 : { w with engine := e }.Open y := open_of_fades hs.fades hy
  rcases open_of_begin hb hy1 with hy0 | ⟨hy0, -⟩
  · obtain ⟨j, s, hne, hj, hright⟩ :=
      other_owner hs (fun hr => hlet y hr hy0) hy (hw.owner y hy0) hg
    refine ⟨j, s, ?_, hright⟩
    rw [Arena.get_put hg', if_neg hne, hguards]
    exact hj
  · exact ⟨g, _, (Arena.get_put hg' _ _).trans (if_pos rfl), by rw [hy0]; rfl⟩

theorem kept_moveGuard {w : World} {g : Nat} {t : Transaction} (hw : Kept w)
    (hg : w.guards.get g = some t) :
    Kept { w with guards := (w.guards.put g t.moveConstruct.2).alloc t.moveConstruct.1 } := by
  have hnew : HasHeld t.moveConstruct.1 := hasHeld_of_subset (List.Subset.refl _)
  refine kept_of_hasHeld ?_
    (Arena.all_alloc (Arena.all_put hw.hasHeld hg (hasHeld_spent t)) hnew)
  intro y hy
  obtain ⟨j, s, hj, hright⟩ := hw.owner y hy
  by_cases hjg : j = g
  · subst hjg
    rw [hg, Option.some.injEq] at hj
    subst hj
    refine ⟨w.guards.next, t.moveConstruct.1, ?_, hright⟩
    rw [Arena.get_alloc, if_pos (Arena.next_put _ _).symm]
  · refine ⟨j, s, ?_, hright⟩
    have hlt := Arena.lt_next_of_get hj
    rw [Arena.get_alloc, if_neg (by rw [Arena.next_put]; omega), Arena.get_put hg, if_neg hjg]
    exact hj

theorem kept_assignGuard {w w' : World} {g o : Nat} {t s : Transaction} {ends : Bool}
    (hw : Kept w) (hne : g ≠ o) (hg : w.guards.get g = some t) (ho : w.guards.get o = some s)
    (hs : EndSpec w t ends w')
    (hlet : ∀ y, t.right = some y → w.Open y → w.aim t = some y.conn ∧ ends = true) :
    Kept { w' with
      guards := (w'.guards.put o (t.spent.take s).2).put g (t.spent.take s).1 } := by
  have ho' : w'.guards.get o = some s := by rw [hs.guards, ho]
  have hg' : (w'.guards.put o (t.spent.take s).2).get g = some t := by
    rw [Arena.get_put ho', if_neg hne, hs.guards, hg]
  have hkept : ∀ j q, w'.guards.get j = some q → HasHeld q := hs.guards ▸ hw.hasHeld
  have hnew : HasHeld (t.spent.take s).1 := hasHeld_of_subset (List.subset_append_left _ _)
  refine kept_of_hasHeld ?_
    (Arena.all_put (Arena.all_put hkept ho' (hasHeld_spent s)) hg' hnew)
  intro y hy
  have hy0 := open_of_fades hs.fades hy
  obtain ⟨j, q, hjg, hj, hright⟩ :=
    other_owner hs (fun hr => hlet y hr hy0) hy (hw.owner y hy0) hg
  by_cases hjo : j = o
  · subst hjo
    rw [ho, Option.some.injEq] at hj
    subst hj
    exact ⟨g, _, (Arena.get_put hg' _ _).trans (if_pos rfl), hright⟩
  · refine ⟨j, q, ?_, hright⟩
    rw [Arena.get_put hg', if_neg hjg, Arena.get_put ho', if_neg hjo, hs.guards]
    exact hj

/-- The guard `g` was ended and has no right any more; it is spent, or gone. -/
theorem kept_letGo {w w' : World} {g : Nat} {t : Transaction} {ends : Bool}
    {G : Arena Transaction} (hw : Kept w) (hg : w.guards.get g = some t) (hs : EndSpec w t ends w')
    (hlet : ∀ y, t.right = some y → w.Open y → w.aim t = some y.conn ∧ ends = true)
    (hoff : ∀ j, j ≠ g → G.get j = w.guards.get j)
    (hheld : ∀ j q, G.get j = some q → HasHeld q) : Kept { w' with guards := G } := by
  refine kept_of_hasHeld ?_ hheld
  intro y hy
  have hy0 := open_of_fades hs.fades hy
  obtain ⟨j, q, hjg, hj, hright⟩ :=
    other_owner hs (fun hr => hlet y hr hy0) hy (hw.owner y hy0) hg
  exact ⟨j, q, (hoff j hjg).trans hj, hright⟩

theorem kept_spend {w w' : World} {g : Nat} {t : Transaction} {ends : Bool} (hw : Kept w)
    (hg : w.guards.get g = some t) (hs : EndSpec w t ends w')
    (hlet : ∀ y, t.right = some y → w.Open y → w.aim t = some y.conn ∧ ends = true) :
    Kept { w' with guards := w'.guards.put g t.spent } := by
  have hg' : w'.guards.get g = some t := by rw [hs.guards, hg]
  have hkept : ∀ j q, w'.guards.get j = some q → HasHeld q := hs.guards ▸ hw.hasHeld
  refine kept_letGo hw hg hs hlet ?_ (Arena.all_put hkept hg' (hasHeld_spent t))
  intro j hj
  rw [Arena.get_put hg', if_neg hj, hs.guards]

theorem kept_destroyGuard {w w' : World} {g : Nat} {t : Transaction} {ends : Bool} (hw : Kept w)
    (hg : w.guards.get g = some t) (hs : EndSpec w t ends w')
    (hlet : ∀ y, t.right = some y → w.Open y → w.aim t = some y.conn ∧ ends = true) :
    Kept { w' with guards := w'.guards.drop g } := by
  have hkept : ∀ j q, w'.guards.get j = some q → HasHeld q := hs.guards ▸ hw.hasHeld
  refine kept_letGo hw hg hs hlet ?_ (Arena.all_drop hkept g)
  intro j hj
  rw [Arena.get_drop, if_neg hj, hs.guards]

/-- One operation that lets nothing go unended keeps the invariant. -/
theorem kept_step {w w' : World} {op : Op} (hw : Kept w)
    (hcond : op.Answered ∧ w.LetsGoEnded op) (h : w.step op = some w') : Kept w' := by
  obtain ⟨hans, hlet⟩ := hcond
  cases stepped_of_step h with
  | connect => exact kept_connect hw _
  | noConnection => exact hw.fades rfl (Engine.Fades.refl _)
  | moveConn hget => exact hw.fades rfl (Engine.Fades.refl _)
  | assignConn hne hgetc hgetd => exact hw.fades rfl (Engine.fades_dropAll _ _)
  | destroyConn hget hno => exact hw.fades rfl (Engine.fades_dropAll _ _)
  | transaction hb => exact kept_transaction hw hb
  | assignTransaction hg hb hs => exact kept_assignTransaction hw hg hb hs (hlet _ rfl _ hg)
  | moveGuard hg => exact kept_moveGuard hw hg
  | assignGuard hne hg ho hs =>
    exact kept_assignGuard hw hne hg ho hs (hlet (_, _) (if_neg hne) _ hg)
  | commit hg hs => exact kept_spend hw hg hs (hlet _ rfl _ hg)
  | rollback hg hs => exact kept_spend hw hg hs (hlet _ rfl _ hg)
  | destroyGuard hg hs =>
    exact kept_destroyGuard hw hg hs fun y hr hy =>
      ⟨(hlet _ rfl _ hg y hr hy).1, UndoReply.ends_of_answered hans⟩
  | begin hb => exact kept_begin_bare hw hb
  | begins hb => exact kept_begin_bare hw hb
  | fades hop hf => exact hw.fades rfl hf

theorem kept_init : Kept {} := by
  refine ⟨?_, ?_⟩
  · intro x hx
    obtain ⟨k, hk, -⟩ := hx
    rw [Arena.get_empty] at hk
    cases hk
  · intro g t x hg
    rw [Arena.get_empty] at hg
    cases hg

/-- **No transaction outlives its guards.**  In a run whose operations let no
transaction go without ending it, a transaction is not open any more once the guards that
hold or have held it are gone. -/
theorem none_outlives {ops : List Op} {w : World} (h : exec step {} ops = some w)
    (hcond : Along step (fun w op => op.Answered ∧ w.LetsGoEnded op) {} ops) :
    w.NoneOutlives :=
  (exec_invariant_along (fun _ _ _ => kept_step) kept_init hcond h).noneOutlives

def keptRun : List Op :=
  [.connect, .transaction 0 .ok, .moveGuard 0, .commit 1 .ok, .transaction 0 .ok,
    .assignGuard 2 1 ⟨true, .ok⟩, .destroyGuard 0 ⟨true, .ok⟩, .destroyGuard 1 ⟨true, .ok⟩,
    .destroyGuard 2 ⟨true, .ok⟩]

theorem none_outlives_keptRun : ∃ w, exec step {} keptRun = some w ∧ w.NoneOutlives :=
  ⟨_, rfl, none_outlives (rfl : exec step {} keptRun = _) (by decide)⟩

/-- The guard points at a `Connection` object that was moved from, where there is no
handle to roll back on. -/
def movedFrom : List Op :=
  [.connect, .transaction 0 .ok, .moveConn 0, .destroyGuard 0 ⟨true, .ok⟩]

/-- The guard is spent by a commit that the engine refused and that did nothing, so its
destructor has nothing left to undo. -/
def refusedCommit : List Op :=
  [.connect, .transaction 0 .ok,
    .commit 0 (.refused ⟨.misuseConcurrent, false, by decide, fun _ => rfl⟩),
    .destroyGuard 0 ⟨true, .ok⟩]

/-- **Two ways to lose a transaction.** -/
theorem transaction_outlives : [movedFrom, refusedCommit].Forall fun ops =>
    (∀ op ∈ ops, op.Answered) ∧ ∃ w, exec step {} ops = some w ∧ ¬ w.NoneOutlives := by
  rw [List.forall_iff_forall_mem]
  have hgone : ∀ (g : Nat) (t : Transaction),
      (⟨[none]⟩ : Arena Transaction).get g = some t → (⟨0, 1⟩ : TxId) ∉ t.held := by
    intro g t hg
    match g with
    | 0 => cases hg
    | g + 1 => cases hg
  have hopen : ∀ ops ∈ [movedFrom, refusedCommit], ∃ w, exec step {} ops = some w ∧
      w.guards = ⟨[none]⟩ ∧ w.Open ⟨0, 1⟩ := by
    intro ops hops
    rcases List.mem_cons.mp hops with rfl | hops
    · exact ⟨_, rfl, rfl, by decide⟩
    · rw [List.mem_singleton.mp hops]
      exact ⟨_, rfl, rfl, by decide⟩
  intro ops hops
  refine ⟨?_, ?_⟩
  · revert ops
    decide
  · obtain ⟨w, hw, hg, hx⟩ := hopen ops hops
    exact ⟨w, hw, fun hno => hno ⟨0, 1⟩ (hg ▸ hgone) hx⟩

end World

end ZuCpp.Transactions
