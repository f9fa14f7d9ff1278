import ZuCpp.Transaction.Model

/-!
# One begin, at most one end

The transaction a guard was produced by is a right to end it, and the right is a token:
moving a guard moves it, and a `commit`, a `rollback` or an `undo` gives it up before the
engine is asked, whatever the engine answers.  `Linear` counts, for each transaction, the
guards that have the right and the ends that were issued on the strength of it, and the two
together are one at most.
-/

namespace ZuCpp.Transactions

open Lib

def GuardCall.Ends (k : GuardCall) (x : TxId) : Prop :=
  k.call ≠ .inTransaction ∧ k.right = some x

instance (k : GuardCall) (x : TxId) : Decidable (k.Ends x) := inferInstanceAs (Decidable (_ ∧ _))

/-- How often the guard has the right `x`: once or not at all. -/
def Transaction.holds (x : TxId) (t : Transaction) : Nat := if t.right = some x then 1 else 0

theorem Transaction.holds_pos {x : TxId} {t : Transaction} : 0 < t.holds x ↔ t.right = some x := by
  rw [holds]
  split <;> simp_all

namespace World

def holders (w : World) (x : TxId) : Nat := w.guards.tally (Transaction.holds x)

def endings (w : World) (x : TxId) : Nat := w.calls.countP fun k => k.Ends x

def Begun (w : World) (x : TxId) : Prop :=
  x.conn < w.engine.next ∧ ∀ k, w.engine.get x.conn = some k → x.serial ≤ k.begun

/-- **The invariant.**  A transaction that was begun has one guard with the right to it or
one end issued on the strength of it, or neither; one that was not has none; and a guard
points at a connection exactly when it has a right. -/
structure Linear (w : World) : Prop where
  once : ∀ x, w.holders x + w.endings x ≤ 1
  begun : ∀ x, 0 < w.holders x + w.endings x → w.Begun x
  pointed : ∀ g t, w.guards.get g = some t → (t.conn = none ↔ t.right = none)

/-! ### What a guard issues -/

/-- What `commit`, `rollback` and `undo` on the guard `t` issue: one end at most on the
strength of its right, and nothing when it points nowhere. -/
structure Issued (w : World) (t : Transaction) (w' : World) : Prop where
  guards : w'.guards = w.guards
  fades : Engine.Fades w.engine w'.engine
  endings : ∀ x, w'.endings x ≤ w.endings x + t.holds x
  idle : t.conn = none → w' = w

theorem issued_finish {w w' : World} {call : CallName} {t : Transaction} {r : Reply}
    (h : w.finish call t r = some w') : Issued w t w' := by
  have hs := finish_spec h
  rw [finish] at h
  cases hc : t.conn with
  | none =>
    rw [hc] at h
    cases h
    exact ⟨rfl, Engine.Fades.refl _, fun x => Nat.le_add_right _ _, fun _ => rfl⟩
  | some c =>
    rw [hc] at h
    obtain ⟨e, -, h⟩ := Option.bind_eq_some_iff.mp h
    cases h
    refine ⟨rfl, hs.fades, ?_, fun hn => by rw [hc] at hn; cases hn⟩
    intro x
    rw [World.endings, World.endings, List.countP_cons, Transaction.holds]
    apply Nat.add_le_add_left
    by_cases hr : t.right = some x
    · rw [if_pos hr]
      split <;> omega
    · rw [if_neg fun hk => hr (of_decide_eq_true hk).2]
      exact Nat.zero_le _

theorem issued_undo {w w' : World} {t : Transaction} {u : UndoReply}
    (h : w.undo t u = some w') : Issued w t w' := by
  have hs := undo_spec h
  rw [undo] at h
  cases hc : t.conn with
  | none =>
    rw [hc] at h
    cases h
    exact ⟨rfl, Engine.Fades.refl _, fun x => Nat.le_add_right _ _, fun _ => rfl⟩
  | some c =>
    rw [hc] at h
    -- the question whether a transaction is running is no end
    have hask : ∀ x, endings { w with
        calls := ⟨.inTransaction, t.right, w.target t⟩ :: w.calls } x = w.endings x := by
      intro x
      rw [World.endings, World.endings, List.countP_cons_of_neg]
      simp [GuardCall.Ends]
    refine ⟨hs.guards, hs.fades, ?_, fun hn => by rw [hc] at hn; cases hn⟩
    intro x
    rw [← hask x]
    dsimp only at h
    split at h
    · exact (issued_finish h).endings x
    · cases h
      exact Nat.le_add_right _ _

/-! ### What was begun stays begun -/

theorem Begun.fades {w w' : World} {x : TxId} (h : w.Begun x)
    (hf : Engine.Fades w.engine w'.engine) : w'.Begun x := by
  refine ⟨by rw [hf.next]; exact h.1, ?_⟩
  intro k' hk'
  obtain ⟨k, hk, hb, -⟩ := hf.get _ _ hk'
  rw [hb]
  exact h.2 k hk

theorem Begun.begin {w w' : World} {x y : TxId} {h : Option Nat} {origin : Origin} {r : Reply}
    (hx : w.Begun x) (hb : Engine.zuBegin w.engine h origin r = some (w'.engine, some y)) :
    w'.Begun x := by
  obtain ⟨-, k, hk, -, hserial, he⟩ := Engine.zuBegin_some hb
  refine ⟨by rw [he, Arena.next_put]; exact hx.1, ?_⟩
  intro k' hk'
  rw [he, Arena.get_put hk] at hk'
  split at hk'
  · rename_i hc
    cases hk'
    have := hx.2 k (by rw [hc]; exact hk)
    show x.serial ≤ y.serial
    omega
  · exact hx.2 k' hk'

/-- What a begin that is accepted began is begun now, and was not before. -/
theorem begun_begin {w w' : World} {y : TxId} {h : Option Nat} {origin : Origin} {r : Reply}
    (hb : Engine.zuBegin w.engine h origin r = some (w'.engine, some y)) :
    ¬ w.Begun y ∧ w'.Begun y := by
  obtain ⟨-, k, hk, -, hserial, he⟩ := Engine.zuBegin_some hb
  refine ⟨?_, ?_, ?_⟩
  · intro hy
    have := hy.2 k hk
    omega
  · rw [he, Arena.next_put]
    exact Arena.lt_next_of_get hk
  · intro k' hk'
    rw [he, Arena.get_put hk, if_pos rfl] at hk'
    cases hk'
    exact Nat.le_refl _

/-! ### One step -/

/-- Nothing that the rights depend on moved, and no transaction is forgotten. -/
theorem Linear.congr {w w' : World} (hw : Linear w) (hg : w'.guards = w.guards)
    (hc : w'.calls = w.calls) (hb : ∀ x, w.Begun x → w'.Begun x) : Linear w' := by
  have hh : ∀ x, w'.holders x = w.holders x := fun x => by rw [holders, hg]; rfl
  have he : ∀ x, w'.endings x = w.endings x := fun x => by rw [endings, hc]; rfl
  refine ⟨?_, ?_, by rw [hg]; exact hw.pointed⟩
  · intro x
    rw [hh, he]
    exact hw.once x
  · intro x hx
    rw [hh, he] at hx
    exact hb x (hw.begun x hx)

/-- The rights of a guard went to an end or to other guards, or it gave none up. -/
theorem Linear.spend {w w1 : World} {t : Transaction} {G : Arena Transaction} (hw : Linear w)
    (hs : Issued w t w1)
    (htally : ∀ x, G.tally (Transaction.holds x) + t.holds x = w.holders x)
    (hpointed : ∀ g s, G.get g = some s → (s.conn = none ↔ s.right = none)) :
    Linear { w1 with guards := G } := by
  have hsum : ∀ x, G.tally (Transaction.holds x) + w1.endings x ≤ w.holders x + w.endings x := by
    intro x
    have h1 := htally x
    have h2 := hs.endings x
    omega
  refine ⟨?_, ?_, hpointed⟩
  · intro x
    exact Nat.le_trans (hsum x) (hw.once x)
  · intro x hx
    exact (hw.begun x (Nat.lt_of_lt_of_le hx (hsum x))).fades hs.fades

/-- A transaction is begun and a guard gets the right to it, while the rights of the guard
`t` go to an end. -/
theorem Linear.gain {w w1 : World} {t : Transaction} {e : Engine} {y : TxId} {h : Option Nat}
    {r : Reply} {G : Arena Transaction} (hw : Linear w)
    (hb : Engine.zuBegin w.engine h .guard r = some (e, some y))
    (hs : Issued { w with engine := e } t w1)
    (htally : ∀ x, G.tally (Transaction.holds x) + t.holds x
      = w.holders x + if y = x then 1 else 0)
    (hpointed : ∀ g s, G.get g = some s → (s.conn = none ↔ s.right = none)) :
    Linear { w1 with guards := G } := by
  have hfresh : ¬ w.Begun y ∧ Begun { w with engine := e } y := begun_begin hb
  obtain ⟨hbefore, hafter⟩ := hfresh
  have hnone : w.holders y + w.endings y = 0 := by
    have := mt (hw.begun y) hbefore
    omega
  have hsum : ∀ x, G.tally (Transaction.holds x) + w1.endings x
      ≤ w.holders x + w.endings x + if y = x then 1 else 0 := by
    intro x
    have h1 := htally x
    have h2 : w1.endings x ≤ w.endings x + t.holds x := hs.endings x
    omega
  refine ⟨?_, ?_, hpointed⟩
  · intro x
    have h1 := hsum x
    have h2 := hw.once x
    show G.tally (Transaction.holds x) + w1.endings x ≤ 1
    by_cases hx : y = x
    · subst hx
      rw [if_pos rfl] at h1
      omega
    · rw [if_neg hx] at h1
      omega
  · intro x hx
    have h1 := hsum x
    change 0 < G.tally (Transaction.holds x) + w1.endings x at hx
    have hbegun : Begun { w with engine := e } x := by
      by_cases hyx : y = x
      · rw [← hyx]
        exact hafter
      · rw [if_neg hyx] at h1
        exact Begun.begin (hw.begun x (by omega)) hb
    exact hbegun.fades hs.fades

/-! ### The operations in which a guard may issue an end -/

theorem linear_spent {w w1 : World} {g : Nat} {t : Transaction} (hw : Linear w)
    (hg : w.guards.get g = some t) (hs : Issued w t w1) :
    Linear { w1 with guards := w1.guards.put g t.spent } := by
  refine hw.spend hs ?_ ?_
  · intro x
    rw [hs.guards]
    exact Arena.tally_put hg t.spent (Transaction.holds x)
  · rw [hs.guards]
    exact Arena.all_put hw.pointed hg (iff_of_true rfl rfl)

theorem linear_destroyGuard {w w1 : World} {g : Nat} {t : Transaction} (hw : Linear w)
    (hg : w.guards.get g = some t) (hs : Issued w t w1) :
    Linear { w1 with guards := w1.guards.drop g } := by
  refine hw.spend hs ?_ ?_
  · intro x
    rw [hs.guards]
    exact Arena.tally_drop hg (Transaction.holds x)
  · rw [hs.guards]
    exact Arena.all_drop hw.pointed g

/-- Two rights at once: the one of the guard that is assigned to goes to an end, and the
other guard's goes to it. -/
theorem linear_assignGuard {w w1 : World} {g o : Nat} {t s : Transaction} (hw : Linear w)
    (hne : g ≠ o) (hg : w.guards.get g = some t) (ho : w.guards.get o = some s)
    (hs : Issued w t w1) :
    Linear { w1 with guards := (w1.guards.put o (t.spent.take s).2).put g (t.spent.take s).1 } := by
  have hg' : (w.guards.put o s.spent).get g = some t := by
    rw [Arena.get_put ho, if_neg hne, hg]
  have hspent : s.spent.conn = none ↔ s.spent.right = none := iff_of_true rfl rfl
  refine hw.spend hs ?_ ?_
  · intro x
    have h1 := Arena.tally_put ho s.spent (Transaction.holds x)
    have h2 := Arena.tally_put hg' (t.spent.take s).1 (Transaction.holds x)
    have h3 : s.spent.holds x = 0 := rfl
    have h4 : (t.spent.take s).1.holds x = s.holds x := rfl
    have h5 : (t.spent.take s).2 = s.spent := rfl
    rw [hs.guards, holders, h5]
    omega
  · rw [hs.guards]
    exact Arena.all_put (Arena.all_put hw.pointed ho hspent) hg' (hw.pointed o s ho)

theorem linear_assignTransaction {w w1 : World} {g c : Nat} {t : Transaction} {e : Engine}
    {y : TxId} {h : Option Nat} {r : Reply} (hw : Linear w) (hg : w.guards.get g = some t)
    (hb : Engine.zuBegin w.engine h .guard r = some (e, some y))
    (hs : Issued { w with engine := e } t w1) :
    Linear { w1 with guards := w1.guards.put g (t.spent.take (.ofConn c y)).1 } := by
  refine hw.gain hb hs ?_ ?_
  · intro x
    rw [hs.guards]
    have ht := Arena.tally_put hg (t.spent.take (.ofConn c y)).1 (Transaction.holds x)
    rw [ht, Transaction.holds]
    simp only [Transaction.take, Transaction.ofConn, Option.some.injEq]
    rfl
  · rw [hs.guards]
    exact Arena.all_put hw.pointed hg (iff_of_false nofun nofun)

/-! ### The other operations -/

theorem issued_none (w : World) : Issued w {} w :=
  ⟨rfl, Engine.Fades.refl _, fun _ => Nat.le_add_right _ _, fun _ => rfl⟩

theorem linear_transaction {w : World} {c : Nat} {e : Engine} {y : TxId} {h : Option Nat}
    {r : Reply} (hw : Linear w) (hb : Engine.zuBegin w.engine h .guard r = some (e, some y)) :
    Linear { w with engine := e, guards := w.guards.alloc (.ofConn c y) } := by
  refine hw.gain hb (issued_none { w with engine := e }) ?_ ?_
  · intro x
    rw [Arena.tally_alloc]
    simp only [Transaction.holds, Transaction.ofConn, Option.some.injEq, reduceCtorEq, if_false,
      Nat.add_zero]
    rfl
  · exact Arena.all_alloc hw.pointed (iff_of_false nofun nofun)

theorem linear_moveGuard {w : World} {g : Nat} {t : Transaction} (hw : Linear w)
    (hg : w.guards.get g = some t) :
    Linear { w with guards := (w.guards.put g t.moveConstruct.2).alloc t.moveConstruct.1 } := by
  refine hw.spend (issued_none w) ?_ ?_
  · intro x
    have h1 := Arena.tally_put hg t.moveConstruct.2 (Transaction.holds x)
    have h2 : t.moveConstruct.2.holds x = 0 := rfl
    have h3 : t.moveConstruct.1.holds x = t.holds x := rfl
    have h4 : Transaction.holds x {} = 0 := rfl
    rw [Arena.tally_alloc, holders]
    omega
  · exact Arena.all_alloc (Arena.all_put hw.pointed hg (iff_of_true rfl rfl)) (hw.pointed g t hg)

theorem begun_connect {w : World} {conns : Arena (Handle Nat)} {x : TxId} (h : w.Begun x) :
    Begun { w with engine := w.engine.alloc {}, conns } x := by
  refine ⟨?_, ?_⟩
  · show x.conn < (w.engine.alloc {}).next
    rw [Arena.next_alloc]
    exact Nat.lt_succ_of_lt h.1
  · intro k hk
    change (w.engine.alloc {}).get x.conn = some k at hk
    rw [Arena.get_alloc, if_neg (Nat.ne_of_lt h.1)] at hk
    exact h.2 k hk

/-- **One operation keeps the rights apart**, whatever the engine answers. -/
theorem linear_step {w w' : World} {op : Op} (hw : Linear w) (h : w.step op = some w') :
    Linear w' := by
  cases op with
  | assignTransaction g c r u =>
    simp only [step, Option.bind_eq_bind, Option.bind_eq_some_iff] at h
    obtain ⟨-, -, t, hg, ⟨e, b⟩, hb, h⟩ := h
    rcases Engine.zuBegin_cases hb with ⟨-, rfl, rfl⟩ | ⟨-, y, rfl⟩
    · cases h
      exact hw
    · obtain ⟨w1, hu, h⟩ := Option.bind_eq_some_iff.mp h
      cases h
      exact linear_assignTransaction hw hg hb (issued_undo hu)
  | assignGuard g o u =>
    simp only [step, Option.bind_eq_bind, Option.bind_eq_some_iff] at h
    obtain ⟨t, hg, s, ho, h⟩ := h
    split at h
    · cases h
      exact hw
    · rename_i hne
      obtain ⟨w1, hu, h⟩ := Option.bind_eq_some_iff.mp h
      cases h
      exact linear_assignGuard hw hne hg ho (issued_undo hu)
  | commit g r =>
    simp only [step, Option.bind_eq_bind, Option.bind_eq_some_iff] at h
    obtain ⟨t, hg, w1, hf, h⟩ := h
    cases h
    exact linear_spent hw hg (issued_finish hf)
  | rollback g r =>
    simp only [step, Option.bind_eq_bind, Option.bind_eq_some_iff] at h
    obtain ⟨t, hg, w1, hf, h⟩ := h
    cases h
    exact linear_spent hw hg (issued_finish hf)
  | destroyGuard g u =>
    simp only [step, Option.bind_eq_bind, Option.bind_eq_some_iff] at h
    obtain ⟨t, hg, w1, hu, h⟩ := h
    cases h
    exact linear_destroyGuard hw hg (issued_undo hu)
  | transaction c r =>
    cases stepped_of_step h with
    | transaction hb => exact linear_transaction hw hb
    | fades hop hf => exact hw.congr rfl rfl fun x hx => hx.fades hf
  | moveGuard g =>
    cases stepped_of_step h with
    | moveGuard hg => exact linear_moveGuard hw hg
    | fades hop hf => cases hop
  | connect =>
    cases h
    exact hw.congr rfl rfl fun x hx => begun_connect hx
  | noConnection =>
    cases h
    exact hw.congr rfl rfl fun x hx => hx
  | moveConn c =>
    cases stepped_of_step h with
    | moveConn hget => exact hw.congr rfl rfl fun x hx => hx
    | fades hop hf => cases hop
  | assignConn c d =>
    cases stepped_of_step h with
    | assignConn hne hc hd =>
      exact hw.congr rfl rfl fun x hx => hx.fades (Engine.fades_dropAll _ _)
    | fades hop hf => exact hw.congr rfl rfl fun x hx => hx.fades hf
  | destroyConn c =>
    cases stepped_of_step h with
    | destroyConn hget hno =>
      exact hw.congr rfl rfl fun x hx => hx.fades (Engine.fades_dropAll _ _)
    | fades hop hf => cases hop
  | begin c r =>
    cases stepped_of_step h with
    | begin hb => exact hw.congr rfl rfl fun x hx => hx.begin hb
    | fades hop hf => exact hw.congr rfl rfl fun x hx => hx.fades hf
  | bareEnd c r =>
    cases stepped_of_step h with
    | fades hop hf => exact hw.congr rfl rfl fun x hx => hx.fades hf
  | statement h' effect =>
    cases stepped_of_step h with
    | begins hb => exact hw.congr rfl rfl fun x hx => hx.begin hb
    | fades hop hf => exact hw.congr rfl rfl fun x hx => hx.fades hf

theorem linear_init : Linear {} := by
  refine ⟨?_, ?_, ?_⟩
  · intro x
    exact Nat.zero_le 1
  · intro x hx
    exact absurd hx (Nat.lt_irrefl 0)
  · intro g t hg
    cases hg

/-! ### Every call of a guard is made on the strength of a right -/

/-- Every call was issued by a guard that had a right. -/
def Rightful (w : World) : Prop := ∀ k ∈ w.calls, k.right ≠ none

instance (w : World) : Decidable w.Rightful := inferInstanceAs (Decidable (∀ k ∈ _, _))

theorem EndSpec.rightOf {w w0 w1 : World} {g : Nat} {t : Transaction} {ends : Bool}
    (hs : EndSpec w0 t ends w1) (hg : w.guards.get g = some t) (hw0 : w0.calls = w.calls) :
    ∀ k ∈ w1.calls, k ∈ w.calls ∨
      ∃ g t, w.guards.get g = some t ∧ t.conn ≠ none ∧ k.right = t.right := by
  intro k hk
  rcases hs.calls k hk with hk | ⟨hconn, hright, -⟩
  · exact Or.inl (hw0 ▸ hk)
  · exact Or.inr ⟨g, t, hg, hconn, hright⟩

theorem Stepped.rightOf {w w' : World} {op : Op} (h : Stepped w op w') :
    ∀ k ∈ w'.calls, k ∈ w.calls ∨
      ∃ g t, w.guards.get g = some t ∧ t.conn ≠ none ∧ k.right = t.right := by
  intro k hk
  cases h with
  | assignTransaction hg hb hs => exact hs.rightOf hg rfl k hk
  | assignGuard hne hg ho hs => exact hs.rightOf hg rfl k hk
  | commit hg hs => exact hs.rightOf hg rfl k hk
  | rollback hg hs => exact hs.rightOf hg rfl k hk
  | destroyGuard hg hs => exact hs.rightOf hg rfl k hk
  | _ => exact Or.inl hk

theorem rightful_step {w w' : World} {op : Op} (hw : Linear w) (hr : w.Rightful)
    (h : w.step op = some w') : w'.Rightful := by
  intro k hk
  rcases (stepped_of_step h).rightOf k hk with hk | ⟨g, t, hg, hconn, hright⟩
  · exact hr k hk
  · rw [hright]
    exact mt (hw.pointed g t hg).mpr hconn

/-! ### A guard that was spent, or moved from -/

def Holds (w : World) (g : Nat) (x : TxId) : Prop :=
  ∃ t, w.guards.get g = some t ∧ t.right = some x

def Spent (w : World) (g : Nat) : Prop := ∃ t, w.guards.get g = some t ∧ t.right = none

end World

/-- The operation takes the right of the guard `g` away, whatever the engine answers. -/
inductive Op.Spends (g : Nat) : Op → Prop
  | commit (r : Reply) : Spends g (.commit g r)
  | rollback (r : Reply) : Spends g (.rollback g r)
  | moveGuard : Spends g (.moveGuard g)
  | assignGuard {o : Nat} (u : UndoReply) (hne : o ≠ g) : Spends g (.assignGuard o g u)

inductive Op.Finishes (g : Nat) : Op → Prop
  | commit (r : Reply) : Finishes g (.commit g r)
  | rollback (r : Reply) : Finishes g (.rollback g r)
  | destroyGuard (u : UndoReply) : Finishes g (.destroyGuard g u)

namespace World

/-- The guard that `op` leaves a new right in: it is a `Connection::transaction` whose
begin the engine accepts. -/
def yields (w : World) : Op → Option Nat
  | .transaction _ .ok => some w.guards.next
  | .assignTransaction g _ .ok _ => some g
  | _ => none

theorem spent_put {w : World} {g : Nat} {t s : Transaction} (hg : w.guards.get g = some t)
    (hs : s.right = none) : Spent { w with guards := w.guards.put g s } g :=
  ⟨s, (Arena.get_put hg _ _).trans (if_pos rfl), hs⟩

theorem spent_of_spends {w w' : World} {op : Op} {g : Nat} (hop : op.Spends g)
    (h : w.step op = some w') : w'.Spent g := by
  cases hop with
  | commit r =>
    cases stepped_of_step h with
    | commit hg hs => exact spent_put (hs.guards ▸ hg) rfl
    | fades hop hf => cases hop
  | rollback r =>
    cases stepped_of_step h with
    | rollback hg hs => exact spent_put (hs.guards ▸ hg) rfl
    | fades hop hf => cases hop
  | moveGuard =>
    cases stepped_of_step h with
    | @moveGuard _ t hg =>
      refine ⟨t.spent, ?_, rfl⟩
      have hne : g ≠ (w.guards.put g t.moveConstruct.2).next := by
        rw [Arena.next_put]
        exact Nat.ne_of_lt (Arena.lt_next_of_get hg)
      show ((w.guards.put g t.moveConstruct.2).alloc t.moveConstruct.1).get g = some t.spent
      rw [Arena.get_alloc, if_neg hne, Arena.get_put hg, if_pos rfl]
      rfl
    | fades hop hf => cases hop
  | @assignGuard o u hne =>
    cases stepped_of_step h with
    | @assignGuard _ _ _ t s w1 _ hgo hg hs =>
      refine ⟨s.spent, ?_, rfl⟩
      have hget : (w1.guards.put g (t.spent.take s).2).get o = some t := by
        rw [hs.guards, Arena.get_put hg, if_neg hne, hgo]
      show ((w1.guards.put g (t.spent.take s).2).put o (t.spent.take s).1).get g = some s.spent
      rw [Arena.get_put hget, if_neg (Ne.symm hne), hs.guards, Arena.get_put hg, if_pos rfl]
      rfl
    | fades hop hf => exact absurd hop hne

/-- **A guard without a right asks the engine nothing.** -/
theorem idle_of_spent {w : World} {op : Op} {g : Nat} (hw : Linear w) (hg : w.Spent g)
    (hop : op.Finishes g) :
    ∃ w', w.step op = some w' ∧ w'.calls = w.calls ∧ w'.engine = w.engine := by
  obtain ⟨t, hget, hright⟩ := hg
  have hconn := (hw.pointed g t hget).mpr hright
  have hfinish : ∀ call r, w.finish call t r = some w := fun call r => by rw [finish, hconn]
  have hundo : ∀ u, w.undo t u = some w := fun u => by rw [undo, hconn]
  cases hop with
  | commit r =>
    refine ⟨{ w with guards := w.guards.put g t.spent }, ?_, rfl, rfl⟩
    simp only [step, Option.bind_eq_bind, hget, Option.bind_some, hfinish]
  | rollback r =>
    refine ⟨{ w with guards := w.guards.put g t.spent }, ?_, rfl, rfl⟩
    simp only [step, Option.bind_eq_bind, hget, Option.bind_some, hfinish]
  | destroyGuard u =>
    refine ⟨{ w with guards := w.guards.drop g }, ?_, rfl, rfl⟩
    simp only [step, Option.bind_eq_bind, hget, Option.bind_some, hundo]

/-- What a begin began was not begun before, so no guard had it and no end was issued. -/
theorem Linear.fresh {w : World} {e : Engine} {y : TxId} {h : Option Nat} {origin : Origin}
    {r : Reply} (hw : Linear w) (hb : Engine.zuBegin w.engine h origin r = some (e, some y)) :
    w.holders y = 0 ∧ w.endings y = 0 := by
  have hbegun : ¬ w.Begun y ∧ Begun { w with engine := e } y := begun_begin hb
  have := mt (hw.begun y) hbegun.1
  omega

/-- **A begin for a guard that is accepted leaves one new right, in that guard.** -/
theorem holds_of_yields {w w' : World} {op : Op} {g : Nat} (hw : Linear w)
    (hop : w.yields op = some g) (h : w.step op = some w') :
    ∃ x, w'.Holds g x ∧ w.holders x = 0 ∧ w.endings x = 0 := by
  cases stepped_of_step h with
  | @transaction c e x hb =>
    cases hop
    refine ⟨x, ⟨.ofConn c x, ?_, rfl⟩, hw.fresh hb⟩
    exact (Arena.get_alloc _ _).trans (if_pos rfl)
  | @assignTransaction _ c u t e x w1 hg hb hs =>
    cases hop
    refine ⟨x, ⟨(t.spent.take (.ofConn c x)).1, ?_, rfl⟩, hw.fresh hb⟩
    exact (Arena.get_put (hs.guards ▸ hg) _ _).trans (if_pos rfl)
  | fades hq hf =>
    unfold yields at hop
    split at hop
    · obtain ⟨f, hr⟩ := hq
      cases hr
    · obtain ⟨f, hr⟩ := hq
      cases hr
    · cases hop
  | _ => cases hop

/-- **One begin, one end at most.**  In every run of the guards, whatever the engine
answers: a begin for a guard that is accepted leaves a new right in that guard, one guard
at most has a right, one commit or rollback at most is issued on the strength of it and
then no guard has it, no guard issues a call without one, and a guard that was spent or
moved from issues none at all. -/
theorem one_begin_one_end {ops : List Op} {w : World} (h : exec step {} ops = some w) :
    (∀ op g w', w.yields op = some g → w.step op = some w' →
      ∃ x, w'.Holds g x ∧ w.holders x = 0 ∧ w.endings x = 0) ∧
    (∀ g o x, w.Holds g x → w.Holds o x → g = o) ∧
    (∀ x, w.endings x ≤ 1) ∧
    (∀ g x, w.Holds g x → w.endings x = 0) ∧
    w.Rightful ∧
    (∀ op g w', op.Spends g → w.step op = some w' → w'.Spent g) ∧
    ∀ op g, w.Spent g → op.Finishes g →
      ∃ w', w.step op = some w' ∧ w'.calls = w.calls ∧ w'.engine = w.engine := by
  have hinv : Linear w ∧ w.Rightful :=
    exec_invariant (I := fun w => Linear w ∧ w.Rightful)
      (fun _ _ _ hw hs => ⟨linear_step hw.1 hs, rightful_step hw.1 hw.2 hs⟩)
      ⟨linear_init, nofun⟩ h
  obtain ⟨hw, hrightful⟩ := hinv
  refine ⟨fun op g w' => holds_of_yields hw, ?_, ?_, ?_, hrightful,
    fun op g w' => spent_of_spends, fun op g => idle_of_spent hw⟩
  · rintro g o x ⟨t, hg, ht⟩ ⟨s, ho, hs⟩
    have hone : w.holders x ≤ 1 := Nat.le_trans (Nat.le_add_right _ _) (hw.once x)
    exact Arena.eq_of_tally_le_one hone hg ho (Transaction.holds_pos.mpr ht)
      (Transaction.holds_pos.mpr hs)
  · intro x
    exact Nat.le_trans (Nat.le_add_left _ _) (hw.once x)
  · rintro g x ⟨t, hg, ht⟩
    have hpos : 0 < w.holders x :=
      Nat.lt_of_lt_of_le (Transaction.holds_pos.mpr ht) (Arena.le_tally hg _)
    have := hw.once x
    omega

def linearRun : List Op :=
  [.connect, .connect, .transaction 0 .ok, .transaction 1 .ok, .moveGuard 0,
    .assignGuard 1 2 ⟨true, .ok⟩, .assignGuard 1 1 ⟨true, .ok⟩,
    .commit 1 (.refused ⟨.conflict, true, by decide, by decide⟩), .rollback 1 .ok, .commit 0 .ok,
    .destroyGuard 2 ⟨true, .ok⟩]

theorem one_begin_one_end_linearRun : ∃ w, exec step {} linearRun = some w ∧
    (∀ op g w', w.yields op = some g → w.step op = some w' →
      ∃ x, w'.Holds g x ∧ w.holders x = 0 ∧ w.endings x = 0) ∧
    (∀ g o x, w.Holds g x → w.Holds o x → g = o) ∧
    (∀ x, w.endings x ≤ 1) ∧
    (∀ g x, w.Holds g x → w.endings x = 0) ∧
    w.Rightful ∧
    (∀ op g w', op.Spends g → w.step op = some w' → w'.Spent g) ∧
    ∀ op g, w.Spent g → op.Finishes g →
      ∃ w', w.step op = some w' ∧ w'.calls = w.calls ∧ w'.engine = w.engine :=
  have h : exec step {} linearRun = some _ := rfl
  ⟨_, rfl, one_begin_one_end h⟩

end World

end ZuCpp.Transactions
