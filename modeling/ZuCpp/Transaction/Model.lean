import ZuCpp.Error
import ZuCpp.Handle
import ZuCpp.Lib.Run

/-!
# `Transaction`: the guard, the connection it points at, and the transaction it began

The guard keeps the address of a `Connection` object, the object keeps an engine
handle, and the transaction is open on the handle.  The three are separate here, since
each can go elsewhere without the others: `World` is the engine's connections, the
`Connection` objects and the guards, and `step` is one operation on any of them.

What the guard does not remember is carried beside it as history: `right` is the
transaction whose begin produced it, for as long as its pointer is not given up, and
`held` is every transaction it ever had the right to.  No operation reads either.

`stepped_of_step` says what each operation can do, and every invariant of the guards is
proved from it.
-/

namespace ZuCpp.Transactions

open Lib

/-! ### The engine -/

/-- A transaction: the engine connection it was begun on, and which of the transactions
begun there it is. -/
structure TxId where
  conn : Nat
  serial : Nat
  deriving DecidableEq, Repr

inductive Origin
  | guard | bare
  deriving DecidableEq, Repr

/-- An open `zu_conn`: how many transactions were begun on it, and who began the one
that is open. -/
structure EngineConn where
  begun : Nat := 0
  running : Option Origin := none
  deriving DecidableEq, Repr

/-- A refusal.  `ended` says whether the transaction is closed all the same, which a
refusal for misuse never does: the call did nothing. -/
structure Refusal where
  status : Status
  ended : Bool
  failure : status ≠ .ok ∧ status ≠ .done
  misuse : status = .misuse ∨ status = .misuseConcurrent ∨ status = .misuseClosed → ended = false
  deriving DecidableEq

inductive Reply
  | ok
  | refused (f : Refusal)
  deriving DecidableEq

/-- An end that was answered so leaves nothing open. -/
def Reply.ends : Reply → Bool
  | .ok => true
  | .refused f => f.ended

structure UndoReply where
  /-- `zu_conn_in_transaction` succeeds -/
  answered : Bool
  rollback : Reply
  deriving DecidableEq

/-- An `undo` that was answered so leaves nothing open. -/
def UndoReply.ends (u : UndoReply) : Bool := u.answered && u.rollback.ends

theorem UndoReply.ends_of_answered {u : UndoReply} (h : u.answered = true ∧ u.rollback = .ok) :
    u.ends = true := by
  rw [UndoReply.ends, h.1, h.2]
  rfl

abbrev Engine := Arena EngineConn

namespace Engine

def running (e : Engine) (h : Nat) : Option TxId :=
  (e.get h).bind fun k => k.running.map fun _ => ⟨h, k.begun⟩

def finish (e : Engine) (h : Nat) : Engine :=
  match e.get h with
  | none => e
  | some k => e.put h { k with running := none }

/-- `zu_begin`: the engine afterwards, and the transaction begun.  It is refused on a
null handle and while a transaction is open. -/
def zuBegin (e : Engine) (h : Option Nat) (origin : Origin) (r : Reply) :
    Option (Engine × Option TxId) :=
  match r with
  | .refused _ => some (e, none)
  | .ok => do
    let h ← h
    let k ← e.get h
    if k.running.isSome then none
    else some (e.put h ⟨k.begun + 1, some origin⟩, some ⟨h, k.begun + 1⟩)

/-- `zu_commit` and `zu_rollback`, which are refused on a null handle. -/
def zuEnd (e : Engine) (h : Option Nat) (r : Reply) : Option Engine :=
  match r, h with
  | .refused f, none => if f.ended then none else some e
  | .refused f, some h => some (if f.ended then e.finish h else e)
  | .ok, none => none
  | .ok, some h => some (e.finish h)

/-- `zu_conn_in_transaction`: the answer, `none` when the call fails. -/
def zuInTransaction (e : Engine) (h : Option Nat) (answered : Bool) : Option Bool := do
  let h ← h
  let k ← e.get h
  if answered then some k.running.isSome else none

/-- `e'` is `e` with some transactions closed and some connections gone. -/
structure Fades (e e' : Engine) : Prop where
  get : ∀ h k', e'.get h = some k' →
    ∃ k, e.get h = some k ∧ k'.begun = k.begun ∧ (k'.running = k.running ∨ k'.running = none)
  next : e'.next = e.next

theorem Fades.refl (e : Engine) : Fades e e :=
  ⟨fun _ k hk => ⟨k, hk, rfl, Or.inl rfl⟩, rfl⟩

theorem finish_get (e : Engine) (h j : Nat) :
    (e.finish h).get j
      = if j = h then (e.get h).map fun k => { k with running := none } else e.get j := by
  cases he : e.get h with
  | none =>
    rw [finish, he]
    by_cases hj : j = h
    · rw [if_pos hj, hj]
      exact he
    · rw [if_neg hj]
  | some k =>
    rw [finish, he]
    exact Arena.get_put he _ _

theorem fades_finish (e : Engine) (h : Nat) : Fades e (e.finish h) := by
  refine ⟨?_, ?_⟩
  · intro j k' hk'
    rw [finish_get] at hk'
    split at hk'
    · rename_i hj
      subst hj
      obtain ⟨k, hk, rfl⟩ := Option.map_eq_some_iff.mp hk'
      exact ⟨k, hk, rfl, Or.inr rfl⟩
    · exact ⟨k', hk', rfl, Or.inl rfl⟩
  · rw [finish]
    split
    · rfl
    · exact Arena.next_put _ _

theorem fades_dropAll (e : Engine) (hs : List Nat) : Fades e (e.dropAll hs) := by
  refine ⟨?_, Arena.next_dropAll hs e⟩
  intro j k' hk'
  rw [Arena.get_dropAll] at hk'
  split at hk'
  · cases hk'
  · exact ⟨k', hk', rfl, Or.inl rfl⟩

theorem running_eq_some {e : Engine} {h : Nat} {x : TxId} :
    e.running h = some x ↔
      ∃ k, e.get h = some k ∧ k.running ≠ none ∧ x = ⟨h, k.begun⟩ := by
  rw [running, Option.bind_eq_some_iff]
  constructor
  · rintro ⟨k, hk, hx⟩
    obtain ⟨o, ho, rfl⟩ := Option.map_eq_some_iff.mp hx
    exact ⟨k, hk, by rw [ho]; exact Option.some_ne_none o, rfl⟩
  · rintro ⟨k, hk, hr, rfl⟩
    obtain ⟨o, ho⟩ := Option.ne_none_iff_exists'.mp hr
    exact ⟨k, hk, by rw [ho]; rfl⟩

/-- What is open after some transactions were closed was open before. -/
theorem Fades.running {e e' : Engine} (hf : Fades e e') {h : Nat} {x : TxId}
    (hx : e'.running h = some x) : e.running h = some x := by
  obtain ⟨k', hk', hr', rfl⟩ := running_eq_some.mp hx
  obtain ⟨k, hk, hb, hr⟩ := hf.get h k' hk'
  refine running_eq_some.mpr ⟨k, hk, ?_, by rw [hb]⟩
  rcases hr with hr | hr
  · rw [← hr]
    exact hr'
  · exact absurd hr hr'

/-- A begin that was accepted opened the next transaction of the handle it was given,
where nothing was open. -/
theorem zuBegin_some {e e' : Engine} {h : Option Nat} {origin : Origin} {r : Reply} {x : TxId}
    (hb : e.zuBegin h origin r = some (e', some x)) :
    h = some x.conn ∧ ∃ k, e.get x.conn = some k ∧ k.running = none ∧
      x.serial = k.begun + 1 ∧ e' = e.put x.conn ⟨x.serial, some origin⟩ := by
  cases r with
  | refused f => cases hb
  | ok =>
    simp only [zuBegin, Option.bind_eq_bind, Option.bind_eq_some_iff] at hb
    obtain ⟨h', rfl, k, hk, hb⟩ := hb
    split at hb
    · cases hb
    · rename_i hno
      cases hb
      exact ⟨rfl, k, hk, by simpa using hno, rfl, rfl⟩

theorem running_begun {e e' : Engine} {h : Option Nat} {origin : Origin} {r : Reply} {x : TxId}
    (hb : e.zuBegin h origin r = some (e', some x)) : e'.running x.conn = some x := by
  obtain ⟨-, k, hk, -, -, rfl⟩ := zuBegin_some hb
  refine running_eq_some.mpr ⟨⟨x.serial, some origin⟩, ?_, Option.some_ne_none origin, rfl⟩
  exact (Arena.get_put hk _ _).trans (if_pos rfl)

/-- A begin either was refused and changed nothing, or was accepted and began a
transaction. -/
theorem zuBegin_cases {e e' : Engine} {h : Option Nat} {origin : Origin} {r : Reply}
    {b : Option TxId} (hb : e.zuBegin h origin r = some (e', b)) :
    (∃ f, r = .refused f) ∧ e' = e ∧ b = none ∨ r = .ok ∧ ∃ x, b = some x := by
  cases r with
  | refused f =>
    cases hb
    exact Or.inl ⟨⟨f, rfl⟩, rfl, rfl⟩
  | ok =>
    simp only [zuBegin, Option.bind_eq_bind, Option.bind_eq_some_iff] at hb
    obtain ⟨h', -, k, -, hb⟩ := hb
    split at hb
    · cases hb
    · cases hb
      exact Or.inr ⟨rfl, _, rfl⟩

theorem zuEnd_some {e e' : Engine} {h : Option Nat} {r : Reply} (he : e.zuEnd h r = some e') :
    e' = e ∧ r.ends = false ∨ ∃ j, h = some j ∧ e' = e.finish j := by
  cases r with
  | ok =>
    cases h with
    | none => cases he
    | some j =>
      cases he
      exact Or.inr ⟨j, rfl, rfl⟩
  | refused f =>
    cases h with
    | none =>
      simp only [zuEnd] at he
      split at he
      · cases he
      · rename_i hf
        cases he
        exact Or.inl ⟨rfl, by simpa [Reply.ends] using hf⟩
    | some j =>
      simp only [zuEnd] at he
      split at he
      · cases he
        exact Or.inr ⟨j, rfl, rfl⟩
      · rename_i hf
        cases he
        exact Or.inl ⟨rfl, by simpa [Reply.ends] using hf⟩

end Engine

/-! ### The program -/

/-- `Transaction`.  `right` and `held` are history. -/
structure Transaction where
  conn : Option Nat := none
  right : Option TxId := none
  held : List TxId := []
  deriving DecidableEq, Repr

inductive CallName
  | inTransaction | commit | rollback
  deriving DecidableEq, Repr

structure GuardCall where
  call : CallName
  /-- the right the guard had -/
  right : Option TxId
  /-- the transaction that is open on the handle the call is made on -/
  target : Option TxId
  deriving DecidableEq, Repr

/-- The engine, the `Connection` objects, the guards, and the calls the guards have
made, the last one first. -/
structure World where
  engine : Engine := Arena.empty
  conns : Arena (Handle Nat) := Arena.empty
  guards : Arena Transaction := Arena.empty
  calls : List GuardCall := []
  deriving DecidableEq

namespace Transaction

def ofConn (c : Nat) (x : TxId) : Transaction := ⟨some c, some x, [x]⟩

def spent (t : Transaction) : Transaction := { t with conn := none, right := none }

def moveConstruct (o : Transaction) : Transaction × Transaction :=
  (⟨o.conn, o.right, o.right.toList⟩, o.spent)

/-- `conn_ = std::exchange(o.conn_, nullptr)`, which ends the move assignment: the guard,
and `o` afterwards. -/
def take (self o : Transaction) : Transaction × Transaction :=
  (⟨o.conn, o.right, o.right.toList ++ self.held⟩, o.spent)

end Transaction

namespace World

variable (w : World)

def handleOf (c : Nat) : Option Nat := (w.conns.get c).bind (·.p)

/-- The handle that the calls of the guard `t` are made on. -/
def aim (t : Transaction) : Option Nat := t.conn.bind w.handleOf

def target (t : Transaction) : Option TxId := (w.aim t).bind (Engine.running w.engine)

/-- `Transaction::commit` and `Transaction::rollback` on the guard `t`: the call is made
with the pointer already given up. -/
def finish (call : CallName) (t : Transaction) (r : Reply) : Option World :=
  match t.conn with
  | none => some w
  | some c => do
    let e ← Engine.zuEnd w.engine (w.handleOf c) r
    some { w with engine := e, calls := ⟨call, t.right, w.target t⟩ :: w.calls }

def undo (t : Transaction) (u : UndoReply) : Option World :=
  match t.conn with
  | none => some w
  | some c =>
    let w' := { w with calls := ⟨.inTransaction, t.right, w.target t⟩ :: w.calls }
    match Engine.zuInTransaction w.engine (w.handleOf c) u.answered with
    | some true => w'.finish .rollback t u.rollback
    | _ => some w'

/-- Some guard points at the `Connection` object `c`. -/
def pointers (c : Nat) : Nat := w.guards.tally fun t => if t.conn = some c then 1 else 0

end World

inductive Effect
  | plain
  /-- `COMMIT` or `ROLLBACK` -/
  | ends
  | begins
  deriving DecidableEq, Repr

/-- One operation, with what the engine answers.  A `Connection` object or a guard is
named by the number it was made under, an engine connection by its handle. -/
inductive Op
  /-- `Connection::open` and the like -/
  | connect
  /-- `Connection()` -/
  | noConnection
  /-- `Connection(std::move(c))` -/
  | moveConn (c : Nat)
  /-- `c = std::move(d)` -/
  | assignConn (c d : Nat)
  /-- `~Connection()` -/
  | destroyConn (c : Nat)
  /-- `Transaction tx = c.transaction()` -/
  | transaction (c : Nat) (r : Reply)
  /-- `g = c.transaction()` -/
  | assignTransaction (g c : Nat) (r : Reply) (u : UndoReply)
  /-- `Transaction(std::move(g))` -/
  | moveGuard (g : Nat)
  /-- `g = std::move(o)` -/
  | assignGuard (g o : Nat) (u : UndoReply)
  /-- `g.commit()` -/
  | commit (g : Nat) (r : Reply)
  /-- `g.rollback()` -/
  | rollback (g : Nat) (r : Reply)
  /-- `~Transaction()` -/
  | destroyGuard (g : Nat) (u : UndoReply)
  /-- `c.begin()` -/
  | begin (c : Nat) (r : Reply)
  /-- `c.commit()` and `c.rollback()` -/
  | bareEnd (c : Nat) (r : Reply)
  /-- a statement that runs on the engine connection `h` -/
  | statement (h : Nat) (effect : Effect)
  deriving DecidableEq

namespace World

/-- One operation.  `none`: an object it names is not there, or the engine cannot answer
so. -/
def step (w : World) : Op → Option World
  | .connect => some { w with
      engine := w.engine.alloc {}, conns := w.conns.alloc (.ofPtr w.engine.next) }
  | .noConnection => some { w with conns := w.conns.alloc ⟨none⟩ }
  | .moveConn c => do
    let hc ← w.conns.get c
    let r := hc.moveConstruct
    some { w with conns := (w.conns.put c r.2).alloc r.1 }
  | .assignConn c d => do
    let hc ← w.conns.get c
    let hd ← w.conns.get d
    if c = d then some w
    else
      let r := hc.moveAssign hd
      some { w with
        conns := (w.conns.put d r.2.1).put c r.1, engine := w.engine.dropAll r.2.2 }
  | .destroyConn c => do
    let hc ← w.conns.get c
    if w.pointers c = 0 then
      some { w with conns := w.conns.drop c, engine := w.engine.dropAll hc.destroy }
    else none
  | .transaction c r => do
    let _ ← w.conns.get c
    let b ← Engine.zuBegin w.engine (w.handleOf c) .guard r
    match b.2 with
    | none => some { w with engine := b.1 }
    | some x => some { w with engine := b.1, guards := w.guards.alloc (.ofConn c x) }
  | .assignTransaction g c r u => do
    let _ ← w.conns.get c
    let t ← w.guards.get g
    let b ← Engine.zuBegin w.engine (w.handleOf c) .guard r
    match b.2 with
    | none => some { w with engine := b.1 }
    | some x => do
      let w' ← { w with engine := b.1 }.undo t u
      some { w' with guards := w'.guards.put g (t.spent.take (.ofConn c x)).1 }
  | .moveGuard g => do
    let t ← w.guards.get g
    let r := t.moveConstruct
    some { w with guards := (w.guards.put g r.2).alloc r.1 }
  | .assignGuard g o u => do
    let t ← w.guards.get g
    let s ← w.guards.get o
    if g = o then some w
    else
      let w' ← w.undo t u
      let r := t.spent.take s
      some { w' with guards := (w'.guards.put o r.2).put g r.1 }
  | .commit g r => do
    let t ← w.guards.get g
    let w' ← w.finish .commit t r
    some { w' with guards := w'.guards.put g t.spent }
  | .rollback g r => do
    let t ← w.guards.get g
    let w' ← w.finish .rollback t r
    some { w' with guards := w'.guards.put g t.spent }
  | .destroyGuard g u => do
    let t ← w.guards.get g
    let w' ← w.undo t u
    some { w' with guards := w'.guards.drop g }
  | .begin c r => do
    let _ ← w.conns.get c
    let b ← Engine.zuBegin w.engine (w.handleOf c) .bare r
    some { w with engine := b.1 }
  | .bareEnd c r => do
    let _ ← w.conns.get c
    let e ← Engine.zuEnd w.engine (w.handleOf c) r
    some { w with engine := e }
  | .statement h .plain => do
    let _ ← w.engine.get h
    some w
  | .statement h .ends => do
    let _ ← w.engine.get h
    some { w with engine := Engine.finish w.engine h }
  | .statement h .begins => do
    let b ← Engine.zuBegin w.engine (some h) .bare .ok
    some { w with engine := b.1 }

/-! ### What ending a guard does -/

/-- What `w.finish` and `w.undo` on the guard `t` do to the world, `ends` telling whether
the engine's answers leave nothing open. -/
structure EndSpec (w : World) (t : Transaction) (ends : Bool) (w' : World) : Prop where
  conns : w'.conns = w.conns
  guards : w'.guards = w.guards
  fades : Engine.Fades w.engine w'.engine
  /-- only the handle the guard points at is touched -/
  frame : ∀ h, w.aim t ≠ some h → w'.engine.get h = w.engine.get h
  closed : ends = true → ∀ h, w.aim t = some h → Engine.running w'.engine h = none
  calls : ∀ k ∈ w'.calls, k ∈ w.calls ∨
    t.conn ≠ none ∧ k.right = t.right ∧ (k.call = .inTransaction ∨ k.target = w.target t)

theorem endSpec_spent {w : World} {t : Transaction} (h : t.conn = none) (ends : Bool) :
    EndSpec w t ends w where
  conns := rfl
  guards := rfl
  fades := Engine.Fades.refl _
  frame _ _ := rfl
  closed _ h' hh' := by
    rw [aim, h] at hh'
    cases hh'
  calls k hk := Or.inl hk

theorem aim_of_conn {w : World} {t : Transaction} {c : Nat} (h : t.conn = some c) :
    w.aim t = w.handleOf c := by
  rw [aim, h]
  rfl

theorem running_finish (e : Engine) (h : Nat) : Engine.running (e.finish h) h = none := by
  rw [Engine.running, Engine.finish_get, if_pos rfl]
  cases Arena.get e h <;> rfl

theorem finish_spec {w w' : World} {call : CallName} {t : Transaction} {r : Reply}
    (h : w.finish call t r = some w') : EndSpec w t r.ends w' := by
  rw [finish] at h
  cases hc : t.conn with
  | none =>
    rw [hc] at h
    cases h
    exact endSpec_spent hc _
  | some c =>
    rw [hc] at h
    simp only [Option.bind_eq_bind, Option.bind_eq_some_iff, Option.some.injEq] at h
    obtain ⟨e, he, rfl⟩ := h
    have haim := aim_of_conn (w := w) hc
    have hcalls : ∀ k ∈ (⟨call, t.right, w.target t⟩ : GuardCall) :: w.calls, k ∈ w.calls ∨
        t.conn ≠ none ∧ k.right = t.right ∧ (k.call = .inTransaction ∨ k.target = w.target t) := by
      intro k hk
      rcases List.mem_cons.mp hk with rfl | hk
      · exact Or.inr ⟨by rw [hc]; exact Option.some_ne_none c, rfl, Or.inr rfl⟩
      · exact Or.inl hk
    rcases Engine.zuEnd_some he with ⟨rfl, hr⟩ | ⟨j, hj, rfl⟩
    · exact ⟨rfl, rfl, Engine.Fades.refl _, fun _ _ => rfl,
        fun hends => absurd hends (ne_true_of_eq_false hr), hcalls⟩
    · refine ⟨rfl, rfl, Engine.fades_finish _ _, ?_, ?_, hcalls⟩
      · intro h' hne
        rw [haim, hj] at hne
        exact (Engine.finish_get _ _ _).trans (if_neg fun he => hne (by rw [he]))
      · intro _ h' hh'
        rw [haim, hj, Option.some.injEq] at hh'
        subst hh'
        exact running_finish _ _

theorem undo_spec {w w' : World} {t : Transaction} {u : UndoReply}
    (h : w.undo t u = some w') : EndSpec w t u.ends w' := by
  rw [undo] at h
  cases hc : t.conn with
  | none =>
    rw [hc] at h
    cases h
    exact endSpec_spent hc _
  | some c =>
    rw [hc] at h
    have haim := aim_of_conn (w := w) hc
    -- the question is one call, and nothing but a call
    have hask : ∀ k ∈ (⟨.inTransaction, t.right, w.target t⟩ : GuardCall) :: w.calls,
        k ∈ w.calls ∨
        t.conn ≠ none ∧ k.right = t.right ∧ (k.call = .inTransaction ∨ k.target = w.target t) := by
      intro k hk
      rcases List.mem_cons.mp hk with rfl | hk
      · exact Or.inr ⟨by rw [hc]; exact Option.some_ne_none c, rfl, Or.inl rfl⟩
      · exact Or.inl hk
    have hclosed : Engine.zuInTransaction w.engine (w.handleOf c) u.answered ≠ some true →
        u.ends = true → ∀ j, w.aim t = some j → Engine.running w.engine j = none := by
      intro hno hends j hj
      rw [UndoReply.ends, Bool.and_eq_true] at hends
      rw [← haim, hj, hends.1] at hno
      rw [Engine.running]
      cases hk : w.engine.get j with
      | none => rfl
      | some k =>
        cases hr : k.running with
        | none => simp [hr]
        | some o => simp [Engine.zuInTransaction, hk, hr] at hno
    dsimp only at h
    split at h
    · rename_i hin
      have hs := finish_spec h
      refine ⟨hs.conns, hs.guards, hs.fades, hs.frame, ?_, ?_⟩
      · intro hends
        rw [UndoReply.ends, Bool.and_eq_true] at hends
        exact hs.closed hends.2
      · intro k hk
        rcases hs.calls k hk with hk | hk
        · exact hask k hk
        · exact Or.inr hk
    · rename_i hin
      cases h
      exact ⟨rfl, rfl, Engine.Fades.refl _, fun _ _ => rfl, hclosed fun h => hin h, hask⟩

/-! ### What one operation does -/

end World

/-- The operation begins nothing, and no guard ends or moves: a begin that is refused, an
end that no guard makes, a statement, an assignment to itself. -/
def Op.Quiet : Op → Prop
  | .transaction _ r | .assignTransaction _ _ r _ | .begin _ r => ∃ f, r = .refused f
  | .bareEnd _ _ => True
  | .statement _ effect => effect ≠ .begins
  | .assignConn c d => c = d
  | .assignGuard g o _ => g = o
  | _ => False

namespace World

/-- What `step` can do, one operation at a time: what was the case before, and the world
afterwards. -/
inductive Stepped (w : World) : Op → World → Prop
  | connect : Stepped w .connect
      { w with engine := w.engine.alloc {}, conns := w.conns.alloc (.ofPtr w.engine.next) }
  | noConnection : Stepped w .noConnection { w with conns := w.conns.alloc ⟨none⟩ }
  | moveConn {c : Nat} {hc : Handle Nat} (hget : w.conns.get c = some hc) :
      Stepped w (.moveConn c)
        { w with conns := (w.conns.put c hc.moveConstruct.2).alloc hc.moveConstruct.1 }
  | assignConn {c d : Nat} {hc hd : Handle Nat} (hne : c ≠ d) (hgetc : w.conns.get c = some hc)
      (hgetd : w.conns.get d = some hd) :
      Stepped w (.assignConn c d) { w with
        conns := (w.conns.put d (hc.moveAssign hd).2.1).put c (hc.moveAssign hd).1
        engine := w.engine.dropAll (hc.moveAssign hd).2.2 }
  | destroyConn {c : Nat} {hc : Handle Nat} (hget : w.conns.get c = some hc)
      (hno : w.pointers c = 0) :
      Stepped w (.destroyConn c)
        { w with conns := w.conns.drop c, engine := w.engine.dropAll hc.destroy }
  | transaction {c : Nat} {e : Engine} {x : TxId}
      (hb : Engine.zuBegin w.engine (w.handleOf c) .guard .ok = some (e, some x)) :
      Stepped w (.transaction c .ok)
        { w with engine := e, guards := w.guards.alloc (.ofConn c x) }
  | assignTransaction {g c : Nat} {u : UndoReply} {t : Transaction} {e : Engine} {x : TxId}
      {w1 : World} (hg : w.guards.get g = some t)
      (hb : Engine.zuBegin w.engine (w.handleOf c) .guard .ok = some (e, some x))
      (hs : EndSpec { w with engine := e } t u.ends w1) :
      Stepped w (.assignTransaction g c .ok u)
        { w1 with guards := w1.guards.put g (t.spent.take (.ofConn c x)).1 }
  | moveGuard {g : Nat} {t : Transaction} (hg : w.guards.get g = some t) :
      Stepped w (.moveGuard g)
        { w with guards := (w.guards.put g t.moveConstruct.2).alloc t.moveConstruct.1 }
  | assignGuard {g o : Nat} {u : UndoReply} {t s : Transaction} {w1 : World} (hne : g ≠ o)
      (hg : w.guards.get g = some t) (ho : w.guards.get o = some s)
      (hs : EndSpec w t u.ends w1) :
      Stepped w (.assignGuard g o u) { w1 with
        guards := (w1.guards.put o (t.spent.take s).2).put g (t.spent.take s).1 }
  | commit {g : Nat} {r : Reply} {t : Transaction} {w1 : World} (hg : w.guards.get g = some t)
      (hs : EndSpec w t r.ends w1) :
      Stepped w (.commit g r) { w1 with guards := w1.guards.put g t.spent }
  | rollback {g : Nat} {r : Reply} {t : Transaction} {w1 : World}
      (hg : w.guards.get g = some t) (hs : EndSpec w t r.ends w1) :
      Stepped w (.rollback g r) { w1 with guards := w1.guards.put g t.spent }
  | destroyGuard {g : Nat} {u : UndoReply} {t : Transaction} {w1 : World}
      (hg : w.guards.get g = some t) (hs : EndSpec w t u.ends w1) :
      Stepped w (.destroyGuard g u) { w1 with guards := w1.guards.drop g }
  | begin {c : Nat} {e : Engine} {x : TxId}
      (hb : Engine.zuBegin w.engine (w.handleOf c) .bare .ok = some (e, some x)) :
      Stepped w (.begin c .ok) { w with engine := e }
  | begins {h : Nat} {e : Engine} {x : TxId}
      (hb : Engine.zuBegin w.engine (some h) .bare .ok = some (e, some x)) :
      Stepped w (.statement h .begins) { w with engine := e }
  | fades {op : Op} {e : Engine} (hop : op.Quiet) (hf : Engine.Fades w.engine e) :
      Stepped w op { w with engine := e }

theorem stepped_of_step {w w' : World} {op : Op} (h : w.step op = some w') : Stepped w op w' := by
  have hquiet (hop : op.Quiet) : Stepped w op w := .fades hop (Engine.Fades.refl w.engine)
  cases op with
  | connect =>
    cases h
    exact .connect
  | noConnection =>
    cases h
    exact .noConnection
  | moveConn c =>
    simp only [step, Option.bind_eq_bind, Option.bind_eq_some_iff] at h
    obtain ⟨hc, hget, h⟩ := h
    cases h
    exact .moveConn hget
  | assignConn c d =>
    simp only [step, Option.bind_eq_bind, Option.bind_eq_some_iff] at h
    obtain ⟨hc, hgetc, hd, hgetd, h⟩ := h
    split at h
    · rename_i hcd
      cases h
      exact hquiet hcd
    · rename_i hne
      cases h
      exact .assignConn hne hgetc hgetd
  | destroyConn c =>
    simp only [step, Option.bind_eq_bind, Option.bind_eq_some_iff] at h
    obtain ⟨hc, hget, h⟩ := h
    split at h
    · rename_i hno
      cases h
      exact .destroyConn hget hno
    · cases h
  | transaction c r =>
    simp only [step, Option.bind_eq_bind, Option.bind_eq_some_iff] at h
    obtain ⟨-, -, ⟨e, b⟩, hb, h⟩ := h
    rcases Engine.zuBegin_cases hb with ⟨hr, rfl, rfl⟩ | ⟨rfl, x, rfl⟩
    · cases h
      exact hquiet hr
    · cases h
      exact .transaction hb
  | assignTransaction g c r u =>
    simp only [step, Option.bind_eq_bind, Option.bind_eq_some_iff] at h
    obtain ⟨-, -, t, hg, ⟨e, b⟩, hb, h⟩ := h
    rcases Engine.zuBegin_cases hb with ⟨hr, rfl, rfl⟩ | ⟨rfl, x, rfl⟩
    · cases h
      exact hquiet hr
    · obtain ⟨w1, hu, h⟩ := Option.bind_eq_some_iff.mp h
      cases h
      exact .assignTransaction hg hb (undo_spec hu)
  | moveGuard g =>
    simp only [step, Option.bind_eq_bind, Option.bind_eq_some_iff] at h
    obtain ⟨t, hg, h⟩ := h
    cases h
    exact .moveGuard hg
  | assignGuard g o u =>
    simp only [step, Option.bind_eq_bind, Option.bind_eq_some_iff] at h
    obtain ⟨t, hg, s, ho, h⟩ := h
    split at h
    · rename_i hgo
      cases h
      exact hquiet hgo
    · rename_i hne
      obtain ⟨w1, hu, h⟩ := Option.bind_eq_some_iff.mp h
      cases h
      exact .assignGuard hne hg ho (undo_spec hu)
  | commit g r =>
    simp only [step, Option.bind_eq_bind, Option.bind_eq_some_iff] at h
    obtain ⟨t, hg, w1, hf, h⟩ := h
    cases h
    exact .commit hg (finish_spec hf)
  | rollback g r =>
    simp only [step, Option.bind_eq_bind, Option.bind_eq_some_iff] at h
    obtain ⟨t, hg, w1, hf, h⟩ := h
    cases h
    exact .rollback hg (finish_spec hf)
  | destroyGuard g u =>
    simp only [step, Option.bind_eq_bind, Option.bind_eq_some_iff] at h
    obtain ⟨t, hg, w1, hu, h⟩ := h
    cases h
    exact .destroyGuard hg (undo_spec hu)
  | begin c r =>
    simp only [step, Option.bind_eq_bind, Option.bind_eq_some_iff] at h
    obtain ⟨-, -, ⟨e, b⟩, hb, h⟩ := h
    cases h
    rcases Engine.zuBegin_cases hb with ⟨hr, rfl, rfl⟩ | ⟨rfl, x, rfl⟩
    · exact hquiet hr
    · exact .begin hb
  | bareEnd c r =>
    simp only [step, Option.bind_eq_bind, Option.bind_eq_some_iff] at h
    obtain ⟨-, -, e, he, h⟩ := h
    cases h
    rcases Engine.zuEnd_some he with ⟨rfl, -⟩ | ⟨j, -, rfl⟩
    · exact hquiet trivial
    · exact .fades trivial (Engine.fades_finish _ _)
  | statement h' effect =>
    cases effect with
    | plain =>
      simp only [step, Option.bind_eq_bind, Option.bind_eq_some_iff] at h
      obtain ⟨-, -, h⟩ := h
      cases h
      exact hquiet nofun
    | ends =>
      simp only [step, Option.bind_eq_bind, Option.bind_eq_some_iff] at h
      obtain ⟨-, -, h⟩ := h
      cases h
      exact .fades nofun (Engine.fades_finish _ _)
    | begins =>
      simp only [step, Option.bind_eq_bind, Option.bind_eq_some_iff] at h
      obtain ⟨⟨e, b⟩, hb, h⟩ := h
      cases h
      rcases Engine.zuBegin_cases hb with ⟨⟨f, hr⟩, -⟩ | ⟨-, x, rfl⟩
      · cases hr
      · exact .begins hb

end World

end ZuCpp.Transactions
