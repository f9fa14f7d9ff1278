import ZuCpp.Error

/-!
# `Result::notices`

The conditions a statement raised and carried on through are asked for one after the other, up
to the first that the engine refuses.  The call has a slot like any other, but what it answers
is not checked: `Error::take` frees the handles that are answered, each once, and **where the
loop breaks off nothing looks after the slot** (`notices_right`).
-/

namespace ZuCpp

open Lib

/-- What `zu_result_notice` answers for each index: the status, and the error it leaves in the
slot. -/
abbrev Notices := Nat → Status × Option EngineError

def noticesFrom (A : Notices) : Nat → Nat → MemM (List Error)
  | 0, _ => return []
  | k + 1, i => do
    let slot ← declareErr
    let st ← zuCall (A i).1 (A i).2 slot
    if st ≠ .ok then
      return []
    else
      let e ← load slot
      let error ← Error.take .ok e (ascii "zu_result_notice")
      return error :: (← noticesFrom A k (i + 1))

/-- `Result::notices`, `n` being what `zu_result_notices` answers. -/
def notices (A : Notices) (n : UInt32) : MemM (List Error) := noticesFrom A n.toNat 0

/-! ### What it answers -/

/-- The notices before the first refused one, from the `i`-th on. -/
def answered (A : Notices) (k i : Nat) : List Nat :=
  (List.range' i k).takeWhile fun i => (A i).1 = .ok

def handles (A : Notices) (k i : Nat) : Nat :=
  ((answered A k i).filterMap fun i => (A i).2).length

/-- What the call leaves in the slot where the loop breaks off. -/
def leftBehind (A : Notices) (k i : Nat) : Option EngineError :=
  ((List.range' i k).find? fun i => (A i).1 ≠ .ok).bind fun i => (A i).2

def noticeError (answer : Status × Option EngineError) : Error :=
  match answer.2 with
  | none => .ofStatus .ok (ascii "zu_result_notice")
  | some x => .ofEngine .ok x (ascii "zu_result_notice")

variable {A : Notices} {k i : Nat} {m : Mem}

theorem answered_of_ok (h : (A i).1 = .ok) : answered A (k + 1) i = i :: answered A k (i + 1) := by
  simp [answered, List.range'_succ, h]

theorem answered_of_refused (h : (A i).1 ≠ .ok) : answered A (k + 1) i = [] := by
  simp [answered, List.range'_succ, h]

theorem leftBehind_of_ok (h : (A i).1 = .ok) :
    leftBehind A (k + 1) i = leftBehind A k (i + 1) := by
  simp [leftBehind, List.range'_succ, h]

theorem leftBehind_of_refused (h : (A i).1 ≠ .ok) : leftBehind A (k + 1) i = (A i).2 := by
  simp [leftBehind, List.range'_succ, h]

theorem handles_of_ok (h : (A i).1 = .ok) :
    handles A (k + 1) i = (A i).2.toList.length + handles A k (i + 1) := by
  rw [handles, answered_of_ok h]
  cases herr : (A i).2 with
  | none => simp [herr, handles]
  | some x => simp [herr, handles, Nat.add_comm]

theorem handles_of_refused (h : (A i).1 ≠ .ok) : handles A (k + 1) i = 0 := by
  rw [handles, answered_of_refused h]
  rfl

/-- The memory once a notice that was answered is taken: its handle is gone, and the slot still
has it. -/
def Mem.taken (m : Mem) (err : Option EngineError) : Mem :=
  { m.settled err with slots := (m.called err).slots }

theorem noticesFrom_of_ok (h : (A i).1 = .ok) :
    noticesFrom A (k + 1) i m
      = (noticesFrom A k (i + 1) (m.taken (A i).2)).map (noticeError (A i) :: ·) id := by
  have hdecl : declareErr m = (m.slots.next, { m with slots := m.slots.alloc none }) := rfl
  rw [noticesFrom, bind_of_eq hdecl, bind_of_eq (zuCall_eq m _ _), if_neg (not_not_intro h),
    bind_of_eq (load_of_get (called_slot m _)), noticeError]
  cases herr : (A i).2 with
  | none => rfl
  | some x =>
    have hget : (m.called (some x)).errors.get m.errors.next = some x := by
      show (m.errors.alloc x).get m.errors.next = some x
      rw [Arena.get_alloc, if_pos rfl]
    rw [Option.map_some, bind_of_eq (Error.take_some hget _ _)]
    rfl

/-- Where a notice is refused, what is in the slot stays there. -/
theorem noticesFrom_of_refused (h : (A i).1 ≠ .ok) :
    noticesFrom A (k + 1) i m = ([], m.called (A i).2) := by
  have hdecl : declareErr m = (m.slots.next, { m with slots := m.slots.alloc none }) := rfl
  rw [noticesFrom, bind_of_eq hdecl, bind_of_eq (zuCall_eq m _ _), if_pos h]
  rfl

/-- What is left of the handles: `k` of them were freed, each once, and `left` is behind them. -/
structure Freed (k : Nat) (left : Option EngineError) (m m' : Mem) : Prop where
  freed : m'.freed = (List.range' m.errors.next k).reverse ++ m.freed
  errors : ∀ e, m'.errors.get e = if e = m.errors.next + k then left else m.errors.get e
  fault : m'.fault = m.fault

theorem freed_refl (m : Mem) : Freed 0 none m m := by
  refine ⟨rfl, fun e => ?_, rfl⟩
  split
  · rename_i h
    rw [h]
    exact Arena.get_next
  · rfl

theorem freed_called (m : Mem) (err : Option EngineError) : Freed 0 err m (m.called err) := by
  cases err with
  | none => exact ⟨rfl, (freed_refl m).errors, rfl⟩
  | some x => exact ⟨rfl, fun e => Arena.get_alloc x e, rfl⟩

theorem Freed.after_taken {left err : Option EngineError} {m' : Mem}
    (h : Freed k left (m.taken err) m') : Freed (err.toList.length + k) left m m' := by
  have hnext : (m.taken err).errors.next = m.errors.next + err.toList.length := by
    cases err with
    | none => rfl
    | some x => exact (Arena.next_drop _).trans (Arena.next_alloc _)
  have hfreed : (m.taken err).freed
      = (List.range' m.errors.next err.toList.length).reverse ++ m.freed := by
    cases err with
    | none => rfl
    | some x => rfl
  refine ⟨?_, fun e => ?_, h.fault⟩
  · rw [h.freed, hnext, hfreed, ← List.append_assoc, ← List.reverse_append, List.range'_append_1]
  · rw [h.errors, hnext, Nat.add_assoc]
    exact if_congr Iff.rfl rfl (settled_errors m err e)

theorem noticesFrom_right :
    ∃ m', noticesFrom A k i m = ((answered A k i).map fun i => noticeError (A i), m') ∧
      Freed (handles A k i) (leftBehind A k i) m m' := by
  induction k generalizing i m with
  | zero => exact ⟨m, rfl, freed_refl m⟩
  | succ k ih =>
    by_cases h : (A i).1 = .ok
    · obtain ⟨m', hrest, hfreed⟩ := ih (i := i + 1) (m := m.taken (A i).2)
      refine ⟨m', ?_, ?_⟩
      · rw [noticesFrom_of_ok h, hrest, answered_of_ok h]
        rfl
      · rw [handles_of_ok h, leftBehind_of_ok h]
        exact hfreed.after_taken
    · refine ⟨m.called (A i).2, ?_, ?_⟩
      · rw [noticesFrom_of_refused h, answered_of_refused h]
        rfl
      · rw [handles_of_refused h, leftBehind_of_refused h]
        exact freed_called m _

/-- **The notices are told in their order, up to the first that is refused.**  Every handle that
was answered is freed once, in their order, and no other is; the one error that is left over is
what the call that breaks the loop off leaves in its slot, where there is such a call and it
leaves one; and nothing is read or freed after it was freed. -/
theorem notices_right (A : Notices) (n : UInt32) (m : Mem) :
    ∃ m', notices A n m = ((answered A n.toNat 0).map fun i => noticeError (A i), m') ∧
      m'.freed = (List.range' m.errors.next (handles A n.toNat 0)).reverse ++ m.freed ∧
      (∀ e, m'.errors.get e = if e = m.errors.next + handles A n.toNat 0
        then leftBehind A n.toNat 0 else m.errors.get e) ∧
      m'.fault = m.fault := by
  obtain ⟨m', hrun, hfreed⟩ := noticesFrom_right (A := A) (k := n.toNat) (i := 0) (m := m)
  exact ⟨m', hrun, hfreed.freed, hfreed.errors, hfreed.fault⟩

def secondRefused : Notices := fun i =>
  if i = 1 then (.misuse, some {}) else (.ok, some { code := some (ascii "01000") })

theorem notices_right_secondRefused :
    ∃ m', notices secondRefused 3 {} = ([noticeError (secondRefused 0)], m') ∧ m'.freed = [0] ∧
      m'.errors.get 1 = some {} := by
  obtain ⟨m', h, hfreed, herrors, -⟩ := notices_right secondRefused 3 {}
  exact ⟨m', h, hfreed, herrors 1⟩

end ZuCpp
