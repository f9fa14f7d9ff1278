import ZuCpp.Lib.Arena
import ZuCpp.Text

/-!
# `Error`, and how a failure travels

What a call of the engine answers becomes a value or an `Error` in four functions of
the header: `detail::checked` and `Error::take` read the error handle and free it,
`detail::unwrap` throws what is left and `detail::to_expected` returns it.

The functions run on a small memory (`Mem`): the `zu_error` objects of the engine,
the variables `zu_error* err` of the callers, and a flag that is raised when a handle
is read or freed after it was freed.
-/

namespace ZuCpp

open Lib

/-- `Status`, and the `zu_status` it is cast from.  The numbers are the ABI's; `other`
is one that this header has no name for. -/
inductive Status
  | ok | done | error | misuse | misuseConcurrent | misuseClosed | interrupted | conflict
  | corrupt | unsupported | io
  | other (n : Int32)
  deriving DecidableEq, Repr, Inhabited

/-- `Severity`.  `cast n` is `static_cast<Severity>(n)`: which of the names a number has, is the
ABI's to say. -/
inductive Severity
  | success | noData | warning | informational | exception
  | cast (n : Int32)
  deriving DecidableEq, Repr

structure Position where
  line : UInt32 := 0
  column : UInt32 := 0
  offset : UInt32 := 0
  deriving DecidableEq, Repr

/-- What a `zu_error` object answers to the accessors of zu.h.  A text is `none` when
the accessor answers a null pointer, and the offset is `none` when the call leaves it
unwritten. -/
structure EngineError where
  message : Option Str := none
  code : Option Str := none
  standardText : Option Str := none
  docUrl : Option Str := none
  excerpt : Option Str := none
  subjectKind : Option Str := none
  subject : Option Str := none
  graph : Option Str := none
  schema : Option Str := none
  severity : Int32 := -1
  retryable : Int32 := -1
  /-- what `zu_error_position` answers, and the line and the column it wrote -/
  position : Status × UInt32 × UInt32 := (.misuse, 0, 0)
  offset : Option UInt32 := none
  deriving DecidableEq, Repr

structure Error where
  status : Status := .ok
  message : Str := []
  code : Option Str := none
  condition : Option Str := none
  docUrl : Option Str := none
  excerpt : Option Str := none
  subjectKind : Option Str := none
  subject : Option Str := none
  graph : Option Str := none
  schema : Option Str := none
  severity : Severity := .success
  retryable : Bool := false
  position : Option Position := none
  deriving DecidableEq, Repr

/-! ### The memory -/

structure Mem where
  /-- the `zu_error` objects, each under its handle -/
  errors : Arena EngineError := Arena.empty
  /-- the variables `zu_error* err`, each under its address; `none` is null -/
  slots : Arena (Option Nat) := Arena.empty
  /-- the handles passed to `zu_error_free`, the last one first -/
  freed : List Nat := []
  /-- a dead handle was read or freed, or a dead variable was used -/
  fault : Bool := false

abbrev MemM := StateM Mem

def ask {α : Type} [Inhabited α] (e : Nat) (accessor : EngineError → α) : MemM α := fun m =>
  match m.errors.get e with
  | some x => (accessor x, m)
  | none => (default, { m with fault := true })

def zuErrorFree (e : Nat) : MemM Unit := fun m =>
  match m.errors.get e with
  | some _ => ((), { m with errors := m.errors.drop e, freed := e :: m.freed })
  | none => ((), { m with freed := e :: m.freed, fault := true })

/-- `*slot`. -/
def load (slot : Nat) : MemM (Option Nat) := fun m =>
  match m.slots.get slot with
  | some e => (e, m)
  | none => (none, { m with fault := true })

/-- `*slot = e`. -/
def store (slot : Nat) (e : Option Nat) : MemM Unit := fun m =>
  match m.slots.get slot with
  | some _ => ((), { m with slots := m.slots.put slot e })
  | none => ((), { m with fault := true })

/-- `zu_error* err = nullptr;`: the address of the new variable.  It is left standing when
its function returns, so that what it held at the end can be asked. -/
def declareErr : MemM Nat := fun m => (m.slots.next, { m with slots := m.slots.alloc none })

theorem bind_of_eq {α β : Type} {x : MemM α} {m m' : Mem} {a : α} (h : x m = (a, m'))
    (f : α → MemM β) : (x >>= f) m = f a m' := by
  show (let p := x m; f p.1 p.2) = f a m'
  rw [h]

theorem ask_of_get {α : Type} [Inhabited α] {m : Mem} {e : Nat} {x : EngineError}
    (h : m.errors.get e = some x) (f : EngineError → α) : ask e f m = (f x, m) := by
  rw [ask, h]

theorem zuErrorFree_of_get {m : Mem} {e : Nat} {x : EngineError} (h : m.errors.get e = some x) :
    zuErrorFree e m = ((), { m with errors := m.errors.drop e, freed := e :: m.freed }) := by
  rw [zuErrorFree, h]

theorem load_of_get {m : Mem} {slot : Nat} {e : Option Nat} (h : m.slots.get slot = some e) :
    load slot m = (e, m) := by
  rw [load, h]

theorem store_of_get {m : Mem} {slot : Nat} {e : Option Nat} (h : m.slots.get slot = some e)
    (e' : Option Nat) : store slot e' m = ((), { m with slots := m.slots.put slot e' }) := by
  rw [store, h]

namespace Error

def defaultMessage : Status → Str
  | .ok => ascii "no failure"
  | .done => ascii "there is nothing to read"
  | .error => ascii "the engine refused the work"
  | .misuse => ascii "the call broke the contract in zu.h"
  | .misuseConcurrent => ascii "two threads used one connection at once"
  | .misuseClosed => ascii "the handle was used after its connection closed"
  | .interrupted => ascii "the statement was interrupted"
  | .conflict => ascii "the write lost to a concurrent one"
  | .corrupt => ascii "the file says something that cannot be true"
  | .unsupported => ascii "this build does not have that"
  | .io => ascii "the operating system refused a read or a write"
  | .other _ => ascii "unknown status"

/-- The position of an error, as `take` asks for it: the offset is only asked for when
there is a position. -/
def takePosition (e : Nat) : MemM (Option Position) := do
  let p ← ask e (·.position)
  if p.1 = .ok then
    let offset ← ask e (·.offset)
    return some ⟨p.2.1, p.2.2, offset.getD 0⟩
  else
    return none

/-- `sev < 0 ? Severity::exception : static_cast<Severity>(sev)`. -/
def severityOf (sev : Int32) : Severity := if sev < 0 then .exception else .cast sev

def ofStatus (status : Status) (what : Str) : Error where
  status := status
  message := if what.isEmpty then defaultMessage status else what
  severity := if status = .ok then .success else .exception

def take (status : Status) (e : Option Nat) (what : Str) : MemM Error := do
  match e with
  | none => return ofStatus status what
  | some e =>
    let message := (← ask e (·.message)).getD []
    let code ← ask e (·.code)
    let condition ← ask e (·.standardText)
    let docUrl ← ask e (·.docUrl)
    let excerpt ← ask e (·.excerpt)
    let subjectKind ← ask e (·.subjectKind)
    let subject ← ask e (·.subject)
    let graph ← ask e (·.graph)
    let schema ← ask e (·.schema)
    let severity := severityOf (← ask e (·.severity))
    let retryable := (← ask e (·.retryable)) == 1
    let position ← takePosition e
    zuErrorFree e
    let message :=
      if message.isEmpty then (if what.isEmpty then defaultMessage status else what) else message
    return { status, message, code, condition, docUrl, excerpt, subjectKind, subject, graph,
             schema, severity, retryable, position }

theorem defaultMessage_ne_nil (s : Status) : defaultMessage s ≠ [] := by
  cases s with
  | other n => exact show ascii "unknown status" ≠ [] by decide
  | _ => decide

/-- The message of an error with no engine text behind it: what the caller says it was
doing, or else the words for the status. -/
theorem fallback_ne_nil (s : Status) (what : Str) :
    (if what.isEmpty then defaultMessage s else what) ≠ [] := by
  split
  · exact defaultMessage_ne_nil s
  · rename_i h
    exact fun he => h (List.isEmpty_iff.mpr he)

/-- `E` carries everything the engine's error `x` says. -/
structure Carries (E : Error) (x : EngineError) : Prop where
  message : x.message.getD [] ≠ [] → some E.message = x.message
  code : E.code = x.code
  condition : E.condition = x.standardText
  docUrl : E.docUrl = x.docUrl
  excerpt : E.excerpt = x.excerpt
  subjectKind : E.subjectKind = x.subjectKind
  subject : E.subject = x.subject
  graph : E.graph = x.graph
  schema : E.schema = x.schema
  severity : E.severity = if x.severity < 0 then .exception else .cast x.severity
  retryable : E.retryable = true ↔ x.retryable = 1
  position : E.position =
    if x.position.1 = .ok then some ⟨x.position.2.1, x.position.2.2, x.offset.getD 0⟩ else none

def ofEngine (status : Status) (x : EngineError) (what : Str) : Error where
  status := status
  message :=
    if (x.message.getD []).isEmpty then (if what.isEmpty then defaultMessage status else what)
    else x.message.getD []
  code := x.code
  condition := x.standardText
  docUrl := x.docUrl
  excerpt := x.excerpt
  subjectKind := x.subjectKind
  subject := x.subject
  graph := x.graph
  schema := x.schema
  severity := severityOf x.severity
  retryable := x.retryable == 1
  position :=
    if x.position.1 = .ok then some ⟨x.position.2.1, x.position.2.2, x.offset.getD 0⟩ else none

theorem ofEngine_carries (status : Status) (x : EngineError) (what : Str) :
    (ofEngine status x what).Carries x where
  message h := by
    show some (if (x.message.getD []).isEmpty then _ else x.message.getD []) = x.message
    rw [if_neg fun he => h (List.isEmpty_iff.mp he)]
    cases hm : x.message with
    | none => rw [hm] at h; exact absurd rfl h
    | some t => rfl
  code := rfl
  condition := rfl
  docUrl := rfl
  excerpt := rfl
  subjectKind := rfl
  subject := rfl
  graph := rfl
  schema := rfl
  severity := rfl
  retryable := beq_iff_eq
  position := rfl

theorem ofEngine_message_ne_nil (status : Status) (x : EngineError) (what : Str) :
    (ofEngine status x what).message ≠ [] := by
  show (if (x.message.getD []).isEmpty then _ else x.message.getD []) ≠ []
  split
  · exact fallback_ne_nil status what
  · rename_i h
    exact fun he => h (List.isEmpty_iff.mpr he)

/-! ### What `take` does to the memory -/

theorem takePosition_of_get {m : Mem} {e : Nat} {x : EngineError} (h : m.errors.get e = some x) :
    takePosition e m = (if x.position.1 = .ok then
      some ⟨x.position.2.1, x.position.2.2, x.offset.getD 0⟩ else none, m) := by
  rw [takePosition, bind_of_eq (ask_of_get h _)]
  by_cases hp : x.position.1 = .ok
  · rw [if_pos hp, if_pos hp, bind_of_eq (ask_of_get h _)]
    rfl
  · rw [if_neg hp, if_neg hp]
    rfl

theorem take_some {m : Mem} {e : Nat} {x : EngineError} (h : m.errors.get e = some x)
    (status : Status) (what : Str) :
    take status (some e) what m = (ofEngine status x what,
      { m with errors := m.errors.drop e, freed := e :: m.freed }) := by
  rw [take]
  -- the accessors first, one after the other: none of them changes the memory
  iterate 11 rw [bind_of_eq (ask_of_get h _)]
  rw [bind_of_eq (takePosition_of_get h), bind_of_eq (zuErrorFree_of_get h)]
  rfl

/-- On a null handle the status is the whole of what happened, and the memory is left
alone. -/
theorem take_none (status : Status) (what : Str) (m : Mem) :
    ∃ E, take status none what m = (E, m) ∧ E.status = status ∧ E.message ≠ [] :=
  ⟨_, rfl, rfl, fallback_ne_nil status what⟩

end Error

/-! ### `detail::checked` -/

/-- The first lines of `checked`: what the slot held, which is null afterwards. -/
def takeSlot : Option Nat → MemM (Option Nat)
  | none => pure none
  | some slot => do
    let err ← load slot
    store slot none
    return err

/-- `checked(st, slot, what)`: nothing on success, and the failure otherwise.  The slot
is passed by its address, and is read here after the call has returned. -/
def checked (st : Status) (slot : Option Nat) (what : Str) : MemM (Option Error) := do
  let err ← takeSlot slot
  if st = .ok ∨ st = .done then
    match err with
    | none => return none
    | some e =>
      zuErrorFree e
      return none
  else
    return some (← Error.take st err what)

def checkedStatus (st : Status) (what : Str) : MemM (Option Error) := do
  if st = .ok ∨ st = .done then
    return none
  else
    return some (← Error.take st none what)

theorem checkedStatus_eq (st : Status) (what : Str) (m : Mem) :
    checkedStatus st what m
      = (if st = .ok ∨ st = .done then none else some (.ofStatus st what), m) := by
  rw [checkedStatus]
  split <;> rfl

/-! ### The two spellings -/

/-- The exception classes, by the name they are caught under. -/
inductive ExceptionClass
  | connectionError | dataError | transactionError | syntaxError | programmingError
  | concurrentError | closedError | interruptedError | internalError
  deriving DecidableEq, Repr

/-- An exception of the hierarchy over `Exception`: its class, `what()` and `error()`. -/
structure Exception where
  cls : ExceptionClass
  what : Str
  error : Error
  deriving DecidableEq, Repr

def Exception.ofError (cls : ExceptionClass) (e : Error) : Exception := ⟨cls, e.message, e⟩

def raise (e : Error) : Exception :=
  let klass := match e.code with
    | some code => if code.length ≥ 2 then code.take 2 else []
    | none => []
  if klass = ascii "08" then .ofError .connectionError e
  else if klass = ascii "22" then .ofError .dataError e
  else if klass = ascii "25" ∨ klass = ascii "2D" ∨ klass = ascii "40" then
    .ofError .transactionError e
  else if klass = ascii "42" then .ofError .syntaxError e
  else match e.status with
    | .misuse => .ofError .programmingError e
    | .misuseConcurrent => .ofError .concurrentError e
    | .misuseClosed => .ofError .closedError e
    | .interrupted => .ofError .interruptedError e
    | .conflict => .ofError .transactionError e
    | .io => .ofError .connectionError e
    | _ => .ofError .internalError e

abbrev Outcome (T : Type) := Except Error T

variable {T : Type}

/-- `detail::unwrap`: the value, or the exception that is thrown. -/
def unwrap : Outcome T → Except Exception T
  | .ok v => .ok v
  | .error e => .error (raise e)

/-- `detail::to_expected`: the value, or the error of the `std::unexpected`. -/
def toExpected : Outcome T → Except Error T
  | .ok v => .ok v
  | .error e => .error e

theorem raise_error (e : Error) : (raise e).error = e := by
  rw [raise]
  split_ifs
  all_goals first | rfl | (split <;> rfl)

/-- **The two spellings say the same.**  The value is one value, and the error inside
the exception is the error the `try_` spelling returns. -/
theorem unwrap_toExpected (o : Outcome T) :
    (∃ v, unwrap o = .ok v ∧ toExpected o = .ok v) ∨
      ∃ x, unwrap o = .error x ∧ toExpected o = .error x.error := by
  cases o with
  | ok v => exact Or.inl ⟨v, rfl, rfl⟩
  | error e => exact Or.inr ⟨raise e, rfl, by rw [raise_error]; rfl⟩

/-! ### A fallible call, from the engine to the caller -/

/-- What the engine does with a call that can fail. -/
inductive EngineCall
  /-- a call that is given a slot: the status it answers, and the error it leaves there -/
  | explained (st : Status) (err : Option EngineError)
  /-- a call that has no error handle -/
  | structural (st : Status)
  deriving DecidableEq, Repr

def EngineCall.status : EngineCall → Status
  | .explained st _ => st
  | .structural st => st

def EngineCall.explanation : EngineCall → Option EngineError
  | .explained _ err => err
  | .structural _ => none

def newError (x : EngineError) : MemM Nat := fun m =>
  (m.errors.next, { m with errors := m.errors.alloc x })

/-- `zu_something(.., slot)`. -/
def zuCall (st : Status) (err : Option EngineError) (slot : Nat) : MemM Status := do
  match err with
  | none => store slot none
  | some x => store slot (some (← newError x))
  return st

/-- The order in which a compiler evaluates the arguments of
`checked(zu_something(.., &err), &err, what)`. -/
inductive EvalOrder
  | callFirst | slotFirst
  deriving DecidableEq, Repr

def EvalOrder.both {α β : Type} (order : EvalOrder) (x : MemM α) (y : MemM β) :
    MemM (α × β) :=
  match order with
  | .callFirst => do
    let a ← x
    let b ← y
    return (a, b)
  | .slotFirst => do
    let b ← y
    let a ← x
    return (a, b)

/-- The call and its `checked`, `&err` in the slot of one and in the arguments of the
other. -/
def callChecked (order : EvalOrder) (c : EngineCall) (what : Str) : MemM (Option Error) :=
  match c with
  | .explained st err => do
    let slot ← declareErr
    let args ← order.both (zuCall st err slot) (pure slot)
    checked args.1 (some args.2) what
  | .structural st => checkedStatus st what

/-- An `_impl` member.  They differ in the call, in what they name it, and in the value
they make of its out parameters. -/
def impl (order : EvalOrder) (c : EngineCall) (what : Str) (value : T) : MemM (Outcome T) := do
  match ← callChecked order c what with
  | some e => return .error e
  | none => return .ok value

/-- One whose call has no error handle, so that the order of evaluation says nothing. -/
def structuralImpl (what : String) (st : Status) (value : T) : MemM (Outcome T) :=
  impl .callFirst (.structural st) (ascii what) value

/-- One whose call is given `&err` in the arguments of `checked`: `answer` is the status, and
the error that is left in the slot. -/
def explainedImpl (order : EvalOrder) (what : String) (answer : Status × Option EngineError)
    (value : T) : MemM (Outcome T) :=
  impl order (.explained answer.1 answer.2) (ascii what) value

/-- **The address can be read early.**  What `&err` is does not depend on the call, so
both orders of evaluation do the same. -/
theorem both_pure {α β : Type} (order : EvalOrder) (x : MemM α) (b : β) :
    order.both x (pure b) = (x >>= fun a => pure (a, b)) := by
  cases order with
  | callFirst => simp only [EvalOrder.both, pure_bind]
  | slotFirst => simp only [EvalOrder.both, pure_bind]

/-- The memory once an explained call has returned and left the handle `e` in its
slot. -/
def Mem.called (m : Mem) (err : Option EngineError) : Mem :=
  { m with
    errors := match err with
      | none => m.errors
      | some x => m.errors.alloc x
    slots := (m.slots.alloc none).put m.slots.next (err.map fun _ => m.errors.next) }

/-- The memory once `checked` is through: the slot is null and the handle is gone. -/
def Mem.settled (m : Mem) (err : Option EngineError) : Mem :=
  { m with
    errors := match err with
      | none => m.errors
      | some x => (m.errors.alloc x).drop m.errors.next
    slots := (m.called err).slots.put m.slots.next none
    freed := (err.map fun _ => m.errors.next).toList ++ m.freed }

theorem settled_none (m : Mem) : m.settled none = m.called none := by
  simp only [Mem.settled, Mem.called, Option.map_none, Arena.put_alloc, Option.toList_none,
    List.nil_append]

theorem zuCall_eq (m : Mem) (st : Status) (err : Option EngineError) :
    zuCall st err m.slots.next { m with slots := m.slots.alloc none } = (st, m.called err) := by
  have hslot : (m.slots.alloc none).get m.slots.next = some none := by
    rw [Arena.get_alloc, if_pos rfl]
  cases err with
  | none =>
    rw [zuCall, bind_of_eq (store_of_get hslot _)]
    rfl
  | some x =>
    have hnew : newError x { m with slots := m.slots.alloc none }
        = (m.errors.next, { m with errors := m.errors.alloc x, slots := m.slots.alloc none }) := rfl
    rw [zuCall, bind_of_eq hnew, bind_of_eq (store_of_get hslot _)]
    rfl

theorem called_slots (m : Mem) (err : Option EngineError) (i : Nat) :
    (m.called err).slots.get i
      = if i = m.slots.next then some (err.map fun _ => m.errors.next) else m.slots.get i := by
  have hslot : (m.slots.alloc none).get m.slots.next = some none := by
    rw [Arena.get_alloc, if_pos rfl]
  show ((m.slots.alloc none).put m.slots.next _).get i = _
  rw [Arena.get_put hslot]
  split_ifs with hi
  · rfl
  · rw [Arena.get_alloc, if_neg hi]

theorem called_slot (m : Mem) (err : Option EngineError) :
    (m.called err).slots.get m.slots.next = some (err.map fun _ => m.errors.next) :=
  (called_slots m err _).trans (if_pos rfl)

theorem takeSlot_called (m : Mem) (err : Option EngineError) :
    takeSlot (some m.slots.next) (m.called err) = (err.map fun _ => m.errors.next,
      { m.called err with slots := (m.called err).slots.put m.slots.next none }) := by
  rw [takeSlot, bind_of_eq (load_of_get (called_slot m err)),
    bind_of_eq (store_of_get (called_slot m err) none)]
  rfl

theorem checked_success (m : Mem) {st : Status} (h : st = .ok ∨ st = .done)
    (err : Option EngineError) (what : Str) :
    checked st (some m.slots.next) what (m.called err) = (none, m.settled err) := by
  rw [checked, bind_of_eq (takeSlot_called m err), if_pos h]
  cases err with
  | none => rfl
  | some x =>
    have hget : (m.errors.alloc x).get m.errors.next = some x := by
      rw [Arena.get_alloc, if_pos rfl]
    exact bind_of_eq (zuErrorFree_of_get hget) _

theorem checked_explained (m : Mem) {st : Status} (h : ¬ (st = .ok ∨ st = .done))
    (x : EngineError) (what : Str) :
    checked st (some m.slots.next) what (m.called (some x))
      = (some (Error.ofEngine st x what), m.settled (some x)) := by
  have hget : (m.errors.alloc x).get m.errors.next = some x := by
    rw [Arena.get_alloc, if_pos rfl]
  rw [checked, bind_of_eq (takeSlot_called m (some x)), if_neg h]
  exact bind_of_eq (Error.take_some hget st what) _

theorem checked_unexplained (m : Mem) {st : Status} (h : ¬ (st = .ok ∨ st = .done)) (what : Str) :
    ∃ E, checked st (some m.slots.next) what (m.called none) = (some E, m.settled none) ∧
      E.status = st ∧ E.message ≠ [] := by
  rw [checked, bind_of_eq (takeSlot_called m none), if_neg h]
  obtain ⟨E, hE, hst, hmsg⟩ := Error.take_none st what
    { m.called none with slots := (m.called none).slots.put m.slots.next none }
  exact ⟨E, bind_of_eq hE _, hst, hmsg⟩

theorem checkedStatus_failure (m : Mem) {st : Status} (h : ¬ (st = .ok ∨ st = .done))
    (what : Str) :
    ∃ E, checkedStatus st what m = (some E, m) ∧ E.status = st ∧ E.message ≠ [] := by
  obtain ⟨E, hE, hst, hmsg⟩ := Error.take_none st what m
  refine ⟨E, ?_, hst, hmsg⟩
  rw [checkedStatus, if_neg h]
  exact bind_of_eq hE _

def EngineCall.after (m : Mem) : EngineCall → Mem
  | .explained _ err => m.settled err
  | .structural _ => m

theorem callChecked_explained (order : EvalOrder) (st : Status) (err : Option EngineError)
    (what : Str) (m : Mem) :
    callChecked order (.explained st err) what m
      = checked st (some m.slots.next) what (m.called err) := by
  have hdecl : declareErr m = (m.slots.next, { m with slots := m.slots.alloc none }) := rfl
  rw [callChecked, bind_of_eq hdecl, both_pure, bind_assoc, bind_of_eq (zuCall_eq m st err),
    pure_bind]

theorem callChecked_success (order : EvalOrder) {c : EngineCall}
    (h : c.status = .ok ∨ c.status = .done) (what : Str) (m : Mem) :
    callChecked order c what m = (none, c.after m) := by
  cases c with
  | explained st err =>
    rw [callChecked_explained]
    exact checked_success m h err what
  | structural st =>
    rw [callChecked, checkedStatus, if_pos (show st = .ok ∨ st = .done from h)]
    rfl

theorem callChecked_failure (order : EvalOrder) {c : EngineCall}
    (h : ¬ (c.status = .ok ∨ c.status = .done)) (what : Str) (m : Mem) :
    ∃ E, callChecked order c what m = (some E, c.after m) ∧
      E.status = c.status ∧ E.message ≠ [] ∧ ∀ x, c.explanation = some x → E.Carries x := by
  cases c with
  | explained st err =>
    rw [callChecked_explained]
    cases err with
    | none =>
      obtain ⟨E, hE, hst, hmsg⟩ := checked_unexplained m h what
      exact ⟨E, hE, hst, hmsg, fun x hx => nomatch hx⟩
    | some x =>
      refine ⟨_, checked_explained m h x what, rfl, Error.ofEngine_message_ne_nil st x what, ?_⟩
      intro y hy
      cases hy
      exact Error.ofEngine_carries st x what
  | structural st =>
    obtain ⟨E, hE, hst, hmsg⟩ := checkedStatus_failure m h what
    exact ⟨E, hE, hst, hmsg, fun x hx => nomatch hx⟩

/-! The memory afterwards: the error is gone, the slot is null, and nothing else moved. -/

theorem settled_errors (m : Mem) (err : Option EngineError) (i : Nat) :
    (m.settled err).errors.get i = m.errors.get i := by
  cases err with
  | none => rfl
  | some x =>
    show ((m.errors.alloc x).drop m.errors.next).get i = m.errors.get i
    rw [Arena.get_drop, Arena.get_alloc]
    split_ifs with hi
    · rw [hi, Arena.get_next]
    · rfl

theorem settled_slots (m : Mem) (err : Option EngineError) (i : Nat) :
    (m.settled err).slots.get i = if i = m.slots.next then some none else m.slots.get i := by
  show ((m.called err).slots.put m.slots.next none).get i = _
  rw [Arena.get_put (called_slot m err)]
  split_ifs with hi
  · rfl
  · rw [called_slots, if_neg hi]

/-! ### What a call leaves, and what it tells -/

/-- What dealing with `k` errors does to the memory. -/
structure Settled (k : Nat) (m m' : Mem) : Prop where
  /-- the slots that were declared end null, and no other slot is touched -/
  null : ∀ i, m.slots.get i = none → m'.slots.get i = none ∨ m'.slots.get i = some none
  slots : ∀ i e, m.slots.get i = some e → m'.slots.get i = some e
  /-- each of the handles is freed, once, and no other handle is -/
  freed : m'.freed = (List.range' m.errors.next k).reverse ++ m.freed
  errors : ∀ i, m'.errors.get i = m.errors.get i
  next : m'.errors.next = m.errors.next + k
  /-- nothing is read or freed after it was freed -/
  fault : m'.fault = m.fault

theorem Settled.refl (m : Mem) : Settled 0 m m :=
  ⟨fun _ h => Or.inl h, fun _ _ h => h, rfl, fun _ => rfl, rfl, rfl⟩

theorem Settled.trans {k l : Nat} {m m₁ m₂ : Mem} (h : Settled k m m₁) (h' : Settled l m₁ m₂) :
    Settled (k + l) m m₂ where
  null i hi := by
    rcases h.null i hi with hnone | hnull
    · exact h'.null i hnone
    · exact Or.inr (h'.slots i none hnull)
  slots i e hi := h'.slots i e (h.slots i e hi)
  freed := by
    rw [h'.freed, h.freed, h.next, ← List.append_assoc, ← List.reverse_append,
      List.range'_append_1]
  errors i := (h'.errors i).trans (h.errors i)
  next := by rw [h'.next, h.next, Nat.add_assoc]
  fault := h'.fault.trans h.fault

/-- The invariant of a program: every error the engine ever made was freed once, and nothing was
touched after that. -/
structure Mem.Clean (m : Mem) : Prop where
  freed : ∀ e, m.freed.count e = if e < m.errors.next then 1 else 0
  dead : ∀ e, m.errors.get e = none
  fault : m.fault = false

theorem clean_init : Mem.Clean {} := ⟨fun _ => rfl, fun _ => rfl, rfl⟩

theorem Settled.clean {k : Nat} {m m' : Mem} (h : Settled k m m') (hm : m.Clean) : m'.Clean where
  freed e := by
    rw [h.freed, h.next, List.count_append, List.count_reverse, List.count_range_1', hm.freed]
    split_ifs <;> omega
  dead e := (h.errors e).trans (hm.dead e)
  fault := h.fault.trans hm.fault

def EngineCall.handles (c : EngineCall) : Nat := c.explanation.toList.length

theorem settled_after (c : EngineCall) (m : Mem) : Settled c.handles m (c.after m) := by
  cases c with
  | structural st => exact .refl m
  | explained st err =>
    refine ⟨fun i hi => ?_, fun i e hi => ?_, ?_, settled_errors m err, ?_, rfl⟩
    · show (m.settled err).slots.get i = none ∨ (m.settled err).slots.get i = some none
      rw [settled_slots]
      split
      · exact Or.inr rfl
      · exact Or.inl hi
    · show (m.settled err).slots.get i = some e
      rw [settled_slots, if_neg (Arena.lt_next_of_get hi).ne, hi]
    · cases err with
      | none => rfl
      | some x => rfl
    · cases err with
      | none => rfl
      | some x => exact (Arena.next_drop _).trans (Arena.next_alloc _)

def EngineCall.Succeeds (c : EngineCall) : Prop := c.status = .ok ∨ c.status = .done

instance (c : EngineCall) : Decidable c.Succeeds := inferInstanceAs (Decidable (_ ∨ _))

/-- What an error must say of the call that failed: its status, some message, and all that the
engine said. -/
structure Error.Tells (E : Error) (c : EngineCall) : Prop where
  status : E.status = c.status
  message : E.message ≠ []
  carries : ∀ x, c.explanation = some x → E.Carries x

theorem impl_of_succeeds (order : EvalOrder) {c : EngineCall} (h : c.Succeeds) (what : Str)
    (value : T) (m : Mem) : impl order c what value m = (.ok value, c.after m) :=
  bind_of_eq (callChecked_success order h what m) _

theorem structuralImpl_of_ok {st : Status} (h : st = .ok) (what : String) (value : T) (m : Mem) :
    structuralImpl what st value m = (.ok value, m) :=
  impl_of_succeeds .callFirst (c := .structural st) (Or.inl h) _ value m

theorem impl_of_fails (order : EvalOrder) {c : EngineCall} (h : ¬ c.Succeeds) (what : Str)
    (value : T) (m : Mem) :
    ∃ E, impl order c what value m = (.error E, c.after m) ∧ E.Tells c := by
  obtain ⟨E, hE, hst, hmsg, hcarries⟩ := callChecked_failure order h what m
  exact ⟨E, bind_of_eq hE _, hst, hmsg, hcarries⟩

end ZuCpp
