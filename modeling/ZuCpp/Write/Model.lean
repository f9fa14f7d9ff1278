import ZuCpp.Lib.Overload
import ZuCpp.Text
import ZuCpp.Types

/-!
# One value at a time: `bind` and `append`, and their `try_` twins

`Statement::bind` and `Appender::append` are overloaded on the type of the value, and so
are `try_bind` and `try_append`, but not on the same types.  Which overload a value goes
to is settled by C++, so the model has the types an argument can have (`Ty`), the
conversions from them to the types of the parameters (`Ty.conv`) and the ranking of these
conversions (`Lib.resolve`).

The numbers themselves are left open (`Numbers`): a value is converted the way the
machine converts it, and nothing here depends on how.
-/

namespace ZuCpp.Write

open Lib

/-! ### Types -/

/-- What a pointer points at or an array is of, as far as a conversion can tell.  `char` is
not volatile. -/
inductive Pointee
  | char (isConst : Bool)
  /-- `std::uint8_t` -/
  | byte
  | other
  deriving DecidableEq, Repr

abbrev Integral := { t : Arith // t.isFloating = false }

/-- The types that are no classes.  Function pointers and pointers to members are
`pointer .other`; an enumeration with no fixed underlying type is given by the type it is
promoted to. -/
inductive Scalar
  | number (t : Arith)
  | enumeration (t : Integral) (fixed : Bool)
  | scopedEnumeration
  | pointer (p : Pointee)
  | array (p : Pointee)
  | nullptr
  deriving DecidableEq, Repr

/-- The classes that are parameters: `std::string_view`, `Temporal`, and
`std::span<const std::uint8_t>`. -/
inductive Known
  | stringView | temporal | bytes
  deriving DecidableEq, Repr

/-- The parameters of the overloads; `optional` is the template over `std::optional<T>`. -/
inductive Param
  | bool | int | int64 | double | constCharPtr | nullptr
  | known (k : Known)
  | optional
  deriving DecidableEq, Repr

inductive Ret
  | scalar (s : Scalar)
  | known (k : Known)
  deriving DecidableEq, Repr

/-- A conversion function that the argument may call and that is not `explicit`, or a
template of them that makes one for some of the parameters.  `object` ranks the binding of
the argument to the function's object: 0 as it is, and higher where `const` is added. -/
inductive Conversion
  | function (object : Nat) (returns : Ret)
  | template (object : Nat) (makes : List Param)
  deriving DecidableEq, Repr

/-- A class of the caller's: which of the known classes it derives from, its conversion
functions, and whether it is a contiguous, sized range of `std::uint8_t`. -/
structure ClassType where
  bases : List Known := []
  conversions : List Conversion := []
  range : Bool := false
  deriving DecidableEq, Repr

/-- The types of arguments.  A literal zero counts as a type of its own, because it
converts to pointers; `derived` is a class that derives from `std::optional<T>`. -/
inductive Ty
  | scalar (s : Scalar)
  | zero (t : Integral)
  | known (k : Known)
  | cls (c : ClassType)
  | optional (T : Ty)
  | derived (c : ClassType) (T : Ty)
  deriving DecidableEq, Repr

/-! ### Standard conversions -/

/-- The standard conversions in the order of their ranks, the best one first.  `underlying`
is the promotion of an enumeration to its underlying type where that is promoted further. -/
inductive Std
  | identity | qualification | underlying | promotion | conversion | pointerToBool
  deriving DecidableEq, Repr

def Std.grade : Std → Nat
  | identity => 0
  | qualification => 1
  | underlying => 2
  | promotion => 3
  | conversion => 4
  | pointerToBool => 5

theorem Std.grade_injective : Function.Injective Std.grade := by
  intro a b h
  cases a <;> cases b <;> first | rfl | exact absurd h (by decide)

instance : LinearOrder Std := LinearOrder.lift' Std.grade Std.grade_injective

section Conversions

variable (M : Target)

def Param.arith : Param → Option Arith
  | .bool => some .bool
  | .int => some .int
  | .int64 => some M.int64
  | .double => some .double
  | _ => none

def numberTo (t u : Arith) : Std :=
  if t = u then .identity else if M.promoted t = some u then .promotion else .conversion

def enumerationTo (t : Arith) (fixed : Bool) (u : Arith) : Std :=
  if t = u then (if fixed ∧ (M.promoted t).isSome then .underlying else .promotion)
  else if fixed ∧ M.promoted t = some u then .promotion
  else .conversion

def Scalar.std : Scalar → Param → Option Std
  | number t, P => (P.arith M).map (numberTo M t)
  | enumeration t fixed, P => (P.arith M).map (enumerationTo M t fixed)
  | pointer (.char isConst), .constCharPtr => some (if isConst then .identity else .qualification)
  | pointer _, .bool => some .pointerToBool
  | array (.char isConst), .constCharPtr => some (if isConst then .identity else .qualification)
  | array _, .bool => some .pointerToBool
  | nullptr, .nullptr => some .identity
  | nullptr, .constCharPtr => some .conversion
  | _, _ => none

def Ret.std : Ret → Param → Option Std
  | scalar s, P => s.std M P
  | known k, .known l => if k = l then some .identity else none
  | known _, _ => none

/-! ### Conversion sequences -/

/-- The function of a user-defined conversion: a constructor of the parameter's class, the
deleted `std::string_view(std::nullptr_t)`, a conversion function of the argument's class,
or one made from a template. -/
inductive Via
  | constructor
  | deleted
  | function (i : Nat) (returns : Ret)
  | specialization (i : Nat) (P : Param)
  deriving DecidableEq, Repr

abbrev Seq := Sequence Via Std

structure Reach where
  via : Via
  object : Nat
  second : Std
  template : Bool
  deriving DecidableEq, Repr

/-- The ranking of these functions: by the binding of the object, then by the conversion
of what the function returns, and a template last. -/
def Reach.Better (a b : Reach) : Prop :=
  a.object < b.object ∨ (a.object = b.object ∧
    (a.second < b.second ∨ (a.second = b.second ∧ a.template = false ∧ b.template = true)))

instance : DecidableRel Reach.Better := fun a b => by
  unfold Reach.Better
  infer_instance

def Conversion.reach (P : Param) (i : Nat) : Conversion → Option Reach
  | function object r => (r.std M P).map fun s => ⟨.function i r, object, s, false⟩
  | template object makes =>
    if P ∈ makes then some ⟨.specialization i P, object, .identity, true⟩ else none

def ClassType.reaches (c : ClassType) (P : Param) : List Reach :=
  (if c.range ∧ P = .known .bytes then [⟨.constructor, 0, .identity, true⟩] else []) ++
    c.conversions.zipIdx.filterMap fun f => f.1.reach M P f.2

def ClassType.user (c : ClassType) (P : Param) : Option Seq :=
  if c.reaches M P = [] then none
  else match best Reach.Better (c.reaches M P) with
    | some a => some (.user a.via a.second)
    | none => some .ambiguous

def ClassType.conv (c : ClassType) : Param → Option Seq
  | .known k => if k ∈ c.bases then some (.standard .conversion) else c.user M (.known k)
  | .optional => none
  | P => c.user M P

def Scalar.construct : Scalar → Param → Option Seq
  | pointer (.char _), .known .stringView => some (.user .constructor .identity)
  | array (.char _), .known .stringView => some (.user .constructor .identity)
  | array .byte, .known .bytes => some (.user .constructor .identity)
  | nullptr, .known .stringView => some (.user .deleted .identity)
  | _, _ => none

def zeroConv (t : Arith) : Param → Option Seq
  | .constCharPtr => some (.standard .conversion)
  | .nullptr => some (.standard .conversion)
  | .known .stringView => some .ambiguous
  | P => ((Scalar.number t).std M P).map .standard

/-- **The implicit conversion sequence** from an argument to a parameter. -/
def Ty.conv : Ty → Param → Option Seq
  | scalar s, P => ((s.std M P).map .standard).or (s.construct P)
  | zero t, P => zeroConv M t P
  | known k, P => ((Ret.known k).std M P).map .standard
  | cls c, P => c.conv M P
  | optional _, .optional => some (.standard .identity)
  | optional _, _ => none
  | derived _ _, .optional => some (.standard .conversion)
  | derived c _, P => c.conv M P

end Conversions

/-! ### Values -/

structure Numbers (V : Type) where
  zero : V
  convert : Arith → Arith → V → V
  truth : V → Bool

section Values

variable (V : Type)

/-- A `const char*` is null or the characters before the first nought, and of any other
pointer only this matters, whether it is null. -/
def Scalar.Value : Scalar → Type
  | number _ => V
  | enumeration _ _ => V
  | scopedEnumeration => V
  | pointer (.char _) => Option Str
  | pointer _ => Bool
  | array (.char _) => Str
  | array .byte => List UInt8
  | array .other => Unit
  | nullptr => Unit

def Known.Value : Known → Type
  | stringView => Str
  | temporal => Temporal
  | bytes => List UInt8

def Param.Value : Param → Type
  | bool => Bool
  | int => V
  | int64 => V
  | double => V
  | constCharPtr => Option Str
  | nullptr => Unit
  | known k => k.Value
  | optional => Unit

def Ret.Value : Ret → Type
  | scalar s => s.Value V
  | known k => k.Value

/-- An object of a class: it seen as each of its bases, what each of its conversion
functions returns, what each of its templates makes, and its bytes where it is a range. -/
structure ClassValue where
  base : (k : Known) → k.Value
  gives : Nat → (r : Ret) → r.Value V
  makes : Nat → (P : Param) → P.Value V
  bytes : List UInt8

def Ty.Value : Ty → Type
  | scalar s => s.Value V
  | zero _ => Unit
  | known k => k.Value
  | cls _ => ClassValue V
  | optional T => Option T.Value
  | derived _ T => ClassValue V × Option T.Value

end Values

section Pass

variable {V : Type} (N : Numbers V) (M : Target)

def passNumber (t : Arith) : (P : Param) → V → Option (P.Value V)
  | .bool, v => some (N.truth v)
  | .int, v => some (N.convert t .int v)
  | .int64, v => some (N.convert t M.int64 v)
  | .double, v => some (N.convert t .double v)
  | _, _ => none

def Scalar.pass : (s : Scalar) → (P : Param) → s.Value V → Option (P.Value V)
  | number t, P, v => passNumber N M t P v
  | enumeration t _, P, v => passNumber N M t P v
  | pointer (.char _), .constCharPtr, v => some v
  | pointer (.char _), .bool, v => some (Option.isSome v)
  | pointer .byte, .bool, v => some v
  | pointer .other, .bool, v => some v
  | array (.char _), .constCharPtr, v => some (some v)
  | array _, .bool, _ => some true
  | nullptr, .nullptr, _ => some ()
  | nullptr, .constCharPtr, _ => some none
  | _, _, _ => none

def Ret.pass : (r : Ret) → (P : Param) → r.Value V → Option (P.Value V)
  | scalar s, P, v => s.pass N M P v
  | known k, .known l, v => if h : k = l then some (h ▸ v) else none
  | known _, _, _ => none

/-- A constructor of a parameter's class, run.  From a null `const char*` there is no
`std::string_view`. -/
def Scalar.build : (s : Scalar) → (P : Param) → s.Value V → Option (P.Value V)
  | pointer (.char _), .known .stringView, v => v
  | array (.char _), .known .stringView, v => some v
  | array .byte, .known .bytes, v => some v
  | _, _, _ => none

def ClassValue.asBase (x : ClassValue V) : (P : Param) → Option (P.Value V)
  | .known k => some (x.base k)
  | _ => none

def ClassValue.asSpan (x : ClassValue V) : (P : Param) → Option (P.Value V)
  | .known .bytes => some x.bytes
  | _ => none

def ClassType.pass (c : ClassType) (x : ClassValue V) (P : Param) : Option (P.Value V) :=
  match c.conv M P with
  | some (.standard _) => x.asBase P
  | some (.user (.function i r) _) => r.pass N M P (x.gives i r)
  | some (.user (.specialization i _) _) => some (x.makes i P)
  | some (.user .constructor _) => x.asSpan P
  | _ => none

def passZero (t : Arith) : (P : Param) → Option (P.Value V)
  | .constCharPtr => some none
  | .nullptr => some ()
  | P => passNumber N M t P N.zero

/-- **The argument as the parameter gets it.** -/
def Ty.pass : (A : Ty) → (P : Param) → A.Value V → Option (P.Value V)
  | scalar s, P, v => (s.pass N M P v).or (s.build P v)
  | zero t, P, _ => passZero N M t P
  | known k, P, v => (Ret.known k).pass N M P v
  | cls c, P, x => c.pass N M x P
  | optional _, _, _ => none
  | derived c _, P, x => c.pass N M x.1 P

end Pass

/-! ### The calls of zu.h -/

inductive WriteCall (V : Type)
  | zuBindI64 (name : Str) (v : V)
  | zuBindF64 (name : Str) (v : V)
  | zuBindBool (name : Str) (v : Int32)
  | zuBindStr (name : Str) (v : Str)
  | zuBindTemporal (name : Str) (kind : TemporalKind) (count : Int64) (offset : Int32)
  | zuBindNull (name : Str)
  | zuAppendI64 (v : V)
  | zuAppendF64 (v : V)
  | zuAppendBool (v : Int32)
  | zuAppendStr (v : Str)
  | zuAppendBytes (v : List UInt8)
  | zuAppendTemporal (kind : TemporalKind) (count : Int64)
  deriving DecidableEq, Repr

/-! ### The overloads -/

section Overloads

variable {V : Type} (N : Numbers V) (M : Target)

def bindOverloads : List Param :=
  [.int64, .int, .double, .bool, .known .stringView, .constCharPtr, .known .temporal, .nullptr,
    .optional]

def tryBindOverloads : List Param :=
  [.int64, .double, .bool, .known .stringView, .known .temporal]

def appendOverloads : List Param :=
  [.bool, .int64, .int, .double, .known .stringView, .constCharPtr, .known .bytes,
    .known .temporal]

def tryAppendOverloads : List Param :=
  [.bool, .int64, .double, .known .stringView, .known .bytes, .known .temporal]

def flag (v : Bool) : Int32 := if v then 1 else 0

/-- What each overload of `Statement::try_bind` calls. -/
def tryBindBody (name : Str) : (P : Param) → P.Value V → Option (WriteCall V)
  | .int64, v => some (.zuBindI64 name v)
  | .double, v => some (.zuBindF64 name v)
  | .bool, v => some (.zuBindBool name (flag v))
  | .known .stringView, v => some (.zuBindStr name v)
  | .known .temporal, v => some (.zuBindTemporal name v.kind v.count v.offset)
  | _, _ => none

/-- What each overload of `Statement::bind` calls.  The template is not here: it calls
`bind` again. -/
def bindBody (name : Str) : (P : Param) → P.Value V → Option (WriteCall V)
  | .int64, v => some (.zuBindI64 name v)
  | .int, v => some (.zuBindI64 name (N.convert .int M.int64 v))
  | .double, v => some (.zuBindF64 name v)
  | .bool, v => some (.zuBindBool name (flag v))
  | .known .stringView, v => some (.zuBindStr name v)
  | .constCharPtr, v => some (.zuBindStr name (Option.getD v []))
  | .known .temporal, v => some (.zuBindTemporal name v.kind v.count v.offset)
  | .nullptr, _ => some (.zuBindNull name)
  | _, _ => none

/-- What each overload of `Appender::try_append` calls. -/
def tryAppendBody : (P : Param) → P.Value V → Option (WriteCall V)
  | .bool, v => some (.zuAppendBool (flag v))
  | .int64, v => some (.zuAppendI64 v)
  | .double, v => some (.zuAppendF64 v)
  | .known .stringView, v => some (.zuAppendStr v)
  | .known .bytes, v => some (.zuAppendBytes v)
  | .known .temporal, v => some (.zuAppendTemporal v.kind v.count)
  | _, _ => none

def appendBody : (P : Param) → P.Value V → Option (WriteCall V)
  | .bool, v => some (.zuAppendBool (flag v))
  | .int64, v => some (.zuAppendI64 v)
  | .int, v => some (.zuAppendI64 (N.convert .int M.int64 v))
  | .double, v => some (.zuAppendF64 v)
  | .known .stringView, v => some (.zuAppendStr v)
  | .constCharPtr, v => some (.zuAppendStr (Option.getD v []))
  | .known .bytes, v => some (.zuAppendBytes v)
  | .known .temporal, v => some (.zuAppendTemporal v.kind v.count)
  | _, _ => none

/-- What is written to: a named parameter of a `Statement`, or the row of an `Appender`. -/
inductive Writer
  | statement (name : Str)
  | appender
  deriving DecidableEq, Repr

namespace Writer

def overloads : Writer → List Param
  | statement _ => bindOverloads
  | appender => appendOverloads

def tryOverloads : Writer → List Param
  | statement _ => tryBindOverloads
  | appender => tryAppendOverloads

def body : Writer → (P : Param) → P.Value V → Option (WriteCall V)
  | statement name => bindBody N M name
  | appender => appendBody N M

def tryBody : Writer → (P : Param) → P.Value V → Option (WriteCall V)
  | statement name => tryBindBody name
  | appender => tryAppendBody

/-- `bind_null`, which the template calls on an empty optional. -/
def null : Writer → Option (WriteCall V)
  | statement name => some (.zuBindNull name)
  | appender => none

end Writer

/-- The overload an argument of the type `A` goes to. -/
def picks (cands : List Param) (A : Ty) : Option Param :=
  resolve (A.conv M) (fun P => decide (P = .optional)) cands

/-- A conversion that compiles: it is not ambiguous and its function is not deleted. -/
def Compiles : Option Seq → Bool
  | some (.standard _) => true
  | some (.user f _) => decide (f ≠ .deleted)
  | _ => false

namespace Writer

variable (w : Writer)

def compilesTo (A : Ty) (inner : Bool) : Bool :=
  match picks M w.overloads A with
  | some .optional => inner
  | some P => Compiles (A.conv M P)
  | none => false

/-- **The throwing call compiles** for an argument of the type.  The template compiles when
what it calls does. -/
def compiles : Ty → Bool
  | .scalar s => compilesTo M w (.scalar s) false
  | .zero t => compilesTo M w (.zero t) false
  | .known k => compilesTo M w (.known k) false
  | .cls c => compilesTo M w (.cls c) false
  | .optional T => compilesTo M w (.optional T) (compiles T)
  | .derived c T => compilesTo M w (.derived c T) (compiles T)

/-- **The `try_` call compiles** for an argument of the type. -/
def tryCompiles (A : Ty) : Bool :=
  match picks M w.tryOverloads A with
  | some P => Compiles (A.conv M P)
  | none => false

def writeTo (A : Ty) (v : A.Value V) (inner : Option (WriteCall V)) : Option (WriteCall V) :=
  match picks M w.overloads A with
  | some .optional => inner
  | some P => (A.pass N M P v).bind (w.body N M P)
  | none => none

/-- **The throwing call**: the call of zu.h it makes. -/
def write : (A : Ty) → A.Value V → Option (WriteCall V)
  | .scalar s, v => writeTo N M w (.scalar s) v none
  | .zero t, v => writeTo N M w (.zero t) v none
  | .known k, v => writeTo N M w (.known k) v none
  | .cls c, v => writeTo N M w (.cls c) v none
  | .optional T, v =>
    writeTo N M w (.optional T) v (match v with
      | some x => write T x
      | none => w.null)
  | .derived c T, v =>
    writeTo N M w (.derived c T) v (match v.2 with
      | some x => write T x
      | none => w.null)

/-- **The `try_` call**: the call of zu.h it makes. -/
def tryWrite (A : Ty) (v : A.Value V) : Option (WriteCall V) :=
  match picks M w.tryOverloads A with
  | some P => (A.pass N M P v).bind (w.tryBody P)
  | none => none

end Writer

end Overloads

end ZuCpp.Write
