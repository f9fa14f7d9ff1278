import Mathlib.Data.Nat.Notation

/-!
# Numbers and temporals

The types that the bulk calls and the single writes share.  The header is compiled for a
machine, and two of its parts depend on which: what a frame column says of its elements,
and which overload a number is resolved to.  `Target` is what they ask of the machine.
-/

namespace ZuCpp

/-- The arithmetic types of C++, with the two that its compilers add. -/
inductive Arith
  | bool | char | schar | uchar | wchar | char8 | char16 | char32
  | short | ushort | int | uint | long | ulong | llong | ullong | int128 | uint128
  | float | double | longDouble
  deriving DecidableEq, Repr

def Arith.isFloating : Arith → Bool
  | .float | .double | .longDouble => true
  | _ => false

/-- `TemporalKind`, with `other` for a number this header has no name for. -/
inductive TemporalKind
  | date | localTime | zonedTime | localDatetime | zonedDatetime
  | durationYearMonth | durationDayTime
  | plain
  | other (n : Int32)
  deriving DecidableEq, Repr

structure Temporal where
  kind : TemporalKind := .date
  count : Int64 := 0
  offset : Int32 := 0
  deriving DecidableEq, Repr

/-- A machine of 64 bits and its data model. -/
structure Target where
  sizeof : Arith → Nat
  sizeof_le : ∀ t, sizeof t ≤ 16
  charSigned : Bool
  wcharSigned : Bool
  /-- the type `std::int64_t` names -/
  int64 : Arith
  int64_eq : int64 = .long ∨ int64 = .llong
  /-- the type `wchar_t` is promoted to -/
  wcharPromoted : Arith
  wcharPromoted_eq : wcharPromoted = .int ∨ wcharPromoted = .uint

namespace Target

def isSigned (M : Target) : Arith → Bool
  | .char => M.charSigned
  | .wchar => M.wcharSigned
  | .schar | .short | .int | .long | .llong | .int128 | .float | .double | .longDouble => true
  | _ => false

def promoted (M : Target) : Arith → Option Arith
  | .bool | .char | .schar | .uchar | .char8 | .char16 | .short | .ushort => some .int
  | .wchar => some M.wcharPromoted
  | .char32 => some .uint
  | .float => some .double
  | _ => none

def linux : Target where
  sizeof
    | .bool | .char | .schar | .uchar | .char8 => 1
    | .char16 | .short | .ushort => 2
    | .wchar | .char32 | .int | .uint | .float => 4
    | .long | .ulong | .llong | .ullong | .double => 8
    | .int128 | .uint128 | .longDouble => 16
  sizeof_le := by
    intro t
    cases t <;> decide
  charSigned := true
  wcharSigned := true
  int64 := .long
  int64_eq := Or.inl rfl
  wcharPromoted := .int
  wcharPromoted_eq := Or.inl rfl

end Target

end ZuCpp
