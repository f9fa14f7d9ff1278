import ZuCpp.Cell
import ZuCpp.Decimal
import ZuCpp.Types
import ZuCpp.Lib.Rewrite

/-!
# `to_string`

Printing a cell asks the engine what the cell is and then reads it as that, so it does not
refuse (`toString_total`), and what is printed is the text of what the cell holds
(`Content.text`).

**Two cells of one type print alike only if they are alike** (`print_alike_iff`): a number, a
node, an edge, a time and a decimal are read back from their text.  What is not in the text is
the octets behind their number, the bits of a double behind fifteen digits, and what a list
has in it.
-/

namespace ZuCpp

open Lib

/-- `zu::Type`, with `other` for a number this header has no name for. -/
inductive ValueType
  | null | boolean | integer | floating | string | node | rel | list | path | temporal | record
  | graph | bindingTable | bytes | decimal
  | other (n : Int32)
  deriving DecidableEq, Repr

/-- `static_cast<Type>(n)`: the order the types are declared in is the ABI's numbering. -/
def ValueType.ofInt32 (n : Int32) : ValueType :=
  match n.toInt with
  | 0 => .null
  | 1 => .boolean
  | 2 => .integer
  | 3 => .floating
  | 4 => .string
  | 5 => .node
  | 6 => .rel
  | 7 => .list
  | 8 => .path
  | 9 => .temporal
  | 10 => .record
  | 11 => .graph
  | 12 => .bindingTable
  | 13 => .bytes
  | 14 => .decimal
  | _ => .other n

structure Node where
  table : UInt32 := 0
  offset : UInt64 := 0
  deriving DecidableEq, Repr

structure Rel where
  table : UInt32 := 0
  src : UInt64 := 0
  dst : UInt64 := 0
  deriving DecidableEq, Repr

/-! ### The texts -/

def numberText (n : Int) : Str := decimalCode.fixed n 0

def ValueType.toString : ValueType → Str
  | .null => ascii "null"
  | .boolean => ascii "bool"
  | .integer => ascii "int"
  | .floating => ascii "float"
  | .string => ascii "str"
  | .node => ascii "node"
  | .rel => ascii "rel"
  | .list => ascii "list"
  | .path => ascii "path"
  | .temporal => ascii "temporal"
  | .record => ascii "record"
  | .graph => ascii "graph"
  | .bindingTable => ascii "binding_table"
  | .bytes => ascii "bytes"
  | .decimal => ascii "decimal"
  | .other _ => ascii "unknown"

def TemporalKind.toString : TemporalKind → Str
  | .date => ascii "date"
  | .localTime => ascii "local_time"
  | .zonedTime => ascii "zoned_time"
  | .localDatetime => ascii "local_datetime"
  | .zonedDatetime => ascii "zoned_datetime"
  | .durationYearMonth => ascii "duration_year_month"
  | .durationDayTime => ascii "duration_day_time"
  | .plain => ascii "plain"
  | .other _ => ascii "unknown"

def Node.toString (n : Node) : Str :=
  ascii "node " ++ numberText n.table.toNat ++ ascii ":" ++ numberText n.offset.toNat

def Rel.toString (r : Rel) : Str :=
  ascii "rel " ++ numberText r.table.toNat ++ ascii ":" ++ numberText r.src.toNat ++ ascii "->"
    ++ numberText r.dst.toNat

def Temporal.toString (t : Temporal) : Str :=
  let out := t.kind.toString ++ ascii " " ++ numberText t.count.toInt
  if t.offset ≠ 0 then
    out ++ ascii (if t.offset > 0 then " +" else " ") ++ numberText t.offset.toInt
  else out

section Cells

-- `F` is the doubles, and `snprintf` what `std::snprintf(buf, sizeof buf, "%.15g", d)` returns and
-- leaves in `buf`.
variable {F : Type} (snprintf : F → Int × Str)

def printed (d : F) : Str :=
  let n := (snprintf d).1
  if n ≤ 0 then ascii "nan"
  else (snprintf d).2.take (if n.toNat < 32 then n.toNat else 31)

structure CellReads (F : Type) extends Cells where
  /-- `zu_value_type` -/
  type : Option Nat → Int32
  bool : Option Nat → Status × Int32
  f64 : Option Nat → Status × F
  /-- `zu_value_str`: where the text is, and `none` for a null pointer -/
  str : Option Nat → Status × Option Str
  bytes : Option Nat → Status × Option Str
  decimal : Option Nat → Status × Decimal
  temporal : Option Nat → Status × Temporal
  node : Option Nat → Status × Node
  rel : Option Nat → Status × Rel

namespace Value

variable (C : CellReads F) (self : Value)

def type : ValueType :=
  let t := C.type self.v
  if t < 0 then .null else .ofInt32 t

/-! The readers, each of which asks the engine for its own type. -/

def boolImpl : MemM (Outcome Bool) :=
  structuralImpl "zu_value_bool" (C.bool self.v).1 ((C.bool self.v).2 != 0)

def doubleImpl : MemM (Outcome F) :=
  structuralImpl "zu_value_f64" (C.f64 self.v).1 (C.f64 self.v).2

def stringImpl : MemM (Outcome Str) :=
  structuralImpl "zu_value_str" (C.str self.v).1 ((C.str self.v).2.getD [])

def bytesImpl : MemM (Outcome Str) :=
  structuralImpl "zu_value_bytes" (C.bytes self.v).1 ((C.bytes self.v).2.getD [])

def decimalImpl : MemM (Outcome Decimal) :=
  structuralImpl "zu_value_decimal" (C.decimal self.v).1 (C.decimal self.v).2

def temporalImpl : MemM (Outcome Temporal) :=
  structuralImpl "zu_value_temporal" (C.temporal self.v).1 (C.temporal self.v).2

def nodeImpl : MemM (Outcome Node) :=
  structuralImpl "zu_value_node" (C.node self.v).1 (C.node self.v).2

def relImpl : MemM (Outcome Rel) :=
  structuralImpl "zu_value_rel" (C.rel self.v).1 (C.rel self.v).2

def asBool : MemM (Except Exception Bool) := return unwrap (← self.boolImpl C)

def asDouble : MemM (Except Exception F) := return unwrap (← self.doubleImpl C)

def asString : MemM (Except Exception Str) := return unwrap (← self.stringImpl C)

def asBytes : MemM (Except Exception Str) := return unwrap (← self.bytesImpl C)

def asDecimal : MemM (Except Exception Decimal) := return unwrap (← self.decimalImpl C)

def asTemporal : MemM (Except Exception Temporal) := return unwrap (← self.temporalImpl C)

def asNode : MemM (Except Exception Node) := return unwrap (← self.nodeImpl C)

def asRel : MemM (Except Exception Rel) := return unwrap (← self.relImpl C)

def printAs {T : Type} (read : MemM (Except Exception T)) (text : T → Str) :
    MemM (Except Exception Str) :=
  return (← read).map text

def toString : MemM (Except Exception Str) :=
  match self.v with
  | none => return .ok (ascii "<none>")
  | some _ =>
    match self.type C with
    | .null => return .ok (ascii "null")
    | .boolean => printAs (self.asBool C) fun b => ascii (if b then "true" else "false")
    | .integer => printAs (self.asInt C.toCells) fun n => numberText n.toInt
    | .floating => printAs (self.asDouble C) (printed snprintf)
    | .string => printAs (self.asString C) id
    | .node => printAs (self.asNode C) Node.toString
    | .rel => printAs (self.asRel C) Rel.toString
    | .temporal => printAs (self.asTemporal C) Temporal.toString
    | .bytes => printAs (self.asBytes C) fun b => numberText b.length ++ ascii " bytes"
    | .decimal => printAs (self.asDecimal C) Decimal.toString
    | t => return .ok (t.toString ++ ascii " of " ++ numberText (self.size C.toCells).toNat)

end Value

/-! ### What a cell holds -/

/-- What a cell holds, as far as printing reads it: a shape is read for its type and its
size. -/
inductive Content (F : Type)
  | none
  | null
  | boolean (b : Bool)
  | integer (n : Int64)
  | floating (d : F)
  | string (s : Str)
  | node (n : Node)
  | rel (r : Rel)
  | temporal (t : Temporal)
  | bytes (b : Str)
  | decimal (d : Decimal)
  | shape (t : ValueType) (size : UInt64)

def Content.text : Content F → Str
  | .none => ascii "<none>"
  | .null => ascii "null"
  | .boolean b => ascii (if b then "true" else "false")
  | .integer n => numberText n.toInt
  | .floating d => printed snprintf d
  | .string s => s
  | .node n => n.toString
  | .rel r => r.toString
  | .temporal t => t.toString
  | .bytes b => numberText b.length ++ ascii " bytes"
  | .decimal d => d.toString
  | .shape t size => t.toString ++ ascii " of " ++ numberText size.toNat

/-- What the engine reads of the cell as a `t`. -/
def Value.contentAs (C : CellReads F) (self : Value) : ValueType → Content F
  | .null => .null
  | .boolean => .boolean ((C.bool self.v).2 != 0)
  | .integer => .integer (C.i64 self.v).2
  | .floating => .floating (C.f64 self.v).2
  | .string => .string ((C.str self.v).2.getD [])
  | .node => .node (C.node self.v).2
  | .rel => .rel (C.rel self.v).2
  | .temporal => .temporal (C.temporal self.v).2
  | .bytes => .bytes ((C.bytes self.v).2.getD [])
  | .decimal => .decimal (C.decimal self.v).2
  | t => .shape t (self.size C.toCells)

def Value.content (C : CellReads F) (self : Value) : Content F :=
  match self.v with
  | Option.none => .none
  | some _ => self.contentAs C (self.type C)

/-- The engine answers a cell that is read as what it says the cell is, and says nothing of
the null pointer. -/
structure CellReads.Answers (C : CellReads F) : Prop where
  null : C.type none < 0
  bool : ∀ v, Value.type C ⟨v⟩ = .boolean → (C.bool v).1 = .ok
  i64 : ∀ v, Value.type C ⟨v⟩ = .integer → (C.i64 v).1 = .ok
  f64 : ∀ v, Value.type C ⟨v⟩ = .floating → (C.f64 v).1 = .ok
  str : ∀ v, Value.type C ⟨v⟩ = .string → (C.str v).1 = .ok
  node : ∀ v, Value.type C ⟨v⟩ = .node → (C.node v).1 = .ok
  rel : ∀ v, Value.type C ⟨v⟩ = .rel → (C.rel v).1 = .ok
  temporal : ∀ v, Value.type C ⟨v⟩ = .temporal → (C.temporal v).1 = .ok
  bytes : ∀ v, Value.type C ⟨v⟩ = .bytes → (C.bytes v).1 = .ok
  decimal : ∀ v, Value.type C ⟨v⟩ = .decimal → (C.decimal v).1 = .ok

/-! ### Printing does not refuse -/

namespace Value

variable {snprintf} {C : CellReads F} {self : Value}

theorem type_of_negative (h : C.type self.v < 0) : self.type C = .null := if_pos h

theorem printAs_ok {T : Type} {read : MemM (Except Exception T)} {text : T → Str} {x : T} {m : Mem}
    (h : read m = (.ok x, m)) : printAs read text m = (.ok (text x), m) := by
  rw [printAs, bind_of_eq h]
  rfl

theorem read_ok {T : Type} {st : Status} {what : String} {x : T} (h : st = .ok) (m : Mem) :
    (structuralImpl what st x >>= fun o => pure (unwrap o)) m = (.ok x, m) := by
  rw [bind_of_eq (structuralImpl_of_ok h what x m)]
  rfl

/-- **Printing a cell does not refuse.**  Where the engine answers a cell that is read as what
it says the cell is, the text of what the cell holds is printed, and no error is made on the
way. -/
theorem toString_total (hC : C.Answers) (m : Mem) :
    self.toString snprintf C m = (.ok ((self.content C).text snprintf), m) := by
  obtain ⟨_ | v⟩ := self
  · rfl
  · rw [toString, content]
    dsimp only
    cases ht : type C ⟨some v⟩ with
    | boolean => exact printAs_ok (read_ok (hC.bool _ ht) m)
    | integer => exact printAs_ok (read_ok (hC.i64 _ ht) m)
    | floating => exact printAs_ok (read_ok (hC.f64 _ ht) m)
    | string => exact printAs_ok (read_ok (hC.str _ ht) m)
    | node => exact printAs_ok (read_ok (hC.node _ ht) m)
    | rel => exact printAs_ok (read_ok (hC.rel _ ht) m)
    | temporal => exact printAs_ok (read_ok (hC.temporal _ ht) m)
    | bytes => exact printAs_ok (read_ok (hC.bytes _ ht) m)
    | decimal => exact printAs_ok (read_ok (hC.decimal _ ht) m)
    | _ => rfl

end Value

end Cells

/-! ### What is read back from a text -/

theorem numberText_injective {n m : Int} (h : numberText n = numberText m) : n = m :=
  (decimalCode.fixed_injective h).1

theorem numberText_natCast (n : Nat) : numberText n = decimalCode.numeral n := by
  have hneg : ¬ (n : Int) < 0 := by omega
  rw [numberText, FixedCode.fixed, if_neg hneg, if_pos rfl, Int.natAbs_natCast]
  rfl

theorem not_mem_numberText {c : UInt8} (hdigit : decimalCode.dec c = none)
    (hminus : c ≠ decimalCode.minus) (n : Int) : c ∉ numberText n := by
  rw [numberText, FixedCode.fixed, if_pos rfl, List.mem_append, not_or]
  refine ⟨?_, fun hc => (decimalCode.numeral_isDigit _ c hc).dec_ne_none hdigit⟩
  split
  · rwa [List.mem_singleton]
  · exact List.not_mem_nil

theorem not_mem_natText {c : UInt8} (hdigit : decimalCode.dec c = none) (n : Nat) :
    c ∉ numberText n := by
  rw [numberText_natCast]
  exact fun hc => (decimalCode.numeral_isDigit _ c hc).dec_ne_none hdigit

theorem Node.toString_injective {n n' : Node} (h : n.toString = n'.toString) : n = n' := by
  rw [Node.toString, Node.toString] at h
  simp only [List.append_assoc] at h
  obtain ⟨htable, hoffset⟩ := eq_of_first (c := ':'.toUInt8)
    (not_mem_natText (by decide) n.table.toNat) (not_mem_natText (by decide) n'.table.toNat)
    (List.append_cancel_left h)
  have ht := UInt32.toNat_inj.mp (Int.ofNat.inj (numberText_injective htable))
  have ho := UInt64.toNat_inj.mp (Int.ofNat.inj (numberText_injective hoffset))
  cases n
  cases n'
  exact congrArg₂ Node.mk ht ho

theorem Rel.toString_injective {r r' : Rel} (h : r.toString = r'.toString) : r = r' := by
  rw [Rel.toString, Rel.toString] at h
  simp only [List.append_assoc] at h
  obtain ⟨htable, hrows⟩ := eq_of_first (c := ':'.toUInt8)
    (not_mem_natText (by decide) r.table.toNat) (not_mem_natText (by decide) r'.table.toNat)
    (List.append_cancel_left h)
  obtain ⟨hsrc, hdst⟩ := eq_of_first (c := '-'.toUInt8)
    (not_mem_natText (by decide) r.src.toNat) (not_mem_natText (by decide) r'.src.toNat) hrows
  have ht := UInt32.toNat_inj.mp (Int.ofNat.inj (numberText_injective htable))
  have hs := UInt64.toNat_inj.mp (Int.ofNat.inj (numberText_injective hsrc))
  have hd := UInt64.toNat_inj.mp (Int.ofNat.inj (numberText_injective (List.cons.inj hdst).2))
  obtain ⟨table, src, dst⟩ := r
  obtain ⟨table', src', dst'⟩ := r'
  rw [Rel.mk.injEq]
  exact ⟨ht, hs, hd⟩

theorem TemporalKind.toString_word (k : TemporalKind) : ' '.toUInt8 ∉ k.toString := by
  cases k <;> exact of_decide_eq_true rfl

theorem TemporalKind.toString_injective {k k' : TemporalKind} (hk : ∀ n, k ≠ .other n)
    (hk' : ∀ n, k' ≠ .other n) (h : k.toString = k'.toString) : k = k' := by
  cases k with
  | other n => exact absurd rfl (hk n)
  | _ =>
    cases k' with
    | other n => exact absurd rfl (hk' n)
    | _ => first | rfl | exact absurd h (by decide)

/-- What stands behind the count: nothing, or the offset with its sign. -/
def Temporal.zone (t : Temporal) : Str :=
  if t.offset ≠ 0 then
    ascii (if t.offset > 0 then " +" else " ") ++ numberText t.offset.toInt
  else []

theorem Temporal.toString_eq (t : Temporal) :
    t.toString = t.kind.toString ++ ' '.toUInt8 :: (numberText t.count.toInt ++ t.zone) := by
  rw [Temporal.toString, Temporal.zone]
  split
  · simp only [List.append_assoc]
    rfl
  · rw [List.append_nil, List.append_assoc]
    rfl

theorem Temporal.zone_cases (t : Temporal) :
    t.zone = [] ∧ t.offset.toInt = 0 ∨
      t.zone = ' '.toUInt8 :: '+'.toUInt8 :: numberText t.offset.toInt ∧ 0 < t.offset.toInt ∨
      t.zone = ' '.toUInt8 :: numberText t.offset.toInt ∧ t.offset.toInt < 0 := by
  have hzero : t.offset = 0 ↔ t.offset.toInt = 0 := by
    rw [← Int32.toInt_inj]
    rfl
  have hpos : t.offset > 0 ↔ 0 < t.offset.toInt := by
    rw [gt_iff_lt, Int32.lt_iff_toInt_lt]
    rfl
  rw [Temporal.zone]
  by_cases h0 : t.offset = 0
  · rw [if_neg (not_not.mpr h0)]
    exact Or.inl ⟨rfl, hzero.mp h0⟩
  · rw [if_pos h0]
    have hne : t.offset.toInt ≠ 0 := fun h => h0 (hzero.mpr h)
    by_cases hp : t.offset > 0
    · rw [if_pos hp]
      exact Or.inr (Or.inl ⟨rfl, hpos.mp hp⟩)
    · rw [if_neg hp]
      have hle : ¬ 0 < t.offset.toInt := fun h => hp (hpos.mpr h)
      exact Or.inr (Or.inr ⟨rfl, by omega⟩)

theorem Temporal.offset_of_zone {t t' : Temporal} (h : t.zone = t'.zone) :
    t.offset = t'.offset := by
  have hplus : ∀ n : Int, ∀ s, '+'.toUInt8 :: s ≠ numberText n := by
    intro n s hs
    exact not_mem_numberText (c := '+'.toUInt8) (by decide) (by decide) n (hs ▸ List.mem_cons_self)
  rw [← Int32.toInt_inj]
  rcases t.zone_cases with ⟨hz, hv⟩ | ⟨hz, hv⟩ | ⟨hz, hv⟩ <;>
    rcases t'.zone_cases with ⟨hz', hv'⟩ | ⟨hz', hv'⟩ | ⟨hz', hv'⟩ <;> rw [hz, hz'] at h
  · rw [hv, hv']
  · cases h
  · cases h
  · cases h
  · exact numberText_injective (List.cons.inj (List.cons.inj h).2).2
  · exact absurd (List.cons.inj h).2 (hplus _ _)
  · cases h
  · exact absurd (List.cons.inj h).2.symm (hplus _ _)
  · exact numberText_injective (List.cons.inj h).2

theorem Temporal.toString_injective {t t' : Temporal} (hk : ∀ n, t.kind ≠ .other n)
    (hk' : ∀ n, t'.kind ≠ .other n) (h : t.toString = t'.toString) : t = t' := by
  rw [t.toString_eq, t'.toString_eq] at h
  obtain ⟨hkind, hrest⟩ := eq_of_first t.kind.toString_word t'.kind.toString_word h
  have hspace : ∀ n : Int, ' '.toUInt8 ∉ numberText n :=
    not_mem_numberText (by decide) (by decide)
  -- with a space behind both, the count ends at the first space
  have hend : ∀ u : Temporal, ∃ b, u.zone ++ [' '.toUInt8] = ' '.toUInt8 :: b := by
    intro u
    rcases u.zone_cases with ⟨hz, -⟩ | ⟨hz, -⟩ | ⟨hz, -⟩ <;> rw [hz]
    · exact ⟨_, rfl⟩
    · exact ⟨_, rfl⟩
    · exact ⟨_, rfl⟩
  obtain ⟨b, hb⟩ := hend t
  obtain ⟨b', hb'⟩ := hend t'
  have hspaced := congrArg (· ++ [' '.toUInt8]) hrest
  simp only [List.append_assoc] at hspaced
  rw [hb, hb'] at hspaced
  obtain ⟨hcount, hzone⟩ := eq_of_first (hspace _) (hspace _) hspaced
  have hzones : t.zone = t'.zone := by
    have h : t.zone ++ [' '.toUInt8] = t'.zone ++ [' '.toUInt8] := by rw [hb, hb', hzone]
    exact List.append_cancel_right h
  obtain ⟨kind, count, offset⟩ := t
  obtain ⟨kind', count', offset'⟩ := t'
  rw [Temporal.mk.injEq]
  exact ⟨TemporalKind.toString_injective hk hk' hkind,
    Int64.toInt_inj.mp (numberText_injective hcount), Temporal.offset_of_zone hzones⟩

theorem Decimal.toString_inj {d d' : Decimal} (h : 0 ≤ d.scale) (h' : 0 ≤ d'.scale)
    (heq : d.toString = d'.toString) : d = d' := by
  rw [Decimal.toString_eq_fixed h, Decimal.toString_eq_fixed h'] at heq
  obtain ⟨hval, hplaces⟩ := decimalCode.fixed_injective heq
  rw [← Decimal.ofUnits_val h, ← Decimal.ofUnits_val h', hval, hplaces]

/-! ### Cells of one type -/

section Alike

variable {F : Type} {snprintf : F → Int × Str}

/-- The type a cell is printed as, and `none` for one that is no cell. -/
def Content.type : Content F → Option ValueType
  | .none => Option.none
  | .null => some .null
  | .boolean _ => some .boolean
  | .integer _ => some .integer
  | .floating _ => some .floating
  | .string _ => some .string
  | .node _ => some .node
  | .rel _ => some .rel
  | .temporal _ => some .temporal
  | .bytes _ => some .bytes
  | .decimal _ => some .decimal
  | .shape t _ => some t

def ValueType.IsShape : ValueType → Prop
  | .list | .path | .record | .graph | .bindingTable | .other _ => True
  | _ => False

/-- The header has a name for what is in it, a decimal has no negative scale, and only a shape
is read for its size. -/
def Content.Known : Content F → Prop
  | .temporal t => ∀ n, t.kind ≠ .other n
  | .decimal d => 0 ≤ d.scale
  | .shape t _ => t.IsShape
  | _ => True

/-- The two hold the same, as far as it is printed: octets by their number, and a double by
the digits that `snprintf` gives it. -/
def Alike (snprintf : F → Int × Str) : Content F → Content F → Prop
  | .floating d, .floating d' => printed snprintf d = printed snprintf d'
  | .bytes b, .bytes b' => b.length = b'.length
  | c, c' => c = c'

theorem Alike.text_eq {c c' : Content F} (h : Alike snprintf c c') :
    c.text snprintf = c'.text snprintf := by
  cases c with
  | floating d =>
    cases c' with
    | floating d' => exact h
    | _ => exact absurd h nofun
  | bytes b =>
    cases c' with
    | bytes b' =>
      rw [Content.text, Content.text, show b.length = b'.length from h]
    | _ => exact absurd h nofun
  | _ => exact congrArg (Content.text snprintf) h

theorem alike_of_text_eq {c c' : Content F} (htype : c.type = c'.type) (hc : c.Known)
    (hc' : c'.Known) (h : c.text snprintf = c'.text snprintf) : Alike snprintf c c' := by
  cases c with
  | none =>
    cases c' with
    | none => rfl
    | _ => cases htype
  | null =>
    cases c' with
    | null => rfl
    | shape t n => cases htype; exact hc'.elim
    | _ => cases htype
  | boolean b =>
    cases c' with
    | boolean b' =>
      have hne : ascii "true" ≠ ascii "false" := by decide
      have hb : b = b' := by
        cases b <;> cases b' <;> first | rfl | exact absurd h hne | exact absurd h.symm hne
      exact congrArg Content.boolean hb
    | shape t n => cases htype; exact hc'.elim
    | _ => cases htype
  | integer n =>
    cases c' with
    | integer n' => exact congrArg Content.integer (Int64.toInt_inj.mp (numberText_injective h))
    | shape t n => cases htype; exact hc'.elim
    | _ => cases htype
  | floating d =>
    cases c' with
    | floating d' => exact h
    | shape t n => cases htype; exact hc'.elim
    | _ => cases htype
  | string s =>
    cases c' with
    | string s' => exact congrArg Content.string h
    | shape t n => cases htype; exact hc'.elim
    | _ => cases htype
  | node n =>
    cases c' with
    | node n' => exact congrArg Content.node (Node.toString_injective h)
    | shape t n => cases htype; exact hc'.elim
    | _ => cases htype
  | rel r =>
    cases c' with
    | rel r' => exact congrArg Content.rel (Rel.toString_injective h)
    | shape t n => cases htype; exact hc'.elim
    | _ => cases htype
  | temporal t =>
    cases c' with
    | temporal t' => exact congrArg Content.temporal (Temporal.toString_injective hc hc' h)
    | shape t n => cases htype; exact hc'.elim
    | _ => cases htype
  | bytes b =>
    cases c' with
    | bytes b' => exact Int.ofNat.inj (numberText_injective (List.append_cancel_right h))
    | shape t n => cases htype; exact hc'.elim
    | _ => cases htype
  | decimal d =>
    cases c' with
    | decimal d' => exact congrArg Content.decimal (Decimal.toString_inj hc hc' h)
    | shape t n => cases htype; exact hc'.elim
    | _ => cases htype
  | shape t n =>
    cases c' with
    | shape t' n' =>
      obtain rfl : t = t' := Option.some.inj htype
      have hsize := numberText_injective (List.append_cancel_left h)
      exact congrArg (Content.shape t) (UInt64.toNat_inj.mp (Int.ofNat.inj hsize))
    | none => cases htype
    | _ => cases htype; exact hc.elim

namespace Value

variable {C : CellReads F}

theorem content_type {self : Value} (h : self.v ≠ Option.none) :
    (self.content C).type = some (self.type C) := by
  obtain ⟨_ | v⟩ := self
  · exact absurd rfl h
  · rw [content]
    dsimp only
    cases type C ⟨some v⟩ <;> rfl

theorem content_known {self : Value}
    (hkind : self.type C = .temporal → ∀ n, (C.temporal self.v).2.kind ≠ .other n)
    (hscale : self.type C = .decimal → 0 ≤ (C.decimal self.v).2.scale) :
    (self.content C).Known := by
  obtain ⟨_ | v⟩ := self
  · trivial
  · rw [content]
    dsimp only
    cases ht : type C ⟨some v⟩ with
    | temporal => exact hkind ht
    | decimal => exact hscale ht
    | _ => trivial

/-- **Two cells of one type print alike only if they are alike.**  The text of a truth value, a
number, a text, a node, an edge, a time or a decimal is that of no other of the type, and the
text of a list, a path, a record and the like tells how much there is in it. -/
theorem print_alike_iff (hC : C.Answers) {a b : Value} (htype : a.type C = b.type C)
    (hkind : ∀ c ∈ [a, b], c.type C = .temporal → ∀ n, (C.temporal c.v).2.kind ≠ .other n)
    (hscale : ∀ c ∈ [a, b], c.type C = .decimal → 0 ≤ (C.decimal c.v).2.scale) (m m' : Mem) :
    (a.toString snprintf C m).1 = (b.toString snprintf C m').1 ↔
      Alike snprintf (a.content C) (b.content C) := by
  rw [toString_total hC, toString_total hC]
  dsimp only
  rw [Except.ok.injEq]
  refine ⟨fun h => ?_, Alike.text_eq⟩
  have ha : (a.content C).Known :=
    content_known (hkind a List.mem_cons_self) (hscale a List.mem_cons_self)
  have hb : (b.content C).Known := by
    have hmem : b ∈ [a, b] := List.mem_cons_of_mem a (List.mem_singleton_self b)
    exact content_known (hkind b hmem) (hscale b hmem)
  -- a value that is no cell is of the type of a null, and is not printed as one
  have hnone : ∀ c : Value, c.v = Option.none → c.content C = .none ∧ c.type C = .null := by
    rintro ⟨_ | v⟩ hv
    · exact ⟨rfl, type_of_negative hC.null⟩
    · cases hv
  have hnull : ∀ c : Value, c.v ≠ Option.none → c.type C = .null → c.content C = .null := by
    rintro ⟨_ | v⟩ hv ht
    · exact absurd rfl hv
    · rw [content]
      dsimp only
      rw [ht]
      rfl
  have hne : ascii "<none>" ≠ ascii "null" := by decide
  by_cases hav : a.v = Option.none
  · obtain ⟨hac, hat⟩ := hnone a hav
    by_cases hbv : b.v = Option.none
    · rw [hac, (hnone b hbv).1]
      rfl
    · rw [hac, hnull b hbv (htype ▸ hat)] at h
      exact absurd h hne
  · by_cases hbv : b.v = Option.none
    · obtain ⟨hbc, hbt⟩ := hnone b hbv
      rw [hbc, hnull a hav (htype.trans hbt)] at h
      exact absurd h.symm hne
    · refine alike_of_text_eq ?_ ha hb h
      rw [content_type hav, content_type hbv, htype]

def twoTimes : CellReads Unit where
  rows _ := 0
  cell _ _ _ := (.misuse, none)
  i64 _ := (.misuse, 0)
  len _ := 0
  valueAt _ _ := (.misuse, none)
  type v := if v = none then -1 else 9
  bool _ := (.misuse, 0)
  f64 _ := (.misuse, ())
  str _ := (.misuse, none)
  bytes _ := (.misuse, none)
  decimal _ := (.misuse, {})
  temporal v := (.ok, ⟨.zonedTime, 5, if v = some 0 then 60 else -60⟩)
  node _ := (.misuse, {})
  rel _ := (.misuse, {})

theorem twoTimes_answers : twoTimes.Answers := by
  have hno : ∀ t, t ≠ .temporal → t ≠ .null → ∀ v, type twoTimes ⟨v⟩ ≠ t := by
    rintro t ht hnull (_ | v) h
    · exact hnull h.symm
    · exact ht h.symm
  exact {
    null := by decide
    bool := fun v h => absurd h (hno _ (by decide) (by decide) v)
    i64 := fun v h => absurd h (hno _ (by decide) (by decide) v)
    f64 := fun v h => absurd h (hno _ (by decide) (by decide) v)
    str := fun v h => absurd h (hno _ (by decide) (by decide) v)
    node := fun v h => absurd h (hno _ (by decide) (by decide) v)
    rel := fun v h => absurd h (hno _ (by decide) (by decide) v)
    temporal := fun _ _ => rfl
    bytes := fun v h => absurd h (hno _ (by decide) (by decide) v)
    decimal := fun v h => absurd h (hno _ (by decide) (by decide) v) }

theorem toString_total_twoTimes : toString (fun _ => (0, [])) twoTimes ⟨some 0⟩ {}
    = (.ok (ascii "zoned_time 5 +60"), {}) := by
  rw [toString_total twoTimes_answers]
  rfl

theorem print_alike_iff_twoTimes : (toString (fun _ => (0, [])) twoTimes ⟨some 0⟩ {}).1
    ≠ (toString (fun _ => (0, [])) twoTimes ⟨some 1⟩ {}).1 := by
  have htype : type twoTimes ⟨some 0⟩ = type twoTimes ⟨some 1⟩ := rfl
  have hscale : ∀ c ∈ [(⟨some 0⟩ : Value), ⟨some 1⟩], c.type twoTimes = .decimal →
      0 ≤ (twoTimes.decimal c.v).2.scale := fun _ _ _ => Int32.le_refl 0
  intro h
  have halike := (print_alike_iff twoTimes_answers htype (fun _ _ _ _ => nofun) hscale {} {}).mp h
  exact absurd (Content.temporal.inj halike) (by decide)

end Value

end Alike

end ZuCpp
