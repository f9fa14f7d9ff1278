import ZuCpp.Printing

/-!
# `Row::get<T>`

A cell is read as the type that is asked for.  The branches ask the engine in different ways,
a text through the result and the others through the cell, and an optional asks what the cell
is first.

**A cell is read as what it holds, or refused** (`get_right`): what `get` answers is what the
cell holds as a `T`, and where that is nothing it throws a `ProgrammingError`.  The unsigned
types of 64 bits are left out, since they refuse every integer (`get_integral_right_iff`).
-/

namespace ZuCpp

variable {F : Type}

inductive ReadType (F : Type)
  /-- `std::optional<T>` -/
  | optional (T : ReadType F)
  | value
  | stringView | string
  /-- `std::span<const std::uint8_t>`, and the vector of the same -/
  | span | vector
  | boolean | decimal | temporal | node | rel
  /-- a floating-point type, with what a `double` is cast to -/
  | floating (cast : F → F)
  | integral (T : IntegralType)

def ReadType.Carrier : ReadType F → Type
  | .optional T => Option T.Carrier
  | .value => Value
  | .stringView | .string | .span | .vector => Str
  | .boolean => Bool
  | .decimal => Decimal
  | .temporal => Temporal
  | .node => Node
  | .rel => Rel
  | .floating _ => F
  | .integral _ => Int

structure RowReads (F : Type) extends CellReads F where
  /-- `zu_result_cell_type` -/
  cellType : Option EngineResult → UInt64 → UInt32 → Status × Int32
  /-- `zu_result_cell_str`: where the text is, and `none` for a null pointer -/
  cellStr : Option EngineResult → UInt64 → UInt32 → Status × Option Str

namespace Result

variable (C : RowReads F) (self : Result) (row : UInt64) (col : UInt32)

/-- `Result::type_impl`, which does not ask whether the number is negative. -/
def typeImpl : MemM (Outcome ValueType) :=
  structuralImpl "zu_result_cell_type" (C.cellType self.h.p row col).1
    (.ofInt32 (C.cellType self.h.p row col).2)

def strImpl : MemM (Outcome Str) :=
  structuralImpl "zu_result_cell_str" (C.cellStr self.h.p row col).1
    ((C.cellStr self.h.p row col).2.getD [])

def type : MemM (Except Exception ValueType) := return unwrap (← self.typeImpl C row col)

def str : MemM (Except Exception Str) := return unwrap (← self.strImpl C row col)

def cellAs {α : Type} (read : Value → MemM (Except Exception α)) : MemM (Except Exception α) := do
  match ← self.cell C.toCells row col with
  | .error x => return .error x
  | .ok cell => read cell

def get : (T : ReadType F) → MemM (Except Exception T.Carrier)
  | .optional T => do
    match ← self.type C row col with
    | .error x => return .error x
    | .ok type =>
      if type = .null then return .ok none
      else return (← get T).map some
  | .value => self.cell C.toCells row col
  | .stringView => self.str C row col
  | .string => self.str C row col
  | .span => self.cellAs C row col (Value.asBytes C.toCellReads)
  | .vector => self.cellAs C row col (Value.asBytes C.toCellReads)
  | .boolean => self.cellAs C row col (Value.asBool C.toCellReads)
  | .decimal => self.cellAs C row col (Value.asDecimal C.toCellReads)
  | .temporal => self.cellAs C row col (Value.asTemporal C.toCellReads)
  | .node => self.cellAs C row col (Value.asNode C.toCellReads)
  | .rel => self.cellAs C row col (Value.asRel C.toCellReads)
  | .floating cast => do
    return (← self.cellAs C row col (Value.asDouble C.toCellReads)).map cast
  | .integral T => self.getIntegral C.toCells T row col

end Result

/-- `Row::get<T>(col)`.  On a row of no result it follows a null pointer. -/
def Row.get (C : RowReads F) (T : ReadType F) (self : Row) (col : UInt32) :
    Option (MemM (Except Exception T.Carrier)) :=
  self.result.map fun r => r.get C self.row col T

/-! ### What a cell is as a `T` -/

/-- What the cell `cell` with the content `c` is as a `T`, if it is one. -/
def ReadType.of (cell : Value) : (T : ReadType F) → Content F → Option T.Carrier
  | .optional _, .none => some none
  | .optional _, .null => some none
  | .optional T, c => (T.of cell c).map some
  | .value, _ => some cell
  | .stringView, .string s => some s
  | .string, .string s => some s
  | .span, .bytes b => some b
  | .vector, .bytes b => some b
  | .boolean, .boolean b => some b
  | .decimal, .decimal d => some d
  | .temporal, .temporal t => some t
  | .node, .node n => some n
  | .rel, .rel r => some r
  | .floating cast, .floating d => some (cast d)
  | .integral T, .integer n => if T.Holds n.toInt then some n.toInt else none
  | _, _ => none

/-- It is not an unsigned type of 64 bits, nor an optional of one. -/
def ReadType.Narrow : ReadType F → Prop
  | .optional T => T.Narrow
  | .integral T => ¬ (T.signed = false ∧ T.bits = 64)
  | _ => True

/-- `x` is answered, and where there is none a `ProgrammingError` for misuse is thrown. -/
def Gives {α : Type} (o : Except Exception α) : Option α → Prop
  | some x => o = .ok x
  | none => ∃ x, o = .error x ∧ x.cls = .programmingError ∧ x.error.status = .misuse

abbrev RowReads.typeOf (C : RowReads F) (v : Option Nat) : ValueType :=
  Value.type C.toCellReads ⟨v⟩

/-- The engine reads a cell as the type it is and refuses to read it as another, whether it is
asked by the cell or by its row and column. -/
structure RowReads.Exact (C : RowReads F) : Prop where
  null : C.type none < 0
  bool : ∀ v, (C.bool v).1 = if C.typeOf v = .boolean then .ok else .misuse
  i64 : ∀ v, (C.i64 v).1 = if C.typeOf v = .integer then .ok else .misuse
  f64 : ∀ v, (C.f64 v).1 = if C.typeOf v = .floating then .ok else .misuse
  node : ∀ v, (C.node v).1 = if C.typeOf v = .node then .ok else .misuse
  rel : ∀ v, (C.rel v).1 = if C.typeOf v = .rel then .ok else .misuse
  temporal : ∀ v, (C.temporal v).1 = if C.typeOf v = .temporal then .ok else .misuse
  bytes : ∀ v, (C.bytes v).1 = if C.typeOf v = .bytes then .ok else .misuse
  decimal : ∀ v, (C.decimal v).1 = if C.typeOf v = .decimal then .ok else .misuse
  cellType : ∀ r row col v, C.cell r row col = (.ok, v) →
    (C.cellType r row col).1 = .ok ∧ .ofInt32 (C.cellType r row col).2 = C.typeOf v
  cellStr : ∀ r row col v, C.cell r row col = (.ok, v) →
    C.cellStr r row col = (if C.typeOf v = .string then .ok else .misuse, (C.str v).2)

theorem Gives.map {α β : Type} {o : Except Exception α} {x : Option α} (h : Gives o x)
    (f : α → β) : Gives (o.map f) (x.map f) := by
  cases x with
  | none =>
    obtain ⟨e, rfl, he⟩ := h
    exact ⟨e, rfl, he⟩
  | some x =>
    cases h
    rfl

/-! ### The branches -/

namespace Result

variable {C : RowReads F} {r : Result} {row : UInt64} {col : UInt32} {v : Option Nat}

theorem structuralImpl_misuse {T : Type} (what : String) (value : T) (m : Mem) :
    structuralImpl what .misuse value m = (.error (.ofStatus .misuse (ascii what)), m) := rfl

theorem raise_misuse (what : Str) :
    (raise (.ofStatus .misuse what)).cls = .programmingError ∧
      (raise (.ofStatus .misuse what)).error.status = .misuse := ⟨rfl, rfl⟩

theorem structuralImpl_gives {α : Type} {st : Status} {P : Prop} [Decidable P] {x : α}
    {o : Option α} (hst : st = if P then .ok else .misuse) (ho : o = if P then some x else none)
    (what : String) (m : Mem) :
    ∃ a, (structuralImpl what st x >>= fun o => pure (unwrap o)) m = (a, m) ∧ Gives a o := by
  by_cases h : P
  · rw [if_pos h] at hst ho
    subst hst ho
    refine ⟨.ok x, ?_, rfl⟩
    rw [bind_of_eq (structuralImpl_of_ok rfl what x m)]
    rfl
  · rw [if_neg h] at hst ho
    subst hst ho
    refine ⟨_, ?_, _, rfl, raise_misuse (ascii what)⟩
    rw [bind_of_eq (structuralImpl_misuse what x m)]
    rfl

theorem cell_ok (hcell : C.cell r.h.p row col = (.ok, v)) (m : Mem) :
    r.cell C.toCells row col m = (.ok ⟨v⟩, m) := by
  have hok : (C.cell r.h.p row col).1 = .ok := by rw [hcell]
  rw [cell, cellImpl, bind_of_eq (structuralImpl_of_ok hok _ _ m), hcell]
  rfl

theorem cellAs_ok {α : Type} (hcell : C.cell r.h.p row col = (.ok, v))
    (read : Value → MemM (Except Exception α)) (m : Mem) :
    r.cellAs C row col read m = read ⟨v⟩ m := by
  rw [cellAs, bind_of_eq (cell_ok hcell m)]

theorem cellAs_gives {α : Type} (hcell : C.cell r.h.p row col = (.ok, v))
    {st : Option Nat → Status} {x : Value → α} {t : ValueType} {o : Option α}
    (hcall : ∀ v, st v = if C.typeOf v = t then .ok else .misuse)
    (ho : o = if C.typeOf v = t then some (x ⟨v⟩) else none) (what : String) (m : Mem) :
    ∃ a, r.cellAs C row col
        (fun cell => structuralImpl what (st cell.v) (x cell) >>= fun o => pure (unwrap o)) m
          = (a, m) ∧ Gives a o := by
  rw [cellAs_ok hcell]
  exact structuralImpl_gives (hcall v) ho _ m

theorem str_gives (hC : C.Exact) (hcell : C.cell r.h.p row col = (.ok, v)) {o : Option Str}
    (ho : o = if C.typeOf v = .string then some ((C.str v).2.getD []) else none) (m : Mem) :
    ∃ a, r.str C row col m = (a, m) ∧ Gives a o := by
  rw [str, strImpl, hC.cellStr _ _ _ _ hcell]
  exact structuralImpl_gives rfl ho _ m

theorem type_ok (hC : C.Exact) (hcell : C.cell r.h.p row col = (.ok, v)) (m : Mem) :
    r.type C row col m = (.ok (C.typeOf v), m) := by
  obtain ⟨hok, htype⟩ := hC.cellType _ _ _ _ hcell
  rw [type, typeImpl, bind_of_eq (structuralImpl_of_ok hok _ _ m), htype]
  rfl

end Result

namespace ReadType

variable {C : RowReads F} {v : Option Nat}

def type? : ReadType F → Option ValueType
  | .stringView | .string => some .string
  | .span | .vector => some .bytes
  | .boolean => some .boolean
  | .decimal => some .decimal
  | .temporal => some .temporal
  | .node => some .node
  | .rel => some .rel
  | .floating _ => some .floating
  | .integral _ => some .integer
  | .optional _ | .value => none

theorem of_eq_none {T : ReadType F} {t : ValueType} {c : Content F} (hT : T.type? = some t)
    (h : c.type ≠ some t) (cell : Value) : T.of cell c = none := by
  cases T with
  | optional T => cases hT
  | value => cases hT
  | _ => cases hT; cases c <;> first | rfl | exact absurd rfl h

theorem type?_ne_null {T : ReadType F} {t : ValueType} (hT : T.type? = some t) : t ≠ .null := by
  rintro rfl
  cases T <;> cases hT

theorem of_content (hC : C.Exact) {T : ReadType F} {t : ValueType} (hT : T.type? = some t)
    (cell : Value) :
    T.of cell (Value.content C.toCellReads ⟨v⟩)
      = if C.typeOf v = t then T.of cell (Value.contentAs C.toCellReads ⟨v⟩ t) else none := by
  cases v with
  | none =>
    have hnull : C.typeOf none = .null := Value.type_of_negative hC.null
    rw [if_neg (fun h => type?_ne_null hT (h.symm.trans hnull))]
    exact of_eq_none hT (Option.some_ne_none t ∘ Eq.symm) cell
  | some w =>
    split
    · rename_i h
      show T.of cell (Value.contentAs C.toCellReads ⟨some w⟩ (C.typeOf (some w))) = _
      rw [h]
    · rename_i h
      refine of_eq_none hT (fun ht => h ?_) cell
      rw [Value.content_type (Option.some_ne_none w), Option.some.injEq] at ht
      exact ht

theorem of_optional (hC : C.Exact) (cell : Value) (T : ReadType F) :
    (ReadType.optional T).of cell (Value.content C.toCellReads ⟨v⟩)
      = if C.typeOf v = .null then some none
        else (T.of cell (Value.content C.toCellReads ⟨v⟩)).map some := by
  cases v with
  | none => rw [if_pos (Value.type_of_negative hC.null)]; rfl
  | some w =>
    show _ = if Value.type C.toCellReads ⟨some w⟩ = .null then _ else _
    rw [Value.content]
    dsimp only
    cases Value.type C.toCellReads ⟨some w⟩ <;> rfl

end ReadType

/-! ### The whole -/

namespace Result

variable {C : RowReads F} {r : Result} {row : UInt64} {col : UInt32} {v : Option Nat}

/-- An integer that the type does not hold is refused by the read itself, and what is no integer
by the engine. -/
theorem getIntegral_gives (hC : C.Exact) (hcell : C.cell r.h.p row col = (.ok, v))
    {T : IntegralType} (hT : ¬ (T.signed = false ∧ T.bits = 64)) (m : Mem) :
    ∃ o, r.getIntegral C.toCells T row col m = (o, m) ∧
      Gives o ((ReadType.integral T).of ⟨v⟩ (Value.content C.toCellReads ⟨v⟩)) := by
  have hi64 := hC.i64 v
  rw [ReadType.of_content hC (T := .integral T) rfl]
  by_cases hv : C.typeOf v = .integer
  · rw [if_pos hv] at hi64 ⊢
    have hholds : Row.HoldsInt C.toCells ⟨some r, row⟩ col (C.i64 v).2 :=
      ⟨r, v, rfl, hcell, Prod.ext hi64 rfl⟩
    obtain ⟨read, hread, hrun⟩ := Row.getIntegral_eq hholds T
    cases hread
    refine ⟨_, hrun m, ?_⟩
    rw [Row.answer_of_fits hT, Value.contentAs, ReadType.of]
    split
    · rfl
    · exact ⟨_, rfl, rfl, rfl⟩
  · rw [if_neg hv] at hi64 ⊢
    have hasInt : Value.asInt C.toCells ⟨v⟩ m
        = (.error (raise (.ofStatus .misuse (ascii "zu_value_i64"))), m) := by
      rw [Value.asInt, Value.intImpl, hi64, bind_of_eq (structuralImpl_misuse _ _ m)]
      rfl
    refine ⟨_, ?_, _, rfl, raise_misuse (ascii "zu_value_i64")⟩
    rw [getIntegral, bind_of_eq (cell_ok hcell m)]
    dsimp only
    rw [bind_of_eq hasInt]
    rfl

theorem get_gives (hC : C.Exact) (hcell : C.cell r.h.p row col = (.ok, v)) {T : ReadType F}
    (hT : T.Narrow) (m : Mem) :
    ∃ o, r.get C row col T m = (o, m) ∧
      Gives o (T.of ⟨v⟩ (Value.content C.toCellReads ⟨v⟩)) := by
  induction T with
  | optional T ih =>
    obtain ⟨o, ho, hgives⟩ := ih hT
    rw [get, bind_of_eq (type_ok hC hcell m), ReadType.of_optional hC]
    dsimp only
    split
    · exact ⟨_, rfl, rfl⟩
    · rw [bind_of_eq ho]
      exact ⟨_, rfl, hgives.map some⟩
  | value => exact ⟨_, cell_ok hcell m, rfl⟩
  | stringView => exact str_gives hC hcell (ReadType.of_content hC rfl _) m
  | string => exact str_gives hC hcell (ReadType.of_content hC rfl _) m
  | span => exact cellAs_gives hcell hC.bytes (ReadType.of_content hC rfl _) _ m
  | vector => exact cellAs_gives hcell hC.bytes (ReadType.of_content hC rfl _) _ m
  | boolean => exact cellAs_gives hcell hC.bool (ReadType.of_content hC rfl _) _ m
  | decimal => exact cellAs_gives hcell hC.decimal (ReadType.of_content hC rfl _) _ m
  | temporal => exact cellAs_gives hcell hC.temporal (ReadType.of_content hC rfl _) _ m
  | node => exact cellAs_gives hcell hC.node (ReadType.of_content hC rfl _) _ m
  | rel => exact cellAs_gives hcell hC.rel (ReadType.of_content hC rfl _) _ m
  | floating cast =>
    have ho := ReadType.of_content (v := v) hC (T := .floating id) rfl ⟨v⟩
    obtain ⟨a, ha, hgives⟩ := cellAs_gives (x := fun cell => (C.f64 cell.v).2) hcell hC.f64 ho _ m
    refine ⟨a.map cast, bind_of_eq ha _, ?_⟩
    have hof : (ReadType.floating cast).of ⟨v⟩ (Value.content C.toCellReads ⟨v⟩)
        = ((ReadType.floating id).of ⟨v⟩ (Value.content C.toCellReads ⟨v⟩)).map cast := by
      cases Value.content C.toCellReads ⟨v⟩ <;> rfl
    rw [hof]
    exact hgives.map cast
  | integral T => exact getIntegral_gives hC hcell hT m

end Result

namespace Row

/-- **A cell is read as what it holds, or refused.**  Of a row of a result, and a column that
has a cell there, `get<T>` answers what the cell holds as a `T`, and throws a `ProgrammingError`
where that is nothing; and it leaves no error behind. -/
theorem get_right {C : RowReads F} (hC : C.Exact) {self : Row} {r : Result}
    (hr : self.result = some r) {col : UInt32} {v : Option Nat}
    (hcell : C.cell r.h.p self.row col = (.ok, v)) {T : ReadType F} (hT : T.Narrow) :
    ∃ read, self.get C T col = some read ∧ ∀ m, ∃ o, read m = (o, m) ∧
      Gives o (T.of ⟨v⟩ (Value.content C.toCellReads ⟨v⟩)) := by
  refine ⟨r.get C self.row col T, ?_, Result.get_gives hC hcell hT⟩
  rw [get, hr]
  rfl

def sevenThenNull : RowReads Unit where
  rows _ := 2
  cell _ row _ := (.ok, some row.toNat)
  i64 v := (if v = some 0 then .ok else .misuse, 7)
  len _ := 0
  valueAt _ _ := (.misuse, none)
  type v := if v = none then -1 else if v = some 0 then 2 else 0
  bool _ := (.misuse, 0)
  f64 _ := (.misuse, ())
  str _ := (.misuse, none)
  bytes _ := (.misuse, none)
  decimal _ := (.misuse, {})
  temporal _ := (.misuse, {})
  node _ := (.misuse, {})
  rel _ := (.misuse, {})
  cellType _ row _ := (.ok, if row.toNat = 0 then 2 else 0)
  cellStr _ _ _ := (.misuse, none)

theorem sevenThenNull_type (v : Option Nat) :
    sevenThenNull.typeOf v = if v = some 0 then .integer else .null := by
  rcases v with _ | _ | v
  · rfl
  · rfl
  · rw [if_neg (by simp)]
    rfl

theorem sevenThenNull_exact : sevenThenNull.Exact := by
  have hno : ∀ t, t ≠ .integer → t ≠ .null → ∀ v,
      Status.misuse = if sevenThenNull.typeOf v = t then .ok else .misuse := by
    intro t hint hnull v
    rw [sevenThenNull_type, if_neg]
    split
    · exact hint.symm
    · exact hnull.symm
  exact {
    null := by decide
    bool := hno _ (by decide) (by decide)
    i64 := fun v => by
      rw [sevenThenNull_type]
      show (if v = some 0 then Status.ok else .misuse) = _
      by_cases hv : v = some 0
      · rw [if_pos hv, if_pos hv, if_pos rfl]
      · rw [if_neg hv, if_neg hv, if_neg nofun]
    f64 := hno _ (by decide) (by decide)
    node := hno _ (by decide) (by decide)
    rel := hno _ (by decide) (by decide)
    temporal := hno _ (by decide) (by decide)
    bytes := hno _ (by decide) (by decide)
    decimal := hno _ (by decide) (by decide)
    cellType := fun r row col v hcell => by
      cases hcell
      refine ⟨rfl, ?_⟩
      rw [sevenThenNull_type]
      show ValueType.ofInt32 (if row.toNat = 0 then 2 else 0) = _
      by_cases hrow : row.toNat = 0
      · rw [if_pos hrow, if_pos (congrArg some hrow)]
        rfl
      · rw [if_neg hrow, if_neg (fun h => hrow (Option.some.inj h))]
        rfl
    cellStr := fun r row col v hcell => by
      cases hcell
      exact Prod.ext (hno _ (by decide) (by decide) _) rfl }

theorem get_right_sevenThenNull :
    ∃ read, get sevenThenNull (.optional (.integral .int16)) ⟨some {}, 1⟩ 0 = some read ∧
      ∀ m, ∃ o, read m = (o, m) ∧ o = .ok none :=
  get_right sevenThenNull_exact (T := .optional (.integral .int16)) rfl rfl (fun h => by cases h.1)

end Row

end ZuCpp
