import ZuCpp.Result

/-!
# `Value` and `Row`: one cell of a result

A `Row` is a result and a row number, and a `Value` is a cell of it.  Both borrow: what
they answer is what the engine answers (`Cells`), read through `detail::checked`, and what
is here of them is what the reading of an integer and the walk over a range go through.

`Row::get<T>` on an integral type compares the integer with the limits of `T`, after both
limits were cast to `std::int64_t`.  `get_integral_right_iff` says for which types and
integers that is the comparison with the limits.
-/

namespace ZuCpp

structure Value where
  v : Option Nat := none
  deriving DecidableEq, Repr

structure Cells where
  /-- `zu_result_rows` -/
  rows : Option EngineResult → UInt64
  /-- `zu_result_cell`: the status, and the cell it wrote -/
  cell : Option EngineResult → UInt64 → UInt32 → Status × Option Nat
  /-- `zu_value_i64`: the status, and the integer it wrote -/
  i64 : Option Nat → Status × Int64
  /-- `zu_value_len` -/
  len : Option Nat → UInt64
  /-- `zu_value_at`: the status, and the cell it wrote -/
  valueAt : Option Nat → UInt64 → Status × Option Nat

namespace Value

def intImpl (C : Cells) (self : Value) : MemM (Outcome Int64) :=
  structuralImpl "zu_value_i64" (C.i64 self.v).1 (C.i64 self.v).2

def asInt (C : Cells) (self : Value) : MemM (Except Exception Int64) :=
  return unwrap (← self.intImpl C)

def size (C : Cells) (self : Value) : UInt64 := C.len self.v

def atImpl (C : Cells) (self : Value) (i : UInt64) : MemM (Outcome Value) :=
  structuralImpl "zu_value_at" (C.valueAt self.v i).1 ⟨(C.valueAt self.v i).2⟩

def atCall (C : Cells) (self : Value) (i : UInt64) : MemM (Except Exception Value) :=
  return unwrap (← self.atImpl C i)

end Value

namespace Result

def rows (C : Cells) (self : Result) : UInt64 := C.rows self.h.p

def cellImpl (C : Cells) (self : Result) (row : UInt64) (col : UInt32) : MemM (Outcome Value) :=
  structuralImpl "zu_result_cell" (C.cell self.h.p row col).1 ⟨(C.cell self.h.p row col).2⟩

def cell (C : Cells) (self : Result) (row : UInt64) (col : UInt32) :
    MemM (Except Exception Value) :=
  return unwrap (← self.cellImpl C row col)

end Result

/-- `Row`.  The result it points at stands for the pointer, and a row of no result has none. -/
structure Row where
  result : Option Result := none
  row : UInt64 := 0
  deriving DecidableEq

/-! ### The integral types -/

/-- An integral type of C++ other than `bool`, of at most 64 bits: its width, whether it is
signed, and whether it is `std::int64_t` itself. -/
structure IntegralType where
  signed : Bool
  bits : Nat
  int64 : Bool
  pos : 0 < bits
  le : bits ≤ 64
  int64_eq : int64 = true → signed = true ∧ bits = 64
  deriving DecidableEq

namespace IntegralType

def min (T : IntegralType) : Int := if T.signed then -2 ^ (T.bits - 1) else 0

def max (T : IntegralType) : Int := if T.signed then 2 ^ (T.bits - 1) - 1 else 2 ^ T.bits - 1

/-- `static_cast<T>(v)`: the number with the low bits of `v`. -/
def cast (T : IntegralType) (v : Int64) : Int :=
  if T.signed then v.toInt.bmod (2 ^ T.bits) else v.toInt % 2 ^ T.bits

def Holds (T : IntegralType) (n : Int) : Prop := T.min ≤ n ∧ n ≤ T.max

instance (T : IntegralType) (n : Int) : Decidable (T.Holds n) :=
  inferInstanceAs (Decidable (_ ∧ _))

def uint64 : IntegralType := ⟨false, 64, false, by decide, by decide, nofun⟩

def int16 : IntegralType := ⟨true, 16, false, by decide, by decide, nofun⟩

/-- The limits fit an `std::int64_t`, but for the upper one of an unsigned type of 64
bits. -/
theorem limits_fit {T : IntegralType} (h : ¬ (T.signed = false ∧ T.bits = 64)) :
    -2 ^ 63 ≤ T.min ∧ T.min ≤ 0 ∧ 0 ≤ T.max ∧ T.max < 2 ^ 63 := by
  have hle := T.le
  have hpos : (0 : Int) < 2 ^ (T.bits - 1) := Int.pow_pos (by decide)
  rw [min, max]
  cases hs : T.signed with
  | true =>
    have hpow : (2 : Int) ^ (T.bits - 1) ≤ 2 ^ 63 :=
      pow_le_pow_right₀ (by decide) (by omega)
    simp only [if_true]
    omega
  | false =>
    have hbits : T.bits ≤ 63 := by
      have : T.bits ≠ 64 := fun hb => h ⟨hs, hb⟩
      omega
    have hpow : (2 : Int) ^ T.bits ≤ 2 ^ 63 := pow_le_pow_right₀ (by decide) hbits
    have hone : (0 : Int) < 2 ^ T.bits := Int.pow_pos (by decide)
    simp only [Bool.false_eq_true, if_false]
    omega

theorem holds_of_wide {T : IntegralType} (hs : T.signed = false) (hb : T.bits = 64) (v : Int64) :
    T.Holds v.toInt ↔ 0 ≤ v.toInt := by
  have hlt := Int64.toInt_lt v
  rw [Holds, min, max, hs, hb]
  simp only [Bool.false_eq_true, if_false]
  omega

theorem holds_of_int64 {T : IntegralType} (h : T.int64 = true) (v : Int64) : T.Holds v.toInt := by
  obtain ⟨hs, hb⟩ := T.int64_eq h
  have hge := Int64.le_toInt v
  have hlt := Int64.toInt_lt v
  rw [Holds, min, max, hs, hb]
  simp only [if_true]
  omega

theorem cast_of_holds {T : IntegralType} {v : Int64} (h : T.Holds v.toInt) :
    T.cast v = v.toInt := by
  have hpos := T.pos
  have htwo : (2 : Int) ^ T.bits = 2 * 2 ^ (T.bits - 1) := by
    rw [← Int.pow_succ', Nat.sub_add_cancel hpos]
  obtain ⟨hge, hle⟩ := h
  rw [min] at hge
  rw [max] at hle
  rw [cast]
  cases hs : T.signed with
  | true =>
    rw [hs] at hge hle
    simp only [if_true] at hge hle ⊢
    apply Int.bmod_eq_of_le_mul_two
    · push_cast
      omega
    · push_cast
      omega
  | false =>
    rw [hs] at hge hle
    simp only [Bool.false_eq_true, if_false] at hge hle ⊢
    exact Int.emod_eq_of_lt hge (by omega)

end IntegralType

/-- `Row::get<T>(col)` on an integral type, of a row of the result `self`. -/
def Result.getIntegral (C : Cells) (T : IntegralType) (self : Result) (row : UInt64)
    (col : UInt32) : MemM (Except Exception Int) := do
  match ← self.cell C row col with
  | .error x => return .error x
  | .ok cell =>
    match ← cell.asInt C with
    | .error x => return .error x
    | .ok v =>
      if T.int64 = false ∧ (v < Int64.ofInt T.min ∨ v > Int64.ofInt T.max) then
        return .error (raise (← Error.take .misuse none
          (ascii "the value does not fit the type it was read as")))
      else return .ok (T.cast v)

namespace Row

/-- `Row::get<T>(col)` on an integral type.  On a row of no result it follows a null
pointer. -/
def getIntegral (C : Cells) (T : IntegralType) (self : Row) (col : UInt32) :
    Option (MemM (Except Exception Int)) :=
  self.result.map fun r => r.getIntegral C T self.row col

/-! ### What it answers -/

def HoldsInt (C : Cells) (self : Row) (col : UInt32) (v : Int64) : Prop :=
  ∃ r cell, self.result = some r ∧ C.cell r.h.p self.row col = (.ok, cell) ∧
    C.i64 cell = (.ok, v)

def refusal : Exception :=
  raise (Error.ofStatus .misuse (ascii "the value does not fit the type it was read as"))

def answer (T : IntegralType) (v : Int64) : Except Exception Int :=
  if T.int64 = false ∧ (v < Int64.ofInt T.min ∨ v > Int64.ofInt T.max) then .error refusal
  else .ok (T.cast v)

theorem getIntegral_eq {C : Cells} {self : Row} {col : UInt32} {v : Int64}
    (h : self.HoldsInt C col v) (T : IntegralType) :
    ∃ read, self.getIntegral C T col = some read ∧ ∀ m, read m = (answer T v, m) := by
  obtain ⟨r, cell, hr, hcell, hv⟩ := h
  refine ⟨r.getIntegral C T self.row col, by rw [getIntegral, hr]; rfl, ?_⟩
  intro m
  have hcellImpl : r.cellImpl C self.row col m = (.ok ⟨cell⟩, m) := by
    rw [Result.cellImpl, structuralImpl_of_ok (by rw [hcell]), hcell]
  have hcellCall : r.cell C self.row col m = (.ok ⟨cell⟩, m) := by
    rw [Result.cell, bind_of_eq hcellImpl]
    rfl
  have hintImpl : (Value.mk cell).intImpl C m = (.ok v, m) := by
    rw [Value.intImpl, structuralImpl_of_ok (by rw [hv]), hv]
  have hint : (Value.mk cell).asInt C m = (.ok v, m) := by
    rw [Value.asInt, bind_of_eq hintImpl]
    rfl
  rw [Result.getIntegral, bind_of_eq hcellCall]
  simp only
  rw [bind_of_eq hint, answer]
  simp only
  split
  · rfl
  · rfl

/-- Where both limits fit, the comparison is the one with the limits. -/
theorem refused_iff {T : IntegralType} (h : ¬ (T.signed = false ∧ T.bits = 64)) (v : Int64) :
    (v < Int64.ofInt T.min ∨ v > Int64.ofInt T.max) ↔ ¬ T.Holds v.toInt := by
  obtain ⟨hmin, hmin', hmax', hmax⟩ := IntegralType.limits_fit h
  rw [Int64.lt_iff_toInt_lt, gt_iff_lt, Int64.lt_iff_toInt_lt,
    Int64.toInt_ofInt_of_le hmin (by omega), Int64.toInt_ofInt_of_le (by omega) hmax,
    IntegralType.Holds]
  omega

/-- An unsigned type of 64 bits has an upper limit that is cast to minus one, and every
integer is refused. -/
theorem refused_of_wide {T : IntegralType} (hs : T.signed = false) (hb : T.bits = 64)
    (v : Int64) : v < Int64.ofInt T.min ∨ v > Int64.ofInt T.max := by
  have hmin : T.min = 0 := by rw [IntegralType.min, hs]; rfl
  have hmax : Int64.ofInt T.max = -1 := by rw [IntegralType.max, hs, hb]; rfl
  rw [hmin, hmax, Int64.lt_iff_toInt_lt, gt_iff_lt, Int64.lt_iff_toInt_lt]
  show v.toInt < 0 ∨ -1 < v.toInt
  omega

/-- The read is right: an integer that the type holds is answered as it is, and any other
raises a `ProgrammingError` for misuse. -/
def Right (T : IntegralType) (v : Int64) (o : Except Exception Int) : Prop :=
  if T.Holds v.toInt then o = .ok v.toInt
  else ∃ x, o = .error x ∧ x.cls = .programmingError ∧ x.error.status = .misuse

theorem answer_of_wide {T : IntegralType} (hs : T.signed = false) (hb : T.bits = 64)
    (v : Int64) : answer T v = .error refusal := by
  have hint : T.int64 = false := by
    cases hi : T.int64 with
    | false => rfl
    | true =>
      have hsigned := (T.int64_eq hi).1
      rw [hs] at hsigned
      cases hsigned
  rw [answer, if_pos ⟨hint, refused_of_wide hs hb v⟩]

theorem answer_of_fits {T : IntegralType} (h : ¬ (T.signed = false ∧ T.bits = 64)) (v : Int64) :
    answer T v = if T.Holds v.toInt then .ok v.toInt else .error refusal := by
  by_cases hv : T.Holds v.toInt
  · rw [answer, if_pos hv, if_neg fun hr => (refused_iff h v).mp hr.2 hv,
      IntegralType.cast_of_holds hv]
  · have hint : T.int64 = false := by
      cases hi : T.int64 with
      | false => rfl
      | true => exact absurd (IntegralType.holds_of_int64 hi v) hv
    rw [if_neg hv, answer, if_pos ⟨hint, (refused_iff h v).mpr hv⟩]

theorem right_answer_iff (T : IntegralType) (v : Int64) :
    Right T v (answer T v) ↔ ¬ (T.signed = false ∧ T.bits = 64 ∧ 0 ≤ v.toInt) := by
  rw [Right]
  by_cases hwide : T.signed = false ∧ T.bits = 64
  · obtain ⟨hs, hb⟩ := hwide
    rw [answer_of_wide hs hb]
    by_cases hv : 0 ≤ v.toInt
    · rw [if_pos ((IntegralType.holds_of_wide hs hb v).mpr hv)]
      exact iff_of_false nofun fun hn => hn ⟨hs, hb, hv⟩
    · rw [if_neg (mt (IntegralType.holds_of_wide hs hb v).mp hv)]
      exact iff_of_true ⟨refusal, rfl, rfl, rfl⟩ fun hn => hv hn.2.2
  · refine iff_of_true ?_ fun hn => hwide ⟨hn.1, hn.2.1⟩
    rw [answer_of_fits hwide]
    split
    · rfl
    · exact ⟨refusal, rfl, rfl, rfl⟩

/-- **An integer is read as it is or refused, exactly.**  The read of a cell that holds the
integer `v` is right unless the type is unsigned and 64 bits wide and `v` is not
negative: that type holds `v`, and the read refuses it. -/
theorem get_integral_right_iff {C : Cells} {self : Row} {col : UInt32} {v : Int64}
    (h : self.HoldsInt C col v) (T : IntegralType) :
    (∃ read, self.getIntegral C T col = some read ∧ ∀ m, ∃ o, read m = (o, m) ∧ Right T v o) ↔
      ¬ (T.signed = false ∧ T.bits = 64 ∧ 0 ≤ v.toInt) := by
  obtain ⟨read, hread, hrun⟩ := getIntegral_eq h T
  rw [← right_answer_iff]
  constructor
  · rintro ⟨read', hread', hright⟩
    rw [hread, Option.some.injEq] at hread'
    subst hread'
    obtain ⟨o, ho, hright⟩ := hright {}
    rw [hrun] at ho
    cases ho
    exact hright
  · intro hright
    exact ⟨read, hread, fun m => ⟨_, hrun m, hright⟩⟩

def oneCell (v : Int64) : Cells where
  rows _ := 1
  cell _ _ _ := (.ok, some 0)
  i64 _ := (.ok, v)
  len _ := 0
  valueAt _ _ := (.misuse, none)

theorem get_integral_right_int16 :
    ∃ read, getIntegral (oneCell (-1)) .int16 ⟨some {}, 0⟩ 0 = some read ∧
      ∀ m, ∃ o, read m = (o, m) ∧ Right .int16 (-1) o :=
  (get_integral_right_iff ⟨{}, some 0, rfl, rfl, rfl⟩ .int16).mpr fun h => nomatch h.1

theorem get_integral_refuses_seven :
    ¬ ∃ read, getIntegral (oneCell 7) .uint64 ⟨some {}, 0⟩ 0 = some read ∧
      ∀ m, ∃ o, read m = (o, m) ∧ Right .uint64 7 o := by
  have hholds : HoldsInt (oneCell 7) ⟨some {}, 0⟩ 0 7 := ⟨{}, some 0, rfl, rfl, rfl⟩
  obtain ⟨read, hread, hrun⟩ := getIntegral_eq hholds .uint64
  rintro ⟨read', hread', hright⟩
  rw [hread, Option.some.injEq] at hread'
  subst hread'
  obtain ⟨o, ho, hright⟩ := hright {}
  rw [hrun] at ho
  cases ho
  exact (right_answer_iff _ _).mp hright ⟨rfl, rfl, by decide⟩

end Row

end ZuCpp
