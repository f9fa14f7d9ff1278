import ZuCpp.Get
import ZuCpp.Iterator

/-!
# A column by its name, row after row

`row.get<T>(name)` looks the column up in its result, which reads the names of its columns the
first time and keeps them.  The loop of the header's first page does so in every row.

**The loop reads the column** (`column_by_name`): of a result in which the lookups are right, the
loop over its rows looks the name up as the first row finds it, and answers what the cells of
the least column of that name hold, row by row, up to the first that is no `T`.
-/

namespace ZuCpp

open Lib

variable {F : Type}

/-! ### The reads by name -/

namespace Result

variable (C : RowReads F) (self : Result) (row : UInt64) (fails : Failures) (name : Str)

/-- `result_->column(name)`, and a read of that column: the result afterwards, and what is
answered. -/
def byName {α : Type} (read : Result → UInt32 → MemM (Except Exception α)) :
    MemM (Result × Except Exception α) := do
  let r := self.column fails name
  match r.2 with
  | .error x => return (r.1, .error x)
  | .ok col => return (r.1, ← read r.1 (.ofNat col))

def typeNamed : MemM (Result × Except Exception ValueType) :=
  self.byName fails name fun r col => r.type C row col

def isNullNamed : MemM (Result × Except Exception Bool) :=
  self.byName fails name fun r col =>
    return (← r.type C row col).map fun type => type = .null

def atNamed : MemM (Result × Except Exception Value) :=
  self.byName fails name fun r col => r.cell C.toCells row col

def getNamed (T : ReadType F) : MemM (Result × Except Exception T.Carrier) :=
  self.byName fails name fun r col => r.get C row col T

end Result

/-! ### The loop -/

/-- `for (auto row : r) out.push_back(body(row));` on the variables `s`: the variables
afterwards, what is in `out`, and what was thrown.  `none`: it has not come to `last` in `fuel`
turns. -/
def forEach {P σ E : Type} (body : UInt64 → σ → MemM (σ × Except Exception E))
    (last : IndexIterator P) :
    Nat → IndexIterator P → σ → MemM (Option (σ × List E × Option Exception))
  | 0, it, s => return if it.eq last then some (s, [], none) else none
  | fuel + 1, it, s =>
    if it.eq last then return some (s, [], none)
    else do
      match ← body it.i s with
      | (s, .error x) => return some (s, [], some x)
      | (s, .ok e) =>
        return (← forEach body last fuel it.inc s).map fun r => (r.1, e :: r.2.1, r.2.2)

/-- What a loop over these cells answers and throws: all of them, or those before the first that
is none. -/
def Stops {E : Type} (cells : List (Option E)) (out : List E) : Option Exception → Prop
  | none => cells = out.map some
  | some x => (∃ rest, cells = out.map some ++ none :: rest) ∧
      x.cls = .programmingError ∧ x.error.status = .misuse

theorem Stops.cons {E : Type} {cells : List (Option E)} {out : List E} {x : Option Exception}
    (h : Stops cells out x) (e : E) : Stops (some e :: cells) (e :: out) x := by
  cases x with
  | none => exact congrArg (some e :: ·) h
  | some x =>
    obtain ⟨⟨rest, rfl⟩, hx⟩ := h
    exact ⟨⟨rest, rfl⟩, hx⟩

theorem Stops.of_map {E : Type} {cells out : List E} {x : Option Exception}
    (h : Stops (cells.map some) out x) : out = cells ∧ x = none := by
  cases x with
  | none => exact ⟨(List.map_injective_iff.mpr (Option.some_injective _) h).symm, rfl⟩
  | some x =>
    obtain ⟨⟨rest, hrest⟩, -⟩ := h
    have hnone : none ∈ out.map some ++ none :: rest := List.mem_append_right _ (.head _)
    rw [← hrest] at hnone
    simp at hnone

section Loop

variable {P σ E : Type} {body : UInt64 → σ → MemM (σ × Except Exception E)}
  {last : IndexIterator P} {N : Nat} {m : Mem}

theorem forEach_throws {fuel : Nat} {it : IndexIterator P} {s s' : σ} {x : Exception}
    (hgo : ¬ it.eq last = true) (hbody : body it.i s m = ((s', .error x), m)) :
    forEach body last (fuel + 1) it s m = (some (s', [], some x), m) := by
  rw [forEach, if_neg hgo, bind_of_eq hbody]
  rfl

/-- The rule of the loop: `I k` holds before the turn of the row `k`, and the turn gives what is
in its cell. -/
theorem forEach_right (body : UInt64 → σ → MemM (σ × Except Exception E)) (cell : Nat → Option E)
    (I : Nat → σ → Prop) (hN : N < 2 ^ 64) (hlast : last.i.toNat = N)
    (hbody : ∀ k < N, ∀ s, I k s → ∃ s' o, body (.ofNat k) s m = ((s', o), m) ∧ I (k + 1) s' ∧
      Gives o (cell k)) {fuel p : Nat} {it : IndexIterator P} {s : σ} (hit : it.i.toNat = p)
    (hp : p ≤ N) (hfuel : N - p ≤ fuel) (hs : I p s) :
    ∃ k s' out x, forEach body last fuel it s m = (some (s', out, x), m) ∧ I k s' ∧
      Stops ((List.range' p (N - p)).map cell) out x := by
  induction fuel generalizing p it s with
  | zero =>
    have hpN : p = N := by omega
    have hend : it.eq last = true := IndexIterator.eq_iff.mpr (by rw [hit, hlast, hpN])
    refine ⟨p, s, [], none, ?_, hs, ?_⟩
    · rw [forEach, if_pos hend]
      rfl
    · rw [hpN, Nat.sub_self]
      rfl
  | succ fuel ih =>
    by_cases hpN : p = N
    · have hend : it.eq last = true := IndexIterator.eq_iff.mpr (by rw [hit, hlast, hpN])
      refine ⟨p, s, [], none, ?_, hs, ?_⟩
      · rw [forEach, if_pos hend]
        rfl
      · rw [hpN, Nat.sub_self]
        rfl
    · have hgo : ¬ it.eq last = true := fun he => hpN (by
        rw [IndexIterator.eq_iff, hit, hlast] at he
        exact he)
      have hi : it.i = .ofNat p := by rw [← hit, UInt64.ofNat_toNat]
      have hcells : (List.range' p (N - p)).map cell
          = cell p :: (List.range' (p + 1) (N - (p + 1))).map cell := by
        rw [show N - p = N - (p + 1) + 1 by omega, List.range'_succ, List.map_cons]
      obtain ⟨s₁, o, hturn, hs₁, hgives⟩ := hbody p (by omega) s hs
      rw [← hi] at hturn
      rw [hcells]
      cases hcell : cell p with
      | none =>
        rw [hcell] at hgives
        obtain ⟨x, rfl, hx⟩ := hgives
        exact ⟨p + 1, s₁, [], some x, forEach_throws hgo hturn, hs₁, ⟨_, rfl⟩, hx⟩
      | some e =>
        rw [hcell] at hgives
        cases hgives
        have hinc : it.inc.i.toNat = p + 1 := by
          show (it.i + 1).toNat = p + 1
          rw [UInt64.toNat_add, hit]
          exact Nat.mod_eq_of_lt (show p + 1 < 2 ^ 64 by omega)
        obtain ⟨k, s', out, x, hrest, hs', hstops⟩ := ih hinc (by omega) (by omega) hs₁
        refine ⟨k, s', e :: out, x, ?_, hs', hstops.cons e⟩
        rw [forEach, if_neg hgo, bind_of_eq hturn]
        dsimp only
        rw [bind_of_eq hrest]
        rfl

end Loop

/-! ### The names are read once -/

namespace Result

variable {C : RowReads F} {r : Result} {fails : Failures} {name : Str} {col : Nat} {T : ReadType F}

theorem namesCall_handle (r : Result) (fails : Failures) : (r.namesCall fails).1.h = r.h := by
  rw [namesCall]
  split
  · rfl
  · dsimp only
    split <;> rfl

theorem namesCall_kept {all : List Str} (h : (r.namesCall fails).2 = .ok all) (fails' : Failures) :
    (r.namesCall fails).1.namesCall fails' = ((r.namesCall fails).1, .ok all) := by
  by_cases hn : r.named = true
  · have hkept : ∀ f, r.namesCall f = (r, .ok r.names) := fun f => if_pos hn
    rw [hkept fails] at h ⊢
    cases h
    exact hkept fails'
  · have hcall : r.namesCall fails = ({ r with names := all, named := true }, .ok all) := by
      rw [namesCall, if_neg hn] at h ⊢
      cases hfill : (r.fill fails r.cols 0 r.names).2 with
      | some x =>
        simp only [hfill] at h
        cases h
      | none =>
        simp only [hfill] at h ⊢
        cases h
        rfl
    rw [hcall]
    rfl

/-- A name that was found is found again, and the names are not read for it. -/
theorem find_again (h : (r.find fails name).2 = .ok (some col)) (fails' : Failures) :
    (r.find fails name).1.find fails' name = ((r.find fails name).1, .ok (some col)) := by
  rw [find] at h
  dsimp only at h
  cases hall : (r.namesCall fails).2 with
  | error e =>
    rw [hall] at h
    cases h
  | ok all =>
    rw [hall] at h
    show (r.namesCall fails).1.find fails' name = ((r.namesCall fails).1, _)
    rw [find, namesCall_kept hall]
    exact congrArg (Prod.mk _) h

/-- Once the name is found, a read by name is the read of the column. -/
theorem byName_found {α : Type} (h : (r.find fails name).2 = .ok (some col))
    (read : Result → UInt32 → MemM (Except Exception α)) (m : Mem) :
    r.byName fails name read m
      = (((r.find fails name).1, (read (r.find fails name).1 (.ofNat col) m).1),
          (read (r.find fails name).1 (.ofNat col) m).2) := by
  have hcolumn : r.column fails name = ((r.find fails name).1, .ok col) := by
    rw [column, columnImpl, h]
    rfl
  rw [byName, hcolumn]
  rfl

def Full (C : RowReads F) (r : Result) : Prop :=
  ∀ row < r.rows C.toCells, ∀ col : UInt32, col.toNat < r.cols → (C.cell r.h.p row col).1 = .ok

def cellAt (C : RowReads F) (r : Result) (T : ReadType F) (col row : Nat) : Option T.Carrier :=
  let v : Value := ⟨(C.cell r.h.p (.ofNat row) (.ofNat col)).2⟩
  T.of v (v.content C.toCellReads)

def cellsOf (C : RowReads F) (r : Result) (T : ReadType F) (col : Nat) : List (Option T.Carrier) :=
  (List.range (r.rows C.toCells).toNat).map (r.cellAt C T col)

/-- One turn: the name is looked up, and the cell of the row is read. -/
theorem getNamed_turn (hC : C.Exact) (hT : T.Narrow) (hfull : r.Full C) {s : Result}
    (hs : s.h = r.h) (hfind : (s.find fails name).2 = .ok (some col)) (hcol : col < r.cols)
    {row : Nat} (hrow : row < (r.rows C.toCells).toNat) (m : Mem) :
    ∃ o, s.getNamed C (.ofNat row) fails name T m = (((s.find fails name).1, o), m) ∧
      Gives o (r.cellAt C T col row) := by
  have hhandle : (s.find fails name).1.h = r.h := (namesCall_handle s fails).trans hs
  have hcell : C.cell (s.find fails name).1.h.p (.ofNat row) (.ofNat col)
      = (.ok, (C.cell r.h.p (.ofNat row) (.ofNat col)).2) := by
    rw [hhandle]
    refine Prod.ext (hfull _ ?_ _ ?_) rfl
    · rw [UInt64.lt_iff_toNat_lt, UInt64.toNat_ofNat']
      exact Nat.lt_of_le_of_lt (Nat.mod_le _ _) hrow
    · rw [UInt32.toNat_ofNat']
      exact Nat.lt_of_le_of_lt (Nat.mod_le _ _) hcol
  obtain ⟨o, hget, hgives⟩ := get_gives hC hcell hT m
  refine ⟨o, ?_, hgives⟩
  rw [getNamed, byName_found hfind, hget]

/-! ### The loop of the first page -/

section FirstPage

variable {fails : UInt64 → Failures} {m : Mem}

/-- Where there are no rows, the loop ends before its first turn. -/
theorem forEach_noRows {σ E : Type} {body : UInt64 → σ → MemM (σ × Except Exception E)} {s : σ}
    (hrows : r.rows C.toCells = 0) :
    forEach body (r.end' C.toCells) (r.rows C.toCells).toNat r.begin s m
      = (some (s, [], none), m) := by
  have hend : r.begin.eq (r.end' C.toCells) = true := by
    rw [IndexIterator.eq_iff]
    exact congrArg UInt64.toNat hrows.symm
  rw [hrows]
  show forEach _ _ 0 _ _ _ = _
  rw [forEach, if_pos hend]
  rfl

theorem forEach_lookup_throws {x : Exception} (hrows : r.rows C.toCells ≠ 0)
    (hlookup : (r.column (fails 0) name).2 = .error x) :
    forEach (fun row self => self.getNamed C row (fails row) name T) (r.end' C.toCells)
        (r.rows C.toCells).toNat r.begin r m
      = (some ((r.find (fails 0) name).1, [], some x), m) := by
  have hgo : ¬ r.begin.eq (r.end' C.toCells) = true := fun he =>
    hrows (UInt64.toNat_inj.mp (IndexIterator.eq_iff.mp he).symm)
  obtain ⟨fuel, hfuel⟩ : ∃ fuel, (r.rows C.toCells).toNat = fuel + 1 :=
    Nat.exists_eq_succ_of_ne_zero fun h0 => hrows (UInt64.toNat_inj.mp h0)
  rw [hfuel]
  refine forEach_throws hgo ?_
  show r.getNamed C 0 (fails 0) name T m = _
  rw [getNamed, byName, hlookup]
  rfl

/-- Where it finds the name, every turn reads the cell of its row, up to one that throws. -/
theorem forEach_lookup_finds (hC : C.Exact) (hT : T.Narrow) (hfull : r.Full C)
    (hfind : (r.find (fails 0) name).2 = .ok (some col)) (hcol : col < r.cols) :
    ∃ r' out x, forEach (fun row self => self.getNamed C row (fails row) name T)
        (r.end' C.toCells) (r.rows C.toCells).toNat r.begin r m = (some (r', out, x), m) ∧
      r'.h = r.h ∧ Stops (r.cellsOf C T col) out x := by
  -- what the variable is before the turn of a row
  let I : Nat → Result → Prop := fun k s =>
    s.h = r.h ∧ (s.find (fails (.ofNat k)) name).2 = .ok (some col)
  have hturns : ∀ k < (r.rows C.toCells).toNat, ∀ s, I k s → ∃ s' o,
      s.getNamed C (.ofNat k) (fails (.ofNat k)) name T m = ((s', o), m) ∧ I (k + 1) s' ∧
        Gives o (r.cellAt C T col k) := by
    intro k hk s hs
    obtain ⟨o, hturn, hgives⟩ := getNamed_turn hC hT hfull hs.1 hs.2 hcol hk m
    refine ⟨_, o, hturn, ⟨(namesCall_handle s _).trans hs.1, ?_⟩, hgives⟩
    rw [find_again hs.2]
  have hlast : (r.end' C.toCells).i.toNat = (r.rows C.toCells).toNat := rfl
  have hfirst : r.begin.i.toNat = 0 := rfl
  obtain ⟨k, r', out, x, hrun, hr', hstops⟩ :=
    forEach_right (fun row self => self.getNamed C row (fails row) name T) (r.cellAt C T col) I
      (UInt64.toNat_lt _) hlast hturns hfirst (Nat.zero_le _) (Nat.le_refl _) ⟨rfl, hfind⟩
  refine ⟨r', out, x, hrun, hr'.1, ?_⟩
  rw [cellsOf, List.range_eq_range']
  exact hstops

end FirstPage

/-- **The loop reads the column.**  Of a result in which the lookups are right, the loop over its
rows that reads a column by its name throws what the lookup in the first row does; else it
answers what the cells of the least column of that name hold as a `T`, row by row, up to the
first that is none, and throws a `ProgrammingError` there.  Where there are no rows, nothing is
looked up. -/
theorem column_by_name (hright : r.LookupRight) (hC : C.Exact) (hfull : r.Full C) (hT : T.Narrow)
    (fails : UInt64 → Failures) (name : Str) (m : Mem) :
    ∃ r' out x, forEach (fun row self => self.getNamed C row (fails row) name T)
        (r.end' C.toCells) (r.rows C.toCells).toNat r.begin r m = (some (r', out, x), m) ∧
      r'.h = r.h ∧
      if r.rows C.toCells = 0 then out = [] ∧ x = none
      else match (r.find (fails 0) name).2 with
        | .error thrown => out = [] ∧ x = some thrown
        | .ok none => (∀ j < r.cols, r.nameImpl [] j ≠ .ok name) ∧ out = [] ∧
            x = some (raise (.ofStatus .misuse (ascii "no column named " ++ name)))
        | .ok (some col) => r.nameImpl [] col = .ok name ∧
            (∀ j < col, r.nameImpl [] j ≠ .ok name) ∧ Stops (r.cellsOf C T col) out x := by
  by_cases hrows : r.rows C.toCells = 0
  · refine ⟨r, [], none, forEach_noRows hrows, rfl, ?_⟩
    rw [if_pos hrows]
    exact ⟨rfl, rfl⟩
  · simp only [if_neg hrows]
    cases hfind : (r.find (fails 0) name).2 with
    | error thrown =>
      have hlookup : (r.column (fails 0) name).2 = .error thrown := by
        rw [column, columnImpl, hfind]
        rfl
      exact ⟨_, _, _, forEach_lookup_throws hrows hlookup, namesCall_handle r _, rfl, rfl⟩
    | ok found =>
      cases found with
      | none =>
        have hlookup : (r.column (fails 0) name).2
            = .error (raise (.ofStatus .misuse (ascii "no column named " ++ name))) := by
          rw [column, columnImpl, hfind]
          rfl
        exact ⟨_, _, _, forEach_lookup_throws hrows hlookup, namesCall_handle r _,
          hright.find_none _ _ hfind, rfl, rfl⟩
      | some col =>
        obtain ⟨hcol, hname, hleast⟩ := hright.find_some _ _ _ hfind
        obtain ⟨r', out, x, hrun, hr', hstops⟩ := forEach_lookup_finds hC hT hfull hfind hcol
        exact ⟨r', out, x, hrun, hr', hname, hleast, hstops⟩

def sevens : Result := { h := .ofPtr ⟨[ascii "n"], by decide⟩ }

/-- A seven and a null, read as optionals.  The engine would refuse the names in the second row,
and is not asked there. -/
def readOnce (row : UInt64) : Failures := if row = 0 then [] else [(0, noName)]

theorem column_by_name_sevenThenNull :
    ∃ r', forEach (fun row (self : Result) => self.getNamed Row.sevenThenNull row
        (readOnce row) (ascii "n") (.optional (.integral .int16)))
      (sevens.end' Row.sevenThenNull.toCells) 2 sevens.begin sevens {}
        = (some (r', [some (7 : Int), none], none), {}) := by
  have hright : sevens.LookupRight := Coherent.lookupRight (by decide)
  obtain ⟨r', out, x, hrun, -, hout⟩ := column_by_name hright Row.sevenThenNull_exact
    (fun _ _ _ _ => rfl) (T := .optional (.integral .int16))
    (fun h => by cases h.1) readOnce (ascii "n") {}
  obtain ⟨-, -, hstops⟩ := hout
  have hcells : sevens.cellsOf Row.sevenThenNull (.optional (.integral .int16)) 0
      = [some (7 : Int), none].map some := rfl
  rw [hcells] at hstops
  obtain ⟨rfl, rfl⟩ := hstops.of_map
  exact ⟨r', hrun⟩

end Result

end ZuCpp
