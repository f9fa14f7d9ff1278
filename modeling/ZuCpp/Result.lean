import ZuCpp.Error
import ZuCpp.Handle
import ZuCpp.Lib.Run

/-!
# `Result`: the names of its columns

`names()` reads the names once and keeps them in `names_`, and `named_` says that it has.
No other member looks after the two, so every operation that changes what the result is
over leaves some combination of handle, vector and flag behind.  `Coherent` is the
combinations in which the lookups are right, and `lookup_right_iff` says exactly which
runs stay in them.
-/

namespace ZuCpp

open Lib

/-- A `zu_result`, as far as its columns go: there are as many as a `uint32_t` counts, and
their names do not change while it lives. -/
structure EngineResult where
  names : List Str
  short : names.length < 2 ^ 32
  deriving DecidableEq

/-- `Result`.  A result has one owner, so the handle stands for what it is over. -/
structure Result where
  h : Handle EngineResult := {}
  names : List Str := []
  named : Bool := false
  deriving DecidableEq

abbrev Failing := { st : Status // ¬ (st = .ok ∨ st = .done) }

/-- The calls of `zu_result_col_name` that fail while an operation runs, by the column, and
what they answer. -/
abbrev Failures := List (Nat × Failing)

namespace Result

def columnNames (self : Result) : List Str :=
  match self.h.p with
  | none => []
  | some r => r.names

def cols (self : Result) : Nat := self.columnNames.length

/-- What `zu_result_col_name` answers: the status, and the name, or `none` for a null pointer. -/
def colName (self : Result) (fails : Failures) (col : Nat) : Status × Option Str :=
  match fails.lookup col, self.columnNames[col]? with
  | some st, _ => (st, none)
  | none, some name => (.ok, some name)
  | none, none => (.misuse, none)

/-- `name_impl(col)`.  Its call has no error handle, so it does nothing to the memory. -/
def nameImpl (self : Result) (fails : Failures) (col : Nat) : Outcome Str :=
  let answer := self.colName fails col
  if answer.1 = .ok ∨ answer.1 = .done then .ok (answer.2.getD [])
  else .error (.ofStatus answer.1 (ascii "zu_result_col_name"))

/-- The loop of `names()`, with `k` columns to go and the `i`-th next: the vector, and what
was thrown. -/
def fill (self : Result) (fails : Failures) : Nat → Nat → List Str → List Str × Option Exception
  | 0, _, names => (names, none)
  | k + 1, i, names =>
    match unwrap (self.nameImpl fails i) with
    | .error x => (names, some x)
    | .ok name => self.fill fails k (i + 1) (names ++ [name])

/-- `names()`: the object afterwards, and what is returned or thrown. -/
def namesCall (self : Result) (fails : Failures) : Result × Except Exception (List Str) :=
  if self.named then (self, .ok self.names)
  else
    let r := self.fill fails self.cols 0 self.names
    match r.2 with
    | some x => ({ self with names := r.1 }, .error x)
    | none => ({ self with names := r.1, named := true }, .ok r.1)

def find (self : Result) (fails : Failures) (name : Str) :
    Result × Except Exception (Option Nat) :=
  let r := self.namesCall fails
  (r.1, r.2.map fun all => all.findIdx? (· == name))

/-- `column_impl(name)`, which throws what `find` throws. -/
def columnImpl (self : Result) (fails : Failures) (name : Str) :
    Result × Except Exception (Outcome Nat) :=
  let r := self.find fails name
  (r.1, r.2.map fun
    | some i => .ok i
    | none => .error (.ofStatus .misuse (ascii "no column named " ++ name)))

def column (self : Result) (fails : Failures) (name : Str) : Result × Except Exception Nat :=
  let r := self.columnImpl fails name
  (r.1, r.2.bind unwrap)

/-- `try_column(name)`: what is thrown past the `Error` it would return. -/
def tryColumn (self : Result) (fails : Failures) (name : Str) :
    Result × Except Exception (Except Error Nat) :=
  let r := self.columnImpl fails name
  (r.1, r.2.map toExpected)

/-- `Result(Result&& o)`: the new object, and `o`.  A vector that was moved from by a
constructor is empty. -/
def moveConstruct (o : Result) : Result × Result :=
  let r := o.h.moveConstruct
  (⟨r.1, o.names, o.named⟩, ⟨r.2, [], o.named⟩)

/-- `operator=(Result&& o)` on another object: the object, and `o`.  What a vector holds
once it was assigned from is left open, and here it is `left`. -/
def moveAssign (self o : Result) (left : List Str) : Result × Result :=
  let r := self.h.moveAssign o.h
  (⟨r.1, o.names, o.named⟩, ⟨r.2.1, left, o.named⟩)

def moveSelf (self : Result) (left : List Str) : Result := { self with names := left }

/-- `arrow_impl`, which gives the handle away whether it succeeds or not. -/
def arrowImpl (self : Result) : Result := { self with h := self.h.arrowImpl.1 }

end Result

inductive ResultOp
  /-- a call that answers a result -/
  | adopt (r : EngineResult)
  /-- `Result()` -/
  | default
  /-- `r.names()` -/
  | names (i : Nat) (fails : Failures)
  /-- `r.find(name)` -/
  | find (i : Nat) (name : Str) (fails : Failures)
  /-- `r.column(name)`, through which every read by name goes -/
  | column (i : Nat) (name : Str) (fails : Failures)
  /-- `Result(std::move(o))` -/
  | moveConstruct (o : Nat)
  /-- `r = std::move(o)` -/
  | moveAssign (i o : Nat) (left : List Str)
  /-- `std::move(r).to_arrow(..)`, successful or not -/
  | toArrow (i : Nat)
  /-- `~Result()` -/
  | destroy (i : Nat)
  deriving DecidableEq

namespace Result

/-- One operation.  `none`: there is no such object. -/
def step (s : Arena Result) : ResultOp → Option (Arena Result)
  | .adopt r => some (s.alloc { h := .ofPtr r })
  | .default => some (s.alloc {})
  | .names i fails => do
    let r ← s.get i
    some (s.put i (r.namesCall fails).1)
  | .find i name fails => do
    let r ← s.get i
    some (s.put i (r.find fails name).1)
  | .column i name fails => do
    let r ← s.get i
    some (s.put i (r.columnImpl fails name).1)
  | .moveConstruct o => do
    let ro ← s.get o
    let r := ro.moveConstruct
    some ((s.put o r.2).alloc r.1)
  | .moveAssign i o left => do
    let ri ← s.get i
    let ro ← s.get o
    if i = o then some (s.put i (ri.moveSelf left))
    else
      let r := ri.moveAssign ro left
      some ((s.put o r.2).put i r.1)
  | .toArrow i => do
    let r ← s.get i
    some (s.put i r.arrowImpl)
  | .destroy i => do
    let _ ← s.get i
    some (s.drop i)

/-! ### When the lookups are right -/

/-- `names()`, when it returns, has one entry a column, the `i`-th being `name(i)`; and
`find(name)`, when it returns, is the least column of that name, or nothing when there is
none. -/
structure LookupRight (r : Result) : Prop where
  names : ∀ fails all, (r.namesCall fails).2 = .ok all →
    all.length = r.cols ∧ ∀ i name, all[i]? = some name → r.nameImpl [] i = .ok name
  find_some : ∀ fails name i, (r.find fails name).2 = .ok (some i) →
    i < r.cols ∧ r.nameImpl [] i = .ok name ∧ ∀ j < i, r.nameImpl [] j ≠ .ok name
  find_none : ∀ fails name, (r.find fails name).2 = .ok none →
    ∀ j < r.cols, r.nameImpl [] j ≠ .ok name

/-- **The invariant.**  The flag says that the vector has the names, and without it the
vector is empty. -/
def Coherent (self : Result) : Prop :=
  self.names = if self.named then self.columnNames else []

instance (self : Result) : Decidable self.Coherent := inferInstanceAs (Decidable (_ = _))

theorem nameImpl_of_fails {self : Result} {fails : Failures} {i : Nat} {st : Failing}
    (h : fails.lookup i = some st) :
    self.nameImpl fails i = .error (.ofStatus st (ascii "zu_result_col_name")) := by
  rw [nameImpl, colName, h]
  exact if_neg st.2

theorem nameImpl_of_name {self : Result} {fails : Failures} {i : Nat} {name : Str}
    (h : fails.lookup i = none) (hname : self.columnNames[i]? = some name) :
    self.nameImpl fails i = .ok name := by
  rw [nameImpl, colName, h, hname]
  rfl

theorem nameImpl_nil (self : Result) (i : Nat) (name : Str) :
    self.nameImpl [] i = .ok name ↔ self.columnNames[i]? = some name := by
  cases h : self.columnNames[i]? with
  | none =>
    rw [nameImpl, colName, List.lookup_nil, h]
    exact ⟨nofun, nofun⟩
  | some s => rw [nameImpl_of_name List.lookup_nil h, Except.ok.injEq, Option.some.injEq]

def noColName (st : Failing) : Exception :=
  raise (.ofStatus st (ascii "zu_result_col_name"))

/-- **What the loop leaves behind.**  It appends the names up to the first call that
fails, and throws what that call failed with. -/
theorem fill_spec (self : Result) (fails : Failures) : ∀ (k i : Nat) (names : List Str),
    i + k = self.cols → ∃ m ≤ k,
      (self.fill fails k i names).1 = names ++ (self.columnNames.drop i).take m ∧
      (∀ j < m, fails.lookup (i + j) = none) ∧
      (m < k → ∃ st, fails.lookup (i + m) = some st ∧
        (self.fill fails k i names).2 = some (noColName st)) ∧
      (m = k → (self.fill fails k i names).2 = none) := by
  intro k
  induction k with
  | zero =>
    intro i names _
    exact ⟨0, Nat.le_refl 0, by simp [fill], nofun, nofun, fun _ => rfl⟩
  | succ k ih =>
    intro i names hik
    have hi : i < self.columnNames.length := by
      rw [cols] at hik
      omega
    cases hf : fails.lookup i with
    | some st =>
      have hfill : self.fill fails (k + 1) i names = (names, some (noColName st)) := by
        rw [fill, nameImpl_of_fails hf]
        rfl
      refine ⟨0, Nat.zero_le _, ?_, nofun, ?_, nofun⟩
      · rw [hfill, List.take_zero, List.append_nil]
      · intro _
        rw [hfill]
        exact ⟨st, hf, rfl⟩
    | none =>
      have hfill : self.fill fails (k + 1) i names
          = self.fill fails k (i + 1) (names ++ [self.columnNames[i]]) := by
        rw [fill, nameImpl_of_name hf (List.getElem?_eq_getElem hi)]
        rfl
      obtain ⟨m, hm, hnames, hok, herr, hdone⟩ :=
        ih (i + 1) (names ++ [self.columnNames[i]]) (by omega)
      refine ⟨m + 1, Nat.succ_le_succ hm, ?_, ?_, ?_, ?_⟩
      · rw [hfill, hnames, List.append_assoc, List.drop_eq_getElem_cons hi, List.take_succ_cons]
        rfl
      · intro j hj
        cases j with
        | zero => exact hf
        | succ j =>
          rw [show i + (j + 1) = i + 1 + j by omega]
          exact hok j (by omega)
      · intro hlt
        rw [hfill, show i + (m + 1) = i + 1 + m by omega]
        exact herr (by omega)
      · intro heq
        rw [hfill]
        exact hdone (by omega)

/-- `names()` on a coherent result, when it returns, returns the names. -/
theorem namesCall_of_coherent {self : Result} (hc : self.Coherent) {fails : Failures}
    {all : List Str} (h : (self.namesCall fails).2 = .ok all) : all = self.columnNames := by
  rw [namesCall] at h
  by_cases hn : self.named = true
  · rw [if_pos hn] at h
    cases h
    rw [Coherent, if_pos hn] at hc
    exact hc
  · rw [if_neg hn] at h
    rw [Coherent, if_neg hn] at hc
    obtain ⟨m, hm, hnames, -, herr, -⟩ :=
      self.fill_spec fails self.cols 0 self.names (Nat.zero_add _)
    rcases Nat.lt_or_eq_of_le hm with hlt | rfl
    · obtain ⟨st, -, hthrown⟩ := herr hlt
      simp only [hthrown] at h
      cases h
    · cases hr : (self.fill fails self.cols 0 self.names).2 with
      | some e =>
        simp only [hr] at h
        cases h
      | none =>
        simp only [hr] at h
        cases h
        rw [hnames, hc, List.nil_append, List.drop_zero, cols, List.take_length]

/-- Without failures `names()` returns: what is kept, or what is kept and the names. -/
theorem namesCall_nil (self : Result) : (self.namesCall []).2
    = .ok (if self.named then self.names else self.names ++ self.columnNames) := by
  rw [namesCall]
  by_cases hn : self.named = true
  · rw [if_pos hn, if_pos hn]
  · rw [if_neg hn, if_neg hn]
    obtain ⟨m, hm, hnames, -, herr, hdone⟩ :=
      self.fill_spec [] self.cols 0 self.names (Nat.zero_add _)
    rcases Nat.lt_or_eq_of_le hm with hlt | rfl
    · obtain ⟨st, hst, -⟩ := herr hlt
      rw [List.lookup_nil] at hst
      cases hst
    · simp only [hdone rfl]
      rw [hnames, List.drop_zero, cols, List.take_length]

theorem findIdx?_names {all : List Str} {name : Str} {i : Nat}
    (h : all.findIdx? (· == name) = some i) :
    all[i]? = some name ∧ ∀ j < i, all[j]? ≠ some name := by
  rw [List.findIdx?_eq_some_iff_getElem] at h
  obtain ⟨hi, hp, hleast⟩ := h
  refine ⟨by rw [List.getElem?_eq_getElem hi, beq_iff_eq.mp hp], fun j hj hget => ?_⟩
  have := hleast j hj
  rw [List.getElem?_eq_getElem (by omega), Option.some.injEq] at hget
  simp [hget] at this

theorem findIdx?_none {all : List Str} {name : Str}
    (h : all.findIdx? (· == name) = none) (j : Nat) : all[j]? ≠ some name := by
  rw [List.findIdx?_eq_none_iff] at h
  intro hget
  have := h name (List.mem_of_getElem? hget)
  simp at this

theorem Coherent.lookupRight {self : Result} (hc : self.Coherent) : self.LookupRight := by
  have hfind : ∀ fails name res, (self.find fails name).2 = .ok res →
      self.columnNames.findIdx? (· == name) = res := by
    intro fails name res h
    rw [find] at h
    dsimp only at h
    cases hall : (self.namesCall fails).2 with
    | error e =>
      rw [hall] at h
      cases h
    | ok all =>
      rw [hall] at h
      rw [← namesCall_of_coherent hc hall]
      exact Except.ok.inj h
  refine ⟨?_, ?_, ?_⟩
  · intro fails all h
    rw [namesCall_of_coherent hc h]
    exact ⟨rfl, fun i name hi => (nameImpl_nil self i name).mpr hi⟩
  · intro fails name i h
    obtain ⟨hi, hleast⟩ := findIdx?_names (hfind fails name _ h)
    refine ⟨(List.getElem?_eq_some_iff.mp hi).1, (nameImpl_nil self i name).mpr hi, ?_⟩
    exact fun j hj hn => hleast j hj ((nameImpl_nil self j name).mp hn)
  · intro fails name h j _
    exact fun hn => findIdx?_none (hfind fails name _ h) j ((nameImpl_nil self j name).mp hn)

/-- **Coherent is all it takes, and no less.** -/
theorem lookupRight_iff {self : Result} : self.LookupRight ↔ self.Coherent := by
  refine ⟨?_, Coherent.lookupRight⟩
  intro h
  obtain ⟨hlen, hget⟩ := h.names [] _ self.namesCall_nil
  rw [Coherent]
  by_cases hn : self.named = true
  · rw [if_pos hn] at hlen hget ⊢
    apply List.ext_getElem?
    intro i
    cases hi : self.names[i]? with
    | some name => exact ((nameImpl_nil self i name).mp (hget i name hi)).symm
    | none =>
      rw [List.getElem?_eq_none_iff] at hi
      rw [List.getElem?_eq_none (by rw [← cols]; omega)]
  · rw [if_neg hn] at hlen ⊢
    rw [List.length_append, ← cols] at hlen
    exact List.eq_nil_of_length_eq_zero (by omega)

/-! ### What keeps it -/

/-- A read of the names that fails, fails at the first column; a result that has its names
does not read them. -/
def ReadsWhole (self : Result) (fails : Failures) : Prop :=
  self.named = true ∨ ∀ i < self.cols, fails.lookup i ≠ none → fails.lookup 0 ≠ none

instance (self : Result) (fails : Failures) : Decidable (self.ReadsWhole fails) :=
  inferInstanceAs (Decidable (_ ∨ ∀ i < self.cols, _))

/-- **A failed read is harmless exactly when it had read nothing.** -/
theorem coherent_namesCall_iff {self : Result} (hc : self.Coherent) (fails : Failures) :
    (self.namesCall fails).1.Coherent ↔ self.ReadsWhole fails := by
  rw [namesCall]
  by_cases hn : self.named = true
  · rw [if_pos hn]
    exact ⟨fun _ => Or.inl hn, fun _ => hc⟩
  · rw [if_neg hn]
    have hempty : self.names = [] := by
      rw [Coherent, if_neg hn] at hc
      exact hc
    obtain ⟨m, hm, hnames, hok, herr, hdone⟩ :=
      self.fill_spec fails self.cols 0 self.names (Nat.zero_add _)
    rw [hempty, List.nil_append, List.drop_zero] at hnames
    rcases Nat.lt_or_eq_of_le hm with hlt | rfl
    · -- the call for the column `m` failed, and the names before it are in the vector
      obtain ⟨st, hst, hthrown⟩ := herr hlt
      rw [Nat.zero_add] at hst
      rw [← hempty] at hnames
      simp only [hthrown]
      have hcoh :
          ({ self with names := (self.fill fails self.cols 0 self.names).1 } : Result).Coherent
            ↔ m = 0 := by
        rw [Coherent, if_neg hn]
        show (self.fill fails self.cols 0 self.names).1 = [] ↔ m = 0
        rw [hnames, List.take_eq_nil_iff]
        refine ⟨?_, Or.inl⟩
        intro h
        rcases h with h | h
        · exact h
        · rw [cols, h] at hlt
          exact absurd hlt (Nat.not_lt_zero _)
      rw [hcoh]
      constructor
      · rintro rfl
        apply Or.inr
        intro _ _ _
        rw [hst]
        exact Option.some_ne_none st
      · rintro (h | h)
        · exact absurd h hn
        · by_contra hm0
          have hfirst := hok 0 (Nat.pos_of_ne_zero hm0)
          rw [Nat.zero_add] at hfirst
          exact h m hlt (hst ▸ Option.some_ne_none st) hfirst
    · rw [← hempty] at hnames
      simp only [hdone rfl]
      refine ⟨fun _ => Or.inr fun i hi hne => ?_, fun _ => ?_⟩
      · have := hok i hi
        rw [Nat.zero_add] at this
        exact absurd this hne
      · show (self.fill fails self.cols 0 self.names).1 = if true then self.columnNames else []
        rw [hnames, cols, List.take_length, if_pos rfl]

theorem coherent_moveConstruct {o : Result} (hc : o.Coherent) :
    o.moveConstruct.1.Coherent ∧ o.moveConstruct.2.Coherent := by
  refine ⟨hc, ?_⟩
  show [] = if o.named then [] else []
  rw [ite_self]

/-- The object assigned to is what the other one was, and the other is coherent exactly
when nothing is left in its vector. -/
theorem coherent_moveAssign_iff (self : Result) {o : Result} (left : List Str) (hc : o.Coherent) :
    (self.moveAssign o left).1.Coherent ∧ ((self.moveAssign o left).2.Coherent ↔ left = []) := by
  refine ⟨hc, ?_⟩
  show left = (if o.named then [] else []) ↔ left = []
  rw [ite_self]

theorem coherent_moveSelf_iff {self : Result} (left : List Str) (hc : self.Coherent) :
    (self.moveSelf left).Coherent ↔ left = self.names := by
  rw [show self.names = _ from hc]
  rfl

/-- Giving the handle away is harmless exactly when there are no names to keep. -/
theorem coherent_arrowImpl_iff {self : Result} (hc : self.Coherent) :
    self.arrowImpl.Coherent ↔ (self.named = true → self.cols = 0) := by
  rw [Coherent] at hc ⊢
  show self.names = (if self.named then [] else []) ↔ _
  rw [ite_self, hc]
  by_cases hn : self.named = true
  · rw [if_pos hn, cols, List.length_eq_zero_iff]
    exact ⟨fun h _ => h, fun h => h hn⟩
  · rw [if_neg hn]
    exact ⟨fun _ h => absurd h hn, fun _ => rfl⟩

def AllCoherent (s : Arena Result) : Prop := ∀ i r, s.get i = some r → r.Coherent

/-- The condition on one operation. -/
def KeepsNames (s : Arena Result) : ResultOp → Prop
  | .names i fails => ∀ r ∈ s.get i, r.ReadsWhole fails
  | .find i _ fails => ∀ r ∈ s.get i, r.ReadsWhole fails
  | .column i _ fails => ∀ r ∈ s.get i, r.ReadsWhole fails
  | .moveAssign i o left => ∀ r ∈ s.get o, left = if i = o then r.names else []
  | .toArrow i => ∀ r ∈ s.get i, r.named = true → r.cols = 0
  | _ => True

instance (s : Arena Result) : (op : ResultOp) → Decidable (KeepsNames s op)
  | .names i _ | .find i _ _ | .column i _ _ | .toArrow i =>
    inferInstanceAs (Decidable (∀ r ∈ s.get i, _))
  | .moveAssign _ o _ => inferInstanceAs (Decidable (∀ r ∈ s.get o, _))
  | .adopt _ | .default | .moveConstruct _ | .destroy _ => isTrue trivial

theorem allCoherent_put {s : Arena Result} {i : Nat} {r : Result} (hs : AllCoherent s)
    (hi : s.get i = some r) (r' : Result) : AllCoherent (s.put i r') ↔ r'.Coherent := by
  constructor
  · intro h
    exact h i r' ((Arena.get_put hi r' i).trans (if_pos rfl))
  · intro h
    exact Arena.all_put hs hi h

/-- One operation keeps every result coherent exactly when it meets the condition. -/
theorem allCoherent_step {s s' : Arena Result} {op : ResultOp} (hs : AllCoherent s)
    (h : step s op = some s') : AllCoherent s' ↔ KeepsNames s op := by
  cases op with
  | adopt r =>
    cases h
    exact ⟨fun _ => trivial, fun _ => Arena.all_alloc hs rfl⟩
  | default =>
    cases h
    exact ⟨fun _ => trivial, fun _ => Arena.all_alloc hs rfl⟩
  | names i fails =>
    obtain ⟨r, hi, h⟩ := Option.bind_eq_some_iff.mp h
    cases h
    rw [allCoherent_put hs hi, coherent_namesCall_iff (hs i r hi), KeepsNames, hi]
    simp
  | find i name fails =>
    obtain ⟨r, hi, h⟩ := Option.bind_eq_some_iff.mp h
    cases h
    rw [allCoherent_put hs hi, show (r.find fails name).1 = (r.namesCall fails).1 from rfl,
      coherent_namesCall_iff (hs i r hi), KeepsNames, hi]
    simp
  | column i name fails =>
    obtain ⟨r, hi, h⟩ := Option.bind_eq_some_iff.mp h
    cases h
    rw [allCoherent_put hs hi, show (r.columnImpl fails name).1 = (r.namesCall fails).1 from rfl,
      coherent_namesCall_iff (hs i r hi), KeepsNames, hi]
    simp
  | moveConstruct o =>
    obtain ⟨r, ho, h⟩ := Option.bind_eq_some_iff.mp h
    cases h
    obtain ⟨hnew, hold⟩ := coherent_moveConstruct (hs o r ho)
    exact ⟨fun _ => trivial,
      fun _ => Arena.all_alloc ((allCoherent_put hs ho _).mpr hold) hnew⟩
  | moveAssign i o left =>
    simp only [step, Option.bind_eq_bind, Option.bind_eq_some_iff] at h
    obtain ⟨ri, hi, ro, ho, h⟩ := h
    split at h
    · rename_i hio
      cases h
      subst hio
      rw [hi, Option.some.injEq] at ho
      subst ho
      rw [allCoherent_put hs hi, coherent_moveSelf_iff left (hs i ri hi), KeepsNames, hi]
      simp
    · rename_i hne
      cases h
      obtain ⟨hnew, hold⟩ := coherent_moveAssign_iff ri left (hs o ro ho)
      have hi' : (s.put o (ri.moveAssign ro left).2).get i = some ri := by
        rw [Arena.get_put ho, if_neg hne, hi]
      have hcond : KeepsNames s (.moveAssign i o left) ↔ left = [] := by
        rw [KeepsNames, ho]
        simp [hne]
      rw [hcond, ← hold]
      constructor
      · intro hall
        apply hall o _
        rw [Arena.get_put hi', if_neg (Ne.symm hne), Arena.get_put ho, if_pos rfl]
      · intro ho'
        exact (allCoherent_put ((allCoherent_put hs ho _).mpr ho') hi' _).mpr hnew
  | toArrow i =>
    obtain ⟨r, hi, h⟩ := Option.bind_eq_some_iff.mp h
    cases h
    rw [allCoherent_put hs hi, coherent_arrowImpl_iff (hs i r hi), KeepsNames, hi]
    simp
  | destroy i =>
    obtain ⟨r, hi, h⟩ := Option.bind_eq_some_iff.mp h
    cases h
    exact ⟨fun _ => trivial, fun _ => Arena.all_drop hs i⟩

/-- **Column lookup by name, exactly.**  Every result answers every lookup right in every
state of a run if and only if the run keeps to this: a read of the names that fails does
so at the first column, or the names were there; a result whose names were read is only
given to Arrow when it has no columns; and what a move assignment leaves in the vector it
moved from is nothing, or what was there when that is the object itself. -/
theorem lookup_right_iff {ops : List ResultOp} {s : Arena Result}
    (h : exec step Arena.empty ops = some s) :
    (∀ n u, exec step Arena.empty (ops.take n) = some u →
      ∀ i r, u.get i = some r → r.LookupRight) ↔ Along step KeepsNames Arena.empty ops := by
  have hinit : AllCoherent Arena.empty := fun i r hi => by
    rw [Arena.get_empty] at hi
    cases hi
  rw [← exec_always_iff (fun _ _ _ => allCoherent_step) hinit h]
  refine forall_congr' fun n => forall_congr' fun u => imp_congr_right fun _ => ?_
  exact forall_congr' fun i => forall_congr' fun r => imp_congr_right fun _ => lookupRight_iff

def oneTwo : EngineResult := ⟨[ascii "one", ascii "two"], by decide⟩

def noName : Failing := ⟨.error, by decide⟩

def readAndMoved : List ResultOp :=
  [.adopt oneTwo, .names 0 [(0, noName)], .find 0 (ascii "two") [], .moveConstruct 0,
    .names 0 [], .adopt oneTwo, .moveAssign 1 2 [], .toArrow 1, .names 1 [], .destroy 2]

theorem lookup_right_readAndMoved : ∃ s, exec step Arena.empty readAndMoved = some s ∧
    ∀ n u, exec step Arena.empty (readAndMoved.take n) = some u →
      ∀ i r, u.get i = some r → r.LookupRight :=
  ⟨_, rfl, (lookup_right_iff (rfl : exec step Arena.empty readAndMoved = _)).mpr (by decide)⟩

/-- A read that fails at the second column: the first name stays, and the next read puts
the names after it. -/
def readTwice : List ResultOp := [.adopt oneTwo, .names 0 [(1, noName)], .names 0 []]

/-- A result is given to Arrow after its names were read, and keeps them. -/
def readThenArrow : List ResultOp := [.adopt oneTwo, .names 0 [], .toArrow 0]

/-- A result is assigned to itself, and its vector comes out empty. -/
def assignedToItself : List ResultOp := [.adopt oneTwo, .names 0 [], .moveAssign 0 0 []]

/-- **Three ways to be wrong about the names.** -/
theorem lookup_wrong : [readTwice, readThenArrow, assignedToItself].Forall fun ops =>
    ∃ s r, exec step Arena.empty ops = some s ∧ s.get 0 = some r ∧ ¬ r.LookupRight := by
  rw [List.forall_iff_forall_mem]
  have hwrong : ∀ ops ∈ [readTwice, readThenArrow, assignedToItself],
      ∃ s r, exec step Arena.empty ops = some s ∧ s.get 0 = some r ∧ ¬ r.Coherent := by
    intro ops hops
    simp only [List.mem_cons, List.not_mem_nil, or_false] at hops
    rcases hops with rfl | rfl | rfl
    · exact ⟨_, _, rfl, rfl, by decide⟩
    · exact ⟨_, _, rfl, rfl, by decide⟩
    · exact ⟨_, _, rfl, rfl, by decide⟩
  intro ops hops
  obtain ⟨s, r, hs, hr, hno⟩ := hwrong ops hops
  exact ⟨s, r, hs, hr, fun h => hno (lookupRight_iff.mp h)⟩

end Result

end ZuCpp
