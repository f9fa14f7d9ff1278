import ZuCpp.Calls.Model

/-!
# Nothing that the engine says about a failure is lost

`Told` is what a call must have done with the statuses and the errors that the engine answered
to it (`Call.engine`), in both spellings, and `told_iff` says which calls have.

* Every `_impl` member does, whatever the engine answers and in either order of evaluation
  (`member_reported`).
* No program of calls that tell leaks an error handle (`program_clean`).
* `column` throws what a read of the names fails with, in the `try_` spelling too; `notices`
  keeps a failure to itself, and its slot keeps what it was given; the calls that are `noexcept`
  and `is_memory` drop the status.
-/

namespace ZuCpp.Calls

open Lib

variable {F T : Type}

/-! ### What the engine is asked -/

/-- The calls that a member makes of the engine, in their order. -/
def Member.engine : {T : Type} → Member F T → List EngineCall
  | _, .asBool C self => [.structural (C.bool self.v).1]
  | _, .asInt C self => [.structural (C.i64 self.v).1]
  | _, .asDouble C self => [.structural (C.f64 self.v).1]
  | _, .asString C self => [.structural (C.str self.v).1]
  | _, .asBytes C self => [.structural (C.bytes self.v).1]
  | _, .asDecimal C self => [.structural (C.decimal self.v).1]
  | _, .asTemporal C self => [.structural (C.temporal self.v).1]
  | _, .asNode C self => [.structural (C.node self.v).1]
  | _, .asRel C self => [.structural (C.rel self.v).1]
  | _, .atCall C self i => [.structural (C.valueAt self.v i).1]
  | _, .type C self row col => [.structural (C.cellType self.h.p row col).1]
  | _, .str C self row col => [.structural (C.cellStr self.h.p row col).1]
  | _, .cell C self row col => [.structural (C.cell self.h.p row col).1]
  | _, .field st _ | _, .nameOf st _ | _, .chunk st _ | _, .bindInt st | _, .bindDouble st
  | _, .bindBool st | _, .bindStr st | _, .bindTemporal st | _, .bindNull st | _, .cols st _
  | _, .countOf st _ | _, .discard st _ | _, .path st _ | _, .interrupt st | _, .rowsRead st _
  | _, .setProgress st | _, .inTransaction st _ | _, .registered st _ _ => [.structural st]
  | _, .ints answer _ | _, .doubles answer _ | _, .nodeOffsets answer _ | _, .valid answer _ =>
    [.structural answer.1]
  | _, .chunkInts extent answer | _, .chunkDoubles extent answer
  | _, .chunkNodeOffsets extent answer | _, .chunkValid extent answer =>
    if extent.1 = .ok ∨ extent.1 = .done then [.structural extent.1, .structural answer.1]
    else [.structural extent.1]
  | _, .toArrow answer | _, .execute answer _ | _, .appendBool answer | _, .appendInt answer
  | _, .appendDouble answer | _, .appendStr answer | _, .appendBytes answer
  | _, .appendTemporal answer | _, .endRow answer | _, .flush answer | _, .close answer _
  | _, .createLoader answer _ | _, .table answer | _, .loadInts answer | _, .loadDoubles answer
  | _, .loadBools answer | _, .loadStrings answer _ _ _ | _, .loadTemporal answer
  | _, .finish answer | _, .createFrame answer _ | _, .frameBools answer _ _ _
  | _, .frameStrings answer _ _ _ _ _ _ | _, .frameViews answer _ _ _ _ _ _ | _, .set answer
  | _, .openDatabase answer _ | _, .createDatabase answer _ | _, .memoryDatabase answer _
  | _, .connect answer _ | _, .openConnection answer _ | _, .createConnection answer _
  | _, .memoryConnection answer _ | _, .duplicate answer _ | _, .query answer _
  | _, .prepare answer _ | _, .begin answer | _, .commit answer | _, .rollback answer
  | _, .appender answer _ | _, .register answer | _, .unregister answer _ =>
    [.explained answer.1 answer.2]
  | _, .edges answer src dst =>
    if src.size ≠ dst.size then [] else [.explained answer.1 answer.2]
  | _, .frameColumn answer _ _ R scale temporal =>
    if R.elem.isFloating = true ∧ (scale ≠ 1 ∨ temporal ≠ .plain) then []
    else [.explained answer.1 answer.2]
  | _, .colName _ | _, .tableName _ _ => []

def Member.Refused : {T : Type} → Member F T → Prop
  | _, .edges _ src dst => src.size ≠ dst.size
  | _, .frameColumn _ _ _ R scale temporal =>
    R.elem.isFloating = true ∧ (scale ≠ 1 ∨ temporal ≠ .plain)
  | _, .colName p => p = none
  | _, .tableName h _ => h.p = none
  | _, _ => False

/-- The names that the loop of `names()` asks for: up to the first that fails. -/
def namesFrom (fails : Failures) : Nat → Nat → List EngineCall
  | 0, _ => []
  | k + 1, i =>
    match fails.lookup i with
    | some st => [.structural st]
    | none => .structural .ok :: namesFrom fails k (i + 1)

/-- The names that a lookup asks for, and none where they were read before. -/
def namesAsked (self : ZuCpp.Result) (fails : Failures) : List EngineCall :=
  if self.named then [] else namesFrom fails self.cols 0

/-- The notices that are asked for: up to the first that is not answered. -/
def noticesAsked (A : Notices) : Nat → Nat → List EngineCall
  | 0, _ => []
  | k + 1, i =>
    .explained (A i).1 (A i).2 :: if (A i).1 = .ok then noticesAsked A k (i + 1) else []

namespace Call

/-- The calls that a call makes of the engine, in their order. -/
def engine : {T : Type} → Call F T → List EngineCall
  | _, .member c => c.engine
  | _, .column self fails _ => namesAsked self fails
  | _, .notices A n => noticesAsked A n.toNat 0
  | _, .undo st out rollback =>
    if (st = .ok ∨ st = .done) ∧ out ≠ 0 then
      [.structural st, .explained rollback.1 rollback.2]
    else [.structural st]
  | _, .clearProgressQuietly st => [.structural st]
  | _, .isMemory st => [.structural st]

def Refused : {T : Type} → Call F T → Prop
  | _, .member c => c.Refused
  | _, .column self fails name => ∃ all, (self.namesCall fails).2 = .ok all ∧ name ∉ all
  | _, _ => False

/-- It is a member; or it is one of the others, and all that it asks of the engine succeeds, of
a notice without an error. -/
def Tells : {T : Type} → Call F T → Prop
  | _, .member _ => True
  | _, .notices A n => ∀ k ∈ (notices (F := F) A n).engine, k.Succeeds ∧ k.explanation = none
  | _, c => ∀ k ∈ c.engine, k.Succeeds

end Call

/-! ### What a call must have done -/

/-- What a call must have done with what the engine answered. -/
structure Told (order : EvalOrder) (c : Call F T) (m : Mem) : Prop where
  /-- success is what the statuses of success say, where the call does not refuse on its own -/
  success : (∃ v, (c.throwing order m).1 = .ok v) ↔ (∀ k ∈ c.engine, k.Succeeds) ∧ ¬ c.Refused
  /-- a failure carries the status, some message, and all that the engine said -/
  failure : ∀ k ∈ c.engine, ¬ k.Succeeds →
    ∃ E, (c.trying order m).1 = .ok (.error E) ∧ E.Tells k
  message : ∀ E, (c.trying order m).1 = .ok (.error E) → E.message ≠ []
  /-- the exception has the error that the `try_` spelling returns -/
  spellings : (∃ v, (c.throwing order m).1 = .ok v ∧ (c.trying order m).1 = .ok (.ok v)) ∨
    ∃ x, (c.throwing order m).1 = .error x ∧ (c.trying order m).1 = .ok (.error x.error)
  /-- every slot ends null, and every error is freed once and not touched afterwards -/
  memory : Settled (c.engine.map EngineCall.handles).sum m (c.trying order m).2
  same : (c.throwing order m).2 = (c.trying order m).2

/-- The same, where `engine` is what was asked of the engine and `r` is what both spellings make
of. -/
structure Reported (engine : List EngineCall) (refused : Prop) (m : Mem)
    (r : Except Exception (Outcome T)) (m' : Mem) : Prop where
  success : (∃ v, r = .ok (.ok v)) ↔ (∀ k ∈ engine, k.Succeeds) ∧ ¬ refused
  failure : ∀ k ∈ engine, ¬ k.Succeeds → ∃ E, r = .ok (.error E) ∧ E.Tells k
  message : ∀ E, r = .ok (.error E) → E.message ≠ []
  returns : ∃ o, r = .ok o
  memory : Settled (engine.map EngineCall.handles).sum m m'

theorem told_iff_reported {order : EvalOrder} {c : Call F T} {m : Mem} :
    Told order c m ↔
      Reported c.engine c.Refused m (c.run order m).1 (c.run order m).2 := by
  have hthrowing : (c.throwing order m).1 = (c.run order m).1.bind unwrap := rfl
  have htrying : (c.trying order m).1 = (c.run order m).1.map toExpected := rfl
  have hvalue : ∀ r : Except Exception (Outcome T),
      (∃ v, r.bind unwrap = .ok v) ↔ ∃ v, r = .ok (.ok v) := by
    rintro (x | E | v)
    · exact iff_of_false nofun nofun
    · exact iff_of_false nofun nofun
    · exact iff_of_true ⟨v, rfl⟩ ⟨v, rfl⟩
  have hfailure : ∀ (r : Except Exception (Outcome T)) E,
      r.map toExpected = .ok (.error E) ↔ r = .ok (.error E) := by
    rintro (x | E' | v) E
    · exact iff_of_false nofun nofun
    · exact Iff.rfl
    · exact iff_of_false nofun nofun
  constructor
  · rintro ⟨hs, hf, hmsg, hsp, hm, -⟩
    rw [hthrowing, hvalue] at hs
    simp only [htrying, hfailure] at hf hmsg
    refine ⟨hs, hf, hmsg, ?_, hm⟩
    rw [hthrowing, htrying] at hsp
    cases hr : (c.run order m).1 with
    | error x =>
      rw [hr] at hsp
      rcases hsp with ⟨v, hv, -⟩ | ⟨y, -, hy⟩
      · cases hv
      · cases hy
    | ok o => exact ⟨o, rfl⟩
  · rintro ⟨hs, hf, hmsg, ⟨o, ho⟩, hm⟩
    refine ⟨?_, ?_, ?_, ?_, hm, rfl⟩
    · rw [hthrowing, hvalue]
      exact hs
    · simp only [htrying, hfailure]
      exact hf
    · simp only [htrying, hfailure]
      exact hmsg
    · rw [hthrowing, htrying, ho]
      rcases unwrap_toExpected o with ⟨v, hv, hv'⟩ | ⟨x, hx, hx'⟩
      · exact Or.inl ⟨v, hv, congrArg Except.ok hv'⟩
      · exact Or.inr ⟨x, hx, congrArg Except.ok hx'⟩

section Reported

variable {engine : List EngineCall} {refused : Prop} {m m' : Mem}

theorem reported_value_iff (v : T) : Reported engine refused m (.ok (.ok v)) m' ↔
    ((∀ k ∈ engine, k.Succeeds) ∧ ¬ refused) ∧
      Settled (engine.map EngineCall.handles).sum m m' := by
  constructor
  · intro h
    exact ⟨h.success.mp ⟨v, rfl⟩, h.memory⟩
  · rintro ⟨⟨hs, hr⟩, hm⟩
    exact ⟨iff_of_true ⟨v, rfl⟩ ⟨hs, hr⟩, fun k hk hno => absurd (hs k hk) hno,
      fun _ h => (nomatch h), ⟨_, rfl⟩, hm⟩

theorem reported_failure {E : Error} (hno : ∃ k ∈ engine, ¬ k.Succeeds)
    (hE : ∀ k ∈ engine, ¬ k.Succeeds → E.Tells k)
    (hm : Settled (engine.map EngineCall.handles).sum m m') :
    Reported (T := T) engine refused m (.ok (.error E)) m' := by
  obtain ⟨k, hk, hkno⟩ := hno
  refine ⟨iff_of_false nofun fun h => hkno (h.1 k hk), fun j hj hjno => ⟨E, rfl, hE j hj hjno⟩,
    fun E' h => ?_, ⟨_, rfl⟩, hm⟩
  cases h
  exact (hE k hk hkno).message

theorem reported_refusal (hs : ∀ k ∈ engine, k.Succeeds) (hr : refused) {E : Error}
    (hE : E.message ≠ []) (hm : Settled (engine.map EngineCall.handles).sum m m') :
    Reported (T := T) engine refused m (.ok (.error E)) m' := by
  refine ⟨iff_of_false nofun fun h => h.2 hr, fun k hk hno => absurd (hs k hk) hno,
    fun E' h => ?_, ⟨_, rfl⟩, hm⟩
  cases h
  exact hE

theorem tells_ofStatus (st : Status) (what : Str) :
    (Error.ofStatus st what).Tells (.structural st) :=
  ⟨rfl, Error.fallback_ne_nil st what, fun _ hx => nomatch hx⟩

theorem message_ofStatus (st : Status) (what : Str) : (Error.ofStatus st what).message ≠ [] :=
  Error.fallback_ne_nil st what

/-- **One call and its `checked`.** -/
theorem reported_impl (order : EvalOrder) (c : EngineCall) (what : Str) (value : T) (m : Mem) :
    Reported [c] False m (.ok (impl order c what value m).1) (impl order c what value m).2 := by
  have hmem : Settled (([c] : List EngineCall).map EngineCall.handles).sum m (c.after m) := by
    simpa using settled_after c m
  by_cases h : c.Succeeds
  · rw [impl_of_succeeds order h]
    exact (reported_value_iff value).mpr ⟨⟨List.forall_mem_singleton.mpr h, not_false⟩, hmem⟩
  · obtain ⟨E, hE, htells⟩ := impl_of_fails order h what value m
    rw [hE]
    exact reported_failure ⟨c, List.mem_singleton_self c, h⟩
      (List.forall_mem_singleton.mpr fun _ => htells) hmem

theorem reported_structuralImpl (what : String) (st : Status) (value : T) (m : Mem) :
    Reported [.structural st] False m (.ok (structuralImpl what st value m).1)
      (structuralImpl what st value m).2 := reported_impl _ _ _ _ _

theorem reported_explainedImpl (order : EvalOrder) (what : String) (answer : Reply) (value : T)
    (m : Mem) :
    Reported [.explained answer.1 answer.2] False m
      (.ok (explainedImpl order what answer value m).1)
      (explainedImpl order what answer value m).2 := reported_impl _ _ _ _ _

theorem reported_spanImpl (answer : Columns.Answer) (rows : UInt64) (what : Str) (m : Mem) :
    Reported [.structural answer.1] False m (.ok (Columns.spanImpl answer rows what m).1)
      (Columns.spanImpl answer rows what m).2 := by
  rw [Columns.World.spanImpl_eq]
  dsimp only
  by_cases h : answer.1 = .ok ∨ answer.1 = .done
  · have hs : (EngineCall.structural answer.1).Succeeds := h
    rw [if_pos h]
    exact (reported_value_iff _).mpr ⟨⟨List.forall_mem_singleton.mpr hs, not_false⟩, .refl m⟩
  · have hno : ¬ (EngineCall.structural answer.1).Succeeds := h
    rw [if_neg h]
    exact reported_failure ⟨_, List.mem_singleton_self _, hno⟩
      (List.forall_mem_singleton.mpr fun _ => tells_ofStatus _ what) (.refl m)

theorem reported_chunkColumnImpl (extent : Status × Columns.ChunkExtent) (answer : Columns.Answer)
    (what : Str) (m : Mem) :
    Reported (if extent.1 = .ok ∨ extent.1 = .done then
        [.structural extent.1, .structural answer.1] else [.structural extent.1]) False m
      (.ok (Columns.chunkColumnImpl extent answer what m).1)
      (Columns.chunkColumnImpl extent answer what m).2 := by
  by_cases hextent : extent.1 = .ok ∨ extent.1 = .done
  · have hfirst : (EngineCall.structural extent.1).Succeeds := hextent
    rw [if_pos hextent, Columns.World.chunkColumnImpl_eq hextent]
    dsimp only
    by_cases h : answer.1 = .ok ∨ answer.1 = .done
    · have hs : (EngineCall.structural answer.1).Succeeds := h
      rw [if_pos h]
      have hboth := List.forall_mem_cons.mpr ⟨hfirst, List.forall_mem_singleton.mpr hs⟩
      exact (reported_value_iff _).mpr ⟨⟨hboth, not_false⟩, .refl m⟩
    · have hno : ¬ (EngineCall.structural answer.1).Succeeds := h
      rw [if_neg h]
      refine reported_failure ⟨_, List.mem_cons_of_mem _ (List.mem_singleton_self _), hno⟩ ?_
        (.refl m)
      exact List.forall_mem_cons.mpr ⟨fun hf => absurd hfirst hf,
        List.forall_mem_singleton.mpr fun _ => tells_ofStatus _ what⟩
  · have hno : ¬ (EngineCall.structural extent.1).Succeeds := hextent
    rw [if_neg hextent, Columns.World.chunkColumnImpl_refused hextent]
    exact reported_failure ⟨_, List.mem_singleton_self _, hno⟩
      (List.forall_mem_singleton.mpr fun _ => tells_ofStatus _ _) (.refl m)

theorem numericImpl_eq (M : Target) (name : Span) (R : NumericRange) (scale : Int64)
    (temporal : TemporalKind) :
    ∃ call E, E.message ≠ [] ∧ ZuCpp.numericImpl M name R scale temporal
      = if R.elem.isFloating = true ∧ (scale ≠ 1 ∨ temporal ≠ .plain) then .error E
        else .ok call := by
  have hmsg := message_ofStatus .misuse
    (ascii "a column of floats carries no scale and no temporal meaning")
  rw [ZuCpp.numericImpl]
  by_cases hfloat : R.elem.isFloating = true
  · refine ⟨.zuFrameColFloat name R.values.data R.values.size (.ofNat (M.sizeof R.elem * 8)), _,
      hmsg, ?_⟩
    rw [if_pos hfloat]
    by_cases hmeans : scale ≠ 1 ∨ temporal ≠ .plain
    · rw [if_pos hmeans, if_pos ⟨hfloat, hmeans⟩]
    · rw [if_neg hmeans, if_neg fun h => hmeans h.2]
  · refine ⟨.zuFrameColInt name R.values.data R.values.size (.ofNat (M.sizeof R.elem * 8))
      (if M.isSigned R.elem then 1 else 0) scale temporal, _, hmsg, ?_⟩
    have hno : ¬ (R.elem.isFloating = true ∧ (scale ≠ 1 ∨ temporal ≠ .plain)) :=
      fun h => hfloat h.1
    rw [if_neg hfloat, if_neg hno]

theorem reported_sendImpl (order : EvalOrder) {P : Prop} [Decidable P] {E : Error}
    (hE : E.message ≠ []) (call : BulkCall) (answer : Reply) (m : Mem) :
    Reported (if P then [] else [.explained answer.1 answer.2]) P m
      (.ok (sendImpl order (if P then .error E else .ok call) answer m).1)
      (sendImpl order (if P then .error E else .ok call) answer m).2 := by
  by_cases h : P
  · simp only [if_pos h]
    exact reported_refusal (List.forall_mem_nil _) h hE (.refl m)
  · simp only [if_neg h]
    have htold := reported_explainedImpl order (callName call) answer () m
    rwa [← eq_false h] at htold

end Reported

/-! ### The members -/

/-- **Every member tells.** -/
theorem member_reported (order : EvalOrder) (c : Member F T) (m : Mem) :
    Reported c.engine c.Refused m (.ok (c.run order m).1) (c.run order m).2 := by
  cases c with
  | ints answer rows => exact reported_spanImpl answer rows _ m
  | doubles answer rows => exact reported_spanImpl answer rows _ m
  | nodeOffsets answer rows => exact reported_spanImpl answer rows _ m
  | valid answer rows => exact reported_spanImpl answer rows _ m
  | chunkInts extent answer => exact reported_chunkColumnImpl extent answer _ m
  | chunkDoubles extent answer => exact reported_chunkColumnImpl extent answer _ m
  | chunkNodeOffsets extent answer => exact reported_chunkColumnImpl extent answer _ m
  | chunkValid extent answer => exact reported_chunkColumnImpl extent answer _ m
  | colName p =>
    cases p with
    | none => exact reported_refusal (List.forall_mem_nil _) rfl (message_ofStatus _ _) (.refl m)
    | some name => exact (reported_value_iff name).mpr ⟨⟨List.forall_mem_nil _, nofun⟩, .refl m⟩
  | tableName h p =>
    obtain ⟨_ | e⟩ := h
    · exact reported_refusal (List.forall_mem_nil _) rfl (message_ofStatus _ _) (.refl m)
    · exact (reported_value_iff p).mpr ⟨⟨List.forall_mem_nil _, nofun⟩, .refl m⟩
  | edges answer src dst => exact reported_sendImpl order (message_ofStatus _ _) _ answer m
  | frameColumn answer M name R scale temporal =>
    obtain ⟨call, E, hE, hcall⟩ := numericImpl_eq M name R scale temporal
    have htold := reported_sendImpl order
      (P := R.elem.isFloating = true ∧ (scale ≠ 1 ∨ temporal ≠ .plain)) hE call answer m
    rw [← hcall] at htold
    exact htold
  | _ => first | exact reported_structuralImpl _ _ _ m | exact reported_explainedImpl _ _ _ _ m

/-! ### The others -/

section Column

variable {self : ZuCpp.Result} {fails : Failures}

theorem namesFrom_succeed_iff : ∀ (k i : Nat) (names : List Str), i + k = self.cols →
    ((∀ c ∈ namesFrom fails k i, c.Succeeds) ↔ (self.fill fails k i names).2 = none) := by
  intro k
  induction k with
  | zero => exact fun i names _ => iff_of_true (List.forall_mem_nil _) rfl
  | succ k ih =>
    intro i names hik
    rw [namesFrom, ZuCpp.Result.fill]
    cases hf : fails.lookup i with
    | some st =>
      rw [ZuCpp.Result.nameImpl_of_fails hf]
      exact iff_of_false (fun h => st.2 (h (.structural st) (List.mem_singleton_self _)))
        (Option.some_ne_none _)
    | none =>
      have hi : i < self.columnNames.length := by
        rw [ZuCpp.Result.cols] at hik
        omega
      rw [ZuCpp.Result.nameImpl_of_name hf (List.getElem?_eq_getElem hi)]
      dsimp only
      rw [List.forall_mem_cons]
      have hok : (EngineCall.structural .ok).Succeeds := Or.inl rfl
      exact (and_iff_right hok).trans (ih (i + 1) _ (by omega))

theorem namesAsked_succeed_iff : (∀ c ∈ namesAsked self fails, c.Succeeds) ↔
    ∃ all, (self.namesCall fails).2 = .ok all := by
  rw [namesAsked, ZuCpp.Result.namesCall]
  by_cases hn : self.named = true
  · rw [if_pos hn, if_pos hn]
    exact iff_of_true (List.forall_mem_nil _) ⟨_, rfl⟩
  · rw [if_neg hn, if_neg hn, namesFrom_succeed_iff self.cols 0 self.names (Nat.zero_add _)]
    dsimp only
    cases (self.fill fails self.cols 0 self.names).2 with
    | none => exact iff_of_true rfl ⟨_, rfl⟩
    | some x =>
      refine iff_of_false (Option.some_ne_none x) ?_
      rintro ⟨all, h⟩
      injection h

theorem namesAsked_handles : ((namesAsked self fails).map EngineCall.handles).sum = 0 := by
  have hfrom : ∀ k i, ((namesFrom fails k i).map EngineCall.handles).sum = 0 := by
    intro k
    induction k with
    | zero => exact fun _ => rfl
    | succ k ih =>
      intro i
      rw [namesFrom]
      cases fails.lookup i with
      | some st => rfl
      | none => exact (Nat.zero_add _).trans (ih (i + 1))
  rw [namesAsked]
  split
  · rfl
  · exact hfrom _ _

theorem reported_column_iff (name : Str) (m : Mem) :
    Reported (namesAsked self fails) (∃ all, (self.namesCall fails).2 = .ok all ∧ name ∉ all) m
      (self.columnImpl fails name).2 m ↔ ∀ c ∈ namesAsked self fails, c.Succeeds := by
  have hmem : Settled ((namesAsked self fails).map EngineCall.handles).sum m m := by
    rw [namesAsked_handles]
    exact .refl m
  rw [ZuCpp.Result.columnImpl, ZuCpp.Result.find]
  dsimp only
  constructor
  · intro h
    rw [namesAsked_succeed_iff]
    obtain ⟨o, ho⟩ := h.returns
    cases hall : (self.namesCall fails).2 with
    | error x =>
      rw [hall] at ho
      cases ho
    | ok all => exact ⟨all, rfl⟩
  · intro hs
    obtain ⟨all, hall⟩ := namesAsked_succeed_iff.mp hs
    rw [hall]
    cases hfind : all.findIdx? (· == name) with
    | none =>
      have hno : name ∉ all := fun hname => by
        obtain ⟨j, hj⟩ := List.mem_iff_getElem?.mp hname
        exact ZuCpp.Result.findIdx?_none hfind j hj
      have hrefused : ∃ l, (Except.ok all : Except Exception (List Str)) = .ok l ∧ name ∉ l :=
        ⟨all, rfl, hno⟩
      simpa [Except.map, hfind] using
        reported_refusal (T := Nat) hs hrefused (message_ofStatus .misuse _) hmem
    | some i =>
      have hname : name ∈ all := List.mem_of_getElem? (ZuCpp.Result.findIdx?_names hfind).1
      have hfound : ¬ ∃ l, (Except.ok all : Except Exception (List Str)) = .ok l ∧ name ∉ l := by
        rintro ⟨l, hl, hno⟩
        cases hl
        exact hno hname
      simpa [Except.map, hfind] using (reported_value_iff i).mpr ⟨⟨hs, hfound⟩, hmem⟩

end Column

section Notices

variable {A : Notices} {m : Mem}

theorem noticesFrom_slots {s : Nat} {e : Option Nat} : ∀ {k i : Nat} {m : Mem},
    m.slots.get s = some e → (noticesFrom A k i m).2.slots.get s = some e := by
  intro k
  induction k with
  | zero => exact fun h => h
  | succ k ih =>
    intro i m h
    have hcalled : (m.called (A i).2).slots.get s = some e := by
      rw [called_slots, if_neg (Arena.lt_next_of_get h).ne, h]
    by_cases hok : (A i).1 = .ok
    · rw [noticesFrom_of_ok hok]
      exact ih (m := m.taken (A i).2) hcalled
    · rw [noticesFrom_of_refused hok]
      exact hcalled

theorem noticesFrom_dangling : ∀ {k i : Nat} {m : Mem},
    (∃ c ∈ noticesAsked A k i, c.explanation ≠ none) →
      ∃ s e, m.slots.get s = none ∧ (noticesFrom A k i m).2.slots.get s = some (some e) := by
  intro k
  induction k with
  | zero => exact fun ⟨_, hc, _⟩ => absurd hc List.not_mem_nil
  | succ k ih =>
    rintro i m ⟨c, hc, hleaves⟩
    by_cases hnone : (A i).2 = none
    · -- it is one of the later ones
      have hlater : (A i).1 = .ok ∧ c ∈ noticesAsked A k (i + 1) := by
        rw [noticesAsked] at hc
        rcases List.mem_cons.mp hc with rfl | hc
        · exact absurd hnone hleaves
        · by_cases hok : (A i).1 = .ok
          · rw [if_pos hok] at hc
            exact ⟨hok, hc⟩
          · rw [if_neg hok] at hc
            exact absurd hc List.not_mem_nil
      obtain ⟨s, e, hs, he⟩ := ih (m := m.taken (A i).2) ⟨c, hlater.2, hleaves⟩
      refine ⟨s, e, ?_, ?_⟩
      · have hslots : (m.called (A i).2).slots.get s = none := hs
        rw [called_slots] at hslots
        split at hslots
        · cases hslots
        · exact hslots
      · rw [noticesFrom_of_ok hlater.1]
        exact he
    · obtain ⟨x, hx⟩ := Option.ne_none_iff_exists'.mp hnone
      have hslot : (m.called (A i).2).slots.get m.slots.next = some (some m.errors.next) := by
        rw [called_slot, hx]
        rfl
      refine ⟨m.slots.next, m.errors.next, Arena.get_next, ?_⟩
      by_cases hok : (A i).1 = .ok
      · rw [noticesFrom_of_ok hok]
        exact noticesFrom_slots (m := m.taken (A i).2) hslot
      · rw [noticesFrom_of_refused hok]
        exact hslot

/-- A call that leaves no error declares a slot and nothing else. -/
theorem settled_called_none (m : Mem) : Settled 0 m (m.called none) := by
  have h := settled_after (.explained .ok none) m
  rwa [EngineCall.after, settled_none] at h

theorem noticesFrom_settled : ∀ {k i : Nat} {m : Mem},
    (∀ c ∈ noticesAsked A k i, c.explanation = none) → Settled 0 m (noticesFrom A k i m).2 := by
  intro k
  induction k with
  | zero => exact fun _ => .refl _
  | succ k ih =>
    intro i m h
    rw [noticesAsked, List.forall_mem_cons] at h
    have hnone : (A i).2 = none := h.1
    by_cases hok : (A i).1 = .ok
    · rw [noticesFrom_of_ok hok, hnone]
      rw [if_pos hok] at h
      exact (settled_called_none m).trans (ih (m := m.taken none) h.2)
    · rw [noticesFrom_of_refused hok, hnone]
      exact settled_called_none m

theorem handles_eq_zero {engine : List EngineCall} (h : ∀ c ∈ engine, c.explanation = none) :
    (engine.map EngineCall.handles).sum = 0 := by
  refine List.sum_eq_zero fun n hn => ?_
  obtain ⟨c, hc, rfl⟩ := List.mem_map.mp hn
  rw [EngineCall.handles, h c hc]
  rfl

theorem reported_notices_iff (n : Nat) (m : Mem) :
    Reported (noticesAsked A n 0) False m (.ok (.ok (noticesFrom A n 0 m).1))
        (noticesFrom A n 0 m).2 ↔
      ∀ c ∈ noticesAsked A n 0, c.Succeeds ∧ c.explanation = none := by
  rw [reported_value_iff]
  constructor
  · rintro ⟨⟨hs, -⟩, hmem⟩ c hc
    refine ⟨hs c hc, ?_⟩
    by_contra hleaves
    obtain ⟨s, e, hnone, hsome⟩ := noticesFrom_dangling (m := m) ⟨c, hc, hleaves⟩
    rcases hmem.null s hnone with h | h
    · rw [hsome] at h
      cases h
    · rw [hsome] at h
      cases h
  · intro h
    have hnone : ∀ c ∈ noticesAsked A n 0, c.explanation = none := fun c hc => (h c hc).2
    refine ⟨⟨fun c hc => (h c hc).1, not_false⟩, ?_⟩
    rw [handles_eq_zero hnone]
    exact noticesFrom_settled hnone

end Notices

theorem settled_undo (order : EvalOrder) (st : Status) (out : Int32) (rollback : Reply) (m : Mem) :
    Settled ((Call.engine (F := F) (.undo st out rollback)).map EngineCall.handles).sum m
      (Transaction.undo order st out rollback m).2 := by
  rw [Call.engine, Transaction.undo]
  by_cases hst : st = .ok ∨ st = .done
  · have hrunning : Connection.inTransactionImpl st out m = (.ok (out != 0), m) :=
      impl_of_succeeds .callFirst (c := .structural st) hst _ _ m
    rw [bind_of_eq hrunning]
    by_cases hout : out = 0
    · rw [if_neg fun h => h.2 hout, hout]
      exact .refl m
    · rw [if_pos ⟨hst, hout⟩, bne_iff_ne.mpr hout]
      have hmem := (reported_explainedImpl order "zu_rollback" rollback () m).memory
      exact (Settled.refl m).trans hmem
  · have hrefused : ∃ E, Connection.inTransactionImpl st out m = (.error E, m) := by
      obtain ⟨E, hE, -⟩ := impl_of_fails .callFirst (c := .structural st) hst
        (ascii "zu_conn_in_transaction") (out != 0) m
      exact ⟨E, hE⟩
    obtain ⟨E, hE⟩ := hrefused
    rw [if_neg fun h => hst h.1, bind_of_eq hE]
    exact .refl m

/-! ### Which calls tell -/

theorem reported_iff_tells (order : EvalOrder) (c : Call F T) (m : Mem) :
    Reported c.engine c.Refused m (c.run order m).1 (c.run order m).2 ↔ c.Tells := by
  cases c with
  | member c => exact iff_of_true (member_reported order c m) trivial
  | column self fails name => exact reported_column_iff name m
  | notices A n => exact reported_notices_iff n.toNat m
  | undo st out rollback =>
    exact (reported_value_iff ()).trans
      ⟨fun h => h.1.1, fun h => ⟨⟨h, not_false⟩, settled_undo order st out rollback m⟩⟩
  | clearProgressQuietly st =>
    exact (reported_value_iff ()).trans ⟨fun h => h.1.1, fun h => ⟨⟨h, not_false⟩, .refl m⟩⟩
  | isMemory st =>
    exact (reported_value_iff _).trans ⟨fun h => h.1.1, fun h => ⟨⟨h, not_false⟩, .refl m⟩⟩

/-- A program that makes the calls one after the other, whatever comes of each. -/
def program (m : Mem) : List (EvalOrder × (T : Type) × Call F T) → Mem
  | [] => m
  | (order, ⟨_, c⟩) :: rest => program (c.run order m).2 rest

theorem clean_run {m : Mem} (hm : m.Clean) (order : EvalOrder) {c : Call F T} (hc : c.Tells) :
    (c.run order m).2.Clean :=
  ((reported_iff_tells order c m).mpr hc).memory.clean hm

theorem clean_program {m : Mem} (hm : m.Clean) {cs : List (EvalOrder × (T : Type) × Call F T)}
    (hcs : ∀ c ∈ cs, c.2.2.Tells) : (program m cs).Clean := by
  induction cs generalizing m with
  | nil => exact hm
  | cons c cs ih =>
    obtain ⟨order, T, c⟩ := c
    rw [List.forall_mem_cons] at hcs
    exact ih (clean_run hm order hcs.1) hcs.2

/-- **No program leaks an error handle.**  After any calls that tell, with any answers, every
error the engine made was freed exactly once, and none was read or freed after that. -/
theorem program_clean {cs : List (EvalOrder × (T : Type) × Call F T)}
    (hcs : ∀ c ∈ cs, c.2.2.Tells) : (program {} cs).Clean :=
  clean_program clean_init hcs

/-- **Nothing the engine says about a failure is lost and no error handle leaks, exactly.**
Whatever the engine answers, in either order of evaluation and from any memory, a call does with
it what `Told` says if and only if it is a call of an `_impl` member other than `column_impl`, or
all that it asks of the engine succeeds, of a notice without an error. -/
theorem told_iff (order : EvalOrder) (c : Call F T) (m : Mem) : Told order c m ↔ c.Tells :=
  told_iff_reported.trans (reported_iff_tells order c m)

def nameUnread : Call Unit Nat :=
  .column { h := .ofPtr ZuCpp.Result.oneTwo } [(0, ZuCpp.Result.noName)] (ascii "one")

def noticeRefused : Call Unit (List Error) := .notices secondRefused 3

/-- **Two failures that are not told.**  `try_column` throws instead of answering an `Error`, and
`notices` answers the first notice and leaves the error of the second. -/
theorem failures_untold :
    (¬ Told .callFirst nameUnread {} ∧
      (nameUnread.trying .callFirst {}).1
        = .error (ZuCpp.Result.noColName ZuCpp.Result.noName)) ∧
    ¬ Told .callFirst noticeRefused {} ∧
      (noticeRefused.trying .callFirst {}).1 = .ok (.ok [noticeError (secondRefused 0)]) ∧
      (noticeRefused.trying .callFirst {}).2.errors.get 1 = some {} := by
  have hthrown : (nameUnread.trying .callFirst {}).1
      = .error (ZuCpp.Result.noColName ZuCpp.Result.noName) := rfl
  have hanswered : (noticeRefused.trying .callFirst {}).1
      = .ok (.ok [noticeError (secondRefused 0)]) := rfl
  refine ⟨⟨fun h => ?_, hthrown⟩, fun h => ?_, hanswered, rfl⟩
  · rcases h.spellings with ⟨v, -, hv⟩ | ⟨x, -, hx⟩
    · rw [hthrown] at hv
      cases hv
    · rw [hthrown] at hx
      cases hx
  · have hasked : EngineCall.explained .misuse (some {}) ∈ noticeRefused.engine := by decide
    obtain ⟨E, hE, -⟩ := h.failure _ hasked (by decide)
    rw [hanswered] at hE
    cases hE

end ZuCpp.Calls
