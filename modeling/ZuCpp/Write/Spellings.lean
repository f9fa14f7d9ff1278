import ZuCpp.Write.Picked

/-!
# Both spellings of a write

Every argument that both spellings of a write take is written as the same value by both,
unless it is a character pointer, or a class that becomes one, or a class that derives from
a `std::optional` and has a conversion of its own (`Writer.spellings_agree_iff`).
-/

namespace ZuCpp.Write

open Lib

variable {V : Type} {N : Numbers V} {M : Target} {w : Writer} {A : Ty} {P q : Param}

/-! ### A conversion that compiles gives a value -/

theorem passNumber_isSome {t u : Arith} (h : P.arith M = some u) (v : V) :
    (passNumber N M t P v).isSome := by
  cases P with
  | bool => rfl
  | int => rfl
  | int64 => rfl
  | double => rfl
  | _ => exact absurd h (by simp [Param.arith])

theorem Scalar.pass_isSome {s : Scalar} {a : Std} (h : s.std M P = some a) (v : s.Value V) :
    (s.pass N M P v).isSome := by
  cases s with
  | number t =>
    obtain ⟨u, hu, -⟩ := Option.map_eq_some_iff.mp h
    exact passNumber_isSome hu v
  | enumeration t fixed =>
    obtain ⟨u, hu, -⟩ := Option.map_eq_some_iff.mp h
    exact passNumber_isSome hu v
  | scopedEnumeration => exact absurd h (by simp [Scalar.std])
  | pointer t => cases t <;> cases P <;> first | rfl | exact absurd h (by simp [Scalar.std])
  | array t => cases t <;> cases P <;> first | rfl | exact absurd h (by simp [Scalar.std])
  | nullptr => cases P <;> first | rfl | exact absurd h (by simp [Scalar.std])

theorem Ret.pass_isSome {r : Ret} {a : Std} (h : r.std M P = some a) (v : r.Value V) :
    (r.pass N M P v).isSome := by
  cases r with
  | scalar s => exact Scalar.pass_isSome h v
  | known k =>
    cases P with
    | known l =>
      simp only [Ret.std] at h
      split at h
      · rename_i hkl
        subst hkl
        rw [Ret.pass, dif_pos rfl]
        rfl
      · exact absurd h (by simp)
    | _ => exact absurd h (by simp [Ret.std])

theorem ClassType.pass_isSome {c : ClassType} (hc : Compiles (c.conv M P) = true)
    (x : ClassValue V) : (c.pass N M x P).isSome := by
  cases hx : c.conv M P with
  | none =>
    rw [hx] at hc
    exact absurd hc (by simp [Compiles])
  | some y =>
    rw [hx] at hc
    rw [ClassType.pass, hx]
    cases y with
    | standard a =>
      rcases ClassType.conv_cases hx with ⟨k, -, rfl, -⟩ | hx
      · rfl
      · exact absurd hx ClassType.user_ne_standard
    | user f a =>
      rcases ClassType.conv_cases hx with ⟨k, -, -, hx⟩ | hx
      · exact absurd hx (by simp)
      · have hf := ClassType.user_serves hx
        cases f with
        | constructor =>
          obtain rfl : P = .known .bytes := hf.2.resolve_left (by simp)
          rfl
        | deleted => exact absurd hf (by simp [Via.Serves])
        | function i r => exact Ret.pass_isSome hf.1 _
        | specialization i Q => rfl
    | ambiguous => exact absurd hc (by simp [Compiles])

/-- **The overload that is picked gets a value**, unless it is the template. -/
theorem Ty.pass_isSome {cands : List Param} (h : picks M cands A = some P)
    (hbool : Param.bool ∈ cands) (hc : Compiles (A.conv M P) = true) (ho : P ≠ .optional)
    (v : A.Value V) : (A.pass N M P v).isSome := by
  obtain ⟨x, hx⟩ := conv_of_picks h
  cases A with
  | scalar s =>
    rcases Scalar.conv_cases hx with ⟨a, ha, -⟩ | hx'
    · simp only [Ty.pass, Option.isSome_or, Scalar.pass_isSome ha v, Bool.true_or]
    · -- a pointer converts to `bool`, so a constructor is not picked
      obtain ⟨k, rfl, ⟨rfl, hstd⟩ | ⟨rfl, -⟩⟩ := Scalar.construct_cases (M := M) hx'
      · have hconv : (Ty.scalar s).conv M .bool = some (.standard .pointerToBool) := by
          simp only [Ty.conv, hstd, Option.map_some, Option.some_or]
        exact absurd (better_of_picks h hx hbool hconv (by simp) (by simp)) id
      · rw [hx] at hc
        exact absurd hc (by simp [Compiles])
  | zero t =>
    cases P with
    | known k =>
      cases k with
      | stringView => exact absurd hc (by simp [Ty.conv, zeroConv, Compiles])
      | _ => exact absurd hx (by simp [Ty.conv, zeroConv, Scalar.std, Param.arith])
    | optional => exact absurd rfl ho
    | _ => rfl
  | known k =>
    obtain ⟨a, ha, -⟩ := Option.map_eq_some_iff.mp hx
    exact Ret.pass_isSome ha v
  | cls c => exact ClassType.pass_isSome hc v
  | optional T => cases P <;> first | exact absurd rfl ho | exact absurd hx (by simp [Ty.conv])
  | derived c T =>
    rw [Ty.conv_own rfl ho] at hc
    exact ClassType.pass_isSome hc v.1

/-! ### The calls -/

namespace Writer

theorem bool_mem (w : Writer) : .bool ∈ w.tryOverloads :=
  number_mem_tryOverloads (Or.inr (Or.inr rfl))

/-- What a call that compiles picks is usable, unless it is the template. -/
theorem picks_of_compiles (h : w.compiles M A = true) :
    ∃ P, picks M w.overloads A = some P ∧ (P ≠ .optional → Compiles (A.conv M P) = true) := by
  have hto : ∀ inner, compilesTo M w A inner = true →
      ∃ P, picks M w.overloads A = some P ∧ (P ≠ .optional → Compiles (A.conv M P) = true) := by
    intro inner hinner
    unfold compilesTo at hinner
    split at hinner
    · rename_i hP
      exact ⟨_, hP, fun hne => absurd rfl hne⟩
    · rename_i P _ hP
      exact ⟨P, hP, fun _ => hinner⟩
    · exact absurd hinner (by simp)
  cases A <;> exact hto _ h

theorem picks_of_tryCompiles (h : w.tryCompiles M A = true) :
    ∃ q, picks M w.tryOverloads A = some q ∧ Compiles (A.conv M q) = true := by
  unfold tryCompiles at h
  split at h
  · rename_i q hq
    exact ⟨q, hq, h⟩
  · exact absurd h (by simp)

theorem write_of_picks (h : picks M w.overloads A = some P) (ho : P ≠ .optional)
    (v : A.Value V) : w.write N M A v = (A.pass N M P v).bind (w.body N M P) := by
  have hto : ∀ inner, writeTo N M w A v inner = (A.pass N M P v).bind (w.body N M P) := by
    intro inner
    unfold writeTo
    rw [h]
    cases P <;> first | rfl | exact absurd rfl ho
  cases A <;> exact hto _

theorem tryWrite_of_picks (h : picks M w.tryOverloads A = some q) (v : A.Value V) :
    w.tryWrite N M A v = (A.pass N M q v).bind (w.tryBody q) := by
  rw [tryWrite, h]

theorem write_derived_none {c : ClassType} {T : Ty}
    (h : picks M w.overloads (.derived c T) = some .optional) (x : ClassValue V) :
    w.write N M (.derived c T) (x, none) = w.null := by
  show writeTo N M w (.derived c T) (x, none) w.null = w.null
  unfold writeTo
  rw [h]

end Writer

def WriteCall.isText : WriteCall V → Bool
  | zuBindStr _ _ => true
  | zuAppendStr _ => true
  | _ => false

theorem body_constCharPtr (t : Option Str) :
    ∃ call : WriteCall V, w.body N M .constCharPtr t = some call ∧ call.isText = true := by
  cases w with
  | statement name => exact ⟨_, rfl, rfl⟩
  | appender => exact ⟨_, rfl, rfl⟩

/-- Only the overload over `std::string_view` of the twin writes text. -/
theorem tryBody_isText (hq : q ∈ w.tryOverloads) (hne : q ≠ .known .stringView) {t : q.Value V}
    {call : WriteCall V} (h : w.tryBody q t = some call) : call.isText = false := by
  rcases Writer.mem_tryOverloads_cases hq with (rfl | rfl | rfl) | ⟨k, rfl⟩
  · cases w <;> (obtain rfl := Option.some.inj h; rfl)
  · cases w <;> (obtain rfl := Option.some.inj h; rfl)
  · cases w <;> (obtain rfl := Option.some.inj h; rfl)
  · cases k with
    | stringView => exact absurd rfl hne
    | temporal => cases w <;> (obtain rfl := Option.some.inj h; rfl)
    | bytes =>
      cases w with
      | statement name => exact absurd h (by simp [Writer.tryBody, tryBindBody])
      | appender => obtain rfl := Option.some.inj h; rfl

theorem tryBody_ne_null (hq : q ∈ w.tryOverloads) (t : q.Value V) {call : WriteCall V}
    (h : w.tryBody q t = some call) : w.null ≠ some call := by
  rcases Writer.mem_tryOverloads_cases hq with (rfl | rfl | rfl) | ⟨k, rfl⟩
  · cases w <;> (obtain rfl := Option.some.inj h; simp [Writer.null])
  · cases w <;> (obtain rfl := Option.some.inj h; simp [Writer.null])
  · cases w <;> (obtain rfl := Option.some.inj h; simp [Writer.null])
  · cases w with
    | appender => simp [Writer.null]
    | statement name =>
      cases k with
      | bytes => exact absurd h (by simp [Writer.tryBody, tryBindBody])
      | _ => obtain rfl := Option.some.inj h; simp [Writer.null]

/-! ### Every type has a value -/

def Scalar.someValue (N : Numbers V) : (s : Scalar) → s.Value V
  | number _ => N.zero
  | enumeration _ _ => N.zero
  | scopedEnumeration => N.zero
  | pointer (.char _) => none
  | pointer .byte => false
  | pointer .other => false
  | array (.char _) => []
  | array .byte => []
  | array .other => ()
  | nullptr => ()

def Known.someValue : (k : Known) → k.Value
  | stringView => []
  | temporal => ({} : Temporal)
  | bytes => []

def Param.someValue (N : Numbers V) : (P : Param) → P.Value V
  | bool => false
  | int => N.zero
  | int64 => N.zero
  | double => N.zero
  | constCharPtr => none
  | nullptr => ()
  | known k => k.someValue
  | optional => ()

def ClassValue.someValue (N : Numbers V) : ClassValue V where
  base := Known.someValue
  gives _ r := match r with
    | .scalar s => s.someValue N
    | .known k => k.someValue
  makes _ := Param.someValue N
  bytes := []

def Ty.someValue (N : Numbers V) : (A : Ty) → A.Value V
  | scalar s => s.someValue N
  | zero _ => ()
  | known k => k.someValue
  | cls _ => ClassValue.someValue N
  | optional _ => none
  | derived _ _ => (ClassValue.someValue N, none)

/-! ### The spellings -/

/-- **Both spellings make the same call of zu.h**, with the same value in it, for every value
of the type. -/
def Writer.Agree (N : Numbers V) (M : Target) (w : Writer) (A : Ty) : Prop :=
  ∀ v : A.Value V, ∃ call, w.write N M A v = some call ∧ w.tryWrite N M A v = some call

/-- **An overload that both spellings have is picked by both.** -/
theorem agree_of_try (h : picks M w.overloads A = some P) (hP : P ∈ w.tryOverloads)
    (hc : Compiles (A.conv M P) = true) : w.Agree N M A := by
  intro v
  have ho := Writer.ne_optional hP
  have hq : picks M w.tryOverloads A = some P :=
    resolve_of_subset (fun _ => Writer.mem_overloads_of_try) hP h
  obtain ⟨t, ht⟩ := Option.isSome_iff_exists.mp
    (Ty.pass_isSome (N := N) hq w.bool_mem hc ho v)
  obtain ⟨call, hcall⟩ := Option.isSome_iff_exists.mp (Writer.tryBody_isSome hP t)
  refine ⟨call, ?_, ?_⟩
  · rw [Writer.write_of_picks h ho, ht, Option.bind_some, ← Writer.tryBody_eq N hP, hcall]
  · rw [Writer.tryWrite_of_picks hq, ht, Option.bind_some, hcall]

/-- What goes to `const char*` is text for the throwing call alone. -/
theorem not_agree_of_constCharPtr (h : picks M w.overloads A = some .constCharPtr)
    (hc : Compiles (A.conv M .constCharPtr) = true) (ht : w.tryCompiles M A = true) :
    ¬ w.Agree N M A := by
  intro hagree
  obtain ⟨call, hwrite, htry⟩ := hagree (A.someValue N)
  obtain ⟨q, hq, -⟩ := Writer.picks_of_tryCompiles ht
  rw [Writer.write_of_picks h (by simp), Option.bind_eq_some_iff] at hwrite
  rw [Writer.tryWrite_of_picks hq, Option.bind_eq_some_iff] at htry
  obtain ⟨t, -, hbody⟩ := hwrite
  obtain ⟨t', -, htryBody⟩ := htry
  obtain ⟨call', hcall', htext⟩ := body_constCharPtr (w := w) (N := N) (M := M) t
  obtain rfl := Option.some.inj (hcall'.symm.trans hbody)
  have hnot := tryBody_isText (mem_of_picks hq) (tryPicks_ne_stringView h hc ht hq) htryBody
  exact absurd (htext.symm.trans hnot) (by simp)

/-- What goes to the template is a null for the throwing call alone, when it is empty. -/
theorem not_agree_of_optional {c : ClassType} {T : Ty}
    (h : picks M w.overloads (.derived c T) = some .optional)
    (ht : w.tryCompiles M (.derived c T) = true) : ¬ w.Agree N M (.derived c T) := by
  intro hagree
  obtain ⟨call, hwrite, htry⟩ := hagree (ClassValue.someValue N, none)
  obtain ⟨q, hq, -⟩ := Writer.picks_of_tryCompiles ht
  have hnull := (Writer.write_derived_none h _).symm.trans hwrite
  obtain ⟨t, -, htryBody⟩ :=
    Option.bind_eq_some_iff.mp ((Writer.tryWrite_of_picks hq _).symm.trans htry)
  exact tryBody_ne_null (mem_of_picks hq) t htryBody hnull

/-- **Of a type that both spellings take, both write the same value exactly when it is not
misread**: when it is no character pointer, no class that is written as one, and no class
that is written as the `std::optional` it derives from. -/
theorem Writer.spellings_agree_iff (N : Numbers V) (M : Target) (w : Writer) (A : Ty)
    (hcompiles : w.compiles M A = true) (htry : w.tryCompiles M A = true) :
    w.Agree N M A ↔ ¬ w.Misreads A := by
  obtain ⟨P, hP, hc⟩ := Writer.picks_of_compiles hcompiles
  obtain ⟨q, hq, -⟩ := Writer.picks_of_tryCompiles htry
  rcases Writer.mem_overloads_cases (mem_of_picks hP) with
    hmem | rfl | rfl | rfl | rfl
  · refine iff_of_true (agree_of_try hP hmem (hc (Writer.ne_optional hmem))) ?_
    intro hm
    exact not_try_of_misreads hm hP hmem
  · rw [tryPicks_of_int hP (hc (by simp))] at hq
    exact absurd hq (by simp)
  · have hcc := hc (by simp)
    exact iff_of_false (not_agree_of_constCharPtr hP hcc htry)
      (not_not_intro (misreads_of_constCharPtr hP hcc htry))
  · rw [not_tryCompiles_of_nullptr hP (hc (by simp))] at htry
    exact absurd htry (by simp)
  · obtain ⟨hm, name, c, T, rfl, rfl⟩ := misreads_of_optional hP htry
    exact iff_of_false (not_agree_of_optional hP htry) (not_not_intro hm)

/-- A `std::string` is written as text by both spellings of `bind`. -/
theorem Writer.spellings_agree_string :
    (Writer.statement []).Agree ⟨0, fun _ _ v => v, fun v => decide (v ≠ (0 : Int))⟩ Target.linux
      (.cls { conversions := [.function 0 (.known .stringView)] }) := by
  apply (Writer.spellings_agree_iff _ _ _ _ (by decide) (by decide)).mpr
  rintro ⟨-, object, s, hf, -⟩
  exact absurd hf (by simp)

/-- A string literal is text for `append` and a truth value for `try_append`. -/
theorem Writer.literal_misread :
    ¬ ∀ (w : Writer) (A : Ty), w.compiles Target.linux A = true →
      w.tryCompiles Target.linux A = true →
        w.Agree ⟨0, fun _ _ v => v, fun v => decide (v ≠ (0 : Int))⟩ Target.linux A := by
  intro h
  obtain ⟨call, hwrite, htry⟩ :=
    h .appender (.scalar (.array (.char true))) (by decide) (by decide) (ascii "hedy")
  exact absurd (hwrite.trans htry.symm) (by decide)

end ZuCpp.Write
