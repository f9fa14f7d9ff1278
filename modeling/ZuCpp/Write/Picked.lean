import ZuCpp.Write.Convert

/-!
# Where the twin goes

`bind` and `append` have overloads that their `try_` twins lack: over `int`, over
`const char*`, and for `bind` over `std::nullptr_t` and `std::optional<T>`.  Where the
throwing call picks an overload that the twin has as well, so does the twin
(`Lib.resolve_of_subset`).  For the others:

* `tryPicks_of_int`: what goes to `int` has no best overload in the twin, because its
  conversions to `std::int64_t`, to `double` and to `bool` are all of one rank.
* `not_tryCompiles_of_nullptr`: what goes to `std::nullptr_t` reaches a deleted constructor
  there, or nothing.
* `constCharPtr_cases`, `tryPicks_ne_stringView`: **what goes to `const char*` does not go to
  `std::string_view` there**, since a pointer converts to `bool` by itself and to a
  `std::string_view` only through a constructor.
* `misreads_of_optional`: a class that derives from a `std::optional` goes to the template,
  and in the twin through a conversion of its own.

`not_try_of_misreads` is the converse: of what is misread (`Writer.Misreads`) the throwing
call picks none of the shared overloads.
-/

namespace ZuCpp.Write

open Lib

variable {M : Target}

/-! ### The two lists of overloads -/

namespace Writer

variable {w : Writer} {P : Param}

theorem mem_overloads_of_try (h : P ∈ w.tryOverloads) : P ∈ w.overloads := by
  have hbind : ∀ P ∈ tryBindOverloads, P ∈ bindOverloads := by decide
  have happend : ∀ P ∈ tryAppendOverloads, P ∈ appendOverloads := by decide
  cases w with
  | statement name => exact hbind P h
  | appender => exact happend P h

theorem mem_overloads_cases (h : P ∈ w.overloads) : P ∈ w.tryOverloads ∨ P = .int ∨
    P = .constCharPtr ∨ P = .nullptr ∨ P = .optional := by
  have hbind : ∀ P ∈ bindOverloads, P ∈ tryBindOverloads ∨ P = .int ∨ P = .constCharPtr ∨
      P = .nullptr ∨ P = .optional := by decide
  have happend : ∀ P ∈ appendOverloads, P ∈ tryAppendOverloads ∨ P = .int ∨
      P = .constCharPtr ∨ P = .nullptr ∨ P = .optional := by decide
  cases w with
  | statement name => exact hbind P h
  | appender => exact happend P h

theorem mem_tryOverloads_cases (h : P ∈ w.tryOverloads) :
    (P = .int64 ∨ P = .double ∨ P = .bool) ∨ ∃ k, P = .known k := by
  have hcases : ∀ P ∈ tryAppendOverloads, (P = .int64 ∨ P = .double ∨ P = .bool) ∨
      P = .known .stringView ∨ P = .known .bytes ∨ P = .known .temporal := by decide
  have hsub : ∀ P ∈ tryBindOverloads, P ∈ tryAppendOverloads := by decide
  have h' : P ∈ tryAppendOverloads := by
    cases w with
    | statement name => exact hsub P h
    | appender => exact h
  rcases hcases P h' with h | h | h | h
  · exact Or.inl h
  all_goals exact Or.inr ⟨_, h⟩

theorem number_mem_tryOverloads (h : P = .int64 ∨ P = .double ∨ P = .bool) :
    P ∈ w.tryOverloads := by
  have hbind : ∀ P, (P = .int64 ∨ P = .double ∨ P = .bool) → P ∈ tryBindOverloads := by
    rintro P (rfl | rfl | rfl) <;> decide
  have happend : ∀ P, (P = .int64 ∨ P = .double ∨ P = .bool) → P ∈ tryAppendOverloads := by
    rintro P (rfl | rfl | rfl) <;> decide
  cases w with
  | statement name => exact hbind P h
  | appender => exact happend P h

theorem constCharPtr_mem (w : Writer) : .constCharPtr ∈ w.overloads := by
  cases w with
  | statement name => exact show .constCharPtr ∈ bindOverloads by decide
  | appender => exact show .constCharPtr ∈ appendOverloads by decide

theorem int_mem (w : Writer) : .int ∈ w.overloads := by
  cases w with
  | statement name => exact show .int ∈ bindOverloads by decide
  | appender => exact show .int ∈ appendOverloads by decide

theorem not_mem_tryOverloads (h : P = .int ∨ P = .constCharPtr ∨ P = .nullptr ∨ P = .optional) :
    P ∉ w.tryOverloads := by
  intro hmem
  rcases mem_tryOverloads_cases hmem with (rfl | rfl | rfl) | ⟨k, rfl⟩
  all_goals exact absurd h (by simp)

theorem ne_optional (h : P ∈ w.tryOverloads) : P ≠ .optional := fun ho =>
  not_mem_tryOverloads (Or.inr (Or.inr (Or.inr ho))) h

theorem constCharPtr_not_mem (w : Writer) : .constCharPtr ∉ w.tryOverloads :=
  not_mem_tryOverloads (Or.inr (Or.inl rfl))

/-- An overload that both spellings have does the same in both. -/
theorem tryBody_eq {V : Type} (N : Numbers V) (h : P ∈ w.tryOverloads) (v : P.Value V) :
    w.tryBody P v = w.body N M P v := by
  rcases mem_tryOverloads_cases h with (rfl | rfl | rfl) | ⟨k, rfl⟩
  · cases w <;> rfl
  · cases w <;> rfl
  · cases w <;> rfl
  · cases w <;> cases k <;> rfl

theorem tryBody_isSome {V : Type} (h : P ∈ w.tryOverloads) (v : P.Value V) :
    (w.tryBody P v).isSome := by
  rcases mem_tryOverloads_cases h with (rfl | rfl | rfl) | ⟨k, rfl⟩
  · cases w <;> rfl
  · cases w <;> rfl
  · cases w <;> rfl
  · cases w with
    | statement name =>
      cases k with
      | stringView => rfl
      | temporal => rfl
      | bytes => exact absurd (show .known .bytes ∈ tryBindOverloads from h) (by decide)
    | appender => cases k <;> rfl

end Writer

/-! ### What is picked -/

section Picked

variable {cands : List Param} {w : Writer} {A : Ty} {p q : Param} {x y : Seq}

theorem conv_of_picks (h : picks M cands A = some p) : ∃ x, A.conv M p = some x :=
  Option.isSome_iff_exists.mp (resolve_eq_some_iff.mp h).2.1

theorem mem_of_picks (h : picks M cands A = some p) : p ∈ cands := (resolve_eq_some_iff.mp h).1

/-- What is picked is reached by a better conversion than any other overload, the template
apart. -/
theorem better_of_picks (h : picks M cands A = some p) (hx : A.conv M p = some x) (hq : q ∈ cands)
    (hy : A.conv M q = some y) (hne : q ≠ p) (ho : q ≠ .optional) : x.Better y :=
  better_of_resolve h hx hq hy hne (decide_eq_false ho)

/-- **Where a conversion function is picked, the twin has no other**, for any of its
parameters. -/
theorem user_of_picks {f : Via} {a : Std} (h : picks M w.overloads A = some p)
    (hx : A.conv M p = some (.user f a)) (hq : q ∈ w.tryOverloads)
    (hy : A.conv M q = some y) : ∃ b, y = .user f b :=
  user_of_resolve h hx (Writer.mem_overloads_of_try hq) hy
    (decide_eq_false (Writer.ne_optional hq))

/-- A parameter that only a template of conversion functions makes is the only one. -/
theorem tryPicks_of_specialization {i : Nat} {Q : Param} {a : Std}
    (h : picks M w.overloads A = some p) (hx : A.conv M p = some (.user (.specialization i Q) a))
    (hp : p ∉ w.tryOverloads) : picks M w.tryOverloads A = none := by
  apply resolve_eq_none_of_not_viable
  intro q hq
  cases hy : A.conv M q with
  | none => rfl
  | some y =>
    obtain ⟨b, rfl⟩ := user_of_picks h hx hq hy
    have hQp : Q = p := Ty.serves hx
    have hQq : Q = q := Ty.serves hy
    exact absurd (hQp.symm.trans hQq ▸ hq) hp

/-! ### Numbers -/

/-- The argument converts to the parameters of the twin as the scalar `s` does: by itself,
or after one function has made it such a scalar. -/
structure ReadAs (M : Target) (w : Writer) (A : Ty) (s : Scalar) (wrap : Std → Seq) : Prop where
  better : ∀ {a b : Std}, (wrap a).Better (wrap b) → a < b
  viable : ∀ {P}, P ∈ w.tryOverloads → ∀ {b}, s.std M P = some b → A.conv M P = some (wrap b)
  only : ∀ {P}, P ∈ w.tryOverloads → ∀ {y}, A.conv M P = some y →
    y = .ambiguous ∨ ∃ b, s.std M P = some b ∧ y = wrap b

/-- **A number that `int` is best for goes nowhere in the twin**: its conversions to the
other numbers are all of one rank. -/
theorem tryPicks_of_readAs {s : Scalar} {wrap : Std → Seq} {a : Std} (R : ReadAs M w A s wrap)
    (ha : s.std M .int = some a)
    (hlt : ∀ q ∈ w.tryOverloads, ∀ b, s.std M q = some b → a < b) :
    picks M w.tryOverloads A = none := by
  cases h : picks M w.tryOverloads A with
  | none => rfl
  | some q =>
    obtain ⟨y, hy⟩ := conv_of_picks h
    have hq := mem_of_picks h
    -- another number: `double`, unless that is the one picked
    obtain ⟨P, hP, hne⟩ : ∃ P, (P = .int64 ∨ P = .double ∨ P = .bool) ∧ P ≠ q := by
      by_cases hd : q = .double
      · exact ⟨.int64, Or.inl rfl, by rw [hd]; simp⟩
      · exact ⟨.double, Or.inr (Or.inl rfl), Ne.symm hd⟩
    have hmem : P ∈ w.tryOverloads := Writer.number_mem_tryOverloads hP
    obtain ⟨c, hc⟩ := Scalar.std_number ha hP
    have hbetter := better_of_picks h hy hmem (R.viable hmem hc) hne (Writer.ne_optional hmem)
    rcases R.only hq hy with rfl | ⟨b, hb, rfl⟩
    · exact absurd hbetter Sequence.not_better_of_ambiguous
    · have hb' := Scalar.std_of_int_lt ha hb (hlt q hq b hb)
      have hc' := Scalar.std_of_int_lt ha hc (hlt P hmem c hc)
      have hbc := R.better hbetter
      rw [hb', hc'] at hbc
      exact absurd hbc (lt_irrefl _)

theorem readAs_scalar {s : Scalar} {a : Std} (ha : s.std M .int = some a) :
    ReadAs M w (.scalar s) s .standard where
  better h := h
  viable hP b hb := by simp only [Ty.conv, hb, Option.map_some, Option.some_or]
  only hP y hy := by
    rcases Scalar.conv_cases hy with ⟨b, hb, hx⟩ | hy
    · exact Or.inr ⟨b, hb, hx⟩
    · exfalso
      unfold Scalar.construct at hy
      split at hy
      · exact absurd ha (by simp [Scalar.std])
      · exact absurd ha (by simp [Scalar.std])
      · exact absurd ha (by simp [Scalar.std])
      · exact absurd ha (by simp [Scalar.std])
      · exact absurd hy (by simp)

theorem readAs_zero {t : Integral} : ReadAs M w (.zero t) (.number t) .standard where
  better h := h
  viable hP b hb := by
    obtain ⟨u, hu, rfl⟩ := Option.map_eq_some_iff.mp hb
    exact Ty.conv_zero hu
  only {P} hP y hy := by
    rcases Writer.mem_tryOverloads_cases hP with hP | ⟨k, rfl⟩
    · obtain ⟨u, hu⟩ := Param.arith_of_number (M := M) hP
      rw [Ty.conv_zero hu] at hy
      exact Or.inr ⟨_, by rw [Scalar.std, hu]; rfl, (Option.some.inj hy).symm⟩
    · cases k with
      | stringView => exact Or.inl (Option.some.inj hy).symm
      | temporal => exact absurd hy (by simp [Ty.conv, zeroConv, Scalar.std, Param.arith])
      | bytes => exact absurd hy (by simp [Ty.conv, zeroConv, Scalar.std, Param.arith])

/-- Through the function that is picked the twin is reached as from what it returns. -/
theorem user_std_of_picks {i : Nat} {r : Ret} {a : Std} (h : picks M w.overloads A = some p)
    (hx : A.conv M p = some (.user (.function i r) a)) (hq : q ∈ w.tryOverloads)
    (hy : A.conv M q = some y) : ∃ b, r.std M q = some b ∧ y = .user (.function i r) b := by
  obtain ⟨b, rfl⟩ := user_of_picks h hx hq hy
  exact ⟨b, (Ty.serves hy).1, rfl⟩

theorem readAs_function {i : Nat} {s : Scalar} {a : Std} (h : picks M w.overloads A = some p)
    (hx : A.conv M p = some (.user (.function i (.scalar s)) a)) :
    ReadAs M w A s (.user (.function i (.scalar s))) where
  better h := h.2
  viable {P} hP b hb := by
    obtain ⟨-, d, object, hown, hf⟩ := Ty.serves hx
    have ho := Writer.ne_optional hP
    have hv : (A.conv M P).isSome := by
      rw [Ty.conv_own hown ho]
      exact ClassType.conv_isSome (s := b) hf hb ho
    obtain ⟨y, hy⟩ := Option.isSome_iff_exists.mp hv
    obtain ⟨b', hb', rfl⟩ := user_std_of_picks h hx hP hy
    obtain rfl := Option.some.inj (hb.symm.trans hb')
    exact hy
  only hP y hy := Or.inr (user_std_of_picks h hx hP hy)

/-- **What goes to `int` goes nowhere in the twin.** -/
theorem tryPicks_of_int (h : picks M w.overloads A = some .int)
    (hc : Compiles (A.conv M .int) = true) : picks M w.tryOverloads A = none := by
  have hnot : Param.int ∉ w.tryOverloads := Writer.not_mem_tryOverloads (Or.inl rfl)
  -- each number is worse than `int`, in the ranking of whatever wraps the scalar
  have hlt : ∀ {s : Scalar} {wrap : Std → Seq} {a : Std}, ReadAs M w A s wrap →
      A.conv M .int = some (wrap a) → ∀ q ∈ w.tryOverloads, ∀ b, s.std M q = some b → a < b := by
    intro s wrap a R hx q hq b hb
    refine R.better (better_of_picks h hx (Writer.mem_overloads_of_try hq) (R.viable hq hb) ?_
      (Writer.ne_optional hq))
    rintro rfl
    exact hnot hq
  obtain ⟨x, hx⟩ := conv_of_picks h
  rcases Ty.sources (by simp) (by simp) hx hc with
    ⟨s, a, rfl, ha, rfl⟩ | ⟨t, rfl⟩ | ⟨i, s, a, ha, rfl⟩ | ⟨i, a, rfl⟩
  · have R := readAs_scalar (w := w) ha
    exact tryPicks_of_readAs R ha (hlt R hx)
  · have R : ReadAs M w (.zero t) (.number t) .standard := readAs_zero
    exact tryPicks_of_readAs R rfl (hlt R (Ty.conv_zero rfl))
  · have R := readAs_function h hx
    exact tryPicks_of_readAs R ha (hlt R hx)
  · exact tryPicks_of_specialization h hx hnot

/-! ### Null pointers -/

theorem nullptr_std (hq : q ∈ w.tryOverloads) : Scalar.nullptr.std M q = none := by
  rcases Writer.mem_tryOverloads_cases hq with (rfl | rfl | rfl) | ⟨k, rfl⟩
  all_goals rfl

theorem not_tryCompiles_nullptr : w.tryCompiles M (.scalar .nullptr) = false := by
  unfold Writer.tryCompiles
  cases h : picks M w.tryOverloads (.scalar .nullptr) with
  | none => rfl
  | some q =>
    obtain ⟨y, hy⟩ := conv_of_picks h
    rcases Scalar.conv_cases hy with ⟨a, ha, -⟩ | hy'
    · rw [nullptr_std (mem_of_picks h)] at ha
      exact absurd ha (by simp)
    · obtain ⟨k, -, ⟨-, hbool⟩ | ⟨rfl, -⟩⟩ := Scalar.construct_cases (M := M) hy'
      · exact absurd hbool (by simp [Scalar.std])
      · simp only [hy]
        rfl

/-- What a function makes a null pointer of goes nowhere in the twin. -/
theorem tryPicks_of_function_nullptr {i : Nat} {a : Std} (h : picks M w.overloads A = some p)
    (hx : A.conv M p = some (.user (.function i (.scalar .nullptr)) a)) :
    picks M w.tryOverloads A = none := by
  apply resolve_eq_none_of_not_viable
  intro q hq
  cases hy : A.conv M q with
  | none => rfl
  | some y =>
    obtain ⟨b, hb, -⟩ := user_std_of_picks h hx hq hy
    exact absurd ((nullptr_std hq).symm.trans hb) (by simp)

theorem zero_picks {t : Integral} (h : picks M w.overloads (.zero t) = some p)
    (hp : (Ty.zero t).conv M p = some (.standard .conversion)) (hne : p ≠ .int) : False := by
  have hbetter := better_of_picks h hp (Writer.int_mem w) (Ty.conv_zero (q := .int) rfl)
    (Ne.symm hne) (by simp)
  exact absurd hbetter (not_lt_of_ge (numberTo_le t.1 .int))

/-- **What goes to `std::nullptr_t` does not compile in the twin.** -/
theorem not_tryCompiles_of_nullptr (h : picks M w.overloads A = some .nullptr)
    (hc : Compiles (A.conv M .nullptr) = true) : w.tryCompiles M A = false := by
  have hnone : picks M w.tryOverloads A = none → w.tryCompiles M A = false := by
    intro hn
    rw [Writer.tryCompiles, hn]
  have hnot : Param.nullptr ∉ w.tryOverloads :=
    Writer.not_mem_tryOverloads (Or.inr (Or.inr (Or.inl rfl)))
  obtain ⟨x, hx⟩ := conv_of_picks h
  rcases Ty.sources (by simp) (by simp) hx hc with
    ⟨s, a, rfl, ha, rfl⟩ | ⟨t, rfl⟩ | ⟨i, s, a, ha, rfl⟩ | ⟨i, a, rfl⟩
  · obtain rfl := Scalar.std_nullptr ha
    exact not_tryCompiles_nullptr
  · exact (zero_picks h rfl (by simp)).elim
  · obtain rfl := Scalar.std_nullptr ha
    exact hnone (tryPicks_of_function_nullptr h hx)
  · exact hnone (tryPicks_of_specialization h hx hnot)

/-! ### Character pointers -/

/-- In the twin a character pointer is a pointer like any other. -/
theorem std_try_of_charPointer {s : Scalar} {b : Std} (h : s.IsCharPointer)
    (hq : q ∈ w.tryOverloads) (hb : s.std M q = some b) : q = .bool ∧ b = .pointerToBool := by
  rcases h.std_cases hb with hq' | ⟨rfl, -⟩
  · exact hq'
  · exact absurd hq w.constCharPtr_not_mem

def ClassType.Bare (w : Writer) (c : ClassType) : Prop := ∀ k ∈ c.bases, .known k ∉ w.overloads

/-- A class with a conversion function to a character pointer. -/
def ClassType.ToCharPointer (c : ClassType) : Prop :=
  ∃ object s, .function object (.scalar s) ∈ c.conversions ∧ s.IsCharPointer

/-- **The arguments of which the two spellings write different values**: a character pointer
or an array of characters; a class with a conversion function to one, unless it derives from
a class that is written itself; and for `bind` a class that derives from a `std::optional`,
with the same exception. -/
def Writer.Misreads : Writer → Ty → Prop
  | _, .scalar s => s.IsCharPointer
  | w, .cls c => c.Bare w ∧ c.ToCharPointer
  | .appender, .derived c _ => c.Bare .appender ∧ c.ToCharPointer
  | .statement name, .derived c _ => c.Bare (.statement name)
  | _, _ => False

/-- A class that goes to `const char*` derives from none of the parameters. -/
theorem bare_of_constCharPtr {c : ClassType} {f : Via} {a : Std} (hown : A.own = some c)
    (h : picks M w.overloads A = some .constCharPtr)
    (hx : A.conv M .constCharPtr = some (.user f a)) : c.Bare w := by
  intro k hk hmem
  have hbase : A.conv M (.known k) = some (.standard .conversion) := by
    rw [Ty.conv_own hown (by simp)]
    exact ClassType.conv_base hk
  exact absurd (better_of_picks h hx hmem hbase (by simp) (by simp)) id

/-- What `const char*` is picked for, where the twin compiles: a character pointer, or a
class that has a conversion function to one. -/
theorem constCharPtr_cases (h : picks M w.overloads A = some .constCharPtr)
    (hc : Compiles (A.conv M .constCharPtr) = true) (ht : w.tryCompiles M A = true) :
    (∃ s, A = .scalar s ∧ s.IsCharPointer) ∨
      ∃ c i s a, A.own = some c ∧ c.Bare w ∧ c.ToCharPointer ∧ s.IsCharPointer ∧
        A.conv M .constCharPtr = some (.user (.function i (.scalar s)) a) := by
  have hnone : picks M w.tryOverloads A ≠ none := by
    intro hn
    rw [Writer.tryCompiles, hn] at ht
    exact absurd ht (by simp)
  obtain ⟨x, hx⟩ := conv_of_picks h
  rcases Ty.sources (by simp) (by simp) hx hc with
    ⟨s, a, rfl, ha, rfl⟩ | ⟨t, rfl⟩ | ⟨i, s, a, ha, rfl⟩ | ⟨i, a, rfl⟩
  · rcases Scalar.std_constCharPtr ha with hs | rfl
    · exact Or.inl ⟨s, rfl, hs⟩
    · exact absurd ht (by rw [not_tryCompiles_nullptr]; simp)
  · exact (zero_picks h rfl (by simp)).elim
  · rcases Scalar.std_constCharPtr ha with hs | rfl
    · obtain ⟨-, c, object, hown, hf⟩ := Ty.serves hx
      exact Or.inr ⟨c, i, s, a, hown, bare_of_constCharPtr hown h hx, ⟨object, s, hf, hs⟩, hs, hx⟩
    · exact absurd (tryPicks_of_function_nullptr h hx) hnone
  · exact absurd (tryPicks_of_specialization h hx w.constCharPtr_not_mem) hnone

theorem misreads_of_constCharPtr (h : picks M w.overloads A = some .constCharPtr)
    (hc : Compiles (A.conv M .constCharPtr) = true) (ht : w.tryCompiles M A = true) :
    w.Misreads A := by
  rcases constCharPtr_cases h hc ht with ⟨s, rfl, hs⟩ | ⟨c, i, s, a, hown, hbare, hto, hs, hx⟩
  · exact hs
  · cases A with
    | cls d =>
      obtain rfl := Option.some.inj hown
      exact ⟨hbare, hto⟩
    | derived d T =>
      obtain rfl := Option.some.inj hown
      cases w with
      | statement name => exact hbare
      | appender => exact ⟨hbare, hto⟩
    | _ => exact absurd hown (by simp [Ty.own])

/-- **What goes to `const char*` does not go to `std::string_view` in the twin.** -/
theorem tryPicks_ne_stringView (h : picks M w.overloads A = some .constCharPtr)
    (hc : Compiles (A.conv M .constCharPtr) = true) (ht : w.tryCompiles M A = true)
    (hq : picks M w.tryOverloads A = some q) : q ≠ .known .stringView := by
  rintro rfl
  obtain ⟨y, hy⟩ := conv_of_picks hq
  have hmem := mem_of_picks hq
  rcases constCharPtr_cases h hc ht with ⟨s, rfl, hs⟩ | ⟨c, i, s, a, hown, -, -, hs, hx⟩
  · rcases Scalar.conv_cases hy with ⟨b, hb, -⟩ | hy'
    · exact absurd (std_try_of_charPointer hs hmem hb).1 (by simp)
    · -- the pointer converts to `bool` by itself, and to the class through a constructor
      obtain ⟨k, -, ⟨rfl, hbool⟩ | ⟨-, rfl⟩⟩ := Scalar.construct_cases (M := M) hy'
      · have hconv : (Ty.scalar s).conv M .bool = some (.standard .pointerToBool) := by
          simp only [Ty.conv, hbool, Option.map_some, Option.some_or]
        have hbmem : Param.bool ∈ w.tryOverloads :=
          Writer.number_mem_tryOverloads (Or.inr (Or.inr rfl))
        exact absurd (better_of_picks hq hy hbmem hconv (by simp) (by simp)) id
      · exact absurd hs id
  · obtain ⟨b, hb, -⟩ := user_std_of_picks h hx hmem hy
    exact absurd (std_try_of_charPointer hs hmem hb).1 (by simp)

/-- A class that derives from none of the parameters converts to them by functions. -/
theorem user_of_bare {c : ClassType} (hown : A.own = some c) (hbare : c.Bare w)
    (hq : q ∈ w.tryOverloads) (hy : A.conv M q = some y) : ∀ b, y ≠ .standard b := by
  rintro b rfl
  rw [Ty.conv_own hown (Writer.ne_optional hq)] at hy
  rcases ClassType.conv_cases hy with ⟨k, hk, rfl, -⟩ | hy
  · exact hbare k hk (Writer.mem_overloads_of_try hq)
  · exact ClassType.user_ne_standard hy

/-- No overload of the twin is picked over a character pointer. -/
theorem not_try_of_charPointer {s : Scalar} (hs : s.IsCharPointer)
    (h : picks M w.overloads (.scalar s) = some p) : p ∉ w.tryOverloads := by
  intro hp
  obtain ⟨x, hx⟩ := conv_of_picks h
  obtain ⟨a, ha, hle⟩ := hs.std (M := M)
  have hconv : (Ty.scalar s).conv M .constCharPtr = some (.standard a) := by
    simp only [Ty.conv, ha, Option.map_some, Option.some_or]
  have hne : Param.constCharPtr ≠ p := by
    rintro rfl
    exact w.constCharPtr_not_mem hp
  have hbetter := better_of_picks h hx (Writer.constCharPtr_mem w) hconv hne (by simp)
  rcases Scalar.conv_cases hx with ⟨b, hb, rfl⟩ | hx
  · obtain ⟨-, rfl⟩ := std_try_of_charPointer hs hp hb
    exact absurd (lt_of_lt_of_le hbetter hle) (by decide)
  · obtain ⟨k, -, ⟨rfl, -⟩ | ⟨rfl, -⟩⟩ := Scalar.construct_cases (M := M) hx
    · exact absurd hbetter id
    · exact absurd hbetter id

/-- No overload of the twin is picked over a conversion to a character pointer. -/
theorem not_try_of_toCharPointer {c : ClassType} (hown : A.own = some c) (hbare : c.Bare w)
    (hto : c.ToCharPointer) (h : picks M w.overloads A = some p) : p ∉ w.tryOverloads := by
  intro hp
  obtain ⟨object, s, hf, hs⟩ := hto
  obtain ⟨a, ha, -⟩ := hs.std (M := M)
  have hv : (A.conv M .constCharPtr).isSome := by
    rw [Ty.conv_own hown (by simp)]
    exact ClassType.conv_isSome (s := a) hf ha (by simp)
  obtain ⟨y, hy⟩ := Option.isSome_iff_exists.mp hv
  obtain ⟨x, hx⟩ := conv_of_picks h
  have hne : Param.constCharPtr ≠ p := by
    rintro rfl
    exact w.constCharPtr_not_mem hp
  have hbetter := better_of_picks h hx (Writer.constCharPtr_mem w) hy hne (by simp)
  cases x with
  | standard b => exact user_of_bare hown hbare hp hx b rfl
  | user f b =>
    obtain ⟨t, rfl, hlt⟩ := Sequence.better_of_user hbetter
    have hfx := Ty.serves hx
    have hfy := Ty.serves hy
    cases f with
    | constructor =>
      obtain ⟨⟨k, hk⟩, -⟩ := hfy
      exact absurd hk (by simp)
    | deleted => exact absurd (hown.symm.trans hfx) (by simp)
    | function i r =>
      cases r with
      | scalar s' =>
        rcases Scalar.std_constCharPtr hfy.1 with hs' | rfl
        · obtain ⟨-, rfl⟩ := std_try_of_charPointer hs' hp hfx.1
          obtain ⟨t', ht', hle⟩ := hs'.std (M := M)
          obtain rfl := Option.some.inj (hfy.1.symm.trans ht')
          exact absurd (lt_of_lt_of_le hlt hle) (by decide)
        · exact absurd ((nullptr_std hp).symm.trans hfx.1) (by simp)
      | known k => exact absurd hfy.1 (by simp [Ret.std])
    | specialization i Q => exact hne ((show Q = .constCharPtr from hfy).symm.trans hfx)
  | ambiguous => exact Sequence.not_better_of_ambiguous hbetter

/-- No overload of the twin is picked over the template, for a class that derives from a
`std::optional`. -/
theorem not_try_of_derived {c : ClassType} {T : Ty} (hmem : Param.optional ∈ w.overloads)
    (hbare : c.Bare w) (h : picks M w.overloads (.derived c T) = some p) :
    p ∉ w.tryOverloads := by
  intro hp
  obtain ⟨x, hx, y, hy, hbetter⟩ := (resolve_eq_some_iff.mp h).2.2 .optional hmem rfl
    (Writer.ne_optional hp).symm
  obtain rfl : y = .standard .conversion := (Option.some.inj hy).symm
  have huser := user_of_bare rfl hbare hp hx
  cases x with
  | standard b => exact huser b rfl
  | user f b =>
    rcases hbetter with hbetter | ⟨hbetter, -⟩
    · exact absurd hbetter id
    · exact hbetter trivial
  | ambiguous =>
    rcases hbetter with hbetter | ⟨hbetter, -⟩
    · exact absurd hbetter id
    · exact hbetter trivial

/-- **What is misread goes to none of the overloads that both spellings have.** -/
theorem not_try_of_misreads (hm : w.Misreads A) (h : picks M w.overloads A = some p) :
    p ∉ w.tryOverloads := by
  cases A with
  | scalar s =>
    cases w with
    | statement name => exact not_try_of_charPointer hm h
    | appender => exact not_try_of_charPointer hm h
  | cls c =>
    cases w with
    | statement name => exact not_try_of_toCharPointer rfl hm.1 hm.2 h
    | appender => exact not_try_of_toCharPointer rfl hm.1 hm.2 h
  | derived c T =>
    cases w with
    | statement name =>
      have hmem : Param.optional ∈ bindOverloads := by decide
      exact not_try_of_derived hmem hm h
    | appender => exact not_try_of_toCharPointer rfl hm.1 hm.2 h
  | _ => cases w <;> exact absurd hm id

theorem misreads_of_optional (h : picks M w.overloads A = some .optional)
    (ht : w.tryCompiles M A = true) :
    w.Misreads A ∧ ∃ name c T, w = .statement name ∧ A = .derived c T := by
  have hmem := mem_of_picks h
  cases w with
  | appender => exact absurd (show Param.optional ∈ appendOverloads from hmem) (by decide)
  | statement name =>
    obtain ⟨x, hx⟩ := conv_of_picks h
    cases A with
    | scalar s =>
      rcases Scalar.conv_cases hx with ⟨a, ha, -⟩ | hx
      · rw [Scalar.std_optional] at ha
        exact absurd ha (by simp)
      · obtain ⟨k, hk, -⟩ := Scalar.construct_cases (M := M) hx
        exact absurd hk (by simp)
    | zero t => exact absurd hx (by simp [Ty.conv, zeroConv, Scalar.std, Param.arith])
    | known k => exact absurd hx (by simp [Ty.conv, Ret.std])
    | cls c => exact absurd hx (by simp [Ty.conv, ClassType.conv])
    | optional T =>
      have hnone : picks M (Writer.statement name).tryOverloads (.optional T) = none := by
        apply resolve_eq_none_of_not_viable
        intro q hq
        cases q with
        | optional => exact absurd rfl (Writer.ne_optional hq)
        | _ => rfl
      rw [Writer.tryCompiles, hnone] at ht
      exact absurd ht (by simp)
    | derived c T =>
      refine ⟨?_, name, c, T, rfl, rfl⟩
      intro k hk hkmem
      have hbase : (Ty.derived c T).conv M (.known k) = some (.standard .conversion) :=
        ClassType.conv_base hk
      -- neither conversion is better, and the template loses
      obtain ⟨x, hx, y, hy, hbetter⟩ := (resolve_eq_some_iff.mp h).2.2 (.known k) hkmem
        (by rw [hbase]; rfl) (by simp)
      obtain rfl := Option.some.inj hx
      obtain rfl := Option.some.inj (hbase.symm.trans hy)
      rcases hbetter with hbetter | ⟨-, htemplate, -⟩
      · exact absurd hbetter (lt_irrefl _)
      · exact absurd htemplate (by decide)

end Picked

end ZuCpp.Write
