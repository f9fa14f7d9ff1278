import ZuCpp.Write.Model

/-!
# What converts an argument

The conversions of `Write/Model.lean`, read backwards: from the sequence that takes an
argument to a parameter, what the argument is.

* `Scalar.std_cases`: the standard conversions of what is of no class.
* `Ty.serves`: the function of a user-defined conversion serves the parameter.
* `Ty.sources`: **what an overload over no class is called with** is a scalar, or a literal
  nought, or a class that makes a scalar or the parameter itself.
-/

namespace ZuCpp.Write

open Lib

variable {M : Target}

/-! ### Numbers -/

/-- Where `int` is better than another number, that one takes a conversion. -/
theorem numberTo_of_int_lt {t u : Arith} (h : numberTo M t .int < numberTo M t u) :
    numberTo M t u = .conversion := by
  unfold numberTo at h ⊢
  by_cases htu : t = u
  · rw [if_pos htu] at h
    exact absurd h (by split_ifs <;> decide)
  · rw [if_neg htu] at h ⊢
    by_cases hpr : M.promoted t = some u
    · rw [if_pos hpr] at h
      by_cases hint : t = .int
      · subst hint
        exact absurd hpr (by simp [Target.promoted])
      · rw [if_neg hint] at h
        exact absurd h (by split_ifs <;> decide)
    · rw [if_neg hpr]

theorem enumerationTo_of_int_lt {t u : Arith} {fixed : Bool}
    (h : enumerationTo M t fixed .int < enumerationTo M t fixed u) :
    enumerationTo M t fixed u = .conversion := by
  have hint : .promotion ≤ enumerationTo M t fixed .int := by
    unfold enumerationTo
    by_cases hint : t = .int
    · subst hint
      rw [if_pos rfl, if_neg (by simp [Target.promoted])]
    · rw [if_neg hint]
      split_ifs <;> decide
  have hlt := lt_of_le_of_lt hint h
  revert hlt
  unfold enumerationTo
  split_ifs
  all_goals first | exact fun _ => rfl | exact fun hlt => absurd hlt (by decide)

theorem numberTo_le (t u : Arith) : numberTo M t u ≤ .conversion := by
  unfold numberTo
  split_ifs <;> decide

/-! ### Scalars -/

section Scalars

variable {s : Scalar} {P : Param} {a b : Std}

def Scalar.IsCharPointer : Scalar → Prop
  | pointer (.char _) => True
  | array (.char _) => True
  | _ => False

/-- The standard conversions of what is of no class: a number or an enumeration to a number,
a pointer to `bool`, a pointer to characters to `const char*`, and a null pointer. -/
theorem Scalar.std_cases (h : s.std M P = some a) :
    (∃ u, P.arith M = some u ∧ ((∃ t, s = .number t ∧ a = numberTo M t u) ∨
      ∃ t fixed, s = .enumeration t fixed ∧ a = enumerationTo M t.1 fixed u)) ∨
    (P = .bool ∧ a = .pointerToBool) ∨
    (P = .constCharPtr ∧ a ≤ .qualification ∧ s.IsCharPointer) ∨
    (s = .nullptr ∧ (P = .nullptr ∨ P = .constCharPtr)) := by
  unfold Scalar.std at h
  split at h
  · rename_i P t
    obtain ⟨u, hu, rfl⟩ := Option.map_eq_some_iff.mp h
    exact Or.inl ⟨u, hu, Or.inl ⟨t, rfl, rfl⟩⟩
  · rename_i P t fixed
    obtain ⟨u, hu, rfl⟩ := Option.map_eq_some_iff.mp h
    exact Or.inl ⟨u, hu, Or.inr ⟨t, fixed, rfl, rfl⟩⟩
  · rename_i isConst
    obtain rfl := Option.some.inj h
    exact Or.inr (Or.inr (Or.inl ⟨rfl, by cases isConst <;> decide, trivial⟩))
  · exact Or.inr (Or.inl ⟨rfl, (Option.some.inj h).symm⟩)
  · rename_i isConst
    obtain rfl := Option.some.inj h
    exact Or.inr (Or.inr (Or.inl ⟨rfl, by cases isConst <;> decide, trivial⟩))
  · exact Or.inr (Or.inl ⟨rfl, (Option.some.inj h).symm⟩)
  · exact Or.inr (Or.inr (Or.inr ⟨rfl, Or.inl rfl⟩))
  · exact Or.inr (Or.inr (Or.inr ⟨rfl, Or.inr rfl⟩))
  · exact absurd h (by simp)

theorem Scalar.std_nullptr (h : s.std M .nullptr = some a) : s = .nullptr := by
  rcases Scalar.std_cases h with ⟨u, hu, -⟩ | ⟨hP, -⟩ | ⟨hP, -⟩ | ⟨hs, -⟩
  · exact absurd hu (by simp [Param.arith])
  · exact absurd hP (by simp)
  · exact absurd hP (by simp)
  · exact hs

theorem Scalar.std_constCharPtr (h : s.std M .constCharPtr = some a) :
    s.IsCharPointer ∨ s = .nullptr := by
  rcases Scalar.std_cases h with ⟨u, hu, -⟩ | ⟨hP, -⟩ | ⟨-, -, hs⟩ | ⟨hs, -⟩
  · exact absurd hu (by simp [Param.arith])
  · exact absurd hP (by simp)
  · exact Or.inl hs
  · exact Or.inr hs

theorem Scalar.std_optional : s.std M .optional = none := by
  cases h : s.std M .optional with
  | none => rfl
  | some a =>
    rcases Scalar.std_cases h with ⟨u, hu, -⟩ | ⟨hP, -⟩ | ⟨hP, -⟩ | ⟨-, hP | hP⟩
    · exact absurd hu (by simp [Param.arith])
    all_goals exact absurd hP (by simp)

theorem Scalar.IsCharPointer.std (h : s.IsCharPointer) :
    ∃ a, s.std M .constCharPtr = some a ∧ a ≤ .qualification := by
  cases s with
  | pointer t =>
    cases t with
    | char isConst => exact ⟨_, rfl, by cases isConst <;> decide⟩
    | _ => exact absurd h id
  | array t =>
    cases t with
    | char isConst => exact ⟨_, rfl, by cases isConst <;> decide⟩
    | _ => exact absurd h id
  | _ => exact absurd h id

/-- A character pointer converts to `const char*` and, as any pointer does, to `bool`. -/
theorem Scalar.IsCharPointer.std_cases (h : s.IsCharPointer) (hb : s.std M P = some b) :
    (P = .bool ∧ b = .pointerToBool) ∨ (P = .constCharPtr ∧ b ≤ .qualification) := by
  rcases Scalar.std_cases hb with
    ⟨u, -, ⟨t, rfl, -⟩ | ⟨t, fixed, rfl, -⟩⟩ | ⟨hP, hb⟩ | ⟨hP, hb, -⟩ | ⟨rfl, -⟩
  · exact absurd h id
  · exact absurd h id
  · exact Or.inl ⟨hP, hb⟩
  · exact Or.inr ⟨hP, hb⟩
  · exact absurd h id

theorem Scalar.number_of_std_int (h : s.std M .int = some a) :
    (∃ t, s = .number t ∧ a = numberTo M t .int) ∨
      ∃ t fixed, s = .enumeration t fixed ∧ a = enumerationTo M t.1 fixed .int := by
  rcases Scalar.std_cases h with ⟨u, hu, hs⟩ | ⟨hP, -⟩ | ⟨hP, -⟩ | ⟨-, hP | hP⟩
  · obtain rfl := Option.some.inj hu
    exact hs
  all_goals exact absurd hP (by simp)

/-- What is worse than a conversion to `int` is one to another number. -/
theorem Scalar.std_of_int_lt (ha : s.std M .int = some a) (hb : s.std M P = some b)
    (hlt : a < b) : b = .conversion := by
  rcases Scalar.number_of_std_int ha with ⟨t, rfl, rfl⟩ | ⟨t, fixed, rfl, rfl⟩
  · obtain ⟨u, -, rfl⟩ := Option.map_eq_some_iff.mp hb
    exact numberTo_of_int_lt hlt
  · obtain ⟨u, -, rfl⟩ := Option.map_eq_some_iff.mp hb
    exact enumerationTo_of_int_lt hlt

theorem Param.arith_of_number (hP : P = .int64 ∨ P = .double ∨ P = .bool) :
    ∃ u, P.arith M = some u := by
  rcases hP with rfl | rfl | rfl <;> exact ⟨_, rfl⟩

theorem Scalar.std_number (ha : s.std M .int = some a)
    (hP : P = .int64 ∨ P = .double ∨ P = .bool) : ∃ b, s.std M P = some b := by
  obtain ⟨u, hu⟩ := Param.arith_of_number (M := M) hP
  rcases Scalar.number_of_std_int ha with ⟨t, rfl, -⟩ | ⟨t, fixed, rfl, -⟩
  · exact ⟨_, by rw [Scalar.std, hu]; rfl⟩
  · exact ⟨_, by rw [Scalar.std, hu]; rfl⟩

end Scalars

/-! ### How a class converts -/

def Ty.own : Ty → Option ClassType
  | cls c => some c
  | derived c _ => some c
  | _ => none

/-- The function converts what has the conversions of `c` to the parameter `P`, and `s` is
what follows it. -/
def Via.Serves (M : Target) (c : Option ClassType) (P : Param) (s : Std) : Via → Prop
  | constructor => (∃ k, P = .known k) ∧ (c = none ∨ P = .known .bytes)
  | deleted => c = none
  | function _ r =>
    r.std M P = some s ∧ ∃ d object, c = some d ∧ .function object r ∈ d.conversions
  | specialization _ Q => Q = P

theorem mem_reaches {c : ClassType} {P : Param} {a : Reach} (h : a ∈ c.reaches M P) :
    a.via.Serves M (some c) P a.second := by
  rcases List.mem_append.mp h with h | h
  · split at h
    · rename_i hrange
      obtain rfl := List.mem_singleton.mp h
      exact ⟨⟨_, hrange.2⟩, Or.inr hrange.2⟩
    · exact absurd h List.not_mem_nil
  · obtain ⟨⟨f, i⟩, hf, hr⟩ := List.mem_filterMap.mp h
    have hmem : f ∈ c.conversions := List.fst_mem_of_mem_zipIdx hf
    cases f with
    | function object r =>
      obtain ⟨s, hs, rfl⟩ := Option.map_eq_some_iff.mp hr
      exact ⟨hs, c, object, rfl, hmem⟩
    | template object makes =>
      simp only [Conversion.reach] at hr
      split at hr
      · obtain rfl := Option.some.inj hr
        rfl
      · exact absurd hr (by simp)

theorem reaches_ne_nil {c : ClassType} {P : Param} {object : Nat} {r : Ret} {s : Std}
    (hf : .function object r ∈ c.conversions) (hs : r.std M P = some s) :
    c.reaches M P ≠ [] := by
  obtain ⟨i, hi, he⟩ := List.mem_iff_getElem.mp hf
  have hmem : (⟨.function i r, object, s, false⟩ : Reach) ∈ c.reaches M P := by
    refine List.mem_append_right _ (List.mem_filterMap.mpr ⟨(.function object r, i), ?_, ?_⟩)
    · rw [List.mem_zipIdx_iff_getElem?, List.getElem?_eq_getElem hi, he]
    · simp only [Conversion.reach, hs, Option.map_some]
  exact List.ne_nil_of_mem hmem

theorem ClassType.user_serves {c : ClassType} {P : Param} {f : Via} {s : Std}
    (h : c.user M P = some (.user f s)) : f.Serves M (some c) P s := by
  unfold ClassType.user at h
  split at h
  · exact absurd h (by simp)
  · cases hb : best Reach.Better (c.reaches M P) with
    | none =>
      rw [hb] at h
      exact absurd h (by simp)
    | some a =>
      rw [hb] at h
      obtain ⟨rfl, rfl⟩ := Sequence.user.inj (Option.some.inj h)
      exact mem_reaches (best_spec _ hb).1

theorem ClassType.user_ne_standard {c : ClassType} {P : Param} {s : Std} :
    c.user M P ≠ some (.standard s) := by
  intro h
  unfold ClassType.user at h
  split at h
  · exact absurd h (by simp)
  · split at h <;> exact absurd h (by simp)

/-- A class converts to one it derives from by itself, and to the rest by a function. -/
theorem ClassType.conv_cases {c : ClassType} {P : Param} {x : Seq} (h : c.conv M P = some x) :
    (∃ k ∈ c.bases, P = .known k ∧ x = .standard .conversion) ∨ c.user M P = some x := by
  cases P with
  | known k =>
    simp only [ClassType.conv] at h
    split at h
    · rename_i hk
      exact Or.inl ⟨k, hk, rfl, (Option.some.inj h).symm⟩
    · exact Or.inr h
  | optional => exact absurd h (by simp [ClassType.conv])
  | _ => exact Or.inr h

theorem ClassType.conv_base {c : ClassType} {k : Known} (hk : k ∈ c.bases) :
    c.conv M (.known k) = some (.standard .conversion) := if_pos hk

/-- A conversion function of the class makes the parameter viable. -/
theorem ClassType.conv_isSome {c : ClassType} {P : Param} {object : Nat} {r : Ret} {s : Std}
    (hf : .function object r ∈ c.conversions) (hs : r.std M P = some s) (ho : P ≠ .optional) :
    (c.conv M P).isSome := by
  have huser : (c.user M P).isSome := by
    unfold ClassType.user
    rw [if_neg (reaches_ne_nil hf hs)]
    split <;> rfl
  cases P with
  | known k =>
    simp only [ClassType.conv]
    split
    · rfl
    · exact huser
  | optional => exact absurd rfl ho
  | _ => exact huser

/-! ### How an argument converts -/

theorem Ty.conv_own {A : Ty} {c : ClassType} {P : Param} (h : A.own = some c) (ho : P ≠ .optional) :
    A.conv M P = c.conv M P := by
  cases A with
  | cls c' =>
    obtain rfl := Option.some.inj h
    rfl
  | derived c' T =>
    obtain rfl := Option.some.inj h
    cases P with
    | optional => exact absurd rfl ho
    | _ => rfl
  | _ => exact absurd h (by simp [Ty.own])

/-- The constructors that take a value of no class take what is a pointer as well, and the
one that takes a null pointer is deleted. -/
theorem Scalar.construct_cases {s : Scalar} {P : Param} {x : Seq} (h : s.construct P = some x) :
    ∃ k, P = .known k ∧ ((x = .user .constructor .identity ∧ s.std M .bool = some .pointerToBool) ∨
      (x = .user .deleted .identity ∧ s = .nullptr)) := by
  unfold Scalar.construct at h
  split at h
  · exact ⟨_, rfl, Or.inl ⟨(Option.some.inj h).symm, rfl⟩⟩
  · exact ⟨_, rfl, Or.inl ⟨(Option.some.inj h).symm, rfl⟩⟩
  · exact ⟨_, rfl, Or.inl ⟨(Option.some.inj h).symm, rfl⟩⟩
  · exact ⟨_, rfl, Or.inr ⟨(Option.some.inj h).symm, rfl⟩⟩
  · exact absurd h (by simp)

theorem Scalar.conv_cases {s : Scalar} {P : Param} {x : Seq}
    (h : (Ty.scalar s).conv M P = some x) :
    (∃ a, s.std M P = some a ∧ x = .standard a) ∨ s.construct P = some x := by
  simp only [Ty.conv, Option.or_eq_some_iff] at h
  rcases h with h | ⟨-, h⟩
  · obtain ⟨a, ha, hx⟩ := Option.map_eq_some_iff.mp h
    exact Or.inl ⟨a, ha, hx.symm⟩
  · exact Or.inr h

theorem zeroConv_ne_user {t : Arith} {P : Param} {f : Via} {s : Std} :
    zeroConv M t P ≠ some (.user f s) := by
  intro h
  unfold zeroConv at h
  split at h
  · exact absurd h (by simp)
  · exact absurd h (by simp)
  · exact absurd h (by simp)
  · obtain ⟨_, -, hx⟩ := Option.map_eq_some_iff.mp h
    exact absurd hx (by simp)

/-- **What an argument is converted by serves the parameter.** -/
theorem Ty.serves {A : Ty} {P : Param} {f : Via} {s : Std}
    (h : A.conv M P = some (.user f s)) : f.Serves M A.own P s := by
  have hclass : ∀ c, A.own = some c → P ≠ .optional → f.Serves M A.own P s := by
    intro c hown ho
    rw [Ty.conv_own hown ho] at h
    rcases ClassType.conv_cases h with ⟨k, -, -, hx⟩ | h
    · exact absurd hx (by simp)
    · rw [hown]
      exact ClassType.user_serves h
  cases A with
  | scalar t =>
    rcases Scalar.conv_cases h with ⟨a, -, hx⟩ | h
    · exact absurd hx (by simp)
    · obtain ⟨k, rfl, ⟨hx, -⟩ | ⟨hx, -⟩⟩ := Scalar.construct_cases (M := M) h
      · obtain ⟨rfl, rfl⟩ := Sequence.user.inj hx
        exact ⟨⟨k, rfl⟩, Or.inl rfl⟩
      · obtain ⟨rfl, rfl⟩ := Sequence.user.inj hx
        rfl
  | zero t => exact absurd h zeroConv_ne_user
  | known k =>
    obtain ⟨_, -, hx⟩ := Option.map_eq_some_iff.mp h
    exact absurd hx (by simp)
  | cls c =>
    apply hclass c rfl
    rintro rfl
    exact absurd h (by simp [Ty.conv, ClassType.conv])
  | optional T => cases P <;> exact absurd h (by simp [Ty.conv])
  | derived c T =>
    apply hclass c rfl
    rintro rfl
    exact absurd h (by simp [Ty.conv])

theorem Ty.conv_zero {t : Integral} {u : Arith} {q : Param} (hu : q.arith M = some u) :
    (Ty.zero t).conv M q = some (.standard (numberTo M t u)) := by
  cases q with
  | bool => obtain rfl := Option.some.inj hu; rfl
  | int => obtain rfl := Option.some.inj hu; rfl
  | int64 => obtain rfl := Option.some.inj hu; rfl
  | double => obtain rfl := Option.some.inj hu; rfl
  | _ => exact absurd hu (by simp [Param.arith])

/-- Where an overload over no class is picked, the argument is a scalar, or a literal
nought, or of a class that makes a scalar or the parameter itself. -/
theorem Ty.sources {A : Ty} {p : Param} {x : Seq} (hk : ∀ k, p ≠ .known k)
    (ho : p ≠ .optional) (hx : A.conv M p = some x) (hc : Compiles (A.conv M p) = true) :
    (∃ s a, A = .scalar s ∧ s.std M p = some a ∧ x = .standard a) ∨ (∃ t, A = .zero t) ∨
      (∃ i s a, s.std M p = some a ∧ x = .user (.function i (.scalar s)) a) ∨
      ∃ i a, x = .user (.specialization i p) a := by
  rw [hx] at hc
  cases x with
  | standard a =>
    cases A with
    | scalar s =>
      rcases Scalar.conv_cases hx with ⟨a', ha, hx'⟩ | hx
      · exact Or.inl ⟨s, a', rfl, ha, hx'⟩
      · obtain ⟨k, hp, -⟩ := Scalar.construct_cases (M := M) hx
        exact absurd hp (hk k)
    | zero t => exact Or.inr (Or.inl ⟨t, rfl⟩)
    | known k =>
      cases p with
      | known l => exact absurd rfl (hk l)
      | _ => exact absurd hx (by simp [Ty.conv, Ret.std])
    | cls c =>
      rcases ClassType.conv_cases hx with ⟨k, -, hp, -⟩ | hx
      · exact absurd hp (hk k)
      · exact absurd hx ClassType.user_ne_standard
    | optional T => cases p <;> first | exact absurd rfl ho | exact absurd hx (by simp [Ty.conv])
    | derived c T =>
      rw [Ty.conv_own rfl ho] at hx
      rcases ClassType.conv_cases hx with ⟨k, -, hp, -⟩ | hx
      · exact absurd hp (hk k)
      · exact absurd hx ClassType.user_ne_standard
  | user f a =>
    have hf := Ty.serves hx
    cases f with
    | constructor =>
      obtain ⟨⟨k, hp⟩, -⟩ := hf
      exact absurd hp (hk k)
    | deleted => exact absurd hc (by simp [Compiles])
    | function i r =>
      cases r with
      | scalar s => exact Or.inr (Or.inr (Or.inl ⟨i, s, a, hf.1, rfl⟩))
      | known k =>
        cases p with
        | known l => exact absurd rfl (hk l)
        | _ => exact absurd hf.1 (by simp [Ret.std])
    | specialization i Q =>
      obtain rfl : Q = p := hf
      exact Or.inr (Or.inr (Or.inr ⟨i, a, rfl⟩))
  | ambiguous => exact absurd hc (by simp [Compiles])

end ZuCpp.Write
