import ZuCpp.Surface.Overload

/-!
# `qualifiers`: what of the argsstring is published

An argsstring is a parameter list in brackets and the qualifiers behind it.  `qualifiers`
looks for the end of the parameter list from the back, and finds it as long as no bracket
is closed behind it; a `noexcept` with an expression closes one, and is taken for the
parameter list.

`Written` is how a sequence of qualifiers may be written down, with spaces or without, and
`written_qualifiers` is that what `qualifiers` leaves is a way to write the qualifiers
behind the last `noexcept` with an expression.  So it leaves all of them exactly when there
is none (`qualifiers_survive_iff`).
-/

namespace ZuCpp.Surface

open Lib

inductive Qualifier
  | const | volatile | lvalue | rvalue | noexcept
  /-- `noexcept(expression)` -/
  | noexceptOf (expression : Text)
  | default | delete
  deriving DecidableEq

namespace Qualifier

def plain : Qualifier → Bool
  | noexceptOf _ => false
  | _ => true

def Spelled : Qualifier → Text → Prop
  | const, s => s = "const".toList
  | volatile, s => s = "volatile".toList
  | lvalue, s => s = "&".toList
  | rvalue, s => s = "&&".toList
  | noexcept, s => s = "noexcept".toList
  | noexceptOf e, s => ∃ w, (∀ c ∈ w, isSpace c = true) ∧
      s = "noexcept".toList ++ w ++ '(' :: e ++ [')']
  | default, s => ∃ w, (∀ c ∈ w, isSpace c = true) ∧ s = '=' :: w ++ "default".toList
  | delete, s => ∃ w, (∀ c ∈ w, isSpace c = true) ∧ s = '=' :: w ++ "delete".toList

/-- Whether `c` may stand right behind it: a letter would go on a word, and a second `&` an
`&`. -/
def ends (c : Char) : Qualifier → Bool
  | lvalue => c ≠ '&'
  | rvalue | noexceptOf _ => true
  | _ => !c.isAlpha

def bare : Qualifier → Text
  | const => "const".toList
  | volatile => "volatile".toList
  | lvalue => "&".toList
  | rvalue => "&&".toList
  | noexcept => "noexcept".toList
  | noexceptOf e => "noexcept".toList ++ '(' :: python.bare e ++ [')']
  | default => "=default".toList
  | delete => "=delete".toList

end Qualifier

/-- The text is these qualifiers in this order, with any spaces between them. -/
inductive Written : List Qualifier → Text → Prop
  | nil : Written [] []
  | space {qs : List Qualifier} {c : Char} {t : Text} (hc : isSpace c = true)
      (ht : Written qs t) : Written qs (c :: t)
  | cons {q : Qualifier} {qs : List Qualifier} {s t : Text} (hs : q.Spelled s)
      (hends : ∀ c ∈ t.head?, q.ends c = true) (ht : Written qs t) : Written (q :: qs) (s ++ t)

/-! ### One qualifier -/

theorem not_isAlpha_of_isSpace {c : Char} (hc : isSpace c = true) : c.isAlpha = false := by
  by_contra halpha
  rw [Bool.not_eq_false] at halpha
  simp only [Char.isAlpha, Char.isUpper, Char.isLower, Bool.or_eq_true, Bool.and_eq_true,
    decide_eq_true_eq, UInt32.le_iff_toNat_le, ge_iff_le] at halpha
  simp only [isSpace, decide_eq_true_eq] at hc
  have hval : c.toNat = c.val.toNat := rfl
  have hA : 'A'.val.toNat = 65 := rfl
  have hZ : 'Z'.val.toNat = 90 := rfl
  have ha : 'a'.val.toNat = 97 := rfl
  have hz : 'z'.val.toNat = 122 := rfl
  omega

theorem Qualifier.ends_space {c : Char} (hc : isSpace c = true) (q : Qualifier) :
    q.ends c = true := by
  have halpha := not_isAlpha_of_isSpace hc
  cases q with
  | lvalue =>
    refine decide_eq_true ?_
    rintro rfl
    exact absurd hc (by decide)
  | rvalue => rfl
  | noexceptOf => rfl
  | const | volatile | noexcept | default | delete => exact congrArg Bool.not halpha

theorem Qualifier.Spelled.plain_cases {q : Qualifier} {s : Text} (hq : q.plain = true)
    (hs : q.Spelled s) :
    (s ≠ [] ∧ ∀ c ∈ s, isSpace c = false ∧ c ≠ '=' ∧ c ≠ ')') ∨
      ∃ w u, (u = "default".toList ∨ u = "delete".toList) ∧ (∀ c ∈ w, isSpace c = true) ∧
        s = '=' :: w ++ u ∧
        ∀ v, (∀ c ∈ v, isSpace c = true) → q.Spelled ('=' :: v ++ u) := by
  have hword : ∀ u : Text, (u.all fun c => !isSpace c && c != '=' && c != ')') = true →
      ∀ c ∈ u, isSpace c = false ∧ c ≠ '=' ∧ c ≠ ')' := by
    intro u hu c hc
    simpa [and_assoc] using List.all_eq_true.mp hu c hc
  cases q with
  | const | volatile | lvalue | rvalue | noexcept =>
    left
    rw [Qualifier.Spelled] at hs
    rw [hs]
    exact ⟨List.cons_ne_nil _ _, hword _ rfl⟩
  | noexceptOf e => cases hq
  | default =>
    obtain ⟨w, hw, rfl⟩ := hs
    exact Or.inr ⟨w, _, Or.inl rfl, hw, rfl, fun v hv => ⟨v, hv, rfl⟩⟩
  | delete =>
    obtain ⟨w, hw, rfl⟩ := hs
    exact Or.inr ⟨w, _, Or.inr rfl, hw, rfl, fun v hv => ⟨v, hv, rfl⟩⟩

/-- Without its spaces, a qualifier is the characters that are written. -/
theorem Qualifier.Spelled.bare {q : Qualifier} {s : Text} (hs : q.Spelled s) :
    python.bare s = q.bare := by
  have hword : ∀ u : Text, (u.all fun c => !isSpace c) = true → python.bare u = u :=
    fun u hu => Spacing.bare_word (S := python) (Spacing.spaceless_of_all (S := python) hu)
  have hequals : ∀ w u : Text, (∀ c ∈ w, isSpace c = true) →
      (u.all fun c => !isSpace c) = true → python.bare ('=' :: w ++ u) = '=' :: u := by
    intro w u hw hu
    rw [List.cons_append, Spacing.bare_cons (S := python) (by decide), Spacing.bare_append,
      Spacing.bare_spaces (S := python) hw, hword u hu]
    rfl
  cases q with
  | const | volatile | lvalue | rvalue | noexcept =>
    rw [Qualifier.Spelled] at hs
    rw [hs]
    exact hword _ rfl
  | noexceptOf e =>
    obtain ⟨w, hw, rfl⟩ := hs
    have hopen : python.bare ('(' :: e) = '(' :: python.bare e :=
      Spacing.bare_cons (S := python) (by decide) e
    have hclose : python.bare [')'] = [')'] := hword [')'] rfl
    have hkeyword : python.bare "noexcept".toList = "noexcept".toList := hword _ rfl
    rw [Spacing.bare_append, Spacing.bare_append, Spacing.bare_append, hkeyword,
      Spacing.bare_spaces (S := python) hw, List.append_nil, hopen, hclose]
    rfl
  | default =>
    obtain ⟨w, hw, rfl⟩ := hs
    exact hequals w _ hw rfl
  | delete =>
    obtain ⟨w, hw, rfl⟩ := hs
    exact hequals w _ hw rfl

theorem Qualifier.bare_ne_nil (q : Qualifier) : q.bare ≠ [] := by
  cases q with
  | noexceptOf e => exact List.append_ne_nil_of_right_ne_nil _ (List.cons_ne_nil _ _)
  | const | volatile | lvalue | rvalue | noexcept | default | delete =>
    exact List.cons_ne_nil _ _

theorem Qualifier.Spelled.flat {q : Qualifier} {s : Text} (hs : q.Spelled s)
    (hq : q.plain = true) :
    ∃ s', q.Spelled s' ∧ ∀ t, python.flat (s ++ t) = s' ++ python.flat t := by
  rcases hs.plain_cases hq with ⟨-, hword⟩ | ⟨w, u, hu, hw, rfl, hq'⟩
  · exact ⟨s, hs, Spacing.flat_append_word (S := python) fun c hc => (hword c hc).1⟩
  · refine ⟨'=' :: python.flat w ++ u, hq' _ ?_, ?_⟩
    · intro c hc
      rcases Spacing.mem_flat (S := python) w hc with hc | rfl
      · exact hw c hc
      · exact python.blank_space
    · intro t
      -- both words start with a letter, and the spaces are before it
      obtain ⟨d, ds, hd, hds⟩ : ∃ d ds, u = d :: ds ∧ ∀ c ∈ d :: ds, python.space c = false := by
        rcases hu with rfl | rfl
        · exact ⟨_, _, rfl, Spacing.spaceless_of_all (S := python) rfl⟩
        · exact ⟨_, _, rfl, Spacing.spaceless_of_all (S := python) rfl⟩
      obtain ⟨hd0, hds⟩ := List.forall_mem_cons.mp hds
      rw [hd, List.cons_append, List.cons_append, Spacing.flat_cons (S := python) (by decide),
        List.append_assoc, List.cons_append, Spacing.flat_append (S := python) hd0,
        Spacing.flat_append_word (S := python) hds]
      simp only [List.cons_append, List.append_assoc]

/-- An `=` and its word are matched, and written with a space on either side of the `=`. -/
theorem sub_definition {w u : Text} (hu : u = "default".toList ∨ u = "delete".toList)
    (hw : ∀ c ∈ w, isSpace c = true) (t : Text) :
    definition.sub ('=' :: w ++ u ++ t) = ' ' :: '=' :: [' '] ++ u ++ definition.sub t := by
  have hequals : equals? ('=' :: w ++ u ++ t) = some (w ++ (u ++ t)) := by
    rw [equals?_eq_some, List.append_assoc]
    exact List.dropWhile_cons_of_neg (by decide)
  have hat : definition.at? ('=' :: w ++ u ++ t) = some (' ' :: '=' :: [' '] ++ u, t) := by
    rw [definition]
    dsimp only
    rw [hequals, Option.bind_some, dropWhile_spaces hw]
    rcases hu with rfl | rfl
    · exact if_pos (List.prefix_append _ _)
    · have hne : ¬ "default".toList <+: ("delete".toList ++ t).dropWhile isSpace := by
        show ¬ 'd' :: 'e' :: 'f' :: "ault".toList <+: 'd' :: 'e' :: 'l' :: ("ete".toList ++ t)
        rw [List.cons_prefix_cons, List.cons_prefix_cons, List.cons_prefix_cons]
        exact fun h => absurd h.2.2.1 (by decide)
      rw [if_neg hne]
      exact if_pos (List.prefix_append _ _)
  rw [Pattern.sub_of_some hat]

theorem sub_definition_word {s : Text} (hs : ∀ c ∈ s, isSpace c = false ∧ c ≠ '=') (t : Text) :
    definition.sub (s ++ t) = s ++ definition.sub t := by
  induction s with
  | nil => rfl
  | cons c s ih =>
    obtain ⟨⟨hspace, hne⟩, hs⟩ := List.forall_mem_cons.mp hs
    have hequals : equals? (c :: (s ++ t)) = none := by
      by_contra hsome
      obtain ⟨u, hu⟩ := Option.ne_none_iff_exists'.mp hsome
      rw [equals?_eq_some, List.dropWhile_cons_of_neg (ne_true_of_eq_false hspace),
        List.cons.injEq] at hu
      exact hne hu.1
    have hat : definition.at? (c :: (s ++ t)) = none := by
      rw [definition]
      dsimp only
      rw [hequals]
      rfl
    rw [List.cons_append, Pattern.sub_of_none hat, ih hs]
    rfl

theorem sub_definition_space {c : Char} (hc : isSpace c = true) (t : Text) :
    definition.sub (c :: t) = c :: definition.sub t ∨
      definition.sub (c :: t) = definition.sub t := by
  have hat : definition.at? (c :: t) = definition.at? t := by
    have hequals : equals? (c :: t) = equals? t := by
      rw [equals?, equals?, List.dropWhile_cons_of_pos hc]
    rw [definition]
    dsimp only
    rw [hequals]
  cases h : definition.at? t with
  | none => exact Or.inl (Pattern.sub_of_none (hat.trans h))
  | some p => exact Or.inr ((Pattern.sub_of_some (hat.trans h)).trans (Pattern.sub_of_some h).symm)

theorem mem_head_sub {c : Char} {t : Text} (h : c ∈ (definition.sub t).head?) :
    c ∈ t.head? ∨ isSpace c = true := by
  cases t with
  | nil => cases h
  | cons d t =>
    cases hat : definition.at? (d :: t) with
    | none =>
      rw [Pattern.sub_of_none hat] at h
      exact Or.inl h
    | some p =>
      right
      rw [Pattern.sub_of_some hat] at h
      obtain ⟨t', -, hp⟩ := Option.bind_eq_some_iff.mp hat
      dsimp only at hp
      split at hp
      · cases hp
        obtain rfl : ' ' = c := Option.some.inj h
        decide
      · split at hp
        · cases hp
          obtain rfl : ' ' = c := Option.some.inj h
          decide
        · cases hp

/-! ### A sequence of them -/

/-- **Written without the spaces, it is the qualifiers and nothing else.** -/
theorem Written.bare {qs : List Qualifier} {t : Text} (h : Written qs t) :
    python.bare t = qs.flatMap Qualifier.bare := by
  induction h with
  | nil => rfl
  | space hc _ ih => rw [Spacing.bare_cons_space (S := python) hc, ih]
  | cons hs _ _ ih => rw [Spacing.bare_append, hs.bare, ih, List.flatMap_cons]

theorem Written.split {a b : List Qualifier} {q : Qualifier} {t : Text}
    (h : Written (a ++ q :: b) t) :
    ∃ u s tb, t = u ++ s ++ tb ∧ q.Spelled s ∧ Written b tb := by
  generalize hqs : a ++ q :: b = qs at h
  induction h generalizing a with
  | nil => exact absurd hqs (List.append_ne_nil_of_right_ne_nil _ (List.cons_ne_nil _ _))
  | space hc _ ih =>
    obtain ⟨u, s, tb, rfl, hs, hb⟩ := ih hqs
    exact ⟨_ :: u, s, tb, rfl, hs, hb⟩
  | @cons p ps sp tp hs _ ht ih =>
    cases a with
    | nil =>
      rw [List.nil_append, List.cons.injEq] at hqs
      obtain ⟨rfl, rfl⟩ := hqs
      exact ⟨[], sp, tp, rfl, hs, ht⟩
    | cons x a =>
      obtain ⟨u, s, tb, rfl, hs', hb⟩ := ih (List.cons.inj hqs).2
      exact ⟨sp ++ u, s, tb, by simp only [List.append_assoc], hs', hb⟩

theorem Written.not_mem {qs : List Qualifier} {t : Text} (h : Written qs t)
    (hqs : ∀ q ∈ qs, q.plain = true) : ')' ∉ t := by
  induction h with
  | nil => exact List.not_mem_nil
  | space hc _ ih =>
    rw [List.mem_cons, not_or]
    refine ⟨?_, ih hqs⟩
    rintro rfl
    exact absurd hc (by decide)
  | cons hs _ _ ih =>
    obtain ⟨hq, hqs⟩ := List.forall_mem_cons.mp hqs
    rw [List.mem_append, not_or]
    refine ⟨?_, ih hqs⟩
    rcases hs.plain_cases hq with ⟨-, hword⟩ | ⟨w, u, hu, hw, rfl, -⟩
    · exact fun hmem => (hword _ hmem).2.2 rfl
    · rw [List.cons_append, List.mem_cons, List.mem_append, not_or, not_or]
      refine ⟨by decide, fun hmem => absurd (hw _ hmem) (by decide), ?_⟩
      rcases hu with rfl | rfl <;> decide

/-! ### What `qualifiers` does to the text behind the bracket -/

theorem Written.dropWhile {qs : List Qualifier} {t : Text} (h : Written qs t)
    (hqs : ∀ q ∈ qs, q.plain = true) : Written qs (t.dropWhile isSpace) := by
  induction h with
  | nil => exact Written.nil
  | space hc _ ih =>
    rw [List.dropWhile_cons_of_pos hc]
    exact ih hqs
  | @cons q qs s t hs hends ht _ =>
    have hq := (List.forall_mem_cons.mp hqs).1
    have hfirst : ∀ c ∈ (s ++ t).head?, isSpace c = false := by
      rcases hs.plain_cases hq with ⟨hne, hword⟩ | ⟨w, u, -, -, rfl, -⟩
      · intro c hc
        rw [List.head?_append_of_ne_nil _ hne] at hc
        exact (hword c (List.mem_of_mem_head? hc)).1
      · intro c hc
        obtain rfl : '=' = c := Option.some.inj hc
        decide
    have hkeep : (s ++ t).dropWhile isSpace = s ++ t :=
      Spacing.dropWhile_space (S := python) hfirst
    rw [hkeep]
    exact Written.cons hs hends ht

theorem Written.flat {qs : List Qualifier} {t : Text} (h : Written qs t)
    (hqs : ∀ q ∈ qs, q.plain = true) : Written qs (python.flat t) := by
  induction h with
  | nil => exact Written.nil
  | @space qs c t hc _ ih =>
    rw [Spacing.flat_cons_space (S := python) hc, Spacing.flat_dropWhile]
    exact Written.space python.blank_space ((ih hqs).dropWhile hqs)
  | @cons q qs s t hs hends ht ih =>
    obtain ⟨hq, hqs⟩ := List.forall_mem_cons.mp hqs
    obtain ⟨s', hs', hflat⟩ := hs.flat hq
    rw [hflat]
    refine Written.cons hs' ?_ (ih hqs)
    intro c hc
    rcases Spacing.mem_head_flat (S := python) hc with hc | rfl
    · exact hends c hc
    · exact q.ends_space (c := ' ') (by decide)

theorem Written.sub {qs : List Qualifier} {t : Text} (h : Written qs t)
    (hqs : ∀ q ∈ qs, q.plain = true) : Written qs (definition.sub t) := by
  induction h with
  | nil => exact Written.nil
  | @space qs c t hc _ ih =>
    rcases sub_definition_space hc t with heq | heq
    · rw [heq]
      exact Written.space hc (ih hqs)
    · rw [heq]
      exact ih hqs
  | @cons q qs s t hs hends ht ih =>
    obtain ⟨hq, hqs⟩ := List.forall_mem_cons.mp hqs
    have hends' : ∀ c ∈ (definition.sub t).head?, q.ends c = true := by
      intro c hc
      rcases mem_head_sub hc with hc | hc
      · exact hends c hc
      · exact q.ends_space hc
    rcases hs.plain_cases hq with ⟨-, hword⟩ | ⟨w, u, hu, hw, rfl, hq'⟩
    · rw [sub_definition_word fun c hc => ⟨(hword c hc).1, (hword c hc).2.1⟩]
      exact Written.cons hs hends' (ih hqs)
    · have hone : ∀ c ∈ [' '], isSpace c = true := by
        intro c hc
        rw [List.mem_singleton.mp hc]
        exact python.blank_space
      rw [sub_definition hu hw]
      exact Written.space python.blank_space (Written.cons (hq' [' '] hone) hends' (ih hqs))

theorem Written.rdropWhile {qs : List Qualifier} {t : Text} (h : Written qs t)
    (hqs : ∀ q ∈ qs, q.plain = true) : Written qs (t.rdropWhile isSpace) := by
  induction h with
  | nil => exact Written.nil
  | @space qs c t hc _ ih =>
    by_cases hall : ∀ a ∈ c :: t, isSpace a = true
    · -- nothing but spaces stands here
      have hnil : (c :: t).rdropWhile isSpace = t.rdropWhile isSpace := by
        rw [List.rdropWhile_eq_nil_iff.mpr hall,
          List.rdropWhile_eq_nil_iff.mpr fun a ha => hall a (List.mem_cons_of_mem c ha)]
      rw [hnil]
      exact ih hqs
    · rw [rdropWhile_cons hall]
      exact Written.space hc (ih hqs)
  | @cons q qs s t hs hends ht ih =>
    obtain ⟨hq, hqs⟩ := List.forall_mem_cons.mp hqs
    obtain ⟨u, c, rfl, hc⟩ : ∃ u c, s = u ++ [c] ∧ isSpace c = false := by
      rcases hs.plain_cases hq with ⟨hne, hword⟩ | ⟨w, u, hu, -, rfl, -⟩
      · obtain ⟨u, c, rfl⟩ := (List.eq_nil_or_concat' s).resolve_left hne
        exact ⟨u, c, rfl, (hword c (List.mem_append_right u List.mem_cons_self)).1⟩
      · rcases hu with rfl | rfl
        · exact ⟨_, 't', (List.append_assoc ('=' :: w) "defaul".toList ['t']).symm, by decide⟩
        · exact ⟨_, 'e', (List.append_assoc ('=' :: w) "delet".toList ['e']).symm, by decide⟩
    have hc' : ¬ isSpace c = true := ne_true_of_eq_false hc
    rw [List.append_assoc, List.singleton_append, rdropWhile_around hc', List.append_cons]
    refine Written.cons hs ?_ (ih hqs)
    intro d hd
    exact hends d (mem_head_of_starts (List.rdropWhile_prefix isSpace t) hd)

/-! ### The end of the parameter list -/

/-- The argsstring is a parameter list in brackets, whatever stands in it, and these
qualifiers. -/
def Declares (m : Element) (qs : List Qualifier) : Prop :=
  ∃ inner t, (m.find "argsstring").map Element.itertext = some ('(' :: inner ++ ')' :: t) ∧
    Written qs t

/-- The qualifiers behind the last `noexcept` with an expression. -/
def remaining (qs : List Qualifier) : List Qualifier := qs.rtakeWhile Qualifier.plain

theorem remaining_plain (qs : List Qualifier) : ∀ q ∈ remaining qs, q.plain = true :=
  fun _ hq => List.mem_rtakeWhile_imp hq

/-- A bracket closed behind the parameter list is taken for its end. -/
theorem Declares.remaining {m : Element} {qs : List Qualifier} (h : Declares m qs) :
    Declares m (remaining qs) := by
  obtain ⟨inner, t, hargs, ht⟩ := h
  rcases rtakeWhile_cases Qualifier.plain qs with hall | ⟨a, q, hq, hqs⟩
  · rw [Surface.remaining, List.rtakeWhile_eq_self_iff.mpr hall]
    exact ⟨inner, t, hargs, ht⟩
  · rw [← Surface.remaining] at hqs
    rw [hqs] at ht
    obtain ⟨u, s, tb, rfl, hs, htb⟩ := ht.split
    cases q with
    | noexceptOf e =>
      obtain ⟨w, -, rfl⟩ := hs
      refine ⟨inner ++ ')' :: u ++ "noexcept".toList ++ w ++ '(' :: e, tb, ?_, htb⟩
      rw [hargs, Option.some.injEq]
      simp only [List.append_assoc, List.cons_append, List.nil_append]
    | const | volatile | lvalue | rvalue | noexcept | default | delete => exact absurd rfl hq

/-- **What `qualifiers` leaves is a way to write the qualifiers behind the last `noexcept`
with an expression.** -/
theorem written_qualifiers {m : Element} {qs : List Qualifier} (h : Declares m qs) :
    Written (remaining qs) (qualifiers m) := by
  have hplain := remaining_plain qs
  obtain ⟨inner, t, hargs, ht⟩ := h.remaining
  have hbehind := (ht.flat hplain).rdropWhile hplain
  have htext : text (m.find "argsstring")
      = python.flat ('(' :: inner) ++ ')' :: (python.flat t).rdropWhile isSpace := by
    obtain ⟨node, hnode, hargs⟩ := Option.map_eq_some_iff.mp hargs
    rw [hnode, text, hargs, collapse]
    refine Spacing.collapse_around (S := python) ?_ (by decide) t
    intro b hb
    obtain rfl : '(' = b := Option.some.inj hb
    decide
  rw [qualifiers, htext, rfind_append _ (hbehind.not_mem hplain)]
  dsimp only
  rw [List.append_cons, List.drop_left' (by rw [List.length_append, List.length_singleton])]
  exact (hbehind.sub hplain).rdropWhile hplain

/-! ### The line -/

theorem flatMap_bare_eq_nil {qs : List Qualifier} :
    qs.flatMap Qualifier.bare = [] ↔ qs = [] := by
  cases qs with
  | nil => exact iff_of_true rfl rfl
  | cons q qs =>
    refine iff_of_false ?_ (List.cons_ne_nil q qs)
    exact List.append_ne_nil_of_left_ne_nil q.bare_ne_nil _

/-- Two declarations that agree on everything a line is written from but the qualifiers. -/
structure SameElsewhere (m m' : Element) : Prop where
  lead : lead m = lead m'
  name : memberName m = memberName m'
  template : template m = template m'
  params : parameters m = parameters m'
  type : text (m.find "type") = text (m'.find "type")

theorem bare_line {m : Element} {qs : List Qualifier} (h : Declares m qs) :
    python.bare (line m) = python.bare (front m ++ parameters m) ++
      ((remaining qs).flatMap Qualifier.bare ++ python.bare (answer m)) := by
  have hline : line m = collapse ((front m ++ parameters m) ++ (qualifiers m ++ answer m)) := by
    rw [line, entry, signature, front, answer, lead_eq]
    simp only [List.append_assoc, List.cons_append]
  rw [hline, collapse, Spacing.bare_collapse, Spacing.bare_append,
    Spacing.bare_append (qualifiers m), (written_qualifiers h).bare]

/-- Such declarations are told apart by the qualifiers that remain. -/
theorem SameElsewhere.bare_line_iff {m m' : Element} (hsame : SameElsewhere m m')
    {qs qs' : List Qualifier} (h : Declares m qs) (h' : Declares m' qs') :
    python.bare (line m) = python.bare (line m') ↔
      (remaining qs).flatMap Qualifier.bare = (remaining qs').flatMap Qualifier.bare := by
  have hfront : front m ++ parameters m = front m' ++ parameters m' := by
    rw [front, front, ← lead_eq, ← lead_eq, hsame.lead, hsame.name, hsame.template, hsame.params]
  have hanswer : answer m = answer m' := by rw [answer, answer, hsame.type]
  rw [bare_line h, bare_line h', hfront, hanswer, List.append_cancel_left_eq,
    List.append_cancel_right_eq]

/-- One qualifier more is seen in what remains, unless a `noexcept` with an expression
stands behind it, or it is one and hides nothing. -/
theorem remaining_ne_iff (a b : List Qualifier) (q : Qualifier) :
    (remaining (a ++ q :: b)).flatMap Qualifier.bare
        ≠ (remaining (a ++ b)).flatMap Qualifier.bare ↔
      (∀ x ∈ b, x.plain = true) ∧ (q.plain = true ∨ ∃ p ∈ a.getLast?, p.plain = true) := by
  by_cases hb : ∀ x ∈ b, x.plain = true
  · have hwithout : remaining (a ++ b) = remaining a ++ b := rtakeWhile_append hb a
    by_cases hq : q.plain = true
    · have hwith : remaining (a ++ q :: b) = remaining a ++ q :: b :=
        rtakeWhile_append (List.forall_mem_cons.mpr ⟨hq, hb⟩) a
      refine iff_of_true ?_ ⟨hb, Or.inl hq⟩
      rw [hwith, hwithout, List.flatMap_append, List.flatMap_append, ne_eq,
        List.append_cancel_left_eq, List.flatMap_cons, List.append_left_eq_self]
      exact q.bare_ne_nil
    · have hwith : remaining (a ++ q :: b) = b := rtakeWhile_behind hq hb a
      have hlast : remaining a ≠ [] ↔ ∃ p ∈ a.getLast?, p.plain = true := by
        rcases List.eq_nil_or_concat' a with rfl | ⟨a, p, rfl⟩
        · exact iff_of_false (not_not.mpr rfl) nofun
        · rw [remaining, List.rtakeWhile_concat]
          simp
      rw [hwith, hwithout, List.flatMap_append, ne_comm, ne_eq, List.append_left_eq_self,
        flatMap_bare_eq_nil, ← ne_eq, hlast]
      exact ⟨fun h => ⟨hb, Or.inr h⟩, fun h => h.2.resolve_left hq⟩
  · have hwith : remaining (a ++ q :: b) = remaining b := by
      rw [List.append_cons]
      exact rtakeWhile_append_of_neg hb _
    have hwithout : remaining (a ++ b) = remaining b := rtakeWhile_append_of_neg hb a
    rw [hwith, hwithout]
    exact iff_of_false (not_not.mpr rfl) fun h => hb h.1

theorem written_qualifiers_iff {m : Element} {qs : List Qualifier} (h : Declares m qs) :
    Written qs (qualifiers m) ↔ ∀ q ∈ qs, q.plain = true := by
  have hleft := written_qualifiers h
  constructor
  · intro hall
    -- what stands before the rest is written with no characters
    have hbare := hall.bare.symm.trans hleft.bare
    have hsplit : qs.flatMap Qualifier.bare = (qs.rdropWhile Qualifier.plain).flatMap Qualifier.bare
        ++ (remaining qs).flatMap Qualifier.bare := by
      rw [← List.flatMap_append, remaining, List.rdropWhile_append_rtakeWhile]
    rw [hsplit, List.append_left_eq_self, flatMap_bare_eq_nil] at hbare
    exact List.rdropWhile_eq_nil_iff.mp hbare
  · intro hplain
    have hqs : remaining qs = qs := List.rtakeWhile_eq_self_iff.mpr hplain
    rw [hqs] at hleft
    exact hleft

/-- **When no qualifier is lost.**  `qualifiers` leaves the qualifiers as they are declared,
apart from the spaces, exactly when none of them is a `noexcept` with an expression.  And
one qualifier less, or more, changes the line, and not only in its spaces, exactly when no
`noexcept` with an expression stands behind it and it is none itself, or is one and hides
another. -/
theorem qualifiers_survive_iff {m : Element} {qs : List Qualifier} (hm : IsFunction m)
    (h : Declares m qs) :
    (Written qs (qualifiers m) ↔ ∀ q ∈ qs, q.plain = true) ∧
    ∀ (m' : Element) (a b : List Qualifier) (q : Qualifier), IsFunction m' →
      SameElsewhere m m' → qs = a ++ q :: b → Declares m' (a ++ b) →
      ∃ e e', memberEntry m = some e ∧ memberEntry m' = some e' ∧
        (python.bare e.2 ≠ python.bare e'.2 ↔
          (∀ x ∈ b, x.plain = true) ∧ (q.plain = true ∨ ∃ p ∈ a.getLast?, p.plain = true)) := by
  refine ⟨written_qualifiers_iff h, ?_⟩
  intro m' a b q hm' hsame hqs h'
  refine ⟨_, _, memberEntry_function hm, memberEntry_function hm', ?_⟩
  dsimp only
  rw [← remaining_ne_iff, ← hqs]
  exact not_congr (hsame.bare_line_iff h h')

/-! ### Where one is lost -/

def keptConst : Element := memberdef "yes" "zu::A::h" "bool"
  "(std::function< void(int)> f=g(1)) const noexcept" [("std::function< void(int)>", "g(1)")]

def lostConst : Element := memberdef "no" "zu::A::h" "bool"
  "(std::function< void(int)> f=g(1)) noexcept" [("std::function< void(int)>", "g(1)")]

theorem Written.last {q : Qualifier} {s : Text} (hs : q.Spelled s) : Written [q] s := by
  have h := Written.cons (t := []) hs nofun Written.nil
  rwa [List.append_nil] at h

theorem Written.const {qs : List Qualifier} {t : Text} (ht : Written qs (' ' :: t)) :
    Written (.const :: qs) (' ' :: ("const".toList ++ ' ' :: t)) := by
  have hconst : Qualifier.const.Spelled "const".toList := rfl
  refine Written.space python.blank_space (Written.cons hconst ?_ ht)
  intro c hc
  obtain rfl : ' ' = c := Option.some.inj hc
  decide

theorem written_noexcept : Written [.noexcept] " noexcept".toList :=
  Written.space python.blank_space (Written.last (s := "noexcept".toList) rfl)

theorem declares_keptConst : Declares keptConst [.const, .noexcept] :=
  ⟨"std::function< void(int)> f=g(1)".toList, " const noexcept".toList, rfl,
    Written.const written_noexcept⟩

theorem declares_lostConst : Declares lostConst [.noexcept] :=
  ⟨"std::function< void(int)> f=g(1)".toList, " noexcept".toList, rfl, written_noexcept⟩

theorem spelled_noexceptOf : (Qualifier.noexceptOf "g()".toList).Spelled "noexcept(g())".toList :=
  ⟨[], nofun, rfl⟩

theorem written_noexceptOf : Written [.noexceptOf "g()".toList] " noexcept(g())".toList :=
  Written.space python.blank_space (Written.last spelled_noexceptOf)

theorem sameElsewhere_hiddenConst : SameElsewhere hiddenConst noConst :=
  ⟨by decide, by decide, by decide, by decide, by decide⟩

/-- **A `const` before a `noexcept` with an expression is lost**, and with it gone from the
header the line is the same. -/
theorem const_lost :
    Declares hiddenConst [.const, .noexceptOf "g()".toList] ∧
    ¬ Written [.const, .noexceptOf "g()".toList] (qualifiers hiddenConst) ∧
    Declares noConst [.noexceptOf "g()".toList] ∧ SameElsewhere hiddenConst noConst ∧
    memberEntry hiddenConst = memberEntry noConst := by
  refine ⟨⟨[], " const noexcept(g())".toList, rfl, Written.const written_noexceptOf⟩, ?_,
    ⟨[], " noexcept(g())".toList, rfl, written_noexceptOf⟩, sameElsewhere_hiddenConst, by decide⟩
  intro h
  have hnil : qualifiers hiddenConst = [] := by decide
  rw [hnil] at h
  exact absurd h.bare (by decide)

theorem qualifiers_survive_keptConst :
    Written [.const, .noexcept] (qualifiers keptConst) ∧
    ∃ e e', memberEntry keptConst = some e ∧ memberEntry lostConst = some e' ∧
      (python.bare e.2 ≠ python.bare e'.2 ↔
        (∀ x ∈ [Qualifier.noexcept], x.plain = true) ∧
          (Qualifier.const.plain = true ∨
            ∃ p ∈ ([] : List Qualifier).getLast?, p.plain = true)) := by
  have hkept : IsFunction keptConst := ⟨by decide, by decide, by decide⟩
  have hlost : IsFunction lostConst := ⟨by decide, by decide, by decide⟩
  have hsame : SameElsewhere keptConst lostConst :=
    ⟨by decide, by decide, by decide, by decide, by decide⟩
  obtain ⟨hwritten, hline⟩ := qualifiers_survive_iff hkept declares_keptConst
  exact ⟨hwritten.mpr (by decide), hline lostConst [] _ _ hlost hsame rfl declares_lostConst⟩

end ZuCpp.Surface
