import Mathlib.Data.List.Basic
import Mathlib.Data.List.Infix

/-!
# Replacing the matches of a pattern, and cutting at a separator

A `Pattern` is tried at a place of a text and answers, if it matches there, what the match
is replaced by and what is left behind it.  `Pattern.sub` goes through a text from left to
right, as a regular expression substitution does: where the pattern matches it goes on
behind the match, where it does not it keeps the character.

`upTo sep s` is the text before the first `sep` in `s`, `cut? sep s` is that and the text
behind it, and a text falls apart in one way only at the first of a character, or at the last.
-/

namespace ZuCpp.Lib

variable {α : Type*}

/-! ### Patterns -/

/-- A pattern, with what its matches are replaced by. -/
structure Pattern (α : Type*) where
  /-- the replacement, and what is left behind the match -/
  at? : List α → Option (List α × List α)
  /-- no match is empty -/
  shorter : ∀ {s r rest}, at? s = some (r, rest) → rest.length < s.length

namespace Pattern

variable (P : Pattern α)

/-- `sub` for texts of `n` characters at most. -/
def subAux : Nat → List α → List α
  | 0, s => s
  | _ + 1, [] => []
  | n + 1, c :: cs =>
    match P.at? (c :: cs) with
    | none => c :: subAux n cs
    | some (r, rest) => r ++ subAux n rest

/-- The text with every match replaced. -/
def sub (s : List α) : List α := P.subAux s.length s

variable {P}

theorem subAux_eq : ∀ {n : Nat} {s : List α}, s.length ≤ n → P.subAux n s = P.sub s := by
  intro n
  induction n using Nat.strong_induction_on with
  | _ n ih =>
    intro s hs
    cases s with
    | nil => cases n <;> rfl
    | cons c cs =>
      obtain ⟨k, rfl⟩ := Nat.exists_eq_add_of_le' (Nat.lt_of_lt_of_le (Nat.zero_lt_succ _) hs)
      rw [List.length_cons] at hs
      rw [sub, List.length_cons, subAux, subAux]
      cases h : P.at? (c :: cs) with
      | none =>
        dsimp only
        rw [ih k (by omega) (by omega)]
        rfl
      | some p =>
        obtain ⟨r, rest⟩ := p
        have hshort := P.shorter h
        rw [List.length_cons] at hshort
        dsimp only
        rw [ih k (by omega) (by omega), ih cs.length (by omega) (by omega)]

@[simp] theorem sub_nil : P.sub [] = [] := rfl

theorem sub_of_none {c : α} {cs : List α} (h : P.at? (c :: cs) = none) :
    P.sub (c :: cs) = c :: P.sub cs := by
  rw [sub, List.length_cons, subAux, h]
  rfl

theorem sub_of_some {s r rest : List α} (h : P.at? s = some (r, rest)) :
    P.sub s = r ++ P.sub rest := by
  cases s with
  | nil => exact absurd (P.shorter h) (Nat.not_lt_zero _)
  | cons c cs =>
    have hshort := P.shorter h
    rw [List.length_cons] at hshort
    rw [sub, List.length_cons, subAux, h]
    dsimp only
    rw [subAux_eq (by omega)]

theorem sub_induction {motive : List α → Prop} (nil : motive [])
    (keep : ∀ c cs, P.at? (c :: cs) = none → motive cs → motive (c :: cs))
    (replace : ∀ s r rest, P.at? s = some (r, rest) → motive rest → motive s) :
    ∀ s, motive s := by
  intro s
  induction hn : s.length using Nat.strong_induction_on generalizing s with
  | _ n ih =>
    subst hn
    cases s with
    | nil => exact nil
    | cons c cs =>
      cases h : P.at? (c :: cs) with
      | none => exact keep c cs h (ih cs.length (Nat.lt_succ_self _) cs rfl)
      | some p => exact replace _ p.1 p.2 h (ih p.2.length (P.shorter h) p.2 rfl)

end Pattern

/-! ### The first and the last of a character -/

/-- A run ends where the next character is not of its kind. -/
theorem run_append {p : α → Bool} {a b : List α} (ha : ∀ y ∈ a, p y = true)
    (hb : ∀ y ∈ b.head?, p y = false) :
    (a ++ b).takeWhile p = a ∧ (a ++ b).dropWhile p = b := by
  rw [List.takeWhile_append_of_pos ha, List.dropWhile_append_of_pos ha]
  cases b with
  | nil => exact ⟨List.append_nil a, rfl⟩
  | cons c b =>
    have hc : ¬ p c = true := ne_true_of_eq_false (hb c rfl)
    rw [List.takeWhile_cons_of_neg hc, List.dropWhile_cons_of_neg hc, List.append_nil]
    exact ⟨rfl, rfl⟩

theorem run_ne [DecidableEq α] {c : α} {a : List α} (ha : c ∉ a) (b : List α) :
    (a ++ c :: b).takeWhile (fun d => decide (d ≠ c)) = a ∧
      (a ++ c :: b).dropWhile (fun d => decide (d ≠ c)) = c :: b := by
  refine run_append (fun d hd => decide_eq_true fun h => ha (h ▸ hd)) ?_
  intro d hd
  obtain rfl : c = d := Option.some.inj hd
  exact decide_eq_false (not_not.mpr rfl)

theorem takeWhile_ne [DecidableEq α] {c : α} {a : List α} (ha : c ∉ a) (b : List α) :
    (a ++ c :: b).takeWhile (fun d => decide (d ≠ c)) = a := (run_ne ha b).1

theorem dropWhile_ne [DecidableEq α] {c : α} {a : List α} (ha : c ∉ a) (b : List α) :
    (a ++ c :: b).dropWhile (fun d => decide (d ≠ c)) = c :: b := (run_ne ha b).2

theorem eq_of_first [DecidableEq α] {c : α} {a a' b b' : List α} (ha : c ∉ a) (ha' : c ∉ a')
    (h : a ++ c :: b = a' ++ c :: b') : a = a' ∧ b = b' := by
  have hfirst := takeWhile_ne ha b
  rw [h, takeWhile_ne ha' b'] at hfirst
  subst hfirst
  exact ⟨rfl, (List.cons.inj (List.append_cancel_left h)).2⟩

/-- A text is told apart at the first character that is of another kind. -/
theorem eq_of_stop {p : α → Bool} {x x' : α} {a a' b b' : List α} (ha : ∀ y ∈ a, p y = true)
    (ha' : ∀ y ∈ a', p y = true) (hx : p x = false) (hx' : p x' = false)
    (h : a ++ x :: b = a' ++ x' :: b') : a = a' ∧ x = x' ∧ b = b' := by
  have hfirst := congrArg (List.takeWhile p) h
  rw [List.takeWhile_append_of_pos ha, List.takeWhile_append_of_pos ha',
    List.takeWhile_cons_of_neg (by simp [hx]), List.takeWhile_cons_of_neg (by simp [hx']),
    List.append_nil, List.append_nil] at hfirst
  subst hfirst
  exact ⟨rfl, List.cons.inj (List.append_cancel_left h)⟩

theorem eq_of_last [DecidableEq α] {c : α} {a a' b b' : List α} (hb : c ∉ b) (hb' : c ∉ b')
    (h : a ++ c :: b = a' ++ c :: b') : a = a' ∧ b = b' := by
  have hrev := congrArg List.reverse h
  rw [List.reverse_append, List.reverse_append, List.reverse_cons, List.reverse_cons,
    List.append_assoc, List.append_assoc, List.singleton_append, List.singleton_append] at hrev
  obtain ⟨h1, h2⟩ := eq_of_first (fun h => hb (List.mem_reverse.mp h))
    (fun h => hb' (List.mem_reverse.mp h)) hrev
  exact ⟨List.reverse_injective h2, List.reverse_injective h1⟩

/-! ### The text before a separator -/

section UpTo

variable [DecidableEq α] {sep : List α}

/-- The text before the first `sep`, and all of it where there is none. -/
def upTo (sep : List α) : List α → List α
  | [] => []
  | c :: cs => if sep <+: c :: cs then [] else c :: upTo sep cs

theorem upTo_starts (s : List α) : upTo sep s <+: s := by
  induction s with
  | nil => exact List.prefix_rfl
  | cons c cs ih =>
    rw [upTo]
    split
    · exact List.nil_prefix
    · exact (List.prefix_cons_inj c).mpr ih

theorem upTo_of_not_infix {s : List α} (h : ¬ sep <:+: s) : upTo sep s = s := by
  induction s with
  | nil => rfl
  | cons c cs ih =>
    have hcs : ¬ sep <:+: cs := fun hi => h (hi.trans (List.suffix_cons c cs).isInfix)
    rw [upTo, if_neg fun hp => h hp.isInfix, ih hcs]

/-- Nothing that starts in `a` and ends behind it is a separator, when `a` ends with a
character that none has. -/
theorem upTo_append {a : List α} {c : α} (hsep : sep ≠ []) (hc : c ∉ sep) (s : List α) :
    ¬ sep <:+: a → upTo sep (a ++ c :: s) = a ++ c :: upTo sep s := by
  induction a with
  | nil =>
    intro _
    have hno : ¬ sep <+: c :: s := by
      intro hp
      obtain ⟨x, xs, rfl⟩ := List.exists_cons_of_ne_nil hsep
      obtain ⟨rfl, -⟩ := List.cons_prefix_cons.mp hp
      exact hc List.mem_cons_self
    rw [List.nil_append, upTo, if_neg hno]
    rfl
  | cons x a ih =>
    intro h
    have hno : ¬ sep <+: x :: (a ++ c :: s) := by
      intro hp
      rcases List.prefix_or_prefix_of_prefix hp (List.prefix_append (x :: a) (c :: s)) with hp | hp
      · exact h hp.isInfix
      · obtain ⟨t, rfl⟩ := hp
        rw [← List.cons_append, List.prefix_append_right_inj] at *
        cases t with
        | nil =>
          rw [List.append_nil] at h
          exact h List.infix_rfl
        | cons y t =>
          obtain ⟨rfl, -⟩ := List.cons_prefix_cons.mp hp
          exact hc (List.mem_append_right _ List.mem_cons_self)
    rw [List.cons_append, upTo, if_neg hno,
      ih fun hi => h (hi.trans (List.suffix_cons x a).isInfix)]
    rfl

theorem upTo_append_of_infix {a : List α} (h : sep <:+: a) (s : List α) :
    upTo sep (a ++ s) = upTo sep a := by
  induction a with
  | nil =>
    obtain rfl := List.infix_nil.mp h
    cases s <;> rfl
  | cons c a ih =>
    rw [List.cons_append, upTo, upTo]
    by_cases hp : sep <+: c :: a
    · rw [if_pos hp]
      exact if_pos (hp.trans (List.prefix_append (c :: a) s))
    · have ha : sep <:+: a := (List.infix_cons_iff.mp h).resolve_left hp
      have hno : ¬ sep <+: c :: (a ++ s) := by
        intro hp'
        rcases List.prefix_or_prefix_of_prefix hp' (List.prefix_append (c :: a) s) with hs | hs
        · exact hp hs
        · have := ha.length_le
          have := hs.length_le
          rw [List.length_cons] at this
          omega
      rw [if_neg hp, if_neg hno, ih ha]

/-- The text ends at a separator in front of which none starts. -/
theorem upTo_here {a : List α} (hsep : sep ≠ []) (h : ¬ sep <:+: a ++ sep.dropLast) (s : List α) :
    upTo sep (a ++ (sep ++ s)) = a := by
  induction a with
  | nil =>
    obtain ⟨x, xs, rfl⟩ := List.exists_cons_of_ne_nil hsep
    exact if_pos (List.prefix_append (x :: xs) s)
  | cons c a ih =>
    have hno : ¬ sep <+: c :: (a ++ (sep ++ s)) := by
      intro hp
      have hstarts : c :: a ++ sep.dropLast <+: c :: (a ++ (sep ++ s)) := by
        rw [← List.cons_append, List.prefix_append_right_inj]
        exact (List.dropLast_prefix sep).trans (List.prefix_append sep s)
      refine h (List.prefix_of_prefix_length_le hp hstarts ?_).isInfix
      rw [List.length_append, List.length_cons, List.length_dropLast]
      omega
    have hrest := ih fun hi => h (hi.trans (List.suffix_cons c _).isInfix)
    rw [List.cons_append, upTo, if_neg hno, hrest]

end UpTo

/-! ### Lines -/

section Led

variable {x : α}

def led (x : α) (lines : List (List α)) : List α := lines.flatMap (x :: ·)

@[simp] theorem led_nil : led x [] = [] := rfl

@[simp] theorem led_cons (l : List α) (lines : List (List α)) :
    led x (l :: lines) = x :: (l ++ led x lines) := by
  simp [led]

@[simp] theorem led_append (a b : List (List α)) : led x (a ++ b) = led x a ++ led x b := by
  simp [led]

theorem prefix_of_prefix_append {xs l s : List α} (hx : x ∉ xs) (h : xs <+: l ++ x :: s) :
    xs <+: l := by
  rcases List.prefix_or_prefix_of_prefix h (List.prefix_append l (x :: s)) with hp | hp
  · exact hp
  · obtain ⟨t, rfl⟩ := hp
    rw [List.prefix_append_right_inj] at h
    cases t with
    | nil => simp
    | cons y t =>
      obtain ⟨rfl, -⟩ := List.cons_prefix_cons.mp h
      exact absurd (List.mem_append_right l List.mem_cons_self) hx

end Led

/-! ### Cutting at a separator -/

section Cut

variable [DecidableEq α]

/-- What stands before the first `sep`, and what stands behind it. -/
def cut? (sep : List α) : List α → Option (List α × List α)
  | [] => none
  | c :: cs =>
    if sep <+: c :: cs then some ([], (c :: cs).drop sep.length)
    else (cut? sep cs).map fun p => (c :: p.1, p.2)

theorem cut?_of_not_prefix {sep s : List α} {c : α} (h : ¬ sep <+: c :: s) :
    cut? sep (c :: s) = (cut? sep s).map fun p => (c :: p.1, p.2) := if_neg h

theorem length_of_cut? {sep s a b : List α} (hsep : sep ≠ []) (h : cut? sep s = some (a, b)) :
    b.length < s.length := by
  induction s generalizing a with
  | nil => cases h
  | cons c cs ih =>
    rw [cut?] at h
    split at h
    · obtain ⟨-, rfl⟩ := Prod.mk.inj (Option.some.inj h)
      have := List.length_pos_of_ne_nil hsep
      rw [List.length_drop, List.length_cons]
      omega
    · obtain ⟨⟨a', b'⟩, hcut, hp⟩ := Option.map_eq_some_iff.mp h
      obtain ⟨-, rfl⟩ := Prod.mk.inj hp
      have := ih hcut
      rw [List.length_cons]
      omega

variable {x : α} {xs : List α}

theorem cut?_here (s : List α) : cut? (x :: xs) (x :: (xs ++ s)) = some ([], s) := by
  have hp : x :: xs <+: x :: (xs ++ s) := List.prefix_append (x :: xs) s
  rw [cut?, if_pos hp, ← List.cons_append, List.drop_left]

theorem cut?_skip {a : List α} (ha : x ∉ a) (s : List α) :
    cut? (x :: xs) (a ++ s) = (cut? (x :: xs) s).map fun p => (a ++ p.1, p.2) := by
  induction a with
  | nil => simp
  | cons c a ih =>
    have hc : ¬ x :: xs <+: c :: (a ++ s) := by
      intro hp
      exact ha ((List.cons_prefix_cons.mp hp).1 ▸ List.mem_cons_self)
    rw [List.cons_append, cut?_of_not_prefix hc, ih fun h => ha (List.mem_cons_of_mem c h),
      Option.map_map]
    rfl

/-- **Among lines that do not start as the separator goes on, there is no separator.** -/
theorem cut?_led {lines : List (List α)} (hx : x ∉ xs)
    (h : ∀ l ∈ lines, x ∉ l ∧ ¬ xs <+: l) {s : List α} (hs : s = [] ∨ ∃ t, s = x :: t) :
    cut? (x :: xs) (led x lines ++ s)
      = (cut? (x :: xs) s).map fun p => (led x lines ++ p.1, p.2) := by
  induction lines with
  | nil => simp
  | cons l lines ih =>
    obtain ⟨hl, hstart⟩ := h l List.mem_cons_self
    have hlater := ih fun l' hl' => h l' (List.mem_cons_of_mem l hl')
    have hno : ¬ x :: xs <+: x :: (l ++ (led x lines ++ s)) := by
      rw [List.cons_prefix_cons]
      rintro ⟨-, hp⟩
      -- what stands behind the line is nothing, or starts with an `x`
      have hrest : led x lines ++ s = [] ∨ ∃ t, led x lines ++ s = x :: t := by
        cases lines with
        | nil => simpa using hs
        | cons l' lines => exact .inr ⟨_, by rw [led_cons]; rfl⟩
      rcases hrest with hrest | ⟨t, hrest⟩
      · rw [hrest, List.append_nil] at hp
        exact hstart hp
      · rw [hrest] at hp
        exact hstart (prefix_of_prefix_append hx hp)
    rw [led_cons, List.cons_append, List.append_assoc, cut?_of_not_prefix hno, cut?_skip hl,
      hlater, Option.map_map, Option.map_map]
    congr 1
    funext p
    simp

end Cut

end ZuCpp.Lib
