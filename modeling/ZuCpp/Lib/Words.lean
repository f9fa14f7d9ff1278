import ZuCpp.Lib.Rewrite
import Mathlib.Data.List.DropRight
import Mathlib.Data.List.Chain

/-!
# Words and the spaces between them

Over any alphabet with some characters that are spaces and one of these, the blank.
`flat` makes every run of spaces one blank, `strip` takes the spaces off both ends,
`collapse` does both, and `words` are the runs of what is no space.

A text is `Flat` when `flat` has nothing to do in it, and `Tidy` when `collapse` has not.
Both are closed under what a text is taken apart by and put together from, so that a text
that is made of tidy ones needs no collapsing.  `bare` leaves the spaces out altogether, and
what differs there no collapsing makes the same.
-/

namespace ZuCpp.Lib

variable {α : Type*}

/-! ### Pieces -/

theorem not_mem_piece [DecidableEq α] {c : α} : ∀ {s p : List α}, p ∈ s.splitOn c → c ∉ p := by
  intro s
  induction s with
  | nil =>
    intro p hp
    rw [List.splitOn_nil, List.mem_singleton] at hp
    rw [hp]
    exact List.not_mem_nil
  | cons x s ih =>
    intro p hp
    rw [List.splitOn_cons_eq_if_modifyHead] at hp
    split at hp
    · rcases List.mem_cons.mp hp with rfl | hp
      · exact List.not_mem_nil
      · exact ih hp
    · rename_i hx
      obtain ⟨q, qs, hq⟩ := List.exists_cons_of_ne_nil (List.splitOn_ne_nil c s)
      rw [hq] at hp ih
      rcases List.mem_cons.mp hp with rfl | hp
      · rw [List.mem_cons, not_or]
        exact ⟨fun h => hx (beq_iff_eq.mpr h.symm), ih List.mem_cons_self⟩
      · exact ih (List.mem_cons_of_mem q hp)

theorem rdropWhile_cons {p : α → Bool} {c : α} {s : List α} (h : ¬ ∀ a ∈ c :: s, p a = true) :
    (c :: s).rdropWhile p = c :: s.rdropWhile p := by
  rw [List.rdropWhile, List.rdropWhile, List.reverse_cons, List.dropWhile_append]
  split
  · rename_i hnil
    rw [List.isEmpty_iff] at hnil
    have hs : ∀ a ∈ s, p a = true := fun a ha =>
      List.dropWhile_eq_nil_iff.mp hnil a (List.mem_reverse.mpr ha)
    have hc : ¬ p c = true := fun hc => h (List.forall_mem_cons.mpr ⟨hc, hs⟩)
    rw [hnil, List.dropWhile_cons_of_neg hc]
    rfl
  · rw [List.reverse_append]
    rfl

theorem rdropWhile_around {p : α → Bool} {c : α} (hc : ¬ p c = true) (t s : List α) :
    (s ++ c :: t).rdropWhile p = s ++ c :: t.rdropWhile p := by
  induction s with
  | nil => exact rdropWhile_cons fun h => hc (h c List.mem_cons_self)
  | cons d s ih =>
    rw [List.cons_append, rdropWhile_cons, ih]
    · rfl
    · exact fun h => hc (h c (List.mem_cons_of_mem d (List.mem_append_right s List.mem_cons_self)))

theorem rtakeWhile_append {p : α → Bool} {t : List α} (ht : ∀ a ∈ t, p a = true) (s : List α) :
    (s ++ t).rtakeWhile p = s.rtakeWhile p ++ t := by
  have hreverse : ∀ a ∈ t.reverse, p a = true := fun a ha => ht a (List.mem_reverse.mp ha)
  rw [List.rtakeWhile, List.rtakeWhile, List.reverse_append, List.takeWhile_append_of_pos hreverse,
    List.reverse_append, List.reverse_reverse]

theorem rtakeWhile_behind {p : α → Bool} {c : α} {t : List α} (hc : ¬ p c = true)
    (ht : ∀ a ∈ t, p a = true) (s : List α) : (s ++ c :: t).rtakeWhile p = t := by
  rw [List.append_cons, rtakeWhile_append ht, List.rtakeWhile_concat_neg p s c hc,
    List.nil_append]

theorem last_ne [DecidableEq α] {c : α} {b : List α} (hb : c ∉ b) (a : List α) :
    (a ++ c :: b).rdropWhile (fun d => decide (d ≠ c)) = a ++ [c] ∧
      (a ++ c :: b).rtakeWhile (fun d => decide (d ≠ c)) = b := by
  have hall : ∀ d ∈ b, (decide (d ≠ c)) = true := fun d hd => decide_eq_true fun h => hb (h ▸ hd)
  have hc : ¬ decide (c ≠ c) = true := by simp
  refine ⟨?_, rtakeWhile_behind (p := fun d => decide (d ≠ c)) hc hall a⟩
  rw [rdropWhile_around (p := fun d => decide (d ≠ c)) hc, List.rdropWhile_eq_nil_iff.mpr hall]

/-- What `rtakeWhile` takes is all, or stands behind the last that it does not take. -/
theorem rtakeWhile_cases (p : α → Bool) (s : List α) :
    (∀ a ∈ s, p a = true) ∨ ∃ u c, ¬ p c = true ∧ s = u ++ c :: s.rtakeWhile p := by
  rcases List.eq_nil_or_concat' (s.rdropWhile p) with hnil | ⟨u, c, hlast⟩
  · exact Or.inl (List.rdropWhile_eq_nil_iff.mp hnil)
  · right
    refine ⟨u, c, ?_, ?_⟩
    · have h := List.rdropWhile_last_not p s
      simp only [hlast] at h
      simpa using h
    · have h := List.rdropWhile_append_rtakeWhile (p := p) (l := s)
      rw [hlast, List.append_assoc] at h
      exact h.symm

theorem rtakeWhile_append_of_neg {p : α → Bool} {t : List α} (ht : ¬ ∀ a ∈ t, p a = true)
    (s : List α) : (s ++ t).rtakeWhile p = t.rtakeWhile p := by
  obtain ⟨u, c, hc, hsplit⟩ := (rtakeWhile_cases p t).resolve_left ht
  conv_lhs => rw [hsplit, ← List.append_assoc]
  exact rtakeWhile_behind hc (fun _ ha => List.mem_rtakeWhile_imp ha) _

theorem mem_head_of_starts {s t : List α} {c : α} (h : s <+: t) (hc : c ∈ s.head?) :
    c ∈ t.head? := by
  obtain ⟨u, rfl⟩ := h
  cases s with
  | nil => cases hc
  | cons d s => exact hc

/-! ### Characters that are spaces -/

/-- The spaces of an alphabet, and the one that stands between words. -/
structure Spacing (α : Type*) where
  space : α → Bool
  blank : α
  blank_space : space blank = true

namespace Spacing

variable (S : Spacing α)

def run : Pattern α where
  at?
    | [] => none
    | c :: cs => if S.space c then some ([S.blank], cs.dropWhile S.space) else none
  shorter {s r rest} h := by
    cases s with
    | nil => cases h
    | cons c cs =>
      dsimp only at h
      split at h
      · cases h
        exact Nat.lt_succ_of_le (List.dropWhile_suffix S.space).length_le
      · cases h

/-- Every run of spaces made one blank. -/
def flat (s : List α) : List α := S.run.sub s

def strip (s : List α) : List α := (s.dropWhile S.space).rdropWhile S.space

def collapse (s : List α) : List α := S.strip (S.flat s)

/-- The runs of characters that are no spaces. -/
def words [DecidableEq α] (s : List α) : List (List α) := (s.splitOnP S.space).filter (· ≠ [])

/-! ### Flat texts -/

/-- No two spaces stand together, and every space is the blank. -/
structure Flat (s : List α) : Prop where
  single : s.IsChain fun a b => ¬ (S.space a = true ∧ S.space b = true)
  blanks : ∀ c ∈ s, S.space c = true → c = S.blank

variable {S} {s t : List α} {c : α}

theorem flat_cons_space (hc : S.space c = true) :
    S.flat (c :: s) = S.blank :: S.flat (s.dropWhile S.space) :=
  Pattern.sub_of_some (P := S.run) (s := c :: s) (if_pos hc)

theorem flat_cons (hc : S.space c = false) : S.flat (c :: s) = c :: S.flat s :=
  Pattern.sub_of_none (P := S.run) (if_neg (ne_true_of_eq_false hc))

theorem flat_nil : S.flat [] = [] := rfl

/-- A proof about `flat`: a text is empty, or starts with a character that is no space, or
with a run of them. -/
theorem flat_induction {motive : List α → Prop} (nil : motive [])
    (keep : ∀ c cs, S.space c = false → motive cs → motive (c :: cs))
    (spaces : ∀ c cs, S.space c = true → motive (cs.dropWhile S.space) → motive (c :: cs)) :
    ∀ s, motive s := by
  refine Pattern.sub_induction (P := S.run) nil ?_ ?_
  · intro c cs h hcs
    refine keep c cs ?_ hcs
    by_contra hc
    rw [Bool.not_eq_false] at hc
    exact Option.some_ne_none _ ((if_pos hc).symm.trans h)
  · intro s r rest h hrest
    cases s with
    | nil => cases h
    | cons c cs =>
      rcases Bool.eq_false_or_eq_true (S.space c) with hc | hc
      · have hr := Option.some.inj ((if_pos hc).symm.trans h)
        rw [Prod.mk.injEq] at hr
        exact spaces c cs hc (hr.2 ▸ hrest)
      · exact absurd ((if_neg (ne_true_of_eq_false hc)).symm.trans h) nofun

theorem Flat.nil : S.Flat [] := ⟨List.isChain_nil, nofun⟩

theorem flat_singleton (hc : S.space c = false) : S.Flat [c] := by
  refine ⟨List.isChain_singleton c, ?_⟩
  intro d hd h
  rw [List.mem_singleton.mp hd, hc] at h
  cases h

theorem Flat.part (h : S.Flat s) (hs : t <:+: s) : S.Flat t :=
  ⟨ List.IsChain.infix h.single hs, fun c hc => h.blanks c (hs.subset hc)⟩

/-- Two flat texts stand together when not both meet with a space. -/
theorem Flat.append (hs : S.Flat s) (ht : S.Flat t)
    (h : ∀ a ∈ s.getLast?, ∀ b ∈ t.head?, ¬ (S.space a = true ∧ S.space b = true)) :
    S.Flat (s ++ t) := by
  refine ⟨List.isChain_append.mpr ⟨hs.single, ht.single, h⟩, ?_⟩
  intro c hc
  rcases List.mem_append.mp hc with hc | hc
  · exact hs.blanks c hc
  · exact ht.blanks c hc

theorem Flat.append_left (hs : S.Flat s) (ht : S.Flat t)
    (hlast : ∀ a ∈ s.getLast?, S.space a = false) : S.Flat (s ++ t) :=
  hs.append ht fun a ha _ _ h => ne_true_of_eq_false (hlast a ha) h.1

theorem Flat.append_right (hs : S.Flat s) (ht : S.Flat t)
    (hfirst : ∀ b ∈ t.head?, S.space b = false) : S.Flat (s ++ t) :=
  hs.append ht fun _ _ b hb h => ne_true_of_eq_false (hfirst b hb) h.2

theorem Flat.cons (hs : S.Flat s) (hc : S.space c = false) : S.Flat (c :: s) := by
  refine (flat_singleton hc).append_left hs ?_
  intro a ha
  rw [← Option.some.inj ha]
  exact hc

theorem Flat.around (hs : S.Flat s) (ht : S.Flat t) (hc : S.space c = false) :
    S.Flat (s ++ c :: t) := by
  refine hs.append_right (ht.cons hc) ?_
  intro b hb
  rw [← Option.some.inj hb]
  exact hc

theorem flat_blank : S.Flat [S.blank] :=
  ⟨List.isChain_singleton _, fun _ hd _ => List.mem_singleton.mp hd⟩

theorem head_dropWhile_space (s : List α) :
    ∀ b ∈ (s.dropWhile S.space).head?, S.space b = false := by
  intro b hb
  have h := List.head?_dropWhile_not S.space s
  rw [Option.mem_def.mp hb] at h
  simpa using h

theorem head_flat (h : ∀ b ∈ s.head?, S.space b = false) : (S.flat s).head? = s.head? := by
  cases s with
  | nil => rfl
  | cons c cs =>
    rw [flat_cons (h c rfl)]
    rfl

theorem head_flat_dropWhile (s : List α) :
    ∀ b ∈ (S.flat (s.dropWhile S.space)).head?, S.space b = false := by
  rw [head_flat (head_dropWhile_space s)]
  exact head_dropWhile_space s

theorem flat_flat : ∀ (s : List α), S.Flat (S.flat s) := by
  refine flat_induction (S := S) Flat.nil ?_ ?_
  · intro c cs hc hcs
    rw [flat_cons hc]
    exact hcs.cons hc
  · intro c cs hc hcs
    rw [flat_cons_space hc]
    exact flat_blank.append_right hcs (head_flat_dropWhile cs)

/-- **`flat` leaves a flat text alone.** -/
theorem flat_of_flat {s : List α} (h : S.Flat s) : S.flat s = s := by
  induction s with
  | nil => rfl
  | cons c cs ih =>
    have hcs := ih (h.part (List.suffix_cons c cs).isInfix)
    rcases Bool.eq_false_or_eq_true (S.space c) with hc | hc
    · have hdrop : cs.dropWhile S.space = cs := by
        cases cs with
        | nil => rfl
        | cons d ds =>
          have hd := (List.isChain_cons_cons.mp h.single).1
          rw [List.dropWhile_cons_of_neg]
          exact fun hd' => hd ⟨hc, hd'⟩
      rw [flat_cons_space hc, hdrop, hcs, ← h.blanks c List.mem_cons_self hc]
    · rw [flat_cons hc, hcs]

/-- **`flat` works on either side of a character that is no space.** -/
theorem flat_append (hc : S.space c = false) (t : List α) :
    ∀ (s : List α), S.flat (s ++ c :: t) = S.flat s ++ c :: S.flat t := by
  refine flat_induction (S := S) (flat_cons hc) ?_ ?_
  · intro a as ha ih
    rw [List.cons_append, flat_cons ha, ih, flat_cons ha]
    rfl
  · intro a as ha ih
    have hdrop : (as ++ c :: t).dropWhile S.space = as.dropWhile S.space ++ c :: t := by
      rw [List.dropWhile_append]
      split
      · rename_i hnil
        rw [List.isEmpty_iff.mp hnil, List.dropWhile_cons_of_neg (ne_true_of_eq_false hc)]
        rfl
      · rfl
    rw [List.cons_append, flat_cons_space ha, hdrop, ih, flat_cons_space ha]
    rfl

theorem mem_flat : ∀ (s : List α), c ∈ S.flat s → c ∈ s ∨ c = S.blank := by
  refine flat_induction (S := S) ?_ ?_ ?_
  · exact Or.inl
  · intro d ds hd ih h
    rw [flat_cons hd] at h
    rcases List.mem_cons.mp h with rfl | h
    · exact Or.inl List.mem_cons_self
    · exact (ih h).imp (List.mem_cons_of_mem d) id
  · intro d ds hd ih h
    rw [flat_cons_space hd] at h
    rcases List.mem_cons.mp h with rfl | h
    · exact Or.inr rfl
    · refine (ih h).imp (fun h => List.mem_cons_of_mem d ?_) id
      exact (List.dropWhile_suffix S.space).subset h

/-! ### Tidy texts -/

variable (S) in
structure Tidy (s : List α) : Prop where
  flat : S.Flat s
  first : ∀ b ∈ s.head?, S.space b = false
  last : ∀ b ∈ s.getLast?, S.space b = false

theorem dropWhile_space (h : ∀ b ∈ s.head?, S.space b = false) : s.dropWhile S.space = s := by
  cases s with
  | nil => rfl
  | cons c cs =>
    exact List.dropWhile_cons_of_neg (ne_true_of_eq_false (h c rfl))

theorem rdropWhile_space (h : ∀ b ∈ s.getLast?, S.space b = false) :
    s.rdropWhile S.space = s := by
  rw [List.rdropWhile_eq_self_iff]
  intro hne
  rw [h _ (List.getLast?_eq_some_getLast hne)]
  exact Bool.false_ne_true

/-- **`collapse` leaves a tidy text alone.** -/
theorem Tidy.collapse (h : S.Tidy s) : S.collapse s = s := by
  rw [Spacing.collapse, flat_of_flat h.flat, strip, dropWhile_space h.first,
    rdropWhile_space h.last]

theorem last_rdropWhile (s : List α) :
    ∀ b ∈ (s.rdropWhile S.space).getLast?, S.space b = false := by
  intro b hb
  have hne : s.rdropWhile S.space ≠ [] := by
    intro hnil
    rw [hnil] at hb
    cases hb
  rw [Option.mem_def, List.getLast?_eq_some_getLast hne, Option.some.injEq] at hb
  rw [← hb]
  exact eq_false_of_ne_true (List.rdropWhile_last_not S.space s hne)

theorem tidy_collapse (s : List α) : S.Tidy (S.collapse s) := by
  have hstarts : S.collapse s <+: (S.flat s).dropWhile S.space := List.rdropWhile_prefix _ _
  refine ⟨?_, ?_, ?_⟩
  · exact ((flat_flat s).part (List.dropWhile_suffix _).isInfix).part hstarts.isInfix
  · exact fun b hb => head_dropWhile_space _ b (mem_head_of_starts hstarts hb)
  · exact last_rdropWhile _

theorem Tidy.nil : S.Tidy [] := ⟨Flat.nil, nofun, nofun⟩

theorem last_flat (h : ∀ b ∈ s.getLast?, S.space b = false) :
    ∀ b ∈ (S.flat s).getLast?, S.space b = false := by
  rcases List.eq_nil_or_concat' s with rfl | ⟨t, c, rfl⟩
  · exact nofun
  · have hc : S.space c = false := h c (List.getLast?_concat)
    rw [flat_append hc, flat_nil]
    intro b hb
    rw [List.getLast?_append_cons] at hb
    obtain rfl : c = b := Option.some.inj hb
    exact hc

theorem Tidy.flat_blank (hs : S.Tidy s) : S.Flat (s ++ [S.blank]) :=
  hs.flat.append_left Spacing.flat_blank hs.last

/-- **A tidy text behind a blank** is flattened apart from what stands before it. -/
theorem flat_append_blank (hs : ∀ b ∈ s.getLast?, S.space b = false) (ht : S.Tidy t)
    (ht0 : t ≠ []) : S.flat (s ++ S.blank :: t) = S.flat s ++ S.blank :: t := by
  obtain ⟨d, ds, rfl⟩ := List.exists_cons_of_ne_nil ht0
  have hd : S.space d = false := ht.first d rfl
  have hds : S.flat ds = ds := flat_of_flat (ht.flat.part (List.suffix_cons d ds).isInfix)
  rcases List.eq_nil_or_concat' s with rfl | ⟨u, c, rfl⟩
  · rw [List.nil_append, flat_cons_space S.blank_space, dropWhile_space ht.first,
      flat_of_flat ht.flat]
    rfl
  · have hc : S.space c = false := hs c (List.getLast?_concat)
    rw [List.append_assoc, List.singleton_append, flat_append hc, flat_append hc, flat_nil,
      flat_cons_space S.blank_space, dropWhile_space ht.first, flat_of_flat ht.flat,
      List.append_assoc]
    rfl

theorem Tidy.blank (hs : S.Tidy s) (hs0 : s ≠ []) (ht : S.Tidy t) (ht0 : t ≠ []) :
    S.Tidy (s ++ S.blank :: t) := by
  refine ⟨?_, ?_, ?_⟩
  · rw [List.append_cons]
    exact hs.flat_blank.append_right ht.flat ht.first
  · rw [List.head?_append_of_ne_nil _ hs0]
    exact hs.first
  · rw [List.getLast?_append_of_ne_nil _ (List.cons_ne_nil _ _), List.getLast?_cons_of_ne_nil ht0]
    exact ht.last

theorem Tidy.collapse_blank (hs : S.Tidy s) (hs0 : s ≠ []) : S.collapse (s ++ [S.blank]) = s := by
  have hfirst : ∀ b ∈ (s ++ [S.blank]).head?, S.space b = false := by
    rw [List.head?_append_of_ne_nil _ hs0]
    exact hs.first
  rw [Spacing.collapse, flat_of_flat hs.flat_blank, strip, dropWhile_space hfirst,
    List.rdropWhile_concat_pos _ _ _ S.blank_space, rdropWhile_space hs.last]

/-- **A text around a character that is no space** is collapsed on either side of it. -/
theorem collapse_around (hs : ∀ b ∈ (s ++ [c]).head?, S.space b = false)
    (hc : S.space c = false) (t : List α) :
    S.collapse (s ++ c :: t) = S.flat s ++ c :: (S.flat t).rdropWhile S.space := by
  have hfirst : ∀ b ∈ (S.flat s ++ c :: S.flat t).head?, S.space b = false := by
    cases s with
    | nil =>
      intro b hb
      obtain rfl : c = b := Option.some.inj hb
      exact hc
    | cons d ds =>
      have hd : S.space d = false := hs d rfl
      rw [flat_cons hd]
      intro b hb
      obtain rfl : d = b := Option.some.inj hb
      exact hd
  rw [Spacing.collapse, flat_append hc, strip, dropWhile_space hfirst, rdropWhile_around]
  rw [hc]
  exact Bool.false_ne_true

theorem spaceless_of_all (h : (s.all fun a => !S.space a) = true) :
    ∀ a ∈ s, S.space a = false := by
  simpa using h

theorem tidy_word (h : ∀ a ∈ s, S.space a = false) : S.Tidy s := by
  refine ⟨⟨?_, ?_⟩, ?_, ?_⟩
  · induction s with
    | nil => exact List.isChain_nil
    | cons a as ih =>
      refine List.isChain_cons.mpr ⟨?_, ih fun b hb => h b (List.mem_cons_of_mem a hb)⟩
      rintro b - ⟨ha, -⟩
      rw [h a List.mem_cons_self] at ha
      cases ha
  · intro c hc hs
    rw [h c hc] at hs
    cases hs
  · intro b hb
    exact h b (List.mem_of_mem_head? hb)
  · intro b hb
    exact h b (List.mem_of_mem_getLast? hb)

/-! ### Texts in pieces -/

theorem flat_around_iff (hc : S.space c = false) : S.Flat (s ++ c :: t) ↔ S.Flat s ∧ S.Flat t := by
  constructor
  · intro h
    exact ⟨h.part (List.prefix_append s _).isInfix,
      h.part ((List.suffix_cons c t).trans (List.suffix_append s _)).isInfix⟩
  · rintro ⟨hs, ht⟩
    exact hs.around ht hc

theorem flat_intercalate_iff (hc : S.space c = false) (ps : List (List α)) :
    S.Flat ([c].intercalate ps) ↔ ∀ p ∈ ps, S.Flat p := by
  induction ps with
  | nil => exact ⟨fun _ => nofun, fun _ => Flat.nil⟩
  | cons p ps ih =>
    cases ps with
    | nil => rw [List.intercalate_singleton, List.forall_mem_singleton]
    | cons q ps =>
      rw [List.intercalate_cons_cons, List.append_assoc, List.singleton_append,
        flat_around_iff hc, ih, List.forall_mem_cons (l := q :: ps)]

theorem intercalate_ne_nil {w : List α} (hw : w ≠ []) (c : α) (ws : List (List α)) :
    [c].intercalate (w :: ws) ≠ [] := by
  cases ws with
  | nil =>
    rw [List.intercalate_singleton]
    exact hw
  | cons v ws =>
    rw [List.intercalate_cons_cons, List.append_assoc]
    exact List.append_ne_nil_of_left_ne_nil hw _

theorem tidy_intercalate {ws : List (List α)}
    (h : ∀ w ∈ ws, w ≠ [] ∧ ∀ a ∈ w, S.space a = false) : S.Tidy ([S.blank].intercalate ws) := by
  induction ws with
  | nil => exact Tidy.nil
  | cons w ws ih =>
    have hw := h w List.mem_cons_self
    have hrest := fun u hu => h u (List.mem_cons_of_mem w hu)
    cases ws with
    | nil =>
      rw [List.intercalate_singleton]
      exact tidy_word hw.2
    | cons v ws =>
      rw [List.intercalate_cons_cons, List.append_assoc, List.singleton_append]
      exact (tidy_word hw.2).blank hw.1 (ih hrest)
        (intercalate_ne_nil (hrest v List.mem_cons_self).1 _ ws)

/-- Words behind a tidy text: the blank before them goes when there are none. -/
theorem collapse_words {ws : List (List α)} (hs : S.Tidy s) (hne : s ≠ [])
    (hws : ∀ w ∈ ws, w ≠ [] ∧ ∀ a ∈ w, S.space a = false) :
    S.collapse (s ++ S.blank :: [S.blank].intercalate ws)
      = s ++ [S.blank].intercalate ([] :: ws) := by
  cases ws with
  | nil =>
    rw [List.intercalate_singleton, List.append_nil]
    exact hs.collapse_blank hne
  | cons w ws =>
    have hjoin0 := intercalate_ne_nil (hws w List.mem_cons_self).1 S.blank ws
    rw [List.intercalate_cons_cons, List.nil_append]
    exact (hs.blank hne (tidy_intercalate hws) hjoin0).collapse

/-! ### What is not a space -/

theorem flat_append_word (hs : ∀ a ∈ s, S.space a = false) (t : List α) :
    S.flat (s ++ t) = s ++ S.flat t := by
  induction s with
  | nil => rfl
  | cons a s ih =>
    rw [List.cons_append, flat_cons (hs a List.mem_cons_self),
      ih fun b hb => hs b (List.mem_cons_of_mem a hb)]
    rfl

theorem flat_dropWhile (s : List α) :
    S.flat (s.dropWhile S.space) = (S.flat s).dropWhile S.space := by
  cases s with
  | nil => rfl
  | cons c cs =>
    rcases Bool.eq_false_or_eq_true (S.space c) with hc | hc
    · rw [flat_cons_space hc, List.dropWhile_cons_of_pos hc,
        List.dropWhile_cons_of_pos S.blank_space, dropWhile_space (head_flat_dropWhile cs)]
    · have hc' : ¬ S.space c = true := ne_true_of_eq_false hc
      rw [flat_cons hc, List.dropWhile_cons_of_neg hc', List.dropWhile_cons_of_neg hc',
        flat_cons hc]

theorem flat_append_congr (h : S.flat s = S.flat t) (r : List α) :
    S.flat (r ++ s) = S.flat (r ++ t) := by
  induction r with
  | nil => exact h
  | cons c r ih =>
    rcases Bool.eq_false_or_eq_true (S.space c) with hc | hc
    · rw [List.cons_append, List.cons_append, flat_cons_space hc, flat_cons_space hc,
        flat_dropWhile, flat_dropWhile, ih]
    · rw [List.cons_append, List.cons_append, flat_cons hc, flat_cons hc, ih]

theorem flat_spaces_blank (hs : ∀ a ∈ s, S.space a = true) (t : List α) :
    S.flat (s ++ S.blank :: t) = S.flat (S.blank :: t) := by
  cases s with
  | nil => rfl
  | cons c s =>
    have hrest : ∀ a ∈ s, S.space a = true := fun a ha => hs a (List.mem_cons_of_mem c ha)
    rw [List.cons_append, flat_cons_space (hs c List.mem_cons_self), flat_cons_space S.blank_space,
      List.dropWhile_append_of_pos hrest, List.dropWhile_cons_of_pos S.blank_space]

theorem flat_blank_spaces (hs : ∀ a ∈ s, S.space a = true) (t : List α) :
    S.flat (S.blank :: (s ++ t)) = S.flat (S.blank :: t) := by
  rw [flat_cons_space S.blank_space, flat_cons_space S.blank_space, List.dropWhile_append_of_pos hs]

/-- `flat` leaves a text to start as it does, or with the blank. -/
theorem mem_head_flat (h : c ∈ (S.flat s).head?) : c ∈ s.head? ∨ c = S.blank := by
  cases s with
  | nil => cases h
  | cons d ds =>
    rcases Bool.eq_false_or_eq_true (S.space d) with hd | hd
    · rw [flat_cons_space hd] at h
      exact Or.inr (Option.some.inj h).symm
    · rw [flat_cons hd] at h
      exact Or.inl h

variable (S) in
def bare (s : List α) : List α := s.filter fun c => !S.space c

theorem bare_append (s t : List α) : S.bare (s ++ t) = S.bare s ++ S.bare t :=
  List.filter_append _ _

theorem bare_cons (hc : S.space c = false) (s : List α) : S.bare (c :: s) = c :: S.bare s :=
  List.filter_cons_of_pos (by rw [hc]; rfl)

theorem bare_cons_space (hc : S.space c = true) (s : List α) : S.bare (c :: s) = S.bare s :=
  List.filter_cons_of_neg (by rw [hc]; exact Bool.false_ne_true)

theorem bare_spaces (hs : ∀ a ∈ s, S.space a = true) : S.bare s = [] := by
  rw [bare, List.filter_eq_nil_iff]
  intro a ha
  rw [hs a ha]
  exact Bool.false_ne_true

theorem bare_word (hs : ∀ a ∈ s, S.space a = false) : S.bare s = s := by
  rw [bare, List.filter_eq_self]
  intro a ha
  rw [hs a ha]
  rfl

theorem bare_dropWhile (s : List α) : S.bare (s.dropWhile S.space) = S.bare s := by
  have hspaces : S.bare (s.takeWhile S.space) = [] :=
    bare_spaces fun _ ha => List.mem_takeWhile_imp ha
  have h := bare_append (S := S) (s.takeWhile S.space) (s.dropWhile S.space)
  rw [List.takeWhile_append_dropWhile, hspaces, List.nil_append] at h
  exact h.symm

theorem bare_rdropWhile (s : List α) : S.bare (s.rdropWhile S.space) = S.bare s := by
  have hspaces : S.bare (s.rtakeWhile S.space) = [] :=
    bare_spaces fun _ ha => List.mem_rtakeWhile_imp ha
  have h := bare_append (S := S) (s.rdropWhile S.space) (s.rtakeWhile S.space)
  rw [List.rdropWhile_append_rtakeWhile, hspaces, List.append_nil] at h
  exact h.symm

theorem bare_flat : ∀ (s : List α), S.bare (S.flat s) = S.bare s := by
  refine flat_induction (S := S) rfl ?_ ?_
  · intro c cs hc ih
    rw [flat_cons hc, bare_cons hc, bare_cons hc, ih]
  · intro c cs hc ih
    rw [flat_cons_space hc, bare_cons_space S.blank_space, bare_cons_space hc, ih, bare_dropWhile]

/-- **Nothing but spaces comes or goes.** -/
theorem bare_collapse (s : List α) : S.bare (S.collapse s) = S.bare s := by
  rw [collapse, strip, bare_rdropWhile, bare_dropWhile, bare_flat]

end Spacing

end ZuCpp.Lib
