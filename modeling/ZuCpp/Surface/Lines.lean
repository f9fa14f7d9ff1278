import ZuCpp.Surface.Gate

/-!
# A text as its lines

What `splitlines` takes apart is put together again by a line feed behind every line, when no
line has a character in it that ends one.  All those characters are spaces, so a collapsed
text has none (`oneLine_collapse`).
-/

namespace ZuCpp.Surface

open Lib

/-- No character of it ends a line. -/
def OneLine (line : Text) : Prop := ∀ c ∈ line, isBreak c = false

theorem oneLine_of_all {line : Text} (h : (line.all fun c => !isBreak c) = true) :
    OneLine line := by
  intro c hc
  have hc' := List.all_eq_true.mp h c hc
  rwa [Bool.not_eq_true'] at hc'

def unlines (lines : List Text) : Text := lines.flatMap (· ++ ['\n'])

theorem unlines_cons (line : Text) (lines : List Text) :
    unlines (line :: lines) = line ++ '\n' :: unlines lines := by
  rw [unlines, List.flatMap_cons, List.append_assoc]
  rfl

theorem join_unlines {lines : List Text} (h : lines ≠ []) :
    join "\n" lines ++ ['\n'] = unlines lines := by
  induction lines with
  | nil => exact absurd rfl h
  | cons line lines ih =>
    cases lines with
    | nil =>
      rw [join, List.intercalate_singleton, unlines_cons]
      rfl
    | cons next lines =>
      rw [unlines_cons, ← ih (List.cons_ne_nil _ _), join, join, List.intercalate_cons_cons]
      simp only [List.append_assoc]
      rfl

/-! ### Taking a text apart -/

theorem splitlinesFrom_cons {c : Char} (hc : isBreak c = false) (line s : Text) :
    splitlinesFrom line (c :: s) = splitlinesFrom (line ++ [c]) s := by
  have hreturn : c ≠ '\r' := by
    rintro rfl
    exact absurd hc (by decide)
  rw [splitlinesFrom.eq_def]
  split
  · rename_i heq
    cases heq
  · rename_i heq
    exact absurd (List.cons.inj heq).1 hreturn
  · rename_i heq
    obtain ⟨rfl, rfl⟩ := List.cons.inj heq
    exact if_neg (ne_true_of_eq_false hc)

theorem splitlinesFrom_line {l : Text} (hl : OneLine l) : ∀ (line s : Text),
    splitlinesFrom line (l ++ '\n' :: s) = (line ++ l) :: splitlines s := by
  induction l with
  | nil =>
    intro line s
    rw [List.append_nil]
    rfl
  | cons c l ih =>
    intro line s
    rw [List.cons_append, splitlinesFrom_cons (hl c List.mem_cons_self),
      ih fun d hd => hl d (List.mem_cons_of_mem c hd), List.append_assoc, List.singleton_append]

theorem splitlines_line {l : Text} (hl : OneLine l) (s : Text) :
    splitlines (l ++ '\n' :: s) = l :: splitlines s := splitlinesFrom_line hl [] s

/-- **The lines of a text are the ones it was made of.** -/
theorem splitlines_unlines {lines : List Text} (h : ∀ l ∈ lines, OneLine l) :
    splitlines (unlines lines) = lines := by
  induction lines with
  | nil => rfl
  | cons line lines ih =>
    rw [unlines_cons, splitlines_line (h line List.mem_cons_self),
      ih fun l hl => h l (List.mem_cons_of_mem line hl)]

/-! ### Lines that are collapsed -/

theorem isSpace_of_isBreak {c : Char} (h : isBreak c = true) : isSpace c = true := by
  simp only [isBreak, isSpace, decide_eq_true_eq] at h ⊢
  omega

theorem oneLine_collapse (s : Text) : OneLine (collapse s) := by
  intro c hc
  by_contra hbreak
  rw [Bool.not_eq_false] at hbreak
  have hblank : c = ' ' :=
    (Spacing.tidy_collapse (S := python) s).flat.blanks c hc (isSpace_of_isBreak hbreak)
  rw [hblank] at hbreak
  exact absurd hbreak (by decide)

/-! ### The lines of any text -/

end ZuCpp.Surface
